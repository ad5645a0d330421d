/-
  Fantom.Lib.Relink — A table whose entries point at each other, rebuilt from one record an entry.

  * `get_rebuild` — the records of a closed table, in any order, give its entries and no others.
-/
import Fantom.Lib.StdMap

namespace Fantom.Lib.Relink

open List StdMap

universe u v w

/-- How records stand for entries. -/
structure Format (R : Type u) (K : Type v) (V : Type w) where
  key : R → K
  refs : R → List K
  blank : K → V
  make : R → V

variable {R : Type u} {K : Type v} {V : Type w} [Ord K] [Std.TransOrd K] [Std.LawfulEqOrd K]
  [DecidableEq K] (F : Format R K V)

variable (m : StdMap K V)

/-- The entry at a key is there, blank unless it was there before. -/
def refer (k : K) : StdMap K V := m.insertNew k (F.blank k)

def place (r : R) : StdMap K V :=
  ((F.key r :: F.refs r).foldl (refer F) m).insert (F.key r) (F.make r)

def rebuild (l : List R) : StdMap K V := l.foldl (place F) ∅

variable {F}

theorem refer_of_some {ks : List K} {m : StdMap K V} {k : K} {v : V} (h : m[k]? = some v) :
    (ks.foldl (refer F) m)[k]? = some v := by
  induction ks generalizing m with
  | nil => exact h
  | cons a ks ih => exact ih (get_insertNew_of_some h)

theorem some_of_refer {ks : List K} {m : StdMap K V} {k : K} {v : V}
    (h : (ks.foldl (refer F) m)[k]? = some v) : k ∈ ks ∨ m[k]? = some v := by
  induction ks generalizing m with
  | nil => exact .inr h
  | cons a ks ih =>
    rcases ih h with hmem | hget
    · exact .inl (mem_cons_of_mem _ hmem)
    · rw [refer, get_insertNew] at hget
      by_cases hk : a = k
      · rw [hk]
        exact .inl mem_cons_self
      · rw [if_neg hk] at hget
        exact .inr hget

theorem place_self (r : R) : (place F m r)[F.key r]? = some (F.make r) :=
  get_insert_self _ _ _

theorem place_of_ne {m : StdMap K V} {r : R} {k : K} {v : V} (hk : F.key r ≠ k)
    (h : m[k]? = some v) : (place F m r)[k]? = some v := by
  rw [place, get_insert_ne _ _ hk]
  exact refer_of_some h

theorem some_of_place {m : StdMap K V} {r : R} {k : K} {v : V} (h : (place F m r)[k]? = some v) :
    k ∈ F.key r :: F.refs r ∨ m[k]? = some v := by
  unfold place at h
  by_cases hk : F.key r = k
  · rw [← hk]
    exact .inl mem_cons_self
  · rw [get_insert_ne _ _ hk] at h
    exact some_of_refer h

/-- **The table is rebuilt.**  Where the keys are distinct and point at each other only, the
records give every entry, and no others. -/
theorem get_rebuild {l : List R} (hkeys : l.Pairwise fun r r' => F.key r ≠ F.key r')
    (hrefs : ∀ r ∈ l, ∀ k ∈ F.refs r, ∃ r' ∈ l, F.key r' = k) :
    (∀ r ∈ l, (rebuild F l)[F.key r]? = some (F.make r)) ∧
      ∀ k v, (rebuild F l)[k]? = some v → ∃ r ∈ l, F.key r = k := by
  -- both for a prefix of the records, on the way to the whole list
  suffices key : ∀ (rest : List R) (m : StdMap K V), rest ⊆ l →
      rest.Pairwise (fun r r' => F.key r ≠ F.key r') →
      (∀ k v, m[k]? = some v → ∃ r ∈ l, F.key r = k) →
      (∀ r ∈ rest, (rest.foldl (place F) m)[F.key r]? = some (F.make r)) ∧
      (∀ k v, m[k]? = some v → (∀ r ∈ rest, F.key r ≠ k) →
        (rest.foldl (place F) m)[k]? = some v) ∧
      ∀ k v, (rest.foldl (place F) m)[k]? = some v → ∃ r ∈ l, F.key r = k by
    obtain ⟨hall, _, honly⟩ := key l ∅ (fun _ h => h) hkeys (by
      intro k v h
      rw [get_empty] at h
      cases h)
    exact ⟨hall, honly⟩
  intro rest
  induction rest with
  | nil =>
    intro m _ _ hm
    exact ⟨nofun, fun k v h _ => h, hm⟩
  | cons a rest ih =>
    intro m hsub hdist hm
    obtain ⟨ha, hdist⟩ := pairwise_cons.mp hdist
    have hal : a ∈ l := hsub mem_cons_self
    have hplace : ∀ k v, (place F m a)[k]? = some v → ∃ r ∈ l, F.key r = k := by
      intro k v h
      rcases some_of_place h with hmem | hget
      · rcases mem_cons.mp hmem with rfl | hmem
        · exact ⟨a, hal, rfl⟩
        · exact hrefs a hal k hmem
      · exact hm k v hget
    obtain ⟨hall, hkeep, honly⟩ := ih (place F m a)
      (fun x hx => hsub (mem_cons_of_mem _ hx)) hdist hplace
    refine ⟨?_, ?_, honly⟩
    · intro r hr
      rcases mem_cons.mp hr with rfl | hr
      · exact hkeep _ _ (place_self m r) fun r' hr' heq => ha r' hr' heq.symm
      · exact hall r hr
    · intro k v h hne
      exact hkeep k v (place_of_ne (hne a mem_cons_self) h)
        fun r hr => hne r (mem_cons_of_mem _ hr)

end Fantom.Lib.Relink
