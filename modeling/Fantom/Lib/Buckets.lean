/-
  Fantom.Lib.Buckets — Members in numbered buckets.

  * `holders_insert`, `holders_erase`, `holders_eraseAll` — what a change does to the holders.
-/
import Fantom.Lib.StdMap
import Mathlib.Algebra.BigOperators.Fin
import Mathlib.Algebra.Order.BigOperators.Group.Finset

namespace Fantom.Lib

open List Function

universe u

/-! ## §1. Sets that may share members. -/

section holders

variable {ι : Type} [Fintype ι] {K : Type u} [Ord K] [Std.TransOrd K]

/-- The buckets that have `a`. -/
def holders (vv : ι → StdSet K) (a : K) : Finset ι := Finset.univ.filter fun b => a ∈ vv b

@[simp] theorem mem_holders {vv : ι → StdSet K} {a : K} {b : ι} : b ∈ holders vv a ↔ a ∈ vv b := by
  simp [holders]

theorem holders_eq_empty {vv : ι → StdSet K} {a : K} (h : ∀ b, a ∉ vv b) : holders vv a = ∅ := by
  ext b
  rw [mem_holders]
  exact iff_of_false (h b) (Finset.notMem_empty b)

variable [DecidableEq ι] [DecidableEq K] [Std.LawfulEqOrd K]

theorem holders_insert (vv : ι → StdSet K) (b : ι) (a c : K) :
    holders (update vv b ((vv b).insert a)) c =
      if c = a then insert b (holders vv c) else holders vv c := by
  ext b'
  rw [mem_holders]
  by_cases hb : b' = b
  · subst hb
    rw [update_self, Std.ExtTreeSet.mem_insert, Std.LawfulEqOrd.compare_eq_iff_eq]
    split
    · rename_i hca
      exact iff_of_true (.inl hca.symm) (Finset.mem_insert_self _ _)
    · rename_i hca
      rw [mem_holders]
      exact ⟨fun h => h.resolve_left (Ne.symm hca), .inr⟩
  · rw [update_of_ne hb]
    split
    · rw [Finset.mem_insert, mem_holders]
      exact ⟨.inr, fun h => h.resolve_left hb⟩
    · rw [mem_holders]

theorem holders_erase (vv : ι → StdSet K) (b : ι) (a c : K) :
    holders (update vv b ((vv b).erase a)) c =
      if c = a then (holders vv c).erase b else holders vv c := by
  ext b'
  rw [mem_holders]
  by_cases hb : b' = b
  · subst hb
    rw [update_self, Std.ExtTreeSet.mem_erase, ne_eq, Std.LawfulEqOrd.compare_eq_iff_eq]
    split
    · rename_i hca
      exact iff_of_false (fun h => h.1 hca.symm) (Finset.notMem_erase _ _)
    · rename_i hca
      rw [mem_holders]
      exact ⟨And.right, fun h => ⟨Ne.symm hca, h⟩⟩
  · rw [update_of_ne hb]
    split
    · rw [Finset.mem_erase, mem_holders]
      exact ⟨fun h => ⟨hb, h⟩, And.right⟩
    · rw [mem_holders]

omit [DecidableEq ι] in
theorem holders_eraseAll (vv : ι → StdSet K) (a c : K) :
    holders (fun b => (vv b).erase a) c = if c = a then ∅ else holders vv c := by
  ext b
  rw [mem_holders, Std.ExtTreeSet.mem_erase, ne_eq, Std.LawfulEqOrd.compare_eq_iff_eq]
  split
  · rename_i hca
    exact iff_of_false (fun h => h.1 hca.symm) (Finset.notMem_empty _)
  · rename_i hca
    rw [mem_holders]
    exact ⟨And.right, fun h => ⟨Ne.symm hca, h⟩⟩

end holders

theorem countP_finRange {k : Nat} (p : Fin k → Bool) :
    (List.finRange k).countP p = (Finset.univ.filter fun b => p b = true).card := by
  rw [countP_eq_length_filter,
    ← toFinset_card_of_nodup ((nodup_finRange k).filter _)]
  congr 1
  ext b
  simp

/-! ## §2. Lists that share none. -/

section once

variable {ι : Type} {α : Type u}

/-- The members with `p` are each in one bucket, once; and nothing else is in a bucket. -/
structure Once (vv : ι → List α) (p : α → Prop) : Prop where
  mem : ∀ a, (∃ b, a ∈ vv b) ↔ p a
  nodup : ∀ b, (vv b).Nodup
  one : ∀ b b' a, a ∈ vv b → a ∈ vv b' → b = b'

namespace Once

variable {vv : ι → List α} {p q : α → Prop}

theorem empty : Once (fun _ : ι => ([] : List α)) fun _ => False where
  mem _ := ⟨fun ⟨_, h⟩ => absurd h not_mem_nil, False.elim⟩
  nodup _ := nodup_nil
  one _ _ _ h := absurd h not_mem_nil

theorem congr (h : Once vv p) (hpq : ∀ a, p a ↔ q a) : Once vv q where
  mem a := (h.mem a).trans (hpq a)
  nodup := h.nodup
  one := h.one

variable [DecidableEq ι]

theorem push (h : Once vv p) {a : α} (ha : ¬ p a) (b : ι) :
    Once (update vv b (vv b ++ [a])) fun c => c = a ∨ p c := by
  have hnone : ∀ b', a ∉ vv b' := fun b' hb' => ha ((h.mem a).mp ⟨b', hb'⟩)
  have hmem : ∀ b' c, c ∈ update vv b (vv b ++ [a]) b' ↔
      c ∈ vv b' ∨ (b' = b ∧ c = a) := by
    intro b' c
    by_cases hb : b' = b
    · subst hb
      rw [update_self, mem_append, mem_singleton]
      simp
    · rw [update_of_ne hb]
      simp [hb]
  constructor
  · intro c
    simp only [hmem]
    constructor
    · rintro ⟨b', hc | ⟨-, rfl⟩⟩
      · exact .inr ((h.mem c).mp ⟨b', hc⟩)
      · exact .inl rfl
    · rintro (rfl | hc)
      · exact ⟨b, .inr ⟨rfl, rfl⟩⟩
      · obtain ⟨b', hb'⟩ := (h.mem c).mpr hc
        exact ⟨b', .inl hb'⟩
  · intro b'
    by_cases hb : b' = b
    · subst hb
      rw [update_self, nodup_append]
      refine ⟨h.nodup b', nodup_singleton a, fun x hx y hy hxy => ?_⟩
      rw [mem_singleton] at hy
      rw [hxy, hy] at hx
      exact hnone b' hx
    · rw [update_of_ne hb]
      exact h.nodup b'
  · intro b₁ b₂ c h₁ h₂
    rcases (hmem b₁ c).mp h₁ with hc₁ | ⟨hb₁, hca⟩
    · rcases (hmem b₂ c).mp h₂ with hc₂ | ⟨-, hca⟩
      · exact h.one b₁ b₂ c hc₁ hc₂
      · rw [hca] at hc₁
        exact absurd hc₁ (hnone b₁)
    · rcases (hmem b₂ c).mp h₂ with hc₂ | ⟨hb₂, -⟩
      · rw [hca] at hc₂
        exact absurd hc₂ (hnone b₂)
      · rw [hb₁, hb₂]

theorem perm (h : Once vv p) {b : ι} {l : List α} (hl : l.Perm (vv b)) :
    Once (update vv b l) p := by
  have hmem : ∀ b' c, c ∈ update vv b l b' ↔ c ∈ vv b' := by
    intro b' c
    by_cases hb : b' = b
    · subst hb
      rw [update_self]
      exact hl.mem_iff
    · rw [update_of_ne hb]
  constructor
  · intro c
    simp only [hmem]
    exact h.mem c
  · intro b'
    by_cases hb : b' = b
    · subst hb
      rw [update_self]
      exact hl.nodup_iff.mpr (h.nodup b')
    · rw [update_of_ne hb]
      exact h.nodup b'
  · intro b₁ b₂ c h₁ h₂
    exact h.one b₁ b₂ c ((hmem b₁ c).mp h₁) ((hmem b₂ c).mp h₂)

theorem replace (h : Once vv p) {a old : α} {b : ι} {i : Nat} (ha : ¬ p a)
    (hold : (vv b)[i]? = some old) :
    Once (update vv b ((vv b).set i a)) fun c => c = a ∨ (c ≠ old ∧ p c) := by
  have hnone : ∀ b', a ∉ vv b' := fun b' hb' => ha ((h.mem a).mp ⟨b', hb'⟩)
  have hlt := (List.getElem?_eq_some_iff.mp hold).1
  have hset : ∀ c, c ∈ (vv b).set i a ↔ c = a ∨ (c ∈ vv b ∧ c ≠ old) := by
    intro c
    rw [mem_iff_getElem?, mem_iff_getElem?]
    constructor
    · rintro ⟨j, hj⟩
      rw [List.getElem?_set] at hj
      split at hj
      · rename_i hij
        exact .inl (Option.some.inj hj).symm
      · rename_i hij
        refine .inr ⟨⟨j, hj⟩, ?_⟩
        rintro rfl
        exact hij ((List.getElem?_inj hlt (h.nodup b)).mp (hold.trans hj.symm))
    · rintro (rfl | ⟨⟨j, hj⟩, hc⟩)
      · exact ⟨i, by rw [List.getElem?_set_self hlt]⟩
      · refine ⟨j, ?_⟩
        rw [List.getElem?_set_ne]
        · exact hj
        · rintro rfl
          exact hc (Option.some.inj (hj.symm.trans hold))
  have hmem : ∀ b' c, c ∈ update vv b ((vv b).set i a) b' ↔
      (b' = b ∧ c = a) ∨ (c ∈ vv b' ∧ c ≠ old) := by
    intro b' c
    by_cases hb : b' = b
    · subst hb
      rw [update_self, hset]
      simp
    · rw [update_of_ne hb]
      constructor
      · intro hc
        refine .inr ⟨hc, ?_⟩
        rintro rfl
        exact hb (h.one b' b c hc (mem_of_getElem? hold))
      · rintro (⟨hb', -⟩ | ⟨hc, -⟩)
        · exact absurd hb' hb
        · exact hc
  constructor
  · intro c
    simp only [hmem]
    constructor
    · rintro ⟨b', ⟨-, rfl⟩ | ⟨hc, hne⟩⟩
      · exact .inl rfl
      · exact .inr ⟨hne, (h.mem c).mp ⟨b', hc⟩⟩
    · rintro (rfl | ⟨hne, hc⟩)
      · exact ⟨b, .inl ⟨rfl, rfl⟩⟩
      · obtain ⟨b', hb'⟩ := (h.mem c).mpr hc
        exact ⟨b', .inr ⟨hb', hne⟩⟩
  · intro b'
    by_cases hb : b' = b
    · subst hb
      rw [update_self]
      exact (h.nodup b').set (hnone b')
    · rw [update_of_ne hb]
      exact h.nodup b'
  · intro b₁ b₂ c h₁ h₂
    rcases (hmem b₁ c).mp h₁ with ⟨hb₁, hca⟩ | ⟨hc₁, -⟩
    · rcases (hmem b₂ c).mp h₂ with ⟨hb₂, -⟩ | ⟨hc₂, -⟩
      · rw [hb₁, hb₂]
      · rw [hca] at hc₂
        exact absurd hc₂ (hnone b₂)
    · rcases (hmem b₂ c).mp h₂ with ⟨-, hca⟩ | ⟨hc₂, -⟩
      · rw [hca] at hc₁
        exact absurd hc₁ (hnone b₁)
      · exact h.one b₁ b₂ c hc₁ hc₂

end Once

theorem Once.sum_length {k : Nat} {vv : Fin k → List α} {p : α → Prop} (h : Once vv p)
    {l : List α} (hl : l.Nodup) (hmem : ∀ a, a ∈ l ↔ p a) : ∑ b, (vv b).length = l.length := by
  have hnodup : ((List.finRange k).flatMap vv).Nodup := by
    rw [nodup_flatMap]
    refine ⟨fun b _ => h.nodup b, ?_⟩
    refine (nodup_finRange k).imp fun {b b'} hne a ha ha' => ?_
    exact hne (h.one b b' a ha ha')
  have hperm : ((List.finRange k).flatMap vv).Perm l := by
    rw [perm_ext_iff_of_nodup hnodup hl]
    intro a
    rw [mem_flatMap, hmem, ← h.mem]
    simp
  rw [← hperm.length_eq, length_flatMap, Fin.sum_univ_def]

theorem sum_length_update {k : Nat} (vv : Fin k → List α) (b : Fin k) (l : List α) :
    ∑ i, (update vv b l i).length + (vv b).length =
      ∑ i, (vv i).length + l.length := by
  rw [← Finset.add_sum_erase _ _ (Finset.mem_univ b),
    ← Finset.add_sum_erase Finset.univ (fun i => (vv i).length) (Finset.mem_univ b),
    update_self]
  have hrest : ∑ i ∈ Finset.univ.erase b, (update vv b l i).length =
      ∑ i ∈ Finset.univ.erase b, (vv i).length := by
    refine Finset.sum_congr rfl fun i hi => ?_
    rw [update_of_ne (Finset.ne_of_mem_erase hi)]
  rw [hrest]
  omega

end once

/-! ## §3. Members that are numbered. -/

section numbers

variable {α : Type u} {β : Type} [DecidableEq β] {f : α → β} {b : β} {start : Nat} {l : List α}

/-- The numbers of the members that `f` puts in `b`, when the first of all has the number
`start`. -/
def numbersIn (f : α → β) (b : β) (start : Nat) (l : List α) : List Int :=
  (l.zipIdx start).filterMap fun e => if f e.1 = b then some (e.2 : Int) else none

theorem numbersIn_concat (a : α) :
    numbersIn f b start (l ++ [a]) =
      numbersIn f b start l ++ if f a = b then [((start + l.length : Nat) : Int)] else [] := by
  rw [numbersIn, zipIdx_append, filterMap_append]
  congr 1
  rw [zipIdx_singleton, filterMap_cons]
  by_cases ha : f a = b
  · simp [ha]
  · simp [ha]

theorem length_numbersIn : (numbersIn f b start l).length = l.countP fun a => f a = b := by
  induction l using List.reverseRecOn with
  | nil => rfl
  | append_singleton l a ih =>
    rw [numbersIn_concat, length_append, ih, countP_append]
    by_cases ha : f a = b
    · simp [ha]
    · simp [ha]

theorem mem_numbersIn {n : Int} : n ∈ numbersIn f b start l ↔
    ∃ i a, l[i]? = some a ∧ n = ((start + i : Nat) : Int) ∧ f a = b := by
  rw [numbersIn, mem_filterMap]
  constructor
  · rintro ⟨⟨a, j⟩, hmem, hn⟩
    obtain ⟨hle, hget⟩ := mk_mem_zipIdx_iff_le_and_getElem?_sub.mp hmem
    simp only at hn
    split at hn
    · rename_i ha
      refine ⟨j - start, a, hget, ?_, ha⟩
      rw [← Option.some.inj hn]
      congr 1
      omega
    · cases hn
  · rintro ⟨i, a, hget, rfl, ha⟩
    refine ⟨(a, start + i), ?_, by rw [if_pos ha]⟩
    rw [mk_mem_zipIdx_iff_le_and_getElem?_sub]
    refine ⟨by omega, ?_⟩
    rw [Nat.add_sub_cancel_left]
    exact hget

theorem nodup_numbersIn : (numbersIn f b start l).Nodup := by
  induction l using List.reverseRecOn with
  | nil => exact nodup_nil
  | append_singleton l a ih =>
    rw [numbersIn_concat]
    split
    · rw [nodup_append]
      refine ⟨ih, nodup_singleton _, ?_⟩
      intro n hn m hm hnm
      obtain ⟨i, a', hget, rfl, -⟩ := mem_numbersIn.mp hn
      have hlt := (List.getElem?_eq_some_iff.mp hget).1
      rw [mem_singleton] at hm
      omega
    · rw [append_nil]
      exact ih

end numbers

end Fantom.Lib
