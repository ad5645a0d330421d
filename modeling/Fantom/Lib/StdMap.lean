/-
  Fantom.Lib.StdMap — `std::map` as the extensional ordered map of the standard library, with the
  lookup lemmas stated with `=` on keys and the two loops over a whole map that C++ code writes by
  hand: writing every entry of one map into another (`overlay`) and erasing a list of keys
  (`eraseAll`).

  And pending changes of a map, a log of writes and erasures that is applied at once:

  * `get_replay` — a lookup asks the log first, and then the map.
-/
import Mathlib.Data.List.Basic
import Mathlib.Data.List.Induction
import Mathlib.Tactic.Common

namespace Fantom.Lib

universe u v

/-- `std::map<K, V>`: entries ordered by key, equal when they hold the same
entries. -/
abbrev StdMap (K : Type u) (V : Type v) [Ord K] : Type (max u v) :=
  Std.ExtTreeMap K V compare

/-- `std::set<K>`. -/
abbrev StdSet (K : Type u) [Ord K] : Type u := Std.ExtTreeSet K compare

namespace StdMap

variable {K : Type u} {V : Type v} [Ord K] [Std.TransOrd K] [Std.LawfulEqOrd K]
  [DecidableEq K]

/-! ## §1. Lookups after one update. -/

theorem get_insert (m : StdMap K V) (k a : K) (v : V) :
    (m.insert k v)[a]? = if k = a then some v else m[a]? := by
  simp [Std.ExtTreeMap.getElem?_insert]

theorem get_insert_self (m : StdMap K V) (k : K) (v : V) :
    (m.insert k v)[k]? = some v := by
  rw [get_insert, if_pos rfl]

variable {k a : K} {m : StdMap K V} {v : V}

theorem get_insert_ne (m : StdMap K V) (v : V) (h : k ≠ a) :
    (m.insert k v)[a]? = m[a]? := by
  rw [get_insert, if_neg h]

theorem get_erase (m : StdMap K V) (k a : K) :
    (m.erase k)[a]? = if k = a then none else m[a]? := by
  simp [Std.ExtTreeMap.getElem?_erase]

omit [Std.LawfulEqOrd K] [DecidableEq K] in
theorem get_empty (a : K) : (∅ : StdMap K V)[a]? = none :=
  Std.ExtTreeMap.getElem?_empty

omit [Std.LawfulEqOrd K] [DecidableEq K] in
theorem contains_eq (m : StdMap K V) (a : K) : m.contains a = m[a]?.isSome :=
  Std.ExtTreeMap.contains_eq_isSome_getElem?

omit [Std.LawfulEqOrd K] [DecidableEq K] in
theorem contains_iff : m.contains a = true ↔ ∃ v, m[a]? = some v := by
  rw [contains_eq, Option.isSome_iff_exists]

omit [Std.LawfulEqOrd K] [DecidableEq K] in
theorem contains_eq_false_iff :
    m.contains a = false ↔ m[a]? = none := by
  rw [contains_eq, Option.isSome_eq_false_iff, Option.isNone_iff_eq_none]

/-! ## §2. Writing one map into another. -/

/-- `for (it = q.begin(); ...) m[it->first] = it->second;` -/
def overlay (m q : StdMap K V) : StdMap K V :=
  q.foldl (fun m k v => m.insert k v) m

private theorem foldl_insert_get (l : List (K × V)) (m : StdMap K V) (a : K)
    (hd : l.Pairwise (fun x y => ¬ x.1 = y.1)) :
    (l.foldl (fun m e => m.insert e.1 e.2) m)[a]? =
      (match l.find? (fun e => e.1 = a) with
       | some e => some e.2
       | none => m[a]?) := by
  induction l generalizing m with
  | nil => rfl
  | cons e l ih =>
    obtain ⟨he, hd⟩ := List.pairwise_cons.mp hd
    rw [List.foldl_cons, ih _ hd, List.find?_cons]
    by_cases hk : e.1 = a
    · -- no later entry has this key, so the first one stays
      have hnone : l.find? (fun e => e.1 = a) = none := by
        rw [List.find?_eq_none]
        intro x hx
        simpa [← hk] using fun h => he x hx h.symm
      simp [hnone, hk]
    · simp only [hk, decide_false]
      rw [get_insert_ne _ _ hk]

/-- **Lookup in an overlay**: an entry of the upper map hides the lower one. -/
theorem get_overlay (m q : StdMap K V) (a : K) :
    (overlay m q)[a]? = q[a]?.or m[a]? := by
  have hd : q.toList.Pairwise (fun x y => ¬ x.1 = y.1) := by
    have := Std.ExtTreeMap.distinct_keys_toList (t := q)
    simpa using this
  rw [overlay, Std.ExtTreeMap.foldl_eq_foldl_toList, foldl_insert_get _ _ _ hd]
  cases hf : q.toList.find? (fun e => e.1 = a) with
  | some e =>
    have hmem := List.mem_of_find?_eq_some hf
    have hk : e.1 = a := by simpa using List.find?_some hf
    have : q[a]? = some e.2 := by
      rw [← hk]
      exact Std.ExtTreeMap.mem_toList_iff_getElem?_eq_some.mp hmem
    rw [this]
    rfl
  | none =>
    have : q[a]? = none := by
      rw [Option.eq_none_iff_forall_ne_some]
      intro v hv
      have hmem := Std.ExtTreeMap.mem_toList_iff_getElem?_eq_some.mpr hv
      have := List.find?_eq_none.mp hf _ hmem
      simp at this
    rw [this]
    rfl

theorem overlay_insert (m q : StdMap K V) (k : K) (v : V) :
    overlay m (q.insert k v) = (overlay m q).insert k v := by
  apply Std.ExtTreeMap.ext_getElem?
  intro a
  rw [get_overlay, get_insert, get_insert, get_overlay]
  split <;> rfl

theorem overlay_empty (m : StdMap K V) : overlay m ∅ = m := by
  apply Std.ExtTreeMap.ext_getElem?
  intro a
  rw [get_overlay, get_empty, Option.none_or]

/-! ## §3. Erasing a list of keys. -/

/-- `BOOST_FOREACH(k, ks) m.erase(k);` -/
def eraseAll (m : StdMap K V) (ks : List K) : StdMap K V :=
  ks.foldl (fun m k => m.erase k) m

theorem get_eraseAll (m : StdMap K V) (ks : List K) (a : K) :
    (eraseAll m ks)[a]? = if a ∈ ks then none else m[a]? := by
  unfold eraseAll
  induction ks generalizing m with
  | nil => simp
  | cons k ks ih =>
    rw [List.foldl_cons, ih, get_erase]
    by_cases h1 : a ∈ ks
    · simp [h1]
    · by_cases h2 : k = a
      · simp [h2]
      · simp [h1, h2, Ne.symm h2]

/-! ## §4. Inserting only where there is no entry. -/

/-- `if (!m.count(k)) m.insert(make_pair(k, v));`, which is also what
`m.insert` alone does. -/
def insertNew (m : StdMap K V) (k : K) (v : V) : StdMap K V :=
  if m.contains k then m else m.insert k v

theorem get_insertNew (m : StdMap K V) (k a : K) (v : V) :
    (insertNew m k v)[a]? = if k = a then m[a]?.or (some v) else m[a]? := by
  rw [insertNew, contains_eq]
  by_cases hk : k = a
  · subst hk
    cases h : m[k]? with
    | none => simp
    | some w => simp [h]
  · rw [if_neg hk]
    split
    · rfl
    · exact get_insert_ne m v hk

omit [Std.LawfulEqOrd K] [DecidableEq K] in
theorem insertNew_of_contains (h : m.contains k = true) (v : V) :
    insertNew m k v = m :=
  if_pos h

theorem contains_insertNew (m : StdMap K V) (k a : K) (v : V) :
    (insertNew m k v).contains a = (m.contains a || k == a) := by
  rw [contains_eq, contains_eq, get_insertNew]
  by_cases hk : k = a
  · rw [if_pos hk, show (k == a) = true from beq_iff_eq.mpr hk]
    cases m[a]? <;> rfl
  · rw [if_neg hk, show (k == a) = false from beq_eq_false_iff_ne.mpr hk, Bool.or_false]

theorem get_insertNew_of_some {w : V} (h : m[a]? = some w) : (insertNew m k v)[a]? = some w := by
  rw [get_insertNew, h]
  simp

theorem of_get_insertNew {w : V} (h : (insertNew m k v)[a]? = some w) : m[a]? = some w ∨
    (k = a ∧ v = w) := by
  rw [get_insertNew] at h
  split at h
  next hk =>
      cases hold : m[a]? with
      | none =>
        rw [hold] at h
        exact .inr ⟨hk, Option.some.inj h⟩
      | some old =>
        rw [hold] at h
        exact .inl h
  next => exact .inl h

omit [Std.LawfulEqOrd K] [DecidableEq K] in
theorem size_insertNew_le (m : StdMap K V) (k : K) (v : V) :
    (insertNew m k v).size ≤ m.size + 1 := by
  unfold insertNew
  split
  · omega
  · exact Std.ExtTreeMap.size_insert_le

theorem foldl_insertNew_toList (m : StdMap K V) :
    m.toList.foldl (fun m p => insertNew m p.1 p.2) ∅ = m := by
  have hfold : ∀ (l : List (K × V)) (m : StdMap K V) (a : K),
      (l.foldl (fun m p => insertNew m p.1 p.2) m)[a]? =
        m[a]?.or ((l.find? (compare ·.1 a == .eq)).map (·.2)) := by
    intro l
    induction l with
    | nil => simp
    | cons p l ih =>
      intro m a
      rw [List.foldl_cons, ih, get_insertNew]
      by_cases hp : p.1 = a
      · rw [if_pos hp]
        cases m[a]? <;> simp [hp]
      · rw [if_neg hp]
        simp [hp]
  apply Std.ExtTreeMap.ext_getElem?
  intro a
  rw [hfold, get_empty, Option.none_or]
  cases hfind : m.toList.find? (compare ·.1 a == .eq) with
  | none =>
    have hnone := Std.ExtTreeMap.find?_toList_eq_none_iff_contains_eq_false.mp hfind
    exact (contains_eq_false_iff.mp hnone).symm
  | some p =>
    exact (Std.ExtTreeMap.find?_toList_eq_some_iff_getKey?_eq_some_and_getElem?_eq_some.mp
      hfind).2.symm

/-- `f(m[k])`, where `m[k]` is made if there is none. -/
def updateAt (m : StdMap K V) (k : K) (fresh : V) (f : V → V) : StdMap K V :=
  m.insert k (f ((m[k]?).getD fresh))

theorem get_updateAt (m : StdMap K V) (k a : K) (fresh : V) (f : V → V) :
    (updateAt m k fresh f)[a]? = if k = a then some (f ((m[a]?).getD fresh)) else m[a]? := by
  rw [updateAt, get_insert]
  by_cases hk : k = a
  · rw [if_pos hk, if_pos hk, hk]
  · rw [if_neg hk, if_neg hk]

theorem updateAt_same {fresh : V} {f : V → V} (h : m[k]? = some v) (hv : f v = v) :
    updateAt m k fresh f = m := by
  apply Std.ExtTreeMap.ext_getElem?
  intro a
  rw [get_updateAt]
  by_cases ha : k = a
  · rw [if_pos ha, ← ha, h]
    exact congrArg some hv
  · rw [if_neg ha]

theorem updateAt_updateAt (m : StdMap K V) (k : K) (fresh : V) (f g : V → V) :
    updateAt (updateAt m k fresh f) k fresh g = updateAt m k fresh fun v => g (f v) := by
  apply Std.ExtTreeMap.ext_getElem?
  intro a
  rw [get_updateAt, get_updateAt, get_updateAt]
  by_cases hk : k = a
  · rw [if_pos hk, if_pos hk, if_pos hk, Option.getD_some]
  · rw [if_neg hk, if_neg hk, if_neg hk]

/-! ## §5. Maps to sets. -/

section Sets

variable {A : Type v} [Ord A] [Std.TransOrd A] [Std.LawfulEqOrd A]

/-- The set at a key, empty where there is no entry. -/
def setAt (m : StdMap K (StdSet A)) (k : K) : StdSet A := (m[k]?).getD ∅

/-- `m[k].insert(a);` -/
def insertAt (m : StdMap K (StdSet A)) (k : K) (a : A) : StdMap K (StdSet A) :=
  m.insert k ((setAt m k).insert a)

/-- `m[k].erase(a);`, and an entry whose set is empty then goes. -/
def eraseAt (m : StdMap K (StdSet A)) (k : K) (a : A) : StdMap K (StdSet A) :=
  match m[k]? with
  | none => m
  | some s => if (s.erase a).isEmpty then m.erase k else m.insert k (s.erase a)

theorem mem_insertAt {m : StdMap K (StdSet A)} {x : K} {a b : A} :
    b ∈ setAt (insertAt m k a) x ↔ (k = x ∧ a = b) ∨ b ∈ setAt m x := by
  unfold insertAt setAt
  rw [get_insert]
  split
  next hk => simp [hk]
  next hk => simp [hk]

theorem mem_eraseAt {m : StdMap K (StdSet A)} {x : K} {a b : A} :
    b ∈ setAt (eraseAt m k a) x ↔ ¬ (k = x ∧ a = b) ∧ b ∈ setAt m x := by
  unfold eraseAt
  cases hm : m[k]? with
  | none =>
    dsimp only
    constructor
    · intro h
      refine ⟨?_, h⟩
      rintro ⟨rfl, _⟩
      rw [setAt, hm] at h
      exact Std.ExtTreeSet.not_mem_empty h
    · exact And.right
  | some s =>
    dsimp only
    by_cases hk : k = x
    · subst hk
      have hset : setAt m k = s := by rw [setAt, hm]; rfl
      rw [hset]
      split
      next hempty =>
        rw [Std.ExtTreeSet.isEmpty_iff] at hempty
        have hnone : setAt (m.erase k) k = ∅ := by rw [setAt, get_erase, if_pos rfl]; rfl
        rw [hnone, ← hempty]
        simp
      next =>
        rw [setAt, get_insert_self]
        simp
    · split
      next => simp [setAt, get_erase, hk]
      next => simp [setAt, get_insert, hk]

def NoEmptySet (m : StdMap K (StdSet A)) : Prop := ∀ (k : K) (s : StdSet A), m[k]? = some s → s ≠ ∅

omit [Std.LawfulEqOrd K] [DecidableEq K] [Std.TransOrd A] [Std.LawfulEqOrd A] in
theorem noEmptySet_empty : NoEmptySet (∅ : StdMap K (StdSet A)) := by
  intro k s hs
  rw [get_empty] at hs
  exact nomatch hs

omit [Std.LawfulEqOrd A] in
theorem NoEmptySet.insertAt {m : StdMap K (StdSet A)} (h : NoEmptySet m) (k : K) (a : A) :
    NoEmptySet (insertAt m k a) := by
  intro x s hs
  rw [StdMap.insertAt, get_insert] at hs
  split at hs
  next =>
    cases hs
    intro hempty
    have hmem : a ∈ (setAt m k).insert a := Std.ExtTreeSet.mem_insert_self
    rw [hempty] at hmem
    exact Std.ExtTreeSet.not_mem_empty hmem
  next => exact h x s hs

omit [Std.LawfulEqOrd A] in
theorem NoEmptySet.eraseAt {m : StdMap K (StdSet A)} (h : NoEmptySet m) (k : K) (a : A) :
    NoEmptySet (eraseAt m k a) := by
  intro x s hs
  unfold StdMap.eraseAt at hs
  split at hs
  next => exact h x s hs
  next t _ =>
    split at hs
    next =>
      rw [get_erase] at hs
      split at hs
      next => exact nomatch hs
      next => exact h x s hs
    next hempty =>
      rw [get_insert] at hs
      split at hs
      next =>
        cases hs
        rw [Std.ExtTreeSet.isEmpty_iff] at hempty
        exact hempty
      next => exact h x s hs

end Sets

/-! ## §6. `lower_bound`. -/

open Std.DTreeMap.Internal in
theorem contains_of_getKeyGE? (h : m.getKeyGE? k = some a) :
    m.contains a = true := by
  obtain ⟨inner⟩ := m
  induction inner using Std.ExtDTreeMap.inductionOn with
  | mk t =>
    change Impl.getKeyGE? k t.inner = some a at h
    change Impl.contains a t.inner = true
    rw [Impl.getKeyGE?_eq_getEntryGE?, Impl.getEntryGE?_eq_find? t.wf.ordered,
      Option.map_eq_some_iff] at h
    obtain ⟨e, he, rfl⟩ := h
    rw [Impl.contains_eq_containsKey t.wf.ordered]
    exact Std.Internal.List.containsKey_of_mem (List.mem_of_find?_eq_some he)

/-- With the first key where there is none, there is one as long as the map is not empty. -/
theorem exists_lowerBound (h : m.size ≠ 0) (k : K) :
    ∃ a, (m.getKeyGE? k).or m.minKey? = some a ∧ m.contains a = true := by
  cases hge : m.getKeyGE? k with
  | some a => exact ⟨a, rfl, contains_of_getKeyGE? hge⟩
  | none =>
    have hne : m ≠ ∅ := by
      intro hempty
      rw [hempty] at h
      exact h Std.ExtTreeMap.size_empty
    obtain ⟨a, ha⟩ :=
      Option.isSome_iff_exists.mp (Std.ExtTreeMap.isSome_minKey?_iff_ne_empty.mpr hne)
    exact ⟨a, by rw [Option.none_or, ha], Std.ExtTreeMap.contains_iff_mem.mpr
      (Std.ExtTreeMap.minKey?_mem ha)⟩

end StdMap

namespace StdSet

variable {K : Type u} [Ord K] [Std.TransOrd K] [Std.LawfulEqOrd K]

theorem nodup_toList (v : StdSet K) : v.toList.Nodup := by
  refine Std.ExtTreeSet.distinct_toList.imp fun {a b} hne hab => ?_
  exact hne (Std.LawfulEqOrd.compare_eq_iff_eq.mpr hab)

theorem size_eq_length {v : StdSet K} {l : List K} (hl : l.Nodup)
    (hmem : ∀ a, a ∈ v ↔ a ∈ l) : v.size = l.length := by
  have hperm : v.toList.Perm l := by
    rw [List.perm_ext_iff_of_nodup v.nodup_toList hl]
    intro a
    rw [Std.ExtTreeSet.mem_toList, hmem]
  rw [← Std.ExtTreeSet.length_toList, hperm.length_eq]

end StdSet

/-! ## §7. Pending changes. -/

/-- One change of a map. -/
inductive Change (K : Type u) (V : Type v) where
  | put (key : K) (value : V)
  | delete (key : K)

namespace Change

variable {K : Type u} {V : Type v}

def key : Change K V → K
  | put k _ => k
  | delete k => k

def value : Change K V → Option V
  | put _ v => some v
  | delete _ => none

variable [Ord K] [Std.TransOrd K]

def apply (m : StdMap K V) : Change K V → StdMap K V
  | put k v => m.insert k v
  | delete k => m.erase k

theorem get_apply [Std.LawfulEqOrd K] [DecidableEq K] (m : StdMap K V) (c : Change K V) (a : K) :
    (c.apply m)[a]? = if c.key = a then c.value else m[a]? := by
  cases c with
  | put k v => exact StdMap.get_insert m k a v
  | delete k => exact StdMap.get_erase m k a

end Change

variable {K : Type u} {V : Type v}

/-- What the log did last with a key: nothing, or what the key holds since. -/
def lastChange [DecidableEq K] (log : List (Change K V)) (a : K) : Option (Option V) :=
  log.foldl (fun last c => if c.key = a then some c.value else last) none

theorem lastChange_concat [DecidableEq K] (log : List (Change K V)) (c : Change K V) (a : K) :
    lastChange (log ++ [c]) a = if c.key = a then some c.value else lastChange log a := by
  unfold lastChange
  rw [List.foldl_append, List.foldl_cons, List.foldl_nil]

variable [Ord K] [Std.TransOrd K] (m : StdMap K V) (log : List (Change K V))

/-- The map with the changes of the log applied in order. -/
def replay : StdMap K V :=
  log.foldl Change.apply m

@[simp] theorem replay_nil : replay m [] = m := rfl

theorem replay_concat (c : Change K V) : replay m (log ++ [c]) = c.apply (replay m log) := by
  unfold replay
  rw [List.foldl_append, List.foldl_cons, List.foldl_nil]

/-- **A lookup asks the log first**, and then the map below it. -/
theorem get_replay [Std.LawfulEqOrd K] [DecidableEq K] (a : K) :
    (replay m log)[a]? = (lastChange log a).getD m[a]? := by
  induction log using List.reverseRecOn with
  | nil => rfl
  | append_singleton log c ih =>
    rw [replay_concat, Change.get_apply, lastChange_concat, ih]
    split <;> rfl

end Fantom.Lib
