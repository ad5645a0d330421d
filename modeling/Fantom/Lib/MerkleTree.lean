/-
  Fantom.Lib.MerkleTree — Trees of hashes in which an odd last node is paired with itself.

  * `climb_branch` — a leaf and its branch give the root,
  * `eq_of_root_eq` — leaves without repetitions are bound by the root and the height.

  `node` is the hash of two nodes; it is injective where a result says so.
-/
import Mathlib.Data.List.Nodup
import Mathlib.Data.Set.Function
import Mathlib.Tactic.Common

namespace Fantom.Lib

open List

universe u

namespace MerkleTree

variable {α : Type u} (node : α → α → α)

/-! ## §1. Levels. -/

/-- The pairs of a level; an odd last node is paired with itself. -/
def pairs : List α → List (α × α)
  | [] => []
  | [a] => [(a, a)]
  | a :: b :: rest => (a, b) :: pairs rest

variable (l : List α)

def pairUp : List α := (pairs l).map fun p => node p.1 p.2

@[simp] theorem pairs_length : (pairs l).length = (l.length + 1) / 2 := by
  fun_induction pairs l with
  | case1 => simp
  | case2 a => simp
  | case3 a b rest ih =>
    simp only [length_cons, ih]
    omega

@[simp] theorem pairUp_length : (pairUp node l).length = (l.length + 1) / 2 := by
  rw [pairUp, length_map, pairs_length]

theorem pairs_getElem? (k : Nat) :
    (pairs l)[k]? = l[2 * k]?.map fun a => (a, l[2 * k + 1]?.getD a) := by
  fun_induction pairs l generalizing k with
  | case1 => rfl
  | case2 a =>
    cases k with
    | zero => rfl
    | succ k => simp [show 2 * (k + 1) = 2 * k + 1 + 1 by omega]
  | case3 a b rest ih =>
    cases k with
    | zero => rfl
    | succ k =>
      rw [show 2 * (k + 1) = 2 * k + 1 + 1 by omega]
      exact ih k

variable {l : List α}

theorem pairUp_lt (h : 1 < l.length) : (pairUp node l).length < l.length := by
  rw [pairUp_length]
  omega

theorem pairUp_ne_nil (h : l ≠ []) : pairUp node l ≠ [] := by
  have hpos := length_pos_iff.mpr h
  apply ne_nil_of_length_pos
  rw [pairUp_length]
  omega

/-! ## §2. The tree. -/

def root (l : List α) : Option α :=
  if _h : 1 < l.length then root (pairUp node l) else l.head?
termination_by l.length
decreasing_by exact pairUp_lt node _h

def flat (l : List α) : List α :=
  if _h : 1 < l.length then l ++ flat (pairUp node l) else l
termination_by l.length
decreasing_by exact pairUp_lt node _h

/-- The number of levels above `n` leaves. -/
def height (n : Nat) : Nat :=
  if _h : 1 < n then height ((n + 1) / 2) + 1 else 0
termination_by n
decreasing_by omega

/-- The place beside `i`. -/
def beside (i : Nat) : Nat := if i % 2 = 1 then i - 1 else i + 1

/-- The siblings on the way from leaf `i` to the root. -/
def branch (l : List α) (i : Nat) : List α :=
  if _h : 1 < l.length then
    l[min (beside i) (l.length - 1)]?.toList ++ branch (pairUp node l) (i / 2)
  else []
termination_by l.length
decreasing_by exact pairUp_lt node _h

/-- The way up from `a` at place `i`, along siblings. -/
def climb (a : α) (i : Nat) : List α → α
  | [] => a
  | s :: rest => climb (if i % 2 = 1 then node s a else node a s) (i / 2) rest

variable {node}

theorem root_of_lt (h : 1 < l.length) : root node l = root node (pairUp node l) := by
  rw [root, dif_pos h]

theorem root_of_le (h : l.length ≤ 1) : root node l = l.head? := by
  rw [root, dif_neg (by omega)]

theorem flat_of_lt (h : 1 < l.length) :
    flat node l = l ++ flat node (pairUp node l) := by
  rw [flat, dif_pos h]

theorem flat_of_le (h : l.length ≤ 1) : flat node l = l := by
  rw [flat, dif_neg (by omega)]

theorem branch_of_lt (h : 1 < l.length) (i : Nat) :
    branch node l i =
      l[min (beside i) (l.length - 1)]?.toList ++ branch node (pairUp node l) (i / 2) := by
  rw [branch, dif_pos h]

theorem branch_of_le (h : l.length ≤ 1) (i : Nat) : branch node l i = [] := by
  rw [branch, dif_neg (by omega)]

theorem height_of_lt {n : Nat} (h : 1 < n) : height n = height ((n + 1) / 2) + 1 := by
  rw [height, dif_pos h]

theorem height_of_le {n : Nat} (h : n ≤ 1) : height n = 0 := by
  rw [height, dif_neg (by omega)]

theorem flat_ne_nil (h : l ≠ []) : flat node l ≠ [] := by
  by_cases hlt : 1 < l.length
  · rw [flat_of_lt hlt]
    simp [h]
  · rw [flat_of_le (by omega)]
    exact h

theorem getLast?_flat (l : List α) : (flat node l).getLast? = root node l := by
  fun_induction flat node l with
  | case1 l h ih =>
    have hne : flat node (pairUp node l) ≠ [] :=
      flat_ne_nil (pairUp_ne_nil node (ne_nil_of_length_pos (by omega)))
    rw [root_of_lt h, ← ih, List.getLast?_append_of_ne_nil l hne]
  | case2 l h =>
    rw [root_of_le (by omega)]
    -- one node, or none
    match l, h with
    | [], _ => rfl
    | [a], _ => rfl
    | a :: b :: rest, h => simp at h

/-! ## §3. A branch proves its leaf. -/

variable (node) in
theorem pairUp_getElem? {i : Nat} {a : α} (h : l[i]? = some a) :
    ∃ s, l[min (beside i) (l.length - 1)]? = some s ∧
      (pairUp node l)[i / 2]? = some (if i % 2 = 1 then node s a else node a s) := by
  have hi : i < l.length := (List.getElem?_eq_some_iff.mp h).1
  unfold pairUp beside
  rw [List.getElem?_map, pairs_getElem?]
  by_cases hodd : i % 2 = 1
  · -- a right node: its sibling is there
    have hleft : 2 * (i / 2) = i - 1 := by omega
    have hright : i - 1 + 1 = i := by omega
    have hmin : min (i - 1) (l.length - 1) = i - 1 := by omega
    have hs : i - 1 < l.length := by omega
    refine ⟨l[i - 1], ?_, ?_⟩
    · rw [if_pos hodd, hmin, List.getElem?_eq_getElem hs]
    · rw [if_pos hodd, hleft, hright, h, List.getElem?_eq_getElem hs]
      rfl
  · -- a left node: its sibling is there, or it is the last node and its own sibling
    have hleft : 2 * (i / 2) = i := by omega
    simp only [if_neg hodd]
    rw [hleft, h]
    by_cases hlast : i + 1 < l.length
    · have hmin : min (i + 1) (l.length - 1) = i + 1 := by omega
      refine ⟨l[i + 1], ?_, ?_⟩
      · rw [hmin, List.getElem?_eq_getElem hlast]
      · rw [List.getElem?_eq_getElem hlast]
        rfl
    · have hmin : min (i + 1) (l.length - 1) = i := by omega
      refine ⟨a, ?_, ?_⟩
      · rw [hmin, h]
      · rw [List.getElem?_eq_none (by omega)]
        rfl

theorem climb_branch {i : Nat} {a : α} (h : l[i]? = some a) :
    root node l = some (climb node a i (branch node l i)) := by
  -- one level after the other
  induction hn : l.length using Nat.strongRecOn generalizing l i a with
  | ind n ih =>
    subst hn
    have hi : i < l.length := (List.getElem?_eq_some_iff.mp h).1
    by_cases hlt : 1 < l.length
    · obtain ⟨s, hs, hup⟩ := pairUp_getElem? node h
      rw [root_of_lt hlt, branch_of_lt hlt, hs]
      exact ih _ (pairUp_lt node hlt) hup rfl
    · have hzero : i = 0 := by omega
      subst hzero
      rw [root_of_le (by omega), branch_of_le (by omega), List.head?_eq_getElem?, h]
      rfl

/-! ## §4. What a root binds. -/

variable (node) in
/-- The pairs that are hashed on the way to the root. -/
def inputs (l : List α) : List (α × α) :=
  if _h : 1 < l.length then pairs l ++ inputs (pairUp node l) else []
termination_by l.length
decreasing_by exact pairUp_lt node _h

theorem inputs_of_lt (h : 1 < l.length) :
    inputs node l = pairs l ++ inputs node (pairUp node l) := by
  rw [inputs, dif_pos h]

theorem inputs_of_le (h : l.length ≤ 1) : inputs node l = [] := by
  rw [inputs, dif_neg (by omega)]

theorem inputs_three (a b c : α) :
    inputs node [a, b, c] = [(a, b), (c, c), (node a b, node c c)] := by
  rw [inputs_of_lt (by simp), inputs_of_lt (by simp), inputs_of_le (by simp)]
  rfl

theorem pairs_fst_sublist (l : List α) : ((pairs l).map Prod.fst).Sublist l := by
  fun_induction pairs l with
  | case1 => exact .slnil
  | case2 a => exact .refl [a]
  | case3 a b rest ih => exact (ih.cons b).cons_cons a

theorem nodup_pairUp (h : l.Nodup)
    (hinj : Set.InjOn (fun p : α × α => node p.1 p.2) { p | p ∈ pairs l }) :
    (pairUp node l).Nodup := by
  -- the pairs differ in their first parts
  have hfst : ((pairs l).map Prod.fst).Nodup := (pairs_fst_sublist l).nodup h
  have hpairs : (pairs l).Nodup := hfst.of_map _
  exact (nodup_map_iff_inj_on hpairs).mpr fun p hp q hq heq => hinj hp hq heq

theorem eq_of_map_eq {β γ : Type*} {f : β → γ} {l l' : List β}
    (hinj : Set.InjOn f { a | a ∈ l ∨ a ∈ l' }) (h : l.map f = l'.map f) : l = l' := by
  induction l generalizing l' with
  | nil => exact (map_eq_nil_iff.mp h.symm).symm
  | cons a l ih =>
    cases l' with
    | nil => simp at h
    | cons b l' =>
      rw [map_cons, map_cons, cons_eq_cons] at h
      obtain ⟨hab, hrest⟩ := h
      have htail : Set.InjOn f { a | a ∈ l ∨ a ∈ l' } := by
        apply hinj.mono
        intro c hc
        exact hc.imp (mem_cons_of_mem _) (mem_cons_of_mem _)
      rw [hinj (.inl mem_cons_self) (.inr mem_cons_self) hab, ih htail hrest]

theorem eq_of_pairs_eq {l' : List α} (hl : l.Nodup) (hl' : l'.Nodup) (h : pairs l = pairs l') :
    l = l' := by
  fun_induction pairs l generalizing l' with
  | case1 =>
    match l', h with
    | [], _ => rfl
    | [b], h => simp [pairs] at h
    | b :: c :: rest, h => simp [pairs] at h
  | case2 a =>
    match l', h, hl' with
    | [], h, _ => simp [pairs] at h
    | [b], h, _ => simpa [pairs] using h
    | b :: c :: rest, h, hl' =>
      -- the other list ends in the same node twice
      simp only [pairs, List.cons.injEq, Prod.mk.injEq] at h
      obtain ⟨⟨hab, hac⟩, -⟩ := h
      subst hab
      subst hac
      simp at hl'
  | case3 a b rest ih =>
    match l', h, hl' with
    | [], h, _ => simp [pairs] at h
    | [c], h, _ =>
      simp only [pairs, List.cons.injEq, Prod.mk.injEq] at h
      obtain ⟨⟨hac, hbc⟩, -⟩ := h
      subst hac
      subst hbc
      simp at hl
    | c :: d :: rest', h, hl' =>
      simp only [pairs, List.cons.injEq, Prod.mk.injEq] at h
      obtain ⟨⟨hac, hbd⟩, hrest⟩ := h
      rw [hac, hbd, ih hl.of_cons.of_cons hl'.of_cons.of_cons hrest]

variable (node) in
/-- **The root binds the leaves**: of leaves without repetitions there is one list for each root
and height, where `node` is injective on what is hashed for the two. -/
theorem eq_of_root_eq {l' : List α} (hl : l.Nodup) (hl' : l'.Nodup) (hinj : Set.InjOn (fun p : α × α
    => node p.1 p.2) { p | p ∈ inputs node l ∨ p ∈ inputs node l' })
    (hheight : height l.length = height l'.length) (h : root node l = root node l') :
    l = l' := by
  -- from the roots down to the leaves
  induction hn : l.length using Nat.strongRecOn generalizing l l' with
  | ind n ih =>
    subst hn
    by_cases hlt : 1 < l.length
    · have hlt' : 1 < l'.length := by
        by_contra hle
        rw [height_of_lt hlt, height_of_le (show l'.length ≤ 1 by omega)] at hheight
        omega
      have hmem : ∀ p, p ∈ pairs l → p ∈ inputs node l ∨ p ∈ inputs node l' := by
        intro p hp
        rw [inputs_of_lt hlt]
        exact .inl (mem_append_left _ hp)
      have hmem' : ∀ p, p ∈ pairs l' → p ∈ inputs node l ∨ p ∈ inputs node l' := by
        intro p hp
        rw [inputs_of_lt hlt']
        exact .inr (mem_append_left _ hp)
      have habove : Set.InjOn (fun p : α × α => node p.1 p.2)
          { p | p ∈ inputs node (pairUp node l) ∨ p ∈ inputs node (pairUp node l') } := by
        apply hinj.mono
        intro p hp
        show p ∈ inputs node l ∨ p ∈ inputs node l'
        rw [inputs_of_lt hlt, inputs_of_lt hlt']
        exact hp.imp (mem_append_right _) (mem_append_right _)
      -- the levels above are the same
      have hup : pairUp node l = pairUp node l' := by
        apply ih _ (pairUp_lt node hlt) _ _ habove _ _ rfl
        · exact nodup_pairUp hl (hinj.mono hmem)
        · exact nodup_pairUp hl' (hinj.mono hmem')
        · rw [height_of_lt hlt, height_of_lt hlt'] at hheight
          rw [pairUp_length, pairUp_length]
          omega
        · rw [← root_of_lt hlt, ← root_of_lt hlt', h]
      -- and so are the pairs below them
      have hpairs : pairs l = pairs l' :=
        eq_of_map_eq (hinj.mono fun p hp => hp.elim (hmem p) (hmem' p)) hup
      exact eq_of_pairs_eq hl hl' hpairs
    · have hle' : l'.length ≤ 1 := by
        by_contra hgt
        rw [height_of_le (show l.length ≤ 1 by omega),
          height_of_lt (show 1 < l'.length by omega)] at hheight
        omega
      rw [root_of_le (by omega), root_of_le hle'] at h
      match l, l', hlt, hle', h with
      | [], [], _, _, _ => rfl
      | [a], [b], _, _, h => simpa using h
      | a :: b :: rest, _, hlt, _, _ => simp at hlt
      | _, a :: b :: rest, _, hle', _ => simp at hle'

end MerkleTree

end Fantom.Lib
