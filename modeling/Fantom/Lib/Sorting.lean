/-
  Fantom.Lib.Sorting — Sorting that leaves the order of equal elements open.

  * `SortsDescending` — what a sort of pairs by their first component promises, the largest first,
  * `sort_map_eq` — with distinct keys nothing is open: two sorts agree, also over different
    payloads of the same keys,

  And shuffling the front of a list: one place after another is swapped with one behind it.

  * `Shuffle.after_perm` — nothing is lost,
  * `Shuffle.getElem?_after` — what a turn draws stays at the place of the turn, not at the one it
    came from.
-/
import Mathlib.Data.List.Basic
import Mathlib.Data.List.Sort
import Mathlib.Tactic.Common

namespace Fantom.Lib

/-! ## By a key. -/

section KeySort

universe u v w

variable {κ : Type u} {α : Type v} {β : Type w} [LE κ]

/-- The result is a permutation, in which no key is below a later one. -/
structure SortsDescending (sort : List (κ × α) → List (κ × α)) : Prop where
  perm : ∀ l, (sort l).Perm l
  sorted : ∀ l, (sort l).Pairwise fun a b => b.1 ≤ a.1

theorem SortsDescending.strict {sort : List (κ × α) → List (κ × α)} (h : SortsDescending sort)
    {l : List (κ × α)} (hkeys : (l.map Prod.fst).Nodup) :
    (sort l).Pairwise fun a b => b.1 ≤ a.1 ∧ a.1 ≠ b.1 := by
  have hnodup : ((sort l).map Prod.fst).Nodup := ((h.perm l).map Prod.fst).nodup_iff.mpr hkeys
  exact (h.sorted l).and (List.pairwise_map.mp hnodup)

variable [Std.IsLinearOrder κ]

/-- **With distinct keys the order is settled by the keys**, whatever they carry. -/
theorem sort_map_eq {sort : List (κ × α) → List (κ × α)} {sort' : List (κ × β) → List (κ × β)}
    (h : SortsDescending sort) (h' : SortsDescending sort') (f : α → β) {l : List (κ × α)}
    (hkeys : (l.map Prod.fst).Nodup) :
    sort' (l.map (Prod.map id f)) = (sort l).map (Prod.map id f) := by
  have hkeys' : ((l.map (Prod.map id f)).map Prod.fst).Nodup := by
    rw [List.map_map]
    exact hkeys
  have hperm : (sort' (l.map (Prod.map id f))).Perm ((sort l).map (Prod.map id f)) :=
    (h'.perm _).trans ((h.perm l).map _).symm
  -- two strictly decreasing permutations of one list are the same list
  refine List.Perm.eq_of_pairwise ?_ (h'.strict hkeys')
    (List.pairwise_map.mpr (h.strict hkeys)) hperm
  intro a b _ _ hab hba
  exact absurd (Std.le_antisymm hba.1 hab.1) hab.2

variable [DecidableLE κ]

def sortByKey (l : List (κ × α)) : List (κ × α) := l.mergeSort fun a b => decide (b.1 ≤ a.1)

theorem sortsDescending_sortByKey : SortsDescending (sortByKey (κ := κ) (α := α)) where
  perm l := List.mergeSort_perm l _
  sorted l := by
    have hsorted : (sortByKey l).Pairwise fun a b => decide (b.1 ≤ a.1) = true := by
      refine List.pairwise_mergeSort ?_ ?_ l
      · intro a b c hab hbc
        exact decide_eq_true (Std.le_trans (of_decide_eq_true hbc) (of_decide_eq_true hab))
      · intro a b
        rw [Bool.or_eq_true, decide_eq_true_iff, decide_eq_true_iff]
        exact Std.le_total
    exact hsorted.imp fun hab => of_decide_eq_true hab

end KeySort

/-! ## As a heap. -/

section Heap

/-- Heap operations; `comp x y` says that `x` comes after `y`. -/
structure StdHeap (α : Type) where
  makeHeap : (α → α → Bool) → List α → List α
  /-- `pop_heap` and `pop_back`. -/
  popHeap : (α → α → Bool) → List α → List α
  /-- `push_back` and `push_heap`. -/
  pushHeap : (α → α → Bool) → List α → α → List α
  makeHeap_perm : ∀ comp v, (makeHeap comp v).Perm v
  popHeap_perm : ∀ comp x v, (popHeap comp (x :: v)).Perm v
  pushHeap_perm : ∀ comp v x, (pushHeap comp v x).Perm (x :: v)

namespace StdHeap

variable {α : Type}

def sorted (α : Type) : StdHeap α where
  makeHeap comp v := v.insertionSort fun x y => comp x y = false
  popHeap _ v := v.tail
  pushHeap comp v x := v.orderedInsert (fun x y => comp x y = false) x
  makeHeap_perm _ v := List.perm_insertionSort _ v
  popHeap_perm _ _ v := .refl v
  pushHeap_perm _ v x := List.perm_orderedInsert _ x v

end StdHeap

end Heap

/-! ## A shuffle. -/

namespace Shuffle

universe u

variable {α : Type u}

/-- The elements at `i` and `p` change places. -/
def swap (l : List α) (i p : Nat) : List α :=
  match l[p]?, l[i]? with
  | some b, some a => (l.set p a).set i b
  | _, _ => l

/-- The list after `m` turns: turn `i` swaps what is at `i` and at `place i`. -/
def after (place : Nat → Nat) (l : List α) : Nat → List α
  | 0 => l
  | m + 1 => swap (after place l m) m (place m)

/-- What turn `i` draws. -/
def drawn (place : Nat → Nat) (l : List α) (i : Nat) : Option α := (after place l i)[place i]?

section Swap

variable {l : List α} {i p j : Nat}

theorem swap_eq (hp : p < l.length) (hi : i < l.length) :
    swap l i p = (l.set p l[i]).set i l[p] := by
  rw [swap, List.getElem?_eq_getElem hp, List.getElem?_eq_getElem hi]

theorem swap_perm (l : List α) (i p : Nat) : (swap l i p).Perm l := by
  unfold swap
  split
  next b a hb ha =>
    obtain ⟨hp, rfl⟩ := List.getElem?_eq_some_iff.mp hb
    obtain ⟨hi, rfl⟩ := List.getElem?_eq_some_iff.mp ha
    exact List.set_set_perm hp hi
  next => exact List.Perm.refl l

theorem getElem?_swap_left (hp : p < l.length) (hi : i < l.length) :
    (swap l i p)[i]? = l[p]? := by
  rw [swap_eq hp hi, List.getElem?_set_self (by rw [List.length_set]; exact hi),
    List.getElem?_eq_getElem hp]

theorem getElem?_swap_of_ne (hji : j ≠ i) (hjp : j ≠ p) : (swap l i p)[j]? = l[j]? := by
  unfold swap
  split
  next => rw [List.getElem?_set_ne hji.symm, List.getElem?_set_ne hjp.symm]
  next => rfl

end Swap

section After

variable {place : Nat → Nat} {l : List α} {m i : Nat}

theorem after_perm (place : Nat → Nat) (l : List α) (m : Nat) : (after place l m).Perm l := by
  induction m with
  | zero => exact List.Perm.refl l
  | succ m ih => exact (swap_perm _ _ _).trans ih

@[simp] theorem length_after : (after place l m).length = l.length := (after_perm place l m).length_eq

theorem drawn_eq_some (h : place i < l.length) :
    ∃ a ∈ l, drawn place l i = some a := by
  have hlt : place i < (after place l i).length := by
    rw [length_after]
    exact h
  exact ⟨_, (after_perm place l i).mem_iff.mp (List.getElem_mem hlt), List.getElem?_eq_getElem hlt⟩

/-- **What a turn draws stays at the place of the turn.** -/
theorem getElem?_after (hplace : ∀ i < m, i ≤ place i ∧ place i < l.length) (hi : i < m) :
    (after place l m)[i]? = drawn place l i := by
  induction m with
  | zero => exact absurd hi (Nat.not_lt_zero i)
  | succ m ih =>
    obtain ⟨hle, hlt⟩ := hplace m (Nat.lt_succ_self m)
    rw [after]
    obtain rfl | hne := eq_or_ne i m
    · exact getElem?_swap_left (by rw [length_after]; exact hlt)
        (by rw [length_after]; omega)
    · rw [getElem?_swap_of_ne hne (by omega)]
      exact ih (fun i hi => hplace i (Nat.lt_succ_of_lt hi)) (by omega)

end After

end Shuffle

end Fantom.Lib
