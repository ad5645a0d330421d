/-
  Fantom.Lib.Subsets — A choice among the elements of a list: as a flag for each, and as a table of
  steps has it.

  * `chosen_set` — one flag more is one element more,
  * `chosen_sublist`, `chosen_replicate_true`, `chosen_replicate_false` — some, all and none,
  * `foldl_range` — an invariant of a loop over the indices,
  * `TakesStep`, `bestStep_takes` — a step stays in its column, or goes back by the weight,
  * `keptFrom_spec` — what is left out there is no more than the first column.
-/
import Mathlib.Algebra.BigOperators.Group.List.Basic
import Mathlib.Algebra.GroupWithZero.Nat
import Mathlib.Data.List.Basic

namespace Fantom.Lib

/-! ## By flags. -/

section Flags

variable {α : Type} {x : α} {xs : List α} {flags : List Bool} {i : Nat}

def chosen : List α → List Bool → List α
  | x :: xs, flag :: flags => if flag then x :: chosen xs flags else chosen xs flags
  | _, _ => []

theorem chosen_sublist (xs : List α) (flags : List Bool) : (chosen xs flags).Sublist xs := by
  induction xs generalizing flags with
  | nil => exact List.nil_sublist _
  | cons x xs ih =>
    cases flags with
    | nil => exact List.nil_sublist _
    | cons flag flags =>
      cases flag with
      | true => exact (ih flags).cons_cons x
      | false => exact (ih flags).cons x

theorem chosen_replicate_true (xs : List α) :
    chosen xs (List.replicate xs.length true) = xs := by
  induction xs with
  | nil => rfl
  | cons x xs ih => exact congrArg (x :: ·) ih

theorem chosen_replicate_false (xs : List α) (n : Nat) :
    chosen xs (List.replicate n false) = [] := by
  induction xs generalizing n with
  | nil => rfl
  | cons x xs ih =>
    cases n with
    | zero => rfl
    | succ n => exact ih n

/-- **One flag more** is one element more, in its place. -/
theorem chosen_set (hx : xs[i]? = some x) (hflag : flags[i]? = some false) :
    (chosen xs (flags.set i true)).Perm (x :: chosen xs flags) := by
  induction xs generalizing flags i with
  | nil => cases hx
  | cons y xs ih =>
    cases flags with
    | nil => cases hflag
    | cons flag flags =>
      cases i with
      | zero =>
        cases hx
        cases hflag
        exact List.Perm.refl _
      | succ i =>
        have hrest := ih hx hflag
        cases flag with
        | true => exact (hrest.cons y).trans (List.Perm.swap x y _)
        | false => exact hrest

theorem set_set_back (hflag : flags[i]? = some false) : (flags.set i true).set i false = flags := by
  rw [List.set_set]
  obtain ⟨hlt, hget⟩ := List.getElem?_eq_some_iff.mp hflag
  rw [← hget, List.set_getElem_self]

theorem foldl_range {σ : Type} {f : σ → Nat → σ} {n : Nat} (P : Nat → σ → Prop) {s : σ}
    (hinit : P 0 s) (hstep : ∀ i s, i < n → P i s → P (i + 1) (f s i)) :
    P n ((List.range n).foldl f s) := by
  induction n with
  | zero => exact hinit
  | succ n ih =>
    rw [List.range_succ, List.foldl_append]
    exact hstep n _ n.lt_succ_self (ih fun i s hi => hstep i s (Nat.lt_succ_of_lt hi))

end Flags

/-! ## By a table. -/

section Table

/-! ## §1. One entry. -/

section Entry

variable {G : Type} [Add G] [LE G] [DecidableRel (α := G) (· ≤ ·)]

/-- The entry of a column: the gain so far, and the column that it comes from.  `before` is the
row before it. -/
def bestStep (before : List G) (weight : Nat) (gain : G) (column : Nat) : Option (G × Nat) :=
  if weight ≤ column then do
    let step := (← before[column - weight]?) + gain
    let stay ← before[column]?
    if step ≤ stay then return (stay, column) else return (step, column - weight)
  else do
    let stay ← before[column]?
    return (stay, column)

/-- The step stays in the column, or goes back by the weight. -/
def TakesStep (weight column target : Nat) : Prop := target = column ∨ target + weight = column

/-- **An entry** is there for each column of the row before it. -/
theorem bestStep_takes {before : List G} (weight : Nat) (gain : G) {column : Nat}
    (h : column < before.length) :
    ∃ entry, bestStep before weight gain column = some entry ∧
      TakesStep weight column entry.2 := by
  have hstay := List.getElem?_eq_getElem h
  unfold bestStep
  by_cases hle : weight ≤ column
  · have hback : column - weight < before.length := by omega
    rw [if_pos hle, List.getElem?_eq_getElem hback, hstay]
    by_cases hbest : before[column - weight] + gain ≤ before[column]
    · exact ⟨(before[column], column), if_pos hbest, .inl rfl⟩
    · exact ⟨(before[column - weight] + gain, column - weight), if_neg hbest,
        .inr (Nat.sub_add_cancel hle)⟩
  · rw [if_neg hle, hstay]
    exact ⟨(before[column], column), rfl, .inl rfl⟩

end Entry

/-! ## §2. The way back. -/

variable {steps : Nat → Nat → Option Nat} {weights : Nat → Nat} {columns : Nat}

/-- The places below `n` whose step stays in its column, on the way back from `column`, the last
one first. -/
def keptFrom (steps : Nat → Nat → Option Nat) : (n column : Nat) → Option (List Nat)
  | 0, _ => some []
  | n + 1, column => do
    let target ← steps n column
    let kept ← keptFrom steps n target
    return if target = column then n :: kept else kept

theorem keptFrom_succ_eq_some {n column : Nat} {kept : List Nat}
    (h : keptFrom steps (n + 1) column = some kept) :
    ∃ target rest, steps n column = some target ∧ keptFrom steps n target = some rest ∧
      kept = if target = column then n :: rest else rest := by
  obtain ⟨target, hstep, h⟩ := Option.bind_eq_some_iff.mp h
  obtain ⟨rest, hrest, h⟩ := Option.bind_eq_some_iff.mp h
  exact ⟨target, rest, hstep, hrest, (Option.some.inj h).symm⟩

def weightOf (weights : Nat → Nat) (places : List Nat) : Nat := (places.map weights).sum

theorem weightOf_cons (place : Nat) (places : List Nat) :
    weightOf weights (place :: places) = weights place + weightOf weights places := List.sum_cons

/-- **What is left out** on the way back is no more than the first column: each step that does not
stay goes back by the weight. -/
theorem keptFrom_spec {n column : Nat}
    (hsteps : ∀ i < n, ∀ j < columns, ∃ k, steps i j = some k ∧ TakesStep (weights i) j k)
    (hcolumn : column < columns) :
    ∃ kept, keptFrom steps n column = some kept ∧ kept.Sublist (List.range n).reverse ∧
      weightOf weights (List.range n).reverse ≤ weightOf weights kept + column := by
  -- induction on the places that are left
  induction n generalizing column with
  | zero => exact ⟨[], rfl, List.Sublist.refl _, Nat.zero_le _⟩
  | succ n ih =>
    obtain ⟨target, hstep, htakes⟩ := hsteps n n.lt_succ_self column hcolumn
    have htarget : target < columns := by
      rcases htakes with h | h <;> omega
    obtain ⟨kept, hkept, hsub, hweight⟩ :=
      ih (fun i hi => hsteps i (Nat.lt_succ_of_lt hi)) htarget
    rw [keptFrom, hstep, List.range_succ, List.reverse_concat, weightOf_cons]
    show ∃ kept, (keptFrom steps n target).bind _ = some kept ∧ _
    rw [hkept]
    by_cases hstay : target = column
    · refine ⟨n :: kept, congrArg some (if_pos hstay), hsub.cons_cons n, ?_⟩
      rw [weightOf_cons]
      omega
    · have hback : target + weights n = column := htakes.resolve_left hstay
      refine ⟨kept, congrArg some (if_neg hstay), hsub.cons n, ?_⟩
      omega

end Table

end Fantom.Lib
