/-
  Fantom.Lib.Strides — A list visited in strides: one element, then as many further on as the first
  stride says, and so on.

  * `pick_split` — where a property holds from some distance on, the first element visited that has
    it stands at the first stop from there on.
-/
import Mathlib.Data.List.Basic
import Mathlib.Data.Nat.Find
import Mathlib.Order.Monotone.Basic
import Mathlib.Tactic.Common

namespace Fantom.Lib.Strides

universe u

variable {α : Type u} (stride : Nat → Nat)

/-! ## §1. Stops. -/

/-- The distance of the `i`-th stop. -/
def stop : Nat → Nat
  | 0 => 0
  | i + 1 => stop i + stride i

/-- The elements visited from the `i`-th stop on, where `l` begins there. -/
def pick (i : Nat) : List α → List α
  | [] => []
  | a :: l => a :: pick (i + 1) (l.drop (stride i - 1))
termination_by l => l.length
decreasing_by
  rw [List.length_drop, List.length_cons]
  omega

variable {stride}

theorem stop_strictMono (hpos : ∀ i, 0 < stride i) : StrictMono (stop stride) :=
  strictMono_nat_of_lt_succ fun i => Nat.lt_add_of_pos_right (hpos i)

theorem le_stop (hpos : ∀ i, 0 < stride i) (i : Nat) : i ≤ stop stride i := by
  induction i with
  | zero => exact Nat.zero_le _
  | succ i ih =>
    have hstep := hpos i
    show i + 1 ≤ stop stride i + stride i
    omega

theorem exists_stop (hpos : ∀ i, 0 < stride i) (f : Nat) : ∃ i, f ≤ stop stride i :=
  ⟨f, le_stop hpos f⟩

variable (hpos : ∀ i, 0 < stride i)

/-- The first stop at distance `f` or further. -/
def firstStop (f : Nat) : Nat := Nat.find (exists_stop hpos f)

theorem le_stop_firstStop (f : Nat) : f ≤ stop stride (firstStop hpos f) :=
  Nat.find_spec (exists_stop hpos f)

theorem stop_lt_of_lt {f j : Nat} (h : j < firstStop hpos f) : stop stride j < f :=
  Nat.lt_of_not_le (Nat.find_min (exists_stop hpos f) h)

/-! ## §2. The elements visited. -/

theorem pick_get (hpos : ∀ i, 0 < stride i) (i j : Nat) (l : List α) :
    (pick stride i l)[j]? = l[stop stride (i + j) - stop stride i]? := by
  induction j generalizing i l with
  | zero =>
    rw [Nat.add_zero, Nat.sub_self]
    cases l with
    | nil => rw [pick]
    | cons a l => rw [pick]; rfl
  | succ j ih =>
    cases l with
    | nil => rw [pick]; rfl
    | cons a l =>
      -- what is left after the stride, counted from the stop it leads to
      have hle : stop stride (i + 1) ≤ stop stride (i + 1 + j) :=
        (stop_strictMono hpos).monotone (Nat.le_add_right _ _)
      have hnext : stop stride (i + 1) = stop stride i + stride i := rfl
      have hstride := hpos i
      rw [pick, List.getElem?_cons_succ, ih, List.getElem?_drop,
        show i + (j + 1) = i + 1 + j by omega,
        show stop stride (i + 1 + j) - stop stride i
          = stride i - 1 + (stop stride (i + 1 + j) - stop stride (i + 1)) + 1 by omega]
      exact List.getElem?_cons_succ.symm

theorem pick_zero_get (hpos : ∀ i, 0 < stride i) (j : Nat) (l : List α) :
    (pick stride 0 l)[j]? = l[stop stride j]? := by
  rw [pick_get hpos, Nat.zero_add]
  rfl

theorem pick_length_le (hpos : ∀ i, 0 < stride i) {l : List α} {i : Nat}
    (h : l.length ≤ stop stride i) : (pick stride 0 l).length ≤ i := by
  rw [← List.getElem?_eq_none_iff, pick_zero_get hpos]
  exact List.getElem?_eq_none h

/-- **The first element visited** with a property that no element before distance `f` has: the
one at the first stop from there on, where the list is long enough for it. -/
theorem pick_split {P : α → Prop} {l : List α} {f : Nat}
    (hbefore : ∀ k a, k < f → l[k]? = some a → ¬ P a) :
    (∀ a ∈ (pick stride 0 l).take (firstStop hpos f), ¬ P a) ∧
      (pick stride 0 l)[firstStop hpos f]? = l[stop stride (firstStop hpos f)]? := by
  refine ⟨fun a ha => ?_, pick_zero_get hpos _ l⟩
  obtain ⟨j, hj⟩ := List.getElem?_of_mem ha
  rw [List.getElem?_take] at hj
  split at hj
  next hlt =>
    rw [pick_zero_get hpos] at hj
    exact hbefore _ _ (stop_lt_of_lt hpos hlt) hj
  next => cases hj

end Fantom.Lib.Strides
