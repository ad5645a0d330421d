/-
  Fantom.Lib.CheckedStack — A stack machine whose accesses are checked against the bottom of the
  stack, apart from the ends that its own code foresees.

  * `guarded`, `guarded_bind` — a computation that may fail, as one that may stop; it never reaches
    below the bottom.

  A stack is a list with the top first.
-/
import Fantom.Lib.Cached
import Fantom.Lib.Checked

namespace Fantom.Lib

/-- How a run stops before its end. -/
inductive Stop
  /-- Its code gives up. -/
  | fails
  /-- An access to an element that the stack does not have. -/
  | belowBottom
deriving DecidableEq, Repr

namespace CheckedStack

variable {α β σ : Type}

/-! ## §1. Accesses. -/

/-- The element at depth `i`, where the top has depth one. -/
def top (i : Nat) (stack : List α) : Except Stop α :=
  if i = 0 then .error .belowBottom else required stack[i - 1]? .belowBottom

def pop (stack : List α) : Except Stop (List α) :=
  match stack with
  | [] => .error .belowBottom
  | _ :: st => .ok st

/-- `n` elements go, the lowest at depth `i`. -/
def eraseTop (i n : Nat) (stack : List α) : Except Stop (List α) :=
  if stack.length < i ∨ i < n then .error .belowBottom
  else .ok (stack.take (i - n) ++ stack.drop i)

/-- An element goes under the first `i` ones. -/
def insertTop (i : Nat) (a : α) (stack : List α) : Except Stop (List α) :=
  if stack.length < i then .error .belowBottom
  else .ok (stack.take i ++ a :: stack.drop i)

def swapTop (i j : Nat) (stack : List α) : Except Stop (List α) := do
  let a ← top i stack
  let b ← top j stack
  return (stack.set (i - 1) b).set (j - 1) a

/-- `n` elements are popped. -/
def popMany : Nat → List α → Except Stop (List α)
  | 0, stack => .ok stack
  | n + 1, stack => pop stack >>= popMany n

variable {a : α} {st stack : List α} {i n : Nat}

theorem top_succ (i : Nat) (stack : List α) :
    top (i + 1) stack = required stack[i]? .belowBottom := rfl

@[simp] theorem top_one (a : α) (st : List α) : top 1 (a :: st) = .ok a := rfl

@[simp] theorem top_two (a b : α) (st : List α) : top 2 (a :: b :: st) = .ok b := rfl

@[simp] theorem top_three (a b c : α) (st : List α) : top 3 (a :: b :: c :: st) = .ok c := rfl

@[simp] theorem pop_cons (a : α) (st : List α) : pop (a :: st) = .ok st := rfl

theorem top_of_lt (h : i < stack.length) : top (i + 1) stack = .ok stack[i] := by
  rw [top_succ, List.getElem?_eq_getElem h]
  rfl

theorem popMany_of_le (h : n ≤ stack.length) : popMany n stack = .ok (stack.drop n) := by
  induction n generalizing stack with
  | zero => rfl
  | succ n ih =>
    cases stack with
    | nil => cases h
    | cons a st =>
      rw [popMany, pop_cons, ok_bind, List.drop_succ_cons]
      exact ih (Nat.le_of_succ_le_succ h)

theorem eraseTop_one (h : i < stack.length) :
    eraseTop (i + 1) 1 stack = .ok (stack.eraseIdx i) := by
  rw [eraseTop, if_neg (by omega), List.eraseIdx_eq_take_drop_succ]
  rfl

/-! ## §2. Runs. -/

def Run (σ α : Type) : Type := σ → Except Stop α × σ

namespace Run

def ok (a : α) : Run σ α := fun s => (.ok a, s)

def of (x : Except Stop α) : Run σ α := fun s => (x, s)

def bind (x : Run σ α) (y : α → Run σ β) : Run σ β := fun s =>
  match x s with
  | (.error e, s) => (.error e, s)
  | (.ok a, s) => y a s

theorem of_ok_bind (a : α) (y : α → Run σ β) : (of (.ok a) : Run σ α).bind y = y a := rfl

end Run

variable (x : Cached σ α)

/-- A computation that may fail, where it does so by its code. -/
def guarded : Run σ α := fun s =>
  match x s with
  | (some a, s) => (.ok a, s)
  | (none, s) => (.error .fails, s)

/-- **What may fail never reaches below the bottom.** -/
theorem guarded_ne_belowBottom (s : σ) : (guarded x s).1 ≠ .error .belowBottom := by
  unfold guarded
  split <;> nofun

theorem guarded_toOption (s : σ) : ((guarded x s).1.toOption, (guarded x s).2) = x s := by
  unfold guarded
  split
  next a s' h => exact h.symm
  next s' h => exact h.symm

theorem guarded_ok (a : α) : guarded (.ok a : Cached σ α) = .ok a := rfl

theorem guarded_fail : guarded (.fail : Cached σ α) = .of (.error .fails) := rfl

theorem guarded_ofOption (x : Option α) :
    guarded (.ofOption x : Cached σ α) = .of (required x .fails) := by
  cases x <;> rfl

theorem guarded_ofOption_bind (a : α) (y : α → Cached σ β) :
    guarded ((.ofOption (some a) : Cached σ α).bind y) = guarded (y a) := rfl

theorem guarded_bind (y : α → Cached σ β) :
    guarded (x.bind y) = (guarded x).bind fun a => guarded (y a) := by
  funext s
  unfold guarded Cached.bind Run.bind
  dsimp only
  rcases x s with ⟨_ | a, s'⟩ <;> rfl

theorem guarded_ite {p : Prop} [Decidable p] (x y : Cached σ α) :
    guarded (if p then x else y) = if p then guarded x else guarded y := by
  split <;> rfl

end CheckedStack

end Fantom.Lib
