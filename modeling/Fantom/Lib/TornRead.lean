/-
  Fantom.Lib.TornRead — Readers that say where a read which throws leaves the stream.

  * `TornReader` — what is left is never more than there was,
  * `toReader_bind`, `toReader_many` — without what is left, it is a `Reader`.
-/
import Fantom.Lib.Format

namespace Fantom.Lib

universe u

variable {β α γ : Type u}

def leftOf : Except (List β) (α × List β) → List β
  | .ok (_, rest) => rest
  | .error rest => rest

/-- Reads a value from the front of a list, or throws and leaves what it has not taken. -/
structure TornReader (β α : Type u) where
  run : List β → Except (List β) (α × List β)
  left_le : ∀ bs, (leftOf (run bs)).length ≤ bs.length

namespace TornReader

/-- The next `n` symbols; where there are fewer, none is taken. -/
def take (n : Nat) : TornReader β (List β) where
  run bs := if n ≤ bs.length then .ok (bs.take n, bs.drop n) else .error bs
  left_le bs := by
    split
    · simp [leftOf]
    · exact Nat.le_refl _

def throw : TornReader β α where
  run bs := .error bs
  left_le _ := Nat.le_refl _

instance : Monad (TornReader β) where
  pure a := ⟨fun bs => .ok (a, bs), fun _ => Nat.le_refl _⟩
  bind x f :=
    { run := fun bs =>
        match x.run bs with
        | .ok (a, rest) => (f a).run rest
        | .error rest => .error rest
      left_le := by
        intro bs
        have hx := x.left_le bs
        cases h : x.run bs with
        | ok p =>
          rw [h] at hx
          exact Nat.le_trans ((f p.1).left_le p.2) hx
        | error rest =>
          rw [h] at hx
          exact hx }

/-- `n` values, one after another. -/
def many (r : TornReader β α) : Nat → TornReader β (List α)
  | 0 => pure []
  | n + 1 => do
    let x ← r
    let xs ← many r n
    return x :: xs

theorem run_bind_ok {x : TornReader β γ} {f : γ → TornReader β α} {bs rest : List β} {a : γ}
    (h : x.run bs = .ok (a, rest)) : (x >>= f).run bs = (f a).run rest := by
  show (match x.run bs with | .ok (a, rest) => (f a).run rest | .error rest => .error rest) = _
  rw [h]

theorem run_bind_error {x : TornReader β γ} {f : γ → TornReader β α} {bs rest : List β}
    (h : x.run bs = .error rest) : (x >>= f).run bs = .error rest := by
  show (match x.run bs with | .ok (a, rest) => (f a).run rest | .error rest => .error rest) = _
  rw [h]

/-! ## Without what is left. -/

def toReader (r : TornReader β α) : Reader β α := fun bs => (r.run bs).toOption

@[simp] theorem toReader_pure (a : α) : (pure a : TornReader β α).toReader = pure a := rfl

@[simp] theorem toReader_throw : (throw : TornReader β α).toReader = failure := rfl

@[simp] theorem toReader_take (n : Nat) : (take n : TornReader β (List β)).toReader = readTake n := by
  funext bs
  show Except.toOption (if n ≤ bs.length then _ else _) = if n ≤ bs.length then _ else _
  split
  · rfl
  · rfl

@[simp] theorem toReader_bind (x : TornReader β γ) (f : γ → TornReader β α) :
    (x >>= f).toReader = x.toReader >>= fun a => (f a).toReader := by
  funext bs
  show Except.toOption ((x >>= f).run bs) = (x.run bs).toOption.bind fun p => _
  cases h : x.run bs with
  | ok p =>
    rw [run_bind_ok h]
    rfl
  | error rest =>
    rw [run_bind_error h]
    rfl

@[simp] theorem toReader_map (g : γ → α) (x : TornReader β γ) :
    (g <$> x).toReader = g <$> x.toReader := toReader_bind x fun a => pure (g a)

@[simp] theorem toReader_ite {p : Prop} [Decidable p] (x y : TornReader β α) :
    (if p then x else y).toReader = if p then x.toReader else y.toReader := by
  split
  · rfl
  · rfl

@[simp] theorem toReader_many (r : TornReader β α) (n : Nat) :
    (many r n).toReader = readMany r.toReader n := by
  induction n with
  | zero => rfl
  | succ n ih => simp [many, readMany, ih]

theorem run_of_toReader {r : TornReader β α} {bs : List β} {p : α × List β}
    (h : r.toReader.run bs = some p) : r.run bs = .ok p := by
  cases hr : r.run bs with
  | ok q =>
    have heq : some q = some p := by
      rw [← h]
      show _ = (r.run bs).toOption
      rw [hr]
      rfl
    cases heq
    rfl
  | error rest =>
    have heq : none = some p := by
      rw [← h]
      show _ = (r.run bs).toOption
      rw [hr]
      rfl
    cases heq

end TornReader

end Fantom.Lib
