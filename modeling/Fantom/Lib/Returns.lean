/-
  Fantom.Lib.Returns — How a computation may end.

  * `never_bind` — what a computation needs is what its parts need,
  * `forLoop`, `never_forLoop` — a loop over an index, and its invariant,
  * `forLoop_eq_ok` — a loop that has returned has gone through each of its rounds,
  * `forLoop_rule` — what each round keeps holds where a loop returns,
  * `EarlyReturn.Passes` — the verdict of a loop that some elements end early with success,
  * `EarlyReturn.passes_all_iff` — when a passing verdict stands for all elements.
-/
import Fantom.Lib.Checked
import Mathlib.Data.List.Basic
import Mathlib.Tactic.Common

namespace Fantom.Lib

open List

/-! ## Neither an exception nor a failed assertion. -/

section Results

variable {ε α β σ : Type}

/-- The computation returns a result with `P`. -/
def Returns (x : Except ε α) (P : α → Prop) : Prop := ∃ a, x = .ok a ∧ P a

namespace Returns

variable {x : Except ε α} {P Q : α → Prop}

theorem ok {a : α} (h : P a) : Returns (.ok a : Except ε α) P := ⟨a, rfl, h⟩

instance [DecidablePred P] : Decidable (Returns x P) :=
  match x with
  | .ok a => decidable_of_iff (P a) ⟨.ok, fun h => h.elim fun _ h => Except.ok.inj h.1 ▸ h.2⟩
  | .error _ => .isFalse fun h => h.elim fun _ h => nomatch h.1

theorem bind {f : α → Except ε β} {R : β → Prop} (hx : Returns x P)
    (hf : ∀ a, P a → Returns (f a) R) : Returns (x >>= f) R := by
  obtain ⟨a, rfl, ha⟩ := hx
  exact hf a ha

theorem mono (hx : Returns x P) (h : ∀ a, P a → Q a) : Returns x Q := by
  obtain ⟨a, heq, ha⟩ := hx
  exact ⟨a, heq, h a ha⟩

theorem of_ok {a : α} (hx : Returns x P) (h : x = .ok a) : P a := by
  obtain ⟨b, heq, hb⟩ := hx
  obtain rfl := Except.ok.inj (h.symm.trans heq)
  exact hb

theorem of_bind {f : α → Except ε β} {R : β → Prop} (h : Returns (x >>= f) R) :
    ∃ a, x = .ok a ∧ Returns (f a) R := by
  cases x with
  | ok a => exact ⟨a, rfl, h⟩
  | error e =>
    obtain ⟨b, hb, -⟩ := h
    cases hb

theorem turn_of_foldlM {f : σ → α → Except ε σ} {R : σ → Prop} {l : List α} {s : σ}
    (h : Returns (l.foldlM f s) R) {a : α} (ha : a ∈ l) : ∃ s' s'', f s' a = .ok s'' := by
  induction l generalizing s with
  | nil => cases ha
  | cons b rest ih =>
    rw [foldlM_cons] at h
    obtain ⟨s', hs', hrest⟩ := h.of_bind
    obtain rfl | ha := mem_cons.mp ha
    · exact ⟨s, s', hs'⟩
    · exact ih hrest ha

theorem foldlM {f : σ → α → Except ε σ} {I : List α → σ → Prop}
    (hstep : ∀ a rest s, I (a :: rest) s → Returns (f s a) (I rest)) {l : List α} {s : σ}
    (h : I l s) : Returns (l.foldlM f s) (I []) := by
  induction l generalizing s with
  | nil => exact ⟨s, rfl, h⟩
  | cons a rest ih =>
    rw [foldlM_cons]
    exact (hstep a rest s h).bind fun s' hs' => ih hs'

end Returns

end Results

/-! ## One failure that is never met. -/

section Failures

variable {ε α β : Type} {bad : ε}

/-- `x` does not fail with `bad`, and what it returns has `P`. -/
def Never (bad : ε) (x : Except ε α) (P : α → Prop) : Prop :=
  match x with
  | .ok a => P a
  | .error e => e ≠ bad

@[simp] theorem never_ok {a : α} {P : α → Prop} : Never bad (.ok a) P ↔ P a := Iff.rfl

@[simp] theorem never_error {e : ε} {P : α → Prop} :
    Never bad (.error e : Except ε α) P ↔ e ≠ bad := Iff.rfl

theorem never_bind {x : Except ε α} {f : α → Except ε β} {P : β → Prop} :
    Never bad (x >>= f) P ↔ Never bad x fun a => Never bad (f a) P := by
  cases x with
  | ok a => exact Iff.rfl
  | error e => exact Iff.rfl

theorem never_map {x : Except ε α} {f : α → β} {P : β → Prop} :
    Never bad (f <$> x) P ↔ Never bad x fun a => P (f a) := by
  cases x with
  | ok a => exact Iff.rfl
  | error e => exact Iff.rfl

theorem Never.mono {x : Except ε α} {P Q : α → Prop} (hx : Never bad x P) (h : ∀ a, P a → Q a) :
    Never bad x Q := by
  cases x with
  | ok a => exact h a hx
  | error e => exact hx

/-- `for (; left > 0; ++i, --left)` -/
def forLoop {σ : Type} (f : Nat → σ → Except ε σ) : (i left : Nat) → σ → Except ε σ
  | _, 0, s => .ok s
  | i, left + 1, s => f i s >>= forLoop f (i + 1) left

theorem never_forLoop {σ : Type} {f : Nat → σ → Except ε σ} {I : σ → Prop} {i left : Nat} {s : σ}
    (hstep : ∀ j s, j < i + left → I s → Never bad (f j s) I) (h : I s) :
    Never bad (forLoop f i left s) I := by
  -- induction on the rounds that are left
  induction left generalizing i s with
  | zero => exact h
  | succ left ih =>
    show Never bad (f i s >>= forLoop f (i + 1) left) I
    rw [never_bind]
    refine (hstep i s (by omega) h).mono ?_
    intro s' hs'
    exact ih (fun j s hj => hstep j s (by omega)) hs'

theorem forLoop_succ_eq_ok {σ : Type} {f : Nat → σ → Except ε σ} {i left : Nat} {s t : σ}
    (h : forLoop f i (left + 1) s = .ok t) :
    ∃ s', f i s = .ok s' ∧ forLoop f (i + 1) left s' = .ok t := by
  change (f i s >>= forLoop f (i + 1) left) = .ok t at h
  cases hfirst : f i s with
  | error e =>
    rw [hfirst] at h
    cases h
  | ok s' =>
    rw [hfirst] at h
    exact ⟨s', rfl, h⟩

theorem forLoop_eq_ok {σ : Type} {f : Nat → σ → Except ε σ} {i left : Nat} {s t : σ}
    (h : forLoop f i left s = .ok t) {j : Nat} (hj : i ≤ j) (hlt : j < i + left) :
    ∃ s' t', f j s' = .ok t' := by
  induction left generalizing i s with
  | zero => omega
  | succ left ih =>
    obtain ⟨s', hfirst, hrest⟩ := forLoop_succ_eq_ok h
    by_cases heq : i = j
    · subst heq
      exact ⟨s, s', hfirst⟩
    · exact ih hrest (by omega) (by omega)

theorem forLoop_rule {σ : Type} {f : Nat → σ → Except ε σ} {I : σ → Prop} {i left : Nat} {s t : σ}
    (hstep : ∀ j s s', j < i + left → I s → f j s = .ok s' → I s') (h0 : I s)
    (h : forLoop f i left s = .ok t) : I t := by
  induction left generalizing i s with
  | zero =>
    cases h
    exact h0
  | succ left ih =>
    obtain ⟨s', hfirst, hrest⟩ := forLoop_succ_eq_ok h
    have hkept := hstep i s s' (by omega) h0 hfirst
    exact ih (fun j s s' hj => hstep j s s' (by omega)) hkept hrest

end Failures

/-! ## Success before the end. -/

namespace EarlyReturn

variable {α : Type} {good stop : α → Prop} {l : List α}

/-- Every element up to the first that stops the loop is good, that one included. -/
def Passes (good stop : α → Prop) : List α → Prop
  | [] => True
  | a :: l => good a ∧ (stop a ∨ Passes good stop l)

theorem passes_of_stop {before after : List α} {a : α} (hbefore : ∀ b ∈ before, good b)
    (ha : good a) (hstop : stop a) : Passes good stop (before ++ a :: after) := by
  induction before with
  | nil => exact ⟨ha, .inl hstop⟩
  | cons b before ih =>
    exact ⟨hbefore b mem_cons_self,
      .inr (ih fun c hc => hbefore c (mem_cons_of_mem _ hc))⟩

theorem Passes.seen (h : Passes good stop l) :
    (∀ a ∈ l, good a) ∨ ∃ before a after, l = before ++ a :: after ∧
      (∀ b ∈ before, good b) ∧ good a ∧ stop a := by
  induction l with
  | nil => exact .inl fun a ha => nomatch ha
  | cons b l ih =>
    obtain ⟨hb, hstop | hrest⟩ := h
    · exact .inr ⟨[], b, l, rfl, fun c hc => (nomatch hc), hb, hstop⟩
    · rcases ih hrest with hall | ⟨before, a, after, rfl, hbefore, ha, hstop⟩
      · refine .inl fun a ha => ?_
        rcases mem_cons.mp ha with rfl | ha
        · exact hb
        · exact hall a ha
      · refine .inr ⟨b :: before, a, after, rfl, ?_, ha, hstop⟩
        intro c hc
        rcases mem_cons.mp hc with rfl | hc
        · exact hb
        · exact hbefore c hc

/-- **The verdict stands for all elements** exactly when nothing bad is behind an
element that stops a loop that got there. -/
theorem passes_all_iff :
    (Passes good stop l → ∀ a ∈ l, good a) ↔
      ∀ before a after, l = before ++ a :: after → (∀ b ∈ before, good b) → good a → stop a →
        ∀ b ∈ after, good b := by
  constructor
  · rintro h before a after rfl hbefore ha hstop b hb
    refine h (passes_of_stop hbefore ha hstop) b ?_
    exact mem_append_right _ (mem_cons_of_mem _ hb)
  · intro h hpass
    rcases hpass.seen with hall | ⟨before, a, after, rfl, hbefore, ha, hstop⟩
    · exact hall
    · intro b hb
      rcases mem_append.mp hb with hb | hb
      · exact hbefore b hb
      · rcases mem_cons.mp hb with rfl | hb
        · exact ha
        · exact h before a after rfl hbefore ha hstop b hb

end EarlyReturn

/-! ## A computation that may throw. -/

/-- How a call ends that does not return. -/
inductive Abort where
  /-- An exception or a failed assertion. -/
  | threw (what : String)
  /-- A deleted object, or an element that is out of range, is accessed. -/
  | dangling
  | endless
  /-- An operation on signed integers overflows. -/
  | overflow
deriving DecidableEq

/-- `x` returns with `P` or throws: no bad access is made, and no loop is endless. -/
def Safe {α : Type} (x : Except Abort α) (P : α → Prop) : Prop :=
  match x with
  | .ok a => P a
  | .error (.threw _) => True
  | .error _ => False

namespace Safe

variable {α β : Type} {x : Except Abort α} {P Q : α → Prop}

theorem ok {a : α} (h : P a) : Safe (.ok a) P := h

theorem threw (what : String) : Safe (.error (.threw what)) P := trivial

theorem bind {f : α → Except Abort β} {R : β → Prop} (hx : Safe x P)
    (hf : ∀ a, P a → Safe (f a) R) : Safe (x >>= f) R := by
  match x, hx with
  | .ok a, ha => exact hf a ha
  | .error (.threw _), _ => trivial

theorem map {f : α → β} {R : β → Prop} (hx : Safe x P) (hf : ∀ a, P a → R (f a)) :
    Safe (x.map f) R := by
  match x, hx with
  | .ok a, ha => exact hf a ha
  | .error (.threw _), _ => trivial

theorem mono (hx : Safe x P) (h : ∀ a, P a → Q a) : Safe x Q := by
  match x, hx with
  | .ok a, ha => exact h a ha
  | .error (.threw _), _ => trivial

theorem of_ok {a : α} (hx : Safe x P) (h : x = .ok a) : P a := by
  subst h
  exact hx

theorem of_error {e : Abort} (hx : Safe x P) (h : x = .error e) : ∃ what, e = .threw what := by
  subst h
  match e, hx with
  | .threw what, _ => exact ⟨what, rfl⟩

theorem foldlM {σ : Type} {f : σ → α → Except Abort σ} {I : List α → σ → Prop}
    (hstep : ∀ a rest s, I (a :: rest) s → Safe (f s a) (I rest)) {l : List α} {s : σ}
    (h : I l s) : Safe (l.foldlM f s) (I []) := by
  induction l generalizing s with
  | nil => exact h
  | cons a rest ih =>
    rw [foldlM_cons]
    exact (hstep a rest s h).bind fun s' hs' => ih hs'

end Safe

end Fantom.Lib
