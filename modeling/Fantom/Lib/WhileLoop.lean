/-
  Fantom.Lib.WhileLoop — `while` loops that may or may not come to an end.

  * `Ends` — the loop comes to an end, with a result,
  * `boundary`, `boundary_rule` — where the loop is between two turns, and what every turn keeps,
  * `Ends.rule` — what the turns keep is true of the last one,
  * `ends_of_measure` — a loop whose turns keep an invariant and make a number smaller ends,
  * `not_ends_of_stuck` — one that comes back to where it was does not.
-/
import Mathlib.Tactic.Common

namespace Fantom.Lib

universe u v

namespace WhileLoop

variable {σ : Type u} {ρ : Type v} (turn : σ → σ ⊕ ρ)

/-- The result of the loop, if it is left within `n` turns. -/
def turns : Nat → σ → Option ρ
  | 0, _ => none
  | n + 1, s => (turn s).elim (turns n) some

/-- The loop that starts in `s` comes to an end, with `r`. -/
def Ends (s : σ) (r : ρ) : Prop := ∃ n, turns turn n s = some r

variable {turn} {s s' : σ} {r r' : ρ}

theorem turns_succ_inl (h : turn s = .inl s') (n : Nat) :
    turns turn (n + 1) s = turns turn n s' := by
  rw [turns, h]
  rfl

theorem turns_succ_inr (h : turn s = .inr r) (n : Nat) : turns turn (n + 1) s = some r := by
  rw [turns, h]
  rfl

theorem ends_inr_iff (h : turn s = .inr r) : Ends turn s r' ↔ r = r' := by
  constructor
  · intro ⟨n, hn⟩
    cases n with
    | zero => exact nomatch hn
    | succ n =>
      rw [turns_succ_inr h] at hn
      exact Option.some.inj hn
  · intro hr
    exact ⟨1, by rw [turns_succ_inr h, hr]⟩

theorem ends_inl_iff (h : turn s = .inl s') : Ends turn s r ↔ Ends turn s' r := by
  constructor
  · intro ⟨n, hn⟩
    cases n with
    | zero => exact nomatch hn
    | succ n => exact ⟨n, by rw [← turns_succ_inl h, hn]⟩
  · intro ⟨n, hn⟩
    exact ⟨n + 1, by rw [turns_succ_inl h, hn]⟩

/-- **A turn that changes nothing is taken for ever.** -/
theorem not_ends_of_stuck (h : turn s = .inl s) : ¬ Ends turn s r := by
  intro ⟨n, hn⟩
  -- one turn less is left each time, and there are none at the end
  induction n with
  | zero => exact nomatch hn
  | succ n ih =>
    rw [turns_succ_inl h] at hn
    exact ih hn

theorem Ends.unique (h : Ends turn s r) (h' : Ends turn s r') : r = r' := by
  obtain ⟨n, hn⟩ := h
  induction n generalizing s with
  | zero => exact nomatch hn
  | succ n ih =>
    cases hturn : turn s with
    | inl next =>
      rw [turns_succ_inl hturn] at hn
      exact ih ((ends_inl_iff hturn).mp h') hn
    | inr out =>
      rw [turns_succ_inr hturn] at hn
      exact (Option.some.inj hn).symm.trans ((ends_inr_iff hturn).mp h')

/-- **The rule for a loop that came to its end**: what the turns keep is true of the turn that leaves
it. -/
theorem Ends.rule {I : σ → Prop} {P : Prop} (hon : ∀ s s', I s → turn s = .inl s' → I s')
    (hout : ∀ s, I s → turn s = .inr r → P) (h : I s) (hend : Ends turn s r) : P := by
  obtain ⟨n, hn⟩ := hend
  induction n generalizing s with
  | zero => exact nomatch hn
  | succ n ih =>
    cases hturn : turn s with
    | inl next =>
      rw [turns_succ_inl hturn] at hn
      exact ih (hon s next h hturn) hn
    | inr out =>
      rw [turns_succ_inr hturn] at hn
      exact hout s h (by rw [hturn, Option.some.inj hn])

/-- **A loop that goes down ends**: the turns keep `I` and lower `μ`, and what a turn leaves the
loop with has `P`. -/
theorem ends_of_measure {I : σ → Prop} {P : ρ → Prop} (μ : σ → Nat)
    (hon : ∀ s s', I s → turn s = .inl s' → I s' ∧ μ s' < μ s)
    (hout : ∀ s r, I s → turn s = .inr r → P r) (h : I s) :
    ∃ r, Ends turn s r ∧ P r := by
  -- on the number that the turns lower
  induction hm : μ s using Nat.strongRecOn generalizing s with
  | ind m ih =>
    cases hturn : turn s with
    | inl next =>
      obtain ⟨hnext, hlt⟩ := hon s next h hturn
      obtain ⟨r, hr, hp⟩ := ih (μ next) (by omega) hnext rfl
      exact ⟨r, (ends_inl_iff hturn).mpr hr, hp⟩
    | inr out => exact ⟨out, (ends_inr_iff hturn).mpr rfl, hout s out h hturn⟩

/-! ## Between the turns. -/

variable (turn) in
/-- Where the loop is after `n` turns, if it goes on that long. -/
def boundary : Nat → σ → Option σ
  | 0, s => some s
  | n + 1, s => (turn s).elim (boundary n) fun _ => none

theorem boundary_succ_inl (h : turn s = .inl s') (n : Nat) :
    boundary turn (n + 1) s = boundary turn n s' := by
  rw [boundary, h]
  rfl

theorem boundary_succ_inr (h : turn s = .inr r) (n : Nat) : boundary turn (n + 1) s = none := by
  rw [boundary, h]
  rfl

theorem boundary_next {t t' : σ} (ht : turn t = .inl t') {n : Nat}
    (hn : boundary turn n s = some t) : boundary turn (n + 1) s = some t' := by
  induction n generalizing s with
  | zero =>
    cases hn
    rw [boundary_succ_inl ht]
    rfl
  | succ n ih =>
    cases hturn : turn s with
    | inl next =>
      rw [boundary_succ_inl hturn] at hn ⊢
      exact ih hn
    | inr out =>
      rw [boundary_succ_inr hturn] at hn
      cases hn

/-- **What every turn keeps holds between any two of them.** -/
theorem boundary_rule {I : σ → Prop} (hstep : ∀ s s', I s → turn s = .inl s' → I s') (h : I s)
    {n : Nat} (hn : boundary turn n s = some s') : I s' := by
  induction n generalizing s with
  | zero =>
    cases hn
    exact h
  | succ n ih =>
    cases hturn : turn s with
    | inl next =>
      rw [boundary_succ_inl hturn] at hn
      exact ih (hstep s next h hturn) hn
    | inr out =>
      rw [boundary_succ_inr hturn] at hn
      cases hn

end WhileLoop

end Fantom.Lib
