/-
  Fantom.Lib.Runs — Runs of a deterministic system that takes one event after another.

  * `run_invariant`, `run_rule` — the induction over a run, once: what one step preserves, a whole
    run preserves,
  * `run_iff` — what a run preserves under a condition only,
  * `states_iff` — when every state of a run is good,
  * `concat_eq_append_cons`, `since_concat` — one entry more.
-/
import Mathlib.Data.List.Basic
import Mathlib.Tactic.Common

namespace Fantom.Lib

open List

/-! ## Runs. -/

section Runs

universe u v

variable {σ : Type u} {ε : Type v} (step : σ → ε → σ)

variable (s : σ)

/-- The state reached from `s` by the events in order. -/
def run (evs : List ε) : σ := evs.foldl step s

@[simp] theorem run_nil : run step s [] = s := rfl

@[simp] theorem run_cons (e : ε) (evs : List ε) :
    run step s (e :: evs) = run step (step s e) evs := rfl

theorem run_append (evs evs' : List ε) :
    run step s (evs ++ evs') = run step (run step s evs) evs' :=
  foldl_append

theorem run_concat (evs : List ε) (e : ε) : run step s (evs ++ [e]) = step (run step s evs) e := by
  rw [run_append]; rfl

/-- Every event of the run satisfies `P` in the state it is applied to. -/
def Along (P : σ → ε → Prop) : σ → List ε → Prop
  | _, [] => True
  | s, e :: evs => P s e ∧ Along P (step s e) evs

variable {step}

theorem along_append {P : σ → ε → Prop} {s : σ} {evs evs' : List ε} :
    Along step P s (evs ++ evs') ↔
      Along step P s evs ∧ Along step P (run step s evs) evs' := by
  induction evs generalizing s with
  | nil => simp [Along]
  | cons e evs ih => simp only [cons_append, Along, ih, run_cons, and_assoc]

/-- At every cut of the run, the event after the cut satisfies `P` in the state
at the cut. -/
theorem along_iff {P : σ → ε → Prop} {s : σ} {evs : List ε} :
    Along step P s evs ↔
      ∀ done e rest, evs = done ++ e :: rest → P (run step s done) e := by
  induction evs generalizing s with
  | nil => simp [Along]
  | cons e evs ih =>
    simp only [Along, ih]
    constructor
    · rintro ⟨h0, h⟩ done e' rest hl
      cases done with
      | nil =>
        obtain ⟨rfl, rfl⟩ := cons.inj hl
        exact h0
      | cons d done =>
        obtain ⟨rfl, hl'⟩ := cons.inj hl
        exact h done e' rest hl'
    · intro h
      exact ⟨h [] e evs rfl, fun done e' rest hl => h (e :: done) e' rest (by rw [hl]; rfl)⟩

theorem along_and {P Q : σ → ε → Prop} {s : σ} {evs : List ε} :
    Along step (fun s e => P s e ∧ Q s e) s evs ↔ Along step P s evs ∧ Along step Q s evs := by
  simp only [along_iff]
  exact ⟨fun h => ⟨fun done e rest hl => (h done e rest hl).1,
    fun done e rest hl => (h done e rest hl).2⟩,
    fun h done e rest hl => ⟨h.1 done e rest hl, h.2 done e rest hl⟩⟩

theorem along_of_forall {P : σ → ε → Prop} (h : ∀ s e, P s e) (s : σ) (evs : List ε) :
    Along step P s evs :=
  along_iff.mpr fun _ _ _ _ => h _ _

/-- **The run lemma.**  What every step whose event meets its condition
preserves, a run whose events all meet it preserves. -/
theorem run_invariant {I : σ → Prop} {P : σ → ε → Prop}
    (hstep : ∀ s e, I s → P s e → I (step s e)) {s : σ} {evs : List ε}
    (h0 : I s) (hP : Along step P s evs) : I (run step s evs) := by
  induction evs generalizing s with
  | nil => exact h0
  | cons e evs ih => exact ih (hstep s e h0 hP.1) hP.2

/-- Where a step keeps `G` exactly if its event meets `P`, a run keeps it exactly if all its
events do. -/
theorem run_iff {I G : σ → Prop} {P : σ → ε → Prop} (hI : ∀ s e, I s → I (step s e))
    (hG : ∀ s e, I s → (G (step s e) ↔ G s ∧ P s e)) {s : σ} (evs : List ε) (h0 : I s) :
    G (run step s evs) ↔ G s ∧ Along step P s evs := by
  induction evs generalizing s with
  | nil => exact ⟨fun h => ⟨h, trivial⟩, And.left⟩
  | cons e evs ih => rw [run_cons, ih (hI s e h0), hG s e h0, and_assoc]; rfl

theorem run_rule {I : List ε → σ → Prop} {s : σ} {evs : List ε} (h0 : I [] s)
    (hstep : ∀ done e rest s, evs = done ++ e :: rest → I done s → I (done ++ [e]) (step s e)) :
    I evs (run step s evs) := by
  -- induction on the events still to come, with those already taken in `done`
  suffices key : ∀ (rest done : List ε) (s : σ), evs = done ++ rest → I done s →
      I evs (run step s rest) from key evs [] s rfl h0
  intro rest
  induction rest with
  | nil =>
    intro done s hl hI
    rw [hl, append_nil]
    exact hI
  | cons e rest ih =>
    intro done s hl hI
    exact ih (done ++ [e]) (step s e) (by simp [hl]) (hstep done e rest s hl hI)

/-- **The condition of a good run.**  Where the next state is good exactly if its event meets
`P`, all states of a run are good exactly if all its events meet `P`.  `Q` is what the run is
known to stay below, from its end back. -/
theorem states_iff {I G Q : σ → Prop} {P : σ → ε → Prop} (hG : ∀ s, I s → G s)
    (hQ : ∀ s e, Q (step s e) → Q s) (hstep : ∀ s e, I s → P s e → Q (step s e) → I (step s e))
    (hP : ∀ s e, I s → G (step s e) → P s e) {s : σ} {evs : List ε} (h0 : I s)
    (hend : Q (run step s evs)) :
    (∀ done rest, evs = done ++ rest → G (run step s done)) ↔ Along step P s evs := by
  have hback : ∀ (evs : List ε) (s : σ), Q (run step s evs) → Q s := by
    intro evs
    induction evs with
    | nil => exact fun _ h => h
    | cons e evs ih => exact fun s h => hQ s e (ih (step s e) h)
  induction evs generalizing s with
  | nil =>
    constructor
    · intro _
      trivial
    · intro _ done rest hl
      obtain ⟨rfl, -⟩ := append_eq_nil_iff.mp hl.symm
      exact hG s h0
  | cons e evs ih =>
    have hnext : Q (step s e) := hback evs _ hend
    constructor
    · intro h
      have he : P s e := hP s e h0 (h [e] evs rfl)
      refine ⟨he, (ih (hstep s e h0 he hnext) hend).mp fun done rest hl => ?_⟩
      exact h (e :: done) rest (by rw [hl]; rfl)
    · rintro ⟨he, hrest⟩ done rest hl
      cases done with
      | nil => exact hG s h0
      | cons d done =>
        obtain ⟨rfl, hl'⟩ := cons.inj hl
        exact (ih (hstep s e h0 he hnext) hend).mpr hrest done rest hl'

/-- Where a property of the state first appears along a run: from a state
without it to one with it, some event of the run brings it in. -/
theorem exists_first {R : σ → Prop} {s : σ} {evs : List ε}
    (h0 : ¬ R s) (h1 : R (run step s evs)) :
    ∃ done e rest, evs = done ++ e :: rest ∧
      ¬ R (run step s done) ∧ R (run step s (done ++ [e])) := by
  induction evs generalizing s with
  | nil => exact absurd h1 h0
  | cons e evs ih =>
    by_cases h : R (step s e)
    · exact ⟨[], e, evs, rfl, h0, h⟩
    · obtain ⟨done, e', rest, hl, hn, hy⟩ := ih h h1
      exact ⟨e :: done, e', rest, by rw [hl]; rfl, hn, hy⟩

end Runs

/-! ## Logs. -/

section Since

universe u

variable {α : Type u}

/-- `e` was logged, and `undo` was not logged since. -/
def Since (e undo : α) (log : List α) : Prop :=
  ∃ before after, log = before ++ e :: after ∧ undo ∉ after

theorem not_since_nil (e undo : α) : ¬ Since e undo [] := by
  rintro ⟨before, after, h, -⟩
  simp at h

theorem concat_eq_append_cons {l before after : List α} {x e : α} :
    l ++ [x] = before ++ e :: after ↔
      (l = before ∧ x = e ∧ after = []) ∨
      ∃ after', after = after' ++ [x] ∧ l = before ++ e :: after' := by
  constructor
  · intro h
    rcases eq_nil_or_concat after with rfl | ⟨after', y, rfl⟩
    · obtain ⟨hl, hx⟩ := append_inj' h rfl
      exact .inl ⟨hl, (cons.inj hx).1, rfl⟩
    · rw [concat_eq_append] at h ⊢
      have h' : l ++ [x] = (before ++ e :: after') ++ [y] := by
        rw [h, append_assoc, cons_append]
      obtain ⟨hl, hx⟩ := append_inj' h' rfl
      obtain ⟨rfl, -⟩ := cons.inj hx
      exact .inr ⟨after', rfl, hl⟩
  · rintro (⟨rfl, rfl, rfl⟩ | ⟨after', rfl, rfl⟩)
    · rfl
    · rw [append_assoc, cons_append]

/-- **One entry more**: it is `e` itself, or it leaves `e` standing unless it is `undo`. -/
theorem since_concat {e undo x : α} {log : List α} :
    Since e undo (log ++ [x]) ↔ x = e ∨ x ≠ undo ∧ Since e undo log := by
  constructor
  · rintro ⟨before, after, h, hundo⟩
    rcases concat_eq_append_cons.mp h with ⟨-, hx, -⟩ | ⟨after', rfl, hlog⟩
    · exact .inl hx
    · rw [mem_append, mem_singleton, not_or] at hundo
      exact .inr ⟨Ne.symm hundo.2, before, after', hlog, hundo.1⟩
  · rintro (rfl | ⟨hx, before, after, rfl, hundo⟩)
    · exact ⟨log, [], rfl, not_mem_nil⟩
    · refine ⟨before, after ++ [x], by simp, ?_⟩
      rw [mem_append, mem_singleton, not_or]
      exact ⟨hundo, Ne.symm hx⟩

theorem Since.mem {e undo : α} {log : List α} (h : Since e undo log) : e ∈ log := by
  obtain ⟨before, after, rfl, -⟩ := h
  exact mem_append_right _ mem_cons_self

end Since

end Fantom.Lib
