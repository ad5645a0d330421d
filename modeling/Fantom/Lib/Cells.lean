/-
  Fantom.Lib.Cells — Stores of independent cells, each free or taken.

  * `release_claim` — releasing the claimed cells restores the store.
-/
import Mathlib.Data.List.Basic
import Mathlib.Tactic.Common

namespace Fantom.Lib

universe u v w

/-- A store `σ` of cells with addresses `A` and contents `S`.  A read outside
the store fails, a write there does nothing. -/
structure CellStore (σ : Type u) (A : Type v) (S : Type w) where
  read : σ → A → Option S
  write : σ → A → S → σ
  read_write_self : ∀ s a v, (read s a).isSome → read (write s a v) a = some v
  read_write_ne : ∀ s a b v, a ≠ b → read (write s a v) b = read s b
  write_write : ∀ s a v w, write (write s a v) a w = write s a w
  write_comm : ∀ s a b v w, a ≠ b → write (write s a v) b w = write (write s b w) a v
  write_read : ∀ s a v, read s a = some v → write s a v = s
  write_outside : ∀ s a v, read s a = none → write s a v = s

namespace CellStore

variable {σ : Type u} {A : Type v} {S : Type w} [DecidableEq A] [DecidableEq S]
  (C : CellStore σ A S) {free taken : S}

/-- Write `taken` into every cell of the list, in order, as long as the next
one reads `free`. -/
def claim (free taken : S) : σ → List A → Option σ
  | s, [] => some s
  | s, a :: as => if C.read s a = some free then claim free taken (C.write s a taken) as else none

/-- Write `free` into every cell of the list. -/
def release (free : S) (s : σ) (as : List A) : σ := as.foldl (fun s a => C.write s a free) s

variable {s t : σ} {a : A} {as : List A}

omit [DecidableEq A] in
theorem claim_cons (h : C.claim free taken s (a :: as) = some t) :
    C.read s a = some free ∧ C.claim free taken (C.write s a taken) as = some t := by
  rw [claim] at h
  split at h
  next hf => exact ⟨hf, h⟩
  next => cases h

omit [DecidableEq A] in
theorem claim_concat (h : C.claim free taken s as = some t) (ha : C.read t a = some free) :
    C.claim free taken s (as ++ [a]) = some (C.write t a taken) := by
  induction as generalizing s with
  | nil =>
    cases h
    rw [List.nil_append, claim, if_pos ha]
    rfl
  | cons b as ih =>
    obtain ⟨hf, h⟩ := C.claim_cons h
    rw [List.cons_append, claim, if_pos hf]
    exact ih h

theorem read_of_claim (h : C.claim free taken s as = some t) (ha : a ∈ as) :
    C.read s a = some free := by
  induction as generalizing s with
  | nil => cases ha
  | cons b as ih =>
    obtain ⟨hf, h⟩ := C.claim_cons h
    by_cases hb : b = a
    · rw [← hb]
      exact hf
    · have hmem : a ∈ as := (List.mem_cons.mp ha).resolve_left (Ne.symm hb)
      rw [← C.read_write_ne s b a taken hb]
      exact ih h hmem

theorem not_mem_of_claim (hne : taken ≠ free) (h : C.claim free taken s (a :: as) = some t) :
    a ∉ as := by
  obtain ⟨hf, h⟩ := C.claim_cons h
  intro ha
  have hread := C.read_of_claim h ha
  rw [C.read_write_self s a taken (by rw [hf]; rfl)] at hread
  exact hne (Option.some.inj hread)

omit [DecidableEq A] in
theorem claim_write (ha : a ∉ as) (v : S) (h : C.claim free taken s as = some t) :
    C.claim free taken (C.write s a v) as = some (C.write t a v) := by
  induction as generalizing s with
  | nil =>
    cases h
    rfl
  | cons b as ih =>
    obtain ⟨hab, has⟩ := not_or.mp (fun hm => ha (List.mem_cons.mpr hm))
    obtain ⟨hf, h⟩ := C.claim_cons h
    rw [claim, C.read_write_ne s a b v hab, if_pos hf, C.write_comm s a b v taken hab]
    exact ih has h

theorem release_claim (hne : taken ≠ free) (h : C.claim free taken s as = some t) :
    C.release free t as = s := by
  induction as generalizing s t with
  | nil =>
    cases h
    rfl
  | cons a as ih =>
    have hnot := C.not_mem_of_claim hne h
    obtain ⟨hf, h⟩ := C.claim_cons h
    -- freeing `a` after the claim of the others is not having claimed it
    have hback : C.claim free taken s as = some (C.write t a free) := by
      have := C.claim_write hnot free h
      rwa [C.write_write, C.write_read s a free hf] at this
    show C.release free (C.write t a free) as = s
    exact ih hback

omit [DecidableEq A] in
theorem claim_invariant {P : σ → Prop} (hw : ∀ s a v, P s → P (C.write s a v))
    (h : C.claim free taken s as = some t) (hs : P s) : P t := by
  induction as generalizing s with
  | nil =>
    cases h
    exact hs
  | cons a as ih =>
    obtain ⟨_, h⟩ := C.claim_cons h
    exact ih h (hw s a taken hs)

omit [DecidableEq S] in
theorem isSome_read_write (s : σ) (a b : A) (v : S) :
    (C.read (C.write s a v) b).isSome = (C.read s b).isSome := by
  by_cases hab : a = b
  · subst hab
    cases hr : C.read s a with
    | some w =>
      rw [C.read_write_self s a v (by rw [hr]; rfl)]
      rfl
    | none => rw [C.write_outside s a v hr, hr]
  · rw [C.read_write_ne s a b v hab]

end CellStore

end Fantom.Lib
