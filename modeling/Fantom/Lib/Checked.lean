/-
  Fantom.Lib.Checked — Computations that end in a result or in a rejection: `Except ε α`.

  A C++ body of the form

      if (c) return DoS(n, error(...));
      ...
      return true;

  is a `do` block of `rejectIf` tests.  The lemmas here take such a block apart once and for all:

  * `rejectIf_eq_ok`, `bind_eq_ok` — what an accepting run says about each test, one conjunct a
    test,
  * `foldlM_rule` — the loop rule: an invariant over the processed prefix that every accepted
    iteration extends,
  * `foldlM_undo` — taking a loop back, last iteration first,
  * `foldlM_guarded` — a check more in every iteration.
-/
import Mathlib.Data.List.Basic
import Mathlib.Tactic.Common

namespace Fantom.Lib

open List

variable {ε α β σ : Type}

/-! ## §1. Tests and sequencing. -/

/-- Reject with `e` when the test `c` holds; go on otherwise. -/
def rejectIf (c : Bool) (e : ε) : Except ε Unit :=
  if c then .error e else .ok ()

variable {e : ε} {x : Except ε α} {a : α} {ε' : Type} {f : σ → α → Except ε σ} {l : List α}
    {s t : σ}

@[simp] theorem rejectIf_eq_ok {c : Bool} {r : Unit} :
    rejectIf c e = .ok r ↔ c = false := by
  cases c <;> simp [rejectIf]

@[simp] theorem rejectIf_false (e : ε) : rejectIf false e = .ok () := rfl

@[simp] theorem rejectIf_true (e : ε) : rejectIf true e = .error e := rfl

/-- A sequence accepts exactly when its first part does and the rest accepts
what the first part returned. -/
theorem bind_eq_ok {f : α → Except ε β} {b : β} :
    (x >>= f) = .ok b ↔ ∃ a, x = .ok a ∧ f a = .ok b := by
  cases x with
  | error e => exact ⟨nofun, nofun⟩
  | ok a => exact ⟨fun h => ⟨a, rfl, h⟩, fun ⟨_, ha, hb⟩ => by cases ha; exact hb⟩

theorem ok_bind (a : α) (f : α → Except ε β) : (Except.ok a >>= f) = f a := rfl

@[simp] theorem pure_eq_ok {b : α} :
    (pure a : Except ε α) = .ok b ↔ a = b := by
  show Except.ok a = Except.ok b ↔ _
  simp

/-- The value of an option, or the failure `e`. -/
def required (x : Option α) (e : ε) : Except ε α :=
  match x with
  | some a => .ok a
  | none => .error e

@[simp] theorem required_eq_ok {x : Option α} :
    required x e = .ok a ↔ x = some a := by
  cases x <;> simp [required]

@[simp] theorem mapError_eq_ok {f : ε → ε'} :
    x.mapError f = .ok a ↔ x = .ok a := by
  cases x <;> simp [Except.mapError]

theorem map_eq_ok {f : α → β} {b : β} :
    x.map f = .ok b ↔ ∃ a, x = .ok a ∧ f a = b := by
  cases x <;> simp [Except.map]

/-! ## §2. The verdict. -/

def accepts (x : Except ε α) : Bool :=
  match x with
  | .ok _ => true
  | .error _ => false

@[simp] theorem accepts_ok (a : α) : accepts (.ok a : Except ε α) = true := rfl

theorem accepts_iff : accepts x = true ↔ ∃ a, x = .ok a := by
  cases x <;> simp [accepts]

theorem toOption_any_iff {p : α → Bool} :
    x.toOption.any p = true ↔ ∃ a, x = .ok a ∧ p a = true := by
  cases x with
  | error e => simp [Except.toOption]
  | ok a => simp [Except.toOption]

theorem toOption_join_eq_some {x : Except ε (Option α)} :
    x.toOption.join = some a ↔ x = .ok (some a) := by
  cases x with
  | error e => simp [Except.toOption]
  | ok a => simp [Except.toOption]

/-! ## §3. Loops. -/

/-- **The loop rule.**  If the invariant holds of the empty prefix and every
accepted iteration extends it by one element, it holds of the whole list when
the loop accepts. -/
theorem foldlM_rule (I : List α → σ → Prop)
    (h0 : I [] s) (hstep : ∀ done a rest s s', l = done ++ a :: rest →
    I done s → f s a = .ok s' → I (done ++ [a]) s') (h : l.foldlM f s = .ok t) : I l t := by
  -- induction on the elements still to come, with the processed ones in `done`
  suffices key : ∀ (rest done : List α) (s : σ), l = done ++ rest → I done s →
      rest.foldlM f s = .ok t → I l t from key l [] s rfl h0 h
  intro rest
  induction rest with
  | nil =>
    intro done s hl hI h
    cases h
    rw [hl, append_nil]
    exact hI
  | cons a rest ih =>
    intro done s hl hI h
    rw [foldlM_cons] at h
    obtain ⟨s', hs', h⟩ := bind_eq_ok.mp h
    exact ih (done ++ [a]) s' (by simp [hl])
      (hstep done a rest s s' hl hI hs') h

theorem foldlM_invariant (I : σ → Prop) (h0 : I s)
    (hstep : ∀ a ∈ l, ∀ s s', I s → f s a = .ok s' → I s') (h : l.foldlM f s = .ok t) : I t :=
  foldlM_rule (fun _ s => I s) h0
    (fun done a rest s s' hl hI hs => hstep a (by simp [hl]) s s' hI hs) h

/-- **Undoing a loop.**  If every accepted iteration can be taken back from any
state related to its result, the whole loop can, last iteration first. -/
theorem foldlM_undo {τ : Type} {g : τ → α → Except ε' τ} {R : σ → τ → Prop} (I : List α → σ → Prop)
    {s' : σ} {t' : τ} (h0 : I [] s) (hstep : ∀ done a rest s s', l = done ++ a :: rest → I done s →
    f s a = .ok s' → I (done ++ [a]) s' ∧ ∀ t', R s' t' → ∃ t, g t' a = .ok t ∧ R s t)
    (h : l.foldlM f s = .ok s') (hR : R s' t') :
    ∃ t, l.reverse.foldlM g t' = .ok t ∧ R s t := by
  suffices key : ∀ (rest done : List α) (s : σ), l = done ++ rest → I done s →
      rest.foldlM f s = .ok s' → ∃ t, rest.reverse.foldlM g t' = .ok t ∧ R s t from
    key l [] s rfl h0 h
  intro rest
  induction rest with
  | nil =>
    intro done s _ _ h
    cases h
    exact ⟨t', rfl, hR⟩
  | cons a rest ih =>
    intro done s hl hI h
    rw [foldlM_cons] at h
    obtain ⟨s₁, hs₁, h⟩ := bind_eq_ok.mp h
    obtain ⟨hI₁, hundo⟩ := hstep done a rest s s₁ hl hI hs₁
    obtain ⟨t₁, ht₁, hR₁⟩ := ih (done ++ [a]) s₁ (by simp [hl]) hI₁ h
    obtain ⟨t, ht, hR₀⟩ := hundo t₁ hR₁
    refine ⟨t, ?_, hR₀⟩
    rw [reverse_cons, foldlM_append]
    refine bind_eq_ok.mpr ⟨t₁, ht₁, ?_⟩
    rw [foldlM_cons]
    exact bind_eq_ok.mpr ⟨t, ht, rfl⟩

theorem foldlM_mono {g : σ → α → Except ε σ} (hfg : ∀ s a s', f s a = .ok s' → g s a = .ok s')
    (h : l.foldlM f s = .ok t) : l.foldlM g s = .ok t := by
  induction l generalizing s with
  | nil => exact h
  | cons a l ih =>
    rw [foldlM_cons] at h ⊢
    obtain ⟨s', hs', h⟩ := bind_eq_ok.mp h
    exact bind_eq_ok.mpr ⟨s', hfg s a s' hs', ih h⟩

/-- **A loop with a further check** in every iteration accepts exactly when the
loop without it does and every check passes. -/
theorem foldlM_guarded {g : σ → α → Except ε σ} (I : List α → σ → Prop) (c : List α → α → Prop)
    (h0 : I [] s) (hstep : ∀ done a rest s s', l = done ++ a :: rest → I done s → g s a = .ok s' → I
    (done ++ [a]) s') (hf : ∀ done a rest s s', l = done ++ a :: rest → I done s → (f s a = .ok s' ↔
    g s a = .ok s' ∧ c done a)) :
    l.foldlM f s = .ok t ↔
      l.foldlM g s = .ok t ∧ ∀ done a rest, l = done ++ a :: rest → c done a := by
  suffices key : ∀ (rest done : List α) (s : σ), l = done ++ rest → I done s →
      (rest.foldlM f s = .ok t ↔ rest.foldlM g s = .ok t ∧
        ∀ mid a rest', rest = mid ++ a :: rest' → c (done ++ mid) a) by
    have := key l [] s rfl h0
    simpa using this
  intro rest
  induction rest with
  | nil =>
    intro done s _ _
    simp
  | cons a rest ih =>
    intro done s hl hI
    rw [foldlM_cons, foldlM_cons, bind_eq_ok, bind_eq_ok]
    constructor
    · rintro ⟨s', hs', h⟩
      obtain ⟨hg, hc⟩ := (hf done a rest s s' hl hI).mp hs'
      have hI' := hstep done a rest s s' hl hI hg
      obtain ⟨hrest, hchecks⟩ := (ih (done ++ [a]) s' (by simp [hl]) hI').mp h
      refine ⟨⟨s', hg, hrest⟩, ?_⟩
      intro mid a' rest' heq
      cases mid with
      | nil =>
        obtain ⟨rfl, rfl⟩ := cons.inj heq
        rwa [append_nil]
      | cons m mid =>
        obtain ⟨rfl, rfl⟩ := cons.inj heq
        have := hchecks mid a' rest' rfl
        rwa [append_assoc, singleton_append] at this
    · rintro ⟨⟨s', hg, hrest⟩, hchecks⟩
      have hI' := hstep done a rest s s' hl hI hg
      have hc := hchecks [] a rest rfl
      rw [append_nil] at hc
      refine ⟨s', (hf done a rest s s' hl hI).mpr ⟨hg, hc⟩, ?_⟩
      refine (ih (done ++ [a]) s' (by simp [hl]) hI').mpr ⟨hrest, ?_⟩
      intro mid a' rest' heq
      have := hchecks (a :: mid) a' rest' (by rw [heq]; rfl)
      rwa [append_assoc, singleton_append]

theorem forM_eq_ok {f : α → Except ε Unit} {r : Unit} :
    l.forM f = .ok r ↔ ∀ a ∈ l, f a = .ok () := by
  induction l with
  | nil => simp
  | cons a l ih =>
    show (f a >>= fun _ => l.forM f) = .ok r ↔ _
    rw [bind_eq_ok]
    simp only [mem_cons, forall_eq_or_imp, ih]
    exact ⟨fun ⟨_, h1, h2⟩ => ⟨h1, h2⟩, fun ⟨h1, h2⟩ => ⟨_, h1, h2⟩⟩

/-! ## §4. Failures. -/

/-- Every failure of the computation satisfies `P`. -/
def FailsWith (P : ε → Prop) (x : Except ε α) : Prop := ∀ e, x = .error e → P e

variable {P : ε → Prop}

theorem failsWith_ok (a : α) : FailsWith P (.ok a) := nofun

theorem failsWith_rejectIf {c : Bool} (h : P e) : FailsWith P (rejectIf c e) := by
  intro e' he
  unfold rejectIf at he
  split at he
  · cases he
    exact h
  · cases he

theorem failsWith_required {x : Option α} (h : P e) : FailsWith P (required x e) := by
  intro e' he
  cases x with
  | none =>
    cases he
    exact h
  | some a => cases he

theorem failsWith_mapError {f : ε' → ε} {x : Except ε' α} (h : ∀ e, P (f e)) :
    FailsWith P (x.mapError f) := by
  intro e he
  cases x with
  | error e' =>
    cases he
    exact h e'
  | ok a => cases he

theorem failsWith_bind_of_ok {f : α → Except ε β} (hx : FailsWith P x)
    (hf : ∀ a, x = .ok a → FailsWith P (f a)) : FailsWith P (x >>= f) := by
  intro e he
  cases x with
  | error e' =>
    cases he
    exact hx e rfl
  | ok a => exact hf a rfl e he

theorem failsWith_bind {f : α → Except ε β} (hx : FailsWith P x) (hf : ∀ a, FailsWith P (f a)) :
    FailsWith P (x >>= f) :=
  failsWith_bind_of_ok hx fun a _ => hf a

theorem failsWith_ite {p : Prop} [Decidable p] {y : Except ε α} (hx : FailsWith P x)
    (hy : FailsWith P y) : FailsWith P (if p then x else y) := by
  split
  · exact hx
  · exact hy

theorem failsWith_forM_of_mem {f : α → Except ε Unit} (h : ∀ a ∈ l, FailsWith P (f a)) : FailsWith P
    (l.forM f) := by
  induction l with
  | nil => exact failsWith_ok ()
  | cons a l ih =>
    exact failsWith_bind (h a mem_cons_self) fun _ =>
      ih fun b hb => h b (mem_cons_of_mem a hb)

theorem failsWith_forM {f : α → Except ε Unit} (h : ∀ a, FailsWith P (f a)) :
    FailsWith P (l.forM f) :=
  failsWith_forM_of_mem fun a _ => h a

theorem failsWith_foldlM (I : σ → Prop) (h0 : I s)
    (hstep : ∀ a ∈ l, ∀ s, I s → FailsWith P (f s a) ∧ ∀ s', f s a = .ok s' → I s') :
    FailsWith P (l.foldlM f s) := by
  induction l generalizing s with
  | nil => exact failsWith_ok s
  | cons a l ih =>
    rw [foldlM_cons]
    obtain ⟨hfails, hnext⟩ := hstep a mem_cons_self s h0
    refine failsWith_bind_of_ok hfails fun s' hs' => ih (hnext s' hs') fun b hb => ?_
    exact hstep b (mem_cons_of_mem a hb)

end Fantom.Lib
