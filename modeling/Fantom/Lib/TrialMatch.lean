/-
  Fantom.Lib.TrialMatch — Tokens are matched to locks by trying them: a token goes to the first lock
  that has none yet and that it opens.

  * `placeAll_sound` — a lock has a token that opens it,
  * `contains_placeAll_iff` — when a token opens one lock at most, every lock that some token opens
    has one,
  * `tokens`, `forall₂_tokens` — the tokens in the order of the locks.
-/
import Fantom.Lib.StdMap
import Mathlib.Data.List.Forall2

namespace Fantom.Lib.TrialMatch

open List StdMap

variable {T K : Type} [Ord K] [Std.TransOrd K] (opens : T → K → Bool)

/-! ## §1. The trials. -/

def place (t : T) : List K → StdMap K T → StdMap K T
  | [], m => m
  | k :: ks, m =>
    if m.contains k then place t ks m
    else if opens t k then m.insert k t
    else place t ks m

def placeAll (ks : List K) : List T → StdMap K T → StdMap K T
  | [], m => m
  | t :: ts, m => placeAll ks ts (place opens t ks m)

variable [Std.LawfulEqOrd K] [DecidableEq K]
variable {opens} {t : T} {ts : List T} {k : K} {ks : List K} {m : StdMap K T}

omit [Std.LawfulEqOrd K] [DecidableEq K] in
theorem place_cases (t : T) (ks : List K) (m : StdMap K T) :
    place opens t ks m = m ∨
      ∃ k ∈ ks, m.contains k = false ∧ opens t k = true ∧ place opens t ks m = m.insert k t := by
  induction ks with
  | nil => exact .inl rfl
  | cons k ks ih =>
    rw [place]
    split
    next =>
      rcases ih with h | ⟨k', hk', h⟩
      · exact .inl h
      · exact .inr ⟨k', mem_cons_of_mem k hk', h⟩
    next hfree =>
      split
      next hopens =>
        exact .inr ⟨k, mem_cons_self, Bool.eq_false_iff.mpr hfree, hopens, rfl⟩
      next =>
        rcases ih with h | ⟨k', hk', h⟩
        · exact .inl h
        · exact .inr ⟨k', mem_cons_of_mem k hk', h⟩

theorem contains_place (h : m.contains k = true) : (place opens t ks m).contains k = true := by
  rcases place_cases t ks m with heq | ⟨k', _, _, _, heq⟩
  · rw [heq]
    exact h
  · rw [heq, contains_eq, get_insert]
    split
    · rfl
    · rwa [contains_eq] at h

theorem place_fills (hk : k ∈ ks) (hopens : opens t k = true)
    (hone : ∀ k' ∈ ks, opens t k' = true → k' = k) : (place opens t ks m).contains k = true := by
  by_cases hhas : m.contains k = true
  · exact contains_place hhas
  induction ks with
  | nil => cases hk
  | cons k' ks ih =>
    rw [place]
    by_cases heq : k' = k
    · subst heq
      rw [if_neg hhas, if_pos hopens, contains_eq, get_insert_self]
      rfl
    · have hother : ¬opens t k' = true := fun h => heq (hone k' mem_cons_self h)
      have hrest := ih ((mem_cons.mp hk).resolve_left (Ne.symm heq))
        fun k'' hk'' => hone k'' (mem_cons_of_mem k' hk'')
      rw [if_neg hother, ite_self]
      exact hrest

/-! ## §2. All tokens. -/

theorem contains_placeAll (h : m.contains k = true) :
    (placeAll opens ks ts m).contains k = true := by
  induction ts generalizing m with
  | nil => exact h
  | cons t ts ih => exact ih (contains_place h)

/-- **A lock has a token that opens it**, of those that were tried. -/
theorem placeAll_sound (h : (placeAll opens ks ts m)[k]? = some t) :
    m[k]? = some t ∨ (k ∈ ks ∧ t ∈ ts ∧ opens t k = true) := by
  induction ts generalizing m with
  | nil => exact .inl h
  | cons u ts ih =>
    rcases ih h with hold | ⟨hk, ht, hopens⟩
    swap
    · exact .inr ⟨hk, mem_cons_of_mem u ht, hopens⟩
    rcases place_cases u ks m with heq | ⟨k', hk', _, hopens, heq⟩
    · rw [heq] at hold
      exact .inl hold
    · rw [heq, get_insert] at hold
      split at hold
      next hkk =>
        cases hold
        subst hkk
        exact .inr ⟨hk', mem_cons_self, hopens⟩
      next => exact .inl hold

theorem placeAll_fills (hk : k ∈ ks) (ht : t ∈ ts) (hopens : opens t k = true)
    (hone : ∀ k' ∈ ks, opens t k' = true → k' = k) :
    (placeAll opens ks ts m).contains k = true := by
  induction ts generalizing m with
  | nil => cases ht
  | cons u ts ih =>
    rcases mem_cons.mp ht with rfl | ht
    · rw [placeAll]
      exact contains_placeAll (place_fills hk hopens hone)
    · exact ih ht

/-- **Every lock that can be opened has a token**, when a token opens one lock at most. -/
theorem contains_placeAll_iff
    (hone : ∀ t ∈ ts, ∀ k ∈ ks, ∀ k' ∈ ks, opens t k = true → opens t k' = true → k' = k) :
    (placeAll opens ks ts ∅).contains k = true ↔ k ∈ ks ∧ ∃ t ∈ ts, opens t k = true := by
  constructor
  · intro h
    obtain ⟨t, ht⟩ := contains_iff.mp h
    rcases placeAll_sound ht with hempty | ⟨hk, hmem, hopens⟩
    · rw [get_empty] at hempty
      cases hempty
    · exact ⟨hk, t, hmem, hopens⟩
  · rintro ⟨hk, t, ht, hopens⟩
    exact placeAll_fills hk ht hopens fun k' hk' => hone t ht k hk k' hk' hopens

/-! ## §3. The tokens of the locks. -/

/-- The tokens of the locks that have one, in the order of the locks. -/
def tokens (m : StdMap K T) (ks : List K) : List T := ks.filterMap fun k => m[k]?

omit [Std.LawfulEqOrd K] [DecidableEq K] in
theorem tokens_cons_some (h : m[k]? = some t) : tokens m (k :: ks) = t :: tokens m ks :=
  filterMap_cons_some h

omit [Std.LawfulEqOrd K] [DecidableEq K] in
theorem tokens_cons_none (h : m[k]? = none) : tokens m (k :: ks) = tokens m ks :=
  filterMap_cons_none h

omit [Std.LawfulEqOrd K] [DecidableEq K] in
theorem forall₂_tokens (m : StdMap K T) (ks : List K) :
    List.Forall₂ (fun k t => m[k]? = some t) (ks.filter m.contains) (tokens m ks) := by
  induction ks with
  | nil => exact .nil
  | cons k ks ih =>
    cases hk : m[k]? with
    | none =>
      rw [tokens_cons_none hk,
        filter_cons_of_neg (by rw [contains_eq, hk]; exact Bool.false_ne_true)]
      exact ih
    | some t =>
      rw [tokens_cons_some hk,
        filter_cons_of_pos (by rw [contains_eq, hk]; rfl)]
      exact .cons hk ih

end Fantom.Lib.TrialMatch
