/-
  Fantom.Lib.Scan — Matching a list against another in order: every element of the second is to fit
  one of the first, and the first is read once.

  * `scan_eq_of_owners` — elements that fit their owner and no other,
  * `scan_of_owners` — elements that fit their owner, and may fit others.

  Who reads greedily is never behind: an element that fits early leaves fewer to match.
-/
import Mathlib.Tactic.Common
import Mathlib.Data.List.Forall2

namespace Fantom.Lib

open List

variable {κ σ : Type} (wf : κ → Bool) (fits : κ → σ → Bool)

variable (fOk : Bool)

/-- What is left to match of `s :: ss`, when `s` fitted or did not. -/
def leftOver (s : σ) (ss : List σ) : List σ := if fOk then ss else s :: ss

theorem leftOver_suffix (s : σ) (ss : List σ) : leftOver fOk s ss <:+ s :: ss := by
  cases fOk
  · exact suffix_refl _
  · exact suffix_cons s ss

/-- The elements `ss` against `ks`: whether all of them fit, in order, or `none` where
an ill-formed element of `ks` is read before that is known. -/
def scan : List κ → List σ → Option Bool
  | _, [] => some true
  | [], _ :: _ => some false
  | k :: ks, s :: ss =>
    if !wf k then none
    else if (leftOver (fits k s) s ss).length > ks.length then some false
    else scan ks (leftOver (fits k s) s ss)

variable {wf fits} {ks : List κ} {ss : List σ} {k : κ} {s : σ}

theorem scan_cons_eq_bind :
    scan wf fits (k :: ks) (s :: ss) =
      (if wf k then some (fits k s) else none).bind fun fOk =>
        if (leftOver fOk s ss).length > ks.length then some false
        else scan wf fits ks (leftOver fOk s ss) := by
  rw [scan]
  cases wf k <;> rfl

theorem scan_cons_eq_true :
    scan wf fits (k :: ks) (s :: ss) = some true ↔
      wf k = true ∧ (leftOver (fits k s) s ss).length ≤ ks.length ∧
        scan wf fits ks (leftOver (fits k s) s ss) = some true := by
  rw [scan]
  cases wf k with
  | false => simp
  | true =>
    by_cases hlen : (leftOver (fits k s) s ss).length > ks.length
    · simp [hlen, Nat.not_le.mpr hlen]
    · simp [hlen, Nat.le_of_not_lt hlen]

theorem exists_owner {α : Type} {R : α → σ → Prop} {qs : List α} (h : List.Forall₂ R qs ss)
    (hs : s ∈ ss) : ∃ q ∈ qs, R q s := by
  induction h with
  | nil => cases hs
  | @cons q s' qs ss hq _ ih =>
    rcases mem_cons.mp hs with rfl | hs
    · exact ⟨q, mem_cons_self, hq⟩
    · obtain ⟨q', hq', hR⟩ := ih hs
      exact ⟨q', mem_cons_of_mem q hq', hR⟩

theorem forall₂_and_mem {α : Type} {R : α → σ → Prop} {qs : List α} (h : List.Forall₂ R qs ss) :
    List.Forall₂ (fun q s => R q s ∧ q ∈ qs ∧ s ∈ ss) qs ss := by
  induction h with
  | nil => exact .nil
  | @cons q s qs ss hq _ ih =>
    refine .cons ⟨hq, mem_cons_self, mem_cons_self⟩ (ih.imp ?_)
    rintro q' s' ⟨hR, hmemq, hmems⟩
    exact ⟨hR, mem_cons_of_mem q hmemq, mem_cons_of_mem s hmems⟩

variable [DecidableEq κ]

theorem forall₂_leftOver {α : Type} {R : α → σ → Prop} {q : α} {qs : List α} (hq : R q s)
    (hqs : List.Forall₂ R qs ss) : List.Forall₂ R (leftOver fOk q qs) (leftOver fOk s ss) := by
  cases fOk
  · exact .cons hq hqs
  · exact hqs

/-- **Elements that fit their owner alone** are matched like their owners. -/
theorem scan_eq_of_owners {owners : List κ}
    (hfits : List.Forall₂ (fun q s => ∀ k ∈ ks, fits k s = decide (k = q)) owners ss) :
    scan wf fits ks ss = scan wf (fun k q => decide (k = q)) ks owners := by
  induction ks generalizing owners ss with
  | nil => cases hfits <;> rfl
  | cons k ks ih =>
    cases hfits with
    | nil => rfl
    | @cons q s owners ss hq hrest =>
      have hleft := forall₂_leftOver (decide (k = q)) hq hrest
      rw [scan, scan, hq k mem_cons_self, ← hleft.length_eq, ih]
      exact hleft.imp fun _ _ h k' hk' => h k' (mem_cons_of_mem k hk')

/-- **Elements that fit their owner**: when the owners are matched, so are the elements,
and so is what is left of them after some matched early. -/
theorem scan_of_owners {owners : List κ} {ss' : List σ}
    (hfits : List.Forall₂ (fun q s => fits q s = true) owners ss) (hsuffix : ss' <:+ ss)
    (h : scan wf (fun k q => decide (k = q)) ks owners = some true) :
    scan wf fits ks ss' = some true := by
  induction ks generalizing owners ss ss' with
  | nil =>
    cases hfits with
    | nil =>
      obtain rfl := suffix_nil.mp hsuffix
      rfl
    | cons _ _ => cases h
  | cons k ks ih =>
    cases ss' with
    | nil => rfl
    | cons s' rest =>
      cases hfits with
      | nil => cases suffix_nil.mp hsuffix
      | @cons q s owners ss hq hrest =>
        obtain ⟨hwf, hlen, hnext⟩ := scan_cons_eq_true.mp h
        have hleft := forall₂_leftOver (R := fun q s => fits q s = true)
          (decide (k = q)) hq hrest
        have hread := leftOver_suffix (fits k s') s' rest
        -- the scan of the owners has at least as much left to match
        have hbehind : leftOver (fits k s') s' rest <:+ leftOver (decide (k = q)) s ss := by
          by_cases hkq : k = q
          · rw [decide_eq_true hkq]
            rcases suffix_cons_iff.mp hsuffix with hall | hfewer
            · obtain ⟨rfl, rfl⟩ := cons.inj hall
              have hsame : leftOver (fits k s') s' rest = leftOver true s' rest := by
                rw [hkq, hq]
              exact hsame ▸ suffix_refl _
            · exact hread.trans hfewer
          · rw [decide_eq_false hkq]
            exact hread.trans hsuffix
        refine scan_cons_eq_true.mpr ⟨hwf, ?_, ih hleft hbehind hnext⟩
        calc (leftOver (fits k s') s' rest).length
            ≤ (leftOver (decide (k = q)) s ss).length := hbehind.length_le
          _ = (leftOver (decide (k = q)) q owners).length := hleft.length_eq.symm
          _ ≤ ks.length := hlen

end Fantom.Lib
