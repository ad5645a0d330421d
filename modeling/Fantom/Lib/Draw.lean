/-
  Fantom.Lib.Draw — Drawing from candidates in rounds.

  * `scan_eq_some`, `scan_drawn` — the scan draws as long as something is left,
  * `Draws.nodup`, `Draws.round` — nothing is drawn twice, and every round is as it should be.

  Candidates of one time, and rounds without a candidate up to their stop, are allowed.
-/
import Mathlib.Order.Lattice
import Mathlib.Data.List.Nodup
import Mathlib.Data.List.Perm.Subperm
import Mathlib.Tactic.Common

namespace Fantom.Lib

open List

universe u v w

namespace Draw

variable {α : Type u} {τ : Type v} {κ : Type w} [LinearOrder τ] [LinearOrder κ]
variable (time : α → τ) (key : α → κ)

/-! ## §1. One round. -/

/-- The scan of one round, with what it has drawn so far.  It goes on behind the stop until it has
drawn something. -/
def scan (taken : α → Bool) (stop : τ) : Option α → List α → Option α
  | best, [] => best
  | none, a :: l => if taken a then scan taken stop none l else scan taken stop (some a) l
  | some b, a :: l =>
    if stop < time a then some b
    else if taken a then scan taken stop (some b) l
    else if key a < key b then scan taken stop (some a) l
    else scan taken stop (some b) l

/-- `p` is what a round draws from `l` after `picked`, when `before` is the order of `l`. -/
structure Drawn (before : α → α → Prop) (stop : τ) (l picked : List α) (p : α) : Prop where
  mem : p ∈ l
  fresh : p ∉ picked
  least : ∀ c ∈ l, c ∉ picked → time c ≤ stop → time p ≤ stop ∧ key p ≤ key c
  first : (∀ c ∈ l, c ∉ picked → stop < time c) → ∀ c ∈ l, c ∉ picked → p = c ∨ before p c

variable {time key} {taken : α → Bool} {stop : τ} {before : α → α → Prop} {l picked : List α}

variable (key taken stop) in
/-- **A scan that has drawn something** ends with it, or with something better up to the stop. -/
theorem scan_eq_some (hsorted : l.Pairwise fun a b => time a ≤ time b) (b : α) :
    ∃ p, scan time key taken stop (some b) l = some p ∧
      (p = b ∨ p ∈ l ∧ taken p = false ∧ time p ≤ stop) ∧ key p ≤ key b ∧
      ∀ c ∈ l, taken c = false → time c ≤ stop → key p ≤ key c := by
  induction l generalizing b with
  | nil => exact ⟨b, rfl, .inl rfl, le_refl _, fun c hc => nomatch hc⟩
  | cons a l ih =>
    have hlater : ∀ c ∈ l, time a ≤ time c := fun c hc => rel_of_pairwise_cons hsorted hc
    have hrest := ih hsorted.of_cons
    rw [scan]
    by_cases hstop : stop < time a
    · -- nothing behind `a` is up to the stop either
      rw [if_pos hstop]
      refine ⟨b, rfl, .inl rfl, le_refl _, ?_⟩
      intro c hc _ hcstop
      have hle : time a ≤ time c := by
        cases mem_cons.mp hc with
        | inl heq => exact le_of_eq (congrArg time heq.symm)
        | inr hcl => exact hlater c hcl
      exact absurd (lt_of_lt_of_le hstop hle) (not_lt.mpr hcstop)
    · rw [if_neg hstop]
      -- whatever the scan goes on with, `b` or `a`, is no worse than both
      have hgo : ∀ d, (d = b ∨ d = a ∧ taken a = false) → key d ≤ key b →
          (taken a = false → key d ≤ key a) →
          ∃ p, scan time key taken stop (some d) l = some p ∧
            (p = b ∨ p ∈ a :: l ∧ taken p = false ∧ time p ≤ stop) ∧ key p ≤ key b ∧
            ∀ c ∈ a :: l, taken c = false → time c ≤ stop → key p ≤ key c := by
        intro d hd hdb hda
        obtain ⟨p, hp, hfrom, hpd, hleast⟩ := hrest d
        refine ⟨p, hp, ?_, le_trans hpd hdb, ?_⟩
        · cases hfrom with
          | inl hpd =>
            subst hpd
            cases hd with
            | inl hb => exact .inl hb
            | inr ha =>
              obtain ⟨rfl, hfresh⟩ := ha
              exact .inr ⟨mem_cons_self, hfresh, not_lt.mp hstop⟩
          | inr hpl => exact .inr ⟨mem_cons_of_mem a hpl.1, hpl.2⟩
        · intro c hc hcfresh hcstop
          cases mem_cons.mp hc with
          | inl heq =>
            subst heq
            exact le_trans hpd (hda hcfresh)
          | inr hcl => exact hleast c hcl hcfresh hcstop
      by_cases htaken : taken a = true
      · rw [if_pos htaken]
        refine hgo b (.inl rfl) (le_refl _) ?_
        intro hfresh
        rw [htaken] at hfresh
        exact nomatch hfresh
      · rw [if_neg htaken]
        have hfresh : taken a = false := Bool.eq_false_iff.mpr htaken
        by_cases hlt : key a < key b
        · rw [if_pos hlt]
          exact hgo a (.inr ⟨rfl, hfresh⟩) (le_of_lt hlt) (fun _ => le_refl _)
        · rw [if_neg hlt]
          exact hgo b (.inl rfl) (le_refl _) (fun _ => not_lt.mp hlt)

variable (key stop) in
/-- **What a scan draws**, as long as something is left. -/
theorem scan_drawn (hbefore : ∀ a b, before a b → time a ≤ time b) (hsorted : l.Pairwise before)
    (htaken : ∀ c ∈ l, taken c = true ↔ c ∈ picked) (hleft : ∃ c ∈ l, c ∉ picked) :
    ∃ p, scan time key taken stop none l = some p ∧ Drawn time key before stop l picked p := by
  have hfresh : ∀ c ∈ l, taken c = false ↔ c ∉ picked := by
    intro c hc
    rw [← Bool.not_eq_true, htaken c hc]
  induction l with
  | nil =>
    obtain ⟨c, hc, _⟩ := hleft
    exact nomatch hc
  | cons a l ih =>
    rw [scan]
    by_cases hta : taken a = true
    · rw [if_pos hta]
      have hapicked : a ∈ picked := (htaken a mem_cons_self).mp hta
      -- `a` is out of the question
      have hskip : ∀ {P : α → Prop}, (∀ c ∈ l, c ∉ picked → P c) →
          ∀ c ∈ a :: l, c ∉ picked → P c := by
        intro P hl c hc hcfresh
        cases mem_cons.mp hc with
        | inl heq => exact absurd (heq ▸ hapicked) hcfresh
        | inr hcl => exact hl c hcl hcfresh
      have hleft' : ∃ c ∈ l, c ∉ picked := by
        obtain ⟨c, hc, hcfresh⟩ := hleft
        cases mem_cons.mp hc with
        | inl heq => exact absurd (heq ▸ hapicked) hcfresh
        | inr hcl => exact ⟨c, hcl, hcfresh⟩
      obtain ⟨p, hp, hdrawn⟩ := ih hsorted.of_cons
        (fun c hc => htaken c (mem_cons_of_mem a hc)) hleft'
        (fun c hc => hfresh c (mem_cons_of_mem a hc))
      refine ⟨p, hp, mem_cons_of_mem a hdrawn.mem, hdrawn.fresh, hskip hdrawn.least, ?_⟩
      intro hnone
      exact hskip (hdrawn.first fun c hc => hnone c (mem_cons_of_mem a hc))
    · rw [if_neg hta]
      have hafresh : a ∉ picked := fun h => hta ((htaken a mem_cons_self).mpr h)
      have hlater : ∀ c ∈ l, before a c := fun c hc => rel_of_pairwise_cons hsorted hc
      obtain ⟨p, hp, hfrom, hpa, hleast⟩ := scan_eq_some key taken stop
        (hsorted.of_cons.imp fun h => hbefore _ _ h) a
      refine ⟨p, hp, ?_⟩
      have hmem : p ∈ a :: l ∧ p ∉ picked := by
        cases hfrom with
        | inl heq => exact heq.symm ▸ ⟨mem_cons_self, hafresh⟩
        | inr hpl =>
          exact ⟨mem_cons_of_mem a hpl.1,
            (hfresh p (mem_cons_of_mem a hpl.1)).mp hpl.2.1⟩
      refine ⟨hmem.1, hmem.2, ?_, ?_⟩
      · intro c hc hcfresh hcstop
        -- `a` is the first of them, so it is up to the stop
        have hastop : time a ≤ stop := by
          cases mem_cons.mp hc with
          | inl heq => exact heq ▸ hcstop
          | inr hcl => exact le_trans (hbefore a c (hlater c hcl)) hcstop
        constructor
        · cases hfrom with
          | inl heq => exact heq ▸ hastop
          | inr hpl => exact hpl.2.2
        · cases mem_cons.mp hc with
          | inl heq => exact heq ▸ hpa
          | inr hcl =>
            exact hleast c hcl ((hfresh c (mem_cons_of_mem a hcl)).mpr hcfresh) hcstop
      · intro hnone c hc hcfresh
        have heq : p = a := by
          cases hfrom with
          | inl heq => exact heq
          | inr hpl =>
            exact absurd hpl.2.2 (not_le.mpr (hnone p hmem.1 hmem.2))
        rw [heq]
        cases mem_cons.mp hc with
        | inl hca => exact .inl hca.symm
        | inr hcl => exact .inr (hlater c hcl)

/-! ## §2. The rounds. -/

variable (time key before) in
/-- What rounds with these stops draw from `l`, one after another. -/
inductive Draws (stops : Nat → τ) (l : List α) : List α → Prop where
  | nil : Draws stops l []
  | snoc {picked : List α} {p : α} : Draws stops l picked →
      Drawn time key before (stops picked.length) l picked p → Draws stops l (picked ++ [p])

namespace Draws

variable {stops : Nat → τ}

theorem nodup (h : Draws time key before stops l picked) : picked.Nodup := by
  induction h with
  | nil => exact nodup_nil
  | snoc _ hp ih =>
    rw [← concat_eq_append]
    exact List.Nodup.concat hp.fresh ih

theorem subset (h : Draws time key before stops l picked) : picked ⊆ l := by
  induction h with
  | nil => exact nil_subset l
  | snoc _ hp ih =>
    intro c hc
    cases mem_append.mp hc with
    | inl hpicked => exact ih hpicked
    | inr hlast => exact mem_singleton.mp hlast ▸ hp.mem

/-- **Every round** draws from what the rounds before have left. -/
theorem round (h : Draws time key before stops l picked) {r : Nat} {p : α}
    (hr : picked[r]? = some p) : Drawn time key before (stops r) l (picked.take r) p := by
  induction h with
  | nil => exact nomatch hr
  | @snoc picked q _ hq ih =>
    by_cases hlt : r < picked.length
    · rw [List.getElem?_append_left hlt] at hr
      rw [take_append_of_le_length (by omega)]
      exact ih hr
    · have hlast : r = picked.length := by
        have hbound := (List.getElem?_eq_some_iff.mp hr).1
        rw [length_append, length_singleton] at hbound
        omega
      rw [hlast, List.getElem?_append_right (Nat.le_refl _), Nat.sub_self] at hr
      cases hr
      rw [hlast, take_left]
      exact hq

end Draws

theorem exists_fresh (hl : l.Nodup) (hlt : picked.length < l.length) :
    ∃ c ∈ l, c ∉ picked := by
  apply Classical.byContradiction
  intro hnone
  have hsub : l ⊆ picked := by
    intro c hc
    apply Classical.byContradiction
    intro hcfresh
    exact hnone ⟨c, hc, hcfresh⟩
  have hle : l.length ≤ picked.length := (hl.subperm hsub).length_le
  omega

end Draw

end Fantom.Lib
