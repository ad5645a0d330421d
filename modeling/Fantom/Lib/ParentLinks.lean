/-
  Fantom.Lib.ParentLinks — Trees given by parent links, with forward links kept along one line.

  * `Linked.pop`, `Linked.push` — one link is taken away or added at the end of the line,
  * `Ascends a l b` — the list leads from `a` to `b`, child by child; `Linked.link_all`,
    `Linked.unlink_all` follow it up and down, and `Ascends.parent_ne` says which links are
    untouched on the way,
  * `Linked.visits` — following the links from the root visits the line.
-/
import Mathlib.Data.List.Basic
import Mathlib.Logic.Function.Basic
import Mathlib.Tactic.Common

namespace Fantom.Lib

open List Function

universe u

/-- Parent links without cycles, and for each node its line: the node, its
parent, and so on up to a root. -/
structure ParentLinks (α : Type u) where
  parent : α → Option α
  rank : α → Nat
  line : α → List α
  rank_parent : ∀ a p, parent a = some p → rank a = rank p + 1
  line_root : ∀ a, parent a = none → line a = [a]
  line_child : ∀ a p, parent a = some p → line a = a :: line p

namespace ParentLinks

variable {α : Type u} (T : ParentLinks α)

/-! ## §1. Lines. -/

theorem induct {P : α → Prop} (root : ∀ a, T.parent a = none → P a)
    (child : ∀ a p, T.parent a = some p → P p → P a) (a : α) : P a := by
  suffices key : ∀ n a, T.rank a = n → P a from key _ a rfl
  intro n
  induction n using Nat.strongRecOn with
  | _ n ih =>
    intro a ha
    cases hp : T.parent a with
    | none => exact root a hp
    | some p =>
      have hrank := T.rank_parent a p hp
      exact child a p hp (ih (T.rank p) (by omega) p rfl)

theorem self_mem_line (a : α) : a ∈ T.line a := by
  cases hp : T.parent a with
  | none =>
    rw [T.line_root a hp]
    exact mem_cons_self
  | some p =>
    rw [T.line_child a p hp]
    exact mem_cons_self

variable {x a p b c : α} {l : List α}

theorem rank_le_of_mem (h : x ∈ T.line a) : T.rank x ≤ T.rank a := by
  induction a using T.induct with
  | root a hp =>
    rw [T.line_root a hp, mem_singleton] at h
    exact Nat.le_of_eq (congrArg T.rank h)
  | child a p hp ih =>
    rw [T.line_child a p hp] at h
    rcases mem_cons.mp h with rfl | h
    · exact Nat.le_refl _
    · have := T.rank_parent a p hp
      have := ih h
      omega

theorem line_trans {y : α} (hx : x ∈ T.line y) (hy : y ∈ T.line a) : x ∈ T.line a := by
  induction a using T.induct with
  | root a ha =>
    rw [T.line_root a ha, mem_singleton] at hy
    rwa [hy] at hx
  | child a p ha ih =>
    rw [T.line_child a p ha] at hy
    rcases mem_cons.mp hy with rfl | hy
    · exact hx
    · rw [T.line_child a p ha]
      exact mem_cons_of_mem _ (ih hy)

theorem parent_mem_line (h : x ∈ T.line a) (hp : T.parent x = some p) :
    p ∈ T.line a := by
  refine T.line_trans ?_ h
  rw [T.line_child x p hp]
  exact mem_cons_of_mem _ (T.self_mem_line p)

theorem eq_of_mem_line (h : x ∈ T.line a) (hrank : T.rank x = T.rank a) : x = a := by
  cases hp : T.parent a with
  | none =>
    rw [T.line_root a hp, mem_singleton] at h
    exact h
  | some p =>
    rw [T.line_child a p hp] at h
    rcases mem_cons.mp h with rfl | h
    · rfl
    · have := T.rank_le_of_mem h
      have := T.rank_parent a p hp
      omega

theorem exists_child_of_mem (h : x ∈ T.line a) (hne : x ≠ a) :
    ∃ y ∈ T.line a, T.parent y = some x := by
  induction a using T.induct with
  | root a hp =>
    rw [T.line_root a hp, mem_singleton] at h
    exact absurd h hne
  | child a p hp ih =>
    rw [T.line_child a p hp] at h ⊢
    rcases mem_cons.mp h with rfl | h
    · exact absurd rfl hne
    · by_cases hxp : x = p
      · rw [hxp]
        exact ⟨a, mem_cons_self, hp⟩
      · obtain ⟨y, hy, hpar⟩ := ih h hxp
        exact ⟨y, mem_cons_of_mem _ hy, hpar⟩

theorem root_of_mem (h : x ∈ T.line a) :
    (T.line x).getLast? = (T.line a).getLast? := by
  induction a using T.induct with
  | root a hp =>
    rw [T.line_root a hp, mem_singleton] at h
    rw [h]
  | child a p hp ih =>
    rw [T.line_child a p hp] at h
    rcases mem_cons.mp h with rfl | h
    · rfl
    · have hne : T.line p ≠ [] := ne_nil_of_mem (T.self_mem_line p)
      rw [ih h, T.line_child a p hp, getLast?_cons_of_ne_nil hne]

/-! ## §2. Forward links. -/

/-- `next` links every node on the line of `a` but `a` to the next one towards
`a`, and links no other node. -/
def Linked (next : α → Option α) (a : α) : Prop :=
  ∀ x y, next x = some y ↔ y ∈ T.line a ∧ T.parent y = some x

variable {T} {next : α → Option α}

theorem Linked.root (hp : T.parent a = none) : T.Linked (fun _ => none) a := by
  intro x y
  constructor
  · intro h
    cases h
  · intro h
    rw [T.line_root a hp, mem_singleton] at h
    rw [h.1, hp] at h
    cases h.2

theorem Linked.next_of_mem (h : T.Linked next a) (hx : x ∈ T.line a) (hne : x ≠ a) :
    ∃ y, next x = some y ∧ y ∈ T.line a ∧ T.parent y = some x := by
  obtain ⟨y, hy, hpar⟩ := T.exists_child_of_mem hx hne
  exact ⟨y, (h x y).mpr ⟨hy, hpar⟩, hy, hpar⟩

theorem Linked.end (h : T.Linked next a) : next a = none := by
  rw [Option.eq_none_iff_forall_ne_some]
  intro y hy
  obtain ⟨hmem, hpar⟩ := (h a y).mp hy
  have := T.rank_le_of_mem hmem
  have := T.rank_parent y a hpar
  omega

variable [DecidableEq α]

theorem Linked.pop (h : T.Linked next a) (hp : T.parent a = some p) :
    T.Linked (update next p none) p := by
  intro x y
  have hmem : y ∈ T.line a ↔ y = a ∨ y ∈ T.line p := by
    rw [T.line_child a p hp, mem_cons]
  by_cases hx : x = p
  · subst hx
    rw [update_self]
    constructor
    · intro hy
      cases hy
    · intro hy
      have := T.rank_le_of_mem hy.1
      have := T.rank_parent y x hy.2
      omega
  · rw [update_of_ne hx, h x y, hmem]
    constructor
    · intro hy
      refine ⟨hy.1.resolve_left ?_, hy.2⟩
      rintro rfl
      rw [hp] at hy
      exact hx (Option.some.inj hy.2).symm
    · intro hy
      exact ⟨.inr hy.1, hy.2⟩

theorem Linked.push (h : T.Linked next p) (hp : T.parent a = some p) :
    T.Linked (update next p (some a)) a := by
  intro x y
  have hmem : y ∈ T.line a ↔ y = a ∨ y ∈ T.line p := by
    rw [T.line_child a p hp, mem_cons]
  rw [hmem]
  by_cases hx : x = p
  · subst hx
    rw [update_self]
    constructor
    · intro hy
      cases hy
      exact ⟨.inl rfl, hp⟩
    · intro hy
      rcases hy.1 with rfl | hline
      · rfl
      · have := T.rank_le_of_mem hline
        have := T.rank_parent y x hy.2
        omega
  · rw [update_of_ne hx, h x y]
    constructor
    · intro hy
      exact ⟨.inr hy.1, hy.2⟩
    · intro hy
      refine ⟨hy.1.resolve_left ?_, hy.2⟩
      rintro rfl
      rw [hp] at hy
      exact hx (Option.some.inj hy.2).symm

/-- The link to a node is added, where it has a parent. -/
def link (T : ParentLinks α) (next : α → Option α) (a : α) : α → Option α :=
  match T.parent a with
  | none => next
  | some p => update next p (some a)

def unlink (T : ParentLinks α) (next : α → Option α) (a : α) : α → Option α :=
  match T.parent a with
  | none => next
  | some p => update next p none

theorem link_root (h : T.parent a = none) : T.link next a = next := by
  rw [link, h]

theorem link_child (h : T.parent a = some p) :
    T.link next a = update next p (some a) := by
  rw [link, h]

theorem unlink_root (h : T.parent a = none) : T.unlink next a = next := by
  rw [unlink, h]

theorem unlink_child (h : T.parent a = some p) :
    T.unlink next a = update next p none := by
  rw [unlink, h]

theorem link_of_ne (h : T.parent a ≠ some x) : T.link next a x = next x := by
  cases hp : T.parent a with
  | none => rw [link_root hp]
  | some p =>
    rw [link_child hp, update_of_ne]
    rintro rfl
    exact h hp

theorem unlink_of_ne (h : T.parent a ≠ some x) : T.unlink next a x = next x := by
  cases hp : T.parent a with
  | none => rw [unlink_root hp]
  | some p =>
    rw [unlink_child hp, update_of_ne]
    rintro rfl
    exact h hp

theorem foldl_link_of_ne (h : ∀ a ∈ l, T.parent a ≠ some x) :
    l.foldl T.link next x = next x := by
  induction l generalizing next with
  | nil => rfl
  | cons a l ih =>
    rw [foldl_cons, ih fun c hc => h c (mem_cons_of_mem _ hc)]
    exact link_of_ne (h a mem_cons_self)

theorem foldl_unlink_of_ne (h : ∀ a ∈ l, T.parent a ≠ some x) :
    l.foldl T.unlink next x = next x := by
  induction l generalizing next with
  | nil => rfl
  | cons a l ih =>
    rw [foldl_cons, ih fun c hc => h c (mem_cons_of_mem _ hc)]
    exact unlink_of_ne (h a mem_cons_self)

/-! ## §3. Ascents. -/

/-- The list leads from `a` to `b`: every element is a child of the one before. -/
inductive Ascends (T : ParentLinks α) : α → List α → α → Prop
  | refl (a : α) : Ascends T a [] a
  | cons {a c b : α} {l : List α} : T.parent c = some a → Ascends T c l b →
      Ascends T a (c :: l) b

omit [DecidableEq α] in
theorem Ascends.concat (h : T.Ascends a l b) (hc : T.parent c = some b) : T.Ascends a (l ++ [c])
    c := by
  induction h with
  | refl a => exact .cons hc (.refl c)
  | cons hpar _ ih => exact .cons hpar (ih hc)

omit [DecidableEq α] in
theorem Ascends.mem_line (h : T.Ascends a l b) : a ∈ T.line b := by
  induction h with
  | refl a => exact T.self_mem_line a
  | cons hpar _ ih => exact T.parent_mem_line ih hpar

omit [DecidableEq α] in
theorem Ascends.rank_eq (h : T.Ascends a l b) :
    T.rank b = T.rank a + l.length := by
  induction h with
  | refl a => rfl
  | @cons a c b l hpar _ ih =>
    have hrank := T.rank_parent c a hpar
    rw [length_cons]
    omega

omit [DecidableEq α] in
theorem Ascends.split {l' : List α} (h : T.Ascends a (l ++ c :: l') b) :
    ∃ p, T.Ascends a l p ∧ T.parent c = some p ∧ T.Ascends c l' b := by
  induction l generalizing a with
  | nil =>
    cases h with
    | cons hpar hrest => exact ⟨a, .refl a, hpar, hrest⟩
  | cons d l ih =>
    cases h with
    | cons hpar hrest =>
      obtain ⟨p, hl, hc, hl'⟩ := ih hrest
      exact ⟨p, .cons hpar hl, hc, hl'⟩

omit [DecidableEq α] in
theorem Ascends.of_mem (h : T.Ascends a l b) (hx : x ∈ l) :
    x ∈ T.line b ∧ T.rank a < T.rank x ∧ T.rank x ≤ T.rank b := by
  obtain ⟨l₁, l₂, rfl⟩ := append_of_mem hx
  obtain ⟨p, hl₁, hpar, hl₂⟩ := h.split
  have hline := hl₂.mem_line
  have hp := hl₁.rank_eq
  have hrank := T.rank_parent x p hpar
  exact ⟨hline, by omega, T.rank_le_of_mem hline⟩

omit [DecidableEq α] in
theorem Ascends.parent_ne {d : α} {l' : List α} (h : T.Ascends a (l ++ c :: l') b) (hd : d ∈ l) :
    T.parent d ≠ some c := by
  obtain ⟨p, hl, hpar, _⟩ := h.split
  intro hdc
  have := (hl.of_mem hd).2.2
  have := T.rank_parent c p hpar
  have := T.rank_parent d c hdc
  omega

theorem Linked.link_all (hl : T.Ascends a l b) (h : T.Linked next a) :
    T.Linked (l.foldl T.link next) b := by
  induction hl generalizing next with
  | refl a => exact h
  | @cons a c b l hpar _ ih =>
    rw [foldl_cons, link_child hpar]
    exact ih (h.push hpar)

theorem Linked.unlink_all (hl : T.Ascends a l b) (h : T.Linked next b) :
    T.Linked (l.reverse.foldl T.unlink next) a := by
  induction hl generalizing next with
  | refl a => exact h
  | @cons a c b l hpar _ ih =>
    rw [reverse_cons, foldl_append, foldl_cons, foldl_nil,
      unlink_child hpar]
    exact (ih h).pop hpar

/-! ## §4. Following the links. -/

/-- Following `next` from a node visits exactly the nodes of the list, in its
order, and ends at the last one. -/
inductive Visits (next : α → Option α) : α → List α → Prop
  | last {a : α} : next a = none → Visits next a [a]
  | step {a b : α} {l : List α} : next a = some b → Visits next b l → Visits next a (a :: l)

omit [DecidableEq α] in
theorem Visits.concat {next' : α → Option α} (h : Visits next' a l) (hlast : l.getLast? = some p)
    (hend : next' p = none) (hsame : ∀ x, x ≠ p → next x = next' x) (hp : next p = some c)
    (hc : next c = none) :
    Visits next a (l ++ [c]) := by
  induction h with
  | @last a hnone =>
    cases hlast
    exact Visits.step hp (Visits.last hc)
  | @step a b l hab hrest ih =>
    have hne : l ≠ [] := by
      rintro rfl
      cases hrest
    rw [getLast?_cons_of_ne_nil hne] at hlast
    have hap : a ≠ p := by
      rintro rfl
      rw [hend] at hab
      cases hab
    refine Visits.step ?_ (ih hlast)
    rw [hsame a hap, hab]

/-- **Following the links** from the root visits the line, the root first. -/
theorem Linked.visits {r : α} (h : T.Linked next a) (hr : (T.line a).getLast? = some r) :
    Visits next r (T.line a).reverse := by
  induction a using T.induct generalizing next with
  | root a hp =>
    rw [T.line_root a hp] at hr ⊢
    cases hr
    exact Visits.last h.end
  | child a p hp ih =>
    have hmem : p ∈ T.line a := by
      rw [T.line_child a p hp]
      exact mem_cons_of_mem _ (T.self_mem_line p)
    have hwalk := ih (h.pop hp) (by rw [T.root_of_mem hmem, hr])
    rw [T.line_child a p hp, reverse_cons]
    -- the walk to the parent, and then the link that was taken away
    refine hwalk.concat ?_ (update_self p none next) ?_ ?_ h.end
    · rw [getLast?_reverse]
      cases hpp : T.parent p with
      | none => rw [T.line_root p hpp]; rfl
      | some q => rw [T.line_child p q hpp]; rfl
    · intro x hx
      rw [update_of_ne hx]
    · exact (h p a).mpr ⟨T.self_mem_line a, hp⟩

end ParentLinks

end Fantom.Lib
