/-
  Fantom.Lib.DepthLimit — A recursion over a graph without cycles, with a table of answers and a
  limit on the depth.

  * `run_spec` — where a run is not cut off, it finds the depth,
  * `first_path` — where a run is cut off, when the depth is too great,
  * `answers_agree_iff` — the answers do not depend on earlier questions if and only if no question
    is cut off.
-/
import Fantom.Lib.Checked
import Mathlib.Data.List.Induction
import Mathlib.Logic.Function.Basic

namespace Fantom.Lib

open List Function Nat

/-- A graph without cycles; a leaf has a value that is not positive. -/
structure Dag (α : Type) where
  leaf : α → Option Int
  children : α → List α
  rank : α → Nat
  rank_lt : ∀ a, ∀ b ∈ children a, rank b < rank a
  leaf_le : ∀ a n, leaf a = some n → n ≤ 0

namespace Dag

variable {α : Type} (G : Dag α)

/-! ## §1. The depth. -/

/-- The lesser of two depths; a negative value is no depth. -/
def better (best : Option Int) (n : Int) : Option Int :=
  match best with
  | none => if 0 ≤ n then some n else none
  | some m => if 0 ≤ n ∧ n < m then some n else some m

/-- One more than the least, or 0 if there is none. -/
def next (best : Option Int) : Int :=
  match best with
  | none => 0
  | some n => n + 1

/-- The depth, by a recursion that is not deeper than `k`. -/
def depthTo : Nat → α → Int
  | 0, _ => 0
  | k + 1, a =>
    match G.leaf a with
    | some n => n
    | none => next ((G.children a).foldl (fun best b => better best (depthTo k b)) none)

def depth (a : α) : Int := G.depthTo (G.rank a + 1) a

variable {f : α → Int} {bs history : List α} {e : ε} {ε' : Type} {m : Int} {limit : Nat}

theorem foldl_better_congr {g : α → Int} {l : List α} (h : ∀ b ∈ l, f b = g b) (best : Option Int) :
    l.foldl (fun best b => better best (f b)) best =
      l.foldl (fun best b => better best (g b)) best := by
  induction l generalizing best with
  | nil => rfl
  | cons b l ih =>
    rw [foldl_cons, foldl_cons, h b mem_cons_self]
    exact ih (fun c hc => h c (mem_cons_of_mem _ hc)) _

theorem depthTo_eq (k : Nat) : ∀ a, G.rank a < k → G.depthTo k a = G.depth a := by
  induction k using Nat.strongRecOn with
  | _ k ih =>
    intro a ha
    obtain ⟨k, rfl⟩ := exists_eq_succ_of_ne_zero (show k ≠ 0 by omega)
    rw [depth, depthTo, depthTo]
    cases G.leaf a with
    | some n => rfl
    | none =>
      simp only
      congr 1
      refine foldl_better_congr (fun b hb => ?_) none
      have hlt := G.rank_lt a b hb
      rw [ih k (lt_succ_self k) b (by omega)]
      by_cases hk : G.rank a < k + 1
      · by_cases heq : G.rank a = k
        · rw [heq, ih k (lt_succ_self k) b (by omega)]
        · rw [ih (G.rank a) (by omega) b hlt]
      · omega

theorem depth_eq (a : α) : G.depth a =
    match G.leaf a with
    | some n => n
    | none => next ((G.children a).foldl (fun best b => better best (G.depth b)) none) := by
  conv_lhs => rw [depth, depthTo]
  cases G.leaf a with
  | some n => rfl
  | none =>
    simp only
    congr 1
    exact foldl_better_congr (fun b hb => G.depthTo_eq _ b (G.rank_lt a b hb)) none

/-! ## §2. The recursion. -/

/-- The answers so far. -/
abbrev Table (α : Type) := α → Option Int

variable {ε : Type} [DecidableEq α]

def visit (f : Table α → α → Except ε (Int × Table α)) (st : Option Int × Table α) (b : α) :
    Except ε (Option Int × Table α) := do
  let (n, t) ← f st.2 b
  .ok (better st.1 n, t)

/-- The recursion with `left` levels left; `cut` is what comes at the limit. -/
def run (cut : Except ε Int) : Nat → Table α → α → Except ε (Int × Table α)
  | 0, t, _ => do
    let n ← cut
    .ok (n, t)
  | left + 1, t, a =>
    match t a with
    | some n => .ok (n, t)
    | none =>
      match G.leaf a with
      | some n => .ok (n, update t a (some n))
      | none => do
        -- a mark that is not an answer yet
        let (best, t) ← (G.children a).foldlM (visit (run cut left))
          (none, update t a (some (-2)))
        .ok (next best, update t a (some (next best)))

def runs (cut : Except ε Int) (limit : Nat) (t : Table α) (questions : List α) :
    Except ε (Table α) :=
  questions.foldlM (fun t a => do
    let r ← G.run cut limit t a
    .ok r.2) t

/-! ## §3. What a run leaves in the table. -/

/-- How the table changes in a run: answers stay, and new ones are at nodes with `P` that are
ranked lower than `k`. -/
structure Grows (P : α → Prop) (k : Nat) (t t' : Table α) : Prop where
  keeps : ∀ x v, t x = some v → t' x = some v
  fresh : ∀ x, t' x ≠ t x → P x ∧ G.rank x < k

/-- A set of nodes with the children of those that are no leaves. -/
def Closed (P : α → Prop) : Prop := ∀ a, P a → G.leaf a = none → ∀ b ∈ G.children a, P b

variable {G} {cut : Except ε Int} {P : α → Prop} {k left : Nat} {t t' : Table α} {a : α} {r : Int}

omit [DecidableEq α] in
theorem Grows.refl : G.Grows P k t t where
  keeps _ _ h := h
  fresh _ h := absurd rfl h

omit [DecidableEq α] in
theorem Grows.trans {t'' : Table α} (h : G.Grows P k t t') (h' : G.Grows P k t' t'') :
    G.Grows P k t t'' where
  keeps x v hx := h'.keeps x v (h.keeps x v hx)
  fresh x hx := by
    by_cases heq : t' x = t x
    · rw [← heq] at hx
      exact h'.fresh x hx
    · exact h.fresh x heq

omit [DecidableEq α] in
theorem Grows.mono {k' : Nat} (h : G.Grows P k t t') (hk : k ≤ k') : G.Grows P k' t t' where
  keeps := h.keeps
  fresh x hx := ⟨(h.fresh x hx).1, Nat.lt_of_lt_of_le (h.fresh x hx).2 hk⟩

omit [DecidableEq α] in
theorem visit_eq_ok {f : Table α → α → Except ε (Int × Table α)} {best best' : Option Int} {b : α}
    (h : visit f (best, t) b = .ok (best', t')) :
    ∃ n, f t b = .ok (n, t') ∧ best' = better best n := by
  obtain ⟨⟨n, t₁⟩, hn, h⟩ := bind_eq_ok.mp h
  cases h
  exact ⟨n, hn, rfl⟩

omit [DecidableEq α] in
theorem loop_cons_eq_ok {f : Table α → α → Except ε (Int × Table α)} {st st' : Option Int × Table α}
    {b : α} (h : (b :: bs).foldlM (visit f) st = .ok st') :
    ∃ n t₁, f st.2 b = .ok (n, t₁) ∧ bs.foldlM (visit f) (better st.1 n, t₁) = .ok st' := by
  rw [foldlM_cons] at h
  obtain ⟨⟨best₁, t₁⟩, hvisit, h⟩ := bind_eq_ok.mp h
  obtain ⟨n, hn, rfl⟩ := visit_eq_ok hvisit
  exact ⟨n, t₁, hn, h⟩

theorem run_succ_eq_ok (h : G.run cut (left + 1) t a = .ok (r, t')) :
    (t a = some r ∧ t' = t) ∨
      (t a = none ∧ G.leaf a = some r ∧ t' = update t a (some r)) ∨
      (t a = none ∧ G.leaf a = none ∧ ∃ best t₁,
        (G.children a).foldlM (visit (G.run cut left)) (none, update t a (some (-2))) =
          .ok (best, t₁) ∧ r = next best ∧ t' = update t₁ a (some r)) := by
  rw [run] at h
  cases hta : t a with
  | some n =>
    rw [hta] at h
    cases h
    exact .inl ⟨rfl, rfl⟩
  | none =>
    rw [hta] at h
    simp only at h
    cases hleaf : G.leaf a with
    | some n =>
      rw [hleaf] at h
      cases h
      exact .inr (.inl ⟨rfl, rfl, rfl⟩)
    | none =>
      rw [hleaf] at h
      simp only at h
      obtain ⟨⟨best, t₁⟩, hloop, h⟩ := bind_eq_ok.mp h
      cases h
      exact .inr (.inr ⟨rfl, rfl, best, t₁, hloop, rfl, rfl⟩)

theorem loop_grows (hrun : ∀ b ∈ bs, ∀ (t : Table α) (n : Int) (t' : Table α),
      G.run cut left t b = .ok (n, t') → G.Grows P k t t') :
    ∀ {best best' : Option Int} {t t' : Table α},
      bs.foldlM (visit (G.run cut left)) (best, t) = .ok (best', t') → G.Grows P k t t' := by
  induction bs with
  | nil =>
    intro best best' t t' h
    cases h
    exact .refl
  | cons b bs ih =>
    intro best best' t t' h
    obtain ⟨n, t₁, hn, h⟩ := loop_cons_eq_ok h
    have hrest := ih (fun c hc => hrun c (mem_cons_of_mem _ hc)) h
    exact (hrun b mem_cons_self t n t₁ hn).trans hrest

/-- **A run** changes the table at its descendants only, and leaves its own answer. -/
theorem run_grows (hP : G.Closed P) (left : Nat) :
    ∀ {t t' : Table α} {a : α} {r : Int}, P a → G.run cut left t a = .ok (r, t') →
      G.Grows P (G.rank a + 1) t t' ∧ (left ≠ 0 → t' a = some r) := by
  induction left with
  | zero =>
    intro t t' a r _ h
    rw [run] at h
    cases cut with
    | error e => cases h
    | ok n =>
      cases h
      exact ⟨.refl, fun hne => absurd rfl hne⟩
  | succ left ih =>
    intro t t' a r ha h
    obtain ⟨hta, rfl⟩ | ⟨hta, -, rfl⟩ | ⟨hta, hleaf, best, t₁, hloop, rfl, rfl⟩ :=
      run_succ_eq_ok h
    · exact ⟨.refl, fun _ => hta⟩
    · refine ⟨⟨fun x v hx => ?_, fun x hx => ?_⟩, fun _ => update_self ..⟩
      · rw [update_of_ne (by rintro rfl; rw [hta] at hx; cases hx), hx]
      · by_cases hxa : x = a
        · rw [hxa]
          exact ⟨ha, lt_succ_self _⟩
        · exact absurd (update_of_ne hxa _ _) hx
    · -- the children are ranked lower
      have hgrows : G.Grows P (G.rank a) (update t a (some (-2))) t₁ := by
        refine loop_grows (fun b hb t n t' hn => ?_) hloop
        exact (ih (hP a ha hleaf b hb) hn).1.mono (G.rank_lt a b hb)
      refine ⟨⟨fun x v hx => ?_, fun x hx => ?_⟩, fun _ => update_self ..⟩
      · have hxa : x ≠ a := by
          rintro rfl
          rw [hta] at hx
          cases hx
        rw [update_of_ne hxa]
        refine hgrows.keeps x v ?_
        rw [update_of_ne hxa, hx]
      · by_cases hxa : x = a
        · rw [hxa]
          exact ⟨ha, lt_succ_self _⟩
        · rw [update_of_ne hxa] at hx
          have hfresh := hgrows.fresh x (by rw [update_of_ne hxa]; exact hx)
          exact ⟨hfresh.1, lt_succ_of_lt hfresh.2⟩

theorem loop_grows_of_closed (hP : G.Closed P) (hbs : ∀ b ∈ bs, P b ∧ G.rank b < k)
    {st st' : Option Int × Table α} (h : bs.foldlM (visit (G.run cut left)) st = .ok st') :
    G.Grows P k st.2 st'.2 := by
  refine loop_grows (fun b hb t n t' hn => ?_) h
  exact (run_grows hP left (hbs b hb).1 hn).1.mono (hbs b hb).2

theorem loop_answers (hP : G.Closed P) (hleft : left ≠ 0) (hbs : ∀ b ∈ bs, P b ∧ G.rank b < k) :
    ∀ {best best' : Option Int} {t t' : Table α},
      bs.foldlM (visit (G.run cut left)) (best, t) = .ok (best', t') →
        (∀ b ∈ bs, ∃ n, t' b = some n) ∧
          best' = bs.foldl (fun best b => better best ((t' b).getD 0)) best := by
  induction bs with
  | nil =>
    intro best best' t t' h
    cases h
    exact ⟨fun b hb => absurd hb not_mem_nil, rfl⟩
  | cons b bs ih =>
    intro best best' t t' h
    obtain ⟨n, t₁, hn, h⟩ := loop_cons_eq_ok h
    have hbs' : ∀ c ∈ bs, P c ∧ G.rank c < k := fun c hc => hbs c (mem_cons_of_mem _ hc)
    obtain ⟨hall, hbest⟩ := ih hbs' h
    -- the answer of the first child stays
    have hself := (run_grows hP left (hbs b mem_cons_self).1 hn).2 hleft
    have hkeeps : t' b = some n := (loop_grows_of_closed hP hbs' h).keeps b n hself
    refine ⟨fun c hc => ?_, ?_⟩
    · obtain rfl | hc := mem_cons.mp hc
      · exact ⟨n, hkeeps⟩
      · exact hall c hc
    · rw [foldl_cons, hkeeps]
      exact hbest

/-! ## §4. Runs that are not cut off. -/

/-- The answers at nodes that are ranked lower than `k` are the depths. -/
def RightBelow (G : Dag α) (k : Nat) (t : Table α) : Prop :=
  ∀ x, G.rank x < k → ∀ v, t x = some v → v = G.depth x

def Right (G : Dag α) (t : Table α) : Prop := ∀ x v, t x = some v → v = G.depth x

omit [DecidableEq α] in
theorem RightBelow.grow (h : G.RightBelow (G.rank a + 1) t') (ht : G.RightBelow k t)
    (hgrows : G.Grows P (G.rank a + 1) t t') : G.RightBelow k t' := by
  intro x hx v hv
  by_cases hxa : G.rank x < G.rank a + 1
  · exact h x hxa v hv
  · have heq : t' x = t x := by
      by_contra hne
      exact hxa (hgrows.fresh x hne).2
    exact ht x hx v (heq ▸ hv)

theorem loop_spec (hrun : ∀ b ∈ bs, ∀ (t : Table α) (n : Int) (t' : Table α), G.RightBelow k t →
    G.run (.error e) left t b = .ok (n, t') → n = G.depth b ∧ G.RightBelow k t') :
    ∀ {best best' : Option Int} {t t' : Table α}, G.RightBelow k t →
      bs.foldlM (visit (G.run (.error e) left)) (best, t) = .ok (best', t') →
        G.RightBelow k t' ∧ best' = bs.foldl (fun best b => better best (G.depth b)) best := by
  induction bs with
  | nil =>
    intro best best' t t' ht h
    cases h
    exact ⟨ht, rfl⟩
  | cons b bs ih =>
    intro best best' t t' ht h
    obtain ⟨n, t₁, hn, h⟩ := loop_cons_eq_ok h
    obtain ⟨rfl, ht₁⟩ := hrun b mem_cons_self t n t₁ ht hn
    exact ih (fun c hc => hrun c (mem_cons_of_mem _ hc)) ht₁ h

/-- **A run that is not cut off** finds the depth. -/
theorem run_spec (left : Nat) :
    ∀ {t t' : Table α} {a : α} {r : Int}, G.RightBelow (G.rank a + 1) t →
      G.run (.error e) left t a = .ok (r, t') →
        r = G.depth a ∧ G.RightBelow (G.rank a + 1) t' := by
  have hall : G.Closed fun _ => True := fun _ _ _ _ _ => trivial
  induction left with
  | zero =>
    intro t t' a r _ h
    cases h
  | succ left ih =>
    intro t t' a r ht h
    obtain ⟨hta, rfl⟩ | ⟨-, hleaf, rfl⟩ | ⟨-, hleaf, best, t₁, hloop, rfl, rfl⟩ :=
      run_succ_eq_ok h
    · exact ⟨ht a (lt_succ_self _) r hta, ht⟩
    · have hr : r = G.depth a := by rw [depth_eq, hleaf]
      refine ⟨hr, fun x hx v hv => ?_⟩
      by_cases hxa : x = a
      · rw [hxa, update_self] at hv
        rw [hxa, ← hr, Option.some.inj hv]
      · rw [update_of_ne hxa] at hv
        exact ht x hx v hv
    · -- the mark is not below the rank
      have ht₀ : G.RightBelow (G.rank a) (update t a (some (-2))) := by
        intro x hx v hv
        have hxa : x ≠ a := by
          rintro rfl
          exact absurd hx (Nat.lt_irrefl _)
        rw [update_of_ne hxa] at hv
        exact ht x (lt_succ_of_lt hx) v hv
      have hrun : ∀ b ∈ G.children a, ∀ (t : Table α) (n : Int) (t' : Table α),
          G.RightBelow (G.rank a) t → G.run (.error e) left t b = .ok (n, t') →
            n = G.depth b ∧ G.RightBelow (G.rank a) t' := by
        intro b hb t n t' ht hn
        have hlt := G.rank_lt a b hb
        obtain ⟨hdepth, hright⟩ := ih (fun x hx => ht x (by omega)) hn
        exact ⟨hdepth, hright.grow ht (run_grows hall left trivial hn).1⟩
      obtain ⟨ht₁, hbest⟩ := loop_spec hrun ht₀ hloop
      have hr : next best = G.depth a := by rw [depth_eq, hleaf, hbest]
      refine ⟨hr, fun x hx v hv => ?_⟩
      by_cases hxa : x = a
      · rw [hxa, update_self] at hv
        rw [hxa, ← hr, Option.some.inj hv]
      · rw [update_of_ne hxa] at hv
        by_cases hlt : G.rank x < G.rank a
        · exact ht₁ x hlt v hv
        · -- the loop did not come here
          have hgrows := loop_grows_of_closed hall (fun b hb => ⟨trivial, G.rank_lt a b hb⟩) hloop
          have heq : t₁ x = update t a (some (-2)) x := by
            by_contra hne
            exact hlt (hgrows.fresh x hne).2
          rw [heq, update_of_ne hxa] at hv
          exact ht x hx v hv

theorem run_right (ht : G.Right t) (h : G.run (.error e) left t a = .ok (r, t')) :
    r = G.depth a ∧ G.Right t' := by
  obtain ⟨hr, hbelow⟩ := run_spec left (fun x _ v hv => ht x v hv) h
  have hall : G.Closed fun _ => True := fun _ _ _ _ _ => trivial
  refine ⟨hr, fun x v hv => ?_⟩
  exact hbelow.grow (k := G.rank x + 1) (fun y _ v hv => ht y v hv) (run_grows hall left trivial h).1
    x (lt_succ_self _) v hv

/-! ## §5. Runs that are cut off. -/

theorem run_of_uncut {e : ε'} {v : Int × Table α} (left : Nat) :
    ∀ {t : Table α} {a : α}, G.run (.error e) left t a = .ok v → G.run cut left t a = .ok v := by
  induction left generalizing v with
  | zero =>
    intro t a h
    cases h
  | succ left ih =>
    intro t a h
    have hloop : ∀ (bs : List α) (st : Option Int × Table α) (st' : Option Int × Table α),
        bs.foldlM (visit (G.run (.error e) left)) st = .ok st' →
          bs.foldlM (visit (G.run cut left)) st = .ok st' := by
      intro bs
      induction bs with
      | nil => exact fun _ _ h => congrArg Except.ok (Except.ok.inj h)
      | cons b bs ihbs =>
        intro st st' h
        obtain ⟨n, t₁, hn, h⟩ := loop_cons_eq_ok h
        rw [foldlM_cons, visit, ih hn]
        exact ihbs _ _ h
    obtain ⟨r, t'⟩ := v
    rw [run]
    obtain ⟨hta, rfl⟩ | ⟨hta, hleaf, rfl⟩ | ⟨hta, hleaf, best, t₁, hfold, rfl, rfl⟩ :=
      run_succ_eq_ok h
    · rw [hta]
    · rw [hta, hleaf]
    · rw [hta, hleaf]
      simp only
      rw [hloop _ _ _ hfold]
      rfl

theorem loop_limit (hm : 0 ≤ m) (hbs : bs ≠ []) (t : Table α) :
    bs.foldlM (visit (G.run (.ok m : Except ε Int) 0)) (none, t) = .ok (some m, t) := by
  have hsome : ∀ bs : List α,
      bs.foldlM (visit (G.run (.ok m : Except ε Int) 0)) (some m, t) = .ok (some m, t) := by
    intro bs
    induction bs with
    | nil => rfl
    | cons b bs ih =>
      rw [foldlM_cons]
      show bs.foldlM _ (better (some m) m, t) = _
      rw [better, if_neg (fun h => absurd h.2 (Int.lt_irrefl m))]
      exact ih
  cases bs with
  | nil => exact absurd rfl hbs
  | cons b bs =>
    rw [foldlM_cons]
    show bs.foldlM _ (better none m, t) = _
    rw [better, if_pos hm]
    exact hsome bs

/-- **A run that is cut off** leaves an answer that is greater than the limit. -/
theorem run_cut_or (hm : 0 ≤ m) (e : ε') (hP : G.Closed P) (left : Nat) :
    ∀ {t t' : Table α} {a : α} {r : Int}, P a →
      G.run (.ok m : Except ε Int) (left + 1) t a = .ok (r, t') →
        G.run (.error e) (left + 1) t a = .ok (r, t') ∨
          ∃ p, P p ∧ G.rank p ≤ G.rank a ∧ t' p = some (m + 1) := by
  induction left with
  | zero =>
    intro t t' a r ha h
    rw [run]
    obtain ⟨hta, rfl⟩ | ⟨hta, hleaf, rfl⟩ | ⟨hta, hleaf, best, t₁, hloop, rfl, rfl⟩ :=
      run_succ_eq_ok h
    · rw [hta]
      exact .inl rfl
    · rw [hta, hleaf]
      exact .inl rfl
    · by_cases hnil : G.children a = []
      · rw [hta, hleaf, hnil]
        rw [hnil] at hloop
        cases hloop
        exact .inl rfl
      · -- the children are at the limit
        rw [loop_limit hm hnil] at hloop
        cases hloop
        exact .inr ⟨a, ha, Nat.le_refl _, update_self ..⟩
  | succ left ih =>
    intro t t' a r ha h
    have hloops : ∀ bs : List α, (∀ b ∈ bs, P b ∧ G.rank b < G.rank a) →
        ∀ (st st' : Option Int × Table α),
          bs.foldlM (visit (G.run (.ok m : Except ε Int) (left + 1))) st = .ok st' →
            bs.foldlM (visit (G.run (.error e) (left + 1))) st = .ok st' ∨
              ∃ p, P p ∧ G.rank p < G.rank a ∧ st'.2 p = some (m + 1) := by
      intro bs
      induction bs with
      | nil => exact fun _ _ _ h => .inl (congrArg Except.ok (Except.ok.inj h))
      | cons b bs ihbs =>
        intro hbs st st' h
        have hbs' : ∀ c ∈ bs, P c ∧ G.rank c < G.rank a :=
          fun c hc => hbs c (mem_cons_of_mem _ hc)
        obtain ⟨hb, hlt⟩ := hbs b mem_cons_self
        obtain ⟨n, t₁, hn, h⟩ := loop_cons_eq_ok h
        obtain hsame | ⟨p, hp, hle, hpt⟩ := ih hb hn
        · rw [foldlM_cons, visit, hsame]
          exact ihbs hbs' (better st.1 n, t₁) st' h
        · have hgrows := loop_grows_of_closed hP hbs' h
          exact .inr ⟨p, hp, Nat.lt_of_le_of_lt hle hlt, hgrows.keeps p _ hpt⟩
    rw [run]
    obtain ⟨hta, rfl⟩ | ⟨hta, hleaf, rfl⟩ | ⟨hta, hleaf, best, t₁, hloop, rfl, rfl⟩ :=
      run_succ_eq_ok h
    · rw [hta]
      exact .inl rfl
    · rw [hta, hleaf]
      exact .inl rfl
    · rw [hta, hleaf]
      simp only
      obtain hsame | ⟨p, hp, hlt, hpt⟩ := hloops (G.children a)
        (fun b hb => ⟨hP a ha hleaf b hb, G.rank_lt a b hb⟩) _ _ hloop
      · rw [hsame]
        exact .inl rfl
      · refine .inr ⟨p, hp, Nat.le_of_lt hlt, ?_⟩
        rw [update_of_ne (by rintro rfl; exact Nat.lt_irrefl _ hlt)]
        exact hpt

/-! ## §6. The limit on the depth. -/

omit [DecidableEq α] in
theorem foldl_better_eq_min? (f : α → Int) (bs : List α) :
    bs.foldl (fun best b => better best (f b)) none =
      ((bs.filter fun b => 0 ≤ f b).map f).min? := by
  have hsome : ∀ (bs : List α) (m : Int),
      bs.foldl (fun best b => better best (f b)) (some m) =
        some (((bs.filter fun b => 0 ≤ f b).map f).foldl min m) := by
    intro bs
    induction bs with
    | nil => exact fun m => rfl
    | cons b bs ih =>
      intro m
      rw [foldl_cons, better]
      by_cases hb : 0 ≤ f b
      · rw [filter_cons_of_pos (by simpa using hb), map_cons, foldl_cons]
        by_cases hlt : f b < m
        · rw [if_pos ⟨hb, hlt⟩, ih, Int.min_eq_right (Int.le_of_lt hlt)]
        · rw [if_neg (fun h => hlt h.2), ih, Int.min_eq_left (Int.not_lt.mp hlt)]
      · rw [filter_cons_of_neg (by simpa using hb), if_neg (fun h => hb h.1), ih]
  induction bs with
  | nil => rfl
  | cons b bs ih =>
    rw [foldl_cons, better]
    by_cases hb : 0 ≤ f b
    · rw [filter_cons_of_pos (by simpa using hb), map_cons]
      simp only [hb, if_true]
      rw [hsome]
      rfl
    · rw [filter_cons_of_neg (by simpa using hb)]
      simp only [hb, if_false]
      exact ih

omit [DecidableEq α] in
/-- A node that is no leaf is at 0, where no child has a depth, or one above the least of the
depths of its children. -/
theorem depth_cases (hleaf : G.leaf a = none) :
    (G.depth a = 0 ∧ ∀ b ∈ G.children a, ¬ 0 ≤ G.depth b) ∨
      ∃ b ∈ G.children a, 0 ≤ G.depth b ∧ G.depth a = G.depth b + 1 ∧
        ∀ c ∈ G.children a, 0 ≤ G.depth c → G.depth b ≤ G.depth c := by
  rw [depth_eq, hleaf]
  simp only
  rw [foldl_better_eq_min?]
  cases hmin : (((G.children a).filter fun b => 0 ≤ G.depth b).map G.depth).min? with
  | none =>
    rw [min?_eq_none_iff, map_eq_nil_iff, filter_eq_nil_iff] at hmin
    exact .inl ⟨rfl, fun b hb => by simpa using hmin b hb⟩
  | some m =>
    rw [min?_eq_some_iff] at hmin
    obtain ⟨b, hb, rfl⟩ := mem_map.mp hmin.1
    rw [mem_filter, decide_eq_true_iff] at hb
    refine .inr ⟨b, hb.1, hb.2, rfl, fun c hc hdepth => hmin.2 _ ?_⟩
    exact mem_map_of_mem (mem_filter.mpr ⟨hc, decide_eq_true hdepth⟩)

omit [DecidableEq α] in
theorem depth_nonneg (hleaf : G.leaf a = none) : 0 ≤ G.depth a := by
  obtain ⟨hzero, -⟩ | ⟨b, -, hb, heq, -⟩ := depth_cases hleaf
  · omega
  · omega

omit [DecidableEq α] in
/-- A node with a positive depth has a child with a depth, and every such child is one step
less deep at most. -/
theorem exists_child (h : 0 < G.depth a) :
    G.leaf a = none ∧ (∃ b ∈ G.children a, 0 ≤ G.depth b) ∧
      ∀ b ∈ G.children a, 0 ≤ G.depth b → G.depth a ≤ G.depth b + 1 := by
  cases hleaf : G.leaf a with
  | some n =>
    have heq := G.depth_eq a
    have hle := G.leaf_le a n hleaf
    rw [hleaf] at heq
    simp only at heq
    omega
  | none =>
    obtain ⟨hzero, -⟩ | ⟨b, hb, hdepth, heq, hleast⟩ := depth_cases hleaf
    · omega
    · refine ⟨rfl, ⟨b, hb, hdepth⟩, fun c hc hdepthc => ?_⟩
      have := hleast c hc hdepthc
      omega

/-- Below `k`, only leaves without a depth have an answer. -/
def Fresh (G : Dag α) (k : Nat) (t : Table α) : Prop :=
  ∀ x, G.rank x < k → ∀ v, t x = some v → G.depth x < 0

/-- **The first path down** ends at the limit where the depth is at least the limit. -/
theorem first_path (hm : 0 ≤ m) (hP : G.Closed P) (left : Nat) :
    ∀ {t t' : Table α} {a : α} {r : Int}, P a → (left : Int) + 1 ≤ G.depth a →
      G.Fresh (G.rank a + 1) t → G.run (.ok m : Except ε Int) (left + 1) t a = .ok (r, t') →
        ∃ p, P p ∧ G.rank p ≤ G.rank a ∧ (left ≠ 0 → G.rank p < G.rank a) ∧
          t' p = some (m + 1) := by
  induction left with
  | zero =>
    intro t t' a r ha hdepth hfresh h
    obtain ⟨hleaf, ⟨b, hb, -⟩, -⟩ := exists_child (G := G) (a := a) (by omega)
    obtain ⟨hta, -⟩ | ⟨-, hleaf', -⟩ | ⟨-, -, best, t₁, hloop, rfl, rfl⟩ := run_succ_eq_ok h
    · have := hfresh a (lt_succ_self _) _ hta
      omega
    · rw [hleaf] at hleaf'
      cases hleaf'
    · rw [loop_limit hm (ne_nil_of_mem hb)] at hloop
      cases hloop
      exact ⟨a, ha, Nat.le_refl _, fun hne => absurd rfl hne, update_self ..⟩
  | succ left ih =>
    intro t t' a r ha hdepth hfresh h
    obtain ⟨hleaf, hchild, hall⟩ := exists_child (G := G) (a := a) (by omega)
    -- the loop goes down at the first child that has a depth
    have hloops : ∀ bs : List α, (∀ b ∈ bs, P b ∧ G.rank b < G.rank a) →
        (∃ b ∈ bs, 0 ≤ G.depth b) → (∀ b ∈ bs, 0 ≤ G.depth b → (left : Int) + 1 ≤ G.depth b) →
        ∀ (st st' : Option Int × Table α), G.Fresh (G.rank a) st.2 →
          bs.foldlM (visit (G.run (.ok m : Except ε Int) (left + 1))) st = .ok st' →
            ∃ p, P p ∧ G.rank p < G.rank a ∧ st'.2 p = some (m + 1) := by
      intro bs
      induction bs with
      | nil => exact fun _ ⟨b, hb, _⟩ => absurd hb not_mem_nil
      | cons b bs ihbs =>
        intro hbs hex hdeep st st' hst h
        have hbs' : ∀ c ∈ bs, P c ∧ G.rank c < G.rank a :=
          fun c hc => hbs c (mem_cons_of_mem _ hc)
        obtain ⟨hb, hlt⟩ := hbs b mem_cons_self
        obtain ⟨n, t₁, hn, h⟩ := loop_cons_eq_ok h
        by_cases hneg : 0 ≤ G.depth b
        · have hfb : G.Fresh (G.rank b + 1) st.2 :=
            fun x hx => hst x (Nat.lt_of_lt_of_le hx hlt)
          obtain ⟨p, hp, hle, -, hpt⟩ := ih hb (hdeep b mem_cons_self hneg) hfb hn
          have hgrows := loop_grows_of_closed hP hbs' h
          exact ⟨p, hp, Nat.lt_of_le_of_lt hle hlt, hgrows.keeps p _ hpt⟩
        · -- this child is a leaf: nothing else has an answer after it
          have hst₁ : G.Fresh (G.rank a) t₁ := by
            intro x hx v hv
            obtain ⟨-, heq⟩ | ⟨-, -, heq⟩ | ⟨-, hleafb, -⟩ := run_succ_eq_ok hn
            · rw [heq] at hv
              exact hst x hx v hv
            · rw [heq] at hv
              by_cases hxb : x = b
              · rw [hxb]
                omega
              · rw [update_of_ne hxb] at hv
                exact hst x hx v hv
            · exact absurd (depth_nonneg hleafb) hneg
          refine ihbs hbs' ?_ (fun c hc => hdeep c (mem_cons_of_mem _ hc)) _ st' hst₁ h
          obtain ⟨c, hc, hdepthc⟩ := hex
          obtain rfl | hc := mem_cons.mp hc
          · exact absurd hdepthc hneg
          · exact ⟨c, hc, hdepthc⟩
    obtain ⟨hta, -⟩ | ⟨-, hleaf', -⟩ | ⟨-, -, best, t₁, hloop, rfl, rfl⟩ := run_succ_eq_ok h
    · have := hfresh a (lt_succ_self _) _ hta
      omega
    · rw [hleaf] at hleaf'
      cases hleaf'
    · have hstart : G.Fresh (G.rank a) (update t a (some (-2))) := by
        intro x hx v hv
        rw [update_of_ne (by rintro rfl; exact Nat.lt_irrefl _ hx)] at hv
        exact hfresh x (lt_succ_of_lt hx) v hv
      obtain ⟨p, hp, hlt, hpt⟩ := hloops (G.children a)
        (fun b hb => ⟨hP a ha hleaf b hb, G.rank_lt a b hb⟩) hchild
        (fun b hb hdepthb => by have := hall b hb hdepthb; omega) _ _ hstart hloop
      refine ⟨p, hp, Nat.le_of_lt hlt, fun _ => hlt, ?_⟩
      rw [update_of_ne (by rintro rfl; exact Nat.lt_irrefl _ hlt)]
      exact hpt

/-! ## §7. Answers that do not depend on earlier questions. -/

def noAnswers : Table α := fun _ => none

variable (G cut) in
/-- The recursion returns, unless it comes to a limit that is an error. -/
theorem run_total (left : Nat) : ∀ (t : Table α) (a : α), (∃ m, cut = .ok m) ∨ G.rank a < left →
    ∃ r t', G.run cut left t a = .ok (r, t') := by
  induction left with
  | zero =>
    rintro t a (⟨m, rfl⟩ | hlt)
    · exact ⟨m, t, rfl⟩
    · exact absurd hlt (not_lt_zero _)
  | succ left ih =>
    intro t a hcut
    have hloop : ∀ (bs : List α) (st : Option Int × Table α),
        (∀ b ∈ bs, (∃ m, cut = .ok m) ∨ G.rank b < left) →
        ∃ st', bs.foldlM (visit (G.run cut left)) st = .ok st' := by
      intro bs
      induction bs with
      | nil => exact fun st _ => ⟨st, rfl⟩
      | cons b bs ihbs =>
        intro st hbs
        obtain ⟨n, t', hn⟩ := ih st.2 b (hbs b mem_cons_self)
        rw [foldlM_cons, visit, hn]
        exact ihbs (better st.1 n, t') fun c hc => hbs c (mem_cons_of_mem b hc)
    rw [run]
    cases t a with
    | some n => exact ⟨n, t, rfl⟩
    | none =>
      cases hleaf : G.leaf a with
      | some n => exact ⟨n, _, rfl⟩
      | none =>
        obtain ⟨st', hst'⟩ := hloop (G.children a) (none, update t a (some (-2))) fun b hb =>
          hcut.imp_right fun hlt => by
            have := G.rank_lt a b hb
            omega
        simp only
        rw [hst']
        exact ⟨_, _, rfl⟩

theorem runs_concat_eq_ok : G.runs cut limit t (history ++ [a]) = .ok t' ↔
    ∃ t₁ r, G.runs cut limit t history = .ok t₁ ∧ G.run cut limit t₁ a = .ok (r, t') := by
  simp only [runs, foldlM_append, foldlM_cons, foldlM_nil, bind_pure, bind_eq_ok]
  constructor
  · rintro ⟨t₁, hhist, v, hrun, h⟩
    cases h
    exact ⟨t₁, v.1, hhist, hrun⟩
  · rintro ⟨t₁, r, hhist, hrun⟩
    exact ⟨t₁, hhist, (r, t'), hrun, rfl⟩

/-- The tables and the answers agree with the depths, as far as the nodes with `P` go. -/
def RightOn (G : Dag α) (P : α → Prop) (t : Table α) : Prop :=
  ∀ x, P x → ∀ v, t x = some v → v = G.depth x

theorem depth_lt_limit (hP : G.Closed P) (hlimit : 2 ≤ limit) (hright : ∀ a, P a → ∀ r t',
      G.run (.ok (limit : Int) : Except ε Int) limit noAnswers a = .ok (r, t') → G.RightOn P t') :
    ∀ a, P a → G.depth a < limit := by
  obtain ⟨left, rfl⟩ := Nat.exists_eq_add_of_le' hlimit
  intro a
  -- by induction on the rank: the answer that is too large is at a lower node
  induction hk : G.rank a using Nat.strongRecOn generalizing a with
  | _ k ih =>
    intro ha
    by_contra hge
    obtain ⟨r, t', h⟩ := G.run_total (.ok ((left + 2 : Nat) : Int) : Except ε Int)
      (left + 2) noAnswers a (.inl ⟨_, rfl⟩)
    have hfresh : G.Fresh (G.rank a + 1) (noAnswers : Table α) := by
      intro x _ v hv
      cases hv
    obtain ⟨p, hp, -, hlt, hpt⟩ := first_path (Int.natCast_nonneg _) hP (left + 1) ha
      (by omega) hfresh h
    have hdepth := hright a ha r t' h p hp _ hpt
    have := ih (G.rank p) (by rw [← hk]; exact hlt (by omega)) p rfl hp
    omega

theorem runs_uncut (e : ε') (h : ∃ t, G.runs (.error e) limit noAnswers history = .ok t) :
    ∃ t, G.runs (.error e) limit noAnswers history = .ok t ∧
      G.runs cut limit noAnswers history = .ok t ∧ G.Right t := by
  induction history using reverseRecOn with
  | nil => exact ⟨noAnswers, rfl, rfl, fun x v hv => by cases hv⟩
  | append_singleton history a ih =>
    obtain ⟨t, ht⟩ := h
    obtain ⟨t₁, r, hhist, hrun⟩ := runs_concat_eq_ok.mp ht
    obtain ⟨t₂, ht₂, hcut, hright⟩ := ih ⟨t₁, hhist⟩
    obtain rfl := Except.ok.inj (hhist.symm.trans ht₂)
    exact ⟨t, ht, runs_concat_eq_ok.mpr ⟨t₁, r, hcut, run_of_uncut limit hrun⟩,
      (run_right hright hrun).2⟩

/-- After any questions at nodes with `P`, the answer is the one without earlier questions. -/
def AnswersAgree (G : Dag α) (ε : Type) (P : α → Prop) (limit : Nat) : Prop :=
  ∀ history : List α, (∀ a ∈ history, P a) → ∀ a, P a → ∃ t r t',
    G.runs (.ok (limit : Int) : Except ε Int) limit noAnswers history = .ok t ∧
      G.run (.ok (limit : Int) : Except ε Int) limit t a = .ok (r, t') ∧
      (G.run (.ok (limit : Int) : Except ε Int) limit noAnswers a).map Prod.fst = .ok r

/-- No question at a node with `P` is cut off, after any others. -/
def Uncut (G : Dag α) (P : α → Prop) (limit : Nat) : Prop :=
  ∀ history : List α, (∀ a ∈ history, P a) →
    ∃ t, G.runs (.error () : Except Unit Int) limit noAnswers history = .ok t

/-- Where all ranks are below the limit, nothing is cut off. -/
theorem uncut_of_rank_lt (h : ∀ a, P a → G.rank a < limit) : G.Uncut P limit := by
  intro history
  induction history using reverseRecOn with
  | nil => exact fun _ => ⟨noAnswers, rfl⟩
  | append_singleton history a ih =>
    intro hhistory
    obtain ⟨t, ht⟩ := ih fun b hb => hhistory b (mem_append_left _ hb)
    have ha := h a (hhistory a (mem_append_right _ mem_cons_self))
    obtain ⟨r, t', hrun⟩ := G.run_total (.error () : Except Unit Int) limit t a (.inr ha)
    exact ⟨t', runs_concat_eq_ok.mpr ⟨t, r, ht, hrun⟩⟩

theorem run_answered {n : Int} (h : t a = some n) : G.run cut (left + 1) t a = .ok (n, t) := by
  rw [run, h]

theorem Uncut.answer (h : G.Uncut P limit) (hP : G.Closed P) (hlimit : 2 ≤ limit)
    (hhistory : ∀ a ∈ history, P a) (ha : P a) :
    ∃ t t', G.runs (.ok (limit : Int) : Except ε Int) limit noAnswers history = .ok t ∧
      G.run (.ok (limit : Int) : Except ε Int) limit t a = .ok (G.depth a, t') ∧
      G.depth a < limit := by
  -- one more question in a run without a cut
  have hstep : ∀ history : List α, (∀ a ∈ history, P a) → ∀ a, P a → ∃ t t',
      G.runs (.ok (limit : Int) : Except ε Int) limit noAnswers history = .ok t ∧
        G.run (.ok (limit : Int) : Except ε Int) limit t a = .ok (G.depth a, t') ∧
        G.Right t' := by
    intro history hhistory a ha
    obtain ⟨t, herr, hok, hright⟩ :
        ∃ t, G.runs (.error () : Except Unit Int) limit noAnswers history = .ok t ∧
          G.runs (.ok (limit : Int) : Except ε Int) limit noAnswers history = .ok t ∧
          G.Right t := runs_uncut () (h history hhistory)
    obtain ⟨t', hone⟩ := h (history ++ [a]) (by
      intro b hb
      obtain hb | hb := mem_append.mp hb
      · exact hhistory b hb
      · exact mem_singleton.mp hb ▸ ha)
    obtain ⟨t₁, r, herr', hrun⟩ := runs_concat_eq_ok.mp hone
    cases herr.symm.trans herr'
    obtain ⟨rfl, hright'⟩ := run_right hright hrun
    exact ⟨t, t', hok, run_of_uncut limit hrun, hright'⟩
  obtain ⟨t, t', hruns, hrun, -⟩ := hstep history hhistory a ha
  refine ⟨t, t', hruns, hrun, ?_⟩
  refine depth_lt_limit (ε := ε) hP hlimit (fun b hb r t' hb' => ?_) a ha
  obtain ⟨t, t'', ht, hrun', hright⟩ := hstep [] (fun b hb => absurd hb not_mem_nil) b hb
  cases ht
  rw [hb'] at hrun'
  cases hrun'
  exact fun x _ v hv => hright x v hv

theorem AnswersAgree.first (h : G.AnswersAgree ε P limit) (hP : G.Closed P) (hlimit : 2 ≤ limit) :
    ∀ {a : α} {r : Int} {t' : Table α}, P a →
      G.run (.ok (limit : Int) : Except ε Int) limit noAnswers a = .ok (r, t') →
        r = G.depth a ∧ G.RightOn P t' := by
  obtain ⟨left, rfl⟩ := Nat.exists_eq_add_of_le' hlimit
  -- an answer in the table is a first answer
  have hsame : ∀ {a : α} {r : Int} {t' : Table α}, P a →
      G.run (.ok ((left + 2 : Nat) : Int) : Except ε Int) (left + 2) noAnswers a = .ok (r, t') →
        ∀ x, P x → ∀ v, t' x = some v → ∃ t'',
          G.run (.ok ((left + 2 : Nat) : Int) : Except ε Int) (left + 2) noAnswers x =
            .ok (v, t'') := by
    intro a r t' ha hrun x hx v hv
    obtain ⟨t, n, t₂, hruns, hrun', hfirst⟩ := h [a] (by simpa using ha) x hx
    rw [show [a] = [] ++ [a] from rfl] at hruns
    obtain ⟨t₁, r', hnil, hrun₁⟩ := runs_concat_eq_ok.mp hruns
    cases hnil
    cases hrun.symm.trans hrun₁
    rw [run_answered hv] at hrun'
    cases hrun'
    cases hx' : G.run (.ok ((left + 2 : Nat) : Int) : Except ε Int) (left + 2) noAnswers x with
    | error e =>
      rw [hx'] at hfirst
      cases hfirst
    | ok w =>
      rw [hx'] at hfirst
      cases hfirst
      exact ⟨w.2, rfl⟩
  -- by induction on the rank
  have hdepth : ∀ (k : Nat) {a : α} {r : Int} {t' : Table α}, G.rank a = k → P a →
      G.run (.ok ((left + 2 : Nat) : Int) : Except ε Int) (left + 2) noAnswers a = .ok (r, t') →
        r = G.depth a := by
    intro k
    induction k using Nat.strongRecOn with
    | _ k ih =>
      intro a r t' hk ha hrun
      obtain ⟨hta, -⟩ | ⟨-, hleaf, -⟩ | ⟨-, hleaf, best, t₁, hloop, rfl, ht'⟩ :=
        run_succ_eq_ok hrun
      · cases hta
      · rw [depth_eq, hleaf]
      obtain ⟨hall, hbest⟩ := loop_answers (k := G.rank a) hP (succ_ne_zero left)
        (fun b hb => ⟨hP a ha hleaf b hb, G.rank_lt a b hb⟩) hloop
      rw [depth_eq, hleaf, hbest]
      simp only
      congr 1
      refine foldl_better_congr (fun b hb => ?_) none
      obtain ⟨n, hn⟩ := hall b hb
      have hlt := G.rank_lt a b hb
      have hn' : t' b = some n := by
        rw [ht', update_of_ne (by rintro rfl; exact Nat.lt_irrefl _ hlt), hn]
      obtain ⟨t'', hb'⟩ := hsame ha hrun b (hP a ha hleaf b hb) n hn'
      rw [hn, Option.getD_some]
      exact ih (G.rank b) (by omega) rfl (hP a ha hleaf b hb) hb'
  intro a r t' ha hrun
  refine ⟨hdepth _ rfl ha hrun, fun x hx v hv => ?_⟩
  obtain ⟨t'', hx'⟩ := hsame ha hrun x hx v hv
  exact hdepth _ rfl hx hx'

/-- **The answers do not depend on earlier questions** if and only if no question is cut off. -/
theorem answers_agree_iff (hP : G.Closed P) (hlimit : 2 ≤ limit) :
    G.AnswersAgree ε P limit ↔ G.Uncut P limit := by
  constructor
  · intro h
    have hlt : ∀ a, P a → G.depth a < limit := by
      refine depth_lt_limit (ε := ε) hP hlimit fun a ha r t' hrun => ?_
      exact (h.first hP hlimit ha hrun).2
    intro history
    induction history using reverseRecOn with
    | nil => exact fun _ => ⟨noAnswers, rfl⟩
    | append_singleton history a ih =>
      intro hhistory
      have hhist : ∀ b ∈ history, P b := fun b hb => hhistory b (mem_append_left _ hb)
      have ha : P a := hhistory a (mem_append_right _ (mem_singleton_self a))
      obtain ⟨t, ht⟩ := ih hhist
      obtain ⟨t₁, herr, hok, -⟩ :
          ∃ t, G.runs (.error () : Except Unit Int) limit noAnswers history = .ok t ∧
            G.runs (.ok (limit : Int) : Except ε Int) limit noAnswers history = .ok t ∧
            G.Right t := runs_uncut () ⟨t, ht⟩
      obtain ⟨left, rfl⟩ := Nat.exists_eq_add_of_le' hlimit
      obtain ⟨r, t', hrun⟩ := G.run_total (.ok ((left + 2 : Nat) : Int) : Except ε Int)
        (left + 2) t₁ a (.inl ⟨_, rfl⟩)
      obtain hsame | ⟨p, hp, -, hpt⟩ := run_cut_or (Int.natCast_nonneg _) () hP (left + 1) ha hrun
      · exact ⟨t', runs_concat_eq_ok.mpr ⟨t₁, r, herr, hsame⟩⟩
      -- the answer that is too large is a depth, too
      obtain ⟨t₂, n, t₃, hruns, hrun', hfirst⟩ := h (history ++ [a]) hhistory p hp
      obtain ⟨t₁', r', hok', hrun₁⟩ := runs_concat_eq_ok.mp hruns
      cases hok.symm.trans hok'
      cases hrun.symm.trans hrun₁
      rw [run_answered hpt] at hrun'
      cases hrun'
      obtain ⟨n, t₄, hp'⟩ := G.run_total (.ok ((left + 2 : Nat) : Int) : Except ε Int)
        (left + 2) noAnswers p (.inl ⟨_, rfl⟩)
      rw [hp'] at hfirst
      have hn : n = ((left + 2 : Nat) : Int) + 1 := Except.ok.inj hfirst
      have hdepth := (h.first hP hlimit hp hp').1
      have := hlt p hp
      omega
  · intro h history hhistory a ha
    obtain ⟨t, t', hruns, hrun, -⟩ := h.answer (ε := ε) hP hlimit hhistory ha
    obtain ⟨t₁, t₂, hnil, hfirst, -⟩ := h.answer (ε := ε) hP hlimit
      (fun b hb => absurd hb not_mem_nil) ha
    cases hnil
    exact ⟨t, G.depth a, t', hruns, hrun, by rw [hfirst]; rfl⟩

end Dag

end Fantom.Lib
