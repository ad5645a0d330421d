/-
  Fantom.Lib.Cached — What is kept so as not to be computed again.

  Computations that may fail and that look facts up in a store of what was verified before:

  * `VerifiedSet`, `ask` — the store, every entry of it verified, and the question whether a fact
    holds,
  * `Covers` — one computation gives every result of another, whatever is in the stores of the two.

  A store only saves work: what a computation answers does not depend on it.

  Answers kept in a map: a question that has been answered once is answered from the map from then
  on.  What a good answer is may change while the map stays as it is.

  * `Memo.ask` — one question,
  * `Memo.Holds` — every kept answer is a good one,
  * `Memo.ask_good_iff` — the answers given are good exactly when the kept ones are.
-/
import Fantom.Lib.StdMap
import Mathlib.Tactic.Common

namespace Fantom.Lib

/-! ## Facts that were verified. -/

section Stores

/-! ## §1. Computations. -/

/-- A computation on a store `σ`.  One that fails leaves its store all the
same. -/
def Cached (σ α : Type) : Type := σ → Option α × σ

namespace Cached

variable {σ α β κ : Type}

def ok (a : α) : Cached σ α := fun s => (some a, s)

def fail : Cached σ α := fun s => (none, s)

def ofOption (x : Option α) : Cached σ α := fun s => (x, s)

/-- `y` on the result of `x`, if there is one. -/
def bind (x : Cached σ α) (y : α → Cached σ β) : Cached σ β := fun s =>
  match x s with
  | (none, s) => (none, s)
  | (some a, s) => y a s

def attempt (x : Cached σ α) : Cached σ (Option α) := fun s => (some (x s).1, (x s).2)

theorem bind_fst_eq_some {x : Cached σ α} {y : α → Cached σ β} {s : σ} {b : β} :
    (bind x y s).1 = some b ↔ ∃ a, (x s).1 = some a ∧ (y a (x s).2).1 = some b := by
  unfold bind
  rcases hx : x s with ⟨_ | a, s'⟩ <;> simp

theorem bind_of_some {x : Cached σ α} {y : α → Cached σ β} {s : σ} {a : α}
    (h : (x s).1 = some a) : bind x y s = y a (x s).2 := by
  unfold bind
  rcases hx : x s with ⟨_ | a', s'⟩
  · rw [hx] at h
    cases h
  · rw [hx] at h
    cases h
    rfl

theorem bind_of_none {x : Cached σ α} {y : α → Cached σ β} {s : σ} (h : (x s).1 = none) :
    (bind x y s).1 = none := by
  unfold bind
  rcases hx : x s with ⟨_ | a', s'⟩
  · rfl
  · rw [hx] at h
    cases h

/-! ## §2. Covering. -/

/-- Every result of `x` is one of `y`, whatever the two stores. -/
def Covers (x y : Cached σ α) : Prop := ∀ s s' a, (x s).1 = some a → (y s').1 = some a

theorem covers_ok (a : α) : Covers (ok a : Cached σ α) (ok a) := fun _ _ _ h => h

theorem covers_fail (y : Cached σ α) : Covers fail y := fun _ _ _ h => nomatch h

theorem covers_ofOption {x y : Option α} (h : ∀ a, x = some a → y = some a) :
    Covers (ofOption x : Cached σ α) (ofOption y) := fun _ _ a hx => h a hx

theorem covers_bind {x x' : Cached σ α} {y y' : α → Cached σ β} (hx : Covers x x')
    (hy : ∀ a, Covers (y a) (y' a)) : Covers (bind x y) (bind x' y') := by
  intro s s' b h
  obtain ⟨a, ha, hb⟩ := bind_fst_eq_some.mp h
  exact bind_fst_eq_some.mpr ⟨a, hx s s' a ha, hy a _ _ b hb⟩

theorem covers_guard {p q : Prop} [Decidable p] [Decidable q] {x y : Cached σ α} (hpq : q → p)
    (h : Covers x y) : Covers (if p then fail else x) (if q then fail else y) := by
  by_cases hp : p
  · rw [if_pos hp]
    exact covers_fail _
  · rw [if_neg hp, if_neg (fun hq => hp (hpq hq))]
    exact h

theorem covers_ite {p : Prop} [Decidable p] {x x' y y' : Cached σ α} (hx : Covers x x')
    (hy : Covers y y') : Covers (if p then x else y) (if p then x' else y') := by
  split
  · exact hx
  · exact hy

theorem Covers.fst_eq {x : Cached σ α} (h : Covers x x) (s s' : σ) : (x s).1 = (x s').1 := by
  cases hs : (x s).1 with
  | some a => exact (h s s' a hs).symm
  | none =>
    cases hs' : (x s').1 with
    | some a => rw [h s' s a hs'] at hs; cases hs
    | none => rfl

/-! ## §3. Verified facts. -/

/-- What makes room in a store: it only ever drops entries.  Which ones may
differ from one call to the next, and the calls are numbered. -/
abbrev Evictor (κ : Type) := { evict : Nat → List κ → List κ // ∀ n l, evict n l ⊆ l }

/-- Facts that were found to hold. -/
structure VerifiedSet {κ : Type} (holds : κ → Bool) where
  entries : List κ
  nSet : Nat
  verified : ∀ k ∈ entries, holds k = true

variable {holds : κ → Bool}

def VerifiedSet.empty : VerifiedSet holds := ⟨[], 0, by simp⟩

variable (evictor : Evictor κ)

/-- A fact is added, after the evictor has made room. -/
def VerifiedSet.set (store : VerifiedSet holds) (k : κ)
    (h : holds k = true) : VerifiedSet holds where
  entries := k :: evictor.val store.nSet store.entries
  nSet := store.nSet + 1
  verified := by
    intro a ha
    rcases List.mem_cons.mp ha with rfl | ha
    · exact h
    · exact store.verified a (evictor.property _ _ ha)

/-- Whether `k` holds: from the store if it is there, else it is verified, and
added when `fStore` says so. -/
def ask [DecidableEq κ] (fStore : Bool) (k : κ) : Cached (VerifiedSet holds) Bool := fun store =>
  if k ∈ store.entries then (some true, store)
  else if h : holds k = true then
    (some true, if fStore then store.set evictor k h else store)
  else (some false, store)

/-- **The answer does not depend on the store.** -/
theorem ask_fst [DecidableEq κ] (fStore : Bool) (k : κ) (store : VerifiedSet holds) :
    (ask evictor fStore k store).1 = some (holds k) := by
  unfold ask
  split
  next hk => rw [store.verified k hk]
  next hk =>
    split
    next h => rw [h]
    next h => rw [Bool.eq_false_iff.mpr h]

theorem covers_ask [DecidableEq κ] (fStore fStore' : Bool) (k : κ) :
    Covers (ask evictor fStore k : Cached (VerifiedSet holds) Bool) (ask evictor fStore' k) := by
  intro s s' a h
  rw [ask_fst] at h ⊢
  exact h

end Cached

end Stores

/-! ## Answers that may change. -/

namespace Memo

variable {K V : Type} [Ord K] [Std.TransOrd K] [Std.LawfulEqOrd K] [DecidableEq K]

/-- The answer to `k`, which is `answer` when none is kept. -/
def ask (memo : StdMap K V) (k : K) (answer : Option V) : Option V × StdMap K V :=
  match memo[k]? with
  | some v => (some v, memo)
  | none =>
    match answer with
    | some v => (some v, memo.insert k v)
    | none => (none, memo)

def Holds (good : K → V → Prop) (memo : StdMap K V) : Prop :=
  ∀ (k : K) (v : V), memo[k]? = some v → good k v

variable {good : K → V → Prop} {memo : StdMap K V} {f : K → Option V}

omit [Std.LawfulEqOrd K] [DecidableEq K] in
theorem holds_empty : Holds good (∅ : StdMap K V) := by
  intro k v h
  rw [StdMap.get_empty] at h
  cases h

omit [Std.LawfulEqOrd K] [DecidableEq K] in
theorem ask_fst (memo : StdMap K V) (k : K) (answer : Option V) :
    (ask memo k answer).1 = (memo[k]?).or answer := by
  unfold ask
  cases memo[k]? with
  | some v => rfl
  | none => cases answer <;> rfl

theorem ask_snd (memo : StdMap K V) (k : K) (answer : Option V) (a : K) :
    (ask memo k answer).2[a]? = (memo[a]?).or (if k = a then answer else none) := by
  unfold ask
  cases hk : memo[k]? with
  | some v =>
    dsimp only
    split
    next h => rw [← h, hk]; rfl
    next => simp
  | none =>
    cases answer with
    | none => simp
    | some v =>
      dsimp only
      rw [StdMap.get_insert]
      split
      next h => rw [← h, hk]; rfl
      next => simp

theorem ask_stable (memo : StdMap K V) (f : K → Option V) (k a : K) :
    (ask (ask memo k (f k)).2 a (f a)).1 = (ask memo a (f a)).1 := by
  rw [ask_fst, ask_fst, ask_snd, Option.or_assoc]
  split
  next hk => rw [hk, Option.or_self]
  next => rw [Option.none_or]

theorem Holds.ask (h : Holds good memo) {k : K} {answer : Option V}
    (ha : ∀ v, answer = some v → good k v) : Holds good (ask memo k answer).2 := by
  intro a v hv
  rw [ask_snd, Option.or_eq_some_iff] at hv
  rcases hv with hv | ⟨_, hv⟩
  · exact h a v hv
  · split at hv
    next hk => exact hk ▸ ha v hv
    next => cases hv

omit [Std.LawfulEqOrd K] [DecidableEq K] in
/-- **Answers from the map.**  Where the answers worked out are good, the
answers given are good exactly when the kept ones are. -/
theorem ask_good_iff (hf : ∀ k v, f k = some v → good k v) :
    (∀ k v, (Memo.ask memo k (f k)).1 = some v → good k v) ↔ Holds good memo := by
  constructor
  · intro h k v hv
    apply h k v
    rw [ask_fst, hv]
    rfl
  · intro h k v hv
    rw [ask_fst, Option.or_eq_some_iff] at hv
    rcases hv with hv | ⟨_, hv⟩
    · exact h k v hv
    · exact hf k v hv

end Memo

end Fantom.Lib
