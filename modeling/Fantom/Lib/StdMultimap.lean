/-
  Fantom.Lib.StdMultimap — `std::multimap` as its entries in the order of iteration, and walks along
  its entries.

  * `insert_perm`, `perm_equalRange`, `perm_eraseIdx` — an operation adds or takes away just the
    entries it names,
  * `follow` — going from position to position until there is no next one; `follow_ends`, it does
    when positions are never visited again.
-/
import Mathlib.Data.List.Perm.Basic
import Mathlib.Tactic.Common

namespace Fantom.Lib

open List

universe u v

/-- `std::multimap<K, V>`. -/
abbrev StdMultimap (K : Type u) (V : Type v) : Type (max u v) := List (K × V)

namespace StdMultimap

variable {K : Type u} {V : Type v}

/-! ## §1. Operations. -/

variable (m : StdMultimap K V) (k : K)

/-- `insert`: behind the entries of the same key. -/
def insert [LE K] [DecidableLE K] (v : V) : StdMultimap K V :=
  m.takeWhile (fun e => decide (e.1 ≤ k)) ++ (k, v) :: m.dropWhile (fun e => decide (e.1 ≤ k))

variable [DecidableEq K]

/-- `find`, the position of the first entry of the key. -/
def find : Option Nat := m.findIdx? fun e => e.1 == k

/-- `count`, as a condition. -/
def contains : Bool := m.any fun e => e.1 == k

/-- The values from `lower_bound` to `upper_bound`. -/
def equalRange : List V :=
  (m.filter fun e => e.1 == k).map Prod.snd

/-- `erase(k)`. -/
def eraseKey : StdMultimap K V := m.filter fun e => e.1 != k

omit [DecidableEq K] in
theorem insert_perm [LE K] [DecidableLE K] (v : V) : (m.insert k v).Perm ((k, v) :: m) := by
  unfold insert
  refine perm_middle.trans ?_
  rw [takeWhile_append_dropWhile]

theorem contains_iff {m : StdMultimap K V} {k : K} :
    m.contains k = true ↔ ∃ v, (k, v) ∈ m := by
  rw [contains, any_eq_true]
  constructor
  · rintro ⟨⟨k', v⟩, hmem, hk⟩
    obtain rfl : k' = k := eq_of_beq hk
    exact ⟨v, hmem⟩
  · rintro ⟨v, hmem⟩
    exact ⟨(k, v), hmem, beq_self_eq_true k⟩

theorem perm_equalRange : m.Perm ((m.equalRange k).map (fun v => (k, v)) ++ m.eraseKey k) := by
  have hrange : (m.equalRange k).map (fun v => (k, v)) = m.filter fun e => e.1 == k := by
    rw [equalRange, map_map]
    refine (map_congr_left fun e he => ?_).trans (map_id _)
    have hk : e.1 = k := eq_of_beq (mem_filter.mp he).2
    exact Prod.ext hk.symm rfl
  rw [hrange]
  exact (filter_append_perm (fun e => e.1 == k) m).symm

omit [DecidableEq K] in
theorem perm_eraseIdx {m : StdMultimap K V} {it : Nat} {e : K × V} (h : m[it]? = some e) :
    m.Perm (e :: m.eraseIdx it) := by
  obtain ⟨hlt, rfl⟩ := List.getElem?_eq_some_iff.mp h
  exact (getElem_cons_eraseIdx_perm hlt).symm

theorem find_eq_none {m : StdMultimap K V} {k : K} (h : m.find k = none) :
    ∀ v, (k, v) ∉ m := by
  intro v hmem
  have hno := List.findIdx?_eq_none_iff.mp h (k, v) hmem
  rw [beq_self_eq_true] at hno
  cases hno

theorem find_eq_some {m : StdMultimap K V} {k : K} {it : Nat} (h : m.find k = some it) :
    ∃ v, m[it]? = some (k, v) := by
  obtain ⟨hlt, hk, _⟩ := List.findIdx?_eq_some_iff_getElem.mp h
  refine ⟨m[it].2, ?_⟩
  rw [List.getElem?_eq_getElem hlt]
  exact congrArg some (Prod.ext (eq_of_beq hk) rfl)

end StdMultimap

/-! ## §2. Walks. -/

variable {α : Type u} {ε : Type v}

/-- `while (there is a next one) a = next(a);`, for at most so many rounds. -/
def follow (next : α → Except ε (Option α)) (endless : ε) : Nat → α → Except ε α
  | 0, _ => .error endless
  | rounds + 1, a =>
    match next a with
    | .error e => .error e
    | .ok none => .ok a
    | .ok (some b) => follow next endless rounds b

/-- **A walk that never comes back ends**: every step goes further in a strict
order, so there are no more rounds than places. -/
theorem follow_ends (next : α → Except ε (Option α)) (endless : ε) (further : α → α → Prop)
    [DecidableRel further] (hirrefl : ∀ a, ¬further a a)
    (htrans : ∀ a b c, further a b → further b c → further a c) (places : List α)
    (hnext : ∀ a ∈ places, ∃ o, next a = .ok o ∧ ∀ b, o = some b → b ∈ places ∧ further a b)
    {a : α} (ha : a ∈ places) {rounds : Nat} (hrounds : places.length ≤ rounds) :
    ∃ b ∈ places, follow next endless rounds a = .ok b ∧ next b = .ok none := by
  have hcount (a : α) (ha : a ∈ places) : places.countP (further a ·) < places.length := by
    refine Nat.lt_of_le_of_ne countP_le_length fun heq => ?_
    have hall := countP_eq_length.mp heq a ha
    exact hirrefl a (of_decide_eq_true hall)
  -- induction on the rounds left, which are more than the places further on
  suffices key : ∀ rounds a, a ∈ places → places.countP (further a ·) < rounds →
      ∃ b ∈ places, follow next endless rounds a = .ok b ∧ next b = .ok none from
    key rounds a ha (Nat.lt_of_lt_of_le (hcount a ha) hrounds)
  clear hrounds
  intro rounds
  induction rounds with
  | zero => intro a _ h; exact absurd h (Nat.not_lt_zero _)
  | succ rounds ih =>
    intro a ha hrounds
    obtain ⟨o, ho, hfurther⟩ := hnext a ha
    unfold follow
    cases o with
    | none => exact ⟨a, ha, by rw [ho], ho⟩
    | some b =>
      obtain ⟨hb, hab⟩ := hfurther b rfl
      have hless : places.countP (further b ·) < places.countP (further a ·) := by
        obtain ⟨s, t, rfl⟩ := append_of_mem hb
        have hmono (l : List α) : l.countP (further b ·) ≤ l.countP (further a ·) :=
          countP_mono_left fun c _ hbc => by
            exact decide_eq_true (htrans a b c hab (of_decide_eq_true hbc))
        rw [countP_append, countP_append, countP_cons, countP_cons,
          if_neg (by simpa using hirrefl b), if_pos (by simpa using hab)]
        have hs := hmono s
        have ht := hmono t
        omega
      rw [ho]
      exact ih b hb (by omega)

end Fantom.Lib
