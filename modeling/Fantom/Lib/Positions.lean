/-
  Fantom.Lib.Positions — A list without repetitions whose members know their positions.

  * `push`, `swap`, `pop` — the changes that a list in random order sees.
-/
import Mathlib.Data.List.Nodup
import Mathlib.Logic.Function.Basic
import Mathlib.Tactic.Common

namespace Fantom.Lib

open Function Option Int

universe u

variable {α : Type u} (l : List α)

/-- The element at `n`, when `n` is a position. -/
def nth (n : Int) : Option α := if 0 ≤ n then l[n.toNat]? else none

@[simp] theorem nth_natCast (i : Nat) : nth l (i : Int) = l[i]? := by
  rw [nth, if_pos (natCast_nonneg i), toNat_natCast]

@[simp] theorem nth_nil (n : Int) : nth ([] : List α) n = none := by
  rw [nth]
  split <;> rfl

theorem nth_concat (a : α) (n : Int) :
    nth (l ++ [a]) n = if n = l.length then some a else nth l n := by
  by_cases hn : 0 ≤ n
  · obtain ⟨i, rfl⟩ := eq_ofNat_of_zero_le hn
    rw [nth_natCast, nth_natCast]
    split
    · rename_i hi
      obtain rfl := Int.ofNat.inj hi
      rw [List.getElem?_concat_length]
    · rename_i hi
      have hne : i ≠ l.length := fun h => hi (congrArg Nat.cast h)
      by_cases hlt : i < l.length
      · rw [List.getElem?_append_left hlt]
      · have hlen : (l ++ [a]).length ≤ i := by
          rw [List.length_append, List.length_singleton]
          omega
        rw [List.getElem?_eq_none hlen, List.getElem?_eq_none (by omega)]
  · rw [nth, if_neg hn, nth, if_neg hn, if_neg (by omega)]

theorem nth_eq_some {l : List α} {a : α} {n : Int} (h : nth l n = some a) :
    ∃ i : Nat, n = i ∧ l[i]? = some a ∧ i < l.length := by
  unfold nth at h
  split at h
  · rename_i hn
    obtain ⟨i, rfl⟩ := eq_ofNat_of_zero_le hn
    rw [toNat_natCast] at h
    exact ⟨i, rfl, h, (List.getElem?_eq_some_iff.mp h).1⟩
  · cases h

theorem nth_append_left {l l' : List α} {n : Int} (h : n < l.length) :
    nth (l ++ l') n = nth l n := by
  unfold nth
  split
  · exact List.getElem?_append_left (by omega)
  · rfl

/-- `pos` gives every member its position, and nothing else a position. -/
def Positions (pos : α → Option Int) : Prop :=
  ∀ a p, pos a = some p ↔ 0 ≤ p ∧ l[p.toNat]? = some a

namespace Positions

variable {l : List α} {pos : α → Option Int}

theorem get {a : α} {p : Int} (h : Positions l pos) (ha : pos a = some p) :
    0 ≤ p ∧ p < l.length ∧ l[p.toNat]? = some a := by
  obtain ⟨hp, hget⟩ := (h a p).mp ha
  have hlt := (List.getElem?_eq_some_iff.mp hget).1
  exact ⟨hp, by omega, hget⟩

theorem of_get {a : α} {i : Nat} (h : Positions l pos) (hi : l[i]? = some a) :
    pos a = some (i : Int) :=
  (h a i).mpr ⟨by omega, by simpa using hi⟩

theorem mem_iff (h : Positions l pos) {a : α} : a ∈ l ↔ pos a ≠ none := by
  constructor
  · intro ha
    obtain ⟨i, hi⟩ := List.getElem?_of_mem ha
    rw [h.of_get hi]
    exact some_ne_none _
  · intro ha
    obtain ⟨p, hp⟩ := ne_none_iff_exists'.mp ha
    exact List.mem_of_getElem? (h.get hp).2.2

theorem nodup (h : Positions l pos) : l.Nodup := by
  rw [List.nodup_iff_getElem?_ne_getElem?]
  intro i j hij hj heq
  have hi : i < l.length := by omega
  have hget : l[i]? = some l[i] := List.getElem?_eq_getElem hi
  have hpos := (h.of_get hget).symm.trans (h.of_get (heq.symm.trans hget))
  have := Option.some.inj hpos
  omega

theorem empty : Positions ([] : List α) fun _ => none := by
  intro a p
  simp

variable [DecidableEq α]

theorem push (h : Positions l pos) {a : α} (ha : pos a = none) :
    Positions (l ++ [a]) (update pos a (some (l.length : Int))) := by
  intro b p
  by_cases hb : b = a
  · subst hb
    rw [update_self, some_inj]
    constructor
    · rintro rfl
      refine ⟨by omega, ?_⟩
      rw [toNat_natCast, List.getElem?_concat_length]
    · rintro ⟨hp, hget⟩
      by_cases hlt : p.toNat < l.length
      · rw [List.getElem?_append_left hlt] at hget
        have hpos := (h b p).mpr ⟨hp, hget⟩
        rw [ha] at hpos
        cases hpos
      · have hle := (List.getElem?_eq_some_iff.mp hget).1
        rw [List.length_append, List.length_singleton] at hle
        omega
  · rw [update_of_ne hb, h b p]
    by_cases hlt : p.toNat < l.length
    · rw [List.getElem?_append_left hlt]
    · have hnone : l[p.toNat]? = none := List.getElem?_eq_none (Nat.not_lt.mp hlt)
      rw [hnone, List.getElem?_append_right (Nat.not_lt.mp hlt)]
      constructor
      · rintro ⟨-, hget⟩
        cases hget
      · rintro ⟨-, hget⟩
        have hmem := List.mem_of_getElem? hget
        rw [List.mem_singleton] at hmem
        exact absurd hmem hb

theorem swap (h : Positions l pos) {a b : α} {p q : Int} (ha : pos a = some p)
    (hb : pos b = some q) (hpq : p ≠ q) :
    Positions ((l.set p.toNat b).set q.toNat a)
      (update (update pos a (some q)) b (some p)) := by
  obtain ⟨hp, hpl, hpa⟩ := h.get ha
  obtain ⟨hq, hql, hqb⟩ := h.get hb
  have hab : a ≠ b := by
    rintro rfl
    rw [ha] at hb
    exact hpq (Option.some.inj hb)
  have hne : p.toNat ≠ q.toNat := by omega
  have hget : ∀ i : Nat, ((l.set p.toNat b).set q.toNat a)[i]? =
      if i = q.toNat then some a else if i = p.toNat then some b else l[i]? := by
    intro i
    rw [List.getElem?_set, List.length_set, List.getElem?_set]
    by_cases hiq : q.toNat = i
    · rw [if_pos hiq, if_pos hiq.symm, if_pos (by omega)]
    · rw [if_neg hiq, if_neg (Ne.symm hiq)]
      by_cases hip : p.toNat = i
      · rw [if_pos hip, if_pos hip.symm, if_pos (by omega)]
      · rw [if_neg hip, if_neg (Ne.symm hip)]
  intro c r
  rw [hget]
  by_cases hcb : c = b
  · subst hcb
    rw [update_self, some_inj]
    constructor
    · rintro rfl
      rw [if_neg hne, if_pos rfl]
      exact ⟨hp, rfl⟩
    · rintro ⟨hr, hrget⟩
      split at hrget
      · exact absurd (Option.some.inj hrget) hab
      · split at hrget
        · omega
        · have := Option.some.inj (hb.symm.trans ((h c r).mpr ⟨hr, hrget⟩))
          omega
  · rw [update_of_ne hcb]
    by_cases hca : c = a
    · subst hca
      rw [update_self, some_inj]
      constructor
      · rintro rfl
        rw [if_pos rfl]
        exact ⟨hq, rfl⟩
      · rintro ⟨hr, hrget⟩
        split at hrget
        · omega
        · split at hrget
          · exact absurd (Option.some.inj hrget).symm hcb
          · have := Option.some.inj (ha.symm.trans ((h c r).mpr ⟨hr, hrget⟩))
            omega
    · rw [update_of_ne hca]
      constructor
      · intro hc
        obtain ⟨hr, hrl, hrget⟩ := h.get hc
        refine ⟨hr, ?_⟩
        rw [if_neg, if_neg]
        · exact hrget
        · intro heq
          rw [heq, hpa] at hrget
          exact hca (Option.some.inj hrget).symm
        · intro heq
          rw [heq, hqb] at hrget
          exact hcb (Option.some.inj hrget).symm
      · rintro ⟨hr, hrget⟩
        split at hrget
        · exact absurd (Option.some.inj hrget).symm hca
        · split at hrget
          · exact absurd (Option.some.inj hrget).symm hcb
          · exact (h c r).mpr ⟨hr, hrget⟩

theorem pop (h : Positions l pos) {a : α} (ha : pos a = some ((l.length : Int) - 1)) :
    Positions l.dropLast (update pos a none) := by
  obtain ⟨hlast, -, hget⟩ := h.get ha
  intro b p
  rw [List.getElem?_dropLast]
  by_cases hb : b = a
  · subst hb
    rw [update_self]
    constructor
    · nofun
    · rintro ⟨hp, hpget⟩
      split at hpget
      · have := Option.some.inj (ha.symm.trans ((h b p).mpr ⟨hp, hpget⟩))
        omega
      · cases hpget
  · rw [update_of_ne hb, h b p]
    constructor
    · rintro ⟨hp, hpget⟩
      refine ⟨hp, ?_⟩
      rw [if_pos, hpget]
      by_contra hge
      have hlt := (List.getElem?_eq_some_iff.mp hpget).1
      have heq : p.toNat = ((l.length : Int) - 1).toNat := by omega
      rw [heq, hget] at hpget
      exact hb (Option.some.inj hpget).symm
    · rintro ⟨hp, hpget⟩
      split at hpget
      · exact ⟨hp, hpget⟩
      · cases hpget

end Positions

end Fantom.Lib
