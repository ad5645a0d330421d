/-
  Fantom.Lib.KeyedMessages — Messages with keys, of which one for each key counts.

  Deduplication by a key, before anything else is looked at: of all messages with one key only the
  first goes through, whatever the others say.

  * `mem_firsts` — the first of each key.

  Stores that keep, for each key, the newest valid message: a message with a stamp no newer than the
  stored one is dropped before it is validated, any other one is validated and then replaces the
  stored one.

  * `offerAll_get` — what the store holds for a key after any sequence: a valid message of the
    sequence with the greatest stamp,
  * `offerAll_get_iff` — with one valid message per key and stamp, the final store does not depend
    on order, duplicates or invalid messages.
-/
import Fantom.Lib.StdMap
import Mathlib.Order.Lattice

namespace Fantom.Lib

open List

/-! ## The first one wins. -/

namespace FirstWins

variable {K V : Type} [DecidableEq K] (key : V → K)

/-- The messages whose key has not been seen, neither before nor earlier in the
list. -/
def firsts (seen : K → Bool) : List V → List V
  | [] => []
  | v :: vs =>
    if seen (key v) then firsts seen vs
    else v :: firsts (fun k => seen k || key v == k) vs

/-- A message goes through exactly when its key is new and it is the first
message with that key. -/
theorem mem_firsts {seen : K → Bool} {vs : List V} {v : V} :
    v ∈ firsts key seen vs ↔
      seen (key v) = false ∧ vs.find? (fun w => key w == key v) = some v := by
  induction vs generalizing seen with
  | nil => simp [firsts]
  | cons u vs ih =>
    rw [firsts, find?_cons]
    by_cases hk : key u = key v
    · rw [show (key u == key v) = true by simpa using hk]
      by_cases hs : seen (key u) = true
      · -- `u` is dropped, and `v` with it: their key is seen
        rw [if_pos hs, ih, ← hk, hs]
        simp
      · rw [if_neg hs, mem_cons, ih, ← hk]
        rw [Bool.not_eq_true] at hs
        rw [hs]
        simp [eq_comm]
    · rw [show (key u == key v) = false by simpa using hk]
      by_cases hs : seen (key u) = true
      · rw [if_pos hs, ih]
      · rw [if_neg hs, mem_cons, ih]
        have hne : v ≠ u := fun h => hk (by rw [h])
        simp [hk, hne]

end FirstWins

/-! ## The newest one wins. -/

namespace LatestWins

variable {K V T : Type} [Ord K] [Std.TransOrd K] [Std.LawfulEqOrd K] [DecidableEq K]
  [LinearOrder T] (key : V → K) (stamp : V → T) (valid : V → Bool)

variable (m : StdMap K V)

def offer (v : V) : StdMap K V :=
  if (m[key v]?).any (fun w => stamp v ≤ stamp w) then m
  else if valid v then m.insert (key v) v
  else m

variable (vs : List V)

def offerAll : StdMap K V :=
  vs.foldl (offer key stamp valid) m

/-- `v` is a newest valid message for `k` among `vs`. -/
def IsNewest (k : K) (v : V) : Prop :=
  v ∈ vs ∧ valid v = true ∧ key v = k ∧
    ∀ w ∈ vs, valid w = true → key w = k → stamp w ≤ stamp v

variable {key stamp valid}

theorem offer_get (v : V) (k : K) :
    (offer key stamp valid m v)[k]? =
      if key v = k ∧ valid v = true ∧ (∀ w, m[k]? = some w → stamp w < stamp v)
      then some v else m[k]? := by
  unfold offer
  by_cases hk : key v = k
  · subst hk
    cases hm : m[key v]? with
    | none =>
      cases hv : valid v with
      | true => simp
      | false => simp [hm]
    | some w =>
      by_cases hle : stamp v ≤ stamp w
      · simp [hle, hm, not_lt_of_ge hle]
      · cases hv : valid v with
        | true => simp [hle, lt_of_not_ge hle]
        | false => simp [hle, hm]
  · have hc : ¬ (key v = k ∧ valid v = true ∧
        ∀ w, m[k]? = some w → stamp w < stamp v) := fun h => hk h.1
    rw [if_neg hc]
    split
    · rfl
    · split
      · exact StdMap.get_insert_ne m v hk
      · rfl

variable (key stamp valid) in
/-- **The store after a sequence of messages.**  From the empty store, an entry
is a newest valid message for its key, and a key without an entry had no valid
message. -/
theorem offerAll_get (k : K) :
    (∀ v, (offerAll key stamp valid ∅ vs)[k]? = some v → IsNewest key stamp valid vs k v) ∧
    ((offerAll key stamp valid ∅ vs)[k]? = none → ∀ w ∈ vs, valid w = true → key w ≠ k) := by
  -- induction on the sequence from its end: one more message is one `offer`
  induction vs using reverseRecOn with
  | nil => simp [offerAll]
  | append_singleton vs u ih =>
    obtain ⟨ihs, ihn⟩ := ih
    have hstep : offerAll key stamp valid ∅ (vs ++ [u]) =
        offer key stamp valid (offerAll key stamp valid ∅ vs) u := by
      rw [offerAll, foldl_append]
      rfl
    rw [hstep, offer_get]
    by_cases hc : key u = k ∧ valid u = true ∧
        ∀ w, (offerAll key stamp valid ∅ vs)[k]? = some w → stamp w < stamp u
    · rw [if_pos hc]
      obtain ⟨hk, hv, hlt⟩ := hc
      refine ⟨?_, nofun⟩
      rintro v ⟨rfl⟩
      refine ⟨by simp, hv, hk, ?_⟩
      intro w hw hwv hwk
      rcases mem_append.mp hw with hw | hw
      · -- an older message: it is no newer than the entry it met
        cases he : (offerAll key stamp valid ∅ vs)[k]? with
        | none => exact absurd hwk (ihn he w hw hwv)
        | some x => exact le_of_lt (lt_of_le_of_lt ((ihs x he).2.2.2 w hw hwv hwk) (hlt x he))
      · rw [mem_singleton.mp hw]
    · rw [if_neg hc]
      constructor
      · intro v he
        obtain ⟨hmem, hv, hk, hmax⟩ := ihs v he
        refine ⟨mem_append_left _ hmem, hv, hk, ?_⟩
        intro w hw hwv hwk
        rcases mem_append.mp hw with hw | hw
        · exact hmax w hw hwv hwk
        · -- the new message was dropped, so it is no newer than the entry
          obtain rfl := mem_singleton.mp hw
          apply le_of_not_gt
          intro hlt
          refine hc ⟨hwk, hwv, ?_⟩
          intro x hx
          rw [he] at hx
          cases hx
          exact hlt
      · intro he w hw hwv hwk
        rcases mem_append.mp hw with hw | hw
        · exact ihn he w hw hwv hwk
        · obtain rfl := mem_singleton.mp hw
          refine hc ⟨hwk, hwv, ?_⟩
          intro x hx
          rw [he] at hx
          cases hx

def Unambiguous (key : V → K) (stamp : V → T) (valid : V → Bool) (vs : List V) : Prop :=
  ∀ v ∈ vs, ∀ w ∈ vs, valid v = true → valid w = true →
    key v = key w → stamp v = stamp w → v = w

/-- **Convergence.**  With one valid message per key and stamp, the entry of a
key is the one newest valid message for it, and there is an entry as soon as
there is a valid message. -/
theorem offerAll_get_iff {vs : List V} (hu : Unambiguous key stamp valid vs) (k : K) (v : V) :
    (offerAll key stamp valid ∅ vs)[k]? = some v ↔ IsNewest key stamp valid vs k v := by
  obtain ⟨hs, hn⟩ := offerAll_get key stamp valid vs k
  refine ⟨hs v, ?_⟩
  rintro ⟨hmem, hv, hk, hmax⟩
  cases he : (offerAll key stamp valid ∅ vs)[k]? with
  | none => exact absurd hk (hn he v hmem hv)
  | some x =>
    obtain ⟨hxm, hxv, hxk, hxmax⟩ := hs x he
    rw [hu x hxm v hmem hxv hv (hxk.trans hk.symm)
      (le_antisymm (hmax x hxm hxv hxk) (hxmax v hmem hv hk))]

end LatestWins

end Fantom.Lib
