/-
  Fantom.Lib.StdVector — `std::vector` of elements whose copies may differ from them.

  * `StdVector` — elements and capacity,
  * `pushBack` — an element is added, and the others are copied where there is no room,
  * `clear`, `resize` — the elements go, or new ones come behind them,
  * `erase` — one element is erased, and what is behind it is moved forward,
  * `eraseAll` — the loop that erases every element with a property; each erasure assigns what is
    behind one place forward,
  * `eraseAll_eq_filter_iff` — when the elements that stay are the ones that were there.

  Copies are made at different times: `now e i` is for the element that stood at place `i` and is
  moved by the `e`-th erasure.
-/
import Mathlib.Data.List.Basic
import Mathlib.Tactic.Common

namespace Fantom.Lib

open List

universe u

/-- `std::vector<T>`. -/
structure StdVector (α : Type u) where
  elems : List α
  capacity : Nat
  size_le : elems.length ≤ capacity

namespace StdVector

variable {α : Type u}

/-! ## §1. `push_back`. -/

/-- `v.push_back(a)`.  Without room, the elements are copied into a new buffer, of a
capacity that the library chooses. -/
def pushBack (newCapacity : Nat → Nat) (copy : Nat → α → α) (a : α) (v : StdVector α) :
    StdVector α :=
  if h : v.elems.length < v.capacity then
    ⟨v.elems ++ [copy v.elems.length a], v.capacity, by
      rw [length_append, length_singleton]
      exact h⟩
  else
    ⟨v.elems.mapIdx copy ++ [copy v.elems.length a],
      max (v.elems.length + 1) (newCapacity v.elems.length), by
        rw [length_append, length_mapIdx, length_singleton]
        exact Nat.le_max_left _ _⟩

/-- Elements that are copied one by one are kept exactly where each is equal to its copy. -/
theorem mapIdx_eq_self_iff (copy : Nat → α → α) (l : List α) :
    l.mapIdx copy = l ↔ ∀ i a, l[i]? = some a → copy i a = a := by
  rw [List.ext_getElem?_iff]
  constructor
  · intro heq i a ha
    have hi := heq i
    rw [List.getElem?_mapIdx, ha] at hi
    exact Option.some.inj hi
  · intro hcopy i
    rw [List.getElem?_mapIdx]
    cases ha : l[i]? with
    | none => rfl
    | some a => exact congrArg some (hcopy i a ha)

/-- The elements that were there are kept exactly where there is room or their copies are equal
to them. -/
theorem pushBack_take_iff (newCapacity : Nat → Nat) (copy : Nat → α → α) (a : α)
    (v : StdVector α) :
    (v.pushBack newCapacity copy a).elems.take v.elems.length = v.elems ↔
      v.elems.length < v.capacity ∨ ∀ i b, v.elems[i]? = some b → copy i b = b := by
  unfold pushBack
  by_cases h : v.elems.length < v.capacity
  · rw [dif_pos h]
    exact iff_of_true take_left (.inl h)
  · have hlen : v.elems.length = (v.elems.mapIdx copy).length := length_mapIdx.symm
    rw [dif_neg h]
    dsimp only
    rw [hlen, take_left, ← hlen, mapIdx_eq_self_iff, or_iff_right h]

/-! ## §2. `clear` and `resize`. -/

/-- `v.clear()`, which keeps the buffer. -/
def clear (v : StdVector α) : StdVector α := ⟨[], v.capacity, Nat.zero_le _⟩

/-- The elements that are constructed for the places from `i` up to `n`. -/
def constructed (new : Nat → α) (i n : Nat) : List α := (List.range' i (n - i)).map new

theorem length_constructed (new : Nat → α) (i n : Nat) : (constructed new i n).length = n - i := by
  rw [constructed, length_map, length_range']

theorem length_append_constructed (new : Nat → α) {l : List α} {n : Nat} (h : l.length ≤ n) :
    (l ++ constructed new l.length n).length = n := by
  rw [length_append, length_constructed]
  omega

/-- `v.resize(n)`.  New elements are constructed behind the others, which are copied into a new
buffer where there is no room. -/
def resize (newCapacity : Nat → Nat) (copy : Nat → α → α) (new : Nat → α) (n : Nat)
    (v : StdVector α) : StdVector α :=
  if hlen : n ≤ v.elems.length then
    ⟨v.elems.take n, v.capacity, Nat.le_trans (length_take_le' n v.elems) v.size_le⟩
  else if hroom : n ≤ v.capacity then
    ⟨v.elems ++ constructed new v.elems.length n, v.capacity, by
      rw [length_append_constructed new (Nat.le_of_not_le hlen)]
      exact hroom⟩
  else
    ⟨v.elems.mapIdx copy ++ constructed new v.elems.length n, max n (newCapacity n), by
      have hall := length_append_constructed new (Nat.le_of_not_le hlen)
      rw [length_append] at hall ⊢
      rw [length_mapIdx, hall]
      exact Nat.le_max_left _ _⟩

section Resize

variable {newCapacity : Nat → Nat} {copy : Nat → α → α} {new : Nat → α} {n : Nat} {v : StdVector α}

theorem length_resize (hlen : v.elems.length ≤ n) :
    (v.resize newCapacity copy new n).elems.length = n := by
  have hall := length_append_constructed new hlen
  unfold resize
  split
  next h => rw [length_take_of_le h]
  next h =>
    split
    · exact hall
    · rw [length_append] at hall ⊢
      rw [length_mapIdx, hall]

theorem capacity_le_resize : v.capacity ≤ (v.resize newCapacity copy new n).capacity := by
  unfold resize
  split
  · exact Nat.le_refl _
  · split
    · exact Nat.le_refl _
    next hfull => exact Nat.le_trans (Nat.le_of_not_le hfull) (Nat.le_max_left _ _)

theorem resize_of_room (hlen : v.elems.length < n) (h : n ≤ v.capacity ∨ v.elems = []) :
    (v.resize newCapacity copy new n).elems = v.elems ++ constructed new v.elems.length n := by
  rw [resize, dif_neg (Nat.not_le.mpr hlen)]
  split
  · rfl
  next hfull =>
    have hnone : v.elems.mapIdx copy = v.elems := by
      rw [h.resolve_left hfull, mapIdx_nil]
    dsimp only
    rw [hnone]

theorem resize_of_full (hlen : v.elems.length < n) (h : v.capacity < n) :
    (v.resize newCapacity copy new n).elems =
      v.elems.mapIdx copy ++ constructed new v.elems.length n := by
  rw [resize, dif_neg (Nat.not_le.mpr hlen), dif_neg (Nat.not_le.mpr h)]

theorem capacity_resize_of_full (hlen : v.elems.length < n) (h : v.capacity < n) :
    (v.resize newCapacity copy new n).capacity = max n (newCapacity n) := by
  rw [resize, dif_neg (Nat.not_le.mpr hlen), dif_neg (Nat.not_le.mpr h)]

end Resize

/-! ## §3. Erasing in a loop. -/

variable (gone : α → Bool) (assign : Nat → Nat → α → α → α)

/-- The elements behind an erased one, each assigned to the place before it, where `this` stood.
The first of them stood at place `i`. -/
def shift (assign : Nat → α → α → α) : Nat → α → List α → List α
  | _, _, [] => []
  | i, this, a :: l => assign i this a :: shift assign (i + 1) a l

theorem shift_length (assign : Nat → α → α → α) (i : Nat) (this : α) (l : List α) :
    (shift assign i this l).length = l.length := by
  induction l generalizing i this with
  | nil => rfl
  | cons a l ih => exact congrArg Nat.succ (ih (i + 1) a)

/-- `v.erase(it)` on the elements from place `i` on, where `it` is `left` places further. -/
def eraseFrom (assign : Nat → α → α → α) : (i left : Nat) → List α → List α
  | _, _, [] => []
  | i, 0, a :: l => shift assign (i + 1) a l
  | i, left + 1, a :: l => a :: eraseFrom assign (i + 1) left l

theorem eraseFrom_length_le (assign : Nat → α → α → α) (i left : Nat) (l : List α) :
    (eraseFrom assign i left l).length ≤ l.length := by
  fun_induction eraseFrom assign i left l with
  | case1 => exact Nat.le_refl 0
  | case2 i a l => exact Nat.le_succ_of_le (Nat.le_of_eq (shift_length _ _ _ _))
  | case3 i left a l ih => exact Nat.succ_le_succ ih

/-- `v.erase(it)`, where `it` is at place `i`. -/
def erase (assign : Nat → α → α → α) (i : Nat) (v : StdVector α) : StdVector α :=
  ⟨eraseFrom assign 0 i v.elems, v.capacity,
    Nat.le_trans (eraseFrom_length_le assign 0 i v.elems) v.size_le⟩

theorem eraseFrom_append (assign : Nat → α → α → α) (i : Nat) (before : List α) (a : α)
    (behind : List α) :
    eraseFrom assign i before.length (before ++ a :: behind) =
      before ++ shift assign (i + before.length + 1) a behind := by
  induction before generalizing i with
  | nil => rfl
  | cons b before ih =>
    show b :: eraseFrom assign (i + 1) before.length (before ++ a :: behind) = _
    rw [ih, length_cons, show i + 1 + before.length = i + (before.length + 1) by omega]
    rfl

/-- `while (it != v.end()) { if (gone(*it)) it = v.erase(it); else ++it; }`, after `e` erasures
and at the element that stood at place `i`. -/
def eraseLoop (e i : Nat) : List α → List α
  | [] => []
  | a :: l =>
    if gone a then eraseLoop (e + 1) (i + 1) (shift (assign (e + 1)) (i + 1) a l)
    else a :: eraseLoop e (i + 1) l
termination_by l => l.length
decreasing_by
  · rw [shift_length]
    exact Nat.lt_succ_self _
  · exact Nat.lt_succ_self _

theorem eraseLoop_length_le (e i : Nat) (l : List α) :
    (eraseLoop gone assign e i l).length ≤ l.length := by
  fun_induction eraseLoop gone assign e i l with
  | case1 => exact Nat.le_refl 0
  | case2 e i a l h ih =>
    rw [shift_length] at ih
    exact Nat.le_succ_of_le ih
  | case3 e i a l h ih => exact Nat.succ_le_succ ih

def eraseAll (v : StdVector α) : StdVector α :=
  ⟨eraseLoop gone assign 0 0 v.elems, v.capacity,
    Nat.le_trans (eraseLoop_length_le gone assign 0 0 v.elems) v.size_le⟩

/-- What the erasures leave of `l`, each element as its last move made it. -/
def settled (moved : Nat → Nat → α → α) (e i : Nat) : List α → List α
  | [] => []
  | a :: l =>
    if gone a then settled moved (e + 1) (i + 1) l
    else (if e = 0 then a else moved e i a) :: settled moved e (i + 1) l

variable {gone assign} {moved : Nat → Nat → α → α}

theorem shift_eq (e i : Nat) (this : α) (l : List α)
    (hassign : ∀ e i this a, assign e i this a = moved e i a) :
    shift (assign e) i this l = l.mapIdx fun j a => moved e (i + j) a := by
  induction l generalizing i this with
  | nil => rfl
  | cons a l ih =>
    rw [shift, hassign, ih, mapIdx_cons]
    simp only [Nat.add_assoc, Nat.add_comm 1, Nat.add_zero]

/-- **After one erasure** the elements behind the erased one are the same exactly where each is
equal to its copy. -/
theorem eraseFrom_append_iff {assign : Nat → α → α → α} (moved : Nat → α → α)
    (hassign : ∀ i this a, assign i this a = moved i a) (before : List α) (a : α)
    (behind : List α) :
    eraseFrom assign 0 before.length (before ++ a :: behind) = before ++ behind ↔
      ∀ j b, behind[j]? = some b → moved (before.length + 1 + j) b = b := by
  have hshift := @shift_eq α (fun _ => assign) (fun _ => moved) 0 (0 + before.length + 1) a behind
    fun _ => hassign
  rw [eraseFrom_append, append_cancel_left_eq, hshift, mapIdx_eq_self_iff, Nat.zero_add]

/-- **Each element that stays** is as its last move made it. -/
theorem eraseLoop_eq (moved : Nat → Nat → α → α)
    (hassign : ∀ e i this a, assign e i this a = moved e i a)
    (hgone : ∀ e i a, gone (moved e i a) = gone a)
    (hagain : ∀ e e' i a, moved e' i (moved e i a) = moved e' i a) (l : List α) :
    eraseLoop gone assign 0 0 l = settled gone moved 0 0 l := by
  -- after the first erasure, the elements that are left have been moved by the last one
  have hmoved : ∀ (l : List α) (e i : Nat), e ≠ 0 →
      eraseLoop gone assign e i (l.mapIdx fun j a => moved e (i + j) a) =
        settled gone moved e i l := by
    intro l
    induction l with
    | nil => intro e i _; rw [mapIdx_nil, eraseLoop, settled]
    | cons a l ih =>
      intro e i he
      have htail : ∀ e', ((l.mapIdx fun j a => moved e (i + (j + 1)) a).mapIdx
          fun j a => moved e' (i + 1 + j) a) = l.mapIdx fun j a => moved e' (i + 1 + j) a := by
        intro e'
        rw [mapIdx_mapIdx]
        congr 1
        funext j a
        rw [Function.comp_apply, show i + (j + 1) = i + 1 + j by omega, hagain]
      rw [mapIdx_cons, eraseLoop, settled, Nat.add_zero, hgone, if_neg he]
      split
      · rw [shift_eq _ _ _ _ hassign, htail, ih _ _ (Nat.succ_ne_zero e)]
      · rw [← ih e (i + 1) he]
        simp only [Nat.add_assoc, Nat.add_comm 1]
  suffices key : ∀ (l : List α) (i : Nat), eraseLoop gone assign 0 i l =
      settled gone moved 0 i l from key l 0
  intro l
  induction l with
  | nil => intro i; rw [eraseLoop, settled]
  | cons a l ih =>
    intro i
    rw [eraseLoop, settled, if_pos rfl]
    split
    · rw [shift_eq _ _ _ _ hassign]
      exact hmoved l 1 (i + 1) Nat.one_ne_zero
    · rw [ih]

theorem settled_eq_filter_iff (e i : Nat) (l : List α) :
    settled gone moved e i l = l.filter (!gone ·) ↔
      ∀ j a, l[j]? = some a → gone a = false → 0 < e + (l.take j).countP gone →
        moved (e + (l.take j).countP gone) (i + j) a = a := by
  induction l generalizing e i with
  | nil => simp [settled]
  | cons b l ih =>
    -- the places in the tail, counted from the head
    have hsplit : ∀ {P : Nat → α → Prop}, (∀ j a, (b :: l)[j]? = some a → P j a) ↔
        P 0 b ∧ ∀ j a, l[j]? = some a → P (j + 1) a := by
      intro P
      constructor
      · intro h
        exact ⟨h 0 b rfl, fun j a hj => h (j + 1) a hj⟩
      · rintro ⟨h0, h⟩ (_ | j) a hj
        · cases hj
          exact h0
        · exact h j a hj
    rw [settled, hsplit]
    cases hb : gone b with
    | true =>
      have hplace : ∀ j, i + 1 + j = i + (j + 1) := fun j => by omega
      simp only [if_true, filter_cons, hb, Bool.not_true, Bool.false_eq_true, if_false,
        ih, take_zero, countP_nil, take_succ_cons, countP_cons,
        reduceCtorEq, false_implies, true_and, hplace, Nat.add_assoc, Nat.add_comm 1]
    | false =>
      have hplace : ∀ j, i + 1 + j = i + (j + 1) := fun j => by omega
      simp only [Bool.false_eq_true, if_false, filter_cons, hb, Bool.not_false, if_true,
        cons_eq_cons, ih, take_zero, countP_nil, take_succ_cons,
        countP_cons, Nat.add_zero, forall_const, hplace]
      refine and_congr_left' ?_
      split
      next he => exact iff_of_true rfl fun hpos => absurd he (Nat.ne_of_gt hpos)
      next he => exact ⟨fun h _ => h, fun h => h (Nat.pos_of_ne_zero he)⟩

/-- **The elements that stay** are those that were there exactly where each that stands behind an
erased one is equal to its last copy. -/
theorem eraseLoop_eq_filter_iff (moved : Nat → Nat → α → α)
    (hassign : ∀ e i this a, assign e i this a = moved e i a)
    (hgone : ∀ e i a, gone (moved e i a) = gone a)
    (hagain : ∀ e e' i a, moved e' i (moved e i a) = moved e' i a) (l : List α) :
    eraseLoop gone assign 0 0 l = l.filter (!gone ·) ↔
      ∀ i a, l[i]? = some a → gone a = false → 0 < (l.take i).countP gone →
        moved ((l.take i).countP gone) i a = a := by
  rw [eraseLoop_eq moved hassign hgone hagain, settled_eq_filter_iff]
  simp only [Nat.zero_add]

end StdVector

end Fantom.Lib
