/-
  Fantom.Wallet.CoinAgeSound — The selection by coin age is sound.

  * `AgeCollected.Spec`, `collectAge_spec` — what the first loop has collected,
  * `selectByCoinAge_iff` — outputs that are enough are found, unless all that reach the target
    alone have the cost that stands for none.
-/
import Fantom.Wallet.CoinAgePlaces

namespace Fantom.Wallet

open Core Lib List

section Places

variable {part : List AgeCoin} {denom : Int} {sc : Scaled} {s : Selection} {coins : List AgeCoin}

/-! ## §1. The matrices. -/

theorem mapM_eq_ok {ε α β : Type} {f : α → Except ε β} {P : α → β → Prop} {l : List α}
    (h : ∀ a ∈ l, ∃ b, f a = .ok b ∧ P a b) :
    ∃ bs, l.mapM f = .ok bs ∧ List.Forall₂ P l bs := by
  induction l with
  | nil => exact ⟨[], rfl, .nil⟩
  | cons a l ih =>
    obtain ⟨b, hb, hP⟩ := h a mem_cons_self
    obtain ⟨bs, hbs, hall⟩ := ih fun c hc => h c (mem_cons_of_mem a hc)
    refine ⟨b :: bs, ?_, .cons hP hall⟩
    rw [mapM_cons, hb, hbs]
    rfl

def unitsOf (denom : Int) (coin : AgeCoin) : Nat := (coin.1.1.tdiv denom).toNat

/-- **The matrices** are filled, and each step of `B` takes the weight of its coin. -/
theorem fillMatrix_spec (denom : Int) {before : List UInt64} {columns : Nat}
    (hbefore : before.length = columns) (coins : List AgeCoin) :
    ∃ B, fillMatrix denom before coins = .ok B ∧ ∀ i, ∀ h : i < coins.length, ∀ j < columns,
      ∃ k, ((B[i]?).bind fun row => row[j]?) = some k ∧
        TakesStep (unitsOf denom coins[i]) j k := by
  induction coins generalizing before with
  | nil => exact ⟨[], rfl, fun i hi => absurd hi (Nat.not_lt_zero i)⟩
  | cons coin coins ih =>
    obtain ⟨row, hrow, hall⟩ := mapM_eq_ok (l := range before.length)
      (f := fun j => element (bestStep before (unitsOf denom coin) (UInt64.ofInt coin.1.2) j))
      (P := fun j entry => TakesStep (unitsOf denom coin) j entry.2) fun j hj => by
        obtain ⟨entry, hentry, htakes⟩ := bestStep_takes (unitsOf denom coin)
          (UInt64.ofInt coin.1.2) (mem_range.mp hj)
        exact ⟨entry, by rw [hentry]; rfl, htakes⟩
    have hlen : row.length = columns := by
      rw [← hall.length_eq, length_range, hbefore]
    have hlen' : (row.map Prod.fst).length = columns := by rw [length_map, hlen]
    obtain ⟨B, hB, hsteps⟩ := ih hlen'
    refine ⟨row.map Prod.snd :: B, ?_, ?_⟩
    · rw [fillMatrix]
      change ((range before.length).mapM fun j =>
        element (bestStep before (unitsOf denom coin) (UInt64.ofInt coin.1.2) j)) >>= _ = _
      rw [hrow]
      show fillMatrix denom (row.map Prod.fst) coins >>= _ = _
      rw [hB]
      rfl
    · intro i hi j hj
      cases i with
      | succ i => exact hsteps i (Nat.lt_of_succ_lt_succ hi) j hj
      | zero =>
        have hj' : j < row.length := hlen ▸ hj
        refine ⟨row[j].2, ?_, ?_⟩
        · show (row.map Prod.snd)[j]? = _
          rw [getElem?_map, getElem?_eq_getElem hj']
          rfl
        · have hentry := hall.get (by rw [hall.length_eq]; exact hj') hj'
          simpa using hentry

theorem traceLoop_spec {B : List (List Nat)} (nBeginCoinValues : Nat) {i column : Nat}
    {kept : List Nat}
    (hkept : keptFrom (fun i j => (B[i]?).bind fun row => row[j]?) i column = some kept)
    (s : Selection) :
    traceLoop sc B nBeginCoinValues i column s =
      .ok ((kept.map (nBeginCoinValues + ·)).foldl sc.pick s) := by
  induction i generalizing column kept s with
  | zero =>
    cases hkept
    rfl
  | succ i ih =>
    obtain ⟨target, rest, hstep, hrest, rfl⟩ := keptFrom_succ_eq_some hkept
    have hstepAt : stepAt B i column = .ok target := by
      rw [stepAt, if_neg (by omega), Int.toNat_natCast, hstep]
      rfl
    rw [traceLoop, hstepAt]
    show traceLoop sc B nBeginCoinValues i target _ = _
    rw [ih hrest]
    by_cases hstay : target = column
    · rw [if_pos hstay, if_pos (congrArg Nat.cast hstay.symm)]
      rfl
    · rw [if_neg hstay, if_neg (by omega)]

/-! ## §2. Units of the places. -/

/-- The units of the places from `nBeginCoinValues` on. -/
def Scaled.unitsFrom (sc : Scaled) (denom : Int) (nBeginCoinValues : Nat) : Int :=
  ((range (sc.nTotalCoinValues - nBeginCoinValues)).map fun i =>
    sc.unitsAt denom (nBeginCoinValues + i)).sum

theorem Scaled.unitsFrom_zero : sc.unitsFrom denom 0 = sc.units denom := by
  unfold Scaled.unitsFrom Scaled.units
  rw [Nat.sub_zero]
  simp only [Nat.zero_add]

theorem Scaled.unitsFrom_of_lt {nBegin : Nat} (h : nBegin < sc.nTotalCoinValues) :
    sc.unitsFrom denom nBegin = sc.unitsAt denom nBegin + sc.unitsFrom denom (nBegin + 1) := by
  unfold Scaled.unitsFrom
  have hlen : sc.nTotalCoinValues - nBegin = sc.nTotalCoinValues - (nBegin + 1) + 1 := by omega
  rw [hlen, range_succ_eq_map, map_cons, sum_cons, map_map, Nat.add_zero]
  refine congrArg (sc.unitsAt denom nBegin + ·) (congrArg sum (map_congr_left ?_))
  intro i _
  show sc.unitsAt denom (nBegin + (i + 1)) = sc.unitsAt denom (nBegin + 1 + i)
  rw [Nat.add_right_comm, Nat.add_assoc]

theorem Scaled.Spec.nonneg (h : sc.Spec part denom) (hpart : NonNeg part) {i : Nat}
    (hi : i < sc.nTotalCoinValues) : NonNeg (sc.coinsAt part i) := by
  intro c hc
  refine hpart c ?_
  rw [← h.all]
  exact mem_append_left _ (mem_flatMap.mpr ⟨i, mem_range.mpr hi, hc⟩)

theorem Scaled.Spec.units_le (h : sc.Spec part denom) (hpart : NonNeg part) (hdenom : 0 < denom)
    {i : Nat} (hi : i < sc.nTotalCoinValues) :
    0 ≤ sc.unitsAt denom i ∧ denom * sc.unitsAt denom i ≤ sc.valueAt i := by
  have hvalue : 0 ≤ sc.valueAt i := by
    rw [h.value i hi]
    exact amounts_nonneg (h.nonneg hpart hi)
  rw [Scaled.unitsAt, Int.tdiv_eq_ediv_of_nonneg hvalue]
  exact ⟨Int.ediv_nonneg hvalue hdenom.le, Int.mul_ediv_self_le hdenom.ne'⟩

theorem Scaled.Spec.units_amounts (h : sc.Spec part denom) (hpart : NonNeg part)
    (hdenom : 0 < denom) {places : List Nat} (hplaces : ∀ i ∈ places, i < sc.nTotalCoinValues) :
    denom * (places.map (sc.unitsAt denom)).sum ≤ amounts (places.flatMap (sc.coinsAt part)) := by
  induction places with
  | nil => exact (mul_zero denom).le
  | cons i places ih =>
    have hi := hplaces i mem_cons_self
    have hrest := ih fun j hj => hplaces j (mem_cons_of_mem _ hj)
    have hunits := (h.units_le hpart hdenom hi).2
    rw [h.value i hi] at hunits
    rw [map_cons, sum_cons, flatMap_cons, amounts_append, mul_add]
    omega

theorem range_eq_append {nBegin n : Nat} (h : nBegin ≤ n) :
    range n = range nBegin ++ (range (n - nBegin)).map (nBegin + ·) := by
  rw [← range_add, Nat.add_sub_cancel' h]

/-- **The capacity** is what the amounts are above the target, in units. -/
theorem Scaled.Spec.capacity (h : sc.Spec part denom) (hpart : NonNeg part) (hdenom : 0 < denom)
    {nBegin : Nat} (hle : nBegin ≤ sc.nTotalCoinValues) :
    denom * sc.unitsFrom denom nBegin +
      amounts ((range nBegin).flatMap (sc.coinsAt part)) ≤ amounts part := by
  have hbelow : ∀ i ∈ (range (sc.nTotalCoinValues - nBegin)).map (nBegin + ·),
      i < sc.nTotalCoinValues := by
    intro i hi
    obtain ⟨j, hj, rfl⟩ := mem_map.mp hi
    have := mem_range.mp hj
    omega
  have hunits := h.units_amounts hpart hdenom hbelow
  rw [map_map] at hunits
  have hleft : 0 ≤ amounts (sc.leftover part) := amounts_nonneg fun c hc => hpart c (by
    rw [← h.all]
    exact mem_append_right _ hc)
  have hall := congrArg amounts h.all
  rw [range_eq_append hle, flatMap_append, amounts_append, amounts_append] at hall
  change denom * sc.unitsFrom denom nBegin ≤ _ at hunits
  omega

theorem tdiv_bounds {n : Int} (hn : 0 ≤ n) (hdenom : 0 < denom) :
    denom * n.tdiv denom ≤ n ∧ n < denom * n.tdiv denom + denom ∧
      (n.tmod denom = 0 ↔ n = denom * n.tdiv denom) ∧ 0 ≤ n.tdiv denom := by
  have hmod := Int.mul_tdiv_add_tmod n denom
  have hlow := Int.tmod_nonneg denom hn
  have hhigh := Int.tmod_lt_of_pos n hdenom
  refine ⟨by omega, by omega, by omega, ?_⟩
  rw [Int.tdiv_eq_ediv_of_nonneg hn]
  exact Int.ediv_nonneg hn hdenom.le

/-! ## §3. The dynamic programming. -/

theorem subperm_part (h : sc.Spec part denom) {places : List Nat} {added : List AgeCoin}
    (hplaces : places.Subperm (range sc.nTotalCoinValues))
    (hadded : added.Sublist (sc.leftover part)) :
    (places.flatMap (sc.coinsAt part) ++ added).Subperm part := by
  have hflat : (places.flatMap (sc.coinsAt part)).Subperm
      ((range sc.nTotalCoinValues).flatMap (sc.coinsAt part)) := by
    obtain ⟨places', hperm, hsub⟩ := hplaces
    exact ⟨_, hperm.flatMap_right _, hsub.flatMap _⟩
  have hall := hflat.append hadded.subperm
  rwa [h.all] at hall

/-- The state before the dynamic programming: the places before `nBegin` are picked, and the
target needs less than all units from there on, if there are any. -/
structure Ready (sc : Scaled) (part : List AgeCoin) (denom nTargetValue : Int) (nBegin : Nat)
    (nTotalValue : Int) (s : Selection) : Prop where
  le : nBegin ≤ sc.nTotalCoinValues
  units : nTotalValue = sc.unitsFrom denom nBegin
  has : s.Has ((range nBegin).flatMap (sc.coinsAt part))
  room : nBegin = sc.nTotalCoinValues ∨ (nTargetValue - s.nValueRet).tdiv denom < nTotalValue

variable {nTargetValue nTotalValue : Int} {nBegin : Nat}

/-- **The second dimension** is not below zero, and small; it is zero only where no place is
left. -/
theorem Ready.columns (hr : Ready sc part denom nTargetValue nBegin nTotalValue s)
    (h : sc.Spec part denom) (hpart : NonNeg part) (hdenom : 0 < denom)
    (hless : s.nValueRet < nTargetValue) (henough : nTargetValue ≤ amounts part)
    (hclose : amounts part - nTargetValue < 50 * denom) :
    let nTarget := nTargetValue - s.nValueRet
    let columns := nTotalValue - nTarget.tdiv denom + if nTarget.tmod denom ≠ 0 then 0 else 1
    0 ≤ columns ∧ columns < 2 ^ 32 ∧
      (columns = 0 → nBegin = sc.nTotalCoinValues ∧
        nTargetValue ≤ s.nValueRet + amounts (sc.leftover part)) ∧
      nTarget ≤ denom * (nTotalValue - (columns - 1)) := by
  intro nTarget columns
  obtain ⟨hlow, hhigh, hexact, hnonneg⟩ := tdiv_bounds (n := nTarget) (by omega) hdenom
  have hcapacity := h.capacity hpart hdenom hr.le
  rw [← hr.units, ← hr.has.value] at hcapacity
  have hsmall : nTotalValue - nTarget.tdiv denom < 51 := by
    have hmul : denom * (nTotalValue - nTarget.tdiv denom) < denom * 51 := by
      rw [mul_sub]
      omega
    exact Int.lt_of_mul_lt_mul_left hmul hdenom.le
  have hneed : nTarget ≤ denom * (nTotalValue - (columns - 1)) := by
    unfold columns
    by_cases hmod : nTarget.tmod denom = 0
    · rw [if_neg (not_not.mpr hmod)]
      have hcancel : nTotalValue - (nTotalValue - nTarget.tdiv denom + 1 - 1) =
          nTarget.tdiv denom := by omega
      rw [hcancel]
      exact (hexact.mp hmod).le
    · rw [if_pos hmod]
      have hcancel : nTotalValue - (nTotalValue - nTarget.tdiv denom + 0 - 1) =
          nTarget.tdiv denom + 1 := by omega
      rw [hcancel, mul_add, mul_one]
      exact hhigh.le
  have hbounds : nTotalValue - nTarget.tdiv denom ≤ columns ∧
      columns ≤ nTotalValue - nTarget.tdiv denom + 1 := by
    unfold columns
    split_ifs <;> omega
  rcases hr.room with hend | hroom
  · -- no place is left, and what is left over is less than a unit
    have hzero : nTotalValue = 0 := by
      rw [hr.units, hend]
      rw [Scaled.unitsFrom, Nat.sub_self]
      rfl
    have hall := congrArg amounts h.all
    rw [amounts_append, ← hend, ← hr.has.value] at hall
    have hrest := h.small
    have hquot : nTarget.tdiv denom = 0 := Int.tdiv_eq_zero_of_lt (by omega) (by omega)
    exact ⟨by omega, by omega, fun _ => ⟨hend, by omega⟩, hneed⟩
  · change nTarget.tdiv denom < nTotalValue at hroom
    exact ⟨by omega, by omega, fun h => by omega, hneed⟩

theorem dimension_natCast {n : Nat} (h : n < 2 ^ 32) : dimension n = .ok n := by
  have hlow : ¬(n : Int) < 0 := by omega
  have hhigh : ¬(n : Int) ≥ 2 ^ 32 := by omega
  rw [dimension, decide_eq_false hlow, decide_eq_false hhigh]
  rfl

/-- The weight of a place, from `nBegin` on. -/
def Scaled.weightAt (sc : Scaled) (denom : Int) (nBegin i : Nat) : Nat :=
  (sc.unitsAt denom (nBegin + i)).toNat

theorem Scaled.Spec.weightOf_eq (h : sc.Spec part denom) (hpart : NonNeg part) (hdenom : 0 < denom)
    {places : List Nat} (hplaces : ∀ i ∈ places, nBegin + i < sc.nTotalCoinValues) :
    (weightOf (sc.weightAt denom nBegin) places : Int) =
      ((places.map (nBegin + ·)).map (sc.unitsAt denom)).sum := by
  induction places with
  | nil => rfl
  | cons i places ih =>
    have hunits := (h.units_le hpart hdenom (hplaces i mem_cons_self)).1
    rw [weightOf_cons, Nat.cast_add, ih fun j hj => hplaces j (mem_cons_of_mem _ hj),
      map_cons, map_cons, sum_cons]
    exact congrArg (· + _) (Int.toNat_of_nonneg hunits)

theorem getElem_place (h : sc.nTotalCoinValues ≤ sc.vValue.length) {i : Nat}
    (hi : i < ((sc.vValue.drop nBegin).take (sc.nTotalCoinValues - nBegin)).length) :
    unitsOf denom (((sc.vValue.drop nBegin).take (sc.nTotalCoinValues - nBegin))[i]) =
      sc.weightAt denom nBegin i := by
  rw [length_take, length_drop] at hi
  unfold unitsOf Scaled.weightAt Scaled.unitsAt Scaled.valueAt
  rw [getElem_take, getElem_drop, getElem?_eq_getElem (by omega)]
  rfl

/-- **The picks** of the dynamic programming, and what is left over, reach the target. -/
theorem traceLoop_reaches (hr : Ready sc part denom nTargetValue nBegin nTotalValue s)
    (h : sc.Spec part denom) (hpart : NonNeg part) (hdenom : 0 < denom) {columns : Nat}
    (hzero : columns = 0 → nBegin = sc.nTotalCoinValues ∧
      nTargetValue ≤ s.nValueRet + amounts (sc.leftover part))
    (hneed : nTargetValue - s.nValueRet ≤ denom * (nTotalValue - ((columns : Int) - 1))) :
    ∃ B s', ∃ places : List Nat, fillMatrix denom (replicate columns 0)
          ((sc.vValue.drop nBegin).take (sc.nTotalCoinValues - nBegin)) = .ok B ∧
      traceLoop sc B nBegin (sc.nTotalCoinValues - nBegin) ((columns : Int) - 1) s = .ok s' ∧
      places.Subperm (range sc.nTotalCoinValues) ∧
      s'.Has (places.flatMap (sc.coinsAt part)) ∧
      nTargetValue ≤ s'.nValueRet + amounts (sc.leftover part) := by
  have hbefore : (replicate columns (0 : UInt64)).length = columns := length_replicate
  obtain ⟨B, hB, hsteps⟩ := fillMatrix_spec denom hbefore
    ((sc.vValue.drop nBegin).take (sc.nTotalCoinValues - nBegin))
  have hsize := h.size
  have hlength : ((sc.vValue.drop nBegin).take (sc.nTotalCoinValues - nBegin)).length =
      sc.nTotalCoinValues - nBegin := by
    rw [length_take, length_drop]
    omega
  cases columns with
  | zero =>
    obtain ⟨hend, hreach⟩ := hzero rfl
    refine ⟨B, s, range nBegin, hB, ?_, ?_, hr.has, hreach⟩
    · rw [hend, Nat.sub_self]
      rfl
    · rw [hend]
  | succ column =>
    have hback : ∀ i < sc.nTotalCoinValues - nBegin, ∀ j < column + 1, ∃ k,
        ((B[i]?).bind fun row => row[j]?) = some k ∧
          TakesStep (sc.weightAt denom nBegin i) j k := by
      intro i hi j hj
      obtain ⟨k, hk, htakes⟩ := hsteps i (hlength.symm ▸ hi) j hj
      exact ⟨k, hk, getElem_place hsize (hlength.symm ▸ hi) ▸ htakes⟩
    obtain ⟨kept, hkept, hsub, hweight⟩ := keptFrom_spec hback column.lt_succ_self
    have hbelow : ∀ i ∈ kept, nBegin + i < sc.nTotalCoinValues := by
      intro i hi
      have := mem_range.mp (mem_reverse.mp (hsub.subset hi))
      omega
    have hbelow' : ∀ i ∈ kept.map (nBegin + ·), i < sc.nTotalCoinValues := by
      intro i hi
      obtain ⟨j, hj, rfl⟩ := mem_map.mp hi
      exact hbelow j hj
    have hhas := hr.has.picks h (kept.map (nBegin + ·)) hbelow'
    refine ⟨B, (kept.map (nBegin + ·)).foldl sc.pick s, range nBegin ++ kept.map (nBegin + ·),
      hB, ?_, ?_, ?_, ?_⟩
    · rw [Nat.cast_succ, Int.add_sub_cancel]
      exact traceLoop_spec nBegin hkept s
    · rw [range_eq_append hr.le]
      have hmap := (hsub.map (nBegin + ·)).subperm
      rw [map_reverse] at hmap
      exact (List.Subperm.refl _).append (hmap.trans (reverse_perm _).subperm)
    · rw [flatMap_append]
      exact hhas
    · have hunits := h.units_amounts hpart hdenom hbelow'
      rw [← h.weightOf_eq hpart hdenom hbelow] at hunits
      have hall : nTotalValue = (weightOf (sc.weightAt denom nBegin)
          (range (sc.nTotalCoinValues - nBegin)).reverse : Int) := by
        rw [hr.units, h.weightOf_eq hpart hdenom fun i hi => by
          have := mem_range.mp (mem_reverse.mp hi)
          omega, map_reverse, map_reverse, sum_reverse, map_map]
        rfl
      have hleft : 0 ≤ amounts (sc.leftover part) := amounts_nonneg fun c hc => hpart c (by
        rw [← h.all]
        exact mem_append_right _ hc)
      have hmul : denom * (nTotalValue - (((column + 1 : Nat) : Int) - 1)) ≤
          denom * (weightOf (sc.weightAt denom nBegin) kept : Int) :=
        mul_le_mul_of_nonneg_left (by omega) hdenom.le
      rw [hhas.value, amounts_append, ← hr.has.value]
      omega

/-- **The dynamic programming** reaches the target with some of the coins. -/
theorem knapsack_spec (hr : Ready sc part denom nTargetValue nBegin nTotalValue s)
    (h : sc.Spec part denom) (hpart : NonNeg part) (hdenom : 0 < denom)
    (hless : s.nValueRet < nTargetValue) (henough : nTargetValue ≤ amounts part)
    (hclose : amounts part - nTargetValue < 50 * denom) (hsize : part.length + 1 < 2 ^ 32) :
    ∃ s' coins, knapsack nTargetValue sc denom nBegin nTotalValue s = .ok s' ∧ s'.Has coins ∧
      coins.Subperm part ∧ nTargetValue ≤ s'.nValueRet := by
  obtain ⟨hnonneg, hcolumns, hzero, hneed⟩ := hr.columns h hpart hdenom hless henough hclose
  have hlength : sc.vValue.length = part.length := by
    have hlen := congrArg length h.keys
    rwa [length_map, length_map] at hlen
  have hrows : sc.nTotalCoinValues - nBegin + 1 < 2 ^ 32 := by
    have := h.size
    omega
  unfold knapsack
  dsimp only
  generalize nTotalValue - (nTargetValue - s.nValueRet).tdiv denom +
    (if (nTargetValue - s.nValueRet).tmod denom ≠ 0 then 0 else 1) = columns at *
  obtain ⟨size2, rfl⟩ := Int.eq_ofNat_of_zero_le hnonneg
  have hzero' : size2 = 0 → nBegin = sc.nTotalCoinValues ∧
      nTargetValue ≤ s.nValueRet + amounts (sc.leftover part) :=
    fun hz => hzero (by rw [hz]; rfl)
  obtain ⟨B, s', places, hB, htrace, hplaces, hhas, hreach⟩ :=
    traceLoop_reaches hr h hpart hdenom hzero' hneed
  rw [← Nat.cast_succ, dimension_natCast hrows, ok_bind,
    dimension_natCast (by omega), ok_bind, hB, ok_bind, Nat.succ_sub_one, htrace, ok_bind]
  cases hlast : sc.vZeroValueBundles.getLast? with
  | none =>
    have hnil (coins : List AgeCoin) : sc.leftover coins = [] := by
      rw [Scaled.leftover, hlast]
    rw [hnil] at hreach
    have hcoins := subperm_part h hplaces (nil_sublist (sc.leftover part))
    rw [append_nil] at hcoins
    exact ⟨s', _, rfl, hhas, hcoins, hreach.trans_eq (add_zero _)⟩
  | some last =>
    have hleft : sc.vValue.drop last = sc.leftover part := by
      rw [← h.leftover]
      rw [Scaled.leftover, hlast]
    obtain ⟨added, hadded, hhas', hreach'⟩ := addLeftover_spec hhas (sc.leftover part) hreach
    refine ⟨_, _, ?_, hhas', subperm_part h hplaces hadded, hreach'⟩
    dsimp only
    rw [hleft]
    rfl

/-- **What is picked before**: from the beginning of the list, until there is room. -/
theorem prepick_spec (nTargetValue : Int) (h : sc.Spec part denom) (left : Nat) {nBegin : Nat}
    {nTotalValue : Int} {s : Selection} (hleft : nBegin + left = sc.nTotalCoinValues)
    (hunits : nTotalValue = sc.unitsFrom denom nBegin)
    (hs : s.Has ((range nBegin).flatMap (sc.coinsAt part))) :
    let r := prepick nTargetValue sc denom left nBegin nTotalValue s
    Ready sc part denom nTargetValue r.1 r.2.1 r.2.2 := by
  induction left generalizing nBegin nTotalValue s with
  | zero => exact ⟨hleft.le, hunits, hs, .inl hleft⟩
  | succ left ih =>
    intro r
    have hlt : nBegin < sc.nTotalCoinValues := by omega
    unfold r
    rw [prepick]
    split_ifs with hroom
    · refine ih (by omega) ?_ ?_
      · rw [hunits, Scaled.unitsFrom_of_lt hlt]
        omega
      · have hpick := hs.pick h hlt
        rwa [range_succ, flatMap_append, flatMap_singleton]
    · exact ⟨hlt.le, hunits, hs, .inr (not_le.mp hroom)⟩

end Places

/-! ## §4. The smaller outputs. -/

section Smaller

variable {nTargetValue : Int} {vValue : List AgeCoin}

theorem mul_sum_tdiv {denom : Int} {coins : List AgeCoin} (hdvd : ∀ c ∈ coins, denom ∣ c.1.1) :
    denom * (coins.map fun c => c.1.1.tdiv denom).sum = amounts coins := by
  induction coins with
  | nil => exact mul_zero denom
  | cons c coins ih =>
    rw [map_cons, sum_cons, mul_add, Int.mul_tdiv_cancel' (hdvd c mem_cons_self),
      ih fun d hd => hdvd d (mem_cons_of_mem c hd), amounts_cons]

theorem unbundled_units (denom : Int) (vValue : List AgeCoin) :
    (unbundled vValue).units denom = (vValue.map fun c => c.1.1.tdiv denom).sum := by
  unfold Scaled.units
  have hunits : (range vValue.length).map ((unbundled vValue).unitsAt denom) =
      vValue.map fun c => c.1.1.tdiv denom := by
    refine ext_getElem (by simp) fun i hi hi' => ?_
    rw [length_map] at hi'
    rw [getElem_map, getElem_range, getElem_map]
    unfold Scaled.unitsAt Scaled.valueAt unbundled
    rw [getElem?_eq_getElem hi']
    rfl
  exact congrArg sum hunits

theorem approximation_spec {size : Nat} {nTotalValue : Int} (hsize : 0 < size)
    (hless : nTargetValue < nTotalValue)
    (hfits : (size : Int) * (nTotalValue - nTargetValue) < 2 ^ 63) :
    nTotalValue - nTargetValue < 25 * approximation nTargetValue size nTotalValue + 25 := by
  have hnonneg : 0 ≤ (size : Int) * (nTotalValue - nTargetValue) :=
    mul_nonneg (by omega) (by omega)
  have hle : nTotalValue - nTargetValue ≤ (size : Int) * (nTotalValue - nTargetValue) :=
    le_mul_of_one_le_left (by omega) (by omega)
  have hmod : ((size : Int) * (nTotalValue - nTargetValue)).bmod (2 ^ 64) =
      (size : Int) * (nTotalValue - nTargetValue) :=
    Int.bmod_eq_of_le (by omega) (by omega)
  rw [approximation, hmod]
  have hbounds := (tdiv_bounds hnonneg (show (0 : Int) < 25 by decide)).2.1
  omega

theorem ofCoins_has (coins : List AgeCoin) :
    (Selection.ofCoins (coins.map fun c => (c.1.1, c.2))).Has coins := by
  obtain ⟨hok, hset, hvalue⟩ := foldl_insert (coins.map fun c => (c.1.1, c.2)) { fOk := true }
  rw [Finset.empty_union, map_map] at hset
  rw [zero_add] at hvalue
  refine ⟨hok, hset, hvalue.trans ?_⟩
  unfold sumOf amounts
  rw [map_map]
  rfl

/-- **What is picked** with a denominator that fits. -/
theorem pickByAge_spec {denom nGCD : Int} (hpart : NonNeg vValue) (htarget : 0 < nTargetValue)
    (henough : nTargetValue ≤ amounts vValue) (hsize : vValue.length + 1 < 2 ^ 32)
    (hdenom : 0 < denom) (hclose : amounts vValue - nTargetValue < 50 * denom)
    (hgcd : denom = nGCD → denom ∣ nTargetValue ∧ ∀ c ∈ vValue, denom ∣ c.1.1) :
    ∃ s coins, pickByAge nTargetValue denom vValue (amounts vValue) nGCD = .ok s ∧ s.Has coins ∧
      coins.Subperm vValue ∧ nTargetValue ≤ s.nValueRet := by
  unfold pickByAge
  by_cases hexact : amounts vValue = nTargetValue
  · rw [if_pos hexact]
    have hhas := ofCoins_has vValue
    exact ⟨_, vValue, rfl, hhas, List.Subperm.refl _, hhas.value ▸ henough⟩
  rw [if_neg hexact]
  by_cases hunit : denom = nGCD
  · -- every amount is a number of units
    obtain ⟨hdvd, hall⟩ := hgcd hunit
    have hspec := unbundled_spec hdenom vValue
    have hunits := (unbundled_units denom vValue).trans (Int.tdiv_eq_of_eq_mul_right hdenom.ne'
      (mul_sum_tdiv hall).symm).symm
    rw [if_neg (not_not.mpr hunit), ← hunits]
    refine knapsack_spec ⟨Nat.zero_le _, Scaled.unitsFrom_zero.symm, has_nil, .inr ?_⟩ hspec hpart
      hdenom htarget henough hclose hsize
    rw [hunits, sub_zero]
    have htotal := Int.mul_tdiv_cancel' (mul_sum_tdiv hall ▸ dvd_mul_right denom _)
    have htarget' := Int.mul_tdiv_cancel' hdvd
    have hless : denom * nTargetValue.tdiv denom < denom * (amounts vValue).tdiv denom := by
      omega
    exact Int.lt_of_mul_lt_mul_left hless hdenom.le
  · rw [if_pos hunit]
    obtain ⟨part, hperm, hspec, -⟩ := bundleSmall_spec hdenom vValue
    have hpart' : NonNeg part := fun c hc => hpart c (hperm.mem_iff.mp hc)
    rw [← amounts_perm hperm] at henough hclose
    rw [← hperm.length_eq] at hsize
    have hsub {coins : List AgeCoin} (h : coins.Subperm part) : coins.Subperm vValue :=
      h.trans hperm.subperm
    dsimp only
    split_ifs with hlost hdone
    · obtain ⟨hle, hunits, hhas, hroom⟩ := prepick_spec nTargetValue hspec
        (bundleSmall denom vValue).nTotalCoinValues (Nat.zero_add _) Scaled.unitsFrom_zero.symm
        has_nil
      refine ⟨_, _, rfl, hhas, ?_, hdone⟩
      have hcoins := subperm_part hspec (range_sublist.mpr hle).subperm
        (nil_sublist ((bundleSmall denom vValue).leftover part))
      rw [append_nil] at hcoins
      exact hsub hcoins
    · obtain ⟨s, coins, hs, hhas, hcoins, hreach⟩ := knapsack_spec
        (prepick_spec nTargetValue hspec
          (bundleSmall denom vValue).nTotalCoinValues (Nat.zero_add _) Scaled.unitsFrom_zero.symm
          has_nil) hspec hpart' hdenom (not_le.mp hdone) henough hclose hsize
      exact ⟨s, coins, hs, hhas, hsub hcoins, hreach⟩
    · have hroom : (nTargetValue - 0).tdiv denom < (bundleSmall denom vValue).units denom := by
        rw [sub_zero]
        exact not_le.mp hlost
      obtain ⟨s, coins, hs, hhas, hcoins, hreach⟩ := knapsack_spec
        ⟨Nat.zero_le _, Scaled.unitsFrom_zero.symm, has_nil, .inr hroom⟩ hspec
        hpart' hdenom htarget henough hclose hsize
      exact ⟨s, coins, hs, hhas, hsub hcoins, hreach⟩

theorem selectByAge_spec (hpart : NonNeg vValue) (htarget : 0 < nTargetValue)
    (henough : nTargetValue ≤ amounts vValue) (hsize : vValue.length + 1 < 2 ^ 32)
    (hfits : (vValue.length : Int) * (amounts vValue - nTargetValue) < 2 ^ 63) :
    ∃ s coins, selectByAge nTargetValue vValue = .ok s ∧ s.Has coins ∧ coins.Subperm vValue ∧
      nTargetValue ≤ s.nValueRet := by
  unfold selectByAge
  rw [decide_eq_false (show ¬vValue.length ≥ 2 ^ 32 by omega)]
  cases vValue with
  | nil => exact absurd (htarget.trans_le henough) (lt_irrefl 0)
  | cons coin rest =>
    obtain ⟨hgcd, hdvd, hsum⟩ := gcdLoop_spec coin rest hpart
    obtain ⟨hleft, hright, hpos⟩ := gcd_spec nTargetValue (gcdLoop coin rest).1
    have hpos := (hpos htarget.le hgcd).2 (.inl htarget)
    show ∃ s coins, pickByAge nTargetValue _ (coin :: rest) (gcdLoop coin rest).2 _ = _ ∧ _
    rw [hsum]
    have hclose : amounts (coin :: rest) - nTargetValue < 25 * approximation nTargetValue
        (coin :: rest).length (amounts (coin :: rest)) + 25 ∨
        amounts (coin :: rest) - nTargetValue = 0 := by
      by_cases hexact : amounts (coin :: rest) = nTargetValue
      · exact .inr (by omega)
      · exact .inl (approximation_spec (Nat.succ_pos _) (by omega) hfits)
    split_ifs with happrox
    · exact pickByAge_spec hpart htarget henough hsize (by omega) (by omega)
        fun heq => absurd heq (by omega)
    · exact pickByAge_spec hpart htarget henough hsize hpos (by omega)
        fun _ => ⟨hleft, fun c hc => dvd_trans hright (hdvd c hc)⟩

end Smaller

/-! ## §5. The first loop. -/

section Collecting

variable {nTargetValue : Int}

theorem ofInt_toInt64 (cost : UInt64) : UInt64.ofInt (toInt64 cost) = cost := by
  have hint : toInt64 cost = (cost.toNat : Int).bmod (2 ^ 64) :=
    BitVec.toInt_eq_toNat_bmod cost.toBitVec
  have hlt := cost.toNat_lt
  have hmod : toInt64 cost % 2 ^ 64 = cost.toNat := by
    rw [hint]
    exact Int.bmod_emod.trans (Int.emod_eq_of_lt (by omega) (by omega))
  rw [UInt64.ofInt, hmod, Int.toNat_natCast, UInt64.ofNat_toNat]

variable (nTargetValue) in
/-- What is collected from the outputs `pool`: the lower ones with their sum, and one of the others
if there is one with a cost below the largest `int64_t`. -/
structure AgeCollected.Spec (pool : List (COutput × UInt64)) (st : AgeCollected) : Prop where
  vValue : st.vValue = (pool.filter fun output => lower nTargetValue output.1).map ageCoin
  total : st.nTotalLower = amounts st.vValue
  none_larger : st.coinLowestLarger.2 = none → st.coinLowestLarger.1.2 = INT64_MAX ∧
    ∀ output ∈ pool, lower nTargetValue output.1 = true ∨ 2 ^ 63 - 1 ≤ output.2.toNat
  some_larger : ∀ key, st.coinLowestLarger.2 = some key → ∃ output ∈ pool,
    nTargetValue + CENT ≤ output.1.nValue.toInt ∧ output.2.toNat < 2 ^ 63 - 1 ∧
      ageCoin output = (st.coinLowestLarger.1, key)

theorem AgeCollected.spec_nil : AgeCollected.Spec nTargetValue [] {} where
  vValue := rfl
  total := rfl
  none_larger _ := ⟨rfl, forall_mem_nil _⟩
  some_larger _ h := nomatch h

variable {pool : List (COutput × UInt64)} {st : AgeCollected} {output : COutput × UInt64}

theorem AgeCollected.Spec.bound (h : st.Spec nTargetValue pool) :
    (UInt64.ofInt st.coinLowestLarger.1.2).toNat ≤ 2 ^ 63 - 1 := by
  cases hkey : st.coinLowestLarger.2 with
  | none =>
    rw [(h.none_larger hkey).1]
    decide
  | some key =>
    obtain ⟨o, -, -, hcost, hcoin⟩ := h.some_larger key hkey
    rw [← congrArg (fun c => c.1.2) hcoin]
    show (UInt64.ofInt (toInt64 o.2)).toNat ≤ _
    rw [ofInt_toInt64]
    exact hcost.le

theorem AgeCollected.Spec.push (h : st.Spec nTargetValue pool)
    (hlower : output.1.nValue.toInt < nTargetValue + CENT) :
    AgeCollected.Spec nTargetValue (pool ++ [output])
      { st with vValue := st.vValue ++ [ageCoin output],
                nTotalLower := st.nTotalLower + output.1.nValue.toInt } where
  vValue := by
    dsimp only
    rw [filter_append, filter_cons_of_pos (p := fun o : COutput × UInt64 =>
      lower nTargetValue o.1) (lower_iff.mpr hlower), map_append, h.vValue]
    rfl
  total := by
    dsimp only
    rw [amounts_append, ← h.total, amounts_cons]
    exact congrArg (st.nTotalLower + ·) (add_zero _).symm
  none_larger hnone := by
    obtain ⟨hmax, hall⟩ := h.none_larger hnone
    exact ⟨hmax, forall_mem_append.mpr
      ⟨hall, forall_mem_singleton.mpr (.inl (lower_iff.mpr hlower))⟩⟩
  some_larger key hkey := by
    obtain ⟨o, ho, hrest⟩ := h.some_larger key hkey
    exact ⟨o, mem_append_left _ ho, hrest⟩

theorem AgeCollected.Spec.larger (h : st.Spec nTargetValue pool)
    (hlarger : ¬output.1.nValue.toInt < nTargetValue + CENT) :
    AgeCollected.Spec nTargetValue (pool ++ [output])
      (if output.2 < UInt64.ofInt st.coinLowestLarger.1.2 then
        { st with coinLowestLarger := ((ageCoin output).1, some (ageCoin output).2) } else st) := by
  have hvValue : st.vValue =
      ((pool ++ [output]).filter fun output => lower nTargetValue output.1).map ageCoin := by
    rw [filter_append, filter_cons_of_neg (p := fun o : COutput × UInt64 =>
      lower nTargetValue o.1) (mt lower_iff.mp hlarger), filter_nil, append_nil]
    exact h.vValue
  by_cases hless : output.2 < UInt64.ofInt st.coinLowestLarger.1.2
  · rw [if_pos hless]
    refine ⟨hvValue, h.total, nofun, fun key hkey => ?_⟩
    cases hkey
    exact ⟨output, mem_append_right _ mem_cons_self, not_lt.mp hlarger,
      (UInt64.lt_iff_toNat_lt.mp hless).trans_le h.bound, rfl⟩
  · rw [if_neg hless]
    refine ⟨hvValue, h.total, fun hnone => ?_, fun key hkey => ?_⟩
    · -- nothing is kept yet, and the cost is as large as the bound
      obtain ⟨hmax, hall⟩ := h.none_larger hnone
      refine ⟨hmax, forall_mem_append.mpr ⟨hall, forall_mem_singleton.mpr (.inr ?_)⟩⟩
      have hmax' : (UInt64.ofInt st.coinLowestLarger.1.2).toNat = 2 ^ 63 - 1 := by
        rw [hmax]
        decide
      exact hmax' ▸ Nat.not_lt.mp (mt UInt64.lt_iff_toNat_lt.mpr hless)
    · obtain ⟨o, ho, hrest⟩ := h.some_larger key hkey
      exact ⟨o, mem_append_left _ ho, hrest⟩

variable (nSpendTime : UInt32) (nConfMine nConfTheirs : Int32)

/-- **The loop** collects the outputs that are eligible. -/
theorem collectAge_spec (h : st.Spec nTargetValue pool) (mCoins : List (COutput × UInt64)) :
    (mCoins.foldl (collectAge nTargetValue nSpendTime nConfMine nConfTheirs) st).Spec nTargetValue
      (pool ++ mCoins.filter fun output =>
        eligible nSpendTime nConfMine nConfTheirs output.1) := by
  induction mCoins generalizing pool st with
  | nil =>
    rw [filter_nil, append_nil]
    exact h
  | cons output mCoins ih =>
    rw [foldl_cons]
    cases heligible : eligible nSpendTime nConfMine nConfTheirs output.1 with
    | false =>
      have hturn : collectAge nTargetValue nSpendTime nConfMine nConfTheirs st output = st := by
        rw [collectAge, heligible]
        rfl
      rw [hturn, filter_cons_of_neg (by rw [heligible]; decide)]
      exact ih h
    | true =>
      have hturn : AgeCollected.Spec nTargetValue (pool ++ [output])
          (collectAge nTargetValue nSpendTime nConfMine nConfTheirs st output) := by
        rw [collectAge, heligible]
        dsimp only
        rw [if_neg (by decide)]
        split_ifs with hlower hless
        · exact h.push hlower
        · have hlarger := h.larger hlower
          rwa [if_pos hless] at hlarger
        · have hlarger := h.larger hlower
          rwa [if_neg hless] at hlarger
      rw [filter_cons_of_pos (p := fun o : COutput × UInt64 =>
        eligible nSpendTime nConfMine nConfTheirs o.1) heligible, append_cons]
      exact ih hturn

end Collecting

/-! ## §6. The result. -/

section Result

variable (nTargetValue : Int) (nSpendTime : UInt32) (nConfMine nConfTheirs : Int32) (ties : Ties)
  (nNow : Int64)

variable {nTargetValue} in
theorem Selection.Has.sound {s : Selection} {coins : List AgeCoin} {pool : List COutput}
    (hs : s.Has coins) (hkeys : (pool.map COutput.key).Nodup)
    (hsub : (coins.map fun c => (c.1.1, c.2)).Subperm (pool.map COutput.coin))
    (hreach : nTargetValue ≤ s.nValueRet) : s.Sound nTargetValue pool := by
  have hhas := ofCoins_has coins
  obtain ⟨fOk, setCoinsRet, nValueRet⟩ := s
  have heq : Selection.ofCoins (coins.map fun c => (c.1.1, c.2)) =
      ⟨fOk, setCoinsRet, nValueRet⟩ := by
    obtain ⟨hok, hset, hvalue⟩ := hhas
    generalize Selection.ofCoins (coins.map fun c => (c.1.1, c.2)) = s' at hok hset hvalue ⊢
    obtain ⟨fOk', set', value'⟩ := s'
    exact congr (congr (congrArg Selection.mk (hok.trans hs.ok.symm)) (hset.trans hs.keys.symm))
      (hvalue.trans hs.value.symm)
  rw [← heq] at hreach ⊢
  have hsum : sumOf (coins.map fun c => (c.1.1, c.2)) =
      (Selection.ofCoins (coins.map fun c => (c.1.1, c.2))).nValueRet := by
    have hfold := (foldl_insert (coins.map fun c => (c.1.1, c.2)) { fOk := true }).2.2
    rw [zero_add] at hfold
    exact hfold.symm
  exact (ofCoins_sound hkeys hsub (hsum ▸ hreach)).2

def withCost (out : COutput) : COutput × UInt64 := (out, coinWeightCost nNow out)

theorem amounts_withCost (outputs : List COutput) :
    amounts ((outputs.map (withCost nNow)).map ageCoin) = amountOf outputs := by
  unfold amounts amountOf
  rw [map_map, map_map]
  rfl

def ageEligible (vCoins : List COutput) : List COutput :=
  vCoins.filter (eligible nSpendTime nConfMine nConfTheirs)

theorem collected_spec (vCoins : List COutput) :
    let mCoins := (ties.arrange (vCoins.map fun out => (out, coinWeightCost nNow out))).mergeSort
      fun a b => a.2 ≤ b.2
    let st := mCoins.foldl (collectAge nTargetValue nSpendTime nConfMine nConfTheirs) {}
    let pool := ageEligible nSpendTime nConfMine nConfTheirs vCoins
    ∃ mPool : List (COutput × UInt64), mPool.Perm (pool.map (withCost nNow)) ∧
      st.Spec nTargetValue mPool ∧
      st.vValue.Perm (((pool.filter (lower nTargetValue)).map (withCost nNow)).map ageCoin) := by
  intro mCoins st pool
  have hperm : mCoins.Perm (vCoins.map (withCost nNow)) :=
    (mergeSort_perm _ _).trans (ties.perm _)
  have hst := collectAge_spec nSpendTime nConfMine nConfTheirs
    (@AgeCollected.spec_nil nTargetValue) mCoins
  rw [nil_append] at hst
  have hpool : (mCoins.filter fun output => eligible nSpendTime nConfMine nConfTheirs output.1).Perm
      (pool.map (withCost nNow)) := by
    have hfilter := hperm.filter fun output => eligible nSpendTime nConfMine nConfTheirs output.1
    rwa [filter_map] at hfilter
  refine ⟨_, hpool, hst, ?_⟩
  rw [hst.vValue]
  have hfilter := hpool.filter fun output => lower nTargetValue output.1
  rw [filter_map] at hfilter
  exact hfilter.map ageCoin

/-- The counters and the product for the approximation have room for these outputs. -/
structure AgeFits (low : List COutput) : Prop where
  count : low.length + 1 < 2 ^ 32
  product : (low.length : Int) * (amountOf low - nTargetValue) < 2 ^ 63

theorem selectByCoinAge_spec {vCoins : List COutput} (htarget : 0 < nTargetValue)
    (hdistinct : (vCoins.map COutput.key).Nodup) :
    let pool := ageEligible nSpendTime nConfMine nConfTheirs vCoins
    let low := pool.filter (lower nTargetValue)
    let r := selectCoinsMinConfByCoinAge nTargetValue nSpendTime nConfMine nConfTheirs ties nNow
      vCoins
    (amountOf low < nTargetValue ∧
      ((∀ out ∈ pool, lower nTargetValue out = true ∨
          2 ^ 63 - 1 ≤ (coinWeightCost nNow out).toNat) ∧ r = .ok { fOk := false } ∨
        (∃ out ∈ pool, nTargetValue + CENT ≤ out.nValue.toInt ∧
          (coinWeightCost nNow out).toNat < 2 ^ 63 - 1) ∧
          ∃ s, r = .ok s ∧ s.fOk = true ∧ s.Sound nTargetValue pool)) ∨
    (nTargetValue ≤ amountOf low ∧ (AgeFits nTargetValue low →
      ∃ s, r = .ok s ∧ s.fOk = true ∧ s.Sound nTargetValue pool)) := by
  intro pool low r
  obtain ⟨mPool, hpool, hst, hvValue⟩ :=
    collected_spec nTargetValue nSpendTime nConfMine nConfTheirs ties nNow vCoins
  unfold r selectCoinsMinConfByCoinAge
  dsimp only at hst hvValue ⊢
  generalize ((ties.arrange (vCoins.map fun out => (out, coinWeightCost nNow out))).mergeSort
    fun a b => a.2 ≤ b.2).foldl (collectAge nTargetValue nSpendTime nConfMine nConfTheirs) {} = st
    at hst hvValue ⊢
  change st.vValue.Perm ((low.map (withCost nNow)).map ageCoin) at hvValue
  have hkeys : (pool.map COutput.key).Nodup :=
    hdistinct.sublist (filter_sublist.map COutput.key)
  have hmem {output : COutput × UInt64} (h : output ∈ mPool) :
      output.1 ∈ pool ∧ output.2 = coinWeightCost nNow output.1 := by
    obtain ⟨out, hout, rfl⟩ := mem_map.mp (hpool.mem_iff.mp h)
    exact ⟨hout, rfl⟩
  have htotal : amounts st.vValue = amountOf low :=
    (amounts_perm hvValue).trans (amounts_withCost nNow low)
  rw [hst.total, htotal]
  by_cases hless : amountOf low < nTargetValue
  · rw [if_pos hless]
    refine .inl ⟨hless, ?_⟩
    rcases hlargest : st.coinLowestLarger with ⟨first, _ | key⟩
    · refine .inl ⟨fun out hout => ?_, rfl⟩
      exact (hst.none_larger (by rw [hlargest])).2 (withCost nNow out)
        (hpool.mem_iff.mpr (mem_map_of_mem hout))
    · obtain ⟨output, houtput, hlarger, hsmall, hcoin⟩ := hst.some_larger key (by rw [hlargest])
      obtain ⟨hout, hcost⟩ := hmem houtput
      have hpos : 0 < CENT := by decide
      have hkey : (first.1, key) = output.1.coin := by
        rw [hlargest] at hcoin
        exact Prod.ext (congrArg (fun c => c.1.1) hcoin).symm (congrArg Prod.snd hcoin).symm
      obtain ⟨hok, hsound⟩ := ofCoins_singleton_sound hkeys hout
        (show nTargetValue ≤ output.1.nValue.toInt by omega)
      refine .inr ⟨⟨output.1, hout, hlarger, hcost ▸ hsmall⟩, _, ?_, hok, hsound⟩
      rw [← hkey]
      rfl
  · rw [if_neg hless]
    refine .inr ⟨not_lt.mp hless, fun hfits => ?_⟩
    have hlen : st.vValue.length = low.length := by
      rw [hvValue.length_eq, length_map, length_map]
    have hnonneg : NonNeg st.vValue := by
      intro c hc
      obtain ⟨output, -, rfl⟩ := mem_map.mp (hvValue.mem_iff.mp hc)
      exact output.1.nValue_range.1
    obtain ⟨s, coins, hs, hhas, hsub, hreach⟩ := selectByAge_spec hnonneg htarget
      (htotal ▸ not_lt.mp hless) (hlen ▸ hfits.count) (by rw [hlen, htotal]; exact hfits.product)
    refine ⟨s, hs, hhas.ok, hhas.sound hkeys ?_ hreach⟩
    obtain ⟨coins', hperm, hsublist⟩ := hsub.trans hvValue.subperm
    have hcoins : ((low.map (withCost nNow)).map ageCoin).map (fun c => (c.1.1, c.2)) =
        low.map COutput.coin := by
      rw [map_map, map_map]
      rfl
    have hlow : (low.map COutput.coin).Sublist (pool.map COutput.coin) :=
      filter_sublist.map COutput.coin
    rw [← hcoins] at hlow
    exact ⟨_, hperm.map _, (hsublist.map _).trans hlow⟩

end Result

/-! ## §7. Several outputs, and one. -/

def plainTies : Ties where
  arrange := id
  perm := List.Perm.refl

def outputOf (nValue : Int64) (range : moneyRange nValue = true) : COutput where
  tx :=
    { hash := 1
      nTime := 1420070400
      fFromMe := false
      vout := [{ nValue := nValue, scriptPubKey := [], nRounds := 0 }] }
  i := 0
  nDepth := 10
  inside := Nat.zero_lt_one
  range := range

def agedOutput : COutput := outputOf 996122169058687 (by decide)

def agedOutputs : List COutput :=
  [outputOf 60000000 (by decide), outputOf 70000000 (by decide), outputOf 3000000 (by decide),
    outputOf 3500001 (by decide)]

end Fantom.Wallet
