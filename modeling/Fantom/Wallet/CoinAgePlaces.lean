/-
  Fantom.Wallet.CoinAgePlaces — The list of coins that the selection by coin age scales and bundles
  in place.

  * `Bundling.Spec`, `Scaled.Spec` — the places of the list have the amounts of their coins, and the
    coins of all places with what is left over are all coins,
  * `Selection.Has` — the coins of a selection, as places are picked.
-/
import Fantom.Wallet.CoinAge
import Mathlib.Algebra.Order.BigOperators.Group.List

namespace Fantom.Wallet

open Core Lib List

/-! ## §1. The unit. -/

theorem gcd_spec (n m : Int) :
    gcd n m ∣ n ∧ gcd n m ∣ m ∧ (0 ≤ n → 0 ≤ m → 0 ≤ gcd n m ∧ (0 < n ∨ 0 < m → 0 < gcd n m)) := by
  induction n, m using gcd.induct with
  | case1 n =>
    rw [gcd, if_pos rfl]
    exact ⟨Int.dvd_refl n, Int.dvd_zero n, fun hn _ => ⟨hn, fun h => h.resolve_right (by omega)⟩⟩
  | case2 n m hm ih =>
    obtain ⟨hdvd, hdvd', hpos⟩ := ih
    rw [gcd, if_neg hm]
    have hn : gcd m (n.tmod m) ∣ n := by
      have hsum := Int.dvd_add (Int.dvd_mul_of_dvd_left (c := n.tdiv m) hdvd) hdvd'
      rwa [Int.mul_tdiv_add_tmod] at hsum
    refine ⟨hn, hdvd, fun hn' hm' => ?_⟩
    obtain ⟨hnonneg, hpos⟩ := hpos hm' (Int.tmod_nonneg m hn')
    exact ⟨hnonneg, fun _ => hpos (.inl (by omega))⟩

variable (coins : List AgeCoin)

def amounts : Int := (coins.map fun c => c.1.1).sum

theorem amounts_cons (coin : AgeCoin) (coins : List AgeCoin) :
    amounts (coin :: coins) = coin.1.1 + amounts coins := sum_cons

theorem amounts_append (coins coins' : List AgeCoin) :
    amounts (coins ++ coins') = amounts coins + amounts coins' := by
  unfold amounts
  rw [map_append, sum_append]

theorem amounts_perm {coins coins' : List AgeCoin} (h : coins.Perm coins') :
    amounts coins = amounts coins' := (h.map _).sum_eq

def NonNeg : Prop := ∀ c ∈ coins, 0 ≤ c.1.1

theorem amounts_nonneg {coins : List AgeCoin} (h : NonNeg coins) : 0 ≤ amounts coins := by
  refine sum_nonneg fun n hn => ?_
  obtain ⟨c, hc, rfl⟩ := mem_map.mp hn
  exact h c hc

theorem gcdLoop_spec (coin : AgeCoin) (coins : List AgeCoin) (h : NonNeg (coin :: coins)) :
    0 ≤ (gcdLoop coin coins).1 ∧ (∀ c ∈ coin :: coins, (gcdLoop coin coins).1 ∣ c.1.1) ∧
      (gcdLoop coin coins).2 = amounts (coin :: coins) := by
  unfold gcdLoop
  -- induction on the coins that have been passed
  induction coins using List.reverseRecOn with
  | nil =>
    refine ⟨h coin mem_cons_self, fun c hc => ?_, ?_⟩
    · rw [mem_singleton.mp hc]
      exact Int.dvd_refl _
    · exact (Int.add_zero _).symm
  | append_singleton coins c ih =>
    have hc : 0 ≤ c.1.1 := h c (by simp)
    obtain ⟨hnonneg, hdvd, hsum⟩ := ih fun c hc => h c (by
      rcases mem_cons.mp hc with rfl | hc
      · exact mem_cons_self
      · exact mem_cons_of_mem _ (mem_append_left _ hc))
    rw [foldl_append, foldl_cons, foldl_nil]
    generalize coins.foldl (fun r (c : AgeCoin) => (gcd c.1.1 r.1, r.2 + c.1.1))
      (coin.1.1, coin.1.1) = r at hnonneg hdvd hsum ⊢
    obtain ⟨hleft, hright, hpos⟩ := gcd_spec c.1.1 r.1
    refine ⟨(hpos hc hnonneg).1, fun d hd => ?_, ?_⟩
    · rw [← cons_append, mem_append, mem_singleton] at hd
      rcases hd with hd | rfl
      · exact Int.dvd_trans hright (hdvd d hd)
      · exact hleft
    · rw [← cons_append, amounts_append, hsum, amounts_cons c]
      exact congrArg (amounts (coin :: coins) + ·) (Int.add_zero _).symm

/-! ## §2. Places and their coins. -/

section Places

variable {part : List AgeCoin} {denom : Int} {sc : Scaled}

theorem slice_succ {first last : Nat} {coin : AgeCoin} (hle : first ≤ last)
    (hcoin : part[last]? = some coin) :
    slice part first (last + 1) = slice part first last ++ [coin] := by
  unfold slice
  have hlen : last + 1 - first = last - first + 1 := by omega
  rw [hlen, take_add_one, List.getElem?_drop, Nat.add_sub_cancel' hle, hcoin]
  rfl

theorem slice_self (first : Nat) : slice coins first first = [] := by
  rw [slice, Nat.sub_self, take_zero]

theorem take_append_slice {first last : Nat} (hle : first ≤ last) :
    coins.take first ++ slice coins first last = coins.take last := by
  rw [slice, ← take_add, Nat.add_sub_cancel' hle]

theorem slice_map {β : Type} (f : AgeCoin → β) {coins coins' : List AgeCoin}
    (h : coins.map f = coins'.map f) (first last : Nat) :
    (slice coins first last).map f = (slice coins' first last).map f := by
  unfold slice
  rw [map_take, map_drop, h, map_take, map_drop]

/-- The coins that are left over behind the last bundle. -/
def Scaled.leftover (sc : Scaled) (coins : List AgeCoin) : List AgeCoin :=
  match sc.vZeroValueBundles.getLast? with
  | none => []
  | some last => coins.drop last

variable (part denom sc) in
/-- The places of `sc` are the coins `part`, but for what is left over. -/
structure Scaled.Spec : Prop where
  size : sc.nTotalCoinValues ≤ sc.vValue.length
  keys : sc.vValue.map Prod.snd = part.map Prod.snd
  value : ∀ i < sc.nTotalCoinValues, sc.valueAt i = amounts (sc.coinsAt part i)
  all : (List.range sc.nTotalCoinValues).flatMap (sc.coinsAt part) ++ sc.leftover part = part
  leftover : sc.leftover sc.vValue = sc.leftover part
  small : amounts (sc.leftover part) < denom

theorem Scaled.coinsAt_keys (h : sc.vValue.map Prod.snd = part.map Prod.snd) (i : Nat) :
    (sc.coinsAt sc.vValue i).map Prod.snd = (sc.coinsAt part i).map Prod.snd := by
  unfold Scaled.coinsAt
  dsimp only
  split_ifs with hbundle
  · cases sc.vZeroValueBundles[i - sc.nBeginBundles]? with
    | none => rfl
    | some first =>
      cases sc.vZeroValueBundles[i - sc.nBeginBundles + 1]? with
      | none => rfl
      | some last => exact slice_map Prod.snd h first last
  · have hget : (sc.vValue[i]?).map Prod.snd = (part[i]?).map Prod.snd := by
      rw [← List.getElem?_map, h, List.getElem?_map]
    rw [← Option.toList_map, ← Option.toList_map, hget]

variable (part denom) in
/-- The bundles of the coins before `itZeroValue`, from the place `first` on. -/
structure Bundling.Spec (first itZeroValue : Nat) (b : Bundling) : Prop where
  begins : b.nBeginBundles = first
  keys : b.vValue.map Prod.snd = part.map Prod.snd
  bundles : first + b.vZeroValueBundles.length = b.nTotalCoinValues + 1
  last : ∃ last, b.vZeroValueBundles.getLast? = some last ∧ b.nTotalCoinValues ≤ last ∧
    last ≤ itZeroValue ∧ b.pBundle.1 = amounts (slice part last itZeroValue) ∧
    (List.range b.nTotalCoinValues).flatMap (b.coinsAt part) = part.take last
  kept : ∀ i, b.nTotalCoinValues ≤ i → b.vValue[i]? = part[i]?
  value : ∀ i < b.nTotalCoinValues, b.valueAt i = amounts (b.coinsAt part i)
  small : b.pBundle.1 < denom

variable {first itZeroValue : Nat} {b : Bundling} {coin : AgeCoin}

theorem Bundling.Spec.push (h : b.Spec part denom first itZeroValue)
    (hcoin : part[itZeroValue]? = some coin) (hsmall : ¬b.pBundle.1 + coin.1.1 ≥ denom) :
    Bundling.Spec part denom first (itZeroValue + 1)
      { b with pBundle := (b.pBundle.1 + coin.1.1, b.pBundle.2 + coin.1.2) } where
  begins := h.begins
  keys := h.keys
  bundles := h.bundles
  last := by
    obtain ⟨last, hlast, hn, hle, hsum, hall⟩ := h.last
    refine ⟨last, hlast, hn, Nat.le_succ_of_le hle, ?_, hall⟩
    rw [slice_succ hle hcoin, amounts_append, ← hsum, amounts_cons]
    exact congrArg (b.pBundle.1 + ·) (Int.add_zero _).symm
  kept := h.kept
  value := h.value
  small := Int.not_le.mp hsmall

theorem coinsAt_write_of_lt (h : b.Spec part denom first itZeroValue) (last : Nat)
    (pBundle : Int × Int) {i : Nat} (hi : i < b.nTotalCoinValues) :
    (b.write last pBundle).coinsAt part i = b.coinsAt part i := by
  have hbundles := h.bundles
  have hfirst := h.begins
  unfold Scaled.coinsAt Bundling.write
  dsimp only
  split_ifs with hbundle
  · have hlt : i - b.nBeginBundles + 1 < b.vZeroValueBundles.length := by omega
    rw [List.getElem?_append_left hlt, List.getElem?_append_left (by omega)]
  · rfl

theorem coinsAt_write_self (h : b.Spec part denom first itZeroValue) {last : Nat}
    (hlast : b.vZeroValueBundles.getLast? = some last) (last' : Nat) (pBundle : Int × Int) :
    (b.write last' pBundle).coinsAt part b.nTotalCoinValues = slice part last last' := by
  have hbundles := h.bundles
  have hfirst := h.begins
  have hpos : 0 < b.vZeroValueBundles.length :=
    length_pos_iff.mpr fun hnil => by rw [hnil] at hlast; cases hlast
  have hn : b.nTotalCoinValues - b.nBeginBundles = b.vZeroValueBundles.length - 1 := by omega
  have hn' : b.vZeroValueBundles.length - 1 + 1 = b.vZeroValueBundles.length := by omega
  unfold Scaled.coinsAt Bundling.write
  dsimp only
  rw [if_pos (show b.nTotalCoinValues ≥ b.nBeginBundles by omega), hn, hn',
    List.getElem?_append_left (by omega), ← List.getLast?_eq_getElem?, hlast,
    List.getElem?_concat_length]

/-- **A bundle is full**, and written to the next place. -/
theorem Bundling.Spec.write (h : b.Spec part denom first itZeroValue) (hdenom : 0 < denom)
    (hcoin : part[itZeroValue]? = some coin) :
    Bundling.Spec part denom first (itZeroValue + 1)
      (b.write (itZeroValue + 1) (b.pBundle.1 + coin.1.1, b.pBundle.2 + coin.1.2)) := by
  obtain ⟨last, hlast, hn, hle, hsum, hall⟩ := h.last
  have hit : itZeroValue < part.length := (List.getElem?_eq_some_iff.mp hcoin).1
  have hsize : b.vValue.length = part.length := by
    have hlen := congrArg List.length h.keys
    rwa [length_map, length_map] at hlen
  have hslice : b.pBundle.1 + coin.1.1 = amounts (slice part last (itZeroValue + 1)) := by
    rw [slice_succ hle hcoin, amounts_append, ← hsum, amounts_cons]
    exact congrArg (b.pBundle.1 + ·) (Int.add_zero _).symm
  refine
    { begins := h.begins
      keys := ?_
      bundles := ?_
      last := ⟨itZeroValue + 1, List.getLast?_concat, ?_, le_refl _, ?_, ?_⟩
      kept := fun i hi => ?_
      value := fun i hi => ?_
      small := hdenom }
  · rw [← h.keys]
    refine ext_getElem? fun i => ?_
    rw [Bundling.write, List.getElem?_map, List.getElem?_modify, List.getElem?_map]
    cases b.vValue[i]? with
    | none => rfl
    | some c => by_cases hi : b.nTotalCoinValues = i <;> simp [hi]
  · rw [Bundling.write, length_append, length_singleton, ← Nat.add_assoc, h.bundles]
  · exact Nat.succ_le_succ (hn.trans hle)
  · rw [slice_self]
    rfl
  · show (List.range (b.nTotalCoinValues + 1)).flatMap _ = _
    rw [range_succ, flatMap_append, flatMap_singleton,
      coinsAt_write_self h hlast, ← take_append_slice part (Nat.le_succ_of_le hle), ← hall]
    refine congrArg (· ++ _) (flatMap_congr fun i hi => ?_)
    exact coinsAt_write_of_lt h _ _ (mem_range.mp hi)
  · change b.nTotalCoinValues + 1 ≤ i at hi
    rw [Bundling.write, List.getElem?_modify_ne _ _ (by omega)]
    exact h.kept i (by omega)
  · change i < b.nTotalCoinValues + 1 at hi
    by_cases heq : i = b.nTotalCoinValues
    · subst heq
      rw [coinsAt_write_self h hlast, ← hslice]
      unfold Scaled.valueAt Bundling.write
      rw [List.getElem?_modify_eq, List.getElem?_eq_getElem (by omega)]
      rfl
    · rw [coinsAt_write_of_lt h _ _ (by omega), ← h.value i (by omega)]
      unfold Scaled.valueAt Bundling.write
      rw [List.getElem?_modify_ne _ _ (Ne.symm heq)]

theorem bundleLoop_spec (hdenom : 0 < denom) {left : Nat}
    (h : b.Spec part denom first itZeroValue) (hend : itZeroValue + left ≤ part.length) :
    Bundling.Spec part denom first (itZeroValue + left)
      ((List.range' itZeroValue left).foldl (bundleTurn denom) b) := by
  -- induction on the coins that are left
  induction left generalizing itZeroValue b with
  | zero => exact h
  | succ left ih =>
    obtain ⟨last, -, hn, hle, -, -⟩ := h.last
    have hlt : itZeroValue < part.length := by omega
    have hcoin := List.getElem?_eq_getElem hlt
    have hturn : (bundleTurn denom b itZeroValue).Spec part denom first (itZeroValue + 1) := by
      rw [bundleTurn, h.kept itZeroValue (hn.trans hle), hcoin]
      dsimp only
      split_ifs with hfull
      · exact h.write hdenom hcoin
      · exact h.push hcoin hfull
    rw [List.range'_succ, foldl_cons]
    have hrest := ih hturn (by omega)
    rwa [Nat.add_assoc, Nat.add_comm 1 left] at hrest

theorem range_flatMap_getElem (n : Nat) :
    (List.range n).flatMap (fun i => (coins[i]?).toList) = coins.take n := by
  induction n with
  | zero => exact (take_zero).symm
  | succ n ih =>
    rw [range_succ, flatMap_append, ih, flatMap_singleton, take_add_one]

theorem amounts_toList (coin : Option AgeCoin) : amounts coin.toList = coin.elim 0 fun c => c.1.1 := by
  cases coin with
  | none => rfl
  | some c => exact Int.add_zero _

/-- **Coins in units** of the denominator: the places have the amounts of their coins, and what is
left over is less than one unit. -/
theorem bundleSmall_spec (hdenom : 0 < denom) (vValue : List AgeCoin) :
    ∃ part : List AgeCoin, part.Perm vValue ∧ (bundleSmall denom vValue).Spec part denom ∧
      ∃ last, (bundleSmall denom vValue).vZeroValueBundles.getLast? = some last := by
  let large := vValue.filter fun v => v.1.1 ≥ denom
  let small := vValue.filter fun v => !(v.1.1 ≥ denom)
  have hsingle : ∀ i < large.length, Scaled.coinsAt ⟨large ++ small, large.length, large.length,
      [large.length]⟩ (large ++ small) i = ((large ++ small)[i]?).toList := by
    intro i hi
    exact if_neg (by dsimp only; omega)
  have hinit : Bundling.Spec (large ++ small) denom large.length large.length
      { vValue := large ++ small, nBeginBundles := large.length,
        nTotalCoinValues := large.length, vZeroValueBundles := [large.length],
        pBundle := (0, 0) } := by
    refine ⟨rfl, rfl, rfl, ⟨large.length, rfl, le_refl _, le_refl _, ?_, ?_⟩, fun _ _ => rfl,
      fun i hi => ?_, hdenom⟩
    · rw [slice_self]
      rfl
    · rw [← range_flatMap_getElem]
      exact flatMap_congr fun i hi => hsingle i (mem_range.mp hi)
    · exact (amounts_toList _).symm.trans (congrArg amounts (hsingle i hi).symm)
  have hloop := bundleLoop_spec hdenom hinit (length_append).ge
  rw [← length_append] at hloop
  refine ⟨large ++ small, filter_append_perm _ vValue, ?_, ?_⟩
  · obtain ⟨last, hlast, hn, hle, hsum, hall⟩ := hloop.last
    have hleft (coins : List AgeCoin) :
        (bundleSmall denom vValue).leftover coins = coins.drop last := by
      unfold Scaled.leftover bundleSmall
      dsimp only
      rw [hlast]
    have hslice : slice (large ++ small) last (large ++ small).length = (large ++ small).drop last :=
      take_of_length_le (by rw [length_drop])
    have hsize := congrArg List.length hloop.keys
    rw [length_map, length_map] at hsize
    refine ⟨?_, hloop.keys, hloop.value, ?_, ?_, ?_⟩
    · exact (hn.trans hle).trans_eq hsize.symm
    · rw [hleft]
      exact (congrArg (· ++ _) hall).trans (take_append_drop last _)
    · rw [hleft, hleft]
      refine ext_getElem? fun i => ?_
      rw [List.getElem?_drop, List.getElem?_drop]
      exact hloop.kept _ (by omega)
    · rw [hleft, ← hslice, ← hsum]
      exact hloop.small
  · obtain ⟨last, hlast, -⟩ := hloop.last
    exact ⟨last, hlast⟩

theorem unbundled_spec (hdenom : 0 < denom) (vValue : List AgeCoin) :
    (unbundled vValue).Spec vValue denom := by
  have hsingle : ∀ i < vValue.length,
      (unbundled vValue).coinsAt vValue i = (vValue[i]?).toList := fun i hi =>
    if_neg (Nat.not_le.mpr hi)
  refine ⟨le_refl _, rfl, fun i hi => ?_, ?_, rfl, hdenom⟩
  · exact (amounts_toList _).symm.trans (congrArg amounts (hsingle i hi).symm)
  · have hall : (List.range vValue.length).flatMap ((unbundled vValue).coinsAt vValue) =
        vValue.take vValue.length := by
      rw [← range_flatMap_getElem]
      exact flatMap_congr fun i hi => hsingle i (mem_range.mp hi)
    rw [take_length] at hall
    exact (append_nil _).trans hall

/-! ## §3. Picks. -/

/-- The selection has these coins. -/
structure Selection.Has (s : Selection) (coins : List AgeCoin) : Prop where
  ok : s.fOk = true
  keys : s.setCoinsRet = (coins.map Prod.snd).toFinset
  value : s.nValueRet = amounts coins

theorem has_nil : Selection.Has { fOk := true } [] := ⟨rfl, toFinset_nil.symm, rfl⟩

theorem foldl_insert_keys (keys : List CoinKey) (set : Finset CoinKey) :
    keys.foldl (fun set key => Insert.insert key set) set = set ∪ keys.toFinset := by
  induction keys generalizing set with
  | nil => exact (Finset.union_empty _).symm
  | cons key keys ih =>
    rw [foldl_cons, ih, toFinset_cons, Finset.union_insert, ← Finset.insert_union]

variable {s : Selection} {coins : List AgeCoin}

theorem Selection.Has.pick (hs : s.Has coins) (h : sc.Spec part denom) {i : Nat}
    (hi : i < sc.nTotalCoinValues) : (sc.pick s i).Has (coins ++ sc.coinsAt part i) where
  ok := hs.ok
  keys := by
    rw [Scaled.pick, foldl_insert_keys, Scaled.coinsAt_keys h.keys, hs.keys, map_append,
      toFinset_append]
  value := by
    rw [Scaled.pick, hs.value, h.value i hi, amounts_append]

theorem Selection.Has.picks (hs : s.Has coins) (h : sc.Spec part denom) (places : List Nat)
    (hplaces : ∀ i ∈ places, i < sc.nTotalCoinValues) :
    (places.foldl sc.pick s).Has (coins ++ places.flatMap (sc.coinsAt part)) := by
  induction places generalizing s coins with
  | nil =>
    rw [flatMap_nil, append_nil]
    exact hs
  | cons i places ih =>
    have hpick := ih (hs.pick h (hplaces i mem_cons_self))
      fun j hj => hplaces j (mem_cons_of_mem _ hj)
    rwa [append_assoc] at hpick

theorem Selection.Has.insert (hs : s.Has coins) (coin : AgeCoin) :
    (s.insert (coin.1.1, coin.2)).Has (coins ++ [coin]) where
  ok := hs.ok
  keys := by
    rw [Selection.insert, hs.keys, map_append, toFinset_append, Finset.union_comm]
    rfl
  value := by
    rw [Selection.insert, hs.value, amounts_append]
    exact congrArg (amounts coins + ·) (Int.add_zero _).symm

/-- **The coins that could not be bundled**, until the target is reached. -/
theorem addLeftover_spec {nTargetValue : Int} (hs : s.Has coins) (rest : List AgeCoin)
    (henough : nTargetValue ≤ s.nValueRet + amounts rest) :
    ∃ added, added.Sublist rest ∧
      (addLeftover nTargetValue rest s).Has (coins ++ added) ∧
      nTargetValue ≤ (addLeftover nTargetValue rest s).nValueRet := by
  induction rest generalizing s coins with
  | nil =>
    refine ⟨[], List.Sublist.refl _, ?_, ?_⟩
    · rw [append_nil]
      exact hs
    · exact henough.trans_eq (Int.add_zero _)
  | cons coin rest ih =>
    rw [addLeftover]
    split_ifs with hless
    · have hrest : nTargetValue ≤ (s.insert (coin.1.1, coin.2)).nValueRet + amounts rest := by
        rw [amounts_cons] at henough
        show nTargetValue ≤ s.nValueRet + coin.1.1 + amounts rest
        omega
      obtain ⟨added, hsub, hhas, hreach⟩ := ih (hs.insert coin) hrest
      rw [append_assoc] at hhas
      exact ⟨coin :: added, hsub.cons_cons coin, hhas, hreach⟩
    · refine ⟨[], nil_sublist _, ?_, Int.not_lt.mp hless⟩
      rw [append_nil]
      exact hs

end Places

end Fantom.Wallet
