/-
  Fantom.Wallet.CoinAge — Which outputs pay for a target with the least coin age.

  * `prepick`, `fillMatrix`, `traceLoop`, `addLeftover` — bundles that are taken before, in and
    after the dynamic programming,
  * `selectCoinsMinConfByCoinAge` — the whole selection.

  Amounts are added up as integers, as in the other selection; what the source computes without a
  sign, or with 32 bits, wraps here too.
-/
import Fantom.Wallet.SelectCoins

namespace Fantom.Wallet

open Core Lib

/-! ## §1. Outputs by their age. -/

/-- `pair<pair<int64_t,int64_t>, pair<const CWalletTx*,unsigned int> >`: an amount, a cost, and
whose they are. -/
abbrev AgeCoin := (Int × Int) × CoinKey

def gcd (n m : Int) : Int :=
  if m = 0 then n else gcd m (n.tmod m)
termination_by m.natAbs
decreasing_by
  rename_i h
  rw [Int.natAbs_tmod]
  exact Nat.mod_lt _ (Int.natAbs_pos.mpr h)

/-- `CoinWeightCost`, at the time `nNow`.  `getuint64` leaves the sign out. -/
def coinWeightCost (nNow : Int64) (out : COutput) : UInt64 :=
  let nTimeWeight := nNow.toInt - out.tx.nTime.toNat
  let bnCoinDayWeight := (out.nValue.toInt * nTimeWeight).tdiv (24 * 60 * 60)
  UInt64.ofNat bnCoinDayWeight.natAbs

/-- A cost as an `int64_t`. -/
def toInt64 (cost : UInt64) : Int := cost.toInt64.toInt

/-- `make_pair(make_pair(n, output.second), make_pair(pcoin, i))` -/
def ageCoin (output : COutput × UInt64) : AgeCoin :=
  ((output.1.nValue.toInt, toInt64 output.2), output.1.key)

/-- The order that a sort which is not stable leaves equal costs in. -/
structure Ties where
  arrange : List (COutput × UInt64) → List (COutput × UInt64)
  perm : ∀ mCoins, (arrange mCoins).Perm mCoins

/-- The variables of the first loop. -/
structure AgeCollected where
  vValue : List AgeCoin := []
  nTotalLower : Int := 0
  /-- `coinLowestLarger`, with none for the pointer `NULL`. -/
  coinLowestLarger : (Int × Int) × Option CoinKey := ((0, INT64_MAX), none)

section Selecting

variable (nTargetValue : Int) (nSpendTime : UInt32) (nConfMine nConfTheirs : Int32)

/-- `BOOST_FOREACH(const PAIRTYPE(COutput, uint64_t)& output, mCoins)` -/
def collectAge (st : AgeCollected) (output : COutput × UInt64) : AgeCollected :=
  if !eligible nSpendTime nConfMine nConfTheirs output.1 then st
  else
    let n := output.1.nValue.toInt
    let coin := ageCoin output
    if n < nTargetValue + CENT then
      { st with vValue := st.vValue ++ [coin], nTotalLower := st.nTotalLower + n }
    else if output.2 < UInt64.ofInt st.coinLowestLarger.1.2 then
      { st with coinLowestLarger := (coin.1, some coin.2) }
    else st

/-! ## §2. Units and bundles. -/

/-- `nGCD` and `nTotalValue` of a coin and the ones behind it. -/
def gcdLoop (coin : AgeCoin) (coins : List AgeCoin) : Int × Int :=
  coins.foldl (fun r c => (gcd c.1.1 r.1, r.2 + c.1.1)) (coin.1.1, coin.1.1)

/-- `int64_t(vValue.size() * (nTotalValue - nTargetValue)) / k`, whose product has no sign. -/
def approximation (size : Nat) (nTotalValue : Int) : Int :=
  (((size : Int) * (nTotalValue - nTargetValue)).bmod (2 ^ 64)).tdiv 25

/-- `nBeginBundles`, `nTotalCoinValues`, `vValue` and `vZeroValueBundles`, with the iterators as
places in the list. -/
structure Scaled where
  vValue : List AgeCoin
  nBeginBundles : Nat
  nTotalCoinValues : Nat
  vZeroValueBundles : List Nat

/-- The variables of `while (itZeroValue != vValue.end())`. -/
structure Bundling extends Scaled where
  pBundle : Int × Int

/-- A bundle that is full is written to the place of the next one.  `itZeroValue` is behind it. -/
def Bundling.write (b : Bundling) (itZeroValue : Nat) (pBundle : Int × Int) : Bundling where
  vValue := b.vValue.modify b.nTotalCoinValues fun c => (pBundle, c.2)
  nBeginBundles := b.nBeginBundles
  nTotalCoinValues := b.nTotalCoinValues + 1
  vZeroValueBundles := b.vZeroValueBundles ++ [itZeroValue]
  pBundle := (0, 0)

def bundleTurn (denom : Int) (b : Bundling) (itZeroValue : Nat) : Bundling :=
  match b.vValue[itZeroValue]? with
  | none => b
  | some coin =>
    let pBundle := (b.pBundle.1 + coin.1.1, b.pBundle.2 + coin.1.2)
    if pBundle.1 ≥ denom then b.write (itZeroValue + 1) pBundle
    else { b with pBundle := pBundle }

/-- The coins from `denom` on, and bundles of the smaller ones behind them. -/
def bundleSmall (denom : Int) (vValue : List AgeCoin) : Scaled :=
  let large := vValue.filter fun v => v.1.1 ≥ denom
  let small := vValue.filter fun v => !(v.1.1 ≥ denom)
  let b : Bundling :=
    { vValue := large ++ small
      nBeginBundles := large.length
      nTotalCoinValues := large.length
      vZeroValueBundles := [large.length]
      pBundle := (0, 0) }
  ((List.range' large.length small.length).foldl (bundleTurn denom) b).toScaled

def unbundled (vValue : List AgeCoin) : Scaled where
  vValue := vValue
  nBeginBundles := vValue.length
  nTotalCoinValues := vValue.length
  vZeroValueBundles := []

variable (sc : Scaled) (denom : Int)

/-- `vValue[i].first.first` -/
def Scaled.valueAt (i : Nat) : Int := (sc.vValue[i]?).elim 0 fun c => c.1.1

/-- `vValue[i].first.first / denom` -/
def Scaled.unitsAt (i : Nat) : Int := (sc.valueAt i).tdiv denom

def slice (coins : List AgeCoin) (first last : Nat) : List AgeCoin :=
  (coins.drop first).take (last - first)

/-- The coins of the place `i` in a list with the bundles of `sc`: one, or those of a bundle. -/
def Scaled.coinsAt (coins : List AgeCoin) (i : Nat) : List AgeCoin :=
  if i ≥ sc.nBeginBundles then
    let nBundle := i - sc.nBeginBundles
    match sc.vZeroValueBundles[nBundle]?, sc.vZeroValueBundles[nBundle + 1]? with
    | some first, some last => slice coins first last
    | _, _ => []
  else (coins[i]?).toList

/-- `setCoinsRet.insert` of the coins of a place, and its amount. -/
def Scaled.pick (s : Selection) (i : Nat) : Selection :=
  { s with
    setCoinsRet := ((sc.coinsAt sc.vValue i).map Prod.snd).foldl (fun set key => Insert.insert key set)
      s.setCoinsRet
    nValueRet := s.nValueRet + sc.valueAt i }

/-! ## §3. Picks before, in and after the dynamic programming. -/

/-- What is picked from the beginning of the list where too few units are left: the first place
that is not, the units from there on, and what was picked. -/
def prepick : (left nBeginCoinValues : Nat) → (nTotalValue : Int) → Selection →
    Nat × Int × Selection
  | 0, nBeginCoinValues, nTotalValue, s => (nBeginCoinValues, nTotalValue, s)
  | left + 1, nBeginCoinValues, nTotalValue, s =>
    if (nTargetValue - s.nValueRet).tdiv denom ≥ nTotalValue then
      prepick left (nBeginCoinValues + 1) (nTotalValue - sc.unitsAt denom nBeginCoinValues)
        (sc.pick s nBeginCoinValues)
    else (nBeginCoinValues, nTotalValue, s)

/-- An element of a matrix or of one of its rows, which has to be there. -/
def element {α : Type} (x : Option α) : Except Abort α := required x .dangling

/-- The rows of `B` for the places of a list, below a row of `M`: for each column `j`, the cost
that can be left out and the column it comes from. -/
def fillMatrix (before : List UInt64) : List AgeCoin → Except Abort (List (List Nat))
  | [] => return []
  | coin :: coins => do
    let nWeight := (coin.1.1.tdiv denom).toNat
    let nValue := UInt64.ofInt coin.1.2
    let row ← (List.range before.length).mapM fun j => element (bestStep before nWeight nValue j)
    let rows ← fillMatrix (row.map Prod.fst) coins
    return row.map Prod.snd :: rows

/-- `B(i + 1, nPrev)` -/
def stepAt (B : List (List Nat)) (i : Nat) (nPrev : Int) : Except Abort Nat :=
  if nPrev < 0 then .error .dangling
  else element ((B[i]?).bind fun row => row[nPrev.toNat]?)

/-- `for (unsigned int i = M.size1() - 1; i > 0; --i)`: a place whose column does not change is
picked. -/
def traceLoop (B : List (List Nat)) (nBeginCoinValues : Nat) :
    Nat → Int → Selection → Except Abort Selection
  | 0, _, s => return s
  | i + 1, nPrev, s => do
    let target ← stepAt B i nPrev
    traceLoop B nBeginCoinValues i target
      (if nPrev = target then sc.pick s (nBeginCoinValues + i) else s)

/-- The coins that could not be bundled, as long as the target is not reached. -/
def addLeftover : List AgeCoin → Selection → Selection
  | [], s => s
  | coin :: coins, s =>
    if s.nValueRet < nTargetValue then addLeftover coins (s.insert (coin.1.1, coin.2))
    else s

/-- A dimension of a matrix, which an `unsigned int` has to count to: one below zero is a size
that there is no memory for. -/
def dimension (n : Int) : Except Abort Nat := do
  rejectIf (n < 0) (.threw "std::bad_alloc")
  rejectIf (n ≥ 2 ^ 32) .endless
  return n.toNat

/-- The dynamic programming over the places from `nBeginCoinValues` on, which have `nTotalValue`
units, and the way back. -/
def knapsack (nBeginCoinValues : Nat) (nTotalValue : Int) (s : Selection) :
    Except Abort Selection := do
  let nTarget := nTargetValue - s.nValueRet
  let nAppend := if nTarget.tmod denom ≠ 0 then 0 else 1
  let size1 ← dimension (((sc.nTotalCoinValues - nBeginCoinValues : Nat) : Int) + 1)
  let size2 ← dimension (nTotalValue - nTarget.tdiv denom + nAppend)
  let coins := (sc.vValue.drop nBeginCoinValues).take (sc.nTotalCoinValues - nBeginCoinValues)
  let B ← fillMatrix denom (List.replicate size2 0) coins
  let s ← traceLoop sc B nBeginCoinValues (size1 - 1) ((size2 : Int) - 1) s
  match sc.vZeroValueBundles.getLast? with
  | none => return s
  | some last => return addLeftover nTargetValue (sc.vValue.drop last) s

/-! ## §4. The selection. -/

def Scaled.units : Int := ((List.range sc.nTotalCoinValues).map (sc.unitsAt denom)).sum

/-- What is picked with the denominator, which is `nGCD` or an approximation. -/
def pickByAge (vValue : List AgeCoin) (nTotalValue nGCD : Int) : Except Abort Selection :=
  if nTotalValue = nTargetValue then return Selection.ofCoins (vValue.map fun c => (c.1.1, c.2))
  else if denom ≠ nGCD then
    let sc := bundleSmall denom vValue
    let nTotalValue := sc.units denom
    -- too much is lost in the approximation
    if nTargetValue.tdiv denom ≥ nTotalValue then
      let r := prepick nTargetValue sc denom sc.nTotalCoinValues 0 nTotalValue { fOk := true }
      if r.2.2.nValueRet ≥ nTargetValue then return r.2.2
      else knapsack nTargetValue sc denom r.1 r.2.1 r.2.2
    else knapsack nTargetValue sc denom 0 nTotalValue { fOk := true }
  else
    knapsack nTargetValue (unbundled vValue) denom 0 (nTotalValue.tdiv denom) { fOk := true }

/-- What is returned where the smaller outputs are the target or more. -/
def selectByAge (vValue : List AgeCoin) : Except Abort Selection := do
  -- the loops over the coins count them with an `unsigned int`
  rejectIf (vValue.length ≥ 2 ^ 32) .endless
  match vValue with
  | [] => .error .dangling
  | coin :: coins =>
    let r := gcdLoop coin coins
    let nGCD := gcd nTargetValue r.1
    let approx := approximation nTargetValue (coin :: coins).length r.2
    let denom := if approx > nGCD then approx else nGCD
    pickByAge nTargetValue denom (coin :: coins) r.2 nGCD

/-- `SelectCoinsMinConfByCoinAge` -/
def selectCoinsMinConfByCoinAge (ties : Ties) (nNow : Int64) (vCoins : List COutput) :
    Except Abort Selection :=
  let mCoins := (ties.arrange (vCoins.map fun out => (out, coinWeightCost nNow out))).mergeSort
    fun a b => a.2 ≤ b.2
  let st := mCoins.foldl (collectAge nTargetValue nSpendTime nConfMine nConfTheirs) {}
  if st.nTotalLower < nTargetValue then
    match st.coinLowestLarger with
    | (_, none) => return { fOk := false }
    | (first, some key) => return Selection.ofCoins [(first.1, key)]
  else selectByAge nTargetValue st.vValue

end Selecting

end Fantom.Wallet
