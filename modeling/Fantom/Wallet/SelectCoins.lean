/-
  Fantom.Wallet.SelectCoins — Which outputs pay for a target.

  * `Best.Good`, `approximateBestSubset_good` — the subset reaches the target with the sum that is
    recorded,
  * `toInt_total` — totals in `int64_t` are the sums of amounts, below `2^63`,
  * `selectCoins_finds_iff` — outputs that are enough are found, unless the denominated ones are
    needed.

  Amounts are added up as integers: outputs that exist were minted, and all that is ever minted is
  far below `2^63`.
-/
import Fantom.Lib.Subsets
import Fantom.Zerosend.Rounds
import Mathlib.Algebra.BigOperators.Group.Finset.Basic

namespace Fantom.Wallet

open Core Lib Zerosend List

/-! ## §1. Outputs of the wallet. -/

def CENT : Int := 1000000

/-- `std::numeric_limits<int64_t>::max()` -/
def INT64_MAX : Int := 2 ^ 63 - 1

/-- What is asked of a `CWalletTx`.  A pointer to one is told from others by its hash. -/
structure CWalletTx where
  hash : UInt256
  nTime : UInt32
  /-- `IsFromMe()` -/
  fFromMe : Bool
  vout : List CTxOut
deriving DecidableEq

/-- `COutput`, whose output is there and passed the checks of its transaction. -/
structure COutput where
  tx : CWalletTx
  i : Nat
  nDepth : Int32
  inside : i < tx.vout.length
  range : moneyRange tx.vout[i].nValue = true

/-- `pair<const CWalletTx*, unsigned int>` -/
abbrev CoinKey := CWalletTx × Nat

/-- `pair<int64_t, pair<const CWalletTx*, unsigned int> >` -/
abbrev Coin := Int × CoinKey

/-- The amount that a pair in the set stands for. -/
def CoinKey.nValue (key : CoinKey) : Int :=
  match key.1.vout[key.2]? with
  | none => 0
  | some out => out.nValue.toInt

/-- `pcoin->vout[i].nValue` -/
def COutput.nValue (output : COutput) : Int64 :=
  have := output.inside
  output.tx.vout[output.i].nValue

variable (output : COutput)

def COutput.key : CoinKey := (output.tx, output.i)

def COutput.coin : Coin := (output.nValue.toInt, output.key)

/-- `less_then_denom` -/
def lessThenDenom (out1 out2 : COutput) : Bool :=
  !isDenominatedAmount out1.nValue && isDenominatedAmount out2.nValue

/-! ## §2. `ApproximateBestSubset`. -/

/-- `vfBest`, `nBest` -/
structure Best where
  vfBest : List Bool
  nBest : Int

/-- The variables of one repetition. -/
structure Rep extends Best where
  nTotal : Int
  vfIncluded : List Bool
  fReachedTarget : Bool

section ApproximateBestSubset

variable (vValue : List Coin) (nTargetValue : Int)

/-- The output `i` is included, and taken back where it reaches the target. -/
def Rep.tryCoin (s : Rep) (i : Nat) (value : Int) : Rep :=
  let nTotal := s.nTotal + value
  let vfIncluded := s.vfIncluded.set i true
  if nTotal ≥ nTargetValue then
    { toBest := if nTotal < s.nBest then ⟨vfIncluded, nTotal⟩ else s.toBest
      nTotal := nTotal - value
      vfIncluded := vfIncluded.set i false
      fReachedTarget := true }
  else { s with nTotal := nTotal, vfIncluded := vfIncluded }

/-- One turn of the inner loop, with the random bit for it. -/
def innerTurn (nPass : Nat) (bit : Nat → Bool) (s : Rep) (i : Nat) : Rep :=
  match vValue[i]? with
  | none => s
  | some coin =>
    if (if nPass = 0 then bit i else !s.vfIncluded.getD i true) then
      s.tryCoin nTargetValue i coin.1
    else s

/-- `for (unsigned int i = 0; i < vValue.size(); i++)` -/
def innerLoop (nPass : Nat) (bit : Nat → Bool) (s : Rep) : Rep :=
  (range vValue.length).foldl (innerTurn vValue nTargetValue nPass bit) s

/-- One repetition: the second pass where the first one did not reach the target. -/
def repetition (bit : Nat → Bool) (best : Best) : Best :=
  let s : Rep :=
    { toBest := best
      nTotal := 0
      vfIncluded := replicate vValue.length false
      fReachedTarget := false }
  let s := innerLoop vValue nTargetValue 0 bit s
  let s := if s.fReachedTarget then s else innerLoop vValue nTargetValue 1 bit s
  s.toBest

/-- `for (int nRep = 0; nRep < iterations && nBest != nTargetValue; nRep++)`, with the number of
repetitions that are left. -/
def repLoop (bits : Nat → Nat → Bool) : (left nRep : Nat) → Best → Best
  | 0, _, best => best
  | left + 1, nRep, best =>
    if best.nBest ≠ nTargetValue then
      repLoop bits left (nRep + 1) (repetition vValue nTargetValue (bits nRep) best)
    else best

def approximateBestSubset (nTotalLower : Int) (bits : Nat → Nat → Bool) (iterations : Nat) :
    Best :=
  repLoop vValue nTargetValue bits iterations 0
    ⟨replicate vValue.length true, nTotalLower⟩

end ApproximateBestSubset

/-! ## §3. `SelectCoinsMinConf`. -/

/-- The random choices: the shuffle, and the bits of the two approximations. -/
structure Draws where
  shuffle : List COutput → List COutput
  perm : ∀ vCoins, (shuffle vCoins).Perm vCoins
  bits : Nat → Nat → Bool
  bitsCent : Nat → Nat → Bool

/-- The variables of the first loop. -/
structure Collected where
  vValue : List Coin := []
  nTotalLower : Int := 0
  /-- `coinLowestLarger`, without its amount where the pointer is `NULL`. -/
  coinLowestLarger : Int × Option CoinKey := (INT64_MAX, none)

/-- What is returned: the verdict, `setCoinsRet` and `nValueRet`. -/
structure Selection where
  fOk : Bool
  setCoinsRet : Finset CoinKey := ∅
  nValueRet : Int := 0

/-- `setCoinsRet.insert(coin.second); nValueRet += coin.first;` -/
def Selection.insert (s : Selection) (coin : Coin) : Selection :=
  { s with setCoinsRet := Insert.insert coin.2 s.setCoinsRet, nValueRet := s.nValueRet + coin.1 }

variable (coins : List Coin)

/-- The coins of a list, inserted one after the other. -/
def Selection.ofCoins : Selection :=
  coins.foldl Selection.insert { fOk := true }

section SelectCoinsMinConf

variable (nTargetValue : Int) (nSpendTime : UInt32) (nConfMine nConfTheirs : Int32)

/-- The depth and the time of an output allow to spend it. -/
def eligible (output : COutput) : Bool :=
  !(output.nDepth < if output.tx.fFromMe then nConfMine else nConfTheirs) &&
    !(output.tx.nTime > nSpendTime)

/-- The output is not passed over by a `continue`. -/
def considered (tryDenom : Nat) (output : COutput) : Bool :=
  eligible nSpendTime nConfMine nConfTheirs output &&
    !(tryDenom == 0 && isDenominatedAmount output.nValue)

/-- `BOOST_FOREACH(COutput output, vCoins)`: a coin that is the target, or what was collected. -/
def collectLoop (tryDenom : Nat) : List COutput → Collected → Coin ⊕ Collected
  | [], st => .inr st
  | output :: vCoins, st =>
    if !considered nSpendTime nConfMine nConfTheirs tryDenom output then
      collectLoop tryDenom vCoins st
    else
      let n := output.nValue.toInt
      let coin := output.coin
      if n = nTargetValue then .inl coin
      else if n < nTargetValue + CENT then
        collectLoop tryDenom vCoins
          { st with vValue := st.vValue ++ [coin], nTotalLower := st.nTotalLower + n }
      else if n < st.coinLowestLarger.1 then
        collectLoop tryDenom vCoins { st with coinLowestLarger := (coin.1, some coin.2) }
      else collectLoop tryDenom vCoins st

variable (draws : Draws)

/-- The approximation of the target and, where that is not met, of the target and a cent. -/
def bestSubset (vValue : List Coin) (nTotalLower : Int) : Best :=
  let best := approximateBestSubset vValue nTargetValue nTotalLower draws.bits 1000
  if best.nBest ≠ nTargetValue ∧ nTotalLower ≥ nTargetValue + CENT then
    approximateBestSubset vValue (nTargetValue + CENT) nTotalLower draws.bitsCent 1000
  else best

/-- What is returned where the smaller outputs are more than the target. -/
def selectSubset (st : Collected) : Selection :=
  let vValue := st.vValue.mergeSort fun a b => b.1 ≤ a.1
  let best := bestSubset nTargetValue draws vValue st.nTotalLower
  let subset := Selection.ofCoins (chosen vValue best.vfBest)
  match st.coinLowestLarger with
  | (first, some key) =>
    if (best.nBest ≠ nTargetValue ∧ best.nBest < nTargetValue + CENT) ∨ first ≤ best.nBest then
      Selection.ofCoins [(first, key)]
    else subset
  | (_, none) => subset

/-- The body of the loop over `tryDenom`, each branch of which returns. -/
def selectTurn (tryDenom : Nat) (vCoins : List COutput) : Selection :=
  match collectLoop nTargetValue nSpendTime nConfMine nConfTheirs tryDenom vCoins {} with
  | .inl coin => Selection.ofCoins [coin]
  | .inr st =>
    if st.nTotalLower = nTargetValue then Selection.ofCoins st.vValue
    else if st.nTotalLower < nTargetValue then
      match st.coinLowestLarger with
      | (_, none) => { fOk := false }
      | (first, some key) => Selection.ofCoins [(first, key)]
    else selectSubset nTargetValue draws st

/-- `for (unsigned int tryDenom = 0; tryDenom < 2; tryDenom++)`: the first turn returns. -/
def denomLoop (vCoins : List COutput) : List Nat → Selection
  | [] => { fOk := false }
  | tryDenom :: _ =>
    selectTurn nTargetValue nSpendTime nConfMine nConfTheirs draws tryDenom vCoins

def selectCoinsMinConf (vCoins : List COutput) : Selection :=
  -- move denoms down on the list
  let vCoins := (draws.shuffle vCoins).mergeSort fun a b => !lessThenDenom b a
  denomLoop nTargetValue nSpendTime nConfMine nConfTheirs draws vCoins [0, 1]

end SelectCoinsMinConf

/-! ## §4. The approximation. -/

section Approximation

variable {vValue : List Coin} {nTargetValue : Int}

def sumOf : Int := (coins.map Prod.fst).sum

theorem sumOf_cons (coin : Coin) (coins : List Coin) :
    sumOf (coin :: coins) = coin.1 + sumOf coins := sum_cons

theorem sumOf_append (coins coins' : List Coin) :
    sumOf (coins ++ coins') = sumOf coins + sumOf coins' := by
  unfold sumOf
  rw [map_append, sum_append]

theorem sumOf_perm {coins coins' : List Coin} (h : coins.Perm coins') :
    sumOf coins = sumOf coins' := (h.map Prod.fst).sum_eq

/-- The subset has the sum that is recorded, and reaches the target. -/
structure Best.Good (vValue : List Coin) (nTargetValue : Int) (best : Best) : Prop where
  sum : sumOf (chosen vValue best.vfBest) = best.nBest
  reaches : nTargetValue ≤ best.nBest

/-- The best subset is good, and the running one has the sum that is recorded. -/
structure Rep.Good (vValue : List Coin) (nTargetValue : Int) (s : Rep) : Prop where
  best : s.toBest.Good vValue nTargetValue
  size : s.vfIncluded.length = vValue.length
  sum : sumOf (chosen vValue s.vfIncluded) = s.nTotal

/-- **A coin that is tried**, one that is not included yet. -/
theorem Rep.Good.tryCoin {s : Rep} (h : s.Good vValue nTargetValue) {i : Nat} {coin : Coin}
    (hcoin : vValue[i]? = some coin) (hflag : s.vfIncluded[i]? = some false) :
    (s.tryCoin nTargetValue i coin.1).Good vValue nTargetValue ∧
      ∀ j, j ≠ i → (s.tryCoin nTargetValue i coin.1).vfIncluded[j]? = s.vfIncluded[j]? := by
  have hsum : sumOf (chosen vValue (s.vfIncluded.set i true)) = s.nTotal + coin.1 := by
    rw [sumOf_perm (chosen_set hcoin hflag), sumOf_cons, h.sum, Int.add_comm]
  unfold Rep.tryCoin
  dsimp only
  by_cases hreached : s.nTotal + coin.1 ≥ nTargetValue
  · rw [if_pos hreached, set_set_back hflag]
    refine ⟨⟨?_, h.size, ?_⟩, fun j _ => rfl⟩
    · dsimp only
      by_cases hless : s.nTotal + coin.1 < s.nBest
      · rw [if_pos hless]
        exact ⟨hsum, hreached⟩
      · rw [if_neg hless]
        exact h.best
    · dsimp only
      rw [h.sum]
      omega
  · rw [if_neg hreached]
    refine ⟨⟨h.best, ?_, hsum⟩, fun j hj => getElem?_set_ne hj.symm⟩
    dsimp only
    rw [length_set]
    exact h.size

theorem innerLoop_first {s : Rep} (h : s.Good vValue nTargetValue) (bit : Nat → Bool)
    (hflags : ∀ j, j < vValue.length → s.vfIncluded[j]? = some false) :
    (innerLoop vValue nTargetValue 0 bit s).Good vValue nTargetValue := by
  let P : Nat → Rep → Prop := fun i s => s.Good vValue nTargetValue ∧
    ∀ j, i ≤ j → j < vValue.length → s.vfIncluded[j]? = some false
  have hinit : P 0 s := ⟨h, fun j _ => hflags j⟩
  refine (foldl_range P hinit ?_).1
  rintro i s hi ⟨hgood, hrest⟩
  rw [innerTurn, getElem?_eq_getElem hi]
  dsimp only
  rw [if_pos rfl]
  cases bit i with
  | false => exact ⟨hgood, fun j hj => hrest j (by omega)⟩
  | true =>
    obtain ⟨hgood', hsame⟩ :=
      hgood.tryCoin (getElem?_eq_getElem hi) (hrest i (Nat.le_refl i) hi)
    refine ⟨hgood', fun j hj hlt => ?_⟩
    rw [if_pos rfl, hsame j (by omega)]
    exact hrest j (by omega) hlt

theorem innerLoop_second {s : Rep} (h : s.Good vValue nTargetValue) (bit : Nat → Bool) :
    (innerLoop vValue nTargetValue 1 bit s).Good vValue nTargetValue := by
  refine foldl_range (fun _ s => Rep.Good vValue nTargetValue s) h ?_
  intro i s hi hgood
  have hlt : i < s.vfIncluded.length := hgood.size ▸ hi
  rw [innerTurn, getElem?_eq_getElem hi]
  dsimp only
  rw [if_neg Nat.one_ne_zero, getD_eq_getElem?_getD, getElem?_eq_getElem hlt]
  cases hflag : s.vfIncluded[i] with
  | true => exact hgood
  | false =>
    have hflag' : s.vfIncluded[i]? = some false := by
      rw [getElem?_eq_getElem hlt, hflag]
    exact (hgood.tryCoin (getElem?_eq_getElem hi) hflag').1

theorem repetition_good {best : Best} (h : best.Good vValue nTargetValue) (bit : Nat → Bool) :
    (repetition vValue nTargetValue bit best).Good vValue nTargetValue := by
  unfold repetition
  dsimp only
  have hempty : Rep.Good vValue nTargetValue
      { toBest := best, nTotal := 0, vfIncluded := replicate vValue.length false,
        fReachedTarget := false } := by
    refine ⟨h, length_replicate, ?_⟩
    rw [chosen_replicate_false]
    rfl
  have hfirst := innerLoop_first hempty bit fun j hj => by
    rw [getElem?_replicate, if_pos hj]
  split_ifs
  · exact hfirst.best
  · exact (innerLoop_second hfirst bit).best

theorem repLoop_good (bits : Nat → Nat → Bool) (left nRep : Nat) {best : Best}
    (h : best.Good vValue nTargetValue) :
    (repLoop vValue nTargetValue bits left nRep best).Good vValue nTargetValue := by
  induction left generalizing nRep best with
  | zero => exact h
  | succ left ih =>
    rw [repLoop]
    by_cases hbest : best.nBest ≠ nTargetValue
    · rw [if_pos hbest]
      exact ih (nRep + 1) (repetition_good h (bits nRep))
    · rw [if_neg hbest]
      exact h

/-- **The approximation**: a subset that reaches the target, with its sum, if all do. -/
theorem approximateBestSubset_good (bits : Nat → Nat → Bool) (iterations : Nat)
    (h : nTargetValue ≤ sumOf vValue) :
    (approximateBestSubset vValue nTargetValue (sumOf vValue) bits iterations).Good vValue
      nTargetValue := by
  refine repLoop_good bits iterations 0 ⟨?_, h⟩
  dsimp only
  rw [chosen_replicate_true]

end Approximation

/-! ## §5. Outputs and their coins. -/

section Outputs

variable (outputs : List COutput)

def amountOf : Int := (outputs.map (·.nValue.toInt)).sum

theorem amountOf_cons :
    amountOf (output :: outputs) = output.nValue.toInt + amountOf outputs := sum_cons

theorem amountOf_perm {outputs outputs' : List COutput} (h : outputs.Perm outputs') :
    amountOf outputs = amountOf outputs' := (h.map _).sum_eq

theorem sumOf_coins : sumOf (outputs.map COutput.coin) = amountOf outputs := by
  unfold sumOf amountOf
  rw [map_map]
  rfl

theorem COutput.nValue_range : 0 ≤ output.nValue.toInt ∧ output.nValue.toInt < INT64_MAX := by
  obtain ⟨hlow, hhigh⟩ := moneyRange_iff.mp output.range
  have hmax : MAX_MONEY.toInt < INT64_MAX := by decide
  exact ⟨hlow, hhigh.trans_lt hmax⟩

theorem amountOf_sublist {outputs outputs' : List COutput} (h : outputs.Sublist outputs') :
    amountOf outputs ≤ amountOf outputs' := by
  induction h with
  | slnil => exact le_refl _
  | cons output _ ih =>
    have hnonneg := output.nValue_range.1
    rw [amountOf_cons]
    omega
  | cons_cons output _ ih =>
    rw [amountOf_cons, amountOf_cons]
    omega

theorem le_amountOf_of_mem {output : COutput} {outputs : List COutput} (h : output ∈ outputs) :
    output.nValue.toInt ≤ amountOf outputs := by
  have hle := amountOf_sublist (singleton_sublist.mpr h)
  rw [amountOf_cons] at hle
  have hzero : amountOf [] = 0 := rfl
  omega

/-- **Totals in `int64_t`** are these sums, while the amounts together stay below `2^63`. -/
theorem toInt_total {outputs : List COutput} {n : Int64} (hn : 0 ≤ n.toInt)
    (h : n.toInt + amountOf outputs < 2 ^ 63) :
    (outputs.foldl (fun n output => n + output.nValue) n).toInt =
      n.toInt + amountOf outputs := by
  induction outputs generalizing n with
  | nil => exact (add_zero _).symm
  | cons output outputs ih =>
    have hlow := output.nValue_range.1
    have hrest : amountOf [] ≤ amountOf outputs := amountOf_sublist (nil_sublist _)
    have hzero : amountOf [] = 0 := rfl
    rw [amountOf_cons] at h ⊢
    have hadd : (n + output.nValue).toInt = n.toInt + output.nValue.toInt := by
      rw [Int64.toInt_add, Int.bmod_eq_of_le] <;> omega
    rw [foldl_cons, ih (by omega) (by omega), hadd, add_assoc]

@[simp] theorem COutput.key_nValue : output.key.nValue = output.nValue.toInt := by
  unfold CoinKey.nValue COutput.key
  rw [getElem?_eq_getElem output.inside]
  rfl

theorem coins_map_key : (outputs.map COutput.coin).map Prod.snd = outputs.map COutput.key := by
  rw [map_map]
  rfl

end Outputs

/-! ## §6. The first loop. -/

section Collecting

variable {nTargetValue : Int}

def lower (nTargetValue : Int) (output : COutput) : Bool :=
  output.nValue.toInt < nTargetValue + CENT

theorem lower_iff {output : COutput} :
    lower nTargetValue output = true ↔ output.nValue.toInt < nTargetValue + CENT :=
  decide_eq_true_iff

variable (nTargetValue) in
/-- What is collected from the outputs `pool`: the lower ones with their sum, and one of the
others if there is one. -/
structure Collected.Spec (pool : List COutput) (st : Collected) : Prop where
  vValue : st.vValue = (pool.filter (lower nTargetValue)).map COutput.coin
  total : st.nTotalLower = sumOf st.vValue
  none_larger : st.coinLowestLarger.2 = none →
    st.coinLowestLarger.1 = INT64_MAX ∧ ∀ output ∈ pool, lower nTargetValue output = true
  some_larger : ∀ key, st.coinLowestLarger.2 = some key → ∃ output ∈ pool,
    nTargetValue + CENT ≤ output.nValue.toInt ∧ output.coin = (st.coinLowestLarger.1, key)

theorem Collected.spec_nil : Collected.Spec nTargetValue [] {} where
  vValue := rfl
  total := rfl
  none_larger _ := ⟨rfl, forall_mem_nil _⟩
  some_larger _ h := nomatch h

variable {pool : List COutput} {st : Collected} {output : COutput}

theorem Collected.Spec.push (h : st.Spec nTargetValue pool)
    (hlower : output.nValue.toInt < nTargetValue + CENT) :
    Collected.Spec nTargetValue (pool ++ [output])
      { st with vValue := st.vValue ++ [output.coin],
                nTotalLower := st.nTotalLower + output.nValue.toInt } where
  vValue := by
    dsimp only
    rw [filter_append, filter_cons_of_pos (lower_iff.mpr hlower), map_append,
      h.vValue]
    rfl
  total := by
    dsimp only
    rw [sumOf_append, ← h.total, sumOf_cons]
    exact congrArg (st.nTotalLower + ·) (Int.add_zero _).symm
  none_larger hnone := by
    obtain ⟨hmax, hall⟩ := h.none_larger hnone
    exact ⟨hmax, forall_mem_append.mpr ⟨hall, forall_mem_singleton.mpr (lower_iff.mpr hlower)⟩⟩
  some_larger key hkey := by
    obtain ⟨o, ho, hlarger, hcoin⟩ := h.some_larger key hkey
    exact ⟨o, mem_append_left _ ho, hlarger, hcoin⟩

theorem Collected.Spec.larger (h : st.Spec nTargetValue pool)
    (hlarger : ¬output.nValue.toInt < nTargetValue + CENT) :
    Collected.Spec nTargetValue (pool ++ [output])
      (if output.nValue.toInt < st.coinLowestLarger.1 then
        { st with coinLowestLarger := (output.coin.1, some output.coin.2) } else st) := by
  have hfilter : (pool ++ [output]).filter (lower nTargetValue) =
      pool.filter (lower nTargetValue) := by
    rw [filter_append, filter_cons_of_neg (mt lower_iff.mp hlarger),
      filter_nil, append_nil]
  by_cases hless : output.nValue.toInt < st.coinLowestLarger.1
  · rw [if_pos hless]
    refine ⟨h.vValue.trans (by rw [hfilter]), h.total, nofun, fun key hkey => ?_⟩
    cases hkey
    exact ⟨output, mem_append_right _ mem_cons_self, Int.not_lt.mp hlarger, rfl⟩
  · rw [if_neg hless]
    refine ⟨h.vValue.trans (by rw [hfilter]), h.total, fun hnone => ?_, fun key hkey => ?_⟩
    · -- nothing is kept yet, and no amount is as large as the bound
      have hmax := (h.none_larger hnone).1
      have hrange := output.nValue_range.2
      omega
    · obtain ⟨o, ho, ho', hcoin⟩ := h.some_larger key hkey
      exact ⟨o, mem_append_left _ ho, ho', hcoin⟩

variable {nSpendTime : UInt32} {nConfMine nConfTheirs : Int32} {tryDenom : Nat}

/-- **The loop** ends with an output that is the target, or has collected all. -/
theorem collectLoop_spec (h : st.Spec nTargetValue pool) (vCoins : List COutput) :
    (∃ output ∈ vCoins.filter (considered nSpendTime nConfMine nConfTheirs tryDenom),
      output.nValue.toInt = nTargetValue ∧
      collectLoop nTargetValue nSpendTime nConfMine nConfTheirs tryDenom vCoins st =
        .inl output.coin) ∨
    ∃ st', collectLoop nTargetValue nSpendTime nConfMine nConfTheirs tryDenom vCoins st =
        .inr st' ∧
      st'.Spec nTargetValue
        (pool ++ vCoins.filter (considered nSpendTime nConfMine nConfTheirs tryDenom)) := by
  induction vCoins generalizing pool st with
  | nil => exact .inr ⟨st, rfl, by rwa [filter_nil, append_nil]⟩
  | cons output vCoins ih =>
    rw [collectLoop]
    cases hconsidered : considered nSpendTime nConfMine nConfTheirs tryDenom output with
    | false =>
      rw [filter_cons_of_neg (by rw [hconsidered]; decide)]
      exact ih h
    | true =>
      rw [filter_cons_of_pos hconsidered, append_cons]
      by_cases htarget : output.nValue.toInt = nTargetValue
      · exact .inl ⟨output, mem_cons_self, htarget, by
          rw [if_neg (by decide), if_pos htarget]⟩
      dsimp only
      rw [if_neg (by decide), if_neg htarget]
      by_cases hlower : output.nValue.toInt < nTargetValue + CENT
      · rw [if_pos hlower]
        exact (ih (h.push hlower)).imp_left exists_mem_cons_of_exists
      · rw [if_neg hlower]
        have hlarger := h.larger hlower
        by_cases hless : output.nValue.toInt < st.coinLowestLarger.1
        · rw [if_pos hless] at hlarger ⊢
          exact (ih hlarger).imp_left exists_mem_cons_of_exists
        · rw [if_neg hless] at hlarger ⊢
          exact (ih hlarger).imp_left exists_mem_cons_of_exists

end Collecting

/-! ## §7. The selection. -/

section Selecting

variable {nTargetValue : Int} {pool : List COutput}

variable (nTargetValue pool) in
/-- The selection is some of the outputs `pool`, with the sum of their amounts, which reaches the
target. -/
structure Selection.Sound (s : Selection) : Prop where
  subset : ∀ key ∈ s.setCoinsRet, ∃ output ∈ pool, output.key = key
  value : s.nValueRet = ∑ key ∈ s.setCoinsRet, key.nValue
  enough : nTargetValue ≤ s.nValueRet

theorem foldl_insert (s : Selection) : (coins.foldl Selection.insert s).fOk = s.fOk ∧
    (coins.foldl Selection.insert s).setCoinsRet = s.setCoinsRet ∪ (coins.map Prod.snd).toFinset ∧
    (coins.foldl Selection.insert s).nValueRet = s.nValueRet + sumOf coins := by
  induction coins generalizing s with
  | nil => exact ⟨rfl, (Finset.union_empty _).symm, (Int.add_zero _).symm⟩
  | cons coin coins ih =>
    obtain ⟨hok, hset, hvalue⟩ := ih (s.insert coin)
    rw [foldl_cons]
    refine ⟨hok, hset.trans ?_, hvalue.trans ?_⟩
    · rw [map_cons, toFinset_cons, Finset.union_insert, ← Finset.insert_union]
      rfl
    · rw [sumOf_cons, ← Int.add_assoc]
      rfl

/-- **Coins of distinct outputs** that reach the target. -/
theorem ofCoins_sound (hkeys : (pool.map COutput.key).Nodup) {coins : List Coin}
    (hsub : coins.Subperm (pool.map COutput.coin)) (henough : nTargetValue ≤ sumOf coins) :
    (Selection.ofCoins coins).fOk = true ∧
      (Selection.ofCoins coins).Sound nTargetValue pool := by
  obtain ⟨hok, hset, hvalue⟩ := foldl_insert coins { fOk := true }
  rw [Finset.empty_union] at hset
  rw [Int.zero_add] at hvalue
  have hmem : ∀ coin ∈ coins, ∃ output ∈ pool, output.coin = coin := fun coin hcoin =>
    mem_map.mp (hsub.subset hcoin)
  have hnodup : (coins.map Prod.snd).Nodup := by
    obtain ⟨coins', hperm, hsublist⟩ := hsub
    rw [← coins_map_key] at hkeys
    exact (hperm.map Prod.snd).nodup_iff.mp (hkeys.sublist (hsublist.map Prod.snd))
  refine ⟨hok, fun key hkey => ?_, ?_, hvalue.symm ▸ henough⟩
  · rw [Selection.ofCoins, hset, mem_toFinset] at hkey
    obtain ⟨coin, hcoin, rfl⟩ := mem_map.mp hkey
    obtain ⟨output, houtput, rfl⟩ := hmem coin hcoin
    exact ⟨output, houtput, rfl⟩
  · rw [Selection.ofCoins, hset, hvalue, sum_toFinset _ hnodup, map_map]
    refine congrArg sum (map_congr_left fun coin hcoin => ?_)
    obtain ⟨output, _, rfl⟩ := hmem coin hcoin
    exact output.key_nValue.symm

theorem ofCoins_singleton_sound (hkeys : (pool.map COutput.key).Nodup) {output : COutput}
    (houtput : output ∈ pool) (henough : nTargetValue ≤ output.nValue.toInt) :
    (Selection.ofCoins [output.coin]).fOk = true ∧
      (Selection.ofCoins [output.coin]).Sound nTargetValue pool := by
  refine ofCoins_sound hkeys ?_ ?_
  · exact (singleton_sublist.mpr (mem_map_of_mem houtput)).subperm
  · rw [sumOf_cons]
    exact henough.trans_eq (Int.add_zero _).symm

theorem bestSubset_good {vValue : List Coin} (h : nTargetValue ≤ sumOf vValue) (draws : Draws) :
    (bestSubset nTargetValue draws vValue (sumOf vValue)).Good vValue nTargetValue := by
  unfold bestSubset
  dsimp only
  split_ifs with hcent
  · obtain ⟨hsubset, hreaches⟩ := approximateBestSubset_good draws.bitsCent 1000 hcent.2
    have hpos : 0 < CENT := by decide
    exact ⟨hsubset, by omega⟩
  · exact approximateBestSubset_good draws.bits 1000 h

variable {st : Collected}

/-- **The subset**, or the larger output in its place. -/
theorem selectSubset_sound (hkeys : (pool.map COutput.key).Nodup)
    (hst : st.Spec nTargetValue pool) (henough : nTargetValue ≤ st.nTotalLower) (draws : Draws) :
    (selectSubset nTargetValue draws st).fOk = true ∧
      (selectSubset nTargetValue draws st).Sound nTargetValue pool := by
  have hperm := mergeSort_perm st.vValue fun a b => b.1 ≤ a.1
  have hsum : sumOf (st.vValue.mergeSort fun a b => b.1 ≤ a.1) = st.nTotalLower :=
    (sumOf_perm hperm).trans hst.total.symm
  unfold selectSubset
  dsimp only
  rw [← hsum] at henough ⊢
  generalize st.vValue.mergeSort (fun a b => b.1 ≤ a.1) = vValue at hperm henough ⊢
  have hbest := bestSubset_good henough draws
  generalize bestSubset nTargetValue draws vValue (sumOf vValue) = best at hbest ⊢
  have hsubset : (Selection.ofCoins (chosen vValue best.vfBest)).fOk = true ∧
      (Selection.ofCoins (chosen vValue best.vfBest)).Sound nTargetValue pool := by
    refine ofCoins_sound hkeys ?_ (hbest.sum.symm ▸ hbest.reaches)
    have hlower : st.vValue.Sublist (pool.map COutput.coin) := by
      rw [hst.vValue]
      exact filter_sublist.map COutput.coin
    exact ((chosen_sublist vValue best.vfBest).subperm.trans hperm.subperm).trans hlower.subperm
  rcases hlargest : st.coinLowestLarger with ⟨first, _ | key⟩
  · exact hsubset
  · dsimp only
    split_ifs
    · obtain ⟨output, houtput, hlarger, hcoin⟩ := hst.some_larger key (by rw [hlargest])
      rw [hlargest] at hcoin
      have hpos : 0 < CENT := by decide
      rw [← hcoin]
      exact ofCoins_singleton_sound hkeys houtput (by omega)
    · exact hsubset

end Selecting

/-! ## §8. The result. -/

section Result

variable (nTargetValue : Int) (nSpendTime : UInt32) (nConfMine nConfTheirs : Int32)
  (draws : Draws) (tryDenom : Nat)

/-- **One turn** succeeds exactly where the outputs that it considers are enough. -/
theorem selectTurn_spec {vCoins : List COutput} (hkeys : (vCoins.map COutput.key).Nodup) :
    let pool := vCoins.filter (considered nSpendTime nConfMine nConfTheirs tryDenom)
    let s := selectTurn nTargetValue nSpendTime nConfMine nConfTheirs draws tryDenom vCoins
    (nTargetValue ≤ amountOf pool ∧ s.fOk = true ∧ s.Sound nTargetValue pool) ∨
      (amountOf pool < nTargetValue ∧ s.fOk = false) := by
  intro pool s
  have hpool : (pool.map COutput.key).Nodup :=
    hkeys.sublist (filter_sublist.map COutput.key)
  have hpos : 0 < CENT := by decide
  unfold s selectTurn
  have hcollect := @collectLoop_spec nTargetValue [] {} nSpendTime nConfMine nConfTheirs tryDenom
    Collected.spec_nil vCoins
  rcases hcollect with ⟨output, houtput, htarget, hloop⟩ | ⟨st, hloop, hst⟩
  · rw [hloop]
    exact .inl ⟨htarget.ge.trans (le_amountOf_of_mem houtput),
      ofCoins_singleton_sound hpool houtput htarget.ge⟩
  · rw [hloop]
    rw [nil_append] at hst
    have hvValue : st.vValue.Subperm (pool.map COutput.coin) := by
      rw [hst.vValue]
      exact (filter_sublist.map COutput.coin).subperm
    have hlower : st.nTotalLower = amountOf (pool.filter (lower nTargetValue)) := by
      rw [hst.total, hst.vValue, sumOf_coins]
    have hle : st.nTotalLower ≤ amountOf pool := by
      rw [hlower]
      exact amountOf_sublist filter_sublist
    dsimp only
    by_cases hexact : st.nTotalLower = nTargetValue
    · rw [if_pos hexact]
      exact .inl ⟨hexact.ge.trans hle, ofCoins_sound hpool hvValue (hst.total ▸ hexact.ge)⟩
    rw [if_neg hexact]
    by_cases hless : st.nTotalLower < nTargetValue
    · rw [if_pos hless]
      rcases hlargest : st.coinLowestLarger with ⟨first, _ | key⟩
      · -- all of them are lower ones
        have hall := (hst.none_larger (by rw [hlargest])).2
        rw [filter_eq_self.mpr hall] at hlower
        exact .inr ⟨hlower ▸ hless, rfl⟩
      · obtain ⟨output, houtput, hlarger, hcoin⟩ := hst.some_larger key (by rw [hlargest])
        rw [hlargest] at hcoin
        have henough : nTargetValue ≤ output.nValue.toInt := by omega
        dsimp only at hcoin ⊢
        rw [← hcoin]
        exact .inl ⟨henough.trans (le_amountOf_of_mem houtput),
          ofCoins_singleton_sound hpool houtput henough⟩
    · rw [if_neg hless]
      have henough : nTargetValue ≤ st.nTotalLower := by omega
      exact .inl ⟨henough.trans hle, selectSubset_sound hpool hst henough draws⟩

theorem filter_considered (vCoins : List COutput) :
    vCoins.filter (considered nSpendTime nConfMine nConfTheirs 0) =
      (vCoins.filter (eligible nSpendTime nConfMine nConfTheirs)).filter
        fun output => !isDenominatedAmount output.nValue := by
  rw [filter_filter]
  refine filter_congr fun output _ => ?_
  rw [considered, beq_self_eq_true, Bool.true_and, Bool.and_comm]

/-- **The selection** succeeds exactly where the outputs that are not denominated are enough. -/
theorem selectCoinsMinConf_spec {vCoins : List COutput}
    (hkeys : (vCoins.map COutput.key).Nodup) :
    let pool := vCoins.filter (eligible nSpendTime nConfMine nConfTheirs)
    let plain := pool.filter fun output => !isDenominatedAmount output.nValue
    let s := selectCoinsMinConf nTargetValue nSpendTime nConfMine nConfTheirs draws vCoins
    (nTargetValue ≤ amountOf plain ∧ s.fOk = true ∧ s.Sound nTargetValue pool) ∨
      (amountOf plain < nTargetValue ∧ s.fOk = false) := by
  intro pool plain s
  have hperm : ((draws.shuffle vCoins).mergeSort fun a b => !lessThenDenom b a).Perm vCoins :=
    (mergeSort_perm _ _).trans (draws.perm vCoins)
  unfold s selectCoinsMinConf denomLoop
  dsimp only
  generalize (draws.shuffle vCoins).mergeSort (fun a b => !lessThenDenom b a) = vCoins' at hperm ⊢
  have hplain : (vCoins'.filter (considered nSpendTime nConfMine nConfTheirs 0)).Perm plain := by
    unfold plain pool
    rw [← filter_considered]
    exact hperm.filter _
  have hkeys' : (vCoins'.map COutput.key).Nodup := (hperm.map COutput.key).nodup_iff.mpr hkeys
  have hturn :=
    selectTurn_spec nTargetValue nSpendTime nConfMine nConfTheirs draws 0 hkeys'
  dsimp only at hturn
  rw [amountOf_perm hplain] at hturn
  refine hturn.imp_left fun ⟨henough, hok, hsound⟩ => ⟨henough, hok, ?_⟩
  refine ⟨fun key hkey => ?_, hsound.value, hsound.enough⟩
  obtain ⟨output, houtput, hkey'⟩ := hsound.subset key hkey
  exact ⟨output, mem_of_mem_filter (hplain.mem_iff.mp houtput), hkey'⟩

end Result

/-! ## §9. Two outputs. -/

def sampleCoinTx (hash : UInt256) (nValue : Int64) : CWalletTx where
  hash := hash
  nTime := 0
  fFromMe := false
  vout := [{ nValue := nValue, scriptPubKey := [], nRounds := 0 }]

def sampleOutputs : List COutput :=
  [⟨sampleCoinTx 1 50000000, 0, 10, by decide, by decide⟩,
    ⟨sampleCoinTx 2 (COIN + 1000), 0, 10, by decide, by decide⟩]

def plainDraws : Draws where
  shuffle := id
  perm := List.Perm.refl
  bits _ _ := true
  bitsCent _ _ := true

end Fantom.Wallet
