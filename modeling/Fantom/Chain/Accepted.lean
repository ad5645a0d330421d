/-
  Fantom.Chain.Accepted — What an accepted step of block connection says, one lemma a function:

  * `connectInputs_ok`, `connectTx_ok`, `connectBlock_ok` — the pieces.

  Everything later is derived from these; no later proof unfolds the functions.
-/
import Fantom.Chain.TxIndex

namespace Fantom.Chain

open Core Lib List StdMap Bool

variable {env : ChainEnv}

/-! ## §1. Previous transactions. -/

def indexWith (db : Records) (queue : TxIndexMap) : TxIndexMap := StdMap.overlay db.tx queue

theorem readQueued_eq (db : Records) (queue : TxIndexMap) (h : UInt256) :
    readQueued db queue true h = (indexWith db queue)[h]? := by
  rw [indexWith, get_overlay]
  rfl

/-- Previous transactions agree with an index: every entry is the one of the
index, with the transaction it refers to. -/
def Fetched (env : ChainEnv) (m : TxIndexMap) (inputs : MapPrevTx) : Prop :=
  ∀ (h : UInt256) (txindex : CTxIndex) (txPrev : CTransaction),
    inputs[h]? = some (txindex, txPrev) →
      m[h]? = some txindex ∧ prevTx env (positionsOf m) h = some txPrev

theorem Fetched.empty (m : TxIndexMap) : Fetched env m ∅ := by
  intro h txindex txPrev hget
  rw [get_empty] at hget
  cases hget

variable {m : TxIndexMap} {inputs : MapPrevTx} {db : Records} {tx : CTransaction} {v : Int64}
    {txin : CTxIn} {pos : CDiskTxPos} {fVerify : Bool} {flags : UInt32} {pindex : CBlockIndex}

theorem Fetched.insert (hf : Fetched env m inputs) {h : UInt256} {txindex : CTxIndex}
    {txPrev : CTransaction} (hm : m[h]? = some txindex)
    (hread : readPrev env h txindex.pos = .ok txPrev) :
    Fetched env m (inputs.insert h (txindex, txPrev)) := by
  intro k txindex' txPrev' hget
  rw [get_insert] at hget
  split at hget
  next hk =>
    cases hget
    refine ⟨hk ▸ hm, ?_⟩
    unfold prevTx positionsOf
    rw [← hk, hm, Option.map_some, Option.bind_some, hread]
    rfl
  next => exact hf k txindex' txPrev' hget

/-- **`FetchInputs` on a block** that succeeds returns the previous transactions
the index refers to, one for every input. -/
theorem fetched_of_ok {queue : TxIndexMap} (hcb : tx.isCoinBase = false)
    (h : fetchInputs env db queue true false tx ∅ = .ok inputs) :
    Fetched env (indexWith db queue) inputs := by
  rw [fetchInputs, hcb, if_neg Bool.false_ne_true] at h
  obtain ⟨m, hloop, h⟩ := bind_eq_ok.mp h
  obtain ⟨_, _, h⟩ := bind_eq_ok.mp h
  cases pure_eq_ok.mp h
  refine foldlM_invariant (Fetched env (indexWith db queue)) (Fetched.empty _) ?_ hloop
  intro txin _ s s' hs hstep
  unfold fetchInput at hstep
  split at hstep
  next => cases hstep; exact hs
  next =>
    split at hstep
    next txindex hread =>
      obtain ⟨txPrev, hprev, hstep⟩ := bind_eq_ok.mp hstep
      cases pure_eq_ok.mp hstep
      refine hs.insert ?_ hprev
      rw [← readQueued_eq]
      exact hread
    next =>
      -- an unknown transaction is refused in a block
      obtain ⟨_, _, hstep⟩ := bind_eq_ok.mp hstep
      obtain ⟨_, hblock, _⟩ := bind_eq_ok.mp hstep
      rw [rejectIf_eq_ok] at hblock
      cases hblock

/-! ## §2. Values. -/

theorem checkInput_ok {pindexBlock : CBlockIndex} {v' : Int64}
    (h : checkInput env tx inputs pindexBlock v txin = .ok v') :
    ∃ txindex txPrev txout, inputs[txin.prevout.hash]? = some (txindex, txPrev) ∧
      txPrev.vout[txin.prevout.n.toNat]? = some txout ∧
      moneyRange txout.nValue = true ∧ moneyRange v' = true ∧ v' = v + txout.nValue := by
  unfold checkInput at h
  obtain ⟨⟨txindex, txPrev⟩, hget, h⟩ := bind_eq_ok.mp h
  obtain ⟨_, _, h⟩ := bind_eq_ok.mp h
  obtain ⟨txout, hout, h⟩ := bind_eq_ok.mp h
  obtain ⟨_, _, h⟩ := bind_eq_ok.mp h
  obtain ⟨_, _, h⟩ := bind_eq_ok.mp h
  obtain ⟨_, _, h⟩ := bind_eq_ok.mp h
  obtain ⟨_, hrange, h⟩ := bind_eq_ok.mp h
  cases pure_eq_ok.mp h
  obtain ⟨h1, h2⟩ : moneyRange txout.nValue = true ∧ moneyRange (v + txout.nValue) = true := by
    simpa using hrange
  exact ⟨txindex, txPrev, txout, required_eq_ok.mp hget, required_eq_ok.mp hout, h1, h2, rfl⟩

theorem Fetched.prevOut_eq (hf : Fetched env m inputs) {txindex : CTxIndex} {txPrev : CTransaction}
    (hget : inputs[txin.prevout.hash]? = some (txindex, txPrev)) :
    prevOut env (positionsOf m) txin = txPrev.vout[txin.prevout.n.toNat]? := by
  rw [prevOut, (hf _ _ _ hget).2]
  rfl

theorem checkInputs_value (hf : Fetched env m inputs) {pindexBlock : CBlockIndex}
    {txins : List CTxIn} (h : txins.foldlM (checkInput env tx inputs pindexBlock) 0 = .ok v) :
    moneyRange v = true ∧ v.toInt = (txins.map (valueSpent env (positionsOf m))).sum := by
  refine foldlM_rule (fun done (v : Int64) => moneyRange v = true ∧
    v.toInt = (done.map (valueSpent env (positionsOf m))).sum) ⟨by decide, rfl⟩ ?_ h
  intro done txin rest s s' _ hs hstep
  obtain ⟨hrange, hsum⟩ := hs
  obtain ⟨txindex, txPrev, txout, hget, hout, h1, h2, rfl⟩ := checkInput_ok hstep
  refine ⟨h2, ?_⟩
  have hspent : valueSpent env (positionsOf m) txin = txout.nValue.toInt := by
    rw [valueSpent, hf.prevOut_eq hget, hout]
    rfl
  rw [toInt_add_of_moneyRange hrange h1, hsum, map_append, sum_append, map_cons,
    hspent]
  simp

theorem getValueIn_sum {value : CTxIn → Int}
    (hvalue : ∀ txin txout, getOutputFor inputs txin = some txout → value txin = txout.nValue.toInt)
    (hcb : tx.isCoinBase = false) (h : getValueIn tx inputs = some v) :
    v = Int64.ofInt (tx.vin.map value).sum := by
  rw [getValueIn, hcb, if_neg Bool.false_ne_true] at h
  -- generalised over the sum of the inputs already added
  suffices key : ∀ (txins : List CTxIn) (x : Int), txins.foldlM (fun nResult txin =>
      (getOutputFor inputs txin).map fun txout => nResult + txout.nValue) (Int64.ofInt x) = some v →
      v = Int64.ofInt (x + (txins.map value).sum) by
    have := key tx.vin 0 h
    rwa [Int.zero_add] at this
  intro txins
  induction txins with
  | nil =>
    intro x hx
    cases hx
    rw [map_nil, sum_nil, Int.add_zero]
  | cons txin txins ih =>
    intro x hx
    rw [foldlM_cons] at hx
    obtain ⟨y, hy, hx⟩ := Option.bind_eq_some_iff.mp hx
    obtain ⟨txout, hout, rfl⟩ := Option.map_eq_some_iff.mp hy
    have hadd : Int64.ofInt x + txout.nValue = Int64.ofInt (x + value txin) := by
      rw [hvalue txin txout hout, Int64.ofInt_add, Int64.ofInt_toInt]
    rw [hadd] at hx
    rw [ih _ hx, map_cons, sum_cons, Int.add_assoc]

theorem getValueIn_eq (hf : Fetched env m inputs) (hcb : tx.isCoinBase = false)
    (h : getValueIn tx inputs = some v) : v = Int64.ofInt (valueIn env (positionsOf m) tx) := by
  rw [valueIn, hcb, if_neg Bool.false_ne_true]
  refine getValueIn_sum (fun txin txout hout => ?_) hcb h
  unfold getOutputFor at hout
  obtain ⟨⟨txindex, txPrev⟩, hget, hout⟩ := Option.bind_eq_some_iff.mp hout
  rw [valueSpent, hf.prevOut_eq hget, hout]
  rfl

/-! ## §3. Spending. -/

theorem spendInput_ok_iff {st st' : MapPrevTx × TxIndexMap} {nIn : Nat} :
    spendInput env tx pos true false fVerify flags st (txin, nIn) = .ok st' ↔
      ∃ txindex txPrev, st.1[txin.prevout.hash]? = some (txindex, txPrev) ∧
        txindex.vSpent[txin.prevout.n.toNat]? = some .null ∧
        checkSignature env fVerify txPrev tx txin nIn flags = .ok () ∧
        st' = (st.1.insert txin.prevout.hash
            (CTxIndex.setSpent txin.prevout.n pos txindex, txPrev),
          st.2.insert txin.prevout.hash (CTxIndex.setSpent txin.prevout.n pos txindex)) := by
  unfold spendInput
  constructor
  · intro h
    obtain ⟨⟨txindex, txPrev⟩, hget, h⟩ := bind_eq_ok.mp h
    obtain ⟨spent, hspent, h⟩ := bind_eq_ok.mp h
    obtain ⟨_, hnull, h⟩ := bind_eq_ok.mp h
    obtain ⟨_, hsig, h⟩ := bind_eq_ok.mp h
    rw [rejectIf_eq_ok, not_eq_false', CDiskTxPos.isNull_iff] at hnull
    refine ⟨txindex, txPrev, required_eq_ok.mp hget, ?_, hsig, (pure_eq_ok.mp h).symm⟩
    rw [required_eq_ok.mp hspent, hnull]
  · intro h
    obtain ⟨txindex, txPrev, hget, hnull, hsig, rfl⟩ := h
    refine bind_eq_ok.mpr ⟨(txindex, txPrev), required_eq_ok.mpr hget, ?_⟩
    refine bind_eq_ok.mpr ⟨.null, required_eq_ok.mpr hnull, ?_⟩
    refine bind_eq_ok.mpr ⟨(), rfl, ?_⟩
    exact bind_eq_ok.mpr ⟨(), hsig, rfl⟩

theorem positionsOf_writeSpent (m : TxIndexMap) (o : COutPoint) (pos : CDiskTxPos) :
    positionsOf (writeSpent m o pos) = positionsOf m := by
  funext h
  exact writeSpent_pos m o pos h

theorem Fetched.spend (hf : Fetched env m inputs) {o : COutPoint} {txindex : CTxIndex}
    {txPrev : CTransaction} (hget : inputs[o.hash]? = some (txindex, txPrev)) (pos : CDiskTxPos) :
    Fetched env (writeSpent m o pos)
      (inputs.insert o.hash (CTxIndex.setSpent o.n pos txindex, txPrev)) := by
  intro k txindex' txPrev' hk
  rw [positionsOf_writeSpent, get_writeSpent]
  rw [get_insert] at hk
  split at hk
  next heq =>
    cases hk
    obtain ⟨hm, hprev⟩ := hf _ _ _ hget
    rw [if_pos heq, ← heq, hm]
    exact ⟨rfl, hprev⟩
  next hne =>
    rw [if_neg hne]
    exact hf _ _ _ hk

theorem Fetched.spendInput {st st' : MapPrevTx × TxIndexMap}
    (hf : Fetched env (indexWith db st.2) st.1) {nIn : Nat}
    (h : spendInput env tx pos true false fVerify flags st (txin, nIn) = .ok st') :
    readSpent (indexWith db st.2) txin.prevout = some .null ∧
      indexWith db st'.2 = writeSpent (indexWith db st.2) txin.prevout pos ∧
      Fetched env (indexWith db st'.2) st'.1 := by
  obtain ⟨txindex, txPrev, hget, hnull, _, rfl⟩ := spendInput_ok_iff.mp h
  have hm := (hf _ _ _ hget).1
  have hindex : indexWith db (st.2.insert txin.prevout.hash
      (CTxIndex.setSpent txin.prevout.n pos txindex)) =
      writeSpent (indexWith db st.2) txin.prevout pos := by
    rw [writeSpent_of_some hm]
    exact overlay_insert _ _ _ _
  refine ⟨?_, hindex, ?_⟩
  · rw [readSpent, hm]
    exact hnull
  · rw [hindex]
    exact hf.spend hget pos

theorem spendInputs_claim {queue : TxIndexMap} (hf : Fetched env (indexWith db queue) inputs)
    {txins : List (CTxIn × Nat)} {st' : MapPrevTx × TxIndexMap}
    (h : txins.foldlM (spendInput env tx pos true false fVerify flags) (inputs, queue) = .ok st') :
    txCells.claim .null pos (indexWith db queue) (txins.map fun i => i.1.prevout) =
      some (indexWith db st'.2) := by
  have hI := foldlM_rule (fun done (st : MapPrevTx × TxIndexMap) =>
    txCells.claim .null pos (indexWith db queue) (done.map fun i => i.1.prevout) =
      some (indexWith db st.2) ∧ Fetched env (indexWith db st.2) st.1) ⟨rfl, hf⟩ ?_ h
  · exact hI.1
  · intro done i rest s s' _ hs hstep
    obtain ⟨hclaim, hfs⟩ := hs
    obtain ⟨hnull, hindex, hf'⟩ := hfs.spendInput hstep
    refine ⟨?_, hf'⟩
    rw [map_append, hindex]
    exact txCells.claim_concat hclaim hnull

/-- The outpoints of a transaction claimed for it; a coinbase claims nothing. -/
def claimInputs (m : TxIndexMap) (pos : CDiskTxPos) (tx : CTransaction) : Option TxIndexMap :=
  if tx.isCoinBase then some m
  else txCells.claim .null pos m (tx.vin.map CTxIn.prevout)

/-- **An accepted `ConnectInputs`** claims the outpoints and checks the values. -/
theorem connectInputs_ok {queue queue' : TxIndexMap} (hf : Fetched env (indexWith db queue) inputs)
    (hcb : tx.isCoinBase = false)
    (h : connectInputs env tx inputs queue pos pindex true false flags fVerify = .ok queue') :
    claimInputs (indexWith db queue) pos tx = some (indexWith db queue') ∧
      (0 ≤ valueIn env (positionsOf (indexWith db queue)) tx ∧
        valueIn env (positionsOf (indexWith db queue)) tx ≤ MAX_MONEY.toInt) ∧
      (tx.isCoinStake = false →
        valueOut tx ≤ valueIn env (positionsOf (indexWith db queue)) tx) := by
  rw [connectInputs, hcb, if_neg Bool.false_ne_true] at h
  obtain ⟨v, hcheck, h⟩ := bind_eq_ok.mp h
  obtain ⟨⟨_, queue''⟩, hspend, h⟩ := bind_eq_ok.mp h
  obtain ⟨_, hfee, h⟩ := bind_eq_ok.mp h
  cases pure_eq_ok.mp h
  obtain ⟨hrange, hsum⟩ := checkInputs_value hf hcheck
  have hin : valueIn env (positionsOf (indexWith db queue)) tx = v.toInt := by
    rw [valueIn, hcb, if_neg Bool.false_ne_true, hsum]
  refine ⟨?_, ?_, ?_⟩
  · rw [claimInputs, hcb, if_neg Bool.false_ne_true]
    have hclaim := spendInputs_claim hf hspend
    have hmap : tx.vin.zipIdx.map (fun i => i.1.prevout) = tx.vin.map CTxIn.prevout := by
      show tx.vin.zipIdx.map (CTxIn.prevout ∘ Prod.fst) = _
      rw [← map_map, zipIdx_map_fst]
    rwa [hmap] at hclaim
  · rw [hin]
    exact moneyRange_iff.mp hrange
  · intro hcs
    rw [checkTxFee, hcs, if_neg Bool.false_ne_true] at hfee
    obtain ⟨nValueOut, hout, hfee⟩ := bind_eq_ok.mp hfee
    obtain ⟨_, hlt, _⟩ := bind_eq_ok.mp hfee
    rw [rejectIf_eq_ok, decide_eq_false_iff_not, Int64.lt_iff_toInt_lt] at hlt
    have hval := (getValueOut_eq (required_eq_ok.mp hout)).2
    omega

/-! ## §4. The loop and the block. -/

/-- What an accepted iteration of the loop of `ConnectBlock` does. -/
structure TxConnected (env : ChainEnv) (db : Records) (pindex : CBlockIndex)
    (st st' : ConnectState) (tx : CTransaction) : Prop where
  nTxPos : st'.nTxPos = st.nTxPos + UInt32.ofNat tx.getSerializeSize
  index : ∃ m, claimInputs (indexWith db st.mapQueuedChanges) (posThisTx pindex st) tx = some m ∧
    indexWith db st'.mapQueuedChanges =
      m.insert (tx.getHash env.H) (CTxIndex.fresh (posThisTx pindex st) tx.vout.length)
  nFees : st'.nFees = if tx.isCoinBase || tx.isCoinStake then st.nFees
    else st.nFees + Int64.ofInt
      (valueIn env (positionsOf (indexWith db st.mapQueuedChanges)) tx - valueOut tx)
  nStakeReward : st'.nStakeReward = if tx.isCoinStake then
      Int64.ofInt (valueOut tx -
        valueIn env (positionsOf (indexWith db st.mapQueuedChanges)) tx)
    else st.nStakeReward
  valueIn_range : 0 ≤ valueIn env (positionsOf (indexWith db st.mapQueuedChanges)) tx ∧
    valueIn env (positionsOf (indexWith db st.mapQueuedChanges)) tx ≤ MAX_MONEY.toInt
  valueOut_range : 0 ≤ valueOut tx ∧ valueOut tx ≤ MAX_MONEY.toInt
  enough : tx.isCoinBase = false → tx.isCoinStake = false →
    valueOut tx ≤ valueIn env (positionsOf (indexWith db st.mapQueuedChanges)) tx

theorem eq_ofInt_valueOut (h : tx.getValueOut = some v) :
    v = Int64.ofInt (valueOut tx) := by
  rw [← (getValueOut_eq h).2, Int64.ofInt_toInt]

theorem connectCoinBase_ok {st st' : ConnectState} (h : connectCoinBase st tx = .ok st') :
    ∃ v, tx.getValueOut = some v ∧ st' = { st with nValueOut := st.nValueOut + v } := by
  unfold connectCoinBase at h
  obtain ⟨v, hv, h⟩ := bind_eq_ok.mp h
  exact ⟨v, required_eq_ok.mp hv, (pure_eq_ok.mp h).symm⟩

theorem connectSpending_ok {st st' : ConnectState}
    (h : connectSpending env db pindex fVerify pos st tx = .ok st') :
    ∃ inputs nIn nOut,
      fetchInputs env db st.mapQueuedChanges true false tx ∅ = .ok inputs ∧
      getValueIn tx inputs = some nIn ∧ tx.getValueOut = some nOut ∧
      connectInputs env tx inputs st.mapQueuedChanges pos pindex true false connectFlags fVerify =
        .ok st'.mapQueuedChanges ∧
      st'.nFees = (if tx.isCoinStake then st.nFees else st.nFees + (nIn - nOut)) ∧
      st'.nStakeReward = (if tx.isCoinStake then nOut - nIn else st.nStakeReward) ∧
      st'.nTxPos = st.nTxPos := by
  unfold connectSpending at h
  obtain ⟨inputs, hfetch, h⟩ := bind_eq_ok.mp h
  obtain ⟨_, _, h⟩ := bind_eq_ok.mp h
  obtain ⟨_, _, h⟩ := bind_eq_ok.mp h
  obtain ⟨nIn, hin, h⟩ := bind_eq_ok.mp h
  obtain ⟨nOut, hout, h⟩ := bind_eq_ok.mp h
  obtain ⟨queue, hconnect, h⟩ := bind_eq_ok.mp h
  cases pure_eq_ok.mp h
  exact ⟨inputs, nIn, nOut, mapError_eq_ok.mp hfetch, required_eq_ok.mp hin,
    required_eq_ok.mp hout, mapError_eq_ok.mp hconnect, rfl, rfl, rfl⟩

/-- **An accepted iteration** of the loop of `ConnectBlock`. -/
theorem connectTx_ok {st st' : ConnectState}
    (h : connectTx env db pindex false fVerify st tx = .ok st') :
    TxConnected env db pindex st st' tx := by
  unfold connectTx at h
  obtain ⟨_, _, h⟩ := bind_eq_ok.mp h
  obtain ⟨_, _, h⟩ := bind_eq_ok.mp h
  obtain ⟨spent, hspent, h⟩ := bind_eq_ok.mp h
  cases pure_eq_ok.mp h
  unfold connectKind at hspent
  cases hcb : tx.isCoinBase with
  | true =>
    rw [hcb, if_pos rfl] at hspent
    obtain ⟨v, hv, rfl⟩ := connectCoinBase_ok hspent
    have hcs := CTransaction.isCoinStake_of_isCoinBase hcb
    have hrange := moneyRange_iff.mp (getValueOut_eq hv).1
    rw [(getValueOut_eq hv).2] at hrange
    have hin : valueIn env (positionsOf (indexWith db st.mapQueuedChanges)) tx = 0 := by
      rw [valueIn, hcb, if_pos rfl]
    refine ⟨rfl, ⟨indexWith db st.mapQueuedChanges, ?_, overlay_insert _ _ _ _⟩, ?_, ?_,
      ?_, hrange, ?_⟩
    · rw [claimInputs, hcb, if_pos rfl]
    · rw [hcb, Bool.true_or, if_pos rfl]
    · rw [hcs, if_neg Bool.false_ne_true]
      rfl
    · rw [hin]
      exact ⟨Int.le_refl 0, by decide⟩
    · intro hcb'
      rw [hcb] at hcb'
      cases hcb'
  | false =>
    rw [hcb, if_neg Bool.false_ne_true] at hspent
    obtain ⟨inputs, nIn, nOut, hfetch, hin, hout, hconnect, hfees, hstake, hpos⟩ :=
      connectSpending_ok hspent
    have hf : Fetched env (indexWith db st.mapQueuedChanges) inputs := fetched_of_ok hcb hfetch
    obtain ⟨hclaim, hinRange, henough⟩ := connectInputs_ok hf hcb hconnect
    have hnIn := getValueIn_eq hf hcb hin
    have hnOut := eq_ofInt_valueOut hout
    have hrange := moneyRange_iff.mp (getValueOut_eq hout).1
    rw [(getValueOut_eq hout).2] at hrange
    refine ⟨hpos, ⟨_, hclaim, overlay_insert _ _ _ _⟩, ?_, ?_, hinRange, hrange,
      fun _ => henough⟩
    · show spent.nFees = _
      rw [hfees, hcb, Bool.false_or, hnIn, hnOut, ← Int64.ofInt_sub]
    · show spent.nStakeReward = _
      rw [hstake, hnIn, hnOut, ← Int64.ofInt_sub]

theorem writeOutputAddrs_tx (hashTx : UInt256) (db : Records) (txout : CTxOut) :
    (writeOutputAddrs env hashTx db txout).tx = db.tx :=
  Records.foldl_tx (fun db id => Records.writeAddrIndex_tx db hashTx id) _ db

theorem writeTxAddrs_tx {db' : Records} (h : writeTxAddrs env db tx = .ok db') : db'.tx =
    db.tx := by
  unfold writeTxAddrs at h
  obtain ⟨inputs, _, h⟩ := bind_eq_ok.mp h
  cases pure_eq_ok.mp h
  rw [Records.foldl_tx (writeOutputAddrs_tx _), Std.ExtTreeMap.foldl_eq_foldl_toList]
  exact Records.foldl_tx (fun db (e : UInt256 × CTxIndex × CTransaction) =>
    Records.foldl_tx (writeOutputAddrs_tx _) e.2.2.vout db) _ db

theorem writePrevBlockIndex_tx (mem : IndexMem) (pindex : CBlockIndex) (hashNext : UInt256)
    (db : Records) : (writePrevBlockIndex mem pindex hashNext db).tx = db.tx := by
  unfold writePrevBlockIndex
  split <;> rfl

/-- **An accepted `ConnectBlock`**: the checks and the loop accept, and the
transaction index is the one the loop reached. -/
theorem connectBlock_ok {pindexBest : CBlockIndex} {mem mem' : IndexMem} {db' : Records}
    {b : CBlock} (h : connectBlock env pindexBest mem db b pindex false = .ok (mem', db')) :
    ∃ st, checkBlock env pindexBest b true true false = .ok () ∧
      b.vtx.foldlM (connectTx env db pindex false (!skipsSignatures env pindexBest true))
        (.init b pindex false) = .ok st ∧
      checkReward pindexBest b st = .ok () ∧
      mem' = trackSupply mem pindex st ∧
      db'.tx = indexWith db st.mapQueuedChanges := by
  obtain ⟨st, db₁, hcheck, hloop, hreward, haddr, hr⟩ := (connectBlock_eq_ok env).mp h
  cases hr
  refine ⟨st, hcheck, hloop, hreward, rfl, ?_⟩
  rw [writePrevBlockIndex_tx]
  refine foldlM_invariant (fun (db₂ : Records) => db₂.tx = indexWith db st.mapQueuedChanges) rfl
    ?_ haddr
  intro tx _ s s' hs hstep
  rw [writeTxAddrs_tx hstep, hs]

end Fantom.Chain
