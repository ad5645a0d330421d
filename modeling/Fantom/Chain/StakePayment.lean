/-
  Fantom.Chain.StakePayment — Proof-of-stake blocks under the blanknode payment rule.  The coinbase
  of such a block has one empty output, and `CheckBlock` looks for the payment among the outputs of
  the coinbase only.

  * `stake_payment_rejected` — what becomes of such a block.
-/
import Fantom.Chain.ConnectBlock

namespace Fantom.Chain

open Core Lib Spork List Bool Int64 Nat

/-! ## §1. The payment and the empty coinbase. -/

/-- The block after the best one has to pay a known payee. -/
structure PaymentDue (env : ChainEnv) (pindexBest : CBlockIndex) (payee : CScript) : Prop where
  start : BLANKNODE_PAYMENT_START ≤ pindexBest.nHeight + 1
  spork : isSporkActive env.mapSporksActive env.nNow SPORK_1_BLANKNODE_PAYMENTS_ENFORCEMENT = true
  known : getBlockPayee env (pindexBest.nHeight + 1) = some payee

/-- A proof-of-stake block on the best block whose coinstake pays the payee. -/
structure PaysByStake (pindexBest : CBlockIndex) (payee : CScript) (nPayment : Int64)
    (b : CBlock) : Prop where
  stake : b.isProofOfStake = true
  onBest : b.hashPrevBlock = pindexBest.getBlockHash
  pays : ∃ tx, b.vtx[1]? = some tx ∧
    ∃ txout ∈ tx.vout, txout.nValue = nPayment ∧ txout.scriptPubKey = payee

variable {env : ChainEnv} {pindexBest : CBlockIndex} {payee : CScript}

theorem coinbase_empty {b : CBlock} (hstake : b.isProofOfStake = true)
    (h : checkPlacement b = .ok ()) : (coinbaseOf b).vout.all CTxOut.isEmpty = true := by
  rw [checkPlacement, if_pos hstake] at h
  obtain ⟨_, _, h⟩ := bind_eq_ok.mp h
  obtain ⟨_, _, h⟩ := bind_eq_ok.mp h
  obtain ⟨_, hempty, _⟩ := bind_eq_ok.mp h
  rw [rejectIf_eq_ok, or_eq_false_iff] at hempty
  simpa using hempty.2

theorem not_found_in_empty {nBlockHeight : Nat} {coinbase : CTransaction} {nPayment : Int64}
    (hpayee : getBlockPayee env nBlockHeight = some payee) (hne : payee ≠ [])
    (hempty : coinbase.vout.all CTxOut.isEmpty = true) :
    foundPaymentAndPayee env nBlockHeight coinbase nPayment = false := by
  rw [foundPaymentAndPayee, hpayee]
  cases payee with
  | nil => exact absurd rfl hne
  | cons op rest =>
    dsimp only
    rw [any_eq_false]
    intro txout hmem hfound
    have he := all_eq_true.mp hempty txout hmem
    simp only [CTxOut.isEmpty, and_eq_true, beq_iff_eq, List.isEmpty_iff] at he hfound
    rw [he.2] at hfound
    exact absurd hfound.2 (by simp)

theorem getValueOut_of_empty {tx : CTransaction} (h : tx.vout.all CTxOut.isEmpty = true) :
    tx.getValueOut = some 0 := by
  have key : ∀ vout : List CTxOut, vout.all CTxOut.isEmpty = true →
      getValueOutLoop 0 vout = some 0 := by
    intro vout hall
    induction vout with
    | nil => rfl
    | cons txout rest ih =>
      rw [all_cons, and_eq_true] at hall
      have hzero : txout.nValue = 0 := by
        have := hall.1
        simp only [CTxOut.isEmpty, and_eq_true, beq_iff_eq] at this
        exact this.1
      rw [getValueOutLoop, hzero]
      exact ih hall.2
  exact key tx.vout h

/-- **The two rules together.**  Out of the initial download, a proof-of-stake
block on the best block is rejected, wherever it pays the payee. -/
theorem stake_payment_rejected {nPayment : Int64} {b : CBlock} {fCheckPOW fCheckMerkleRoot
    fCheckSig : Bool} (hdue : PaymentDue env pindexBest payee)
    (hb : PaysByStake pindexBest payee nPayment b)
    (hok : checkBlock env pindexBest b fCheckPOW fCheckMerkleRoot fCheckSig = .ok ()) :
    isInitialBlockDownload env pindexBest = true ∨ payee = [] := by
  obtain ⟨_, _, hok⟩ := bind_eq_ok.mp hok
  obtain ⟨_, hplace, hok⟩ := bind_eq_ok.mp hok
  obtain ⟨_, _, hok⟩ := bind_eq_ok.mp hok
  obtain ⟨_, _, hok⟩ := bind_eq_ok.mp hok
  obtain ⟨_, hpay, _⟩ := bind_eq_ok.mp hok
  have hempty := coinbase_empty hb.stake hplace
  rw [checkBlanknodePayments, if_pos ⟨hdue.start, hdue.spork, hb.onBest.symm⟩,
    getValueOut_of_empty hempty] at hpay
  dsimp only at hpay
  by_cases hne : payee = []
  · exact .inr hne
  · rw [not_found_in_empty hdue.known hne hempty, rejectIf_eq_ok] at hpay
    exact .inl (by simpa using hpay)

/-! ## §2. Sizes. -/

theorem getSizeOfCompactSize_le (nSize : Nat) : getSizeOfCompactSize nSize ≤ 9 := by
  unfold getSizeOfCompactSize
  split
  · omega
  · split
    · omega
    · split <;> omega

/-! ## §3. A block that pays by stake. -/

def stakeCoinBase (x : UInt8) : CTransaction :=
  ⟨1, 0, [⟨⟨0, 0xffffffff⟩, [1, x], [], 0xffffffff⟩], [⟨0, 0, []⟩], 0⟩

/-- A coinstake that spends an outpoint, with the output of the staker and the
payment. -/
def stakeTx (o : COutPoint) (staker payee : CScript) (nPayment : Int64) : CTransaction :=
  ⟨1, 0, [⟨o, [], [], 0xffffffff⟩], [⟨0, 0, []⟩, ⟨0, 0, staker⟩, ⟨nPayment, 0, payee⟩], 0⟩

/-- The block of the two on top of the best block. -/
def stakeBlock (H : Hashes) (pindexBest : CBlockIndex) (coinbase coinstake : CTransaction)
    (vchBlockSig : List UInt8) : CBlock :=
  let b : CBlock := ⟨2, pindexBest.getBlockHash, 0, 0, 0, 0, [coinbase, coinstake], vchBlockSig⟩
  { b with hashMerkleRoot := b.buildMerkleTree H }

/-- What a staker needs: a clock past 1970, an outpoint without a lock, a key
that signs blocks, and coinbases with more than one id. -/
structure CanStake (env : ChainEnv) (o : COutPoint) (staker : CScript) : Prop where
  clock : 0 ≤ futureDrift env.nAdjustedTime
  notNull : o.isNull = false
  unlocked : env.mapLockedInputs[o]? = none
  short : staker.length ≤ 100
  signs : ∀ b : CBlock, ((b.vtx[1]?).bind fun tx => tx.vout[1]?).map CTxOut.scriptPubKey =
      some staker →
    ∃ vchBlockSig, vchBlockSig ≠ [] ∧ vchBlockSig.length ≤ 100 ∧
      env.verifyBlockSig { b with vchBlockSig := vchBlockSig } = true
  ids : ∃ x y, (stakeCoinBase x).getHash env.H ≠ (stakeCoinBase y).getHash env.H

theorem stakeTx_isCoinStake {o : COutPoint} (ho : o.isNull = false) (staker payee : CScript)
    (nPayment : Int64) : (stakeTx o staker payee nPayment).isCoinStake = true := by
  simp [stakeTx, CTransaction.isCoinStake, ho, CTxOut.isEmpty]

theorem stakeTx_isCoinBase {o : COutPoint} (ho : o.isNull = false) (staker payee : CScript)
    (nPayment : Int64) : (stakeTx o staker payee nPayment).isCoinBase = false := by
  simp [stakeTx, CTransaction.isCoinBase, ho]

theorem stakeTx_size_le (o : COutPoint) (staker payee : CScript) (nPayment : Int64) :
    (stakeTx o staker payee nPayment).getSerializeSize ≤ 200 + staker.length + payee.length := by
  simp only [CTransaction.getSerializeSize, CTransaction.serialize, stakeTx, serializeVector,
    CTxIn.serialize, CTxOut.serialize, COutPoint.serialize, serializeBytes, flatMap_cons,
    flatMap_nil, length_append, leBytes_length, writeCompactSize_length,
    length_cons, length_nil]
  have h := getSizeOfCompactSize_le
  have h0 := h 0
  have h1 := h (0 + 1)
  have h3 := h (0 + 1 + 1 + 1)
  have hs := h staker.length
  have hp := h payee.length
  omega

theorem checkTransaction_stakeTx {o : COutPoint} (ho : o.isNull = false) {staker payee : CScript}
    {nPayment : Int64} (hrange : moneyRange nPayment = true)
    (hsize : 200 + staker.length + payee.length ≤ MAX_BLOCK_SIZE) :
    checkTransaction (stakeTx o staker payee nPayment) = .ok () := by
  have hstake := stakeTx_isCoinStake ho staker payee nPayment
  have hbase := stakeTx_isCoinBase ho staker payee nPayment
  have hlen := (stakeTx_size_le o staker payee nPayment).trans hsize
  obtain ⟨h0, h1⟩ := moneyRange_iff.mp hrange
  have hlow : ¬ nPayment < 0 := by
    rw [lt_iff_toInt_lt, not_lt]
    exact h0
  have hhigh : ¬ nPayment > MAX_MONEY := by
    rw [gt_iff_lt, lt_iff_toInt_lt, not_lt]
    exact h1
  have hout : (stakeTx o staker payee nPayment).vout.foldlM
      (checkOutput (stakeTx o staker payee nPayment)) 0 = .ok nPayment := by
    simp only [stakeTx, foldlM_cons, foldlM_nil, checkOutput] at *
    simp [hstake, hbase, hlow, hhigh, hrange]
    rfl
  have hsmall : ¬ (stakeTx o staker payee nPayment).getSerializeSize > MAX_BLOCK_SIZE := by omega
  have hdistinct : ((stakeTx o staker payee nPayment).vin.map CTxIn.prevout).Nodup :=
    nodup_singleton _
  have hscript : checkScriptOrPrevouts (stakeTx o staker payee nPayment) = .ok () := by
    rw [checkScriptOrPrevouts, if_neg (by rw [hbase]; exact false_ne_true), forM_eq_ok]
    intro txin htxin
    rw [stakeTx, mem_singleton] at htxin
    rw [htxin, rejectIf_eq_ok]
    exact ho
  rw [checkTransaction, hout, hscript, decide_eq_false hsmall, decide_eq_true hdistinct]
  rfl

theorem stakeBlock_sigOps (x : UInt8) (o : COutPoint) {staker payee : CScript} {nPayment : Int64}
    (hstaker : staker.length ≤ 100) (hpayee : payee.length ≤ 10000) :
    ¬ ([stakeCoinBase x, stakeTx o staker payee nPayment].map
      CTransaction.getLegacySigOpCount).sum > MAX_BLOCK_SIGOPS := by
  have hbase : ((stakeCoinBase x).getLegacySigOpCount).toNat ≤ 40 := by
    have hin := getSigOpCount_le [1, x] false
    have hout := getSigOpCount_le [] false
    exact uint32_add_le (m := 40) (n := 0) (uint32_add_le (m := 40) (n := 0) hin (le_refl _))
      (uint32_add_le (m := 0) (n := 0) hout (le_refl _))
  have hstake : ((stakeTx o staker payee nPayment).getLegacySigOpCount).toNat ≤ 0 + 202000 := by
    have h1 : (CScript.getSigOpCount staker false).toNat ≤ 2000 :=
      (getSigOpCount_le staker false).trans (by omega)
    have h2 : (CScript.getSigOpCount payee false).toNat ≤ 200000 :=
      (getSigOpCount_le payee false).trans (by omega)
    have hnil := getSigOpCount_le [] false
    refine uint32_add_le (uint32_add_le hnil (le_refl _)) ?_
    refine uint32_add_le (m := 0) (n := 202000) hnil ?_
    refine uint32_add_le (m := 2000) (n := 200000) h1 ?_
    exact uint32_add_le (m := 200000) (n := 0) h2 (le_refl _)
  have hsum := uint32_add_le hbase (uint32_add_le hstake (le_refl (0 : UInt32).toNat))
  rw [gt_iff_lt, UInt32.lt_iff_toNat_lt, not_lt]
  exact hsum.trans (by decide)

theorem stakeBlock_size_le (H : Hashes) (pindexBest : CBlockIndex) (x : UInt8) (o : COutPoint)
    (staker payee : CScript) (nPayment : Int64) (vchBlockSig : List UInt8) :
    (stakeBlock H pindexBest (stakeCoinBase x) (stakeTx o staker payee nPayment)
      vchBlockSig).getSerializeSize ≤
      600 + staker.length + payee.length + vchBlockSig.length := by
  have hstake := stakeTx_size_le o staker payee nPayment
  have hbase : (stakeCoinBase x).getSerializeSize = 66 := rfl
  rw [CTransaction.getSerializeSize] at hstake hbase
  have h := getSizeOfCompactSize_le
  have h1 := h vchBlockSig.length
  have h2 := h (0 + 1 + 1)
  simp only [CBlock.getSerializeSize, CBlock.serialize, CBlock.serializeHeader, stakeBlock,
    serializeVector, serializeBytes, flatMap_cons, flatMap_nil, length_append,
    leBytes_length, writeCompactSize_length, length_cons, length_nil, hbase]
  omega

variable {o : COutPoint} {staker : CScript} {nPayment : Int64} {x : UInt8} {b : CBlock}

theorem isProofOfStake_of_vtx (hcan : CanStake env o staker)
    (hvtx : b.vtx = [stakeCoinBase x, stakeTx o staker payee nPayment]) :
    b.isProofOfStake = true := by
  rw [CBlock.isProofOfStake, hvtx]
  exact stakeTx_isCoinStake hcan.notNull staker payee nPayment

theorem checkHead_of_vtx (hcan : CanStake env o staker)
    (hvtx : b.vtx = [stakeCoinBase x, stakeTx o staker payee nPayment]) (htime : b.nTime = 0)
    (hsize : b.getSerializeSize ≤ MAX_BLOCK_SIZE) (fCheckPOW : Bool) :
    checkHead env b fCheckPOW = .ok () := by
  have hclock : ¬ getBlockTime b > futureDrift env.nAdjustedTime := by
    rw [getBlockTime, htime, gt_iff_lt, lt_iff_toInt_lt, not_lt, ← le_iff_toInt_le]
    exact hcan.clock
  have htwo : (b.vtx.isEmpty || decide (b.vtx.length > MAX_BLOCK_SIZE)) = false := by
    rw [hvtx]
    rfl
  unfold checkHead
  rw [CBlock.isProofOfWork, isProofOfStake_of_vtx hcan hvtx, htwo, decide_eq_false (not_lt.mpr hsize),
    decide_eq_false hclock]
  cases fCheckPOW <;> rfl

theorem checkPlacement_of_vtx (hcan : CanStake env o staker)
    (hvtx : b.vtx = [stakeCoinBase x, stakeTx o staker payee nPayment]) :
    checkPlacement b = .ok () := by
  have hstake := stakeTx_isCoinStake hcan.notNull staker payee nPayment
  have hbase := stakeTx_isCoinBase hcan.notNull staker payee nPayment
  rw [checkPlacement, if_pos (isProofOfStake_of_vtx hcan hvtx), coinbaseOf, hvtx]
  simp only [tail_cons, any_cons, any_nil, hbase, List.getElem?_cons_succ,
    List.getElem?_cons_zero, Option.any_some, hstake, drop_succ_cons, drop_zero]
  rfl

theorem checkLockedInputs_of_vtx (hcan : CanStake env o staker)
    (hvtx : b.vtx = [stakeCoinBase x, stakeTx o staker payee nPayment]) :
    checkLockedInputs env b = .ok () := by
  have hbase := stakeTx_isCoinBase hcan.notNull staker payee nPayment
  unfold checkLockedInputs
  split
  · rw [hvtx, forM_eq_ok]
    intro tx htx
    rcases mem_pair.mp htx with rfl | rfl
    · rfl
    · rw [if_neg (by rw [hbase]; exact false_ne_true), forM_eq_ok]
      intro txin htxin
      rw [stakeTx, mem_singleton] at htxin
      rw [htxin, hcan.unlocked]
      rfl
  · rfl

theorem checkBlanknodePayments_of_vtx
    (hvtx : b.vtx = [stakeCoinBase x, stakeTx o staker payee nPayment])
    (hknown : getBlockPayee env (pindexBest.nHeight + 1) = some payee)
    (hfree : isInitialBlockDownload env pindexBest = true ∨ payee = []) :
    checkBlanknodePayments env pindexBest b = .ok () := by
  have hempty : (coinbaseOf b).vout.all CTxOut.isEmpty = true := by
    rw [coinbaseOf, hvtx]
    rfl
  unfold checkBlanknodePayments
  split
  · rw [getValueOut_of_empty hempty]
    dsimp only
    rw [rejectIf_eq_ok, and_eq_false_iff]
    rcases hfree with hdownload | rfl
    · exact .inl (by rw [hdownload]; rfl)
    · refine .inr ?_
      rw [foundPaymentAndPayee, hknown]
      rfl
  · rfl

theorem checkTransactions_of_vtx (hcan : CanStake env o staker)
    (hvtx : b.vtx = [stakeCoinBase x, stakeTx o staker payee nPayment]) (htime : b.nTime = 0)
    (hpayee : payee.length ≤ 10000) (hrange : moneyRange nPayment = true)
    (hid : (stakeCoinBase x).getHash env.H ≠ (stakeTx o staker payee nPayment).getHash env.H)
    (hroot : b.hashMerkleRoot = b.buildMerkleTree env.H) (fCheckMerkleRoot : Bool) :
    checkTransactions env b fCheckMerkleRoot = .ok () := by
  have hshort := hcan.short
  have hstake : checkTransaction (stakeTx o staker payee nPayment) = .ok () :=
    checkTransaction_stakeTx hcan.notNull hrange
      (by rw [show MAX_BLOCK_SIZE = 20000000 from rfl]; omega)
  have heach : b.vtx.forM (checkBlockTransaction b) = .ok () := by
    rw [hvtx, forM_eq_ok]
    intro tx htx
    rw [checkBlockTransaction, getBlockTime, htime]
    rcases mem_pair.mp htx with rfl | rfl
    · rfl
    · rw [hstake]
      rfl
  have hnodup : (b.vtx.map (CTransaction.getHash env.H)).Nodup := by
    rw [hvtx]
    simpa using hid
  have hops : ¬ (b.vtx.map CTransaction.getLegacySigOpCount).sum > MAX_BLOCK_SIGOPS := by
    rw [hvtx]
    exact stakeBlock_sigOps x o hshort hpayee
  unfold checkTransactions
  rw [heach, decide_eq_true hnodup, decide_eq_false hops, hroot, bne_self_eq_false, Bool.and_false]
  rfl

/-- **Where the rules leave room**: without a payee to look for, or in the
initial download, a staker can pay any script and any amount in range. -/
theorem stakeBlock_accepted (hcan : CanStake env o staker) (hpayee : payee.length ≤ 10000)
    (hrange : moneyRange nPayment = true)
    (hknown : getBlockPayee env (pindexBest.nHeight + 1) = some payee)
    (hfree : isInitialBlockDownload env pindexBest = true ∨ payee = [])
    (fCheckPOW fCheckMerkleRoot fCheckSig : Bool) :
    ∃ b, PaysByStake pindexBest payee nPayment b ∧
      checkBlock env pindexBest b fCheckPOW fCheckMerkleRoot fCheckSig = .ok () := by
  -- one of two coinbases has another id than the coinstake
  obtain ⟨x, hid⟩ : ∃ x, (stakeCoinBase x).getHash env.H ≠
      (stakeTx o staker payee nPayment).getHash env.H := by
    obtain ⟨x, y, hne⟩ := hcan.ids
    by_cases h : (stakeCoinBase x).getHash env.H = (stakeTx o staker payee nPayment).getHash env.H
    · exact ⟨y, fun hy => hne (h.trans hy.symm)⟩
    · exact ⟨x, h⟩
  obtain ⟨vchBlockSig, hsome, hlen, hverify⟩ := hcan.signs
    (stakeBlock env.H pindexBest (stakeCoinBase x) (stakeTx o staker payee nPayment) []) rfl
  have hsize := stakeBlock_size_le env.H pindexBest x o staker payee nPayment vchBlockSig
  have hshort := hcan.short
  let b := stakeBlock env.H pindexBest (stakeCoinBase x) (stakeTx o staker payee nPayment)
    vchBlockSig
  have hvtx : b.vtx = [stakeCoinBase x, stakeTx o staker payee nPayment] := rfl
  have hstake := isProofOfStake_of_vtx hcan hvtx
  have hsig : checkBlockSignature env b = true := by
    rw [checkBlockSignature, CBlock.isProofOfWork, hstake]
    show (if b.vchBlockSig.isEmpty = true then false else env.verifyBlockSig b) = true
    rw [if_neg (by rw [List.isEmpty_iff]; exact hsome)]
    exact hverify
  refine ⟨b, ⟨hstake, rfl, _, rfl, ⟨nPayment, 0, payee⟩, by simp [stakeTx], rfl, rfl⟩, ?_⟩
  unfold checkBlock
  rw [checkHead_of_vtx hcan hvtx rfl (hsize.trans ?_), checkPlacement_of_vtx hcan hvtx, hsig,
    Bool.not_true, Bool.and_false, checkLockedInputs_of_vtx hcan hvtx,
    checkBlanknodePayments_of_vtx hvtx hknown hfree,
    checkTransactions_of_vtx hcan hvtx rfl hpayee hrange hid rfl]
  · rfl
  · rw [show MAX_BLOCK_SIZE = 20000000 from rfl]
    omega

/-! ## §4. When a staker can pay. -/

theorem getBlanknodePayment_moneyRange {nFees : Int64} (hfees : moneyRange nFees = true)
    (nHeight : Nat) :
    moneyRange (getBlanknodePayment nHeight (getProofOfStakeReward pindexBest nFees)) = true := by
  have hsubsidy : 0 ≤ (proofOfStakeSubsidy pindexBest.nHeight).toInt ∧
      (proofOfStakeSubsidy pindexBest.nHeight).toInt ≤ 200000000 := by
    unfold proofOfStakeSubsidy
    repeat' split
    all_goals decide
  obtain ⟨hfees0, hfees1⟩ := moneyRange_iff.mp hfees
  have hmax : MAX_MONEY.toInt = 1000000000000000 := by decide
  unfold getBlanknodePayment getProofOfStakeReward at *
  generalize proofOfStakeSubsidy pindexBest.nHeight = nSubsidy at *
  -- nothing overflows: two thirds of at most the money supply and a subsidy
  have hsum : (nSubsidy + nFees).toInt = nSubsidy.toInt + nFees.toInt := by
    rw [toInt_add, Int.bmod_eq_of_le] <;> omega
  have htwice : ((nSubsidy + nFees) * 2).toInt = (nSubsidy.toInt + nFees.toInt) * 2 := by
    rw [toInt_mul, hsum, show (2 : Int64).toInt = 2 by decide, Int.bmod_eq_of_le] <;> omega
  have hthird : ((nSubsidy + nFees) * 2 / 3).toInt = ((nSubsidy.toInt + nFees.toInt) * 2) / 3 := by
    rw [toInt_div, htwice, show (3 : Int64).toInt = 3 by decide,
      Int.tdiv_eq_ediv_of_nonneg (by omega), Int.bmod_eq_of_le] <;> omega
  rw [moneyRange_iff, hthird]
  omega

/-- **Paying by stake.**  For a payment that is due and a staker who can sign,
`CheckBlock` leaves room for a proof-of-stake block whose coinstake pays the
payee exactly in the initial download or when the known payee is empty. -/
theorem stake_payment_possible_iff (nFees : Int64) (fCheckPOW fCheckMerkleRoot fCheckSig : Bool)
    (hdue : PaymentDue env pindexBest payee) (hcan : CanStake env o staker)
    (hpayee : payee.length ≤ 10000) (hfees : moneyRange nFees = true) :
    (∃ b, PaysByStake pindexBest payee (getBlanknodePayment (pindexBest.nHeight + 1)
        (getProofOfStakeReward pindexBest nFees)) b ∧
      checkBlock env pindexBest b fCheckPOW fCheckMerkleRoot fCheckSig = .ok ()) ↔
      isInitialBlockDownload env pindexBest = true ∨ payee = [] := by
  constructor
  · rintro ⟨b, hb, hok⟩
    exact stake_payment_rejected hdue hb hok
  · intro hfree
    exact stakeBlock_accepted hcan hpayee (getBlanknodePayment_moneyRange hfees _) hdue.known
      hfree fCheckPOW fCheckMerkleRoot fCheckSig

def sampleTower : Nat → CBlockIndex
  | 0 => sampleGenesis
  | n + 1 => .child (sampleTower n)
      ⟨BitVec.ofNat 256 (n + 2), .first, 0, 2, 0, 1000, 0x1e0fffff, 0⟩

theorem sampleTower_nHeight (n : Nat) : (sampleTower n).nHeight = n := by
  induction n with
  | zero => rfl
  | succ n ih => rw [sampleTower, CBlockIndex.nHeight, ih]

def payeeEnv (nTotalBlocksEstimate : Nat) : ChainEnv :=
  { sampleChainEnv [] with
    nTotalBlocksEstimate := nTotalBlocksEstimate
    vWinning := [⟨10500, ⟨⟨9, 0⟩, [], [], 0xffffffff⟩, [OP_1], [], 0⟩] }

theorem payeeEnv_due (n : Nat) : PaymentDue (payeeEnv n) (sampleTower 10499) [OP_1] := by
  refine ⟨?_, ?_, ?_⟩
  · rw [sampleTower_nHeight]
    decide
  · show isSporkActive ∅ 1500000000 SPORK_1_BLANKNODE_PAYMENTS_ENFORCEMENT = true
    decide +kernel
  · rw [sampleTower_nHeight]
    rfl

theorem payeeEnv_canStake (n : Nat) : CanStake (payeeEnv n) ⟨9, 0⟩ [OP_1] where
  clock := by
    show 0 ≤ futureDrift 1500000000
    decide
  notNull := by decide
  unlocked := rfl
  short := by decide
  signs _ _ := ⟨[1], by decide, by decide, rfl⟩
  ids := ⟨0, 1, by
    show (stakeCoinBase 0).getHash sampleChainHashes ≠ (stakeCoinBase 1).getHash sampleChainHashes
    decide +kernel⟩

theorem stake_payment_in_download :
    ∃ b, PaysByStake (sampleTower 10499) [OP_1] (getBlanknodePayment (10499 + 1)
        (getProofOfStakeReward (sampleTower 10499) 0)) b ∧
      checkBlock (payeeEnv 20000) (sampleTower 10499) b true true true = .ok () := by
  have h := (stake_payment_possible_iff 0 true true true (payeeEnv_due 20000)
    (payeeEnv_canStake 20000) (by decide) (by decide)).mpr (.inl ?_)
  · rwa [sampleTower_nHeight] at h
  · rw [isInitialBlockDownload, sampleTower_nHeight]
    rfl

/-- Past the last checkpoint no such block is left: the coinbase that must be
empty is where the payment is looked for. -/
theorem no_stake_payment :
    PaymentDue (payeeEnv 0) (sampleTower 10499) [OP_1] ∧
      0 < getBlanknodePayment (10499 + 1) (getProofOfStakeReward (sampleTower 10499) 0) ∧
      ¬ ∃ b, PaysByStake (sampleTower 10499) [OP_1] (getBlanknodePayment (10499 + 1)
          (getProofOfStakeReward (sampleTower 10499) 0)) b ∧
        checkBlock (payeeEnv 0) (sampleTower 10499) b true true true = .ok () := by
  refine ⟨payeeEnv_due 0, ?_, ?_⟩
  · rw [getProofOfStakeReward, sampleTower_nHeight]
    decide
  · rintro ⟨b, hb, hok⟩
    rcases stake_payment_rejected (payeeEnv_due 0) hb hok with hdownload | hnil
    · rw [isInitialBlockDownload, sampleTower_nHeight] at hdownload
      exact absurd hdownload (by decide)
    · cases hnil

end Fantom.Chain
