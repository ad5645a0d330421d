/-
  Fantom.Chain.CheckBlock — The checks of a block that do not need the transaction index, and the
  rewards.

  * `checkBlock_eq_ok` — the parts that an accepted block has passed.

  `pindexBest` is an argument throughout: `CheckBlock` and the rewards read the global, whatever
  block they are called for.
-/
import Fantom.Chain.TxDB
import Fantom.Core.MemPool
import Fantom.Lib.Checked
import Fantom.Spork.Spork

namespace Fantom.Blanknode

/-- `CBlanknodePaymentWinner`: who is paid in a block, and the score that elected it. -/
structure CBlanknodePaymentWinner where
  nBlockHeight : Int32
  vin : Core.CTxIn
  payee : Core.CScript
  vchSig : List UInt8
  score : UInt64
deriving DecidableEq, Repr

end Fantom.Blanknode

namespace Fantom.Chain

open Core Lib Spork

/-! ## §1. Rejections and surroundings. -/

/-- How a check ends that does not return true. -/
inductive Failure where
  /-- `return DoS(nDoS, error(msg))`; `error(msg)` alone adds nothing to the
  score, and `return false` alone has no text either. -/
  | rejected (nDoS : Nat) (msg : String)
  /-- An exception or a failed assertion. -/
  | threw (msg : String)
deriving DecidableEq, Repr

namespace Failure

def dos (nDoS : Nat) (msg : String) : Failure := rejected nDoS msg

def error (msg : String) : Failure := rejected 0 msg

/-- The failure of a transaction seen from its block, whose own score it leaves
alone. -/
def ofTx : Failure → Failure
  | rejected _ msg => rejected 0 msg
  | threw msg => threw msg

end Failure

/-- A failure of a step, as the function around it reports it for the same object. -/
def reportAs (msg : String) : Failure → Failure
  | .rejected nDoS _ => .rejected nDoS msg
  | .threw what => .threw what

/-- What block processing reads besides the database and the best block. -/
structure ChainEnv where
  H : Hashes
  /-- `GetTime()`. -/
  nNow : Int64
  /-- `GetAdjustedTime()`. -/
  nAdjustedTime : Int64
  mapSporksActive : StdMap Int32 CSporkMessage
  mapLockedInputs : StdMap COutPoint UInt256
  /-- `blanknodePayments.vWinning`. -/
  vWinning : List Blanknode.CBlanknodePaymentWinner
  /-- The static of `IsInitialBlockDownload`: when it first saw a best block. -/
  nLastUpdate : CBlockIndex → Int64
  /-- `Checkpoints::GetTotalBlocksEstimate()`. -/
  nTotalBlocksEstimate : Nat
  nCoinbaseMaturity : Nat
  hashGenesisBlock : UInt256
  /-- `CTransaction::ReadFromDisk`, by file and `nTxPos`. -/
  readTx : UInt32 → UInt32 → Option CTransaction
  /-- The block unserialized from a file at a position. -/
  readBlock : UInt32 → UInt32 → Option CBlock
  /-- `mempool.lookup`. -/
  mempoolLookup : UInt256 → Option CTransaction
  /-- What `AcceptToMemoryPool(mempool, tx, false, NULL)` answers. -/
  acceptToMemoryPool : Records → CBlockIndex → CTxMemPool → CTransaction → Bool
  /-- `VerifyScript(scriptSig, scriptPubKey, txTo, nIn, flags, 0)`. -/
  verifyScript : CScript → CScript → CTransaction → Nat → UInt32 → Bool
  /-- The last part of `CheckBlockSignature`: the key of the coinstake output
  verifies `vchBlockSig`. -/
  verifyBlockSig : CBlock → Bool
  /-- Whether the write of a batch succeeds. -/
  txnCommitOk : Records → Bool

/-! ## §2. Rewards. -/

/-- The subsidy of a proof-of-work block above a best block of this height. -/
def proofOfWorkSubsidy (nBestHeight : Nat) : Int64 :=
  if nBestHeight = 0 then 8250 * COIN
  else if nBestHeight < 5000 then 80 * COIN
  else if nBestHeight < 5000 * 2 then 70 * COIN
  else if nBestHeight < 5000 * 3 then 60 * COIN
  else if nBestHeight < 5000 * 4 then 50 * COIN
  else if nBestHeight < 5000 * 5 then 40 * COIN
  else if nBestHeight < 5000 * 6 then 30 * COIN
  else if nBestHeight < 5000 * 7 then 20 * COIN
  else if nBestHeight < 5000 * 8 then 10 * COIN
  else 5 * COIN

def getProofOfWorkReward (pindexBest : CBlockIndex) (nFees : Int64) : Int64 :=
  proofOfWorkSubsidy pindexBest.nHeight + nFees

/-- The subsidy of a proof-of-stake block; `0.01 * COIN` is 1000000. -/
def proofOfStakeSubsidy (nBestHeight : Nat) : Int64 :=
  if nBestHeight < 1000 then 1000000
  else if nBestHeight < 10000 then 10000000
  else if nBestHeight < 20000 then 1 * COIN
  else if nBestHeight < 50000 then 2 * COIN
  else if nBestHeight < 85000 then 1 * COIN
  else 50000000

def getProofOfStakeReward (pindexBest : CBlockIndex) (nFees : Int64) : Int64 :=
  proofOfStakeSubsidy pindexBest.nHeight + nFees

def getBlanknodePayment (_nHeight : Nat) (blockValue : Int64) : Int64 := blockValue * 2 / 3

/-! ## §3. Transactions. -/

def MAX_BLOCK_SIZE : Nat := 20000000

def MAX_BLOCK_SIGOPS : UInt32 := 400000

variable (tx : CTransaction)

/-- One output in `CheckTransaction`, after a running total of `nValueOut`. -/
def checkOutput (nValueOut : Int64) (txout : CTxOut) : Except Failure Int64 := do
  rejectIf (txout.isEmpty && !tx.isCoinBase && !tx.isCoinStake)
    (.dos 100 "CTransaction::CheckTransaction() : txout empty for user transaction")
  rejectIf (txout.nValue < 0)
    (.dos 100 "CTransaction::CheckTransaction() : txout.nValue negative")
  rejectIf (txout.nValue > MAX_MONEY)
    (.dos 100 "CTransaction::CheckTransaction() : txout.nValue too high")
  rejectIf (!moneyRange (nValueOut + txout.nValue))
    (.dos 100 "CTransaction::CheckTransaction() : txout total out of range")
  return nValueOut + txout.nValue

/-- The end of `CheckTransaction`: the script of a coinbase, the outpoints of
any other transaction. -/
def checkScriptOrPrevouts : Except Failure Unit :=
  if tx.isCoinBase then
    rejectIf ((tx.vin.head?).any fun txin =>
        decide (txin.scriptSig.length < 2 ∨ txin.scriptSig.length > 100))
      (.dos 100 "CTransaction::CheckTransaction() : coinbase script size is invalid")
  else
    tx.vin.forM fun txin =>
      rejectIf txin.prevout.isNull
        (.dos 10 "CTransaction::CheckTransaction() : prevout is null")

/-- `CTransaction::CheckTransaction` -/
def checkTransaction : Except Failure Unit := do
  rejectIf tx.vin.isEmpty (.dos 10 "CTransaction::CheckTransaction() : vin empty")
  rejectIf tx.vout.isEmpty (.dos 10 "CTransaction::CheckTransaction() : vout empty")
  rejectIf (tx.getSerializeSize > MAX_BLOCK_SIZE)
    (.dos 100 "CTransaction::CheckTransaction() : size limits failed")
  let _ ← tx.vout.foldlM (checkOutput tx) 0
  -- an outpoint listed twice is refused without a score or a text
  rejectIf (!decide (tx.vin.map CTxIn.prevout).Nodup) (.rejected 0 "")
  checkScriptOrPrevouts tx

/-! ## §4. Blocks. -/

def getBlockTime (b : CBlock) : Int64 := b.nTime.toUInt64.toInt64

/-- `FutureDrift`, the same for both kinds of block. -/
def futureDrift (nTime : Int64) : Int64 := nTime + 28

/-- `vtx[0]`, in a block that has passed the size limits. -/
def coinbaseOf (b : CBlock) : CTransaction := b.vtx.headD (.null 0)

variable (env : ChainEnv)

variable (b : CBlock)

/-- The size, work and time checks of `CheckBlock`. -/
def checkHead (fCheckPOW : Bool) : Except Failure Unit := do
  rejectIf (b.vtx.isEmpty || b.vtx.length > MAX_BLOCK_SIZE || b.getSerializeSize > MAX_BLOCK_SIZE)
    (.dos 100 "CheckBlock() : size limits failed")
  rejectIf (fCheckPOW && b.isProofOfWork && !checkProofOfWork (b.getPoWHash env.H) b.nBits)
    (.dos 50 "CheckBlock() : proof of work failed")
  rejectIf (getBlockTime b > futureDrift env.nAdjustedTime)
    (.error "CheckBlock() : block timestamp too far in the future")

/-- The placement of the coinbase and, in a proof-of-stake block, of the
coinstake. -/
def checkPlacement : Except Failure Unit := do
  rejectIf (!(coinbaseOf b).isCoinBase) (.dos 100 "CheckBlock() : first tx is not coinbase")
  rejectIf (b.vtx.tail.any CTransaction.isCoinBase)
    (.dos 100 "CheckBlock() : more than one coinbase")
  if b.isProofOfStake then do
    rejectIf ((coinbaseOf b).vout.length != 1 || !(coinbaseOf b).vout.all CTxOut.isEmpty)
      (.dos 100 "CheckBlock() : coinbase output not empty for proof-of-stake block")
    rejectIf (!(b.vtx[1]?).any CTransaction.isCoinStake)
      (.dos 100 "CheckBlock() : second tx is not coinstake")
    rejectIf ((b.vtx.drop 2).any CTransaction.isCoinStake)
      (.dos 100 "CheckBlock() : more than one coinstake")
  else .ok ()

def checkBlockSignature : Bool :=
  if b.isProofOfWork then b.vchBlockSig.isEmpty
  else if b.vchBlockSig.isEmpty then false
  else env.verifyBlockSig b

/-- The scan for transactions that conflict with a transaction lock. -/
def checkLockedInputs : Except Failure Unit :=
  if isSporkActive env.mapSporksActive env.nNow SPORK_3_INSTANTX_BLOCK_FILTERING then
    b.vtx.forM fun tx =>
      if tx.isCoinBase then .ok ()
      else tx.vin.forM fun txin =>
        rejectIf ((env.mapLockedInputs[txin.prevout]?).any fun hash => hash != tx.getHash env.H)
          (.dos 0 "CheckBlock() : found conflicting transaction with transaction lock")
  else .ok ()

variable (pindexBest : CBlockIndex)

def isInitialBlockDownload : Bool :=
  decide (pindexBest.nHeight < env.nTotalBlocksEstimate) ||
    (decide (env.nNow - env.nLastUpdate pindexBest < 15) &&
      decide (pindexBest.getBlockTime < env.nNow - 8 * 60 * 60))

def BLANKNODE_PAYMENT_START : Nat := 10500

/-- `CBlanknodePayments::GetBlockPayee`: the payee of the first winner of this
height. -/
def getBlockPayee (nBlockHeight : Nat) : Option CScript :=
  (env.vWinning.find? fun winner => winner.nBlockHeight.toInt == (nBlockHeight : Int)).map
    (·.payee)

/-- `foundPaymentAndPayee`; an unknown or empty payee requires nothing. -/
def foundPaymentAndPayee (nBlockHeight : Nat)
    (coinbase : CTransaction) (blanknodePaymentAmount : Int64) : Bool :=
  match getBlockPayee env nBlockHeight with
  | none | some [] => true
  | some payee =>
    coinbase.vout.any fun txout =>
      txout.nValue == blanknodePaymentAmount && txout.scriptPubKey == payee

/-- The blanknode payment check of `CheckBlock`, made only for a block on top
of the best block. -/
def checkBlanknodePayments (b : CBlock) : Except Failure Unit :=
  if BLANKNODE_PAYMENT_START ≤ pindexBest.nHeight + 1 ∧
      isSporkActive env.mapSporksActive env.nNow SPORK_1_BLANKNODE_PAYMENTS_ENFORCEMENT ∧
      pindexBest.getBlockHash = b.hashPrevBlock then
    match (coinbaseOf b).getValueOut with
    | none => .error (.threw "CTransaction::GetValueOut() : value out of range")
    | some blockValue =>
      rejectIf (!isInitialBlockDownload env pindexBest &&
          !foundPaymentAndPayee env (pindexBest.nHeight + 1) (coinbaseOf b)
            (getBlanknodePayment (pindexBest.nHeight + 1) blockValue))
        (.dos 100 "CheckBlock() : Couldn't find blanknode payment or payee")
  else .ok ()

/-- The failure of `CheckTransaction` seen from its block, which takes over the
score. -/
def Failure.ofCheckTransaction : Failure → Failure
  | rejected nDoS _ => rejected nDoS "CheckBlock() : CheckTransaction failed"
  | threw msg => threw msg

/-- The checks of one transaction in `CheckBlock`. -/
def checkBlockTransaction (tx : CTransaction) : Except Failure Unit := do
  (checkTransaction tx).mapError Failure.ofCheckTransaction
  rejectIf (getBlockTime b < tx.nTime.toUInt64.toInt64)
    (.dos 50 "CheckBlock() : block timestamp earlier than transaction timestamp")

/-- The checks that read the transactions one by one and the merkle root. -/
def checkTransactions (fCheckMerkleRoot : Bool) : Except Failure Unit := do
  b.vtx.forM (checkBlockTransaction b)
  rejectIf (!decide (b.vtx.map (CTransaction.getHash env.H)).Nodup)
    (.dos 100 "CheckBlock() : duplicate transaction")
  rejectIf ((b.vtx.map CTransaction.getLegacySigOpCount).sum > MAX_BLOCK_SIGOPS)
    (.dos 100 "CheckBlock() : out-of-bounds SigOpCount")
  rejectIf (fCheckMerkleRoot && b.hashMerkleRoot != b.buildMerkleTree env.H)
    (.dos 100 "CheckBlock() : hashMerkleRoot mismatch")

/-- `CBlock::CheckBlock` -/
def checkBlock
    (b : CBlock) (fCheckPOW fCheckMerkleRoot fCheckSig : Bool) : Except Failure Unit := do
  checkHead env b fCheckPOW
  checkPlacement b
  rejectIf (fCheckSig && !checkBlockSignature env b)
    (.dos 100 "CheckBlock() : bad proof-of-stake block signature")
  checkLockedInputs env b
  checkBlanknodePayments env pindexBest b
  checkTransactions env b fCheckMerkleRoot

/-! ## §5. What an accepted block has passed. -/

variable {env : ChainEnv} {pindexBest : CBlockIndex} {b : CBlock}
variable {fCheckPOW fCheckMerkleRoot fCheckSig : Bool}

theorem checkHead_eq_ok :
    checkHead env b fCheckPOW = .ok () ↔
      (b.vtx ≠ [] ∧ b.vtx.length ≤ MAX_BLOCK_SIZE ∧ b.getSerializeSize ≤ MAX_BLOCK_SIZE) ∧
      (fCheckPOW && b.isProofOfWork && !checkProofOfWork (b.getPoWHash env.H) b.nBits) = false ∧
      getBlockTime b ≤ futureDrift env.nAdjustedTime := by
  unfold checkHead
  simp [bind_eq_ok, Bool.or_eq_false_iff, and_assoc]

/-- The checks of the transactions that a block has passed. -/
structure TransactionsPass (env : ChainEnv) (b : CBlock) (fCheckMerkleRoot : Bool) : Prop where
  each : b.vtx.forM (checkBlockTransaction b) = .ok ()
  nodup : (b.vtx.map (CTransaction.getHash env.H)).Nodup
  sigOps : (b.vtx.map CTransaction.getLegacySigOpCount).sum ≤ MAX_BLOCK_SIGOPS
  merkleRoot : fCheckMerkleRoot = true → b.hashMerkleRoot = b.buildMerkleTree env.H

theorem checkTransactions_eq_ok :
    checkTransactions env b fCheckMerkleRoot = .ok () ↔ TransactionsPass env b fCheckMerkleRoot := by
  simp only [checkTransactions, bind_eq_ok, rejectIf_eq_ok, Bool.not_eq_false', decide_eq_true_eq,
    decide_eq_false_iff_not, Bool.and_eq_false_imp, bne_eq_false_iff_eq]
  constructor
  · intro h
    obtain ⟨_, heach, _, hnodup, _, hops, hroot⟩ := h
    exact ⟨heach, hnodup, Nat.not_lt.mp hops, hroot⟩
  · intro h
    exact ⟨(), h.each, (), h.nodup, (), Nat.not_lt.mpr h.sigOps, h.merkleRoot⟩

/-- The parts of `CheckBlock` that a block has passed. -/
structure BlockPasses (env : ChainEnv) (pindexBest : CBlockIndex) (b : CBlock)
    (fCheckPOW fCheckMerkleRoot fCheckSig : Bool) : Prop where
  head : checkHead env b fCheckPOW = .ok ()
  placement : checkPlacement b = .ok ()
  signature : (fCheckSig && !checkBlockSignature env b) = false
  lockedInputs : checkLockedInputs env b = .ok ()
  payments : checkBlanknodePayments env pindexBest b = .ok ()
  transactions : TransactionsPass env b fCheckMerkleRoot

/-- **A block is accepted** exactly if it passes every part. -/
theorem checkBlock_eq_ok :
    checkBlock env pindexBest b fCheckPOW fCheckMerkleRoot fCheckSig = .ok () ↔
      BlockPasses env pindexBest b fCheckPOW fCheckMerkleRoot fCheckSig := by
  simp only [checkBlock, bind_eq_ok, rejectIf_eq_ok, checkTransactions_eq_ok]
  constructor
  · intro h
    obtain ⟨_, hhead, _, hplace, _, hsig, _, hlocked, _, hpay, htxs⟩ := h
    exact ⟨hhead, hplace, hsig, hlocked, hpay, htxs⟩
  · intro h
    exact ⟨(), h.head, (), h.placement, (), h.signature, (), h.lockedInputs, (), h.payments,
      h.transactions⟩

end Fantom.Chain
