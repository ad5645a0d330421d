/-
  Fantom.Chain.ConnectBlock — Connecting a block to the transaction index and taking it off again.

  * `connectBlock` — all transactions of a block, the reward, then the queue, the address index and
    the block index are written,
  * `disconnectInputs`, `disconnectBlock`.

  The functions take the records as a database transaction shows them and return the records after
  their writes.
-/
import Fantom.Chain.CheckBlock

namespace Fantom.Chain

open Core Lib

/-! ## §1. Previous transactions. -/

/-- Transaction ids to index entries: `mapTestPool`, `mapQueuedChanges`. -/
abbrev TxIndexMap := StdMap UInt256 CTxIndex

/-- `MapPrevTx`: previous transactions with their index entries. -/
abbrev MapPrevTx := StdMap UInt256 (CTxIndex × CTransaction)

/-- The index entry of a previous transaction: from the proposed changes first,
when the caller has any. -/
def readQueued (db : Records) (mapTestPool : TxIndexMap) (fQueued : Bool) (hash : UInt256) :
    Option CTxIndex :=
  if fQueued then (mapTestPool[hash]?).or (db.readTxIndex hash) else db.readTxIndex hash

variable (env : ChainEnv)

def readPrev (hash : UInt256) (pos : CDiskTxPos) : Except Failure CTransaction :=
  if pos = .inMempool then
    required (env.mempoolLookup hash) (.error "FetchInputs() : mempool Tx prev not found")
  else
    required (env.readTx pos.nFile pos.nTxPos)
      (.error "FetchInputs() : ReadFromDisk prev tx failed")

variable (db : Records)

/-- One input in the first loop of `FetchInputs`. -/
def fetchInput (mapTestPool : TxIndexMap)
    (fBlock fMiner : Bool) (inputsRet : MapPrevTx) (txin : CTxIn) : Except Failure MapPrevTx :=
  if inputsRet.contains txin.prevout.hash then .ok inputsRet
  else
    match readQueued db mapTestPool (fBlock || fMiner) txin.prevout.hash with
    | some txindex => do
      let txPrev ← readPrev env txin.prevout.hash txindex.pos
      return inputsRet.insert txin.prevout.hash (txindex, txPrev)
    | none => do
      rejectIf fMiner (.rejected 0 "")
      rejectIf fBlock (.error "FetchInputs() : prev tx index entry not found")
      let txPrev ← required (env.mempoolLookup txin.prevout.hash)
        (.error "FetchInputs() : mempool Tx prev not found")
      return inputsRet.insert txin.prevout.hash
        (CTxIndex.fresh .null txPrev.vout.length, txPrev)

/-- One input in the second loop of `FetchInputs`. -/
def checkPrevout (inputsRet : MapPrevTx) (txin : CTxIn) : Except Failure Unit := do
  let (txindex, txPrev) ← required inputsRet[txin.prevout.hash]? (.threw "inputsRet.count")
  rejectIf (decide (txin.prevout.n.toNat ≥ txPrev.vout.length) ||
      decide (txin.prevout.n.toNat ≥ txindex.vSpent.length))
    (.dos 100 "FetchInputs() : prevout.n out of range")

def fetchInputs (mapTestPool : TxIndexMap)
    (fBlock fMiner : Bool) (tx : CTransaction) (inputsRet : MapPrevTx) : Except Failure MapPrevTx :=
  if tx.isCoinBase then .ok inputsRet
  else do
    let inputsRet ← tx.vin.foldlM (fetchInput env db mapTestPool fBlock fMiner) inputsRet
    tx.vin.forM (checkPrevout inputsRet)
    return inputsRet

/-- `CTransaction::GetOutputFor`, with `none` for its exceptions. -/
def getOutputFor (inputs : MapPrevTx) (txin : CTxIn) : Option CTxOut :=
  (inputs[txin.prevout.hash]?).bind fun p => p.2.vout[txin.prevout.n.toNat]?

variable (tx : CTransaction)

variable (inputs : MapPrevTx)

def getValueIn : Option Int64 :=
  if tx.isCoinBase then some 0
  else tx.vin.foldlM (fun nResult txin =>
    (getOutputFor inputs txin).map fun txout => nResult + txout.nValue) 0

def getP2SHSigOpCount : Option UInt32 :=
  if tx.isCoinBase then some 0
  else tx.vin.foldlM (fun nSigOps txin =>
    (getOutputFor inputs txin).map fun prevout =>
      if CScript.isPayToScriptHash prevout.scriptPubKey then
        nSigOps + CScript.getSigOpCountP2SH prevout.scriptPubKey txin.scriptSig
      else nSigOps) 0

/-! ## §2. Spending. -/

def SCRIPT_VERIFY_NOCACHE : UInt32 := (1 : UInt32) <<< 0
def SCRIPT_VERIFY_STRICTENC : UInt32 := (1 : UInt32) <<< 1
def SCRIPT_VERIFY_NULLDUMMY : UInt32 := (1 : UInt32) <<< 4
def SCRIPT_VERIFY_DISCOURAGE_UPGRADABLE_NOPS : UInt32 := (1 : UInt32) <<< 7
def SCRIPT_VERIFY_ALLOW_EMPTY_SIG : UInt32 := (1 : UInt32) <<< 8
def SCRIPT_VERIFY_FIX_HASHTYPE : UInt32 := (1 : UInt32) <<< 9
def SCRIPT_VERIFY_CHECKLOCKTIMEVERIFY : UInt32 := (1 : UInt32) <<< 10

def MANDATORY_SCRIPT_VERIFY_FLAGS : UInt32 :=
  SCRIPT_VERIFY_NULLDUMMY ||| SCRIPT_VERIFY_STRICTENC ||| SCRIPT_VERIFY_CHECKLOCKTIMEVERIFY

def STANDARD_SCRIPT_VERIFY_FLAGS : UInt32 :=
  MANDATORY_SCRIPT_VERIFY_FLAGS ||| SCRIPT_VERIFY_DISCOURAGE_UPGRADABLE_NOPS

def STANDARD_NOT_MANDATORY_VERIFY_FLAGS : UInt32 :=
  STANDARD_SCRIPT_VERIFY_FLAGS &&& ~~~MANDATORY_SCRIPT_VERIFY_FLAGS

/-- The flags of `ConnectBlock`. -/
def connectFlags : UInt32 :=
  SCRIPT_VERIFY_NOCACHE ||| SCRIPT_VERIFY_NULLDUMMY ||| SCRIPT_VERIFY_STRICTENC |||
    SCRIPT_VERIFY_ALLOW_EMPTY_SIG ||| SCRIPT_VERIFY_FIX_HASHTYPE |||
    SCRIPT_VERIFY_CHECKLOCKTIMEVERIFY

/-- `VerifySignature` on input number `nIn`, which is `txin`. -/
def verifySignature (txFrom txTo : CTransaction) (txin : CTxIn) (nIn : Nat) (flags : UInt32) :
    Bool :=
  match txFrom.vout[txin.prevout.n.toNat]? with
  | none => false
  | some txout =>
    if txin.prevout.hash ≠ txFrom.getHash env.H then false
    else env.verifyScript txin.scriptSig txout.scriptPubKey txTo nIn flags

/-- The signature check of `ConnectInputs`, unless it is skipped; a failure that
only concerns flags that are not mandatory is not held against the peer. -/
def checkSignature (fVerify : Bool) (txPrev tx : CTransaction) (txin : CTxIn) (nIn : Nat)
    (flags : UInt32) : Except Failure Unit :=
  if !fVerify then .ok ()
  else if verifySignature env txPrev tx txin nIn flags then .ok ()
  else if flags &&& STANDARD_NOT_MANDATORY_VERIFY_FLAGS ≠ 0 ∧
      verifySignature env txPrev tx txin nIn (flags &&& ~~~STANDARD_NOT_MANDATORY_VERIFY_FLAGS) then
    .error (.error "ConnectInputs() : non-mandatory VerifySignature failed")
  else .error (.dos 100 "ConnectInputs() : VerifySignature failed")

/-- One input in the first loop of `ConnectInputs`, after inputs worth
`nValueIn`. -/
def checkInput (pindexBlock : CBlockIndex) (nValueIn : Int64) (txin : CTxIn) :
    Except Failure Int64 := do
  let (txindex, txPrev) ← required inputs[txin.prevout.hash]? (.threw "inputs.count")
  rejectIf (decide (txin.prevout.n.toNat ≥ txindex.vSpent.length))
    (.dos 100 "ConnectInputs() : prevout.n out of range")
  let txout ← required txPrev.vout[txin.prevout.n.toNat]?
    (.dos 100 "ConnectInputs() : prevout.n out of range")
  rejectIf ((txPrev.isCoinBase || txPrev.isCoinStake) &&
      isConfirmedInNPrevBlocks txindex pindexBlock env.nCoinbaseMaturity)
    (.error "ConnectInputs() : tried to spend coinbase or coinstake")
  rejectIf (txPrev.nTime > tx.nTime)
    (.dos 100 "ConnectInputs() : transaction timestamp earlier than input transaction")
  rejectIf txout.isEmpty (.dos 1 "ConnectInputs() : special marker is not spendable")
  rejectIf (!moneyRange txout.nValue || !moneyRange (nValueIn + txout.nValue))
    (.dos 100 "ConnectInputs() : txin values out of range")
  return nValueIn + txout.nValue

/-- One input in the second loop of `ConnectInputs`: input number `nIn`, with
its signature checked when `fVerify` says so. -/
def spendInput (posThisTx : CDiskTxPos) (fBlock fMiner fVerify : Bool) (flags : UInt32)
    (st : MapPrevTx × TxIndexMap) (i : CTxIn × Nat) : Except Failure (MapPrevTx × TxIndexMap) := do
  let (txin, nIn) := i
  let (txindex, txPrev) ← required st.1[txin.prevout.hash]? (.threw "inputs.count")
  let spent ← required txindex.vSpent[txin.prevout.n.toNat]? (.threw "vSpent out of range")
  rejectIf (!spent.isNull)
    (.error (if fMiner then "" else "ConnectInputs() : prev tx already used"))
  checkSignature env fVerify txPrev tx txin nIn flags
  let txindex := { txindex with vSpent := txindex.vSpent.set txin.prevout.n.toNat posThisTx }
  return (st.1.insert txin.prevout.hash (txindex, txPrev),
    if fBlock || fMiner then st.2.insert txin.prevout.hash txindex else st.2)

/-- The last part of `ConnectInputs`: a transaction that is not a coinstake
spends at least what it creates. -/
def checkTxFee (nValueIn : Int64) : Except Failure Unit :=
  if tx.isCoinStake then .ok ()
  else do
    let nValueOut ← required tx.getValueOut
      (.threw "CTransaction::GetValueOut() : value out of range")
    rejectIf (nValueIn < nValueOut) (.dos 100 "ConnectInputs() : value in < value out")
    rejectIf (nValueIn - nValueOut < 0) (.dos 100 "ConnectInputs() : nTxFee < 0")
    rejectIf (!moneyRange (nValueIn - nValueOut))
      (.dos 100 "ConnectInputs() : nFees out of range")

/-- Signatures are skipped when connecting blocks below the last checkpoint;
`nBestHeight` is the height of the best block. -/
def skipsSignatures (pindexBest : CBlockIndex) (fBlock : Bool) : Bool :=
  fBlock && decide (pindexBest.nHeight < env.nTotalBlocksEstimate)

/-- `CTransaction::ConnectInputs`; `inputs` is passed by value, `mapTestPool` is
returned. -/
def connectInputs (mapTestPool : TxIndexMap) (posThisTx : CDiskTxPos) (pindexBlock : CBlockIndex)
    (fBlock fMiner : Bool) (flags : UInt32) (fVerify : Bool) : Except Failure TxIndexMap :=
  if tx.isCoinBase then .ok mapTestPool
  else do
    let nValueIn ← tx.vin.foldlM (checkInput env tx inputs pindexBlock) 0
    let (_, mapTestPool) ← tx.vin.zipIdx.foldlM
      (spendInput env tx posThisTx fBlock fMiner fVerify flags) (inputs, mapTestPool)
    checkTxFee tx nValueIn
    return mapTestPool

/-! ## §3. Connecting a block. -/

/-- The locals of `ConnectBlock` that its loop carries. -/
structure ConnectState where
  mapQueuedChanges : TxIndexMap
  nFees : Int64
  nValueIn : Int64
  nValueOut : Int64
  nStakeReward : Int64
  nSigOps : UInt32
  nTxPos : UInt32

/-- `CBlock()`. -/
def nullBlock : CBlock := ⟨2, 0, 0, 0, 0, 0, [], []⟩

/-- `nTxPos` of the first transaction: behind the header and the count. -/
def firstTxPos (b : CBlock) (pindex : CBlockIndex) (fJustCheck : Bool) : UInt32 :=
  if fJustCheck then 1
  else
    pindex.data.nBlockPos +
      UInt32.ofNat (nullBlock.getSerializeSize - 2 * getSizeOfCompactSize 0 +
        getSizeOfCompactSize b.vtx.length)

def ConnectState.init (b : CBlock) (pindex : CBlockIndex) (fJustCheck : Bool) : ConnectState :=
  ⟨∅, 0, 0, 0, 0, 0, firstTxPos b pindex fJustCheck⟩

variable (pindex : CBlockIndex)

/-- The body of the loop for a transaction with inputs. -/
def connectSpending (fVerify : Bool) (posThisTx : CDiskTxPos)
    (st : ConnectState) (tx : CTransaction) : Except Failure ConnectState := do
  let mapInputs ← (fetchInputs env db st.mapQueuedChanges true false tx ∅).mapError Failure.ofTx
  let nP2SHSigOps ← required (getP2SHSigOpCount tx mapInputs)
    (.threw "CTransaction::GetOutputFor() : prevout.hash not found")
  rejectIf (st.nSigOps + nP2SHSigOps > MAX_BLOCK_SIGOPS)
    (.dos 100 "ConnectBlock() : too many sigops")
  let nTxValueIn ← required (getValueIn tx mapInputs)
    (.threw "CTransaction::GetOutputFor() : prevout.hash not found")
  let nTxValueOut ← required tx.getValueOut
    (.threw "CTransaction::GetValueOut() : value out of range")
  let mapQueuedChanges ← (connectInputs env tx mapInputs st.mapQueuedChanges posThisTx pindex
    true false connectFlags fVerify).mapError Failure.ofTx
  return { st with
    mapQueuedChanges := mapQueuedChanges
    nFees := if tx.isCoinStake then st.nFees else st.nFees + (nTxValueIn - nTxValueOut)
    nValueIn := st.nValueIn + nTxValueIn
    nValueOut := st.nValueOut + nTxValueOut
    nStakeReward := if tx.isCoinStake then nTxValueOut - nTxValueIn else st.nStakeReward
    nSigOps := st.nSigOps + nP2SHSigOps }

def connectCoinBase (st : ConnectState) (tx : CTransaction) : Except Failure ConnectState := do
  let nTxValueOut ← required tx.getValueOut
    (.threw "CTransaction::GetValueOut() : value out of range")
  return { st with nValueOut := st.nValueOut + nTxValueOut }

/-- `posThisTx` of the transaction the loop is at. -/
def posThisTx (st : ConnectState) : CDiskTxPos :=
  .inFile pindex.data.nFile pindex.data.nBlockPos st.nTxPos

/-- The branch of the loop for a coinbase or for any other transaction. -/
def connectKind (fVerify : Bool) (posThisTx : CDiskTxPos) (st : ConnectState) (tx : CTransaction) :
    Except Failure ConnectState :=
  if tx.isCoinBase then connectCoinBase st tx
  else connectSpending env db pindex fVerify posThisTx st tx

/-- The body of the loop of `ConnectBlock`. -/
def connectTx (fJustCheck fVerify : Bool) (st : ConnectState) (tx : CTransaction) :
    Except Failure ConnectState := do
  rejectIf ((db.readTxIndex (tx.getHash env.H)).any fun txindexOld =>
      txindexOld.vSpent.any CDiskTxPos.isNull)
    (.dos 100 "ConnectBlock() : tried to overwrite transaction")
  rejectIf (st.nSigOps + tx.getLegacySigOpCount > MAX_BLOCK_SIGOPS)
    (.dos 100 "ConnectBlock() : too many sigops")
  let entered := { st with
    nSigOps := st.nSigOps + tx.getLegacySigOpCount
    nTxPos := if fJustCheck then st.nTxPos else st.nTxPos + UInt32.ofNat tx.getSerializeSize }
  let spent ← connectKind env db pindex fVerify (posThisTx pindex st) entered tx
  return { spent with
    mapQueuedChanges := spent.mapQueuedChanges.insert (tx.getHash env.H)
      (CTxIndex.fresh (posThisTx pindex st) tx.vout.length) }

/-- The reward checks of `ConnectBlock`. -/
def checkReward (pindexBest : CBlockIndex) (b : CBlock) (st : ConnectState) :
    Except Failure Unit :=
  if b.isProofOfStake then
    rejectIf (st.nStakeReward > getProofOfStakeReward pindexBest st.nFees)
      (.dos 100 "ConnectBlock() : coinstake pays too much")
  else do
    let nValueOut ← required (coinbaseOf b).getValueOut
      (.threw "CTransaction::GetValueOut() : value out of range")
    rejectIf (nValueOut > getProofOfWorkReward pindexBest st.nFees)
      (.dos 50 "ConnectBlock() : coinbase reward exceeded")

/-- The fields of the block index entries that change. -/
structure IndexMem where
  pnext : CBlockIndex → Option CBlockIndex
  nMint : CBlockIndex → Int64
  nMoneySupply : CBlockIndex → Int64

variable (mem : IndexMem)

/-- `CDiskBlockIndex(pindex)`. -/
def diskBlockIndex (pindex : CBlockIndex) : CDiskBlockIndex where
  hashPrev := (pindex.pprev.map CBlockIndex.getBlockHash).getD 0
  hashNext := ((mem.pnext pindex).map CBlockIndex.getBlockHash).getD 0
  nHeight := pindex.nHeight
  nMint := mem.nMint pindex
  nMoneySupply := mem.nMoneySupply pindex
  data := pindex.data

/-- `pindex->nMint` and `pindex->nMoneySupply` after the loop. -/
def trackSupply (pindex : CBlockIndex) (st : ConnectState) : IndexMem :=
  { mem with
    nMint := Function.update mem.nMint pindex (st.nValueOut - st.nValueIn + st.nFees)
    nMoneySupply := Function.update mem.nMoneySupply pindex
      ((pindex.pprev.map mem.nMoneySupply).getD 0 + st.nValueOut - st.nValueIn) }

def writeOutputAddrs (hashTx : UInt256) (db : Records) (txout : CTxOut) : Records :=
  (buildAddrIndex env.H txout.scriptPubKey).foldl (Records.writeAddrIndex · hashTx) db

/-- The address entries of one transaction: of every output of its previous
transactions, then of its own. -/
def writeTxAddrs : Except Failure Records := do
  let mapInputs ← (fetchInputs env db ∅ true false tx ∅).mapError Failure.ofTx
  let db := mapInputs.foldl
    (fun db _ p => p.2.vout.foldl (writeOutputAddrs env (tx.getHash env.H)) db) db
  return tx.vout.foldl (writeOutputAddrs env (tx.getHash env.H)) db

/-- `CDiskBlockIndex blockindexPrev(pindex->pprev)` with `hashNext` replaced. -/
def writePrevBlockIndex (pindex : CBlockIndex) (hashNext : UInt256) (db : Records) : Records :=
  match pindex.pprev with
  | none => db
  | some pprev => db.writeBlockIndex { diskBlockIndex mem pprev with hashNext := hashNext }

/-- The queued changes are written; the queue is ordered by id. -/
def flushQueue (mapQueuedChanges : TxIndexMap) : Records :=
  { db with tx := StdMap.overlay db.tx mapQueuedChanges }

/-- `CBlock::ConnectBlock` -/
def connectBlock (pindexBest : CBlockIndex) (mem : IndexMem) (db : Records) (b : CBlock)
    (pindex : CBlockIndex) (fJustCheck : Bool) : Except Failure (IndexMem × Records) := do
  checkBlock env pindexBest b (!fJustCheck) (!fJustCheck) false
  let st ← b.vtx.foldlM
    (connectTx env db pindex fJustCheck (!skipsSignatures env pindexBest true))
    (.init b pindex fJustCheck)
  checkReward pindexBest b st
  let mem := trackSupply mem pindex st
  let db := db.writeBlockIndex (diskBlockIndex mem pindex)
  if fJustCheck then return (mem, db)
  let db ← b.vtx.foldlM (writeTxAddrs env) (flushQueue db st.mapQueuedChanges)
  return (mem, writePrevBlockIndex mem pindex pindex.getBlockHash db)

theorem connectBlock_eq_ok {pindexBest : CBlockIndex} {mem : IndexMem} {db : Records} {b : CBlock}
    {pindex : CBlockIndex} {r : IndexMem × Records} :
    connectBlock env pindexBest mem db b pindex false = .ok r ↔
      ∃ st db₁, checkBlock env pindexBest b true true false = .ok () ∧
        b.vtx.foldlM (connectTx env db pindex false (!skipsSignatures env pindexBest true))
          (.init b pindex false) = .ok st ∧
        checkReward pindexBest b st = .ok () ∧
        b.vtx.foldlM (writeTxAddrs env)
          (flushQueue (db.writeBlockIndex (diskBlockIndex (trackSupply mem pindex st) pindex))
            st.mapQueuedChanges) = .ok db₁ ∧
        r = (trackSupply mem pindex st,
          writePrevBlockIndex (trackSupply mem pindex st) pindex pindex.getBlockHash db₁) := by
  unfold connectBlock
  constructor
  · intro h
    obtain ⟨_, hcheck, h⟩ := bind_eq_ok.mp h
    obtain ⟨st, hloop, h⟩ := bind_eq_ok.mp h
    obtain ⟨_, hreward, h⟩ := bind_eq_ok.mp h
    dsimp only at h
    rw [if_neg Bool.false_ne_true] at h
    obtain ⟨db₁, haddr, h⟩ := bind_eq_ok.mp h
    exact ⟨st, db₁, hcheck, hloop, hreward, haddr, (pure_eq_ok.mp h).symm⟩
  · rintro ⟨st, db₁, hcheck, hloop, hreward, haddr, rfl⟩
    refine bind_eq_ok.mpr ⟨(), hcheck, bind_eq_ok.mpr ⟨st, hloop,
      bind_eq_ok.mpr ⟨(), hreward, ?_⟩⟩⟩
    dsimp only
    rw [if_neg Bool.false_ne_true]
    exact bind_eq_ok.mpr ⟨db₁, haddr, rfl⟩

/-! ## §4. Disconnecting a block. -/

/-- One input in `DisconnectInputs`. -/
def unspendInput (txin : CTxIn) : Except Failure Records := do
  let txindex ← required (db.readTxIndex txin.prevout.hash)
    (.error "DisconnectInputs() : ReadTxIndex failed")
  rejectIf (decide (txin.prevout.n.toNat ≥ txindex.vSpent.length))
    (.error "DisconnectInputs() : prevout.n out of range")
  return db.updateTxIndex txin.prevout.hash
    { txindex with vSpent := txindex.vSpent.set txin.prevout.n.toNat .null }

/-- The loop of `DisconnectInputs`. -/
def unspendInputs : Except Failure Records :=
  if tx.isCoinBase then .ok db else tx.vin.foldlM unspendInput db

def disconnectInputs : Except Failure Records := do
  let db ← unspendInputs db tx
  return db.eraseTxIndex (tx.getHash env.H)

def disconnectBlock (db : Records) (b : CBlock) (pindex : CBlockIndex) :
    Except Failure Records := do
  let db ← b.vtx.reverse.foldlM (disconnectInputs env) db
  return writePrevBlockIndex mem pindex 0 db

/-! ## §5. A sample chain. -/

def sampleChainHashes : Hashes := { sampleHashes with velvetHash := fun _ _ => 0 }

def sampleChainEnv (stored : List (UInt32 × CTransaction)) : ChainEnv where
  H := sampleChainHashes
  nNow := 1500000000
  nAdjustedTime := 1500000000
  mapSporksActive := ∅
  mapLockedInputs := ∅
  vWinning := []
  nLastUpdate _ := 0
  nTotalBlocksEstimate := 0
  nCoinbaseMaturity := 42
  hashGenesisBlock := 1
  readTx _ nTxPos := (stored.find? fun s => s.1 == nTxPos).map Prod.snd
  readBlock _ _ := none
  mempoolLookup _ := none
  acceptToMemoryPool _ _ _ _ := true
  verifyScript _ _ _ _ _ := true
  verifyBlockSig _ := true
  txnCommitOk _ := true

def sampleOut (nValue : Int64) : CTxOut := ⟨nValue, 0, if nValue = 0 then [] else [OP_1]⟩

def sampleTx (vin : List (UInt256 × UInt32)) (vout : List Int64) : CTransaction :=
  ⟨1, 1100, vin.map fun o => ⟨⟨o.1, o.2⟩, [], [], 0⟩, vout.map sampleOut, 0⟩

def sampleCoinBase (nValue : Int64) : CTransaction :=
  ⟨1, 1100, [⟨⟨0, 0xffffffff⟩, [1, 1], [], 0⟩], [⟨nValue, 0, [OP_1]⟩], 0⟩

def sampleBlock (pprev : CBlockIndex) (vtx : List CTransaction) : CBlock :=
  let b : CBlock := ⟨2, pprev.getBlockHash, 0, 1200, 0x1e0fffff, 0, vtx, []⟩
  { b with hashMerkleRoot := b.buildMerkleTree sampleChainHashes }

def sampleGenesis : CBlockIndex := .root ⟨1, .first, 0, 2, 0, 1000, 0x1e0fffff, 0⟩

def sampleIndex (pprev : CBlockIndex) (b : CBlock) (nBlockPos : UInt32) : CBlockIndex :=
  .child pprev ⟨b.getHash sampleChainHashes, .first, nBlockPos, b.nVersion, b.hashMerkleRoot,
    b.nTime, b.nBits, b.nNonce⟩

def sampleMem : IndexMem := ⟨fun _ => none, fun _ => 0, fun _ => 0⟩

def sampleFunding : CTransaction := sampleTx [(9, 0)] [500, 300]

def sampleRecords : Records :=
  { Records.empty with
    tx := (∅ : TxIndexMap).insert (sampleFunding.getHash sampleChainHashes)
      (CTxIndex.fresh (.inFile .first 0 77) 2) }

def sampleSpend : CTransaction :=
  sampleTx [(sampleFunding.getHash sampleChainHashes, 0),
    (sampleFunding.getHash sampleChainHashes, 1)] [700, 50]

def chainedBlock : CBlock :=
  sampleBlock sampleGenesis [sampleCoinBase 1000, sampleSpend,
    sampleTx [(sampleSpend.getHash sampleChainHashes, 0)] [690]]

def chainedIndex : CBlockIndex := sampleIndex sampleGenesis chainedBlock 500

def chainedEnv : ChainEnv :=
  sampleChainEnv [(77, sampleFunding), (firstTxPos chainedBlock chainedIndex false +
    UInt32.ofNat (sampleCoinBase 1000).getSerializeSize, sampleSpend)]

theorem chainedBlock_accepted :
    accepts (connectBlock chainedEnv sampleGenesis sampleMem sampleRecords chainedBlock
      chainedIndex false) = true := by
  decide +kernel

end Fantom.Chain
