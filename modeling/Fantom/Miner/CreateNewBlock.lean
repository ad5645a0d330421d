/-
  Fantom.Miner.CreateNewBlock — `CreateNewBlock`: the transactions of the memory pool that go into a
  new block.

  * `isSkipped`, `prioritizeByFee`, `spendInputs`, `wake` — the parts of the loop,
  * `processTop`, `collectLoop`, `createNewBlock`.

  A `COrphan*` is the id of its transaction: no transaction has two of them.
-/
import Fantom.Blocks.AcceptBlock
import Fantom.Lib.Sorting

namespace Fantom.Miner

open Core Chain Lib Pool Blocks

/-! ## §1. Priorities. -/

/-- The operations of `double`. -/
structure DoubleArith (D : Type) where
  ofInt64 : Int64 → D
  add : D → D → D
  mul : D → D → D
  div : D → D → D
  lt : D → D → Bool
  eq : D → D → Bool

/-- `TxPriority`. -/
structure TxPriority (D : Type) where
  dPriority : D
  dFeePerKb : D
  tx : CTransaction

/-- `COrphan`. -/
structure COrphan (D : Type) where
  ptx : CTransaction
  setDependsOn : StdSet UInt256
  dPriority : D
  dFeePerKb : D

/-- What the miner reads besides the chain. -/
structure MinerEnv (D : Type) extends ChainEnv where
  double : DoubleArith D
  heap : StdHeap (TxPriority D)
  fDebug : Bool
  /-- `GetArg("-blockmaxsize", MAX_BLOCK_SIZE_GEN/2)`, and so on. -/
  argBlockMaxSize : Int64
  argBlockPrioritySize : Int64
  argBlockMinSize : Int64
  nMinTxFee : Int64
  /-- `CTxIndex::GetDepthInMainChain`. -/
  getDepthInMainChain : CTxIndex → Int32
  getNextTargetRequired : CBlockIndex → Bool → UInt32
  /-- The output script for the key that `GetReservedKey` returns. -/
  reservedScript : Option CScript

variable {D : Type} (env : MinerEnv D)

/-- `unsigned int n = GetArg(..)`. -/
def unsignedArg (n : Int64) : Nat := n.toUInt64.toUInt32.toNat

def MinerEnv.nBlockMaxSize : Nat :=
  max 1000 (min (MAX_BLOCK_SIZE - 1000) (unsignedArg env.argBlockMaxSize))

def MinerEnv.nBlockPrioritySize : Nat :=
  min env.nBlockMaxSize (unsignedArg env.argBlockPrioritySize)

def MinerEnv.nBlockMinSize : Nat := min env.nBlockMaxSize (unsignedArg env.argBlockMinSize)

def txPriorityCompare (byFee : Bool) (a b : TxPriority D) : Bool :=
  if byFee then
    if env.double.eq a.dFeePerKb b.dFeePerKb then env.double.lt a.dPriority b.dPriority
    else env.double.lt a.dFeePerKb b.dFeePerKb
  else
    if env.double.eq a.dPriority b.dPriority then env.double.lt a.dFeePerKb b.dFeePerKb
    else env.double.lt a.dPriority b.dPriority

/-! ## §2. The candidates. -/

/-- `CTransaction::ReadFromDisk(txdb, prevout, txindex)`. -/
def readFromDisk (db : Records) (prevout : COutPoint) : Option (CTxIndex × CTxOut) := do
  let txindex ← db.readTxIndex prevout.hash
  let txPrev ← env.readTx txindex.pos.nFile txindex.pos.nTxPos
  let txout ← txPrev.vout[prevout.n.toNat]?
  return (txindex, txout)

/-- The locals of the loop over inputs; `setDependsOn` is that of `porphan`, if it is set. -/
structure InputScan (D : Type) where
  setDependsOn : Option (StdSet UInt256)
  mapDependers : StdMap UInt256 (List UInt256)
  dPriority : D
  nTotalIn : Int64

/-- `mapDependers[hash].push_back(porphan)` -/
def addDepender (mapDependers : StdMap UInt256 (List UInt256)) (hash porphan : UInt256) :
    StdMap UInt256 (List UInt256) :=
  mapDependers.insert hash ((mapDependers[hash]?).getD [] ++ [porphan])

def InputScan.addKnown (scan : InputScan D) (txindex : CTxIndex) (txout : CTxOut) : InputScan D :=
  { scan with
    nTotalIn := scan.nTotalIn + txout.nValue
    dPriority := env.double.add scan.dPriority (env.double.mul (env.double.ofInt64 txout.nValue)
      (env.double.ofInt64 (env.getDepthInMainChain txindex).toInt64)) }

/-- An input from the pool, of the transaction with the id `porphan`. -/
def InputScan.addDependency (scan : InputScan D) (porphan hashPrev : UInt256) (txout : CTxOut) :
    InputScan D :=
  { scan with
    setDependsOn := some ((scan.setDependsOn.getD ∅).insert hashPrev)
    mapDependers := addDepender scan.mapDependers hashPrev porphan
    nTotalIn := scan.nTotalIn + txout.nValue }

/-- The loop over the inputs of a transaction, and `fMissingInputs`. -/
def scanInputs (db : Records) (pool : CTxMemPool) (porphan : UInt256) :
    List CTxIn → InputScan D → Except Abort (Bool × InputScan D)
  | [], scan => .ok (false, scan)
  | txin :: vin, scan =>
    match readFromDisk env db txin.prevout with
    | some (txindex, txout) => scanInputs db pool porphan vin (scan.addKnown env txindex txout)
    | none =>
      match pool.mapTx[txin.prevout.hash]? with
      | none =>
        if env.fDebug then .error (.threw "mempool transaction missing input")
        else .ok (true, scan)
      | some txPrev => do
        let txout ← required txPrev.vout[txin.prevout.n.toNat]? .dangling
        scanInputs db pool porphan vin (scan.addDependency porphan txin.prevout.hash txout)

/-- The queue, and what waits for transactions of the pool. -/
structure Candidates (D : Type) where
  vOrphan : List (COrphan D)
  mapDependers : StdMap UInt256 (List UInt256)
  vecPriority : List (TxPriority D)

/-- `double(n) / (double(nTxSize)/1000.0)` -/
def feePerKb (n : Int64) (nTxSize : Nat) : D :=
  env.double.div (env.double.ofInt64 n)
    (env.double.div (env.double.ofInt64 (Int64.ofNat nTxSize)) (env.double.ofInt64 1000))

/-- The part of the first loop after the inputs of a transaction.  `porphan` is put into
`vOrphan` here, since nothing reads the list before. -/
def addCandidate (tx : CTransaction) (scan : InputScan D) (st : Candidates D) :
    Except Abort (Candidates D) := do
  let nTxSize := tx.getSerializeSize
  let dPriority := env.double.div scan.dPriority (env.double.ofInt64 (Int64.ofNat nTxSize))
  let nValueOut ← required tx.getValueOut (.threw "CTransaction::GetValueOut() : value out of range")
  let dFeePerKb := feePerKb env (scan.nTotalIn - nValueOut) nTxSize
  match scan.setDependsOn with
  | some setDependsOn =>
    return { st with vOrphan := st.vOrphan ++ [⟨tx, setDependsOn, dPriority, dFeePerKb⟩] }
  | none => return { st with vecPriority := st.vecPriority ++ [⟨dPriority, dFeePerKb, tx⟩] }

/-- The first loop, for one transaction of the pool.  Of a transaction with missing inputs
the pointers in `mapDependers` stay. -/
def collectTx (db : Records) (pool : CTxMemPool) (nHeight : Nat) (st : Candidates D)
    (entry : UInt256 × CTransaction) : Except Abort (Candidates D) :=
  let tx := entry.2
  if tx.isCoinBase || tx.isCoinStake || !isFinalTx env.nAdjustedTime tx nHeight then .ok st
  else do
    let (fMissingInputs, scan) ← scanInputs env db pool (tx.getHash env.H) tx.vin
      ⟨none, st.mapDependers, env.double.ofInt64 0, 0⟩
    let st := { st with mapDependers := scan.mapDependers }
    if fMissingInputs then return st else addCandidate env tx scan st

/-! ## §3. The loop. -/

/-- The locals of the second loop; its `comparer` is the one for `fSortedByFee`. -/
structure Assembly (D : Type) extends Candidates D where
  mapTestPool : TxIndexMap
  nBlockSize : Nat
  nBlockSigOps : UInt32
  fSortedByFee : Bool
  /-- The transactions after the coinbase. -/
  vtx : List CTransaction
  nFees : Int64

variable (fProofOfStake : Bool)

variable (nCoinbaseTime : UInt32)

variable (st : Assembly D)

/-- The tests of a transaction before its inputs are read. -/
def isSkipped (top : TxPriority D) : Bool :=
  let nTxSize := top.tx.getSerializeSize
  decide (st.nBlockSize + nTxSize ≥ env.nBlockMaxSize) ||
    decide (st.nBlockSigOps + top.tx.getLegacySigOpCount ≥ MAX_BLOCK_SIGOPS) ||
    (decide (top.tx.nTime.toUInt64.toInt64 > env.nAdjustedTime) ||
      fProofOfStake && decide (top.tx.nTime > nCoinbaseTime)) ||
    (st.fSortedByFee && env.double.lt top.dFeePerKb (env.double.ofInt64 env.nMinTxFee) &&
      decide (st.nBlockSize + nTxSize ≥ env.nBlockMinSize))

/-- The change to an order by fee, once the priority size is reached or no transaction of
high priority is left. -/
def prioritizeByFee (top : TxPriority D) : Assembly D :=
  if !st.fSortedByFee && (decide (st.nBlockSize + top.tx.getSerializeSize ≥ env.nBlockPrioritySize) ||
      env.double.lt top.dPriority (env.double.ofInt64 (COIN * 144 / 250))) then
    { st with
      fSortedByFee := true
      vecPriority := env.heap.makeHeap (txPriorityCompare env true) st.vecPriority }
  else st

/-- What a transaction costs that is put into the block, and `mapTestPool` with it. -/
structure Spent where
  nTxFees : Int64
  nTxSigOps : UInt32
  mapTestPool : TxIndexMap

variable (db : Records)

/-- The inputs of a transaction on top of those in the block. -/
def spendInputs (pool : CTxMemPool)
    (pindexPrev : CBlockIndex) (st : Assembly D) (tx : CTransaction) : Except Failure Spent := do
  let mapInputs ← fetchInputs (withPool env.toChainEnv pool) db st.mapTestPool false true tx ∅
  let nValueIn ← required (getValueIn tx mapInputs)
    (.threw "CTransaction::GetOutputFor() : prevout.hash not found")
  let nValueOut ← required tx.getValueOut
    (.threw "CTransaction::GetValueOut() : value out of range")
  let nP2SHSigOps ← required (getP2SHSigOpCount tx mapInputs)
    (.threw "CTransaction::GetOutputFor() : prevout.hash not found")
  let nTxSigOps := tx.getLegacySigOpCount + nP2SHSigOps
  rejectIf (st.nBlockSigOps + nTxSigOps ≥ MAX_BLOCK_SIGOPS) (.rejected 0 "")
  let mapTestPool ← connectInputs env.toChainEnv tx mapInputs st.mapTestPool .inMempool pindexPrev
    false true MANDATORY_SCRIPT_VERIFY_FLAGS true
  return ⟨nValueIn - nValueOut, nTxSigOps,
    mapTestPool.insert (tx.getHash env.H) (.fresh .inMempool tx.vout.length)⟩

def Assembly.add (tx : CTransaction) (spent : Spent) : Assembly D :=
  { st with
    mapTestPool := spent.mapTestPool
    vtx := st.vtx ++ [tx]
    nBlockSize := st.nBlockSize + tx.getSerializeSize
    nBlockSigOps := st.nBlockSigOps + spent.nTxSigOps
    nFees := st.nFees + spent.nTxFees }

/-- `porphan->setDependsOn = setDependsOn` -/
def dependOn (porphan : UInt256) (setDependsOn : StdSet UInt256) (vOrphan : List (COrphan D)) :
    List (COrphan D) :=
  vOrphan.map fun o => if o.ptx.getHash env.H == porphan then { o with setDependsOn } else o

/-- `porphan->setDependsOn.erase(hash)`, and `porphan` into the queue when it waits for
nothing more. -/
def wakeOne (hash : UInt256) (st : Assembly D) (porphan : UInt256) : Except Abort (Assembly D) := do
  let o ← required (st.vOrphan.find? fun o => o.ptx.getHash env.H == porphan) .dangling
  if o.setDependsOn.isEmpty then return st
  else
    let setDependsOn := o.setDependsOn.erase hash
    let st := { st with vOrphan := dependOn env porphan setDependsOn st.vOrphan }
    if setDependsOn.isEmpty then
      return { st with
        vecPriority := env.heap.pushHeap (txPriorityCompare env st.fSortedByFee) st.vecPriority
          ⟨o.dPriority, o.dFeePerKb, o.ptx⟩ }
    else return st

def wake (hash : UInt256) (st : Assembly D) : Except Abort (Assembly D) :=
  ((st.mapDependers[hash]?).getD []).foldlM (wakeOne env hash) st

/-- One round of the second loop, for the transaction on top of the queue. -/
def processTop (pool : CTxMemPool)
    (pindexPrev : CBlockIndex) (st : Assembly D) (top : TxPriority D) : Except Abort (Assembly D) :=
  if isSkipped env fProofOfStake nCoinbaseTime st top then .ok st
  else
    let st := prioritizeByFee env st top
    match spendInputs env db pool pindexPrev st top.tx with
    | .error (.threw what) => .error (.threw what)
    | .error (.rejected _ _) => .ok st
    | .ok spent => wake env (top.tx.getHash env.H) (st.add top.tx spent)

/-- `while (!vecPriority.empty())`. -/
def collectLoop (fProofOfStake : Bool) (nCoinbaseTime : UInt32) (db : Records)
    (pool : CTxMemPool) (pindexPrev : CBlockIndex) :
    Nat → Assembly D → Except Abort (Assembly D)
  | 0, st => if st.vecPriority.isEmpty then .ok st else .error .endless
  | fuel + 1, st =>
    match st.vecPriority with
    | [] => .ok st
    | top :: _ => do
      let popped := { st with
        vecPriority := env.heap.popHeap (txPriorityCompare env st.fSortedByFee) st.vecPriority }
      let st ← processTop env fProofOfStake nCoinbaseTime db pool pindexPrev popped top
      collectLoop fProofOfStake nCoinbaseTime db pool pindexPrev fuel st

/-! ## §4. The block. -/

/-- `COINBASE_FLAGS`, which nothing sets. -/
def COINBASE_FLAGS : CScript := []

def newCoinbase (nHeight : Nat) (scriptPubKey : CScript) : CTransaction :=
  { CTransaction.null env.nAdjustedTime.toUInt64.toUInt32 with
    vin := [⟨.null, if fProofOfStake then scriptOfInt nHeight ++ COINBASE_FLAGS else [], [],
      0xffffffff⟩]
    vout := [⟨if fProofOfStake then 0 else -1, -10, if fProofOfStake then [] else scriptPubKey⟩] }

def startAssembly (st : Candidates D) : Assembly D :=
  let fSortedByFee := decide (env.nBlockPrioritySize = 0)
  { st with
    vecPriority := env.heap.makeHeap (txPriorityCompare env fSortedByFee) st.vecPriority
    mapTestPool := ∅
    nBlockSize := 1000
    nBlockSigOps := 100
    fSortedByFee
    vtx := []
    nFees := 0 }

variable (pindexPrev : CBlockIndex)

/-- The transactions that go into the block.  A transaction is taken off the queue once at
most, so that as many rounds as the pool has transactions are enough. -/
def collectTransactions (pool : CTxMemPool) : Except Abort (Assembly D) := do
  let st ← pool.mapTx.toList.foldlM (collectTx env db pool (pindexPrev.nHeight + 1)) ⟨[], ∅, []⟩
  collectLoop env fProofOfStake nCoinbaseTime db pool pindexPrev pool.mapTx.size
    (startAssembly env st)

def getMaxTransactionTime (vtx : List CTransaction) : Int64 :=
  vtx.foldl (fun maxTransactionTime tx => max maxTransactionTime tx.nTime.toUInt64.toInt64) 0

/-- The header, with the time of `UpdateTime` for a block with proof of work. -/
def fillHeader (vtx : List CTransaction) : CBlock :=
  let nTime := (max (pindexPrev.getBlockTime + 1) (getMaxTransactionTime vtx)).toUInt64.toUInt32
  { nullBlock with
    nVersion := if fProofOfStake then CURRENT_VERSION else 1
    hashPrevBlock := pindexPrev.getBlockHash
    nTime :=
      if fProofOfStake then nTime
      else (max nTime.toUInt64.toInt64 env.nAdjustedTime).toUInt64.toUInt32
    nBits := env.getNextTargetRequired pindexPrev fProofOfStake
    vtx }

/-- The coinbase of the block: with a proof of work it gets the reward and the fees. -/
def payCoinbase (nFees : Int64) (coinbase : CTransaction) : CTransaction :=
  if fProofOfStake then coinbase
  else { coinbase with vout := coinbase.vout.map fun txout =>
    { txout with nValue := getProofOfWorkReward pindexPrev nFees } }

/-- `CreateNewBlock`, with what it leaves in `*pFees`; there is no block without a key. -/
def createNewBlock (pool : CTxMemPool) : Except Abort (Option (CBlock × Int64)) :=
  match if fProofOfStake then some [] else env.reservedScript with
  | none => .ok none
  | some scriptPubKey => do
    let coinbase := newCoinbase env fProofOfStake (pindexPrev.nHeight + 1) scriptPubKey
    rejectIf (decide ((firstInput coinbase).scriptSig.length > 100))
      (.threw "txNew.vin[0].scriptSig.size() <= 100")
    let st ← collectTransactions env fProofOfStake coinbase.nTime db pindexPrev pool
    return some (fillHeader env fProofOfStake pindexPrev
      (payCoinbase fProofOfStake pindexPrev st.nFees coinbase :: st.vtx), st.nFees)

end Fantom.Miner
