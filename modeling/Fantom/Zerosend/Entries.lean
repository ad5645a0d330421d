/-
  Fantom.Zerosend.Entries — The pool that mixes transactions, and what a client adds to it.

  * `isCompatibleWithSession` — a user more, in this session or a new one,
  * `addEntry` — the transaction of a user.

  Relays to the network and log lines change nothing here and are left out.
-/
import Fantom.Pool.AcceptableInputs

namespace Fantom.Zerosend

open Core Chain Lib Script Pool

/-! ## §1. Entries. -/

/-- `CTxSSIn`: an input of a client. -/
structure CTxSSIn extends CTxIn where
  fHasSig : Bool
deriving DecidableEq, Repr

/-- `CTxSSIn(in)` -/
def CTxSSIn.ofTxIn (txin : CTxIn) : CTxSSIn := { txin with fHasSig := false }

/-- `CZeroSendEntry`, as `Add` leaves it. -/
structure CZeroSendEntry where
  sev : List CTxSSIn
  vout : List CTxOut
  amount : Int64
  collateral : CTransaction
  addedTime : Int64
deriving DecidableEq, Repr

def ZEROSEND_QUEUE_TIMEOUT : Int64 := 240

def ZEROSEND_SIGNING_TIMEOUT : Int64 := 120

/-- `CZeroSendEntry::Add` on a new entry. -/
def CZeroSendEntry.add (nNow : Int64) (vinIn : List CTxIn) (amountIn : Int64)
    (collateralIn : CTransaction) (voutIn : List CTxOut) : CZeroSendEntry :=
  ⟨vinIn.map CTxSSIn.ofTxIn, voutIn, amountIn, collateralIn, nNow⟩

def CZeroSendEntry.isExpired (nNow : Int64) (e : CZeroSendEntry) : Bool :=
  nNow - e.addedTime > ZEROSEND_QUEUE_TIMEOUT

/-! ## §2. The pool. -/

/-- The states of a pool, `POOL_STATUS_…`. -/
inductive PoolStatus where
  | UNKNOWN
  | IDLE
  | QUEUE
  | ACCEPTING_ENTRIES
  | FINALIZE_TRANSACTION
  | SIGNING
  | TRANSMISSION
  | ERROR
  | SUCCESS
deriving DecidableEq, Repr

/-- `CZerosendPool`. -/
structure CZerosendPool where
  myEntries : List CZeroSendEntry
  entries : List CZeroSendEntry
  finalTransaction : CTransaction
  lastTimeChanged : Int64
  state : PoolStatus
  unitTest : Bool
  sessionID : Int32
  sessionDenom : Int32
  sessionUsers : Int
  vecSessionCollateral : List CTransaction
deriving DecidableEq, Repr

/-- What a node is, and stays. -/
structure Config where
  /-- `Params().NetworkID() == CChainParams::TESTNET` -/
  fTestNet : Bool
  fBlankNode : Bool
  fEnableZerosend : Bool

/-- What the pool meets when it is asked something. -/
structure Surroundings (L : Type) extends AcceptEnv L where
  db : Records
  pindexBest : CBlockIndex
  mempool : CTxMemPool
  free : L
  /-- `GetTimeMillis()`. -/
  nTimeMillis : Int64
  getTransaction : UInt256 → Option CTransaction
  /-- `nLastSsq` of `snodeman.Find(activeBlanknode.vin)`. -/
  nLastSsq : Option Int
  /-- `snodeman.CountBlanknodesAboveProtocol(MIN_ZEROSEND_PROTO_VERSION)`. -/
  nBlanknodes : Int
  /-- `snodeman.nSsqCount`. -/
  nSsqCount : Int
  /-- `rand()`. -/
  nRand : Nat
  /-- `std::random_shuffle` of the inputs and of the outputs. -/
  shuffleVin : List CTxIn → List CTxIn
  shuffleVin_perm : ∀ vin, (shuffleVin vin).Perm vin
  shuffleVout : List CTxOut → List CTxOut
  shuffleVout_perm : ∀ vout, (shuffleVout vout).Perm vout
  /-- What `AcceptToMemoryPool(false)` answers for the final transaction. -/
  finalAccepted : CTransaction → Bool
  /-- Whether the blanknode key signs the broadcast. -/
  fSigned : Bool

def POOL_MAX_TRANSACTIONS : Int := 3

def POOL_MAX_TRANSACTIONS_TESTNET : Int := 2

def getMaxPoolTransactions (cfg : Config) : Int :=
  if cfg.fTestNet then POOL_MAX_TRANSACTIONS_TESTNET else POOL_MAX_TRANSACTIONS

variable {L : Type} (cfg : Config) (env : Surroundings L)

namespace CZerosendPool

/-- `CZerosendPool::SetNull` -/
def setNull (pool : CZerosendPool) (clearEverything : Bool) : CZerosendPool where
  myEntries := if clearEverything then [] else pool.myEntries
  entries := []
  finalTransaction := { pool.finalTransaction with vin := [], vout := [] }
  lastTimeChanged := env.nTimeMillis
  state := .IDLE
  unitTest := pool.unitTest
  sessionID := if clearEverything then 0 else pool.sessionID
  sessionDenom := 0
  sessionUsers := 0
  vecSessionCollateral := []

/-- `UpdateState`: a blanknode is never set to `ERROR` or `SUCCESS`. -/
def updateState (newState : PoolStatus) (pool : CZerosendPool) : CZerosendPool :=
  if cfg.fBlankNode && (newState == .ERROR || newState == .SUCCESS) then pool
  else
    { pool with
      lastTimeChanged := if pool.state ≠ newState then env.nTimeMillis else pool.lastTimeChanged
      state := newState }

def isSessionReady (pool : CZerosendPool) : Bool := pool.sessionUsers ≥ getMaxPoolTransactions cfg

end CZerosendPool

/-! ## §3. Denominations. -/

def zeroSendDenominations : List Int64 :=
  [100000 * COIN + 100000000, 10000 * COIN + 10000000, 1000 * COIN + 1000000,
    100 * COIN + 100000, 10 * COIN + 10000, COIN + 1000, 10000000 + 100]

/-- `GetDenominations`: a bit for each denomination in use, and zero if an output is none. -/
def getDenominations (vout : List CTxOut) : Nat :=
  if vout.all fun out => zeroSendDenominations.contains out.nValue then
    (zeroSendDenominations.zipIdx.map fun d =>
      if vout.any fun out => out.nValue == d.1 then 2 ^ d.2 else 0).sum
  else 0

-- two outputs of the smallest denomination and one of the second smallest
example : getDenominations [⟨10000100, 0, []⟩, ⟨10000100, 0, []⟩, ⟨100001000, 0, []⟩] = 96 := by
  decide

variable (pool : CZerosendPool)

def CZerosendPool.isCompatibleWithEntries (vout : List CTxOut) : Bool :=
  getDenominations vout != 0 &&
    pool.entries.all fun v => getDenominations vout == getDenominations v.vout

/-! ## §4. Users. -/

/-- `0.5*COIN` -/
def ZEROSEND_COLLATERAL : Int64 := 50000000

def missingTx (vin : List CTxIn) : Bool :=
  vin.any fun txin => (env.getTransaction txin.prevout.hash).isNone

/-- `nValueIn`: an output that is not found counts as nothing. -/
def foundValue (vin : List CTxIn) : Int64 :=
  (vin.map fun txin => (((env.getTransaction txin.prevout.hash).bind fun tx2 =>
    tx2.vout[txin.prevout.n.toNat]?).map CTxOut.nValue).getD 0).sum

/-- `nValueOut`. -/
def valueOf (vout : List CTxOut) : Int64 := (vout.map CTxOut.nValue).sum

/-- `AcceptableInputs(mempool, tx, false, false)` -/
def inputsAcceptable (tx : CTransaction) : Bool :=
  accepts (acceptableInputs env.toAcceptEnv env.db env.pindexBest env.mempool env.free tx
    false false).1

def isCollateralValid (txCollateral : CTransaction) : Bool :=
  !txCollateral.vout.isEmpty && txCollateral.nLockTime == 0 &&
    (txCollateral.vout.all fun o => CScript.isNormalPaymentScript o.scriptPubKey) &&
    !missingTx env txCollateral.vin &&
    decide (foundValue env txCollateral.vin - valueOf txCollateral.vout ≥ ZEROSEND_COLLATERAL) &&
    inputsAcceptable env txCollateral

namespace CZerosendPool

/-- The end of `IsCompatibleWithSession` where there is no session yet. -/
def openSession (nDenom : Int32) (txCollateral : CTransaction) : CZerosendPool :=
  let pool := updateState cfg env .QUEUE
    { pool with
      sessionID := Int32.ofNat (1 + env.nRand % 999999)
      sessionDenom := nDenom
      sessionUsers := 1
      lastTimeChanged := env.nTimeMillis
      entries := [] }
  { pool with vecSessionCollateral := pool.vecSessionCollateral ++ [txCollateral] }

def joinSession (txCollateral : CTransaction) : CZerosendPool :=
  { pool with
    sessionUsers := pool.sessionUsers + 1
    lastTimeChanged := env.nTimeMillis
    vecSessionCollateral := pool.vecSessionCollateral ++ [txCollateral] }

/-- Whether the state of the session lets users in. -/
def takesUsers : Bool :=
  pool.state == .ACCEPTING_ENTRIES || pool.state == .QUEUE

/-- `IsCompatibleWithSession`: the pool, its verdict and `strReason`. -/
def isCompatibleWithSession (nDenom : Int32) (txCollateral : CTransaction) :
    CZerosendPool × Bool × String :=
  if nDenom = 0 then (pool, false, "")
  else if !pool.unitTest && !isCollateralValid env txCollateral then
    (pool, false, "Collateral not valid.")
  else
    let pool := { pool with sessionUsers := max pool.sessionUsers 0 }
    if pool.sessionUsers = 0 then (pool.openSession cfg env nDenom txCollateral, true, "")
    else if pool.sessionUsers ≥ getMaxPoolTransactions cfg then
      (pool, false, "Blanknode queue is full.")
    else if !pool.takesUsers then (pool, false, "Incompatible mode.")
    else if nDenom ≠ pool.sessionDenom then
      (pool, false, "No matching denominations found for mixing.")
    else (pool.joinSession env txCollateral, true, "")

/-! ## §5. Their transactions. -/

/-- The tests of `AddEntry`, with the texts of their errors. -/
def checkEntry (newInput : List CTxIn) (nAmount : Int64) (txCollateral : CTransaction) :
    Except String Unit := do
  rejectIf (newInput.any fun txin => txin.prevout.isNull || nAmount < 0) "Input is not valid."
  rejectIf (!isCollateralValid env txCollateral) "Collateral is not valid."
  rejectIf (pool.entries.length ≥ getMaxPoolTransactions cfg) "Entries are full."
  rejectIf (newInput.any fun txin => pool.entries.any fun v => v.sev.any fun s => s.toCTxIn.eqv txin)
    "Already have that input."

/-- `AddEntry`: the pool, its verdict and `error`.  Each test that fails takes a user off. -/
def addEntry (newInput : List CTxIn) (nAmount : Int64)
    (txCollateral : CTransaction) (newOutput : List CTxOut) : CZerosendPool × Bool × String :=
  if !cfg.fBlankNode then (pool, false, "")
  else
    match pool.checkEntry cfg env newInput nAmount txCollateral with
    | .error e => ({ pool with sessionUsers := pool.sessionUsers - 1 }, false, e)
    | .ok _ =>
      let v := CZeroSendEntry.add env.nNow newInput nAmount txCollateral newOutput
      ({ pool with entries := pool.entries ++ [v] }, true, "")

end CZerosendPool

end Fantom.Zerosend
