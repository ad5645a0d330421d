/-
  Fantom.InstantX.Model — `instantx.cpp`: locking the inputs of a transaction by a quorum of
  blanknode votes.

  * `cleanTransactionLocksList` — expiry,
  * `ixStep` — one event in one environment; a run is a list of both.
-/
import Fantom.Blanknode.Blanknodeman
import Fantom.Core.Transaction
import Fantom.Spork.Spork

namespace Fantom.InstantX

open Core Lib Spork Blanknode

def INSTANTX_SIGNATURES_REQUIRED : Int := 15
def INSTANTX_SIGNATURES_TOTAL : Nat := 20

/-! ## §1. Votes and locks. -/

structure CConsensusVote where
  vinBlanknode : CTxIn
  txHash : UInt256
  nBlockHeight : Int32
  vchBlankNodeSignature : List UInt8
deriving DecidableEq, Repr

/-- `CConsensusVote::GetHash`: neither the signature nor the height is in it. -/
def CConsensusVote.getHash (v : CConsensusVote) : UInt256 :=
  v.vinBlanknode.prevout.hash + BitVec.ofNat 256 v.vinBlanknode.prevout.n.toNat + v.txHash

/-- `uint256::ToString`: 64 hexadecimal digits, most significant first. -/
def hexString (h : UInt256) : List Char :=
  (List.range 64).reverse.map fun i => Nat.digitChar (h.toNat / 16 ^ i % 16)

def CConsensusVote.strMessage (v : CConsensusVote) : List Char :=
  hexString v.txHash ++ decimal v.nBlockHeight.toInt

structure CTransactionLock where
  nBlockHeight : Int32
  txHash : UInt256
  vecConsensusVotes : List CConsensusVote
  nExpiration : Int32
  nTimeout : Int32
deriving DecidableEq, Repr

def CTransactionLock.addSignature (lock : CTransactionLock) (cv : CConsensusVote) :
    CTransactionLock :=
  { lock with vecConsensusVotes := lock.vecConsensusVotes ++ [cv] }

/-- `CTransactionLock::CountSignatures`: votes for the height of the
transaction, and `-1` while that height is unknown. -/
def CTransactionLock.countSignatures (lock : CTransactionLock) : Int :=
  if lock.nBlockHeight = 0 then -1
  else lock.vecConsensusVotes.countP fun v => v.nBlockHeight == lock.nBlockHeight

/-! ## §2. State and environment. -/

/-- The maps of `instantx.cpp`. -/
structure IXState where
  mapTxLockReq : StdMap UInt256 CTransaction
  mapTxLockReqRejected : StdMap UInt256 CTransaction
  mapTxLockVote : StdMap UInt256 CConsensusVote
  mapTxLocks : StdMap UInt256 CTransactionLock
  mapLockedInputs : StdMap COutPoint UInt256
  mapUnknownVotes : StdMap UInt256 Int64
  nCompleteTXLocks : Int32

def IXState.empty : IXState := ⟨∅, ∅, ∅, ∅, ∅, ∅, 0⟩

/-- Everything else the handlers read when an event arrives. -/
structure IXEnv (C : Crypto) where
  fLiteMode : Bool
  mapSporksActive : StdMap Int32 CSporkMessage
  now : Int64
  adjustedTime : UInt32
  /-- `IsInitialBlockDownload()`. -/
  fInitialDownload : Bool
  /-- `pindexBest == NULL`. -/
  noBestBlock : Bool
  /-- `pindexBest->nHeight`. -/
  nBestHeight : Int32
  getTransaction : UInt256 → Option CTransaction
  getInputAge : CTxIn → Int32
  /-- What `AcceptToMemoryPool` answers for a lock request. -/
  acceptToMemoryPool : CTransaction → Bool
  snodeman : CBlanknodeMan
  fBlankNode : Bool
  activeBlanknodeVin : CTxIn
  /-- The key `SetKey` makes of `strBlankNodePrivKey`, when it makes one. -/
  blankNodePrivKey : Option C.CKey
  /-- `pwalletMain && pwalletMain->UpdatedTransaction(hash)`. -/
  walletUpdatedTransaction : UInt256 → Bool

variable {C : Crypto} (env : IXEnv C)

/-- The rank of a blanknode for the block at a height. -/
def IXEnv.rank (vin : CTxIn) (nBlockHeight : Int32) : Int :=
  env.snodeman.getBlanknodeRank C.toHashes vin nBlockHeight MIN_INSTANTX_PROTO_VERSION true

def CConsensusVote.signatureValid (v : CConsensusVote) : Bool :=
  match env.snodeman.find v.vinBlanknode with
  | none => false
  | some sn => verifyMessage C sn.pubkey2 v.vchBlankNodeSignature v.strMessage

/-- `CConsensusVote::Sign`: the vote with its signature, or failure. -/
def CConsensusVote.sign (v : CConsensusVote) : Option CConsensusVote := do
  let key2 ← env.blankNodePrivKey
  let sig ← signMessage C v.strMessage key2
  if verifyMessage C (C.getPubKey key2) sig v.strMessage then
    some { v with vchBlankNodeSignature := sig }
  else none

/-! ## §3. Conflicts, new locks, own votes. -/

/-- `mapTxLocks[h].nExpiration = nExpiration`, where there is such a lock. -/
def setExpiration (locks : StdMap UInt256 CTransactionLock) (h : UInt256) (nExpiration : Int32) :
    StdMap UInt256 CTransactionLock :=
  match locks[h]? with
  | none => locks
  | some lock => locks.insert h { lock with nExpiration := nExpiration }

variable (st : IXState)

variable (tx : CTransaction)

/-- `CheckForConflictingLocks`: the first input locked to another transaction
expires both locks. -/
def checkForConflictingLocks : IXState × Bool :=
  let h := tx.getHash C.toHashes
  match tx.vin.findSome? (fun txin => (st.mapLockedInputs[txin.prevout]?).filter (· ≠ h)) with
  | none => (st, false)
  | some other =>
    ({ st with mapTxLocks :=
        setExpiration (setExpiration st.mapTxLocks h env.now.toInt32) other env.now.toInt32 },
      true)

/-- A lock made at the current time; locks expire after 60 minutes. -/
def IXEnv.newLock (txHash : UInt256) (nBlockHeight : Int32) : CTransactionLock where
  nBlockHeight := nBlockHeight
  txHash := txHash
  vecConsensusVotes := []
  nExpiration := (env.now + 60 * 60).toInt32
  nTimeout := (env.now + 60 * 5).toInt32

/-- `CreateNewLock`.  The loop runs over the inputs in reverse, so the age it
ends with is that of the first input. -/
def createNewLock : IXState × Int32 :=
  let ages := tx.vin.map env.getInputAge
  if ages.any (· < 6) then (st, 0)
  else
    let h := tx.getHash C.toHashes
    let nBlockHeight := (env.nBestHeight - ages.headD 0) + 4
    let lock := match st.mapTxLocks[h]? with
      | none => env.newLock h nBlockHeight
      | some lock => { lock with nBlockHeight := nBlockHeight }
    ({ st with mapTxLocks := st.mapTxLocks.insert h lock }, nBlockHeight)

/-- `DoConsensusVote`: this node's own vote, recorded and relayed but not added
to the lock. -/
def doConsensusVote (nBlockHeight : Int32) : IXState :=
  if !env.fBlankNode then st
  else
    let n := env.rank env.activeBlanknodeVin nBlockHeight
    if n = -1 ∨ n > INSTANTX_SIGNATURES_TOTAL then st
    else
      match CConsensusVote.sign env
        ⟨env.activeBlanknodeVin, tx.getHash C.toHashes, nBlockHeight, []⟩ with
      | none => st
      | some ctx =>
        if !ctx.signatureValid env then st
        else { st with mapTxLockVote := st.mapTxLockVote.insert ctx.getHash ctx }

/-- `if (!mapLockedInputs.count(in.prevout)) mapLockedInputs.insert(...)` over
the inputs of a transaction. -/
def lockInputs (locked : StdMap COutPoint UInt256) (vin : List CTxIn) (h : UInt256) :
    StdMap COutPoint UInt256 :=
  vin.foldl (fun locked txin => StdMap.insertNew locked txin.prevout h) locked

/-! ## §4. Lock requests. -/

/-- `IsIXTXValid` -/
def isIXTXValid : Bool :=
  if tx.vout.length < 1 then false
  else if tx.nLockTime ≠ 0 then false
  else
    let nValueOut := (tx.vout.map CTxOut.nValue).sum
    let prev := tx.vin.map fun txin => (env.getTransaction txin.prevout.hash).map fun tx2 =>
      (tx2.vout[txin.prevout.n.toNat]?.map CTxOut.nValue).getD 0
    let nValueIn := (prev.map fun v => v.getD 0).sum
    let maxValue := (getSporkValue env.mapSporksActive SPORK_5_MAX_VALUE).toInt64 * COIN
    if nValueOut > maxValue then false
    -- an input this node does not know about counts as valid
    else if prev.any Option.isNone then true
    else !(nValueIn - nValueOut < COIN / 100)

def IXEnv.enabled : Bool :=
  !env.fLiteMode && isSporkActive env.mapSporksActive env.now SPORK_2_INSTANTX &&
    !env.fInitialDownload

/-- A refused request is remembered, and its free inputs are locked at once. -/
def lockRejected (h : UInt256) : IXState :=
  { st with
    mapTxLockReqRejected := StdMap.insertNew st.mapTxLockReqRejected h tx
    mapLockedInputs := lockInputs st.mapLockedInputs tx.vin h }

/-- The branch for a request `AcceptToMemoryPool` refuses: a complete lock makes
it an accepted request all the same. -/
def rejectTxlreq : IXState :=
  match st.mapTxLocks[tx.getHash C.toHashes]? with
  | none => lockRejected st tx (tx.getHash C.toHashes)
  | some lock =>
    if lock.countSignatures ≥ INSTANTX_SIGNATURES_REQUIRED then
      match checkForConflictingLocks env (lockRejected st tx (tx.getHash C.toHashes)) tx with
      | (st, true) => st
      | (st, false) => { st with
          mapTxLockReq := StdMap.insertNew st.mapTxLockReq (tx.getHash C.toHashes) tx }
    else lockRejected st tx (tx.getHash C.toHashes)

/-- The branch for a request `AcceptToMemoryPool` accepts. -/
def acceptTxlreq (nBlockHeight : Int32) : IXState :=
  let st := doConsensusVote env st tx nBlockHeight
  { st with mapTxLockReq := StdMap.insertNew st.mapTxLockReq (tx.getHash C.toHashes) tx }

/-- The tests that drop a request before it touches anything. -/
def txlreqDropped : Bool :=
  let h := tx.getHash C.toHashes
  !env.enabled || st.mapTxLockReq.contains h || st.mapTxLockReqRejected.contains h ||
    !isIXTXValid env tx || tx.vout.any fun o => !CScript.isNormalPaymentScript o.scriptPubKey

/-- `ProcessMessageInstantX` on `txlreq`. -/
def processTxlreq : IXState :=
  if txlreqDropped env st tx then st
  else
    let (st, nBlockHeight) := createNewLock env st tx
    if env.acceptToMemoryPool tx then acceptTxlreq env st tx nBlockHeight
    else rejectTxlreq env st tx

/-! ## §5. Votes. -/

variable (v : CConsensusVote)

/-- The tests of `ProcessConsensusVote` before it counts a vote. -/
def voteValid : Bool :=
  let n := env.rank v.vinBlanknode v.nBlockHeight
  n != -1 && !(n > INSTANTX_SIGNATURES_TOTAL) && v.signatureValid env

/-- The complete lock of `h` locks the inputs of its request `tx`, unless one of
them is locked to another transaction. -/
def lockRequest (h : UInt256) (tx : CTransaction) : IXState :=
  match checkForConflictingLocks env st tx with
  | (st, true) => st
  | (st, false) =>
    let nComplete :=
      if env.walletUpdatedTransaction h then st.nCompleteTXLocks + 1 else st.nCompleteTXLocks
    { st with
      nCompleteTXLocks := nComplete
      mapLockedInputs := lockInputs st.mapLockedInputs tx.vin h }

/-- `mapTxLockReq[h]`, which makes an empty transaction where there is none. -/
def requestOf (h : UInt256) : CTransaction :=
  (st.mapTxLockReq[h]?).getD (CTransaction.null env.adjustedTime)

/-- The entry `operator[]` leaves in `mapTxLockReq`. -/
def withRequest (h : UInt256) : IXState :=
  { st with mapTxLockReq := StdMap.insertNew st.mapTxLockReq h (requestOf env st h) }

/-- What `ProcessConsensusVote` does once the lock of `h` is complete. -/
def completeLock (h : UInt256) : IXState :=
  lockRequest env (withRequest env st h) h (requestOf env st h)

/-- The lock a vote is added to: the one there is, or a new one whose height is
not known yet. -/
def lockForVote : CTransactionLock :=
  (st.mapTxLocks[v.txHash]?).getD (env.newLock v.txHash 0)

def addVote : IXState :=
  let lock := (lockForVote env st v).addSignature v
  { st with mapTxLocks := st.mapTxLocks.insert v.txHash lock }

def processConsensusVote : IXState × Bool :=
  if !voteValid env v then (st, false)
  else if ((lockForVote env st v).addSignature v).countSignatures ≥
      INSTANTX_SIGNATURES_REQUIRED then
    (completeLock env (addVote env st v) v.txHash, true)
  else (addVote env st v, true)

def getAverageVoteTime (unknown : StdMap UInt256 Int64) : Int64 :=
  unknown.values.sum / Int64.ofNat unknown.size

/-- The spam protection for votes without a request: the new table, and whether
the vote is still relayed. -/
def unknownVote (unknown : StdMap UInt256 Int64) (k : UInt256) : StdMap UInt256 Int64 × Bool :=
  let unknown := StdMap.insertNew unknown k (env.now + 60 * 10)
  let t := (unknown[k]?).getD 0
  if t > env.now && t - getAverageVoteTime unknown > 60 * 10 then (unknown, false)
  else (unknown.insert k (env.now + 60 * 10), true)

/-- What follows a counted vote: spam protection unless its request is known. -/
def relayVote : IXState × Bool :=
  if st.mapTxLockReq.contains v.txHash || st.mapTxLockReqRejected.contains v.txHash then
    (st, true)
  else
    let (unknown, relay) := unknownVote env st.mapUnknownVotes v.vinBlanknode.prevout.hash
    ({ st with mapUnknownVotes := unknown }, relay)

/-- `mapTxLockVote.insert(make_pair(ctx.GetHash(), ctx))`, before the vote is
looked at. -/
def recordVote : IXState :=
  { st with mapTxLockVote := st.mapTxLockVote.insert v.getHash v }

/-- The handler goes past its first tests: it is enabled, and no vote with this
hash has been recorded. -/
def voteFresh : Bool :=
  env.enabled && !st.mapTxLockVote.contains v.getHash

/-- `ProcessMessageInstantX` on `txlvote`: the new state, and whether the vote is
relayed. -/
def processTxlvote : IXState × Bool :=
  if !voteFresh env st v then (st, false)
  else
    match processConsensusVote env (recordVote st v) v with
    | (st, false) => (st, false)
    | (st, true) => relayVote env st v

/-! ## §6. Expiry. -/

variable (lock : CTransactionLock)

/-- `GetTime() > nExpiration`. -/
def IXEnv.expired : Bool := env.now > lock.nExpiration.toInt64

/-- A scanning error of type `SCANNING_ERROR_IX_NO_RESPONSE`. -/
structure ScanningError where
  vinBlanknodeB : CTxIn
  nBlockHeight : Int32
deriving DecidableEq, Repr

/-- The errors charged for a lock: the ranked blanknodes without a vote. -/
def scanningErrors : List ScanningError :=
  (List.range (INSTANTX_SIGNATURES_TOTAL + 1)).filterMap fun nRank =>
    match env.snodeman.getBlanknodeByRank C.toHashes nRank lock.nBlockHeight
      MIN_INSTANTX_PROTO_VERSION true with
    | none => none
    | some sn =>
      if lock.vecConsensusVotes.any (fun v => sn.vin.eqv v.vinBlanknode) then none
      else some ⟨sn.vin, lock.nBlockHeight⟩

/-- The request of an expired lock leaves the maps, with the votes of the lock. -/
def forgetRequest (tx : CTransaction) : IXState :=
  { st with
    mapLockedInputs := StdMap.eraseAll st.mapLockedInputs (tx.vin.map CTxIn.prevout)
    mapTxLockReq := st.mapTxLockReq.erase lock.txHash
    mapTxLockReqRejected := st.mapTxLockReqRejected.erase lock.txHash
    mapTxLockVote :=
      StdMap.eraseAll st.mapTxLockVote (lock.vecConsensusVotes.map CConsensusVote.getHash) }

def removeLock (entry : UInt256 × CTransactionLock) : IXState :=
  match st.mapTxLockReq[entry.2.txHash]? with
  | none => { st with mapTxLocks := st.mapTxLocks.erase entry.1 }
  | some tx => { forgetRequest st entry.2 tx with mapTxLocks := st.mapTxLocks.erase entry.1 }

def IXEnv.expiredLocks : List (UInt256 × CTransactionLock) :=
  st.mapTxLocks.toList.filter fun entry => env.expired entry.2

/-- `CleanTransactionLocksList`: the new state, and the scanning errors applied
to blanknodes. -/
def cleanTransactionLocksList : IXState × List ScanningError :=
  if env.noBestBlock then (st, [])
  else
    ((env.expiredLocks st).foldl removeLock st,
      (env.expiredLocks st).flatMap fun entry => scanningErrors env entry.2)

/-! ## §7. Runs. -/

inductive IXEvent where
  | txlreq (tx : CTransaction)
  | txlvote (v : CConsensusVote)
  | clean

def ixStep (e : IXEnv C × IXEvent) : IXState :=
  match e.2 with
  | .txlreq tx => processTxlreq e.1 st tx
  | .txlvote v => (processTxlvote e.1 st v).1
  | .clean => (cleanTransactionLocksList e.1 st).1

/-! ## §8. A sample network.

Twenty blanknodes with the keys `1 .. 20` of the sample scheme, and transactions
that spend one output and pay one. -/

def sampleVin (key : Nat) : CTxIn := ⟨⟨BitVec.ofNat 256 key, 0⟩, [], [], 0xffffffff⟩

def sampleBlanknodes : CBlanknodeMan where
  vBlanknodes := (List.range 20).map fun i =>
    ⟨sampleVin (i + 1), leBytes 32 (i + 1), MIN_INSTANTX_PROTO_VERSION, true⟩
  getBlockHash _ := some 7
  sortScores := sortDescending

def sampleIXEnv (now : Int64) (accept : Bool) : IXEnv sampleCrypto where
  fLiteMode := false
  mapSporksActive := ∅
  now := now
  adjustedTime := 1500000000
  fInitialDownload := false
  noBestBlock := false
  nBestHeight := 100
  getTransaction _ := none
  getInputAge _ := 10
  acceptToMemoryPool _ := accept
  snodeman := sampleBlanknodes
  fBlankNode := false
  activeBlanknodeVin := sampleVin 0
  blankNodePrivKey := none
  walletUpdatedTransaction _ := false

def sampleTx (prevout : COutPoint) (n : Int64) : CTransaction where
  nVersion := 1
  nTime := 1500000000
  vin := [⟨prevout, [], [], 0xffffffff⟩]
  vout := [⟨n, -10, [OP_DUP, OP_HASH160, 20] ++ List.replicate 20 1 ++
    [OP_EQUALVERIFY, OP_CHECKSIG]⟩]
  nLockTime := 0

def sampleVote (key : Nat) (txHash : UInt256) (nBlockHeight : Int32) : CConsensusVote :=
  let v : CConsensusVote := ⟨sampleVin key, txHash, nBlockHeight, []⟩
  { v with vchBlankNodeSignature :=
      (signMessage sampleCrypto v.strMessage (BitVec.ofNat 256 key)).getD [] }

end Fantom.InstantX
