/-
  Fantom.Blocks.AcceptBlock — How a block whose parent is known gets into the block index.

  * `addToBlockIndex` — the entry, its record, and `SetBestChain`,
  * `acceptBlock`, `lateFailure` — both together, and a block that is refused when it is in the
    index already.

  The checks against targets, proofs of stake and the block files are functions of the surroundings.
-/
import Fantom.Pool.Accept

namespace Fantom.Blocks

open Core Chain Lib Script Pool Option

/-! ## §1. Surroundings and state. -/

/-- What the acceptance of a block reads besides the chain. -/
structure BlockEnv extends ChainEnv where
  fReindex : Bool
  fImporting : Bool
  /-- `Params().LastPOWBlock()`. -/
  nLastPOWBlock : Nat
  /-- The hardened checkpoints. -/
  mapCheckpoints : StdMap Nat UInt256
  /-- `GetNextTargetRequired`. -/
  getNextTargetRequired : CBlockIndex → Bool → UInt32
  /-- `CheckProofOfStake`, without the hash that it finds. -/
  checkProofOfStake : CBlockIndex → CTransaction → UInt32 → Bool
  /-- Whether `ComputeNextStakeModifier` succeeds. -/
  computeNextStakeModifier : Option CBlockIndex → Bool
  checkDiskSpace : Nat → Bool
  /-- Where `WriteToDisk` puts a block, if it can. -/
  writeToDisk : CBlock → Option (BlockFile × UInt32)
  /-- `CKey::ReserealizeSignature`. -/
  reserealizeSignature : List UInt8 → Option (List UInt8)

/-- The kernel of a proof of stake and its time, a `pair`. -/
structure Stake where
  prevoutStake : COutPoint
  nStakeTime : UInt32
deriving DecidableEq

instance : Ord Stake := ⟨compareLex (compareOn Stake.prevoutStake) (compareOn Stake.nStakeTime)⟩

instance : Std.TransOrd Stake :=
  inferInstanceAs
    (Std.TransCmp (compareLex (compareOn Stake.prevoutStake) (compareOn Stake.nStakeTime)))

instance : Std.LawfulEqOrd Stake where
  eq_of_compare {a b} h := by
    obtain ⟨hprevout, htime⟩ := compareLex_eq_eq.mp h
    cases a
    cases b
    simp_all [compareOn]

/-- `make_pair(COutPoint(), (unsigned int)0)` -/
def Stake.none : Stake := ⟨.null, 0⟩

/-- `vtx[1]`, of a proof-of-stake block. -/
def coinstakeOf (b : CBlock) : CTransaction := b.vtx.getD 1 (.null 0)

/-- `vin[0]`. -/
def firstInput (tx : CTransaction) : CTxIn := tx.vin.headD ⟨.null, [], [], 0xffffffff⟩

def getProofOfStake (b : CBlock) : Stake :=
  if b.isProofOfStake then ⟨(firstInput (coinstakeOf b)).prevout, (coinstakeOf b).nTime⟩
  else .none

/-! ## §2. The checks of AcceptBlock. -/

/-- The node with its block index. -/
structure BlockIndexes where
  node : Node
  mapBlockIndex : StdMap UInt256 CBlockIndex
  setStakeSeen : StdSet Stake

def CURRENT_VERSION : Int32 := 2

def STAKE_TIMESTAMP_MASK : Int64 := 15

def checkCoinStakeTimestamp (nTimeBlock nTimeTx : Int64) : Bool :=
  nTimeBlock == nTimeTx && nTimeTx &&& STAKE_TIMESTAMP_MASK == 0

def checkHardened (mapCheckpoints : StdMap Nat UInt256) (nHeight : Nat) (hash : UInt256) : Bool :=
  match mapCheckpoints[nHeight]? with
  | none => true
  | some checkpoint => hash == checkpoint

def nCheckpointSpan : Nat := 500

/-- The loop of `Checkpoints::AutoSelectSyncCheckpoint`. -/
def syncCheckpointFrom (nBestHeight : Nat) : CBlockIndex → CBlockIndex
  | .root d => .root d
  | .child p d =>
    if p.nHeight + 1 + nCheckpointSpan > nBestHeight then syncCheckpointFrom nBestHeight p
    else .child p d

def autoSelectSyncCheckpoint (pindexBest : CBlockIndex) : CBlockIndex :=
  syncCheckpointFrom pindexBest.nHeight pindexBest

def checkSync (pindexBest : CBlockIndex) (nHeight : Nat) : Bool :=
  !decide (nHeight ≤ (autoSelectSyncCheckpoint pindexBest).nHeight)

/-- `CScript() << n`. -/
def scriptOfInt (n : Int) : CScript :=
  if n = -1 ∨ (1 ≤ n ∧ n ≤ 16) then [UInt8.ofNat (n + (OP_1.toNat - 1)).toNat]
  else CScript.push (CBigNum.getvch n)

variable (env : BlockEnv)

/-- What `IsFinalTx` compares lock times with. -/
def finalityTime (b : CBlock) : Int64 :=
  if getBlockTime b = 0 then env.nAdjustedTime else getBlockTime b

/-- The checks of `AcceptBlock` against the parent, up to the files.  `hash` is the one
of the block. -/
def checkContext (pindexBest pindexPrev : CBlockIndex) (hash : UInt256) (b : CBlock) :
    Except Failure Unit := do
  let nHeight := pindexPrev.nHeight + 1
  rejectIf (b.isProofOfWork && decide (nHeight > env.nLastPOWBlock))
    (.dos 100 ("AcceptBlock() : reject proof-of-work at height " ++ toString nHeight))
  rejectIf (getBlockTime b > futureDrift (coinbaseOf b).nTime.toUInt64.toInt64)
    (.dos 50 "AcceptBlock() : coinbase timestamp is too early")
  rejectIf (b.isProofOfStake &&
      !checkCoinStakeTimestamp (getBlockTime b) (coinstakeOf b).nTime.toUInt64.toInt64)
    (.dos 50 ("AcceptBlock() : coinstake timestamp violation nTimeBlock=" ++
      toString (getBlockTime b) ++ " nTimeTx=" ++ toString (coinstakeOf b).nTime))
  rejectIf (b.nBits != env.getNextTargetRequired pindexPrev b.isProofOfStake)
    (.dos 100 ("AcceptBlock() : incorrect " ++
      if b.isProofOfWork then "proof-of-work" else "proof-of-stake"))
  rejectIf (getBlockTime b ≤ pindexPrev.getBlockTime ||
      futureDrift (getBlockTime b) < pindexPrev.getBlockTime)
    (.error "AcceptBlock() : block's timestamp is too early")
  rejectIf (!b.vtx.all fun tx => isFinalTx (finalityTime env b) tx nHeight)
    (.dos 10 "AcceptBlock() : contains a non-final transaction")
  rejectIf (!checkHardened env.mapCheckpoints nHeight hash)
    (.dos 100 ("AcceptBlock() : rejected by hardened checkpoint lock-in at " ++ toString nHeight))
  rejectIf (b.isProofOfStake && !env.checkProofOfStake pindexPrev (coinstakeOf b) b.nBits)
    (.error ("AcceptBlock() : check proof-of-stake failed for block " ++ hash.toHex))
  rejectIf (!checkSync pindexBest nHeight)
    (.error "AcceptBlock() : rejected by synchronized checkpoint")
  rejectIf (!(scriptOfInt nHeight).isPrefixOf (firstInput (coinbaseOf b)).scriptSig)
    (.dos 100 "AcceptBlock() : block height mismatch in coinbase")

/-! ## §3. AddToBlockIndex. -/

/-- `new CBlockIndex(nFile, nBlockPos, *this)` with its `pprev`. -/
def newBlockIndex (pprev : Option CBlockIndex) (pos : BlockFile × UInt32) (hash : UInt256)
    (b : CBlock) : CBlockIndex :=
  let data : BlockIndexData :=
    ⟨hash, pos.1, pos.2, b.nVersion, b.hashMerkleRoot, b.nTime, b.nBits, b.nNonce⟩
  match pprev with
  | none => .root data
  | some pprev => .child pprev data

variable (c : BlockIndexes)

variable (pindexNew : CBlockIndex)

/-- The insertion into `mapBlockIndex`. -/
def insertIndex (b : CBlock) : BlockIndexes :=
  { c with
    mapBlockIndex := c.mapBlockIndex.insert pindexNew.getBlockHash pindexNew
    setStakeSeen :=
      if b.isProofOfStake then c.setStakeSeen.insert (getProofOfStake b) else c.setStakeSeen }

/-- What `AddToBlockIndex` does after the insertion: the record of the entry, in a batch of
its own, and `SetBestChain`. -/
def finishIndex (b : CBlock) : Except Failure Unit × BlockIndexes :=
  let txdb := c.node.openTxDB.txnBegin.txdb.write
    fun db => db.writeBlockIndex (diskBlockIndex c.node.mem pindexNew)
  let fOk := env.txnCommitOk txdb.view
  let node := { c.node with txdb := txdb.txnCommit fOk }
  if !fOk then (.error (.rejected 0 ""), { c with node })
  else if pindexNew.nChainTrust > node.nBestChainTrust then
    let result := setBestChain env.toChainEnv node b pindexNew
    (result.1, { c with node := result.2 })
  else (.ok (), { c with node })

variable (pos : BlockFile × UInt32)

/-- `AddToBlockIndex` from the insertion on. -/
def indexBlock (hash : UInt256) (b : CBlock) : Except Failure Unit × BlockIndexes :=
  let pindexNew := newBlockIndex c.mapBlockIndex[b.hashPrevBlock]? pos hash b
  finishIndex env (insertIndex c pindexNew b) pindexNew b

/-- `CBlock::AddToBlockIndex`.  The entropy bit of a block is one bit of its hash, so that
`SetStakeEntropyBit` does not fail. -/
def addToBlockIndex (hash : UInt256) (b : CBlock) : Except Failure Unit × BlockIndexes :=
  if c.mapBlockIndex.contains hash then
    (.error (.error ("AddToBlockIndex() : " ++ hash.toHex ++ " already exists")), c)
  else if !env.computeNextStakeModifier c.mapBlockIndex[b.hashPrevBlock]? then
    (.error (.error "AddToBlockIndex() : ComputeNextStakeModifier() failed"), c)
  else indexBlock env c pos hash b

/-! ## §4. AcceptBlock. -/

/-- The part of `AcceptBlock` before `AddToBlockIndex`: where the block is stored. -/
def checkAccept (hash : UInt256) (b : CBlock) : Except Failure (BlockFile × UInt32) := do
  rejectIf (b.nVersion > CURRENT_VERSION)
    (.dos 100 ("AcceptBlock() : reject unknown block version " ++ toString b.nVersion))
  rejectIf (c.mapBlockIndex.contains hash) (.error "AcceptBlock() : block already in mapBlockIndex")
  let pindexPrev ← required c.mapBlockIndex[b.hashPrevBlock]?
    (.dos 10 "AcceptBlock() : prev block not found")
  let pindexBest ← required c.node.pindexBest (.threw "pindexBest is null")
  checkContext env pindexBest pindexPrev hash b
  rejectIf (!env.checkDiskSpace b.getSerializeSize) (.error "AcceptBlock() : out of disk space")
  required (env.writeToDisk b) (.error "AcceptBlock() : WriteToDisk failed")

variable (b : CBlock)

/-- `CBlock::AcceptBlock`, without the announcement to the peers. -/
def acceptBlock : Except Failure Unit × BlockIndexes :=
  match checkAccept env c (b.getHash env.H) b with
  | .error f => (.error f, c)
  | .ok pos =>
    let result := addToBlockIndex env c pos (b.getHash env.H) b
    (result.1.mapError (reportAs "AcceptBlock() : AddToBlockIndex failed"), result.2)

/-! ### Blocks in the index. -/

/-- Where `AcceptBlock` puts the block that it inserts into `mapBlockIndex`, if it does. -/
def entersIndex : Option (BlockFile × UInt32) :=
  match checkAccept env c (b.getHash env.H) b with
  | .error _ => none
  | .ok pos =>
    if env.computeNextStakeModifier c.mapBlockIndex[b.hashPrevBlock]? then some pos else none

/-- Whether the block is refused when it is in `mapBlockIndex` already: its record cannot
be written, or `SetBestChain` fails. -/
def lateFailure : Bool :=
  (entersIndex env c b).any fun pos => !accepts (indexBlock env c pos (b.getHash env.H) b).1

variable {env}

theorem newBlockIndex_hash (pprev : Option CBlockIndex) (pos : BlockFile × UInt32)
    (hash : UInt256) (b : CBlock) : (newBlockIndex pprev pos hash b).getBlockHash = hash := by
  cases pprev <;> rfl

theorem finishIndex_mapBlockIndex :
    (finishIndex env c pindexNew b).2.mapBlockIndex = c.mapBlockIndex := by
  unfold finishIndex
  dsimp only
  split
  · rfl
  · split <;> rfl

theorem indexBlock_contains (hash h : UInt256) (b : CBlock) :
    (indexBlock env c pos hash b).2.mapBlockIndex.contains h =
    (c.mapBlockIndex.contains h || hash == h) := by
  unfold indexBlock
  dsimp only
  rw [finishIndex_mapBlockIndex]
  rw [insertIndex, newBlockIndex_hash, StdMap.contains_eq, StdMap.contains_eq, StdMap.get_insert]
  by_cases hh : hash = h
  · rw [if_pos hh, hh, beq_self_eq_true, Bool.or_true]
    rfl
  · rw [if_neg hh, beq_false_of_ne hh, Bool.or_false]

theorem checkAccept_new {c : BlockIndexes} {hash : UInt256} {b : CBlock}
    {pos : BlockFile × UInt32} (h : checkAccept env c hash b = .ok pos) :
    c.mapBlockIndex.contains hash = false := by
  simp only [checkAccept, bind_eq_ok, rejectIf_eq_ok] at h
  obtain ⟨_, _, _, hnew, _⟩ := h
  exact hnew

theorem acceptBlock_of_none {c : BlockIndexes} {b : CBlock} (h : entersIndex env c b = none) :
    ∃ f, acceptBlock env c b = (.error f, c) := by
  unfold entersIndex at h
  unfold acceptBlock
  cases hcheck : checkAccept env c (b.getHash env.H) b with
  | error f => exact ⟨f, rfl⟩
  | ok pos =>
    rw [hcheck] at h
    dsimp only at h ⊢
    rw [addToBlockIndex, if_neg (by rw [checkAccept_new hcheck]; decide)]
    split at h
    next => cases h
    next hmod =>
      rw [if_pos (by simpa using hmod)]
      exact ⟨_, rfl⟩

theorem acceptBlock_of_some {c : BlockIndexes} {b : CBlock} {pos : BlockFile × UInt32}
    (h : entersIndex env c b = some pos) :
    acceptBlock env c b =
      ((indexBlock env c pos (b.getHash env.H) b).1.mapError
        (reportAs "AcceptBlock() : AddToBlockIndex failed"),
        (indexBlock env c pos (b.getHash env.H) b).2) := by
  unfold entersIndex at h
  unfold acceptBlock
  cases hcheck : checkAccept env c (b.getHash env.H) b with
  | error f =>
    rw [hcheck] at h
    cases h
  | ok pos' =>
    rw [hcheck] at h
    dsimp only at h ⊢
    rw [addToBlockIndex, if_neg (by rw [checkAccept_new hcheck]; decide)]
    split at h
    next hmod =>
      cases h
      rw [if_neg (by simpa using hmod)]
    next => cases h

theorem acceptBlock_contains (h : UInt256) : (acceptBlock env c b).2.mapBlockIndex.contains h =
    (c.mapBlockIndex.contains h || ((entersIndex env c b).isSome && b.getHash env.H == h)) := by
  cases henters : entersIndex env c b with
  | none =>
    obtain ⟨f, hf⟩ := acceptBlock_of_none henters
    rw [hf, isSome_none, Bool.false_and, Bool.or_false]
  | some pos =>
    rw [acceptBlock_of_some henters, isSome_some, Bool.true_and]
    exact indexBlock_contains c pos _ h b

theorem accepts_of_entersIndex {c : BlockIndexes} {b : CBlock}
    (henters : (entersIndex env c b).isSome = true) (hlate : lateFailure env c b = false) :
    (acceptBlock env c b).1 = .ok () := by
  obtain ⟨pos, hpos⟩ := isSome_iff_exists.mp henters
  rw [acceptBlock_of_some hpos]
  rw [lateFailure, hpos, any_some, Bool.not_eq_false'] at hlate
  obtain ⟨⟨⟩, hok⟩ := accepts_iff.mp hlate
  rw [hok]
  rfl

end Fantom.Blocks
