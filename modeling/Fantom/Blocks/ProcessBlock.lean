/-
  Fantom.Blocks.ProcessBlock — `ProcessBlock`: a new block is accepted, with the orphans that waited
  for it, or stored until its parent comes.

  * `processChild`, `processRound`, `workLoop` — the orphans of accepted blocks,
  * `processBlock`, `processBlocks` — one call, and a run of calls.

  A call returns an answer and the new state, or does not return.  The payments to blanknodes after
  the loop touch neither the index nor the store.
-/
import Fantom.Blocks.OrphanBlocks
import Fantom.Chain.BestChain

namespace Fantom.Blocks

open Core Chain Lib Script Bool

/-! ## §1. Calls. -/

/-- The globals that `ProcessBlock` works on. -/
structure BlockState (H : Hashes) where
  chain : BlockIndexes
  orphans : OrphanBlocks H

/-- A call, with what it reads besides the globals.  The hash functions are the same in
every call. -/
structure Call (H : Hashes) where
  env : BlockEnv
  hashes : env.H = H
  /-- `pfrom->nVersion`, where there is a `pfrom`. -/
  pfrom : Option Int32
  block : CBlock
  /-- What `insecure_rand` returns. -/
  nRand : UInt32

/-- What a call answers: whether it returns true, the block that `getblocks` asks up to,
and the one that is asked for directly. -/
structure Answer where
  verdict : Except Failure Unit
  getBlocks : Option UInt256
  askFor : Option UInt256

def Answer.of (verdict : Except Failure Unit) : Answer := ⟨verdict, none, none⟩

/-! ## §2. The checks. -/

def CANONICAL_BLOCK_SIG_VERSION : Int32 := 60022

def isCanonicalBlockSignature (b : CBlock) : Bool :=
  if b.isProofOfWork then b.vchBlockSig.isEmpty else isDERSignature b.vchBlockSig false

variable (env : BlockEnv)

/-- `ReserealizeBlockSignature`; a signature that it cannot read stays as it is. -/
def reserealizeBlockSignature (b : CBlock) : CBlock :=
  if b.isProofOfWork then { b with vchBlockSig := [] }
  else { b with vchBlockSig := (env.reserealizeSignature b.vchBlockSig).getD b.vchBlockSig }

/-- `COutPoint::ToString`. -/
def outPointText (o : COutPoint) : String :=
  "COutPoint(" ++ (o.hash.toHex.take 10).toString ++ ", " ++ toString o.n ++ ")"

/-- The text of both refusals of a stake; `what` is the kind of block. -/
def duplicateStake (what : String) (hash : UInt256) (stake : Stake) : Failure :=
  .error ("ProcessBlock() : duplicate proof-of-stake (" ++ outPointText stake.prevoutStake ++
    ", " ++ toString stake.nStakeTime ++ ") for " ++ what ++ " " ++ hash.toHex)

variable {H : Hashes}

/-- The time of a block that is not on top of the best one. -/
def checkTime (chain : BlockIndexes) (pfrom : Option Int32) (b : CBlock) :
    Except Failure Unit :=
  if b.hashPrevBlock = chain.node.hashBestChain then .ok ()
  else do
    let pindexBest ← required chain.node.pindexBest (.threw "pindexBest is null")
    rejectIf (getBlockTime b - (autoSelectSyncCheckpoint pindexBest).getBlockTime < 0)
      (.rejected (if pfrom.isSome then 1 else 0)
        "ProcessBlock() : block with timestamp before last checkpoint")

def canonicalize (pfrom : Option Int32) (b : CBlock) : Except Failure CBlock :=
  if isCanonicalBlockSignature b then .ok b
  else if pfrom.any fun nVersion => nVersion ≥ CANONICAL_BLOCK_SIG_VERSION then
    .error (.rejected 100 "ProcessBlock(): bad block signature encoding")
  else .ok (reserealizeBlockSignature env b)

/-- The part of `ProcessBlock` before the parent is looked up: the block with its signature
in canonical form. -/
def checkNew (s : BlockState H) (pfrom : Option Int32) (b : CBlock) : Except Failure CBlock := do
  let hash := b.getHash env.H
  rejectIf (s.chain.mapBlockIndex.contains hash)
    (.error ("ProcessBlock() : already have block " ++
      toString ((s.chain.mapBlockIndex[hash]?.map CBlockIndex.nHeight).getD 0) ++ " " ++
      hash.toHex))
  rejectIf (s.orphans.mapOrphanBlocks.contains hash)
    (.error ("ProcessBlock() : already have block (orphan) " ++ hash.toHex))
  rejectIf (!env.fReindex && !env.fImporting && b.isProofOfStake &&
      s.chain.setStakeSeen.contains (getProofOfStake b) &&
      !s.orphans.mapOrphanBlocksByPrev.contains hash)
    (duplicateStake "block" hash (getProofOfStake b))
  checkTime s.chain pfrom b
  let b ← canonicalize env pfrom b
  let pindexBest ← required s.chain.node.pindexBest (.threw "pindexBest is null")
  (checkBlock env.toChainEnv pindexBest b true true true).mapError
    (reportAs "ProcessBlock() : CheckBlock FAILED")
  return b

/-! ## §3. Orphans. -/

/-- Whether the stake of an orphan is one that a stored orphan has, and the block has no
child in the store that would allow it. -/
def duplicateOrphan (s : OrphanBlocks H) (b : CBlock) : Bool :=
  b.isProofOfStake && s.setStakeSeenOrphan.contains (getProofOfStake b) &&
    !s.mapOrphanBlocksByPrev.contains (b.getHash H)

variable (nMaxOrphanBlocks : Int64)

/-- The branch of `ProcessBlock` for a block without its parent. -/
def storeOrphan (nRand : UInt32) (s : BlockState H) (pfrom : Option Int32) (b : CBlock) :
    Except Abort (Answer × BlockState H) :=
  if pfrom.isNone then .ok (.of (.ok ()), s)
  else if duplicateOrphan s.orphans b then
    .ok (.of (.error (duplicateStake "orphan block" (b.getHash H) (getProofOfStake b))), s)
  else do
    let orphans ← s.orphans.pruneOrphanBlocks nMaxOrphanBlocks nRand
    let pblock2 := orphans.nextPtr
    let orphans := orphans.insertOrphan b
    let hashEnd ← orphans.getOrphanRoot (b.getHash H)
    let wanted ← orphans.wantedByOrphan pblock2
    let fInitial := s.chain.node.pindexBest.all (isInitialBlockDownload env.toChainEnv)
    return (⟨.ok (), some hashEnd, if fInitial then none else some wanted⟩, { s with orphans })

/-- One round of the inner loop: an orphan whose parent was accepted is tried, and deleted. -/
def processChild (st : BlockState H × List UInt256) (p : Ptr) :
    Except Abort (BlockState H × List UInt256) := do
  let o ← st.1.orphans.deref p
  match acceptBlock env st.1.chain o.vchBlock with
  | (.error (.threw what), _) => .error (.threw what)
  | (.error (.rejected _ _), chain) => .ok (⟨chain, st.1.orphans.forget p o⟩, st.2)
  | (.ok (), chain) => .ok (⟨chain, st.1.orphans.forget p o⟩, st.2 ++ [o.hashBlock])

/-- One round of the outer loop: the children of one block, and which of them were
accepted. -/
def processRound (hashPrev : UInt256) (s : BlockState H) :
    Except Abort (BlockState H × List UInt256) := do
  let (s, vWork) ← (s.orphans.mapOrphanBlocksByPrev.equalRange hashPrev).foldlM
    (processChild env) (s, [])
  return ({ s with orphans := { s.orphans with
    mapOrphanBlocksByPrev := s.orphans.mapOrphanBlocksByPrev.eraseKey hashPrev } }, vWork)

/-- `for (i = 0; i < vWorkQueue.size(); i++)`, over what is left of `vWorkQueue`. -/
def workLoop : Nat → List UInt256 → BlockState H → Except Abort (BlockState H)
  | _, [], s => .ok s
  | 0, _ :: _, _ => .error .endless
  | fuel + 1, hashPrev :: vWorkQueue, s => do
    let (s, vWork) ← processRound env hashPrev s
    workLoop fuel (vWorkQueue ++ vWork) s

/-! ## §4. ProcessBlock. -/

variable (s : BlockState H)

/-- The branch of `ProcessBlock` for a block with its parent. -/
def acceptWithOrphans (b : CBlock) : Except Abort (Answer × BlockState H) :=
  match acceptBlock env s.chain b with
  | (.error (.threw what), _) => .error (.threw what)
  | (.error f, chain) =>
    .ok (.of (.error (reportAs "ProcessBlock() : AcceptBlock FAILED" f)), { s with chain })
  | (.ok (), chain) =>
    (workLoop env (s.orphans.mapOrphanBlocksByPrev.length + 1) [b.getHash H]
      { s with chain }).map fun s => (.of (.ok ()), s)

/-- `ProcessBlock` -/
def processBlock (c : Call H) : Except Abort (Answer × BlockState H) :=
  match checkNew c.env s c.pfrom c.block with
  | .error (.threw what) => .error (.threw what)
  | .error f => .ok (.of (.error f), s)
  | .ok b =>
    if !s.chain.mapBlockIndex.contains b.hashPrevBlock then
      storeOrphan c.env nMaxOrphanBlocks c.nRand s c.pfrom b
    else acceptWithOrphans c.env s b

theorem processBlock_eq_ok {nMaxOrphanBlocks : Int64} {s : BlockState H} {c : Call H}
    {r : Answer × BlockState H} (h : processBlock nMaxOrphanBlocks s c = .ok r) :
    r.2 = s ∨ ∃ b, checkNew c.env s c.pfrom c.block = .ok b ∧
      ((s.chain.mapBlockIndex.contains b.hashPrevBlock = false ∧
          storeOrphan c.env nMaxOrphanBlocks c.nRand s c.pfrom b = .ok r) ∨
        (s.chain.mapBlockIndex.contains b.hashPrevBlock = true ∧
          acceptWithOrphans c.env s b = .ok r)) := by
  unfold processBlock at h
  cases hcheck : checkNew c.env s c.pfrom c.block with
  | error f =>
    rw [hcheck] at h
    cases f with
    | rejected nDoS msg =>
      cases h
      exact .inl rfl
    | threw what => cases h
  | ok b =>
    rw [hcheck] at h
    dsimp only at h
    split at h
    next hparent =>
      rw [not_eq_true'] at hparent
      exact .inr ⟨b, rfl, .inl ⟨hparent, h⟩⟩
    next hparent =>
      rw [not_eq_true, not_eq_false'] at hparent
      exact .inr ⟨b, rfl, .inr ⟨hparent, h⟩⟩

theorem storeOrphan_eq_ok {nMaxOrphanBlocks : Int64} {nRand : UInt32} {s : BlockState H}
    {pfrom : Option Int32} {b : CBlock} {r : Answer × BlockState H}
    (h : storeOrphan env nMaxOrphanBlocks nRand s pfrom b = .ok r) :
    ((pfrom.isNone || duplicateOrphan s.orphans b) = true ∧ r.2 = s) ∨
    ((pfrom.isNone || duplicateOrphan s.orphans b) = false ∧
      ∃ orphans, s.orphans.pruneOrphanBlocks nMaxOrphanBlocks nRand = .ok orphans ∧
        r.2 = { s with orphans := orphans.insertOrphan b }) := by
  unfold storeOrphan at h
  rw [or_eq_true, or_eq_false_iff]
  split at h
  next hnone =>
    cases h
    exact .inl ⟨.inl hnone, rfl⟩
  next hsome =>
    split at h
    next hdup =>
      cases h
      exact .inl ⟨.inr hdup, rfl⟩
    next hdup =>
      obtain ⟨orphans, hprune, h⟩ := bind_eq_ok.mp h
      obtain ⟨_, _, h⟩ := bind_eq_ok.mp h
      obtain ⟨_, _, h⟩ := bind_eq_ok.mp h
      cases h
      exact .inr ⟨⟨eq_false_iff.mpr hsome, eq_false_iff.mpr hdup⟩, orphans, hprune, rfl⟩

/-- Calls one after another, all of which return. -/
def processBlocks (calls : List (Call H)) : Except Abort (BlockState H) :=
  calls.foldlM (fun s c => (processBlock nMaxOrphanBlocks s c).map Prod.snd) s

/-- Every call of a run meets `P` in the state in which it is made. -/
def AlongCalls (nMaxOrphanBlocks : Int64) (P : BlockState H → Call H → Prop) :
    BlockState H → List (Call H) → Prop
  | _, [] => True
  | s, c :: calls => P s c ∧
      match processBlock nMaxOrphanBlocks s c with
      | .error _ => True
      | .ok r => AlongCalls nMaxOrphanBlocks P r.2 calls

instance AlongCalls.decide (nMaxOrphanBlocks : Int64) (P : BlockState H → Call H → Prop)
    [∀ s c, Decidable (P s c)] :
    ∀ s calls, Decidable (AlongCalls nMaxOrphanBlocks P s calls)
  | _, [] => inferInstanceAs (Decidable True)
  | s, c :: calls =>
    have : Decidable (match processBlock nMaxOrphanBlocks s c with
        | .error _ => True
        | .ok r => AlongCalls nMaxOrphanBlocks P r.2 calls) :=
      match processBlock nMaxOrphanBlocks s c with
      | .error _ => inferInstanceAs (Decidable True)
      | .ok r => AlongCalls.decide nMaxOrphanBlocks P r.2 calls
    inferInstanceAs (Decidable (_ ∧ _))

/-- **The run lemma**: what every call keeps that meets its condition, a run of such calls
keeps. -/
theorem processBlocks_rule {nMaxOrphanBlocks : Int64} {I : BlockState H → Prop}
    {P : BlockState H → Call H → Prop}
    (hstep : ∀ s c r, I s → P s c → processBlock nMaxOrphanBlocks s c = .ok r → I r.2)
    {calls : List (Call H)} {s s' : BlockState H} (h0 : I s)
    (hP : AlongCalls nMaxOrphanBlocks P s calls)
    (hrun : processBlocks nMaxOrphanBlocks s calls = .ok s') : I s' := by
  unfold processBlocks at hrun
  induction calls generalizing s with
  | nil =>
    cases hrun
    exact h0
  | cons c calls ih =>
    rw [List.foldlM_cons] at hrun
    obtain ⟨t, hcall, hrun⟩ := bind_eq_ok.mp hrun
    cases hr : processBlock nMaxOrphanBlocks s c with
    | error e =>
      rw [hr] at hcall
      cases hcall
    | ok r =>
      rw [hr] at hcall
      cases hcall
      have hrest := hP.2
      rw [hr] at hrest
      exact ih (hstep s c r h0 hP.1 hr) hrest hrun

/-! ## §5. A sample node. -/

def sampleBlockEnv : BlockEnv :=
  { forkEnv 0 true with
    fReindex := false
    fImporting := false
    nLastPOWBlock := 100
    mapCheckpoints := ∅
    getNextTargetRequired := fun _ _ => 0x1e0fffff
    checkProofOfStake := fun _ _ _ => true
    computeNextStakeModifier := fun _ => true
    checkDiskSpace := fun _ => true
    writeToDisk := fun _ => some (.first, 500)
    reserealizeSignature := fun _ => none }

def sampleChain : BlockIndexes where
  node := (setBestChain sampleBlockEnv.toChainEnv .initial startBlock startIndex).2
  mapBlockIndex := (∅ : StdMap UInt256 CBlockIndex).insert startIndex.getBlockHash startIndex
  setStakeSeen := ∅

def sampleWork (hashPrev : UInt256) (nHeight : UInt8) (nValue : Int64) : CBlock :=
  let nTime := 1200 + nHeight.toUInt32
  let coinbase : CTransaction :=
    ⟨1, nTime, [⟨.null, [0x50 + nHeight, 0], [], 0xffffffff⟩], [⟨nValue, 0, [OP_1]⟩], 0⟩
  let b : CBlock := ⟨2, hashPrev, 0, nTime, 0x1e0fffff, 0, [coinbase], []⟩
  { b with hashMerkleRoot := b.buildMerkleTree sampleChainHashes }

def sampleStake (hashPrev : UInt256) (kernel : COutPoint) : CBlock :=
  let coinbase : CTransaction :=
    ⟨1, 1200, [⟨.null, [0x52, 0], [], 0xffffffff⟩], [⟨0, 0, []⟩], 0⟩
  let coinstake : CTransaction :=
    ⟨1, 1200, [⟨kernel, [], [], 0xffffffff⟩], [⟨0, 0, []⟩, ⟨5, 0, [OP_1]⟩], 0⟩
  let b : CBlock := ⟨2, hashPrev, 0, 1200, 0x1e0fffff, 0, [coinbase, coinstake],
    [0x30, 7, 2, 2, 1, 1, 2, 1, 1]⟩
  { b with hashMerkleRoot := b.buildMerkleTree sampleChainHashes }

def sampleCall (b : CBlock) : Call sampleChainHashes where
  env := sampleBlockEnv
  hashes := rfl
  pfrom := some 70000
  block := b
  nRand := 0

def workBlock : CBlock := sampleWork (startBlock.getHash sampleChainHashes) 1 1000

def childBlock : CBlock := sampleWork (workBlock.getHash sampleChainHashes) 2 1000

end Fantom.Blocks
