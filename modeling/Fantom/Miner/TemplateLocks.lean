/-
  Fantom.Miner.TemplateLocks — The memory pool beside the locks of InstantX, and the blocks that a
  miner makes of both.

  * `template_unlocked` — a block template passes the scan for locks,
  * `template_locked` — a refused request for an output that the pool spends.
-/
import Fantom.InstantX.Effects
import Fantom.Miner.Template
import Fantom.Pool.OrphanQueue

namespace Fantom.Miner

open Core Chain Lib Pool Spork InstantX

variable {C : Crypto} {L : Type}

/-! ## §1. A node. -/

/-- The pool, the limiter of free transactions and the maps of InstantX. -/
structure LockNode (L : Type) where
  pool : CTxMemPool
  free : L
  ix : IXState

def LockNode.start (free : L) : LockNode L := ⟨.empty, free, .empty⟩

/-- What a node reads besides when an event arrives. -/
structure LockEnv (C : Crypto) (L : Type) where
  accept : AcceptEnv L
  ix : IXEnv C
  db : Records
  pindexBest : CBlockIndex

/-- What can happen to the pool and the locks. -/
inductive NodeEvent where
  /-- A transaction that a peer, the wallet or a disconnected block brings. -/
  | tx (tx : CTransaction) (fLimitFree ignoreFees : Bool)
  | txlreq (tx : CTransaction)
  /-- `CMerkleTx::RelayWalletTransaction` with a request of the own wallet. -/
  | ownTxlreq (tx : CTransaction)
  | txlvote (v : CConsensusVote)
  | clean
  /-- What connected blocks take out of the pool. -/
  | remove (tx : CTransaction) (fRecursive : Bool)
  | removeConflicts (tx : CTransaction)
  | clear

/-- `AcceptToMemoryPool`, which looks at the locks. -/
def LockEnv.acceptTx (e : LockEnv C L) (st : LockNode L) (tx : CTransaction)
    (fLimitFree ignoreFees : Bool) : Except Refusal Unit × (CTxMemPool × L) :=
  acceptToMemoryPool
    { e.accept with H := C.toHashes, mapLockedInputs := st.ix.mapLockedInputs }
    e.db e.pindexBest (st.pool, st.free) tx fLimitFree ignoreFees

/-- The surroundings of the handler of a request, with what the pool answers. -/
def LockEnv.forRequest (e : LockEnv C L) (st : LockNode L) : IXEnv C :=
  { e.ix with acceptToMemoryPool := fun tx => accepts (e.acceptTx st tx true false).1 }

variable (st : LockNode L)

def LockNode.withTx (e : LockEnv C L) (tx : CTransaction) (fLimitFree ignoreFees : Bool) :
    LockNode L :=
  { st with
    pool := (e.acceptTx st tx fLimitFree ignoreFees).2.1
    free := (e.acceptTx st tx fLimitFree ignoreFees).2.2 }

/-- A request that reaches the pool is offered to it, and then the locks change. -/
def LockNode.withRequest (e : LockEnv C L) (tx : CTransaction) : LockNode L :=
  if txlreqDropped e.ix st.ix tx then st
  else { st.withTx e tx true false with ix := processTxlreq (e.forRequest st) st.ix tx }

variable (e : LockEnv C L × NodeEvent)

/-- The node after an event. -/
def nodeStep : LockNode L :=
  match e.2 with
  | .tx tx fLimitFree ignoreFees => st.withTx e.1 tx fLimitFree ignoreFees
  | .txlreq tx => st.withRequest e.1 tx
  | .ownTxlreq tx =>
    { st with
      ix := (createNewLock e.1.ix { st.ix with
        mapTxLockReq := StdMap.insertNew st.ix.mapTxLockReq (tx.getHash C.toHashes) tx } tx).1 }
  | .txlvote v => { st with ix := (processTxlvote e.1.ix st.ix v).1 }
  | .clean => { st with ix := (cleanTransactionLocksList e.1.ix st.ix).1 }
  | .remove tx fRecursive => { st with pool := st.pool.remove C.toHashes tx fRecursive }
  | .removeConflicts tx => { st with pool := st.pool.removeConflicts C.toHashes tx }
  | .clear => { st with pool := st.pool.clear }

/-- A transaction that is removed by its id is the one of the pool, or the pool has none. -/
def Proper : Prop :=
  match e.2 with
  | .remove tx _ => EqualOrAbsent C.toHashes st.pool tx
  | _ => True

/-! ## §2. When outputs are locked. -/

variable (env : IXEnv C)

/-- A vote completes the lock of its request, and no input of the request is locked to
another transaction. -/
def completes (st : IXState) (v : CConsensusVote) : Bool :=
  voteFresh env st v && voteValid env v &&
    decide (((lockForVote env st v).addSignature v).countSignatures ≥ INSTANTX_SIGNATURES_REQUIRED) &&
    !(checkForConflictingLocks env st (requestOf env st v.txHash)).2

/-- No other transaction of the pool spends an output. -/
def SpentOnlyBy (pool : CTxMemPool) (o : COutPoint) (hash : UInt256) : Prop :=
  ∀ (h : UInt256) (t : CTransaction), pool.mapTx[h]? = some t → o ∈ outpoints t → h = hash

/-- **The condition on an event**: an output that it locks is spent by no other transaction
of the pool. -/
def LocksOwn : Prop :=
  match e.2 with
  | .txlreq tx => refused (e.1.forRequest st) st.ix tx = true → ∀ o ∈ outpoints tx,
      st.ix.mapLockedInputs[o]? = none → SpentOnlyBy st.pool o (tx.getHash C.toHashes)
  | .txlvote v => completes e.1.ix st.ix v = true →
      ∀ o ∈ outpoints (requestOf e.1.ix st.ix v.txHash),
        st.ix.mapLockedInputs[o]? = none → SpentOnlyBy st.pool o v.txHash
  | _ => True

theorem conflict_congr {env : IXEnv C} {st st' : IXState} {tx : CTransaction}
    (h : st.mapLockedInputs = st'.mapLockedInputs) :
    (checkForConflictingLocks env st tx).2 = (checkForConflictingLocks env st' tx).2 := by
  rw [Bool.eq_iff_iff, ← not_iff_not, Bool.not_eq_true, Bool.not_eq_true, conflict_eq_false,
    conflict_eq_false, h]

theorem lockRequest_mapLockedInputs (st : IXState) (h : UInt256)
    (tx : CTransaction) :
    (lockRequest env st h tx).mapLockedInputs =
      if (checkForConflictingLocks env st tx).2 then st.mapLockedInputs
      else lockInputs st.mapLockedInputs tx.vin h := by
  obtain ⟨locks, he, -⟩ := conflict_frame env st tx
  unfold lockRequest
  cases hcheck : checkForConflictingLocks env st tx with
  | mk st' found =>
    rw [hcheck] at he
    subst he
    cases found with
    | true => rfl
    | false => rfl

/-- **The inputs a vote locks**, read off the state before it. -/
theorem processTxlvote_mapLockedInputs (st : IXState) (v : CConsensusVote) :
    (processTxlvote env st v).1.mapLockedInputs =
      if completes env st v then
        lockInputs st.mapLockedInputs (requestOf env st v.txHash).vin v.txHash
      else st.mapLockedInputs := by
  unfold completes
  cases hfresh : voteFresh env st v with
  | false =>
    rw [processTxlvote_of_stale env hfresh]
    rfl
  | true =>
    cases hvalid : voteValid env v with
    | false =>
      rw [processTxlvote_of_invalid env hfresh hvalid]
      rfl
    | true =>
      have hrelay (s : IXState) :
          (relayVote env s v).1.mapLockedInputs = s.mapLockedInputs := by
        obtain ⟨unknown, he⟩ := relayVote_frame env s v
        rw [he]
      have hlock : lockForVote env (recordVote st v) v = lockForVote env st v := rfl
      unfold processTxlvote processConsensusVote
      rw [hfresh, hvalid, if_neg (by decide), if_neg (by decide), hlock]
      by_cases hq : ((lockForVote env st v).addSignature v).countSignatures ≥
          INSTANTX_SIGNATURES_REQUIRED
      · rw [if_pos hq]
        dsimp only
        rw [hrelay, decide_eq_true hq]
        rw [completeLock, lockRequest_mapLockedInputs]
        have hsame : (checkForConflictingLocks env
            (withRequest env (addVote env (recordVote st v) v) v.txHash)
            (requestOf env (addVote env (recordVote st v) v) v.txHash)).2 =
              (checkForConflictingLocks env st (requestOf env st v.txHash)).2 :=
          conflict_congr rfl
        rw [hsame]
        cases (checkForConflictingLocks env st (requestOf env st v.txHash)).2 with
        | true => rfl
        | false => rfl
      · rw [if_neg hq, decide_eq_false hq]
        exact hrelay _

theorem clean_mapLockedInputs {env : IXEnv C} {st : IXState} {o : COutPoint} {hash : UInt256}
    (h : (cleanTransactionLocksList env st).1.mapLockedInputs[o]? = some hash) :
    st.mapLockedInputs[o]? = some hash := by
  classical
  cases hbest : env.noBestBlock with
  | true =>
    rw [cleanTransactionLocksList, hbest] at h
    exact h
  | false =>
    rw [clean_eq env hbest, removeLocks_locked] at h
    split at h
    · cases h
    · exact h

/-! ## §3. The invariant. -/

/-- **Nothing that is locked to another transaction** is spent in the pool. -/
structure Unlocked (H : Hashes) (pool : CTxMemPool) (locked : StdMap COutPoint UInt256) : Prop where
  indexed : Indexed H pool
  own : ∀ (o : COutPoint) (hash : UInt256), locked[o]? = some hash → SpentOnlyBy pool o hash

variable {H : Hashes} {pool pool' : CTxMemPool} {locked locked' : StdMap COutPoint UInt256}

theorem Unlocked.shrunk (h : Unlocked H pool locked) (hpool : Shrunk H pool pool') :
    Unlocked H pool' locked where
  indexed := hpool.indexed
  own o hash hlock i t ht := h.own o hash hlock i t (hpool.sub i t ht)

theorem Unlocked.lock (h : Unlocked H pool locked)
    (hlocked : ∀ (o : COutPoint) (hash : UInt256), locked'[o]? = some hash →
      locked[o]? = some hash ∨ SpentOnlyBy pool o hash) : Unlocked H pool locked' where
  indexed := h.indexed
  own o hash hlock := (hlocked o hash hlock).elim (h.own o hash) id

theorem Unlocked.lockInputs (h : Unlocked H pool locked) {vin : List CTxIn} {hash : UInt256}
    (hown : ∀ o ∈ vin.map CTxIn.prevout, locked[o]? = none → SpentOnlyBy pool o hash) :
    Unlocked H pool (lockInputs locked vin hash) := by
  refine h.lock fun o other hlock => ?_
  rw [get_lockInputs] at hlock
  split at hlock
  next hin =>
    cases hold : locked[o]? with
    | none =>
      rw [hold] at hlock
      cases hlock
      exact .inr (hown o hin hold)
    | some k =>
      rw [hold] at hlock
      exact .inl hlock
  next => exact .inl hlock

theorem Unlocked.acceptTx {st : LockNode L} (e : LockEnv C L) (tx : CTransaction)
    (fLimitFree ignoreFees : Bool) (h : Unlocked C.toHashes st.pool st.ix.mapLockedInputs) :
    Unlocked C.toHashes (e.acceptTx st tx fLimitFree ignoreFees).2.1 st.ix.mapLockedInputs := by
  unfold LockEnv.acceptTx
  cases haccept : acceptToMemoryPool
      { e.accept with H := C.toHashes, mapLockedInputs := st.ix.mapLockedInputs }
      e.db e.pindexBest (st.pool, st.free) tx fLimitFree ignoreFees with
  | mk result st' =>
    cases result with
    | error refusal =>
      have hpool := acceptToMemoryPool_eq_error _ haccept
      dsimp only at hpool ⊢
      rw [hpool]
      exact h
    | ok u =>
      obtain ⟨hloose, _, hpool⟩ := acceptToMemoryPool_eq_ok _ haccept
      dsimp only at hpool ⊢
      rw [hpool]
      refine ⟨h.indexed.addUnchecked (checkLoose_addable _ hloose), ?_⟩
      simp only [checkLoose, bind_eq_ok] at hloose
      obtain ⟨_, _, _, _, _, _, _, _, _, _, _, hscan, _⟩ := hloose
      intro o hash hlock i t ht ho
      rw [CTxMemPool.mapTx_addUnchecked] at ht
      split at ht
      next hid =>
        cases ht
        obtain ⟨txin, hin, rfl⟩ := List.mem_map.mp ho
        have hfree := forM_eq_ok.mp hscan txin hin
        rw [rejectIf_eq_ok, hlock, Option.any_some, bne_eq_false_iff_eq] at hfree
        rw [← hid]
        exact hfree.symm
      next => exact h.own o hash hlock i t ht ho

/-- **One event** that meets the condition keeps the invariant. -/
theorem nodeStep_unlocked {st : LockNode L} {e : LockEnv C L × NodeEvent}
    (h : Unlocked C.toHashes st.pool st.ix.mapLockedInputs)
    (he : Proper st e ∧ LocksOwn st e) :
    Unlocked C.toHashes (nodeStep st e).pool (nodeStep st e).ix.mapLockedInputs := by
  obtain ⟨env, event⟩ := e
  obtain ⟨hproper, hown⟩ := he
  cases event with
  | tx tx fLimitFree ignoreFees => exact h.acceptTx env tx fLimitFree ignoreFees
  | txlreq tx =>
    unfold nodeStep
    dsimp only [LockNode.withRequest]
    split
    next => exact h
    next hdropped =>
      dsimp only [LockNode.withTx]
      cases hrefused : refused (env.forRequest st) st.ix tx with
      | false =>
        refine (h.acceptTx env tx true false).lock fun o hash hlock => .inl ?_
        rw [processTxlreq_locked, hrefused, if_neg (by simp)] at hlock
        exact hlock
      | true =>
        -- a refused transaction leaves the pool as it is
        have haccepts : accepts (env.acceptTx st tx true false).1 = false := by
          have hnot := (Bool.and_eq_true_iff.mp hrefused).2
          rw [Bool.not_eq_true'] at hnot
          exact hnot
        have hpool : (env.acceptTx st tx true false).2.1 = st.pool := by
          cases hresult : (env.acceptTx st tx true false).1 with
          | ok u =>
            rw [hresult] at haccepts
            cases haccepts
          | error refusal => exact acceptToMemoryPool_error _ hresult
        rw [hpool]
        refine (h.lockInputs (hown hrefused)).lock fun o hash hlock => .inl ?_
        rw [processTxlreq_locked, hrefused] at hlock
        rw [get_lockInputs]
        simpa only [true_and] using hlock
  | ownTxlreq tx =>
    obtain ⟨locks, hlocks⟩ := createNewLock_frame env.ix { st.ix with
      mapTxLockReq := StdMap.insertNew st.ix.mapTxLockReq (tx.getHash C.toHashes) tx } tx
    unfold nodeStep
    dsimp only
    rw [hlocks]
    exact h
  | txlvote v =>
    unfold nodeStep
    dsimp only
    rw [processTxlvote_mapLockedInputs]
    split
    next hcompletes => exact h.lockInputs (hown hcompletes)
    next => exact h
  | clean => exact h.lock fun o hash hlock => .inl (clean_mapLockedInputs hlock)
  | remove tx fRecursive => exact h.shrunk (remove_shrunk h.indexed hproper fRecursive)
  | removeConflicts tx => exact h.shrunk (removeConflicts_shrunk h.indexed tx)
  | clear =>
    refine ⟨empty_indexed C.toHashes _, fun o hash _ i t ht => ?_⟩
    have hnone : (CTxMemPool.clear st.pool).mapTx[i]? = none := StdMap.get_empty i
    rw [show (nodeStep st (env, .clear)).pool = st.pool.clear from rfl, hnone] at ht
    cases ht

/-- **Every run** whose events meet the condition. -/
theorem run_unlocked {free : L} {evs : List (LockEnv C L × NodeEvent)}
    (h : Along nodeStep (fun st e => Proper st e ∧ LocksOwn st e) (.start free) evs) :
    Unlocked C.toHashes (run nodeStep (.start free) evs).pool
      (run nodeStep (.start free) evs).ix.mapLockedInputs := by
  refine run_invariant (I := fun st => Unlocked C.toHashes st.pool st.ix.mapLockedInputs)
    (fun st e hst he => nodeStep_unlocked hst he) ?_ h
  refine ⟨empty_indexed C.toHashes 0, fun o hash hlock => ?_⟩
  have hnone : (LockNode.start free).ix.mapLockedInputs[o]? = none := StdMap.get_empty o
  rw [hnone] at hlock
  cases hlock

/-! ## §4. Templates. -/

theorem checkLockedInputs_ok {env : ChainEnv} {b : CBlock}
    (h : ∀ tx ∈ b.vtx, tx.isCoinBase = true ∨ ∀ txin ∈ tx.vin, ∀ hash,
      env.mapLockedInputs[txin.prevout]? = some hash → hash = tx.getHash env.H) :
    checkLockedInputs env b = .ok () := by
  unfold checkLockedInputs
  split
  · refine forM_eq_ok.mpr fun tx htx => ?_
    split
    next => rfl
    next hcoinbase =>
      refine forM_eq_ok.mpr fun txin hin => ?_
      rw [rejectIf_eq_ok]
      cases hlock : env.mapLockedInputs[txin.prevout]? with
      | none => rfl
      | some hash =>
        rw [Option.any_some, bne_eq_false_iff_eq]
        exact (h tx htx).resolve_left hcoinbase txin hin hash hlock
  · rfl

/-- **A template is not rejected because of locks**, in every state that a run reaches
whose events lock no output that another transaction of the pool spends. -/
theorem template_unlocked {free : L} {evs : List (LockEnv C L × NodeEvent)}
    (hproper : Along nodeStep Proper (.start free) evs)
    (hown : Along nodeStep LocksOwn (.start free) evs) {D : Type} (env : MinerEnv D)
    (hH : env.H = C.toHashes)
    (hlocks : env.mapLockedInputs = (run nodeStep (.start free) evs).ix.mapLockedInputs)
    (fProofOfStake : Bool) (db : Records) (pindexPrev : CBlockIndex) (pblock : CBlock)
    (nFees : Int64)
    (h : createNewBlock env fProofOfStake db pindexPrev (run nodeStep (.start free) evs).pool =
      .ok (some (pblock, nFees))) :
    (∀ tx ∈ pblock.vtx.tail, ∀ txin ∈ tx.vin, ∀ hash,
        (run nodeStep (.start free) evs).ix.mapLockedInputs[txin.prevout]? = some hash →
          hash = tx.getHash env.H) ∧
      checkLockedInputs env.toChainEnv pblock = .ok () := by
  have hunlocked := run_unlocked (along_and.mpr ⟨hproper, hown⟩)
  rw [← hH] at hunlocked
  obtain ⟨coinbase, listed, hcoinbase, hvtx, hvalid, _⟩ := createNewBlock_ok hunlocked.indexed h
  have hlist : ∀ tx ∈ listed.map ListedTx.tx, ∀ txin ∈ tx.vin, ∀ hash,
      (run nodeStep (.start free) evs).ix.mapLockedInputs[txin.prevout]? = some hash →
        hash = tx.getHash env.H := by
    intro tx htx txin hin hash hlock
    obtain ⟨l, hl, rfl⟩ := List.mem_map.mp htx
    exact (hunlocked.own _ hash hlock _ _ (hvalid.fromPool l hl)
      (List.mem_map_of_mem hin)).symm
  refine ⟨?_, checkLockedInputs_ok fun tx htx => ?_⟩
  · rw [hvtx]
    exact hlist
  · rw [hvtx] at htx
    rw [hlocks]
    rcases List.mem_cons.mp htx with rfl | hin
    · exact .inl hcoinbase
    · exact .inr (hlist tx hin)

/-! ## §5. Sample runs. -/

def lockEnv : LockEnv sampleCrypto Unit :=
  ⟨relayEnv, sampleIXEnv 1500000000 true, relayRecords, sampleGenesis⟩

def lockMiner (st : LockNode Unit) : MinerEnv Int :=
  { sampleMiner with
    toChainEnv := { relayEnv.toChainEnv with
      H := sampleCrypto.toHashes
      mapLockedInputs := st.ix.mapLockedInputs } }

theorem lockMiner_env (st : LockNode Unit) : (lockMiner st).H = sampleCrypto.toHashes ∧
    (lockMiner st).mapLockedInputs = st.ix.mapLockedInputs := ⟨rfl, rfl⟩

def lockTemplate (st : LockNode Unit) : Option (CBlock × Int64) :=
  (createNewBlock (lockMiner st) false relayRecords sampleGenesis st.pool).toOption.join

def ownRequest : List (LockEnv sampleCrypto Unit × NodeEvent) :=
  [(lockEnv, .tx relayParent true false), (lockEnv, .txlreq relayParent)]

theorem ownRequest_proper : Along nodeStep Proper (.start ()) ownRequest :=
  ⟨trivial, trivial, trivial⟩

theorem ownRequest_own : Along nodeStep LocksOwn (.start ()) ownRequest := by
  have halong : Along nodeStep (fun st e => Proper st e ∧ LocksOwn st e) (.start ())
      [(lockEnv, .tx relayParent true false)] := ⟨⟨trivial, trivial⟩, trivial⟩
  have hpool := (run_unlocked halong).indexed
  refine ⟨trivial, fun _ o ho _ h t ht hspent => ?_, trivial⟩
  have hparent : (run nodeStep (.start ()) [(lockEnv, .tx relayParent true false)]).pool.mapTx[
      relayParent.getHash sampleCrypto.toHashes]? = some relayParent := by decide +kernel
  exact hpool.spender_unique ht hparent hspent ho

theorem template_unlocked_ownRequest :
    (run nodeStep (.start ()) ownRequest).ix.mapLockedInputs.size = 1 ∧
      ∃ pblock nFees, lockTemplate (run nodeStep (.start ()) ownRequest) = some (pblock, nFees) ∧
        checkLockedInputs (lockMiner (run nodeStep (.start ()) ownRequest)).toChainEnv pblock =
          .ok () := by
  refine ⟨by decide +kernel, ?_⟩
  obtain ⟨⟨pblock, nFees⟩, hblock⟩ :
      ∃ p, lockTemplate (run nodeStep (.start ()) ownRequest) = some p :=
    Option.isSome_iff_exists.mp (by decide +kernel)
  refine ⟨pblock, nFees, hblock, ?_⟩
  obtain ⟨hH, hlocks⟩ := lockMiner_env (run nodeStep (.start ()) ownRequest)
  exact (template_unlocked ownRequest_proper ownRequest_own _ hH hlocks false relayRecords
    sampleGenesis pblock nFees (toOption_join_eq_some.mp hblock)).2

def rivalRequest : CTransaction := relayTx (relayFunding.getHash sampleChainHashes) 0 [39000]

def rivalEvents : List (LockEnv sampleCrypto Unit × NodeEvent) :=
  [(lockEnv, .tx relayParent true false), (lockEnv, .txlreq rivalRequest)]

/-- **A template is rejected because of a lock**: the request that the pool refuses locks the
output at once, without a vote, and the miner takes the transaction that the pool has. -/
theorem template_locked :
    isSporkActive relayEnv.mapSporksActive relayEnv.nNow SPORK_3_INSTANTX_BLOCK_FILTERING = true ∧
      (run nodeStep (.start ()) rivalEvents).ix.mapLockedInputs[
        (⟨relayFunding.getHash sampleChainHashes, 0⟩ : COutPoint)]? =
          some (rivalRequest.getHash sampleChainHashes) ∧
      rivalRequest.getHash sampleChainHashes ≠ relayParent.getHash sampleChainHashes ∧
      (lockTemplate (run nodeStep (.start ()) rivalEvents)).map (fun p => (p.1.vtx.tail,
        accepts (checkLockedInputs (lockMiner (run nodeStep (.start ()) rivalEvents)).toChainEnv
          p.1))) = some ([relayParent], false) := by
  refine ⟨by decide, by decide +kernel, by decide +kernel, by decide +kernel⟩

end Fantom.Miner
