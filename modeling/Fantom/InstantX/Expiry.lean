/-
  Fantom.InstantX.Expiry — What expiry releases.

  An expired lock unlocks the inputs of its request: nothing when it has none, and whatever the
  inputs are locked to otherwise.  `LocksOwned` says that every entry belongs to a lock with a
  request that spends the outpoint; it is kept by every event but a refused request that stays
  refused.  On such runs expiry keeps exactly the entries of unexpired locks, unless an expired
  request spends one of their outpoints (`clean_releases_iff`).
-/
import Fantom.InstantX.Quorum

namespace Fantom.InstantX

open Core Lib Option StdMap

variable {C : Crypto}

/-! ## §1. The invariant. -/

structure LocksOwned (st : IXState) : Prop where
  /-- A lock is stored under its own hash. -/
  key : ∀ h c, st.core h = some c → c.2.1 = h
  /-- An entry has a lock and a request that spends its outpoint. -/
  owned : ∀ o h, st.mapLockedInputs[o]? = some h → (st.core h).isSome = true ∧
    ∃ tx, st.mapTxLockReq[h]? = some tx ∧ o ∈ tx.vin.map CTxIn.prevout

theorem LocksOwned.empty : LocksOwned IXState.empty where
  key _ _ hc := by cases hc
  owned o h hl := by
    rw [show IXState.empty.mapLockedInputs = ∅ from rfl, get_empty] at hl
    cases hl

/-- A refused request that locks a free input becomes a request all the same:
its lock is complete, and none of its inputs is locked to another transaction. -/
def RefusedBecomesRequest (st : IXState) (e : IXEnv C × IXEvent) : Prop :=
  match e.2 with
  | .txlreq tx => refused e.1 st tx = true →
      (∃ txin ∈ tx.vin, st.mapLockedInputs[txin.prevout]? = none) →
        (createNewLock e.1 st tx).1.Complete (tx.getHash C.toHashes) ∧
          NoConflict st tx.vin (tx.getHash C.toHashes)
  | .txlvote _ => True
  | .clean => True

/-! ## §2. Every event keeps it. -/

variable {env : IXEnv C} {st : IXState}

theorem addVote_key (hI : LocksOwned st) (v : CConsensusVote) {h : UInt256} {c}
    (hc : (addVote env st v).core h = some c) : c.2.1 = h := by
  unfold addVote IXState.core at hc
  dsimp only at hc
  rw [get_insert] at hc
  split at hc
  next hk =>
    subst hk
    cases hc
    show (lockForVote env st v).txHash = v.txHash
    unfold lockForVote
    cases hl : st.mapTxLocks[v.txHash]? with
    | none => rfl
    | some lock => exact hI.key v.txHash lock.core (by unfold IXState.core; rw [hl]; rfl)
  next => exact hI.key h c hc

theorem createNewLock_key (hI : LocksOwned st) (tx : CTransaction) {h : UInt256} {c}
    (hc : (createNewLock env st tx).1.core h = some c) : c.2.1 = h := by
  unfold createNewLock at hc
  dsimp only at hc
  split at hc
  next => exact hI.key h c hc
  next =>
    unfold IXState.core at hc
    dsimp only at hc
    rw [get_insert] at hc
    split at hc
    next hk =>
      subst hk
      cases hc
      cases hl : st.mapTxLocks[tx.getHash C.toHashes]? with
      | none => rfl
      | some lock => exact hI.key _ lock.core (by unfold IXState.core; rw [hl]; rfl)
    next => exact hI.key h c hc

theorem LocksOwned.txlvote (env : IXEnv C) (hI : LocksOwned st) (v : CConsensusVote) : LocksOwned
    (processTxlvote env st v).1 where
  key h c hc := by
    cases hf : voteFresh env st v with
    | false => rw [processTxlvote_of_stale env hf] at hc; exact hI.key h c hc
    | true =>
      cases hv : voteValid env v with
      | false => rw [processTxlvote_of_invalid env hf hv] at hc; exact hI.key h c hc
      | true =>
        obtain ⟨st', unknown, hcount, he⟩ := processTxlvote_of_valid env hf hv
        rw [he] at hc
        replace hc : st'.core h = some c := hc
        rw [hcount.core] at hc
        have hI' : LocksOwned (recordVote st v) := ⟨hI.key, hI.owned⟩
        exact addVote_key hI' v hc
  owned o h hl := by
    rcases processTxlvote_locked env hl with hold | ⟨rfl, hcomplete, htx⟩
    · obtain ⟨hlock, tx, hreq, ho⟩ := hI.owned o h hold
      exact ⟨processTxlvote_lock env hlock, tx, processTxlvote_req env hreq, ho⟩
    · refine ⟨?_, htx⟩
      obtain ⟨lock, hget, -⟩ := hcomplete
      rw [IXState.core, hget]
      rfl

theorem refused_no_request {tx : CTransaction} (hr : refused env st tx = true) :
    st.mapTxLockReq[tx.getHash C.toHashes]? = none := by
  unfold refused at hr
  cases hc : st.mapTxLockReq.contains (tx.getHash C.toHashes) with
  | true =>
    unfold txlreqDropped at hr
    dsimp only at hr
    rw [hc] at hr
    simp at hr
  | false => exact contains_eq_false_iff.mp hc

theorem LocksOwned.txlreq (env : IXEnv C) (hI : LocksOwned st) (tx : CTransaction)
    (hP : RefusedBecomesRequest st (env, IXEvent.txlreq tx)) :
    LocksOwned (processTxlreq env st tx) where
  key h c hc := by
    cases hr : refused env st tx with
    | true =>
      obtain ⟨locks, req, he, hcore, -, -⟩ :=
        rejectTxlreq_frame env (createNewLock env st tx).1 tx
      rw [processTxlreq_of_refused env hr, he] at hc
      replace hc : (locks[h]?).map CTransactionLock.core = some c := hc
      rw [hcore] at hc
      exact createNewLock_key hI tx hc
    | false =>
      rcases processTxlreq_of_not_refused env hr with he | ⟨votes, he, -⟩
      · rw [he] at hc
        exact hI.key h c hc
      · rw [he] at hc
        exact createNewLock_key hI tx hc
  owned o h hl := by
    have hkeep : st.mapLockedInputs[o]? = some h →
        ((processTxlreq env st tx).core h).isSome = true ∧
          ∃ tx', (processTxlreq env st tx).mapTxLockReq[h]? = some tx' ∧
            o ∈ tx'.vin.map CTxIn.prevout := by
      intro hold
      obtain ⟨hlock, tx', hreq, ho⟩ := hI.owned o h hold
      exact ⟨processTxlreq_lock env hlock, tx', processTxlreq_req env hreq, ho⟩
    rw [processTxlreq_locked] at hl
    split at hl
    next hc =>
      obtain ⟨hr, ho⟩ := hc
      cases hold : st.mapLockedInputs[o]? with
      | some k =>
        rw [hold] at hl
        cases hl
        exact hkeep hold
      | none =>
        -- a free input: the request has a complete lock and no conflict
        rw [hold] at hl
        cases hl
        obtain ⟨txin, htx, rfl⟩ := List.mem_map.mp ho
        obtain ⟨hcomplete, hno⟩ := hP hr ⟨txin, htx, hold⟩
        obtain ⟨locks₀, hframe⟩ := createNewLock_frame env st tx
        obtain ⟨locks, req, he, hcore, -, hreq⟩ :=
          rejectTxlreq_frame env (createNewLock env st tx).1 tx
        have hno' : NoConflict (createNewLock env st tx).1 tx.vin (tx.getHash C.toHashes) := by
          rw [hframe]
          exact hno
        have heq := hreq hcomplete hno'
        rw [processTxlreq_of_refused env hr, he]
        constructor
        · show ((locks[tx.getHash C.toHashes]?).map CTransactionLock.core).isSome = true
          rw [hcore]
          obtain ⟨lock, hget, -⟩ := hcomplete
          rw [IXState.core, hget]
          rfl
        · refine ⟨tx, ?_, ho⟩
          show req[tx.getHash C.toHashes]? = some tx
          rw [heq, hframe, get_insertNew, if_pos rfl]
          show (st.mapTxLockReq[tx.getHash C.toHashes]?).or (some tx) = some tx
          rw [refused_no_request hr]
          rfl
    next => exact hkeep hl

theorem LocksOwned.spent_of_expired (hI : LocksOwned st) {o : COutPoint} {h : UInt256}
    {lock : CTransactionLock} (hl : st.mapLockedInputs[o]? = some h)
    (hlock : st.mapTxLocks[h]? = some lock) (hexp : env.expired lock = true) : SpentByRequest st
    (env.expiredLocks st) o := by
  obtain ⟨-, tx, hreq, ho⟩ := hI.owned o h hl
  have hkey : lock.txHash = h :=
    hI.key h lock.core (by unfold IXState.core; rw [hlock]; rfl)
  refine ⟨(h, lock), (mem_expiredLocks env).mpr ⟨hlock, hexp⟩, tx, ?_, ho⟩
  rw [hkey]
  exact hreq

theorem clean_locked (hbest : env.noBestBlock = false) (st : IXState) (o : COutPoint)
    (h : UInt256) :
    (cleanTransactionLocksList env st).1.mapLockedInputs[o]? = some h ↔
      st.mapLockedInputs[o]? = some h ∧ ¬ SpentByRequest st (env.expiredLocks st) o := by
  classical
  rw [clean_eq env hbest, removeLocks_locked]
  split
  next hs => simp [hs]
  next hs => simp [hs]

theorem LocksOwned.clean (env : IXEnv C) (hI : LocksOwned st) :
    LocksOwned (cleanTransactionLocksList env st).1 := by
  cases hbest : env.noBestBlock with
  | true =>
    rw [cleanTransactionLocksList, hbest]
    exact hI
  | false =>
    have hcore : ∀ h lock, st.mapTxLocks[h]? = some lock → env.expired lock = false →
        (cleanTransactionLocksList env st).1.core h = some lock.core := by
      intro h lock hlock hexp
      rw [IXState.core, (clean_locks env hbest st h lock).mpr ⟨hlock, hexp⟩]
      rfl
    constructor
    · intro h c hc
      obtain ⟨lock, hlock, rfl⟩ := map_eq_some_iff.mp hc
      have hold := ((clean_locks env hbest st h lock).mp hlock).1
      exact hI.key h lock.core (by unfold IXState.core; rw [hold]; rfl)
    · intro o h hl
      obtain ⟨hold, hns⟩ := (clean_locked hbest st o h).mp hl
      obtain ⟨hsome, tx, hreq, ho⟩ := hI.owned o h hold
      obtain ⟨c, hc⟩ := isSome_iff_exists.mp hsome
      obtain ⟨lock, hlock, -⟩ := map_eq_some_iff.mp hc
      have hexp : env.expired lock = false := by
        rw [← Bool.not_eq_true]
        exact fun hexp => hns (hI.spent_of_expired hold hlock hexp)
      refine ⟨by rw [hcore h lock hlock hexp]; rfl, tx, ?_, ho⟩
      rw [clean_eq env hbest, removeLocks_req, if_neg]
      · exact hreq
      -- only the lock of `h` itself could take the request away
      intro hmem
      obtain ⟨entry, hentry, heq⟩ := List.mem_map.mp hmem
      obtain ⟨k, lock'⟩ := entry
      obtain ⟨hlock', hexp'⟩ := (mem_expiredLocks env).mp hentry
      have hkey : lock'.txHash = k :=
        hI.key k lock'.core (by unfold IXState.core; rw [hlock']; rfl)
      obtain rfl : k = h := hkey.symm.trans heq
      rw [hlock] at hlock'
      cases hlock'
      rw [hexp] at hexp'
      cases hexp'

theorem LocksOwned.step {e : IXEnv C × IXEvent} (hI : LocksOwned st)
    (hP : RefusedBecomesRequest st e) : LocksOwned (ixStep st e) := by
  obtain ⟨env, ev⟩ := e
  cases ev with
  | txlreq tx => exact hI.txlreq env tx hP
  | txlvote v => exact hI.txlvote env v
  | clean => exact hI.clean env

/-! ## §3. What expiry releases. -/

/-- Expiry leaves exactly the entries whose lock is there and has not expired. -/
def ReleasesExpired (env : IXEnv C) (st : IXState) : Prop :=
  ∀ (o : COutPoint) (h : UInt256),
    (cleanTransactionLocksList env st).1.mapLockedInputs[o]? = some h ↔
    st.mapLockedInputs[o]? = some h ∧
      ∃ lock, st.mapTxLocks[h]? = some lock ∧ env.expired lock = false

/-- No request of an expired lock spends an outpoint that is locked for an
unexpired one. -/
def NoForeignInput (env : IXEnv C) (st : IXState) : Prop :=
  ∀ (o : COutPoint) (h : UInt256) (lock : CTransactionLock),
    st.mapLockedInputs[o]? = some h → st.mapTxLocks[h]? = some lock →
    env.expired lock = false → ¬ SpentByRequest st (env.expiredLocks st) o

theorem LocksOwned.releasesExpired_iff (hI : LocksOwned st) (hbest : env.noBestBlock = false) :
    ReleasesExpired env st ↔ NoForeignInput env st := by
  constructor
  · intro hrel o h lock hl hlock hexp
    exact ((clean_locked hbest st o h).mp ((hrel o h).mpr ⟨hl, lock, hlock, hexp⟩)).2
  intro hno o h
  rw [clean_locked hbest]
  constructor
  · intro hl
    obtain ⟨hl, hns⟩ := hl
    obtain ⟨c, hc⟩ := isSome_iff_exists.mp (hI.owned o h hl).1
    obtain ⟨lock, hlock, -⟩ := map_eq_some_iff.mp hc
    refine ⟨hl, lock, hlock, ?_⟩
    rw [← Bool.not_eq_true]
    exact fun hexp => hns (hI.spent_of_expired hl hlock hexp)
  · intro hl
    obtain ⟨hl, lock, hlock, hexp⟩ := hl
    exact ⟨hl, hno o h lock hl hlock hexp⟩

/-- **What expiry releases.**  Take a run from empty maps in which every refused
request that locks a free input becomes a request.  At each call of
`CleanTransactionLocksList` in it, on a node with a best block, the entries that
stay are exactly those of unexpired locks if and only if no expired request
spends an outpoint locked for an unexpired lock. -/
theorem clean_releases_iff (evs : List (IXEnv C × IXEvent))
    (hrun : Along ixStep RefusedBecomesRequest IXState.empty evs)
    (done rest : List (IXEnv C × IXEvent)) (env : IXEnv C)
    (hsplit : evs = done ++ (env, IXEvent.clean) :: rest) (hbest : env.noBestBlock = false) :
    ReleasesExpired env (run ixStep IXState.empty done) ↔
      NoForeignInput env (run ixStep IXState.empty done) := by
  have hdone : Along ixStep RefusedBecomesRequest IXState.empty done := by
    rw [hsplit, along_append] at hrun
    exact hrun.1
  have hI : LocksOwned (run ixStep IXState.empty done) :=
    run_invariant (fun _ _ hI hP => hI.step hP) LocksOwned.empty hdone
  exact hI.releasesExpired_iff hbest

/-! ## §4. Sample runs. -/

def laterIXEnv : IXEnv sampleCrypto := sampleIXEnv 1500004000 true

/-- A lock that a quorum has voted for expires, and its input is released. -/
theorem clean_releases_sample :
    (run ixStep IXState.empty quorumRun).mapLockedInputs[sampleOutpoint]? = some sampleTxid ∧
      ReleasesExpired laterIXEnv (run ixStep IXState.empty quorumRun) := by
  have hexpired : ∀ e ∈ (run ixStep IXState.empty quorumRun).mapTxLocks.toList,
      laterIXEnv.expired e.2 = true := by decide +kernel
  refine ⟨by decide +kernel, (clean_releases_iff (quorumRun ++ [(laterIXEnv, IXEvent.clean)]) ?_
    quorumRun [] laterIXEnv rfl rfl).mpr fun o h lock _ hlock hfresh => ?_⟩
  on_goal 2 =>
    have hold := hexpired (h, lock) (Std.ExtTreeMap.mem_toList_iff_getElem?_eq_some.mpr hlock)
    rw [hfresh] at hold
    cases hold
  rw [along_iff]
  intro done e rest hsplit
  have he : e ∈ quorumRun ++ [(laterIXEnv, IXEvent.clean)] := by simp [hsplit]
  rcases List.mem_append.mp he with he | he
  · rcases List.mem_cons.mp he with rfl | he
    · intro hr
      rw [sample_not_refused] at hr
      cases hr
    · obtain ⟨i, -, rfl⟩ := List.mem_map.mp he
      trivial
  · obtain rfl := List.mem_singleton.mp he
    trivial

/-- A refused request leaves an entry that outlives its lock. -/
theorem leaked_entry :
    let st := run ixStep IXState.empty [(sampleIXEnv 1500000000 false, .txlreq sampleRequest)]
    let st' := (cleanTransactionLocksList laterIXEnv st).1
    st.mapLockedInputs[sampleOutpoint]? = some sampleTxid ∧
      (st.mapTxLocks[sampleTxid]?).map laterIXEnv.expired = some true ∧
      st'.mapLockedInputs[sampleOutpoint]? = some sampleTxid ∧
      st'.mapTxLocks[sampleTxid]? = none := by
  decide +kernel

end Fantom.InstantX
