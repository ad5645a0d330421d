/-
  Fantom.InstantX.Effects — What each event does to each map, said once; every later result about
  runs is derived from these lemmas and unfolds no handler.

  * `processTxlvote_locked`, `processTxlreq_locked` — which inputs an event locks.
-/
import Fantom.InstantX.Model

namespace Fantom.InstantX

open Core Lib Spork Blanknode List StdMap

variable {C : Crypto} (env : IXEnv C)

/-! ## §1. What is read off a lock. -/

/-- The part of a lock that expiry times do not touch. -/
def CTransactionLock.core (lock : CTransactionLock) : Int32 × UInt256 × List CConsensusVote :=
  (lock.nBlockHeight, lock.txHash, lock.vecConsensusVotes)

def IXState.core (st : IXState) (h : UInt256) : Option (Int32 × UInt256 × List CConsensusVote) :=
  (st.mapTxLocks[h]?).map CTransactionLock.core

variable (st : IXState)

def IXState.votesOf (h : UInt256) : List CConsensusVote :=
  ((st.core h).map fun c => c.2.2).getD []

/-- `mapTxLocks` has a lock for `h` with enough signatures. -/
def IXState.Complete (h : UInt256) : Prop :=
  ∃ lock, st.mapTxLocks[h]? = some lock ∧ INSTANTX_SIGNATURES_REQUIRED ≤ lock.countSignatures

theorem countSignatures_congr {l l' : CTransactionLock} (h : l.core = l'.core) :
    l.countSignatures = l'.countSignatures := by
  obtain ⟨hn, h⟩ := Prod.mk.inj h
  obtain ⟨-, hv⟩ := Prod.mk.inj h
  unfold CTransactionLock.countSignatures
  rw [hn, hv]

variable {h : UInt256} {tx : CTransaction} {v : CConsensusVote}

theorem complete_congr {st st' : IXState} (hc : st.core h = st'.core h) :
    st.Complete h ↔ st'.Complete h := by
  have key : ∀ {s s' : IXState}, s.core h = s'.core h → s.Complete h → s'.Complete h := by
    intro s s' hc hs
    obtain ⟨lock, hl, hq⟩ := hs
    unfold IXState.core at hc
    rw [hl] at hc
    obtain ⟨lock', hl', hcore⟩ := Option.map_eq_some_iff.mp hc.symm
    exact ⟨lock', hl', by rw [countSignatures_congr hcore]; exact hq⟩
  exact ⟨key hc, key hc.symm⟩

theorem votesOf_of_get {st : IXState} {lock : CTransactionLock}
    (hl : st.mapTxLocks[h]? = some lock) : st.votesOf h = lock.vecConsensusVotes := by
  unfold IXState.votesOf IXState.core
  rw [hl]
  rfl

theorem votesOf_congr {st st' : IXState} (hc : st.core h = st'.core h) :
    st.votesOf h = st'.votesOf h := by
  unfold IXState.votesOf
  rw [hc]

/-! ## §2. The conflict check. -/

theorem setExpiration_core (locks : StdMap UInt256 CTransactionLock) (h k : UInt256)
    (nExpiration : Int32) :
    ((setExpiration locks h nExpiration)[k]?).map CTransactionLock.core =
      (locks[k]?).map CTransactionLock.core := by
  unfold setExpiration
  cases hl : locks[h]? with
  | none => rfl
  | some lock =>
    show ((locks.insert h { lock with nExpiration := nExpiration })[k]?).map _ = _
    rw [get_insert]
    by_cases hk : h = k
    · rw [if_pos hk, ← hk, hl]
      rfl
    · rw [if_neg hk]

theorem conflict_frame (tx : CTransaction) :
    ∃ locks, (checkForConflictingLocks env st tx).1 = { st with mapTxLocks := locks } ∧
      ∀ k, (locks[k]?).map CTransactionLock.core = st.core k := by
  unfold checkForConflictingLocks
  dsimp only
  split
  · exact ⟨st.mapTxLocks, rfl, fun _ => rfl⟩
  · refine ⟨_, rfl, fun k => ?_⟩
    rw [setExpiration_core, setExpiration_core]
    rfl

theorem conflict_eq_false {st : IXState} :
    (checkForConflictingLocks env st tx).2 = false ↔
      ∀ txin ∈ tx.vin, ∀ h, st.mapLockedInputs[txin.prevout]? = some h →
        h = tx.getHash C.toHashes := by
  unfold checkForConflictingLocks
  dsimp only
  split
  next hnone =>
    rw [findSome?_eq_none_iff] at hnone
    refine iff_of_true rfl fun txin htx h hh => ?_
    have := hnone txin htx
    rw [hh] at this
    simpa using this
  next other hsome =>
    refine iff_of_false (by simp) fun hall => ?_
    obtain ⟨txin, htx, hf⟩ := exists_of_findSome?_eq_some hsome
    obtain ⟨hget, hne⟩ := Option.filter_eq_some_iff.mp hf
    exact absurd (hall txin htx other hget) (by simpa using hne)

/-! ## §3. Locking inputs and making locks. -/

theorem get_lockInputs (locked : StdMap COutPoint UInt256) (vin : List CTxIn) (h : UInt256)
    (o : COutPoint) :
    (lockInputs locked vin h)[o]? =
      if o ∈ vin.map CTxIn.prevout then locked[o]?.or (some h) else locked[o]? := by
  induction vin generalizing locked with
  | nil => rfl
  | cons txin vin ih =>
    show (lockInputs (StdMap.insertNew locked txin.prevout h) vin h)[o]? = _
    rw [ih, get_insertNew]
    by_cases ho : txin.prevout = o
    · subst ho
      cases locked[txin.prevout]? with
      | none => simp
      | some k => simp
    · simp [ho, Ne.symm ho]

theorem createNewLock_frame (tx : CTransaction) :
    ∃ locks, (createNewLock env st tx).1 = { st with mapTxLocks := locks } := by
  unfold createNewLock
  dsimp only
  split
  · exact ⟨st.mapTxLocks, rfl⟩
  · exact ⟨_, rfl⟩

theorem createNewLock_votesOf (tx : CTransaction) (k : UInt256) :
    (createNewLock env st tx).1.votesOf k = st.votesOf k := by
  unfold createNewLock
  dsimp only
  split
  · rfl
  · unfold IXState.votesOf IXState.core
    dsimp only
    rw [get_insert]
    by_cases hk : tx.getHash C.toHashes = k
    · rw [if_pos hk, ← hk]
      cases st.mapTxLocks[tx.getHash C.toHashes]? with
      | none => rfl
      | some lock => rfl
    · rw [if_neg hk]

theorem doConsensusVote_frame (tx : CTransaction) (nBlockHeight : Int32) :
    doConsensusVote env st tx nBlockHeight = st ∨
      ∃ ctx, doConsensusVote env st tx nBlockHeight =
        { st with mapTxLockVote := st.mapTxLockVote.insert (CConsensusVote.getHash ctx) ctx } := by
  unfold doConsensusVote
  split
  · exact .inl rfl
  · dsimp only
    split
    · exact .inl rfl
    · split
      · exact .inl rfl
      next ctx _ =>
        split
        · exact .inl rfl
        · exact .inr ⟨ctx, rfl⟩

/-! ## §4. Votes. -/

theorem addVote_votesOf (v : CConsensusVote) (k : UInt256) :
    (addVote env st v).votesOf k =
      if v.txHash = k then st.votesOf k ++ [v] else st.votesOf k := by
  unfold addVote IXState.votesOf IXState.core lockForVote
  dsimp only
  rw [get_insert]
  by_cases hk : v.txHash = k
  · rw [if_pos hk, if_pos hk, ← hk]
    cases st.mapTxLocks[v.txHash]? with
    | none => rfl
    | some lock => rfl
  · rw [if_neg hk, if_neg hk]

theorem lockRequest_frame (h : UInt256) (tx : CTransaction) :
    ∃ locks nComplete locked, lockRequest env st h tx = { st with
        mapTxLocks := locks, nCompleteTXLocks := nComplete, mapLockedInputs := locked } ∧
      (∀ k, (locks[k]?).map CTransactionLock.core = st.core k) ∧
      (locked = st.mapLockedInputs ∨ locked = lockInputs st.mapLockedInputs tx.vin h) := by
  obtain ⟨locks, he, hc⟩ := conflict_frame env st tx
  unfold lockRequest
  cases hb : checkForConflictingLocks env st tx with
  | mk st' b =>
    rw [hb] at he
    subst he
    cases b with
    | true => exact ⟨locks, st.nCompleteTXLocks, st.mapLockedInputs, rfl, hc, .inl rfl⟩
    | false => exact ⟨locks, _, _, rfl, hc, .inr rfl⟩

/-- What `ProcessConsensusVote` leaves behind for a valid vote: the vote in its
lock, and when that completes the lock, perhaps the inputs of its request
locked.  The request may be the empty transaction `operator[]` made. -/
structure VoteCounted (st st' : IXState) (v : CConsensusVote) : Prop where
  core : ∀ k, st'.core k = (addVote env st v).core k
  vote : st'.mapTxLockVote = st.mapTxLockVote
  rejected : st'.mapTxLockReqRejected = st.mapTxLockReqRejected
  req : st'.mapTxLockReq = st.mapTxLockReq ∨
    st'.mapTxLockReq = StdMap.insertNew st.mapTxLockReq v.txHash (requestOf env st v.txHash)
  locked : st'.mapLockedInputs = st.mapLockedInputs ∨
    ((addVote env st v).Complete v.txHash ∧
      st'.mapTxLockReq[v.txHash]? = some (requestOf env st v.txHash) ∧
      st'.mapLockedInputs =
        lockInputs st.mapLockedInputs (requestOf env st v.txHash).vin v.txHash)

theorem get_insertNew_requestOf (h : UInt256) :
    (StdMap.insertNew st.mapTxLockReq h (requestOf env st h))[h]? = some (requestOf env st h) := by
  rw [get_insertNew, if_pos rfl]
  unfold requestOf
  cases st.mapTxLockReq[h]? with
  | none => rfl
  | some tx => rfl

theorem processConsensusVote_counted (v : CConsensusVote) (hv : voteValid env v = true) :
    (processConsensusVote env st v).2 = true ∧
    VoteCounted env st (processConsensusVote env st v).1 v := by
  unfold processConsensusVote
  rw [hv, if_neg (by decide)]
  split
  next hq =>
    have hcomplete : (addVote env st v).Complete v.txHash :=
      ⟨_, get_insert_self _ _ _, hq⟩
    refine ⟨rfl, ?_⟩
    have hreq : requestOf env (addVote env st v) v.txHash = requestOf env st v.txHash := rfl
    obtain ⟨locks, nComplete, locked, he, hc, hl⟩ :=
      lockRequest_frame env (withRequest env (addVote env st v) v.txHash) v.txHash
        (requestOf env st v.txHash)
    have he' : completeLock env (addVote env st v) v.txHash = _ := he
    rw [he']
    refine ⟨hc, rfl, rfl, .inr rfl, ?_⟩
    rcases hl with hl | hl
    · exact .inl hl
    · exact .inr ⟨hcomplete, get_insertNew_requestOf env st v.txHash, hl⟩
  next => exact ⟨rfl, fun _ => rfl, rfl, rfl, .inl rfl, .inl rfl⟩

theorem relayVote_frame (v : CConsensusVote) :
    ∃ unknown, (relayVote env st v).1 = { st with mapUnknownVotes := unknown } := by
  unfold relayVote
  split
  · exact ⟨st.mapUnknownVotes, rfl⟩
  · exact ⟨_, rfl⟩

theorem processTxlvote_of_stale {st : IXState} (hf : voteFresh env st v = false) :
    (processTxlvote env st v).1 = st := by
  unfold processTxlvote
  rw [hf]
  rfl

theorem processTxlvote_of_invalid {st : IXState} (hf : voteFresh env st v = true)
    (hv : voteValid env v = false) :
    (processTxlvote env st v).1 = recordVote st v := by
  have hp : processConsensusVote env (recordVote st v) v = (recordVote st v, false) := by
    unfold processConsensusVote
    rw [hv]
    rfl
  unfold processTxlvote
  rw [hf, hp]
  rfl

theorem processTxlvote_of_valid {st : IXState} (hf : voteFresh env st v = true)
    (hv : voteValid env v = true) :
    ∃ st' unknown, VoteCounted env (recordVote st v) st' v ∧
      (processTxlvote env st v).1 = { st' with mapUnknownVotes := unknown } := by
  obtain ⟨hb, hc⟩ := processConsensusVote_counted env (recordVote st v) v hv
  unfold processTxlvote
  rw [hf, if_neg (by decide)]
  cases he : processConsensusVote env (recordVote st v) v with
  | mk st' b =>
    rw [he] at hb hc
    obtain rfl : b = true := hb
    obtain ⟨unknown, hu⟩ := relayVote_frame env st' v
    exact ⟨st', unknown, hc, hu⟩

theorem processTxlvote_votesOf (v : CConsensusVote) (k : UInt256) :
    (processTxlvote env st v).1.votesOf k =
      if voteFresh env st v = true ∧ voteValid env v = true ∧ v.txHash = k
      then st.votesOf k ++ [v] else st.votesOf k := by
  cases hf : voteFresh env st v with
  | false =>
    rw [processTxlvote_of_stale env hf]
    simp
  | true =>
    cases hv : voteValid env v with
    | false =>
      rw [processTxlvote_of_invalid env hf hv]
      simp
      rfl
    | true =>
      obtain ⟨st', unknown, hc, he⟩ := processTxlvote_of_valid env hf hv
      rw [he]
      show st'.votesOf k = _
      rw [votesOf_congr (hc.core k), addVote_votesOf]
      simp only [true_and]
      rfl

theorem processTxlvote_seen (v : CConsensusVote) :
    (processTxlvote env st v).1.mapTxLockVote =
      if voteFresh env st v = true then st.mapTxLockVote.insert v.getHash v
      else st.mapTxLockVote := by
  cases hf : voteFresh env st v with
  | false => rw [processTxlvote_of_stale env hf]; rfl
  | true =>
    cases hv : voteValid env v with
    | false => rw [processTxlvote_of_invalid env hf hv]; rfl
    | true =>
      obtain ⟨st', unknown, hc, he⟩ := processTxlvote_of_valid env hf hv
      rw [he]
      exact hc.vote

theorem processTxlvote_req {st : IXState} (hr : st.mapTxLockReq[h]? = some tx) :
    (processTxlvote env st v).1.mapTxLockReq[h]? = some tx := by
  cases hf : voteFresh env st v with
  | false => rw [processTxlvote_of_stale env hf]; exact hr
  | true =>
    cases hv : voteValid env v with
    | false => rw [processTxlvote_of_invalid env hf hv]; exact hr
    | true =>
      obtain ⟨st', unknown, hc, he⟩ := processTxlvote_of_valid env hf hv
      rw [he]
      show st'.mapTxLockReq[h]? = some tx
      rcases hc.req with heq | heq
      · rw [heq]; exact hr
      · rw [heq]; exact get_insertNew_of_some hr

theorem processTxlvote_lock {st : IXState} (hl : (st.core h).isSome = true) :
    ((processTxlvote env st v).1.core h).isSome = true := by
  cases hf : voteFresh env st v with
  | false => rw [processTxlvote_of_stale env hf]; exact hl
  | true =>
    cases hv : voteValid env v with
    | false => rw [processTxlvote_of_invalid env hf hv]; exact hl
    | true =>
      obtain ⟨st', unknown, hc, he⟩ := processTxlvote_of_valid env hf hv
      rw [he]
      show (st'.core h).isSome = true
      rw [hc.core]
      unfold addVote IXState.core
      dsimp only
      rw [get_insert]
      split
      · rfl
      · exact hl

/-- **The inputs a vote message locks**: those of a known request, to the
transaction of the vote, whose lock the vote completed. -/
theorem processTxlvote_locked {st : IXState} {o : COutPoint}
    (hl : (processTxlvote env st v).1.mapLockedInputs[o]? = some h) :
    st.mapLockedInputs[o]? = some h ∨
      (h = v.txHash ∧ (processTxlvote env st v).1.Complete h ∧
        ∃ tx, (processTxlvote env st v).1.mapTxLockReq[h]? = some tx ∧
          o ∈ tx.vin.map CTxIn.prevout) := by
  cases hf : voteFresh env st v with
  | false => rw [processTxlvote_of_stale env hf] at hl; exact .inl hl
  | true =>
    cases hv : voteValid env v with
    | false => rw [processTxlvote_of_invalid env hf hv] at hl; exact .inl hl
    | true =>
      obtain ⟨st', unknown, hc, he⟩ := processTxlvote_of_valid env hf hv
      rw [he] at hl ⊢
      replace hl : st'.mapLockedInputs[o]? = some h := hl
      rcases hc.locked with heq | ⟨hcomplete, hreq, heq⟩
      · rw [heq] at hl
        exact .inl hl
      rw [heq, get_lockInputs] at hl
      split at hl
      next ho =>
        cases hold : (recordVote st v).mapLockedInputs[o]? with
        | some k =>
          rw [hold] at hl
          cases hl
          exact .inl hold
        | none =>
          rw [hold] at hl
          cases hl
          exact .inr ⟨rfl, (complete_congr (hc.core v.txHash)).mpr hcomplete,
            _, hreq, ho⟩
      next => exact .inl hl

/-! ## §5. Lock requests. -/

/-- Every locked input of the request is locked to the request itself. -/
def NoConflict (vin : List CTxIn) (h : UInt256) : Prop :=
  ∀ txin ∈ vin, ∀ k, st.mapLockedInputs[txin.prevout]? = some k → k = h

theorem acceptTxlreq_frame (tx : CTransaction) (nBlockHeight : Int32) :
    ∃ votes : StdMap UInt256 CConsensusVote, acceptTxlreq env st tx nBlockHeight = { st with
        mapTxLockVote := votes,
        mapTxLockReq := StdMap.insertNew st.mapTxLockReq (tx.getHash C.toHashes) tx } ∧
      ∀ k : UInt256, (st.mapTxLockVote[k]?).isSome = true → (votes[k]?).isSome = true := by
  unfold acceptTxlreq
  rcases doConsensusVote_frame env st tx nBlockHeight with he | ⟨ctx, he⟩
  · rw [he]
    exact ⟨st.mapTxLockVote, rfl, fun _ h => h⟩
  · rw [he]
    refine ⟨_, rfl, fun k hk => ?_⟩
    rw [get_insert]
    split
    · rfl
    · exact hk

/-- A refused request locks its free inputs to itself; with a complete lock and
no conflict it still becomes a request. -/
theorem rejectTxlreq_frame (tx : CTransaction) :
    ∃ (locks : StdMap UInt256 CTransactionLock) (req : StdMap UInt256 CTransaction),
      rejectTxlreq env st tx = { st with
        mapTxLocks := locks, mapTxLockReq := req,
        mapTxLockReqRejected :=
          StdMap.insertNew st.mapTxLockReqRejected (tx.getHash C.toHashes) tx,
        mapLockedInputs := lockInputs st.mapLockedInputs tx.vin (tx.getHash C.toHashes) } ∧
      (∀ k, (locks[k]?).map CTransactionLock.core = st.core k) ∧
      (req = st.mapTxLockReq ∨ req = StdMap.insertNew st.mapTxLockReq (tx.getHash C.toHashes) tx) ∧
      (st.Complete (tx.getHash C.toHashes) → NoConflict st tx.vin (tx.getHash C.toHashes) →
        req = StdMap.insertNew st.mapTxLockReq (tx.getHash C.toHashes) tx) := by
  obtain ⟨locks, he, hc⟩ := conflict_frame env (lockRejected st tx (tx.getHash C.toHashes)) tx
  unfold rejectTxlreq
  split
  next hnone =>
    refine ⟨_, _, rfl, fun _ => rfl, .inl rfl, ?_⟩
    intro hq
    obtain ⟨lock, hlock, -⟩ := hq
    rw [hnone] at hlock
    cases hlock
  next lock hsome =>
    split
    next hq =>
      cases hb : checkForConflictingLocks env (lockRejected st tx (tx.getHash C.toHashes)) tx with
      | mk st' b =>
        rw [hb] at he
        subst he
        cases b with
        | true =>
          refine ⟨_, _, rfl, hc, .inl rfl, ?_⟩
          -- the check found an input locked to another transaction
          intro _ hno
          have hfalse : (checkForConflictingLocks env
              (lockRejected st tx (tx.getHash C.toHashes)) tx).2 = false := by
            rw [conflict_eq_false]
            intro txin htx k hk
            replace hk : (lockInputs st.mapLockedInputs tx.vin
              (tx.getHash C.toHashes))[txin.prevout]? = some k := hk
            rw [get_lockInputs, if_pos (mem_map_of_mem htx)] at hk
            cases hold : st.mapLockedInputs[txin.prevout]? with
            | none =>
              rw [hold] at hk
              cases hk
              rfl
            | some k' =>
              rw [hold] at hk
              cases hk
              exact hno txin htx k hold
          rw [hb] at hfalse
          cases hfalse
        | false => exact ⟨_, _, rfl, hc, .inr rfl, fun _ _ => rfl⟩
    next hq =>
      refine ⟨_, _, rfl, fun _ => rfl, .inl rfl, ?_⟩
      intro hcomplete
      obtain ⟨lock', hlock', hge⟩ := hcomplete
      rw [hsome] at hlock'
      cases hlock'
      exact absurd hge hq

/-- The request goes through to the memory pool, and is refused there. -/
def refused (tx : CTransaction) : Bool :=
  !txlreqDropped env st tx && !env.acceptToMemoryPool tx

theorem processTxlreq_of_refused {st : IXState} (hr : refused env st tx = true) :
    processTxlreq env st tx = rejectTxlreq env (createNewLock env st tx).1 tx := by
  obtain ⟨hd, ha⟩ := Bool.and_eq_true_iff.mp hr
  unfold processTxlreq
  rw [if_neg (by simpa using hd)]
  dsimp only
  rw [if_neg (by simpa using ha)]

theorem processTxlreq_of_not_refused {st : IXState} (hr : refused env st tx = false) :
    processTxlreq env st tx = st ∨
      ∃ votes : StdMap UInt256 CConsensusVote, processTxlreq env st tx =
        { (createNewLock env st tx).1 with
          mapTxLockVote := votes,
          mapTxLockReq := StdMap.insertNew (createNewLock env st tx).1.mapTxLockReq
            (tx.getHash C.toHashes) tx } ∧
        ∀ k : UInt256, ((createNewLock env st tx).1.mapTxLockVote[k]?).isSome = true →
          (votes[k]?).isSome = true := by
  unfold processTxlreq
  split
  next => exact .inl rfl
  next hd =>
    dsimp only
    split
    next => exact .inr (acceptTxlreq_frame env _ tx _)
    next ha =>
      unfold refused at hr
      rw [Bool.not_eq_true] at hd ha
      rw [hd, ha] at hr
      cases hr

theorem processTxlreq_votesOf (tx : CTransaction) (k : UInt256) :
    (processTxlreq env st tx).votesOf k = st.votesOf k := by
  cases hr : refused env st tx with
  | true =>
    obtain ⟨locks, req, he, hc, -, -⟩ := rejectTxlreq_frame env (createNewLock env st tx).1 tx
    rw [processTxlreq_of_refused env hr, he, ← createNewLock_votesOf env st tx k]
    exact votesOf_congr (hc k)
  | false =>
    rcases processTxlreq_of_not_refused env hr with he | ⟨votes, he, -⟩
    · rw [he]
    · rw [he, ← createNewLock_votesOf env st tx k]
      rfl

theorem processTxlreq_seen {st : IXState} {k : UInt256}
    (hk : (st.mapTxLockVote[k]?).isSome = true) :
    ((processTxlreq env st tx).mapTxLockVote[k]?).isSome = true := by
  obtain ⟨locks, hl⟩ := createNewLock_frame env st tx
  cases hr : refused env st tx with
  | true =>
    obtain ⟨_, _, he, -⟩ := rejectTxlreq_frame env (createNewLock env st tx).1 tx
    rw [processTxlreq_of_refused env hr, he, hl]
    exact hk
  | false =>
    rcases processTxlreq_of_not_refused env hr with he | ⟨votes, he, hmono⟩
    · rw [he]; exact hk
    · rw [he]
      exact hmono k (by rw [hl]; exact hk)

theorem processTxlreq_req {st : IXState} {tx' : CTransaction}
    (hk : st.mapTxLockReq[h]? = some tx') :
    (processTxlreq env st tx).mapTxLockReq[h]? = some tx' := by
  obtain ⟨locks, hl⟩ := createNewLock_frame env st tx
  cases hr : refused env st tx with
  | true =>
    obtain ⟨_, req, he, -, hreq, -⟩ := rejectTxlreq_frame env (createNewLock env st tx).1 tx
    rw [processTxlreq_of_refused env hr, he]
    show req[h]? = some tx'
    rcases hreq with heq | heq
    · rw [heq, hl]; exact hk
    · rw [heq, hl]; exact get_insertNew_of_some hk
  | false =>
    rcases processTxlreq_of_not_refused env hr with he | ⟨votes, he, -⟩
    · rw [he]; exact hk
    · rw [he, hl]
      exact get_insertNew_of_some hk

theorem createNewLock_lock {st : IXState} (hk : (st.core h).isSome = true) :
    ((createNewLock env st tx).1.core h).isSome = true := by
  unfold createNewLock
  dsimp only
  split
  · exact hk
  · unfold IXState.core
    dsimp only
    rw [get_insert]
    split
    · rfl
    · exact hk

theorem processTxlreq_lock {st : IXState} (hk : (st.core h).isSome = true) :
    ((processTxlreq env st tx).core h).isSome = true := by
  have hk' : ((createNewLock env st tx).1.core h).isSome = true := createNewLock_lock env hk
  cases hr : refused env st tx with
  | true =>
    obtain ⟨locks, req, he, hc, -, -⟩ := rejectTxlreq_frame env (createNewLock env st tx).1 tx
    rw [processTxlreq_of_refused env hr, he]
    show ((locks[h]?).map CTransactionLock.core).isSome = true
    rw [hc]
    exact hk'
  | false =>
    rcases processTxlreq_of_not_refused env hr with he | ⟨votes, he, -⟩
    · rw [he]; exact hk
    · rw [he]
      exact hk'

/-- **The inputs a lock request locks**: a refused one locks its free inputs to
itself, and no other one locks any. -/
theorem processTxlreq_locked (tx : CTransaction) (o : COutPoint) :
    (processTxlreq env st tx).mapLockedInputs[o]? =
      if refused env st tx = true ∧ o ∈ tx.vin.map CTxIn.prevout
      then (st.mapLockedInputs[o]?).or (some (tx.getHash C.toHashes))
      else st.mapLockedInputs[o]? := by
  obtain ⟨locks, hl⟩ := createNewLock_frame env st tx
  cases hr : refused env st tx with
  | true =>
    obtain ⟨_, _, he, -⟩ := rejectTxlreq_frame env (createNewLock env st tx).1 tx
    rw [processTxlreq_of_refused env hr, he, hl]
    show (lockInputs st.mapLockedInputs tx.vin (tx.getHash C.toHashes))[o]? = _
    rw [get_lockInputs]
    simp only [true_and]
  | false =>
    rw [if_neg (by simp)]
    rcases processTxlreq_of_not_refused env hr with he | ⟨votes, he, -⟩
    · rw [he]
    · rw [he, hl]

/-! ## §6. Expiry. -/

variable {st : IXState} {l : List (UInt256 × CTransactionLock)}

theorem removeLock_locks (st : IXState) (entry : UInt256 × CTransactionLock) :
    (removeLock st entry).mapTxLocks = st.mapTxLocks.erase entry.1 := by
  unfold removeLock
  split <;> rfl

theorem removeLock_req (st : IXState) (entry : UInt256 × CTransactionLock) (h : UInt256) :
    (removeLock st entry).mapTxLockReq[h]? =
      if entry.2.txHash = h then none else st.mapTxLockReq[h]? := by
  unfold removeLock
  split
  next hnone =>
    by_cases hh : entry.2.txHash = h
    · rw [if_pos hh, ← hh]
      exact hnone
    · rw [if_neg hh]
  next tx _ => exact get_erase st.mapTxLockReq entry.2.txHash h

theorem removeLock_locked (st : IXState) (entry : UInt256 × CTransactionLock) (o : COutPoint) :
    (removeLock st entry).mapLockedInputs[o]? =
      if ∃ tx, st.mapTxLockReq[entry.2.txHash]? = some tx ∧ o ∈ tx.vin.map CTxIn.prevout
      then none else st.mapLockedInputs[o]? := by
  unfold removeLock
  split
  next hnone =>
    rw [if_neg]
    intro h
    obtain ⟨tx, htx, -⟩ := h
    rw [hnone] at htx
    cases htx
  next tx hsome =>
    show (StdMap.eraseAll st.mapLockedInputs (tx.vin.map CTxIn.prevout))[o]? = _
    rw [get_eraseAll]
    by_cases ho : o ∈ tx.vin.map CTxIn.prevout
    · rw [if_pos ho, if_pos ⟨tx, hsome, ho⟩]
    · rw [if_neg ho, if_neg]
      intro h
      obtain ⟨tx', htx', ho'⟩ := h
      rw [hsome] at htx'
      cases htx'
      exact ho ho'

theorem removeLock_seen {st : IXState} {entry : UInt256 × CTransactionLock} {k : UInt256}
    (hk : k ∉ entry.2.vecConsensusVotes.map CConsensusVote.getHash) :
    (removeLock st entry).mapTxLockVote[k]? = st.mapTxLockVote[k]? := by
  unfold removeLock
  split
  next => rfl
  next tx _ =>
    show (StdMap.eraseAll st.mapTxLockVote _)[k]? = _
    rw [get_eraseAll, if_neg hk]

theorem removeLocks_locks (h : UInt256) :
    (l.foldl removeLock st).mapTxLocks[h]? =
      if h ∈ l.map Prod.fst then none else st.mapTxLocks[h]? := by
  induction l generalizing st with
  | nil => rfl
  | cons entry l ih =>
    rw [foldl_cons, ih, removeLock_locks, get_erase, map_cons]
    by_cases h1 : h ∈ l.map Prod.fst
    · rw [if_pos h1, if_pos (mem_cons_of_mem _ h1)]
    · rw [if_neg h1]
      by_cases h2 : entry.1 = h
      · rw [if_pos h2, if_pos (by simp [h2])]
      · rw [if_neg h2, if_neg (by simp [Ne.symm h2, h1])]

theorem removeLocks_req (h : UInt256) :
    (l.foldl removeLock st).mapTxLockReq[h]? =
      if h ∈ l.map (fun entry => entry.2.txHash) then none else st.mapTxLockReq[h]? := by
  induction l generalizing st with
  | nil => rfl
  | cons entry l ih =>
    rw [foldl_cons, ih, removeLock_req, map_cons]
    by_cases h1 : h ∈ l.map (fun entry => entry.2.txHash)
    · rw [if_pos h1, if_pos (mem_cons_of_mem _ h1)]
    · rw [if_neg h1]
      by_cases h2 : entry.2.txHash = h
      · rw [if_pos h2, if_pos (by simp [h2])]
      · rw [if_neg h2, if_neg (by simp [Ne.symm h2, h1])]

def SpentByRequest (st : IXState) (l : List (UInt256 × CTransactionLock)) (o : COutPoint) : Prop :=
  ∃ entry ∈ l, ∃ tx, st.mapTxLockReq[entry.2.txHash]? = some tx ∧ o ∈ tx.vin.map CTxIn.prevout

theorem removeLocks_locked (o : COutPoint) [Decidable (SpentByRequest st l o)] :
    (l.foldl removeLock st).mapLockedInputs[o]? =
      if SpentByRequest st l o then none else st.mapLockedInputs[o]? := by
  classical
  induction l generalizing st with
  | nil =>
    rw [if_neg]
    · rfl
    · intro h
      obtain ⟨entry, hmem, -⟩ := h
      cases hmem
  | cons entry l ih =>
    rw [foldl_cons, ih, removeLock_locked]
    -- an input of a later lock with the request of `entry` is an input of `entry`
    have hsplit : SpentByRequest st (entry :: l) o ↔
        SpentByRequest (removeLock st entry) l o ∨
          ∃ tx, st.mapTxLockReq[entry.2.txHash]? = some tx ∧ o ∈ tx.vin.map CTxIn.prevout := by
      constructor
      · intro h
        obtain ⟨e, hmem, tx, htx, ho⟩ := h
        rcases mem_cons.mp hmem with rfl | hmem
        · exact .inr ⟨tx, htx, ho⟩
        · by_cases he : entry.2.txHash = e.2.txHash
          · exact .inr ⟨tx, by rw [he]; exact htx, ho⟩
          · exact .inl ⟨e, hmem, tx, by rw [removeLock_req, if_neg he]; exact htx, ho⟩
      · intro h
        rcases h with ⟨e, hmem, tx, htx, ho⟩ | h
        · rw [removeLock_req] at htx
          split at htx
          · cases htx
          · exact ⟨e, mem_cons_of_mem _ hmem, tx, htx, ho⟩
        · exact ⟨entry, mem_cons_self, h⟩
    by_cases h1 : SpentByRequest (removeLock st entry) l o
    · rw [if_pos h1, if_pos (hsplit.mpr (.inl h1))]
    · rw [if_neg h1]
      by_cases h2 : ∃ tx, st.mapTxLockReq[entry.2.txHash]? = some tx ∧
          o ∈ tx.vin.map CTxIn.prevout
      · rw [if_pos h2, if_pos (hsplit.mpr (.inr h2))]
      · rw [if_neg h2, if_neg (fun h => (hsplit.mp h).elim h1 h2)]

theorem removeLocks_seen {k : UInt256}
    (hk : ∀ entry ∈ l, k ∉ entry.2.vecConsensusVotes.map CConsensusVote.getHash) :
    (l.foldl removeLock st).mapTxLockVote[k]? = st.mapTxLockVote[k]? := by
  induction l generalizing st with
  | nil => rfl
  | cons entry l ih =>
    rw [foldl_cons, ih fun e he => hk e (mem_cons_of_mem _ he),
      removeLock_seen (hk entry mem_cons_self)]

theorem mem_expiredLocks {st : IXState} {lock : CTransactionLock} :
    (h, lock) ∈ env.expiredLocks st ↔
      st.mapTxLocks[h]? = some lock ∧ env.expired lock = true := by
  unfold IXEnv.expiredLocks
  rw [mem_filter, Std.ExtTreeMap.mem_toList_iff_getElem?_eq_some]

theorem clean_eq (hbest : env.noBestBlock = false) (st : IXState) :
    (cleanTransactionLocksList env st).1 = (env.expiredLocks st).foldl removeLock st := by
  unfold cleanTransactionLocksList
  rw [hbest]
  rfl

theorem clean_votesOf (hbest : env.noBestBlock = false) (st : IXState) (h : UInt256) :
    (cleanTransactionLocksList env st).1.votesOf h =
      if h ∈ (env.expiredLocks st).map Prod.fst then [] else st.votesOf h := by
  unfold IXState.votesOf IXState.core
  rw [clean_eq env hbest, removeLocks_locks]
  split <;> rfl

theorem clean_locks (hbest : env.noBestBlock = false) (st : IXState) (h : UInt256)
    (lock : CTransactionLock) :
    (cleanTransactionLocksList env st).1.mapTxLocks[h]? = some lock ↔
      st.mapTxLocks[h]? = some lock ∧ env.expired lock = false := by
  rw [clean_eq env hbest, removeLocks_locks]
  constructor
  · intro hl
    split at hl
    · cases hl
    next hnot =>
      refine ⟨hl, ?_⟩
      rw [Bool.eq_false_iff]
      intro hexp
      exact hnot (mem_map.mpr ⟨(h, lock), (mem_expiredLocks env).mpr ⟨hl, hexp⟩, rfl⟩)
  · intro hl
    obtain ⟨hl, hexp⟩ := hl
    rw [if_neg]
    · exact hl
    · intro hmem
      obtain ⟨entry, hentry, he⟩ := mem_map.mp hmem
      obtain ⟨k, lock'⟩ := entry
      cases he
      obtain ⟨hl', hexp'⟩ := (mem_expiredLocks env).mp hentry
      rw [hl] at hl'
      cases hl'
      rw [hexp] at hexp'
      cases hexp'

end Fantom.InstantX
