/-
  Fantom.InstantX.Completion — When a lock request and its votes lock the inputs, in any order of
  delivery.

  * `completion_iff` — the inputs are locked when a vote that counts comes after the request and the
    votes are enough,
  * `completion_lost` — fifteen votes, then the request.

  A lock is looked at for completeness when a vote is counted, and at no other time.
-/
import Fantom.InstantX.Quorum
import Fantom.InstantX.Votes

namespace Fantom.InstantX

open Core Lib Spork Blanknode List StdMap Bool

variable {C : Crypto} (env : IXEnv C)

/-! ## §1. Messages. -/

variable (tx : CTransaction)

/-- The height that `CreateNewLock` gives to the lock of a request. -/
def IXEnv.lockHeight : Int32 :=
  (env.nBestHeight - (tx.vin.map env.getInputAge).headD 0) + 4

/-- A lock request that is valid, whose inputs are old enough, and that
`AcceptToMemoryPool` accepts. -/
structure GoodRequest (tx : CTransaction) : Prop where
  enabled : env.enabled = true
  valid : isIXTXValid env tx = true
  normal : ∀ txout ∈ tx.vout, CScript.isNormalPaymentScript txout.scriptPubKey = true
  old : ∀ txin ∈ tx.vin, 6 ≤ env.getInputAge txin
  height : env.lockHeight tx ≠ 0
  inputs : tx.vin ≠ []
  accepted : env.acceptToMemoryPool tx = true

/-- A valid vote of a blanknode of sufficient rank, for this transaction and height. -/
structure GoodVote (h : UInt256) (nBlockHeight : Int32) (v : CConsensusVote) : Prop where
  enabled : env.enabled = true
  valid : voteValid env v = true
  txHash : v.txHash = h
  height : v.nBlockHeight = nBlockHeight

/-- The state knows nothing of a transaction and these votes yet. -/
structure Unknown (st : IXState) (h : UInt256) (vin : List CTxIn) (votes : List CConsensusVote) :
    Prop where
  lock : st.mapTxLocks[h]? = none
  request : st.mapTxLockReq[h]? = none
  rejected : st.mapTxLockReqRejected[h]? = none
  free : ∀ txin ∈ vin, st.mapLockedInputs[txin.prevout]? = none
  unseen : ∀ v ∈ votes, st.mapTxLockVote[v.getHash]? = none

/-- Vote messages, each in the environment that it meets. -/
def voteEvents (votes : List (IXEnv C × CConsensusVote)) : List (IXEnv C × IXEvent) :=
  votes.map fun d => (d.1, .txlvote d.2)

/-- A delivery of a request and votes: some votes before it, the others after it. -/
def delivery (before after : List (IXEnv C × CConsensusVote)) : List (IXEnv C × IXEvent) :=
  voteEvents before ++ (env, .txlreq tx) :: voteEvents after

/-- The vote that `DoConsensusVote` records, if this node makes one. -/
def ownVote (nBlockHeight : Int32) : Option CConsensusVote :=
  if !env.fBlankNode then none
  else if env.rank env.activeBlanknodeVin nBlockHeight = -1 ∨
      env.rank env.activeBlanknodeVin nBlockHeight > INSTANTX_SIGNATURES_TOTAL then none
  else (CConsensusVote.sign env
    ⟨env.activeBlanknodeVin, tx.getHash C.toHashes, nBlockHeight, []⟩).filter fun ctx =>
      ctx.signatureValid env

variable (st : IXState)

theorem doConsensusVote_eq (tx : CTransaction) (nBlockHeight : Int32) :
    doConsensusVote env st tx nBlockHeight =
      match ownVote env tx nBlockHeight with
      | none => st
      | some ctx => { st with mapTxLockVote := st.mapTxLockVote.insert ctx.getHash ctx } := by
  unfold doConsensusVote ownVote
  split
  · rfl
  dsimp only
  split
  · rfl
  cases CConsensusVote.sign env
      ⟨env.activeBlanknodeVin, tx.getHash C.toHashes, nBlockHeight, []⟩ with
  | none => rfl
  | some ctx =>
    rw [Option.filter_some]
    dsimp only
    cases ctx.signatureValid env with
    | false => rfl
    | true => rfl

variable (v : CConsensusVote)

/-- The node's own vote has the hash of this vote, so that the vote is not looked at any
more. -/
def shadowed : Bool :=
  (ownVote env tx (env.lockHeight tx)).any fun own => own.getHash == v.getHash

/-- The votes after the request that are counted. -/
def countedVotes (after : List (IXEnv C × CConsensusVote)) : List CConsensusVote :=
  (after.map Prod.snd).filter fun v => !shadowed env tx v

/-- Enough votes, and one that counts comes after the request. -/
def CompletedByVote (before after : List (IXEnv C × CConsensusVote)) : Prop :=
  countedVotes env tx after ≠ [] ∧
    INSTANTX_SIGNATURES_REQUIRED ≤ before.length + (countedVotes env tx after).length

instance (tx : CTransaction) (before after : List (IXEnv C × CConsensusVote)) :
    Decidable (CompletedByVote env tx before after) :=
  inferInstanceAs (Decidable (_ ∧ _))

/-! ## §2. One vote. -/

/-- What the lock of a transaction has: its height, its transaction and its votes. -/
def IXState.lockOf (h : UInt256) : Int32 × UInt256 × List CConsensusVote :=
  (st.core h).getD (0, h, [])

theorem lockForVote_core : (lockForVote env st v).core = st.lockOf v.txHash := by
  unfold lockForVote IXState.lockOf IXState.core
  cases st.mapTxLocks[v.txHash]? with
  | none => rfl
  | some lock => rfl

/-- The signatures of the lock of a vote, with the vote. -/
def IXState.countWith : Int :=
  if (st.lockOf v.txHash).1 = 0 then -1
  else ((st.lockOf v.txHash).2.2 ++ [v]).countP fun w => w.nBlockHeight == (st.lockOf v.txHash).1

theorem countSignatures_addSignature :
    ((lockForVote env st v).addSignature v).countSignatures = st.countWith v := by
  rw [IXState.countWith, ← lockForVote_core env st v]
  rfl

theorem lockOf_addVote : (addVote env st v).lockOf v.txHash =
    ((st.lockOf v.txHash).1, (st.lockOf v.txHash).2.1, (st.lockOf v.txHash).2.2 ++ [v]) := by
  rw [← lockForVote_core env st v]
  unfold IXState.lockOf IXState.core addVote
  dsimp only
  rw [get_insert, if_pos rfl]
  rfl

variable {env}

variable {st : IXState} {v : CConsensusVote} {tx : CTransaction}

theorem processTxlvote_lockOf (hf : voteFresh env st v = true) (hv : voteValid env v = true) :
    (processTxlvote env st v).1.lockOf v.txHash =
      ((st.lockOf v.txHash).1, (st.lockOf v.txHash).2.1, (st.lockOf v.txHash).2.2 ++ [v]) := by
  obtain ⟨st', unknown, hc, he⟩ := processTxlvote_of_valid env hf hv
  rw [he]
  refine Eq.trans ?_ (lockOf_addVote env (recordVote st v) v)
  unfold IXState.lockOf
  rw [← hc.core]
  rfl

/-- **A vote that does not complete its lock** leaves requests and inputs alone. -/
theorem processTxlvote_incomplete (hf : voteFresh env st v = true) (hv : voteValid env v = true)
    (hcount : st.countWith v < INSTANTX_SIGNATURES_REQUIRED) :
    (processTxlvote env st v).1.mapTxLockReq = st.mapTxLockReq ∧
      (processTxlvote env st v).1.mapTxLockReqRejected = st.mapTxLockReqRejected ∧
      (processTxlvote env st v).1.mapLockedInputs = st.mapLockedInputs := by
  have hprocess : processConsensusVote env (recordVote st v) v =
      (addVote env (recordVote st v) v, true) := by
    rw [processConsensusVote, hv, if_neg (by decide), if_neg]
    rw [countSignatures_addSignature]
    exact Int.not_le.mpr hcount
  rw [processTxlvote, hf, hprocess]
  obtain ⟨unknown, hu⟩ := relayVote_frame env (addVote env (recordVote st v) v) v
  rw [if_neg (by decide)]
  dsimp only
  rw [hu]
  exact ⟨rfl, rfl, rfl⟩

/-- **A vote that completes its lock** locks the inputs of the request, which is known. -/
theorem processTxlvote_complete (hf : voteFresh env st v = true) (hv : voteValid env v = true)
    (hcount : INSTANTX_SIGNATURES_REQUIRED ≤ st.countWith v)
    (hreq : st.mapTxLockReq[v.txHash]? = some tx)
    (hfree : NoConflict st tx.vin (tx.getHash C.toHashes)) :
    (processTxlvote env st v).1.mapLockedInputs =
      lockInputs st.mapLockedInputs tx.vin v.txHash := by
  have hprocess : processConsensusVote env (recordVote st v) v =
      (completeLock env (addVote env (recordVote st v) v) v.txHash, true) := by
    rw [processConsensusVote, hv, if_neg (by decide), if_pos]
    rw [countSignatures_addSignature]
    exact hcount
  have hrequest : requestOf env (addVote env (recordVote st v) v) v.txHash = tx := by
    unfold requestOf
    exact congrArg (Option.getD · _) hreq
  have hlocked : (completeLock env (addVote env (recordVote st v) v) v.txHash).mapLockedInputs =
      lockInputs st.mapLockedInputs tx.vin v.txHash := by
    unfold completeLock lockRequest
    rw [hrequest]
    have hnone : (checkForConflictingLocks env
        (withRequest env (addVote env (recordVote st v) v) v.txHash) tx).2 = false :=
      (conflict_eq_false env).mpr hfree
    obtain ⟨locks, he, _⟩ := conflict_frame env
      (withRequest env (addVote env (recordVote st v) v) v.txHash) tx
    cases hcheck : checkForConflictingLocks env
        (withRequest env (addVote env (recordVote st v) v) v.txHash) tx with
    | mk st' b =>
      rw [hcheck] at hnone he
      obtain rfl : b = false := hnone
      obtain rfl : st' = _ := he
      rfl
  rw [processTxlvote, hf, hprocess]
  obtain ⟨unknown, hu⟩ := relayVote_frame env
    (completeLock env (addVote env (recordVote st v) v) v.txHash) v
  rw [if_neg (by decide)]
  dsimp only
  rw [hu]
  exact hlocked

theorem voteFresh_iff (henabled : env.enabled = true) :
    voteFresh env st v = !st.mapTxLockVote.contains v.getHash := by
  rw [voteFresh, henabled, Bool.true_and]

/-! ## §3. Before the request. -/

variable {h : UInt256} {n : Int32} {vin : List CTxIn} {votes rest : List CConsensusVote}
  {st : IXState}

/-- The votes `votes` are in the lock, which has no height yet, and `rest` is to come. -/
structure Collecting (st : IXState) (h : UInt256) (vin : List CTxIn)
    (votes rest : List CConsensusVote) : Prop where
  lock : st.lockOf h = (0, h, votes)
  request : st.mapTxLockReq[h]? = none
  rejected : st.mapTxLockReqRejected[h]? = none
  free : ∀ txin ∈ vin, st.mapLockedInputs[txin.prevout]? = none
  unseen : ∀ v ∈ rest, st.mapTxLockVote[v.getHash]? = none

theorem Unknown.collecting (hst : Unknown st h vin rest) : Collecting st h vin [] rest where
  lock := by
    unfold IXState.lockOf IXState.core
    rw [hst.lock]
    rfl
  request := hst.request
  rejected := hst.rejected
  free := hst.free
  unseen := hst.unseen

theorem get_seen {w : CConsensusVote} (hf : voteFresh env st v = true)
    (hne : v.getHash ≠ w.getHash) :
    (processTxlvote env st v).1.mapTxLockVote[w.getHash]? = st.mapTxLockVote[w.getHash]? := by
  rw [processTxlvote_seen, if_pos hf, get_insert, if_neg hne]

/-- **One vote before the request** joins the others and completes nothing. -/
theorem Collecting.vote (hst : Collecting st h vin votes (v :: rest)) (hgood : GoodVote env h n v)
    (hnew : v.getHash ∉ rest.map CConsensusVote.getHash) :
    Collecting (processTxlvote env st v).1 h vin (votes ++ [v]) rest := by
  have hf : voteFresh env st v = true := by
    rw [voteFresh_iff hgood.enabled, contains_eq_false_iff.mpr
      (hst.unseen v mem_cons_self)]
    rfl
  have hlock := hst.lock
  rw [← hgood.txHash] at hlock
  have hcount : st.countWith v < INSTANTX_SIGNATURES_REQUIRED := by
    rw [IXState.countWith, hlock, if_pos rfl]
    decide
  obtain ⟨hreq, hrejected, hlocked⟩ := processTxlvote_incomplete hf hgood.valid hcount
  constructor
  · rw [← hgood.txHash, processTxlvote_lockOf hf hgood.valid, hlock]
  · rw [hreq]
    exact hst.request
  · rw [hrejected]
    exact hst.rejected
  · rw [hlocked]
    exact hst.free
  · intro w hw
    rw [get_seen hf fun heq => hnew (mem_map.mpr ⟨w, hw, heq.symm⟩)]
    exact hst.unseen w (mem_cons_of_mem v hw)

theorem collected {before : List (IXEnv C × CConsensusVote)}
    (hst : Collecting st h vin votes (before.map Prod.snd ++ rest))
    (hgood : ∀ d ∈ before, GoodVote d.1 h n d.2)
    (hnodup : ((before.map Prod.snd ++ rest).map CConsensusVote.getHash).Nodup) :
    Collecting (run ixStep st (voteEvents before)) h vin (votes ++ before.map Prod.snd) rest := by
  induction before generalizing st votes with
  | nil =>
    rw [map_nil, append_nil]
    exact hst
  | cons d before ih =>
    rw [map_cons, cons_append, map_cons, nodup_cons] at hnodup
    rw [forall_mem_cons] at hgood
    have hstep := hst.vote hgood.1 hnodup.1
    have hrest := ih hstep hgood.2 hnodup.2
    rw [append_assoc] at hrest
    exact hrest

/-! ## §4. The request and the votes after it. -/

/-- The request is known, its lock has the height `n` and the votes `votes`, and its inputs
are locked when `fDone`; of `rest`, which is to come, the hashes of some votes are
recorded. -/
structure Requested (st : IXState) (tx : CTransaction) (h : UInt256) (n : Int32)
    (votes rest : List CConsensusVote) (seen : CConsensusVote → Bool) (fDone : Bool) : Prop where
  lock : st.lockOf h = (n, h, votes)
  request : st.mapTxLockReq[h]? = some tx
  locked : ∀ txin ∈ tx.vin, st.mapLockedInputs[txin.prevout]? = if fDone then some h else none
  seen : ∀ v ∈ rest, st.mapTxLockVote.contains v.getHash = seen v

theorem GoodRequest.not_dropped (hgood : GoodRequest env tx)
    (hst : Collecting st (tx.getHash C.toHashes) vin votes rest) :
    txlreqDropped env st tx = false := by
  unfold txlreqDropped
  dsimp only
  rw [hgood.enabled, hgood.valid, contains_eq_false_iff.mpr hst.request,
    contains_eq_false_iff.mpr hst.rejected]
  simpa using hgood.normal

theorem GoodRequest.createNewLock_lockOf (hgood : GoodRequest env tx)
    (hst : Collecting st (tx.getHash C.toHashes) vin votes rest) :
    (createNewLock env st tx).1.lockOf (tx.getHash C.toHashes) =
        (env.lockHeight tx, tx.getHash C.toHashes, votes) ∧
      (createNewLock env st tx).2 = env.lockHeight tx := by
  have hages : ¬(tx.vin.map env.getInputAge).any (· < 6) = true := by
    rw [any_map, any_eq_true]
    rintro ⟨txin, hin, hyoung⟩
    exact Int32.not_le.mpr (of_decide_eq_true hyoung) (hgood.old txin hin)
  have hlock := hst.lock
  unfold IXState.lockOf IXState.core at hlock ⊢
  unfold createNewLock
  dsimp only
  rw [if_neg hages]
  dsimp only
  rw [get_insert, if_pos rfl]
  cases hold : st.mapTxLocks[tx.getHash C.toHashes]? with
  | none =>
    rw [hold] at hlock
    cases hlock
    exact ⟨rfl, rfl⟩
  | some lock =>
    rw [hold] at hlock
    obtain ⟨_, hrest⟩ := Prod.mk.inj (show lock.core = _ from hlock)
    obtain ⟨hhash, hvotes⟩ := Prod.mk.inj hrest
    refine ⟨?_, rfl⟩
    show (_, lock.txHash, lock.vecConsensusVotes) = _
    rw [hhash, hvotes]
    rfl

/-- **The request** gives the lock its height, and locks nothing. -/
theorem Collecting.txlreq (hgood : GoodRequest env tx)
    (hst : Collecting st (tx.getHash C.toHashes) tx.vin votes rest) :
    Requested (processTxlreq env st tx) tx (tx.getHash C.toHashes) (env.lockHeight tx) votes rest
      (shadowed env tx) false := by
  obtain ⟨hlock, hheight⟩ := hgood.createNewLock_lockOf hst
  obtain ⟨locks, hframe⟩ := createNewLock_frame env st tx
  have hstate : processTxlreq env st tx =
      acceptTxlreq env (createNewLock env st tx).1 tx (env.lockHeight tx) := by
    rw [processTxlreq, hgood.not_dropped hst, if_neg (by decide), ← hheight]
    dsimp only
    rw [if_pos hgood.accepted]
  rw [hstate]
  rw [acceptTxlreq, doConsensusVote_eq]
  rw [hframe] at hlock ⊢
  have hrequest : (StdMap.insertNew st.mapTxLockReq (tx.getHash C.toHashes) tx)[
      tx.getHash C.toHashes]? = some tx := by
    rw [get_insertNew, if_pos rfl, hst.request]
    rfl
  have hunseen : ∀ v ∈ rest, st.mapTxLockVote.contains v.getHash = false := fun v hv =>
    contains_eq_false_iff.mpr (hst.unseen v hv)
  unfold shadowed
  cases hown : ownVote env tx (env.lockHeight tx) with
  | none => exact ⟨hlock, hrequest, hst.free, hunseen⟩
  | some ctx =>
    refine ⟨hlock, hrequest, hst.free, fun v hv => ?_⟩
    dsimp only
    rw [Option.any_some, Std.ExtTreeMap.contains_insert, hunseen v hv, Bool.or_false,
      Bool.eq_iff_iff, beq_iff_eq, beq_iff_eq, Std.compare_eq_iff_eq]

theorem Requested.stale {seen : CConsensusVote → Bool} {fDone : Bool}
    (hst : Requested st tx h n votes (v :: rest) seen fDone) (hseen : seen v = true) :
    Requested (processTxlvote env st v).1 tx h n votes rest seen fDone := by
  have hf : voteFresh env st v = false := by
    rw [voteFresh, hst.seen v mem_cons_self, hseen, Bool.not_true, Bool.and_false]
  rw [processTxlvote_of_stale env hf]
  exact ⟨hst.lock, hst.request, hst.locked, fun w hw => hst.seen w (mem_cons_of_mem v hw)⟩

/-- **A vote that is counted** leaves the inputs locked when the votes are enough. -/
theorem Requested.vote {seen : CConsensusVote → Bool} {fDone : Bool}
    (hst : Requested st tx h n votes (v :: rest) seen fDone) (hn : n ≠ 0)
    (hh : tx.getHash C.toHashes = h) (hgood : GoodVote env h n v)
    (hnew : v.getHash ∉ rest.map CConsensusVote.getHash) (hseen : seen v = false)
    (hheights : ∀ w ∈ votes, w.nBlockHeight = n)
    (hdone : fDone = true → INSTANTX_SIGNATURES_REQUIRED ≤ votes.length) :
    Requested (processTxlvote env st v).1 tx h n (votes ++ [v]) rest seen
      (decide (INSTANTX_SIGNATURES_REQUIRED ≤ (votes ++ [v]).length)) := by
  have hf : voteFresh env st v = true := by
    rw [voteFresh_iff hgood.enabled, hst.seen v mem_cons_self, hseen]
    rfl
  have hlock := hst.lock
  rw [← hgood.txHash] at hlock
  have hcount : st.countWith v = (votes ++ [v]).length := by
    rw [IXState.countWith, hlock, if_neg hn, countP_eq_length.mpr]
    simp only [beq_iff_eq]
    exact forall_mem_append.mpr ⟨hheights, forall_mem_singleton.mpr hgood.height⟩
  constructor
  · rw [← hgood.txHash, processTxlvote_lockOf hf hgood.valid, hlock]
  · exact processTxlvote_req env hst.request
  · by_cases henough : INSTANTX_SIGNATURES_REQUIRED ≤ (votes ++ [v]).length
    · have hconflict : NoConflict st tx.vin (tx.getHash C.toHashes) := by
        intro txin hin k hk
        rw [hst.locked txin hin] at hk
        cases fDone with
        | false => cases hk
        | true =>
          cases hk
          exact hh.symm
      have hrequest := hst.request
      rw [← hgood.txHash] at hrequest
      rw [← hcount] at henough
      rw [processTxlvote_complete hf hgood.valid henough hrequest hconflict, hcount.symm,
        decide_eq_true henough]
      intro txin hin
      rw [get_lockInputs, if_pos (mem_map_of_mem hin), hst.locked txin hin, hgood.txHash]
      cases fDone with
      | false => rfl
      | true => rfl
    · have hnot : fDone = false := by
        rw [eq_false_iff]
        intro hd
        have hold := hdone hd
        rw [length_append] at henough
        omega
      rw [decide_eq_false henough, ← hnot]
      rw [← hcount] at henough
      rw [(processTxlvote_incomplete hf hgood.valid (Int.not_le.mp henough)).2.2]
      exact hst.locked
  · intro w hw
    have hne : v.getHash ≠ w.getHash := fun heq =>
      hnew (mem_map.mpr ⟨w, hw, heq.symm⟩)
    rw [processTxlvote_seen, if_pos hf, Std.ExtTreeMap.contains_insert,
      hst.seen w (mem_cons_of_mem v hw)]
    have hcompare : (compare v.getHash w.getHash == .eq) = false := by
      rw [eq_false_iff]
      simpa using hne
    rw [hcompare, Bool.false_or]

/-- Whether the inputs are locked after the votes `counted`, when `fDone` says whether they
were before. -/
def doneAfter (fDone : Bool) (votes counted : List CConsensusVote) : Bool :=
  if counted.isEmpty then fDone
  else decide (INSTANTX_SIGNATURES_REQUIRED ≤ (votes ++ counted).length)

/-- **The votes after the request** lock the inputs when the last of them that counts does. -/
theorem counted {seen : CConsensusVote → Bool} {fDone : Bool}
    {after : List (IXEnv C × CConsensusVote)}
    (hst : Requested st tx h n votes (after.map Prod.snd) seen fDone) (hn : n ≠ 0)
    (hh : tx.getHash C.toHashes = h) (hgood : ∀ d ∈ after, GoodVote d.1 h n d.2)
    (hnodup : ((after.map Prod.snd).map CConsensusVote.getHash).Nodup)
    (hheights : ∀ v ∈ votes, v.nBlockHeight = n)
    (hdone : fDone = true → INSTANTX_SIGNATURES_REQUIRED ≤ votes.length) :
    Requested (run ixStep st (voteEvents after)) tx h n
      (votes ++ (after.map Prod.snd).filter fun v => !seen v) [] seen
      (doneAfter fDone votes ((after.map Prod.snd).filter fun v => !seen v)) := by
  induction after generalizing st votes fDone with
  | nil =>
    rw [map_nil, filter_nil, append_nil]
    exact hst
  | cons d after ih =>
    rw [map_cons, map_cons, nodup_cons] at hnodup
    rw [forall_mem_cons] at hgood
    rw [map_cons] at hst ⊢
    cases hseen : seen d.2 with
    | true =>
      rw [filter_cons_of_neg (by rw [hseen]; decide)]
      exact ih (hst.stale hseen) hgood.2 hnodup.2 hheights hdone
    | false =>
      have hstep := hst.vote hn hh hgood.1 hnodup.1 hseen hheights hdone
      have hheights' : ∀ v ∈ votes ++ [d.2], v.nBlockHeight = n :=
        forall_mem_append.mpr ⟨hheights, forall_mem_singleton.mpr hgood.1.height⟩
      have hrest := ih hstep hgood.2 hnodup.2 hheights' of_decide_eq_true
      have hdone' : doneAfter
          (decide (INSTANTX_SIGNATURES_REQUIRED ≤ (votes ++ [d.2]).length)) (votes ++ [d.2])
          ((after.map Prod.snd).filter fun v => !seen v) =
          doneAfter fDone votes
            (d.2 :: (after.map Prod.snd).filter fun v => !seen v) := by
        unfold doneAfter
        rw [if_neg (by simp : ¬(d.2 :: _).isEmpty = true), append_assoc]
        split
        next hempty => rw [isEmpty_iff.mp hempty]
        next => rfl
      rw [filter_cons_of_pos (by rw [hseen]; rfl), ← hdone']
      rw [append_assoc] at hrest
      exact hrest

/-! ## §5. Deliveries. -/

/-- The lock of a request is complete: its inputs are locked to it, and it is remembered. -/
def Completed (C : Crypto) (st : IXState) (tx : CTransaction) : Prop :=
  (∀ txin ∈ tx.vin, st.mapLockedInputs[txin.prevout]? = some (tx.getHash C.toHashes)) ∧
    st.mapTxLockReq[tx.getHash C.toHashes]? = some tx

/-- What it takes to deliver a request and votes: all of them are valid, the votes have
different hashes, and none is known before. -/
structure Deliverable (env : IXEnv C) (st : IXState) (tx : CTransaction)
    (before after : List (IXEnv C × CConsensusVote)) : Prop where
  request : GoodRequest env tx
  votes : ∀ d ∈ before ++ after, GoodVote d.1 (tx.getHash C.toHashes) (env.lockHeight tx) d.2
  nodup : (((before ++ after).map Prod.snd).map CConsensusVote.getHash).Nodup
  unknown : Unknown st (tx.getHash C.toHashes) tx.vin ((before ++ after).map Prod.snd)

theorem Deliverable.requested {before after : List (IXEnv C × CConsensusVote)}
    (hd : Deliverable env st tx before after) :
    Requested (run ixStep st (delivery env tx before after)) tx (tx.getHash C.toHashes)
      (env.lockHeight tx) (before.map Prod.snd ++ countedVotes env tx after) []
      (shadowed env tx) (doneAfter false (before.map Prod.snd) (countedVotes env tx after)) := by
  have hvotes := hd.votes
  have hnodup := hd.nodup
  have hunknown := hd.unknown
  rw [map_append] at hnodup hunknown
  have hbefore := collected hunknown.collecting
    (fun d hin => hvotes d (mem_append_left after hin)) hnodup
  rw [nil_append] at hbefore
  rw [map_append, nodup_append] at hnodup
  rw [delivery, run_append, run_cons]
  refine counted (hbefore.txlreq hd.request) hd.request.height rfl
    (fun d hin => hvotes d (mem_append_right before hin)) hnodup.2.1 ?_ nofun
  intro v hv
  obtain ⟨d, hin, rfl⟩ := mem_map.mp hv
  exact (hvotes d (mem_append_left after hin)).height

/-- **When a delivery completes the lock**: when enough votes are counted, and one of them
comes after the request. -/
theorem completion_iff (env : IXEnv C) (st : IXState) (tx : CTransaction)
    (before after : List (IXEnv C × CConsensusVote)) (hd : Deliverable env st tx before after) :
    Completed C (run ixStep st (delivery env tx before after)) tx ↔
      CompletedByVote env tx before after := by
  have hafter := hd.requested
  have hdone : doneAfter false (before.map Prod.snd) (countedVotes env tx after) = true ↔
      CompletedByVote env tx before after := by
    unfold doneAfter CompletedByVote
    cases hcounted : countedVotes env tx after with
    | nil => simp
    | cons v counted => simp
  rw [← hdone]
  constructor
  · rintro ⟨hlocked, -⟩
    obtain ⟨txin, hin⟩ := exists_mem_of_ne_nil _ hd.request.inputs
    have hone := hlocked txin hin
    rw [hafter.locked txin hin] at hone
    by_contra hnot
    rw [if_neg hnot] at hone
    cases hone
  · intro htrue
    refine ⟨fun txin hin => ?_, hafter.request⟩
    rw [hafter.locked txin hin, if_pos htrue]

/-! ## §6. Sample deliveries. -/

def sampleKeyVotes (keys : List Nat) : List (IXEnv sampleCrypto × CConsensusVote) :=
  keys.map fun key => (sampleIXEnv 1500000000 true, sampleVote key sampleTxid 94)

theorem sampleRequest_good : GoodRequest (sampleIXEnv 1500000000 true) sampleRequest where
  enabled := sampleIXEnv_enabled
  valid := by decide +kernel
  normal := by decide +kernel
  old := by decide
  height := by decide
  inputs := by decide
  accepted := rfl

theorem sampleVotes_deliverable {before after : List Nat}
    (hkeys : ∀ key ∈ before ++ after, voteValid (sampleIXEnv 1500000000 true)
      (sampleVote key sampleTxid 94) = true)
    (hnodup : ((before ++ after).map fun key => (sampleVote key sampleTxid 94).getHash).Nodup) :
    Deliverable (sampleIXEnv 1500000000 true) .empty sampleRequest (sampleKeyVotes before)
      (sampleKeyVotes after) := by
  have hevents : sampleKeyVotes before ++ sampleKeyVotes after = sampleKeyVotes (before ++ after) :=
    map_append.symm
  constructor
  · exact sampleRequest_good
  · intro d hin
    rw [hevents] at hin
    obtain ⟨key, hkey, rfl⟩ := mem_map.mp hin
    have hheight : (94 : Int32) = (sampleIXEnv 1500000000 true).lockHeight sampleRequest := by
      decide
    exact ⟨sampleIXEnv_enabled, hkeys key hkey, rfl, hheight⟩
  · rw [hevents]
    rw [sampleKeyVotes, map_map, map_map]
    exact hnodup
  · exact ⟨rfl, rfl, rfl, fun _ _ => rfl, fun _ _ => rfl⟩

/-- Ten votes, the request, then five votes. -/
theorem completion_iff_split :
    Completed sampleCrypto (run ixStep .empty (delivery (sampleIXEnv 1500000000 true) sampleRequest
      (sampleKeyVotes (range' 1 10)) (sampleKeyVotes (range' 11 5)))) sampleRequest :=
  (completion_iff (sampleIXEnv 1500000000 true) .empty sampleRequest
    (sampleKeyVotes (range' 1 10)) (sampleKeyVotes (range' 11 5))
    (sampleVotes_deliverable (by decide +kernel) (by decide +kernel))).mpr
    (by decide +kernel)

/-- **A lock is lost**: fifteen valid votes, then the request that they are for. -/
theorem completion_lost :
    Deliverable (sampleIXEnv 1500000000 true) .empty sampleRequest
        (sampleKeyVotes (range' 1 15)) [] ∧
      ¬Completed sampleCrypto (run ixStep .empty (delivery (sampleIXEnv 1500000000 true)
        sampleRequest (sampleKeyVotes (range' 1 15)) [])) sampleRequest := by
  refine ⟨?_, fun hdone => ?_⟩
  · have hkeys : ∀ key ∈ range' 1 15 ++ [], voteValid (sampleIXEnv 1500000000 true)
        (sampleVote key sampleTxid 94) = true := by decide +kernel
    exact sampleVotes_deliverable hkeys (by decide +kernel)
  have hlocked := hdone.1 ⟨sampleOutpoint, [], [], 0xffffffff⟩ (mem_singleton_self _)
  exact absurd hlocked (by decide +kernel)

end Fantom.InstantX
