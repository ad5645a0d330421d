/-
  Fantom.InstantX.OneVote — One blanknode, one vote: a lock never holds two votes of one collateral.

  Uniqueness is enforced by `mapTxLockVote`, a map with a lifetime of its own. The invariant
  `VotesRecorded` ties it to the locks: every vote of a lock is recorded, and no two votes of any
  locks share a hash.  Expiry forgets the hashes of removed votes only, and these are nobody else's.
-/
import Fantom.InstantX.Effects

namespace Fantom.InstantX

open Core Lib List

variable {C : Crypto}

/-! ## §1. The invariant. -/

structure VotesRecorded (st : IXState) : Prop where
  /-- A vote is in the lock of the transaction it is for. -/
  owner : ∀ h, ∀ v ∈ st.votesOf h, v.txHash = h
  seen : ∀ h, ∀ v ∈ st.votesOf h, (st.mapTxLockVote[v.getHash]?).isSome = true
  nodup : ∀ h, ((st.votesOf h).map CConsensusVote.getHash).Nodup
  apart : ∀ h k, h ≠ k → ∀ v ∈ st.votesOf h, ∀ w ∈ st.votesOf k, v.getHash ≠ w.getHash

theorem VotesRecorded.empty : VotesRecorded IXState.empty where
  owner _ _ hv := by cases hv
  seen _ _ hv := by cases hv
  nodup _ := nodup_nil
  apart _ _ _ _ hv := by cases hv

/-! ## §2. Every event keeps it. -/

theorem VotesRecorded.mono {st st' : IXState} (hI : VotesRecorded st)
    (hv : ∀ h, st'.votesOf h = st.votesOf h)
    (hs : ∀ k : UInt256, (st.mapTxLockVote[k]?).isSome = true →
      (st'.mapTxLockVote[k]?).isSome = true) : VotesRecorded st' where
  owner h v hmem := hI.owner h v (by rw [← hv]; exact hmem)
  seen h v hmem := hs _ (hI.seen h v (by rw [← hv]; exact hmem))
  nodup h := by rw [hv]; exact hI.nodup h
  apart h k hne v hmem w hw :=
    hI.apart h k hne v (by rw [← hv]; exact hmem) w (by rw [← hv]; exact hw)

variable (env : IXEnv C)

theorem VotesRecorded.txlreq {st : IXState} (hI : VotesRecorded st) (tx : CTransaction) :
    VotesRecorded (processTxlreq env st tx) :=
  hI.mono (processTxlreq_votesOf env st tx) fun _ hk => processTxlreq_seen env hk

theorem VotesRecorded.txlvote {st : IXState} (hI : VotesRecorded st) (v : CConsensusVote) :
    VotesRecorded (processTxlvote env st v).1 := by
  have hseen : ∀ k : UInt256, (st.mapTxLockVote[k]?).isSome = true →
      ((processTxlvote env st v).1.mapTxLockVote[k]?).isSome = true := by
    intro k hk
    rw [processTxlvote_seen]
    split
    · rw [StdMap.get_insert]
      split
      · rfl
      · exact hk
    · exact hk
  by_cases hc : voteFresh env st v = true ∧ voteValid env v = true
  · obtain ⟨hf, hv⟩ := hc
    have hvotes : ∀ k, (processTxlvote env st v).1.votesOf k =
        if v.txHash = k then st.votesOf k ++ [v] else st.votesOf k := by
      intro k
      rw [processTxlvote_votesOf, hf, hv]
      simp only [true_and]
    -- no vote of any lock has the hash of the new one
    have hnew : ∀ k, ∀ w ∈ st.votesOf k, w.getHash ≠ v.getHash := by
      intro k w hw heq
      have hs := hI.seen k w hw
      rw [heq, ← StdMap.contains_eq] at hs
      rw [voteFresh, hs] at hf
      simp at hf
    have hmem : ∀ k w, w ∈ (processTxlvote env st v).1.votesOf k ↔
        w ∈ st.votesOf k ∨ (v.txHash = k ∧ w = v) := by
      intro k w
      rw [hvotes]
      split
      next hk => simp [hk]
      next hk => simp [hk]
    refine ⟨?_, ?_, ?_, ?_⟩
    · intro h w hw
      rcases (hmem h w).mp hw with hw | ⟨hh, rfl⟩
      · exact hI.owner h w hw
      · exact hh
    · intro h w hw
      rcases (hmem h w).mp hw with hw | ⟨_, rfl⟩
      · exact hseen _ (hI.seen h w hw)
      · rw [processTxlvote_seen, if_pos hf, StdMap.get_insert_self]
        rfl
    · intro h
      rw [hvotes]
      split
      · rw [map_append, nodup_append]
        refine ⟨hI.nodup h, by simp, ?_⟩
        intro a ha b hb
        obtain ⟨w, hw, rfl⟩ := mem_map.mp ha
        rw [map_singleton, mem_singleton] at hb
        rw [hb]
        exact hnew h w hw
      · exact hI.nodup h
    · intro h k hne w hw u hu
      rcases (hmem h w).mp hw with hw' | ⟨hh, hwv⟩
      · rcases (hmem k u).mp hu with hu' | ⟨_, huv⟩
        · exact hI.apart h k hne w hw' u hu'
        · rw [huv]
          exact hnew h w hw'
      · rcases (hmem k u).mp hu with hu' | ⟨hk, _⟩
        · rw [hwv]
          exact (hnew k u hu').symm
        · exact absurd (hh.symm.trans hk) hne
  · refine hI.mono (fun k => ?_) hseen
    rw [processTxlvote_votesOf, if_neg]
    exact fun h => hc ⟨h.1, h.2.1⟩

theorem VotesRecorded.clean {st : IXState} (hI : VotesRecorded st) :
    VotesRecorded (cleanTransactionLocksList env st).1 := by
  cases hbest : env.noBestBlock with
  | true =>
    rw [cleanTransactionLocksList, hbest]
    exact hI
  | false =>
    have hkeep : ∀ h v, v ∈ (cleanTransactionLocksList env st).1.votesOf h →
        v ∈ st.votesOf h ∧ h ∉ (env.expiredLocks st).map Prod.fst := by
      intro h v hv
      rw [clean_votesOf env hbest] at hv
      split at hv
      · cases hv
      next hnot => exact ⟨hv, hnot⟩
    refine ⟨fun h v hv => hI.owner h v (hkeep h v hv).1, ?_, ?_, ?_⟩
    · intro h v hv
      obtain ⟨hv, hnot⟩ := hkeep h v hv
      rw [clean_eq env hbest, removeLocks_seen]
      · exact hI.seen h v hv
      · intro entry hentry hmem
        obtain ⟨k, lock⟩ := entry
        obtain ⟨w, hw, heq⟩ := mem_map.mp hmem
        have hlock := ((mem_expiredLocks env).mp hentry).1
        have hk : h ≠ k := fun hk =>
          hnot (mem_map.mpr ⟨(k, lock), hentry, hk.symm⟩)
        rw [← votesOf_of_get hlock] at hw
        exact hI.apart h k hk v hv w hw heq.symm
    · intro h
      rw [clean_votesOf env hbest]
      split
      · exact nodup_nil
      · exact hI.nodup h
    · intro h k hne v hv w hw
      exact hI.apart h k hne v (hkeep h v hv).1 w (hkeep k w hw).1

theorem VotesRecorded.step {st : IXState} (hI : VotesRecorded st) (e : IXEnv C × IXEvent) :
    VotesRecorded (ixStep st e) := by
  obtain ⟨env, ev⟩ := e
  cases ev with
  | txlreq tx => exact hI.txlreq env tx
  | txlvote v => exact hI.txlvote env v
  | clean => exact hI.clean env

theorem votesRecorded_run (evs : List (IXEnv C × IXEvent)) :
    VotesRecorded (run ixStep IXState.empty evs) :=
  run_invariant (P := fun _ _ => True) (fun _ e hI _ => hI.step e) VotesRecorded.empty
    (along_of_forall (fun _ _ => trivial) _ _)

/-! ## §3. One blanknode, one vote. -/

theorem getHash_eq {v w : CConsensusVote} (htx : v.txHash = w.txHash)
    (hp : v.vinBlanknode.prevout = w.vinBlanknode.prevout) : v.getHash = w.getHash := by
  unfold CConsensusVote.getHash
  rw [htx, hp]

theorem VotesRecorded.prevouts_nodup {st : IXState} (hI : VotesRecorded st) (h : UInt256) :
    ((st.votesOf h).map fun v => v.vinBlanknode.prevout).Nodup := by
  have hn := hI.nodup h
  rw [List.Nodup, pairwise_map] at hn ⊢
  refine hn.imp_of_mem ?_
  intro v w hv hw hne hp
  exact hne (getHash_eq ((hI.owner h v hv).trans (hI.owner h w hw).symm) hp)

/-- The collaterals whose votes `CountSignatures` counts. -/
def CTransactionLock.voters (lock : CTransactionLock) : List COutPoint :=
  (lock.vecConsensusVotes.filter fun v => v.nBlockHeight == lock.nBlockHeight).map
    fun v => v.vinBlanknode.prevout

theorem countSignatures_le_voters (lock : CTransactionLock) :
    lock.countSignatures ≤ lock.voters.length := by
  unfold CTransactionLock.countSignatures CTransactionLock.voters
  rw [length_map, ← countP_eq_length_filter]
  split
  · omega
  · exact Int.le_refl _

/-- **One blanknode, one vote.**  In every reachable state no lock holds two
votes of one collateral, so a complete lock has at least the required number of
different voters. -/
theorem one_vote_per_blanknode (evs : List (IXEnv C × IXEvent)) (h : UInt256)
    (lock : CTransactionLock)
    (hlock : (run ixStep IXState.empty evs).mapTxLocks[h]? = some lock) :
    (lock.vecConsensusVotes.map fun v => v.vinBlanknode.prevout).Nodup ∧
      lock.voters.Nodup ∧
      (INSTANTX_SIGNATURES_REQUIRED ≤ lock.countSignatures →
        INSTANTX_SIGNATURES_REQUIRED ≤ lock.voters.length) := by
  have hn := (votesRecorded_run evs).prevouts_nodup h
  rw [votesOf_of_get hlock] at hn
  refine ⟨hn, ?_, ?_⟩
  · exact hn.sublist (filter_sublist.map _)
  · intro hq
    exact Int.le_trans hq (countSignatures_le_voters lock)

def sampleVoteRun : List (IXEnv sampleCrypto × IXEvent) :=
  [sampleVote 1 77 94, sampleVote 1 77 95, sampleVote 2 77 94].map fun v =>
    (sampleIXEnv 1500000000 true, IXEvent.txlvote v)

theorem one_vote_sample :
    ∃ lock, (run ixStep IXState.empty sampleVoteRun).mapTxLocks[(77 : UInt256)]? = some lock ∧
      lock.vecConsensusVotes.length = 2 ∧
      (lock.vecConsensusVotes.map fun v => v.vinBlanknode.prevout).Nodup := by
  have hlen : ((run ixStep IXState.empty sampleVoteRun).mapTxLocks[(77 : UInt256)]?).map
      (fun lock => lock.vecConsensusVotes.length) = some 2 := by
    decide +kernel
  obtain ⟨lock, hlock, hlen⟩ := Option.map_eq_some_iff.mp hlen
  exact ⟨lock, hlock, hlen, (one_vote_per_blanknode sampleVoteRun 77 lock hlock).1⟩

end Fantom.InstantX
