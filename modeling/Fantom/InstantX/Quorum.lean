/-
  Fantom.InstantX.Quorum — Which entries of `mapLockedInputs` a quorum of votes stands behind.

  A vote locks inputs only when it completes a lock.  A request the memory pool refuses locks its
  free inputs without looking at votes, so the runs in which every entry has a quorum are exactly
  those in which such requests find a complete lock (`locked_by_quorum_iff`).
-/
import Fantom.InstantX.Effects

namespace Fantom.InstantX

open Core Lib

variable {C : Crypto}

/-! ## §1. Insertions along a run. -/

variable (st : IXState)

variable (e : IXEnv C × IXEvent)

/-- The event puts the entry `o → h` into `mapLockedInputs`. -/
def Inserts (o : COutPoint) (h : UInt256) : Prop :=
  st.mapLockedInputs[o]? ≠ some h ∧ (ixStep st e).mapLockedInputs[o]? = some h

/-- Every entry the event inserts has a complete lock.  No handler touches votes
or heights after it has inserted, so this is the lock at the insertion. -/
def InsertsByQuorum : Prop :=
  ∀ o h, Inserts st e o h → (ixStep st e).Complete h

/-- A refused request with a free input has a complete lock: enough votes for
the height `CreateNewLock` gives it. -/
def RefusedHasQuorum : Prop :=
  match e.2 with
  | .txlreq tx => refused e.1 st tx = true →
      (∃ txin ∈ tx.vin, st.mapLockedInputs[txin.prevout]? = none) →
        (createNewLock e.1 st tx).1.Complete (tx.getHash C.toHashes)
  | .txlvote _ => True
  | .clean => True

/-! ## §2. One event. -/

theorem refused_complete {env : IXEnv C} {st : IXState} {tx : CTransaction}
    (hr : refused env st tx = true) (h : UInt256) :
    (processTxlreq env st tx).Complete h ↔ (createNewLock env st tx).1.Complete h := by
  obtain ⟨locks, req, he, hc, -, -⟩ := rejectTxlreq_frame env (createNewLock env st tx).1 tx
  rw [processTxlreq_of_refused env hr, he]
  exact complete_congr (hc h)

theorem clean_locked_of_get {env : IXEnv C} {st : IXState} {o : COutPoint} {h : UInt256}
    (hl : (cleanTransactionLocksList env st).1.mapLockedInputs[o]? = some h) :
    st.mapLockedInputs[o]? = some h := by
  classical
  cases hbest : env.noBestBlock with
  | true =>
    rw [cleanTransactionLocksList, hbest] at hl
    exact hl
  | false =>
    rw [clean_eq env hbest, removeLocks_locked] at hl
    split at hl
    · cases hl
    · exact hl

/-- **One event inserts by quorum** exactly when it is no refused request that
locks inputs without one. -/
theorem insertsByQuorum_iff : InsertsByQuorum st e ↔ RefusedHasQuorum st e := by
  obtain ⟨env, ev⟩ := e
  cases ev with
  | txlreq tx =>
    constructor
    · intro hq hr hfree
      obtain ⟨txin, htx, hnone⟩ := hfree
      rw [← refused_complete hr]
      refine hq txin.prevout (tx.getHash C.toHashes) ⟨?_, ?_⟩
      · rw [hnone]
        nofun
      · show (processTxlreq env st tx).mapLockedInputs[txin.prevout]? = _
        rw [processTxlreq_locked, if_pos ⟨hr, List.mem_map_of_mem htx⟩, hnone]
        rfl
    · intro hq o h hins
      obtain ⟨hold, hnew⟩ := hins
      replace hnew : (processTxlreq env st tx).mapLockedInputs[o]? = some h := hnew
      rw [processTxlreq_locked] at hnew
      split at hnew
      next hc =>
        obtain ⟨hr, hmem⟩ := hc
        obtain ⟨txin, htx, rfl⟩ := List.mem_map.mp hmem
        cases hget : st.mapLockedInputs[txin.prevout]? with
        | some k =>
          rw [hget] at hold hnew
          exact absurd hnew hold
        | none =>
          rw [hget] at hnew
          cases hnew
          exact (refused_complete hr _).mpr (hq hr ⟨txin, htx, hget⟩)
      next => exact absurd hnew hold
  | txlvote v =>
    refine iff_of_true (fun o h hins => ?_) trivial
    rcases processTxlvote_locked env hins.2 with hold | ⟨-, hc, -⟩
    · exact absurd hold hins.1
    · exact hc
  | clean =>
    refine iff_of_true (fun o h hins => ?_) trivial
    exact absurd (clean_locked_of_get hins.2) hins.1

/-! ## §3. Whole runs. -/

/-- **Locked by quorum.**  In a run from empty maps every insertion has a
complete lock exactly when every refused request with a free input has one.  In
such a run every entry there is was inserted, by some event, when its lock was
complete. -/
theorem locked_by_quorum_iff (evs : List (IXEnv C × IXEvent)) :
    (Along ixStep InsertsByQuorum IXState.empty evs ↔
      Along ixStep RefusedHasQuorum IXState.empty evs) ∧
    (Along ixStep RefusedHasQuorum IXState.empty evs → ∀ o h,
      (run ixStep IXState.empty evs).mapLockedInputs[o]? = some h →
        ∃ done e rest, evs = done ++ e :: rest ∧
          Inserts (run ixStep IXState.empty done) e o h ∧
          (run ixStep IXState.empty (done ++ [e])).Complete h) := by
  have hiff : Along ixStep InsertsByQuorum IXState.empty evs ↔
      Along ixStep RefusedHasQuorum IXState.empty evs := by
    simp only [along_iff, insertsByQuorum_iff]
  refine ⟨hiff, ?_⟩
  intro hq o h hl
  have hempty : ¬ IXState.empty.mapLockedInputs[o]? = some h := by
    rw [show IXState.empty.mapLockedInputs = ∅ from rfl, StdMap.get_empty]
    nofun
  obtain ⟨done, e, rest, hsplit, hbefore, hafter⟩ :=
    exists_first (R := fun st : IXState => st.mapLockedInputs[o]? = some h) hempty hl
  rw [run_concat] at hafter
  refine ⟨done, e, rest, hsplit, ⟨hbefore, hafter⟩, ?_⟩
  rw [run_concat]
  exact along_iff.mp (hiff.mpr hq) done e rest hsplit o h ⟨hbefore, hafter⟩

/-! ## §4. Sample runs. -/

def sampleOutpoint : COutPoint := ⟨1000, 0⟩

def sampleRequest : CTransaction := sampleTx sampleOutpoint 5

def sampleTxid : UInt256 := sampleRequest.getHash sampleHashes

theorem sample_not_refused (now : Int64) (st : IXState) (tx : CTransaction) :
    refused (sampleIXEnv now true) st tx = false := by
  unfold refused
  show (_ && !true) = false
  rw [Bool.not_true, Bool.and_false]

def quorumRun : List (IXEnv sampleCrypto × IXEvent) :=
  (sampleIXEnv 1500000000 true, .txlreq sampleRequest) ::
    (List.range 15).map fun i =>
      (sampleIXEnv 1500000000 true, .txlvote (sampleVote (i + 1) sampleTxid 94))

theorem quorumRun_along : Along ixStep RefusedHasQuorum st quorumRun := by
  rw [along_iff]
  intro done e rest hsplit
  have he : e ∈ quorumRun := by simp [hsplit]
  rcases List.mem_cons.mp he with rfl | he
  · -- the memory pool of this node refuses nothing
    intro hr
    rw [sample_not_refused] at hr
    cases hr
  · obtain ⟨i, -, rfl⟩ := List.mem_map.mp he
    trivial

theorem locked_by_quorum_sample :
    ∃ done e rest, quorumRun = done ++ e :: rest ∧
      Inserts (run ixStep IXState.empty done) e sampleOutpoint sampleTxid ∧
      (run ixStep IXState.empty (done ++ [e])).Complete sampleTxid :=
  (locked_by_quorum_iff quorumRun).2 (quorumRun_along IXState.empty) sampleOutpoint sampleTxid
    (by decide +kernel)

/-- One refused request locks an outpoint without a single vote. -/
theorem locked_without_quorum :
    let st := run ixStep IXState.empty [(sampleIXEnv 1500000000 false, .txlreq sampleRequest)]
    st.mapLockedInputs[sampleOutpoint]? = some sampleTxid ∧
      (st.mapTxLocks[sampleTxid]?).map CTransactionLock.countSignatures = some 0 := by
  decide +kernel

end Fantom.InstantX
