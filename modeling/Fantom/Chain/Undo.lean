/-
  Fantom.Chain.Undo — Disconnecting a block undoes connecting it.

  * `disconnectBlock_connectBlock` — the whole block, in reverse order.
-/
import Fantom.Chain.Accepted

namespace Fantom.Chain

open Core Lib List StdMap

variable {env : ChainEnv}

/-! ## §1. Releasing the inputs of a transaction. -/

theorem unspendInput_ok {db : Records} {txin : CTxIn}
    (h : (readSpent db.tx txin.prevout).isSome) :
    unspendInput db txin = .ok { db with tx := writeSpent db.tx txin.prevout .null } := by
  obtain ⟨txindex, hm, hlen⟩ := isSome_readSpent.mp h
  unfold unspendInput
  refine bind_eq_ok.mpr ⟨txindex, required_eq_ok.mpr hm, ?_⟩
  refine bind_eq_ok.mpr ⟨(), ?_, ?_⟩
  · rw [rejectIf_eq_ok, decide_eq_false_iff_not]
    omega
  · rw [writeSpent_of_some hm]
    rfl

/-- **The loop of `DisconnectInputs`** frees the cells of all outpoints. -/
theorem unspendInputs_ok {db : Records} {txins : List CTxIn}
    (h : ∀ txin ∈ txins, (readSpent db.tx txin.prevout).isSome) :
    txins.foldlM unspendInput db =
      .ok { db with tx := txCells.release .null db.tx (txins.map CTxIn.prevout) } := by
  induction txins generalizing db with
  | nil => rfl
  | cons txin txins ih =>
    rw [foldlM_cons]
    refine bind_eq_ok.mpr ⟨_, unspendInput_ok (h txin mem_cons_self), ?_⟩
    refine ih ?_
    intro txin' hmem
    show (txCells.read (txCells.write db.tx txin.prevout .null) txin'.prevout).isSome
    rw [txCells.isSome_read_write]
    exact h txin' (mem_cons_of_mem _ hmem)

theorem release_insert (m : TxIndexMap) {h : UInt256} (txindex : CTxIndex) {os : List COutPoint}
    (hne : ∀ o ∈ os, o.hash ≠ h) :
    txCells.release .null (m.insert h txindex) os =
      (txCells.release .null m os).insert h txindex := by
  induction os generalizing m with
  | nil => rfl
  | cons o os ih =>
    show txCells.release .null (writeSpent (m.insert h txindex) o .null) os = _
    rw [writeSpent_insert m txindex .null (hne o mem_cons_self),
      ih _ (fun o' ho' => hne o' (mem_cons_of_mem _ ho'))]
    rfl

theorem claimInputs_isSome {m m' : TxIndexMap} {pos : CDiskTxPos} {tx : CTransaction}
    (h : claimInputs m pos tx = some m') (k : UInt256) : (m'[k]?).isSome = (m[k]?).isSome := by
  unfold claimInputs at h
  split at h
  · cases h
    rfl
  · refine txCells.claim_invariant (P := fun t => (t[k]?).isSome = (m[k]?).isSome) ?_ h rfl
    intro s o v hs
    rw [← hs]
    exact writeSpent_isSome s o v k

/-- **One transaction taken back**: its inputs were claimed for it and it was
new to the index. -/
theorem disconnectInputs_undo {m m' : TxIndexMap} {pos : CDiskTxPos} {tx : CTransaction}
    (hpos : pos.isNull = false) (hnew : m[tx.getHash env.H]? = none)
    (hclaim : claimInputs m pos tx = some m') {txindex : CTxIndex} {db : Records}
    (hdb : db.tx = m'.insert (tx.getHash env.H) txindex) :
    ∃ db', disconnectInputs env db tx = .ok db' ∧ db'.tx = m := by
  have hback : ∃ db', unspendInputs db tx = .ok db' ∧
      db'.tx = m.insert (tx.getHash env.H) txindex := by
    unfold unspendInputs
    unfold claimInputs at hclaim
    split at hclaim
    next hcb =>
      cases hclaim
      exact ⟨db, by rw [if_pos hcb], hdb⟩
    next hcb =>
      rw [if_neg hcb]
      -- every outpoint was a free cell of another transaction
      have hfree : ∀ txin ∈ tx.vin, readSpent m txin.prevout = some .null := by
        intro txin hmem
        exact txCells.read_of_claim hclaim (mem_map_of_mem hmem)
      have hne : ∀ txin ∈ tx.vin, txin.prevout.hash ≠ tx.getHash env.H := by
        intro txin hmem heq
        have := hfree txin hmem
        rw [readSpent, heq, hnew] at this
        cases this
      have hcells : ∀ txin ∈ tx.vin, (readSpent db.tx txin.prevout).isSome := by
        intro txin hmem
        have hsome : (readSpent m' txin.prevout).isSome := by
          refine txCells.claim_invariant
            (P := fun t => (readSpent t txin.prevout).isSome = true) ?_ hclaim ?_
          · intro s o v hs
            rw [← hs]
            exact txCells.isSome_read_write s o txin.prevout v
          · rw [hfree txin hmem]
            rfl
        unfold readSpent at hsome ⊢
        rw [hdb, get_insert_ne _ _ (Ne.symm (hne txin hmem))]
        exact hsome
      refine ⟨_, unspendInputs_ok hcells, ?_⟩
      show txCells.release .null db.tx (tx.vin.map CTxIn.prevout) = _
      rw [hdb, release_insert m' txindex ?_, txCells.release_claim ?_ hclaim]
      · intro heq
        rw [CDiskTxPos.isNull_iff.mpr heq] at hpos
        cases hpos
      · intro o ho
        obtain ⟨txin, hmem, rfl⟩ := mem_map.mp ho
        exact hne txin hmem
  obtain ⟨db', hok, hdb'⟩ := hback
  refine ⟨db'.eraseTxIndex (tx.getHash env.H), bind_eq_ok.mpr ⟨db', hok, rfl⟩, ?_⟩
  rw [Records.eraseTxIndex_tx, hdb']
  apply Std.ExtTreeMap.ext_getElem?
  intro k
  rw [get_erase, get_insert]
  split
  next hk => rw [← hk, hnew]
  next => rfl

/-! ## §2. The block. -/

/-- The entries after a prefix of the block are the old ones and those of the
prefix. -/
def EntriesFrom (env : ChainEnv) (db : Records) (done : List CTransaction) (st : ConnectState) :
    Prop :=
  ∀ h : UInt256, ((indexWith db st.mapQueuedChanges)[h]?).isSome = true →
    (db.tx[h]?).isSome = true ∨ h ∈ done.map (CTransaction.getHash env.H)

theorem EntriesFrom.step {db : Records} {pindex : CBlockIndex} {done : List CTransaction}
    {st st' : ConnectState} {tx : CTransaction} (hI : EntriesFrom env db done st)
    (h : TxConnected env db pindex st st' tx) : EntriesFrom env db (done ++ [tx]) st' := by
  intro k hk
  obtain ⟨m, hclaim, hindex⟩ := h.index
  rw [hindex, get_insert] at hk
  rw [map_append, mem_append]
  split at hk
  next heq =>
    rw [← heq]
    exact .inr (.inr mem_cons_self)
  next =>
    rw [claimInputs_isSome hclaim] at hk
    rcases hI k hk with hold | hdone
    · exact .inl hold
    · exact .inr (.inl hdone)

theorem checkBlock_nodup {pindexBest : CBlockIndex} {b : CBlock} {fPOW fRoot fSig : Bool}
    (h : checkBlock env pindexBest b fPOW fRoot fSig = .ok ()) :
    (b.vtx.map (CTransaction.getHash env.H)).Nodup := by
  have hpasses := checkBlock_eq_ok.mp h
  exact hpasses.transactions.nodup

/-- **Disconnecting undoes connecting.**  For every transaction index and every
block that `ConnectBlock` accepts and none of whose transaction ids was in the
index, `DisconnectBlock` succeeds on the result and leaves the index as it was
before, every position and every spender. -/
theorem disconnectBlock_connectBlock {pindexBest : CBlockIndex} {mem mem' : IndexMem}
    {db db' : Records} {b : CBlock} {pindex : CBlockIndex} (mem'' : IndexMem)
    (hconnect : connectBlock env pindexBest mem db b pindex false = .ok (mem', db'))
    (hnew : ∀ tx ∈ b.vtx, db.readTxIndex (tx.getHash env.H) = none) :
    ∃ db'', disconnectBlock env mem'' db' b pindex = .ok db'' ∧ db''.tx = db.tx := by
  obtain ⟨st, hcheck, hloop, _, _, hdb'⟩ := connectBlock_ok hconnect
  have hnodup := checkBlock_nodup hcheck
  have hstart : indexWith db (ConnectState.init b pindex false).mapQueuedChanges = db.tx :=
    overlay_empty db.tx
  have hundo : ∃ t, b.vtx.reverse.foldlM (disconnectInputs env) db' = .ok t ∧
      t.tx = indexWith db (ConnectState.init b pindex false).mapQueuedChanges := by
    refine foldlM_undo (R := fun (st : ConnectState) (t : Records) =>
      t.tx = indexWith db st.mapQueuedChanges) (EntriesFrom env db) ?_ ?_ hloop hdb'
    · intro h hsome
      rw [hstart] at hsome
      exact .inl hsome
    · intro done tx rest s s' hl hI hstep
      have hok := connectTx_ok hstep
      refine ⟨hI.step hok, ?_⟩
      intro t' ht'
      obtain ⟨m, hclaim, hindex⟩ := hok.index
      -- the id is neither an old one nor one of the prefix
      have hfresh : (indexWith db s.mapQueuedChanges)[tx.getHash env.H]? = none := by
        rw [Option.eq_none_iff_forall_ne_some]
        intro e he
        rcases hI _ (by rw [he]; rfl) with hold | hdone
        · have := hnew tx (by simp [hl])
          unfold Records.readTxIndex at this
          rw [this] at hold
          cases hold
        · rw [hl, map_append, map_cons] at hnodup
          exact (nodup_append.mp hnodup).2.2 _ hdone _ mem_cons_self rfl
      exact disconnectInputs_undo (CDiskTxPos.inFile_not_null _ _ _) hfresh hclaim
        (ht'.trans hindex)
  obtain ⟨t, hback, ht⟩ := hundo
  refine ⟨writePrevBlockIndex mem'' pindex 0 t, bind_eq_ok.mpr ⟨t, hback, rfl⟩, ?_⟩
  rw [writePrevBlockIndex_tx, ht, hstart]

theorem disconnectBlock_chainedBlock :
    ∃ r db'', connectBlock chainedEnv sampleGenesis sampleMem sampleRecords chainedBlock
        chainedIndex false = .ok r ∧
      disconnectBlock chainedEnv r.1 r.2 chainedBlock chainedIndex = .ok db'' ∧
      db''.tx = sampleRecords.tx := by
  obtain ⟨r, hr⟩ := accepts_iff.mp chainedBlock_accepted
  obtain ⟨db'', hok, htx⟩ := disconnectBlock_connectBlock r.1 hr (by decide +kernel)
  exact ⟨r, db'', hr, hok, htx⟩

end Fantom.Chain
