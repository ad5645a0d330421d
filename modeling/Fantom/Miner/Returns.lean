/-
  Fantom.Miner.Returns — `CreateNewBlock` returns when every transaction of the pool has its inputs
  on disk or in the pool.

  * `Alive` — the pointers in `mapDependers` point to orphans.
-/
import Fantom.Miner.Listed

namespace Fantom.Miner

open Core Chain Lib Pool List Option StdMap Std.ExtTreeMap

/-! ## §1. Checks that do not throw. -/

/-- Every failure is a rejection. -/
abbrev Rejects {α : Type} (x : Except Failure α) : Prop :=
  FailsWith (fun f => ∃ nDoS msg, f = .rejected nDoS msg) x

theorem rejects_required_of_some {α : Type} {x : Option α} {f : Failure} {a : α}
    (h : x = some a) : Rejects (required x f) := by
  rw [h]
  exact failsWith_ok a

section Inputs

variable {env : ChainEnv} {db : Records} {m : TxIndexMap} {tx : CTransaction} {inputs : MapPrevTx}

/-- The previous transactions are there, with the outputs that are spent. -/
def Found (tx : CTransaction) (inputs : MapPrevTx) : Prop :=
  ∀ txin ∈ tx.vin, ∃ txindex txPrev, inputs[txin.prevout.hash]? = some (txindex, txPrev) ∧
    txin.prevout.n.toNat < txPrev.vout.length ∧ txin.prevout.n.toNat < txindex.vSpent.length

theorem Found.output (h : Found tx inputs) {txin : CTxIn} (hin : txin ∈ tx.vin) :
    ∃ txout, getOutputFor inputs txin = some txout := by
  obtain ⟨txindex, txPrev, hget, hout, _⟩ := h txin hin
  rw [getOutputFor, hget]
  exact ⟨_, getElem?_eq_getElem hout⟩

theorem Found.foldlM {σ : Type} (h : Found tx inputs) (f : σ → CTxIn → CTxOut → σ) (s : σ) :
    ∃ s', tx.vin.foldlM (fun s txin => (getOutputFor inputs txin).map (f s txin)) s = some s' := by
  suffices key : ∀ txins : List CTxIn, (∀ txin ∈ txins, txin ∈ tx.vin) → ∀ s, ∃ s',
      txins.foldlM (fun s txin => (getOutputFor inputs txin).map (f s txin)) s = some s' from
    key tx.vin (fun _ hin => hin) s
  intro txins
  induction txins with
  | nil => exact fun _ s => ⟨s, rfl⟩
  | cons txin txins ih =>
    intro hsub s
    obtain ⟨txout, hout⟩ := h.output (hsub txin mem_cons_self)
    rw [foldlM_cons, hout]
    exact ih (fun other hin => hsub other (mem_cons_of_mem txin hin)) (f s txin txout)

theorem Found.getValueIn (h : Found tx inputs) : ∃ v, getValueIn tx inputs = some v := by
  unfold Chain.getValueIn
  split
  · exact ⟨0, rfl⟩
  · exact h.foldlM (fun nResult _ txout => nResult + txout.nValue) 0

theorem Found.getP2SHSigOpCount (h : Found tx inputs) :
    ∃ n, getP2SHSigOpCount tx inputs = some n := by
  unfold Chain.getP2SHSigOpCount
  split
  · exact ⟨0, rfl⟩
  · exact h.foldlM (fun nSigOps txin prevout =>
      if CScript.isPayToScriptHash prevout.scriptPubKey then
        nSigOps + CScript.getSigOpCountP2SH prevout.scriptPubKey txin.scriptSig
      else nSigOps) 0

theorem fetchInput_rejects {fBlock fMiner : Bool} {s : MapPrevTx} {txin : CTxIn} :
    Rejects (fetchInput env db m fBlock fMiner s txin) := by
  have hread (hash : UInt256) (pos : CDiskTxPos) : Rejects (readPrev env hash pos) := by
    unfold readPrev
    exact failsWith_ite (failsWith_required ⟨_, _, rfl⟩) (failsWith_required ⟨_, _, rfl⟩)
  unfold fetchInput
  refine failsWith_ite (failsWith_ok _) ?_
  split
  next => exact failsWith_bind (hread _ _) fun _ => failsWith_ok _
  next =>
    refine failsWith_bind (failsWith_rejectIf ⟨_, _, rfl⟩) fun _ => ?_
    refine failsWith_bind (failsWith_rejectIf ⟨_, _, rfl⟩) fun _ => ?_
    exact failsWith_bind (failsWith_required ⟨_, _, rfl⟩) fun _ => failsWith_ok _

/-- **`FetchInputs` does not throw**: its second loop finds what the first has put there. -/
theorem fetchInputs_rejects : Rejects (fetchInputs env db m false true tx ∅) := by
  unfold fetchInputs
  refine failsWith_ite (failsWith_ok _) ?_
  refine failsWith_bind_of_ok
    (failsWith_foldlM (fun _ => True) trivial
      fun txin _ s _ => ⟨fetchInput_rejects, fun _ _ => trivial⟩)
    fun inputs hloop => ?_
  refine failsWith_bind (failsWith_forM_of_mem fun txin hin => ?_) fun _ => failsWith_ok _
  obtain ⟨entry, hentry⟩ := contains_iff.mp ((fetchLoop_keys hloop).1 txin hin)
  unfold checkPrevout
  exact failsWith_bind (rejects_required_of_some hentry) fun _ =>
    failsWith_rejectIf ⟨_, _, rfl⟩

theorem checkSignature_rejects {fVerify : Bool} {txPrev : CTransaction} {txin : CTxIn} {nIn : Nat}
    {flags : UInt32} : Rejects (checkSignature env fVerify txPrev tx txin nIn flags) := by
  unfold checkSignature
  refine failsWith_ite (failsWith_ok _) (failsWith_ite (failsWith_ok _) ?_)
  refine failsWith_ite ?_ ?_
  · rintro f ⟨⟩
    exact ⟨_, _, rfl⟩
  · rintro f ⟨⟩
    exact ⟨_, _, rfl⟩

theorem spendInput_rejects {pos : CDiskTxPos} {fBlock fMiner fVerify : Bool} {flags : UInt32}
    {st : MapPrevTx × TxIndexMap} (h : Found tx st.1) {txin : CTxIn} {nIn : Nat}
    (hin : txin ∈ tx.vin) :
    Rejects (spendInput env tx pos fBlock fMiner fVerify flags st (txin, nIn)) ∧
      ∀ st', spendInput env tx pos fBlock fMiner fVerify flags st (txin, nIn) = .ok st' →
        Found tx st'.1 := by
  obtain ⟨txindex, txPrev, hget, hout, hspent⟩ := h txin hin
  unfold spendInput
  constructor
  · refine failsWith_bind_of_ok (rejects_required_of_some hget) fun found hfound => ?_
    obtain rfl : (txindex, txPrev) = found :=
      Option.some.inj (hget.symm.trans (required_eq_ok.mp hfound))
    refine failsWith_bind (rejects_required_of_some (getElem?_eq_getElem hspent)) fun _ => ?_
    refine failsWith_bind (failsWith_rejectIf ?_) fun _ => ?_
    · split <;> exact ⟨_, _, rfl⟩
    · exact failsWith_bind checkSignature_rejects fun _ => failsWith_ok _
  · intro st' hstep
    obtain ⟨found, hfound, hstep⟩ := bind_eq_ok.mp hstep
    obtain rfl : (txindex, txPrev) = found :=
      Option.some.inj (hget.symm.trans (required_eq_ok.mp hfound))
    obtain ⟨_, _, hstep⟩ := bind_eq_ok.mp hstep
    obtain ⟨_, _, hstep⟩ := bind_eq_ok.mp hstep
    obtain ⟨_, _, hstep⟩ := bind_eq_ok.mp hstep
    cases pure_eq_ok.mp hstep
    intro other hother
    dsimp only
    rw [get_insert]
    split
    next heq =>
      -- the entry has as many outputs as before
      obtain ⟨txindex', txPrev', hget', hout', hspent'⟩ := h other hother
      rw [← heq, hget] at hget'
      cases hget'
      refine ⟨_, _, rfl, hout', ?_⟩
      rw [length_set]
      exact hspent'
    next => exact h other hother

/-- **`ConnectInputs` does not throw** on what `FetchInputs` has found. -/
theorem connectInputs_rejects {pos : CDiskTxPos} {pindexBlock : CBlockIndex}
    {fBlock fMiner fVerify : Bool} {flags : UInt32} (h : Found tx inputs) {nValueOut : Int64}
    (hvalue : tx.getValueOut = some nValueOut) :
    Rejects (connectInputs env tx inputs m pos pindexBlock fBlock fMiner flags fVerify) := by
  unfold connectInputs
  refine failsWith_ite (failsWith_ok _) ?_
  refine failsWith_bind (failsWith_foldlM (fun _ => True) trivial fun txin hin s _ =>
    ⟨?_, fun _ _ => trivial⟩) fun _ => ?_
  · obtain ⟨txindex, txPrev, hget, _⟩ := h txin hin
    unfold Chain.checkInput
    refine failsWith_bind (rejects_required_of_some hget) fun _ => ?_
    refine failsWith_bind (failsWith_rejectIf ⟨_, _, rfl⟩) fun _ => ?_
    refine failsWith_bind (failsWith_required ⟨_, _, rfl⟩) fun _ => ?_
    refine failsWith_bind (failsWith_rejectIf ⟨_, _, rfl⟩) fun _ => ?_
    refine failsWith_bind (failsWith_rejectIf ⟨_, _, rfl⟩) fun _ => ?_
    refine failsWith_bind (failsWith_rejectIf ⟨_, _, rfl⟩) fun _ => ?_
    exact failsWith_bind (failsWith_rejectIf ⟨_, _, rfl⟩) fun _ => failsWith_ok _
  refine failsWith_bind (failsWith_foldlM (fun st => Found tx st.1) h fun i hi st hst =>
    spendInput_rejects hst ?_) fun _ => ?_
  · exact (mem_zipIdx' hi).2 ▸ getElem_mem _
  refine failsWith_bind ?_ fun _ => failsWith_ok _
  unfold checkTxFee
  refine failsWith_ite (failsWith_ok _) ?_
  refine failsWith_bind (rejects_required_of_some hvalue) fun _ => ?_
  refine failsWith_bind (failsWith_rejectIf ⟨_, _, rfl⟩) fun _ => ?_
  exact failsWith_bind (failsWith_rejectIf ⟨_, _, rfl⟩) fun _ => failsWith_rejectIf ⟨_, _, rfl⟩

end Inputs

variable {D : Type} {env : MinerEnv D} {db : Records} {pool : CTxMemPool}
  {pindexPrev : CBlockIndex}

/-- **The inputs of a transaction** are rejected or spent. -/
theorem spendInputs_rejects {st : Assembly D} {tx : CTransaction}
    (hcoinbase : tx.isCoinBase = false) {nValueOut : Int64}
    (hvalue : tx.getValueOut = some nValueOut) :
    Rejects (spendInputs env db pool pindexPrev st tx) := by
  unfold spendInputs
  refine failsWith_bind_of_ok fetchInputs_rejects fun inputs hfetch => ?_
  have hfound : Found tx inputs := fun txin hin => (fetchInputs_found hcoinbase hfetch txin hin).2
  obtain ⟨nValueIn, hvalueIn⟩ := hfound.getValueIn
  obtain ⟨nP2SHSigOps, hp2sh⟩ := hfound.getP2SHSigOpCount
  refine failsWith_bind (rejects_required_of_some hvalueIn) fun _ => ?_
  refine failsWith_bind (rejects_required_of_some hvalue) fun _ => ?_
  refine failsWith_bind (rejects_required_of_some hp2sh) fun _ => ?_
  refine failsWith_bind (failsWith_rejectIf ⟨_, _, rfl⟩) fun _ => ?_
  exact failsWith_bind (connectInputs_rejects hfound hvalue) fun _ => failsWith_ok _

/-! ## §2. The first loop. -/

/-- Every input of a transaction in the pool is on disk or is an output of the pool, and what
it pays is in range. -/
structure Connected (env : MinerEnv D) (db : Records) (pool : CTxMemPool) : Prop where
  inputs : ∀ (hash : UInt256) (tx : CTransaction), pool.mapTx[hash]? = some tx → ∀ txin ∈ tx.vin,
    (readFromDisk env db txin.prevout).isSome = true ∨
      ∃ txPrev, pool.mapTx[txin.prevout.hash]? = some txPrev ∧
        txin.prevout.n.toNat < txPrev.vout.length
  values : ∀ (hash : UInt256) (tx : CTransaction), pool.mapTx[hash]? = some tx →
    tx.getValueOut.isSome = true

/-- The pointers in `mapDependers` point to orphans. -/
def Alive (mapDependers : StdMap UInt256 (List UInt256)) (ids : List UInt256) : Prop :=
  ∀ (hash : UInt256) (porphans : List UInt256), mapDependers[hash]? = some porphans →
    ∀ porphan ∈ porphans, porphan ∈ ids

theorem Alive.mono {mapDependers : StdMap UInt256 (List UInt256)} {ids ids' : List UInt256}
    (h : Alive mapDependers ids) (hsub : ids ⊆ ids') : Alive mapDependers ids' :=
  fun hash porphans hget porphan hin => hsub (h hash porphans hget porphan hin)

theorem Alive.addDepender {mapDependers : StdMap UInt256 (List UInt256)} {ids : List UInt256}
    (h : Alive mapDependers ids) {hash porphan : UInt256} (hin : porphan ∈ ids) :
    Alive (addDepender mapDependers hash porphan) ids := by
  intro other porphans hget p hp
  rw [Miner.addDepender, get_insert] at hget
  split at hget
  next =>
    cases hget
    rcases mem_append.mp hp with hold | hnew
    · cases hmap : mapDependers[hash]? with
      | none =>
        rw [hmap] at hold
        cases hold
      | some porphans =>
        rw [hmap] at hold
        exact h hash porphans hmap p hold
    · rw [mem_singleton.mp hnew]
      exact hin
  next => exact h other porphans hget p hp

/-- The pointers after some inputs: those before, and those to the transaction itself once it
depends on others. -/
def ScanAlive (ids : List UInt256) (porphan : UInt256) (scan : InputScan D) : Prop :=
  Alive scan.mapDependers (if scan.setDependsOn.isSome then ids ++ [porphan] else ids)

theorem scanInputs_returns {porphan : UInt256} {vin : List CTxIn} {scan : InputScan D}
    {ids : List UInt256}
    (hinputs : ∀ txin ∈ vin, (readFromDisk env db txin.prevout).isSome = true ∨
      ∃ txPrev, pool.mapTx[txin.prevout.hash]? = some txPrev ∧
        txin.prevout.n.toNat < txPrev.vout.length)
    (halive : ScanAlive ids porphan scan) :
    ∃ scan', scanInputs env db pool porphan vin scan = .ok (false, scan') ∧
      ScanAlive ids porphan scan' := by
  induction vin generalizing scan with
  | nil => exact ⟨scan, rfl, halive⟩
  | cons txin vin ih =>
    have hrest : ∀ other ∈ vin, _ := fun other hin => hinputs other (mem_cons_of_mem txin hin)
    unfold scanInputs
    split
    next => exact ih hrest halive
    next hdisk =>
      obtain ⟨txPrev, hget, hout⟩ := (hinputs txin mem_cons_self).resolve_left fun hread => by
        rw [hdisk] at hread
        cases hread
      rw [hget]
      dsimp only
      rw [getElem?_eq_getElem hout]
      refine ih hrest ?_
      -- the transaction depends on others from here on
      refine Alive.addDepender (halive.mono ?_) ?_
      · split
        · exact fun _ hin => hin
        · exact fun _ hin => mem_append_left _ hin
      · exact mem_append_right _ (mem_singleton_self porphan)

/-- **One transaction of the pool**: the loop goes on, and the pointers point to orphans. -/
theorem collectTx_returns {nHeight : Nat} {st : Candidates D} {entry : UInt256 × CTransaction}
    (hconnected : Connected env db pool) (hentry : pool.mapTx[entry.1]? = some entry.2)
    (halive : Alive st.mapDependers (orphanIds env st)) :
    ∃ st', collectTx env db pool nHeight st entry = .ok st' ∧
      Alive st'.mapDependers (orphanIds env st') := by
  unfold collectTx
  dsimp only
  split
  · exact ⟨st, rfl, halive⟩
  have hstart : ScanAlive (orphanIds env st) (entry.2.getHash env.H)
      (⟨none, st.mapDependers, env.double.ofInt64 0, 0⟩ : InputScan D) := halive
  obtain ⟨scan, hscan, hscanAlive⟩ := scanInputs_returns (hconnected.inputs _ _ hentry) hstart
  rw [hscan]
  obtain ⟨nValueOut, hvalue⟩ := isSome_iff_exists.mp (hconnected.values _ _ hentry)
  show ∃ st', addCandidate env entry.2 scan { st with mapDependers := scan.mapDependers } =
    .ok st' ∧ _
  unfold addCandidate
  dsimp only
  rw [hvalue]
  unfold ScanAlive at hscanAlive
  cases hset : scan.setDependsOn with
  | none =>
    rw [hset, if_neg (by simp)] at hscanAlive
    exact ⟨_, rfl, hscanAlive⟩
  | some setDependsOn =>
    rw [hset, if_pos isSome_some] at hscanAlive
    refine ⟨_, rfl, hscanAlive.mono ?_⟩
    unfold orphanIds
    rw [map_append]
    exact fun _ hin => hin

theorem collect_returns {nHeight : Nat} (hconnected : Connected env db pool) :
    ∃ st, pool.mapTx.toList.foldlM (collectTx env db pool nHeight) ⟨[], ∅, []⟩ = .ok st ∧
      Alive st.mapDependers (orphanIds env st) := by
  suffices key : ∀ (entries : List (UInt256 × CTransaction)) (st : Candidates D),
      (∀ entry ∈ entries, pool.mapTx[entry.1]? = some entry.2) →
      Alive st.mapDependers (orphanIds env st) →
      ∃ st', entries.foldlM (collectTx env db pool nHeight) st = .ok st' ∧
        Alive st'.mapDependers (orphanIds env st') by
    refine key _ _ (fun entry hin => mem_toList_iff_getElem?_eq_some.mp hin) ?_
    intro hash porphans hget
    rw [get_empty] at hget
    cases hget
  intro entries
  induction entries with
  | nil => exact fun st _ halive => ⟨st, rfl, halive⟩
  | cons entry entries ih =>
    intro st hentries halive
    obtain ⟨s, hstep, hs⟩ : ∃ s, collectTx env db pool nHeight st entry = .ok s ∧
        Alive s.mapDependers (orphanIds env s) :=
      collectTx_returns hconnected (hentries entry mem_cons_self) halive
    obtain ⟨st', hrest, hst'⟩ :=
      ih s (fun other hin => hentries other (mem_cons_of_mem entry hin)) hs
    refine ⟨st', ?_, hst'⟩
    rw [foldlM_cons]
    exact bind_eq_ok.mpr ⟨s, hstep, hrest⟩

/-! ## §3. The second loop. -/

theorem wakeOne_returns {hash porphan : UInt256} {st : Assembly D}
    (h : porphan ∈ orphanIds env st.toCandidates) :
    ∃ st', wakeOne env hash st porphan = .ok st' := by
  obtain ⟨o, ho, hid⟩ := mem_map.mp h
  have hfind : (st.vOrphan.find? fun o => o.ptx.getHash env.H == porphan).isSome = true :=
    find?_isSome.mpr ⟨o, ho, beq_iff_eq.mpr hid⟩
  obtain ⟨o', hfound⟩ := isSome_iff_exists.mp hfind
  rw [wakeOne, hfound]
  show ∃ st', (if o'.setDependsOn.isEmpty = true then pure st
    else if (o'.setDependsOn.erase hash).isEmpty = true then pure _ else pure _ :
      Except Abort (Assembly D)) = .ok st'
  split
  · exact ⟨_, rfl⟩
  · split <;> exact ⟨_, rfl⟩

theorem wake_returns {hash : UInt256} {st : Assembly D}
    (hnodup : (orphanIds env st.toCandidates).Nodup)
    (halive : Alive st.mapDependers (orphanIds env st.toCandidates)) :
    ∃ st', wake env hash st = .ok st' := by
  have hporphans : ∀ porphan ∈ (st.mapDependers[hash]?).getD [],
      porphan ∈ orphanIds env st.toCandidates := by
    intro porphan hin
    cases hget : st.mapDependers[hash]? with
    | none =>
      rw [hget] at hin
      cases hin
    | some porphans =>
      rw [hget] at hin
      exact halive hash porphans hget porphan hin
  suffices key : ∀ (porphans : List UInt256) (s : Assembly D),
      (∀ porphan ∈ porphans, porphan ∈ orphanIds env s.toCandidates) →
      (orphanIds env s.toCandidates).Nodup →
      ∃ st', porphans.foldlM (wakeOne env hash) s = .ok st' from key _ st hporphans hnodup
  intro porphans
  induction porphans with
  | nil => exact fun s _ _ => ⟨s, rfl⟩
  | cons porphan porphans ih =>
    intro s hs hsNodup
    obtain ⟨s', hstep⟩ : ∃ s', wakeOne env hash s porphan = .ok s' :=
      wakeOne_returns (hs porphan mem_cons_self)
    have hids := (wakeOne_ok hsNodup hstep).2.2
    obtain ⟨st', hrest⟩ := ih s'
      (fun other hin => hids ▸ hs other (mem_cons_of_mem porphan hin)) (hids ▸ hsNodup)
    refine ⟨st', ?_⟩
    rw [foldlM_cons]
    exact bind_eq_ok.mpr ⟨s', hstep, hrest⟩

/-- **A round returns** when its transaction can be valued. -/
theorem processTop_returns {fProofOfStake : Bool} {nCoinbaseTime : UInt32} {st : Assembly D}
    {top : TxPriority D} (hcoinbase : top.tx.isCoinBase = false)
    (hvalue : top.tx.getValueOut.isSome = true)
    (hnodup : (orphanIds env st.toCandidates).Nodup)
    (halive : Alive st.mapDependers (orphanIds env st.toCandidates)) :
    ∃ st', processTop env fProofOfStake nCoinbaseTime db pool pindexPrev st top = .ok st' := by
  obtain ⟨nValueOut, hvalue⟩ := isSome_iff_exists.mp hvalue
  unfold processTop
  split
  · exact ⟨st, rfl⟩
  dsimp only
  -- the order of the queue does not matter for the orphans
  have hsame : (prioritizeByFee env st top).vOrphan = st.vOrphan ∧
      (prioritizeByFee env st top).mapDependers = st.mapDependers := by
    unfold prioritizeByFee
    split <;> exact ⟨rfl, rfl⟩
  split
  next what hspend =>
    obtain ⟨nDoS, msg, heq⟩ := spendInputs_rejects hcoinbase hvalue _ hspend
    cases heq
  next => exact ⟨_, rfl⟩
  next spent _ =>
    refine wake_returns ?_ ?_
    · show ((prioritizeByFee env st top).vOrphan.map fun o => o.ptx.getHash env.H).Nodup
      rw [hsame.1]
      exact hnodup
    · show Alive (prioritizeByFee env st top).mapDependers
        ((prioritizeByFee env st top).vOrphan.map fun o => o.ptx.getHash env.H)
      rw [hsame.1, hsame.2]
      exact halive

/-- **The second loop returns**: every round takes a transaction out of play. -/
theorem collectLoop_returns {fProofOfStake : Bool} {nCoinbaseTime : UInt32} {fuel : Nat}
    {st : Assembly D} (hconnected : Connected env db pool) (hplay : InPlay env pool st)
    (halive : Alive st.mapDependers (orphanIds env st.toCandidates))
    (hfuel : (inPlay st.toCandidates).length ≤ fuel) :
    ∃ st', collectLoop env fProofOfStake nCoinbaseTime db pool pindexPrev fuel st = .ok st' := by
  induction fuel generalizing st with
  | zero =>
    unfold collectLoop
    have hempty : st.vecPriority = [] := by
      have hnil := append_eq_nil_iff.mp (length_eq_zero_iff.mp (Nat.le_zero.mp hfuel))
      exact map_eq_nil_iff.mp hnil.1
    rw [hempty]
    exact ⟨st, rfl⟩
  | succ fuel ih =>
    unfold collectLoop
    split
    next => exact ⟨st, rfl⟩
    next top rest htop =>
      have hin : top.tx ∈ inPlay st.toCandidates ++ st.vtx := by
        refine mem_append_left _ (mem_append_left _ ?_)
        rw [queued, htop, map_cons]
        exact mem_cons_self
      obtain ⟨hget, hcoinbase⟩ := hplay.known top.tx hin
      obtain ⟨s, hstep⟩ : ∃ s, processTop env fProofOfStake nCoinbaseTime db pool pindexPrev
          (popTop env st) top = .ok s :=
        processTop_returns hcoinbase (hconnected.values _ _ hget) hplay.orphans halive
      have hround := round_of_processTop hplay.orphans htop hstep
      obtain ⟨st', hloop⟩ := ih (hplay.round hround)
        (by rw [hround.mapDependers, hround.orphans]; exact halive)
        (by
          have hlen := hround.inPlay.length_eq
          rw [length_cons] at hlen
          omega)
      exact ⟨st', bind_eq_ok.mpr ⟨s, hstep, hloop⟩⟩

theorem inPlay_length_le {st : Assembly D} (h : InPlay env pool st) :
    (inPlay st.toCandidates).length ≤ pool.mapTx.size := by
  have hnodup := h.nodup
  rw [map_append, nodup_append] at hnodup
  have hsub : (inPlay st.toCandidates).map (CTransaction.getHash env.H) ⊆ pool.mapTx.keys := by
    intro hash hin
    obtain ⟨tx, htx, rfl⟩ := mem_map.mp hin
    refine mem_toFinset.mp (mem_keys_iff.mpr ⟨tx, ?_⟩)
    exact (h.known tx (mem_append_left _ htx)).1
  have hlen := (subperm_of_subset hnodup.1 hsub).length_le
  rwa [length_map, length_keys] at hlen

/-- **`CreateNewBlock` collects its transactions.** -/
theorem collectTransactions_returns (hpool : Indexed env.H pool)
    (hconnected : Connected env db pool) (fProofOfStake : Bool) (nCoinbaseTime : UInt32) :
    ∃ st, collectTransactions env fProofOfStake nCoinbaseTime db pindexPrev pool = .ok st := by
  obtain ⟨candidates, hcollect, halive⟩ := collect_returns hconnected
  have hplay := InPlay.start (collect_ok hpool hcollect)
  obtain ⟨st, hloop⟩ : ∃ st, collectLoop env fProofOfStake nCoinbaseTime db pool pindexPrev
      pool.mapTx.size (startAssembly env candidates) = .ok st :=
    collectLoop_returns hconnected hplay halive (inPlay_length_le hplay)
  exact ⟨st, bind_eq_ok.mpr ⟨candidates, hcollect, hloop⟩⟩

end Fantom.Miner
