/-
  Fantom.Miner.InPlay — The transactions that `CreateNewBlock` still has to look at: those in its
  queue, and those that wait for others.

  * `InPlay` — the invariant of the second loop,
  * `InPlay.round`, `collectLoop_rule` — each round of it keeps the invariant, and so does the loop.
-/
import Fantom.Miner.CreateNewBlock

namespace Fantom.Miner

open Core Chain Lib Pool List Bool

variable {D : Type}

/-! ## §1. The first loop. -/

variable (st : Candidates D)

def queued : List CTransaction := st.vecPriority.map TxPriority.tx

def waiting : List CTransaction :=
  (st.vOrphan.filter fun o => !o.setDependsOn.isEmpty).map COrphan.ptx

def inPlay : List CTransaction := queued st ++ waiting st

variable {env : MinerEnv D} {db : Records} {pool : CTxMemPool}

variable {porphan : UInt256} {done : List (UInt256 × CTransaction)} {st st' : Assembly D}
    {pindexPrev : CBlockIndex}

theorem scanInputs_setDependsOn {vin : List CTxIn} {scan scan' : InputScan D}
    {fMissingInputs : Bool}
    (h : scanInputs env db pool porphan vin scan = .ok (fMissingInputs, scan'))
    (hscan : ∀ s ∈ scan.setDependsOn, s.isEmpty = false) :
    ∀ s ∈ scan'.setDependsOn, s.isEmpty = false := by
  induction vin generalizing scan with
  | nil =>
    cases h
    exact hscan
  | cons txin vin ih =>
    unfold scanInputs at h
    split at h
    next => exact ih h hscan
    next =>
      split at h
      next =>
        split at h
        · cases h
        · cases h
          exact hscan
      next =>
        obtain ⟨txout, _, h⟩ := bind_eq_ok.mp h
        refine ih h fun s hs => ?_
        cases hs
        simp

/-- What the first loop has found after the entries `done` of the pool. -/
structure CandidatesOk (env : MinerEnv D) (done : List (UInt256 × CTransaction))
    (st : Candidates D) : Prop where
  known : ∀ tx ∈ inPlay st, (tx.getHash env.H, tx) ∈ done ∧ tx.isCoinBase = false
  nodup : ((inPlay st).map (CTransaction.getHash env.H)).Nodup
  waits : ∀ o ∈ st.vOrphan, o.setDependsOn.isEmpty = false

theorem CandidatesOk.waiting_eq {st : Candidates D} (h : CandidatesOk env done st) : waiting st =
    st.vOrphan.map COrphan.ptx := by
  rw [waiting, filter_eq_self.mpr]
  intro o ho
  rw [h.waits o ho]
  rfl

theorem CandidatesOk.start : CandidatesOk env [] (⟨[], ∅, []⟩ : Candidates D) where
  known _ hin := nomatch hin
  nodup := nodup_nil
  waits _ hin := nomatch hin

theorem CandidatesOk.more {st : Candidates D} (h : CandidatesOk env done st)
    (entry : UInt256 × CTransaction) (mapDependers : StdMap UInt256 (List UInt256)) :
    CandidatesOk env (done ++ [entry]) { st with mapDependers } where
  known tx hin := ⟨mem_append_left _ (h.known tx hin).1, (h.known tx hin).2⟩
  nodup := h.nodup
  waits := h.waits

theorem CandidatesOk.add {st st' : Candidates D} {tx : CTransaction}
    (h : CandidatesOk env (done ++ [(tx.getHash env.H, tx)]) st)
    (hnew : tx.getHash env.H ∉ (inPlay st).map (CTransaction.getHash env.H))
    (hcoinbase : tx.isCoinBase = false) (hperm : (inPlay st').Perm (tx :: inPlay st))
    (hwaits : ∀ o ∈ st'.vOrphan, o.setDependsOn.isEmpty = false) :
    CandidatesOk env (done ++ [(tx.getHash env.H, tx)]) st' where
  known tx' hin := by
    rcases mem_cons.mp (hperm.mem_iff.mp hin) with rfl | hold
    · exact ⟨mem_append_right _ (mem_singleton_self _), hcoinbase⟩
    · exact h.known tx' hold
  nodup := by
    rw [(hperm.map _).nodup_iff, map_cons, nodup_cons]
    exact ⟨hnew, h.nodup⟩
  waits := hwaits

theorem collectTx_ok {nHeight : Nat} {entry : UInt256 × CTransaction} {st st' : Candidates D}
    (hentry : entry.2.getHash env.H = entry.1) (hdistinct : entry.1 ∉ done.map Prod.fst)
    (h : CandidatesOk env done st) (hstep : collectTx env db pool nHeight st entry = .ok st') :
    CandidatesOk env (done ++ [entry]) st' := by
  obtain ⟨key, tx⟩ := entry
  obtain rfl : tx.getHash env.H = key := hentry
  unfold collectTx at hstep
  dsimp only at hstep
  split at hstep
  next =>
    cases hstep
    exact h.more _ st.mapDependers
  next hkind =>
    have hcoinbase : tx.isCoinBase = false := by
      simp only [not_eq_true, or_eq_false_iff] at hkind
      exact hkind.1.1
    obtain ⟨⟨fMissingInputs, scan⟩, hscan, hstep⟩ := bind_eq_ok.mp hstep
    have hmore := h.more (tx.getHash env.H, tx) scan.mapDependers
    dsimp only at hstep
    split at hstep
    · cases hstep
      exact hmore
    -- the id is new, as those in play are ids of earlier entries
    have hnew : tx.getHash env.H ∉ (inPlay { st with mapDependers := scan.mapDependers }).map
        (CTransaction.getHash env.H) := by
      intro hin
      obtain ⟨tx', hin', heq⟩ := mem_map.mp hin
      exact hdistinct (mem_map.mpr ⟨_, (h.known tx' hin').1, heq⟩)
    unfold addCandidate at hstep
    obtain ⟨nValueOut, _, hstep⟩ := bind_eq_ok.mp hstep
    split at hstep
    next setDependsOn hset =>
      cases hstep
      have hdepends : setDependsOn.isEmpty = false :=
        scanInputs_setDependsOn hscan nofun setDependsOn hset
      refine hmore.add hnew hcoinbase ?_ fun o ho => ?_
      · unfold inPlay waiting queued
        dsimp only
        rw [filter_append, filter_cons_of_pos (by rw [hdepends]; rfl), filter_nil,
          map_append, ← append_assoc]
        exact perm_append_singleton tx _
      · rcases mem_append.mp ho with hold | hlast
        · exact h.waits o hold
        · rw [mem_singleton.mp hlast]
          exact hdepends
    next =>
      cases hstep
      refine hmore.add hnew hcoinbase ?_ h.waits
      unfold inPlay waiting queued
      dsimp only
      rw [map_append]
      exact perm_append_comm.append_right _

/-- **The first loop** finds transactions of the pool, each of them once. -/
theorem collect_ok (hpool : Indexed env.H pool) {nHeight : Nat} {st : Candidates D}
    (h : pool.mapTx.toList.foldlM (collectTx env db pool nHeight) ⟨[], ∅, []⟩ = .ok st) :
    CandidatesOk env pool.mapTx.toList st := by
  refine foldlM_rule (f := collectTx env db pool nHeight) (CandidatesOk env) .start ?_ h
  intro done entry rest s s' hsplit hs hstep
  have hin : entry ∈ pool.mapTx.toList := by
    rw [hsplit]
    exact mem_append_right _ mem_cons_self
  refine collectTx_ok (hpool.ids _ _ ?_) ?_ hs hstep
  · exact Std.ExtTreeMap.mem_toList_iff_getElem?_eq_some.mp hin
  · intro hmem
    obtain ⟨other, hother, heq⟩ := mem_map.mp hmem
    have hkeys := Std.ExtTreeMap.distinct_keys_toList (t := pool.mapTx)
    rw [hsplit, pairwise_append] at hkeys
    refine hkeys.2.2 other hother entry mem_cons_self ?_
    rw [heq]
    exact Std.ReflCmp.compare_self

/-! ## §2. Waking. -/

def orphanIds (env : MinerEnv D) (st : Candidates D) : List UInt256 :=
  st.vOrphan.map fun o => o.ptx.getHash env.H

theorem dependOn_others {vOrphan : List (COrphan D)} {setDependsOn : StdSet UInt256}
    (h : ∀ o ∈ vOrphan, o.ptx.getHash env.H ≠ porphan) :
    dependOn env porphan setDependsOn vOrphan = vOrphan := by
  unfold dependOn
  refine (map_congr_left fun o ho => ?_).trans (map_id vOrphan)
  rw [if_neg]
  · rfl
  · rw [beq_iff_eq]
    exact h o ho

theorem dependOn_split {vOrphan : List (COrphan D)} {o : COrphan D}
    (hfind : vOrphan.find? (fun o => o.ptx.getHash env.H == porphan) = some o)
    (hnodup : (vOrphan.map fun o => o.ptx.getHash env.H).Nodup) (setDependsOn : StdSet UInt256) :
    ∃ pre post, vOrphan = pre ++ o :: post ∧
      dependOn env porphan setDependsOn vOrphan = pre ++ { o with setDependsOn } :: post := by
  obtain ⟨hid, pre, post, rfl, hpre⟩ := find?_eq_some_iff_append.mp hfind
  rw [map_append, map_cons, nodup_append, nodup_cons] at hnodup
  have hid' : o.ptx.getHash env.H = porphan := eq_of_beq hid
  have hbefore : dependOn env porphan setDependsOn pre = pre := by
    refine dependOn_others fun o' ho' heq => ?_
    have hother := hpre o' ho'
    rw [heq, beq_self_eq_true] at hother
    cases hother
  have hafter : dependOn env porphan setDependsOn post = post := by
    refine dependOn_others fun o' ho' heq => hnodup.2.1.1 ?_
    rw [hid', ← heq]
    exact mem_map_of_mem ho'
  refine ⟨pre, post, rfl, ?_⟩
  unfold dependOn at hbefore hafter ⊢
  rw [map_append, map_cons, if_pos hid, hbefore, hafter]

/-- **One orphan wakes**: it moves from the ones that wait to the queue, or stays. -/
theorem wakeOne_ok {hash : UInt256} (hnodup : (orphanIds env st.toCandidates).Nodup)
    (h : wakeOne env hash st porphan = .ok st') :
    (∃ vOrphan vecPriority, st' = { st with vOrphan := vOrphan, vecPriority := vecPriority }) ∧
      (inPlay st'.toCandidates).Perm (inPlay st.toCandidates) ∧
      orphanIds env st'.toCandidates = orphanIds env st.toCandidates := by
  unfold wakeOne at h
  obtain ⟨o, hfind, h⟩ := bind_eq_ok.mp h
  rw [required_eq_ok] at hfind
  split at h
  next =>
    cases h
    exact ⟨⟨_, _, rfl⟩, .refl _, rfl⟩
  next hset =>
    obtain ⟨pre, post, hsplit, hdepend⟩ := dependOn_split hfind hnodup (o.setDependsOn.erase hash)
    have hids : (dependOn env porphan (o.setDependsOn.erase hash) st.vOrphan).map
        (fun o => o.ptx.getHash env.H) = st.vOrphan.map fun o => o.ptx.getHash env.H := by
      rw [hdepend, hsplit, map_append, map_append, map_cons, map_cons]
    have hwaits : waiting st.toCandidates =
        (pre.filter fun o => !o.setDependsOn.isEmpty).map COrphan.ptx ++
          o.ptx :: (post.filter fun o => !o.setDependsOn.isEmpty).map COrphan.ptx := by
      rw [waiting, hsplit, filter_append, filter_cons_of_pos (by simpa using hset),
        map_append, map_cons]
    dsimp only at h
    split at h
    next hempty =>
      cases h
      refine ⟨⟨_, _, rfl⟩, ?_, hids⟩
      -- the orphan leaves the ones that wait and joins the queue
      have hpush := (env.heap.pushHeap_perm (txPriorityCompare env st.fSortedByFee) st.vecPriority
        ⟨o.dPriority, o.dFeePerKb, o.ptx⟩).map TxPriority.tx
      unfold inPlay
      rw [hwaits]
      unfold waiting queued
      dsimp only
      rw [hdepend, filter_append, filter_cons_of_neg (by rw [hempty]; decide),
        map_append]
      refine (hpush.append_right _).trans ?_
      rw [map_cons, cons_append, ← append_assoc, ← append_assoc]
      exact perm_middle.symm
    next hleft =>
      cases h
      refine ⟨⟨_, _, rfl⟩, ?_, hids⟩
      have hkept : (o.setDependsOn.erase hash).isEmpty = false := eq_false_iff.mpr hleft
      unfold inPlay
      rw [hwaits]
      unfold waiting queued
      dsimp only
      rw [hdepend, filter_append, filter_cons_of_pos (by rw [hkept]; rfl),
        map_append, map_cons]

/-- **The transactions that depend on one** wake, and nothing else changes. -/
theorem wake_ok {hash : UInt256} (hnodup : (orphanIds env st.toCandidates).Nodup)
    (h : wake env hash st = .ok st') :
    (∃ vOrphan vecPriority, st' = { st with vOrphan := vOrphan, vecPriority := vecPriority }) ∧
      (inPlay st'.toCandidates).Perm (inPlay st.toCandidates) ∧
      orphanIds env st'.toCandidates = orphanIds env st.toCandidates := by
  unfold wake at h
  refine foldlM_invariant (f := wakeOne env hash) (fun s =>
    (∃ vOrphan vecPriority, s = { st with vOrphan := vOrphan, vecPriority := vecPriority }) ∧
      (inPlay s.toCandidates).Perm (inPlay st.toCandidates) ∧
      orphanIds env s.toCandidates = orphanIds env st.toCandidates)
    ⟨⟨_, _, rfl⟩, .refl _, rfl⟩ ?_ h
  rintro porphan _ s s' ⟨⟨vOrphan, vecPriority, rfl⟩, hperm, hids⟩ hstep
  rw [← hids] at hnodup
  obtain ⟨⟨vOrphan', vecPriority', rfl⟩, hperm', hids'⟩ := wakeOne_ok hnodup hstep
  exact ⟨⟨vOrphan', vecPriority', rfl⟩, hperm'.trans hperm, hids'.trans hids⟩

/-! ## §3. The second loop. -/

variable {fProofOfStake : Bool} {nCoinbaseTime : UInt32} {top : TxPriority D}

/-- **What a round does** with the transaction on top: nothing but, perhaps, to order the
queue anew, or the transaction is put into the block and others wake. -/
theorem processTop_cases
    (h : processTop env fProofOfStake nCoinbaseTime db pool pindexPrev st top = .ok st') :
    (∃ vecPriority fSortedByFee, vecPriority.Perm st.vecPriority ∧
      st' = { st with vecPriority := vecPriority, fSortedByFee := fSortedByFee }) ∨
    ∃ vecPriority fSortedByFee spent, vecPriority.Perm st.vecPriority ∧
      isSkipped env fProofOfStake nCoinbaseTime st top = false ∧
      spendInputs env db pool pindexPrev st top.tx = .ok spent ∧
      wake env (top.tx.getHash env.H) (({ st with
        vecPriority := vecPriority, fSortedByFee := fSortedByFee } : Assembly D).add top.tx spent) =
          .ok st' := by
  unfold processTop at h
  split at h
  next =>
    cases h
    exact .inl ⟨st.vecPriority, st.fSortedByFee, .refl _, rfl⟩
  next hskipped =>
    obtain ⟨vecPriority, fSortedByFee, hperm, heq⟩ : ∃ vecPriority fSortedByFee,
        vecPriority.Perm st.vecPriority ∧ prioritizeByFee env st top =
          { st with vecPriority := vecPriority, fSortedByFee := fSortedByFee } := by
      unfold prioritizeByFee
      split
      · exact ⟨_, _, env.heap.makeHeap_perm _ _, rfl⟩
      · exact ⟨st.vecPriority, st.fSortedByFee, .refl _, rfl⟩
    rw [heq] at h
    dsimp only at h
    split at h
    next => cases h
    next =>
      cases h
      exact .inl ⟨vecPriority, fSortedByFee, hperm, rfl⟩
    next spent hspent =>
      exact .inr ⟨vecPriority, fSortedByFee, spent, hperm, eq_false_iff.mpr hskipped,
        hspent, h⟩

def Assembly.block (st : Assembly D) : TxIndexMap × Nat × UInt32 × List CTransaction × Int64 :=
  (st.mapTestPool, st.nBlockSize, st.nBlockSigOps, st.vtx, st.nFees)

/-- **A round** takes a transaction out of play.  The block stays as it is, or gets the
transaction. -/
structure Round (env : MinerEnv D) (db : Records) (pool : CTxMemPool) (pindexPrev : CBlockIndex)
    (tx : CTransaction) (st st' : Assembly D) : Prop where
  inPlay : (inPlay st.toCandidates).Perm (tx :: inPlay st'.toCandidates)
  orphans : orphanIds env st'.toCandidates = orphanIds env st.toCandidates
  mapDependers : st'.mapDependers = st.mapDependers
  block : st'.block = st.block ∨ ∃ spent, st.nBlockSize + tx.getSerializeSize < env.nBlockMaxSize ∧
    spendInputs env db pool pindexPrev st tx = .ok spent ∧ st'.block = (st.add tx spent).block

def popTop (env : MinerEnv D) (st : Assembly D) : Assembly D :=
  { st with
    vecPriority := env.heap.popHeap (txPriorityCompare env st.fSortedByFee) st.vecPriority }

theorem inPlay_popTop {rest : List (TxPriority D)} (h : st.vecPriority = top :: rest) :
    (inPlay st.toCandidates).Perm (top.tx :: inPlay (popTop env st).toCandidates) := by
  have hpop := env.heap.popHeap_perm (txPriorityCompare env st.fSortedByFee) top rest
  unfold inPlay queued popTop
  rw [h, map_cons, cons_append]
  exact ((hpop.map _).symm.append_right _).cons _

theorem round_of_processTop {rest : List (TxPriority D)}
    (hnodup : (orphanIds env st.toCandidates).Nodup) (htop : st.vecPriority = top :: rest) (h :
    processTop env fProofOfStake nCoinbaseTime db pool pindexPrev (popTop env st) top = .ok st') :
    Round env db pool pindexPrev top.tx st st' := by
  have hpop : (inPlay st.toCandidates).Perm (top.tx :: inPlay (popTop env st).toCandidates) :=
    inPlay_popTop htop
  rcases processTop_cases h with ⟨vecPriority, fSortedByFee, hperm, rfl⟩ |
    ⟨vecPriority, fSortedByFee, spent, hperm, hskipped, hspent, hwake⟩
  · exact ⟨hpop.trans (((hperm.symm.map _).append_right _).cons _), rfl, rfl, .inl rfl⟩
  · obtain ⟨⟨vOrphan, vecPriority', rfl⟩, hplay, hids⟩ := wake_ok (by exact hnodup) hwake
    refine ⟨hpop.trans (List.Perm.cons _ ?_), hids, rfl, .inr ⟨spent, ?_, hspent, rfl⟩⟩
    · exact ((hperm.symm.map _).append_right _).trans hplay.symm
    · simp only [isSkipped, or_eq_false_iff, decide_eq_false_iff_not] at hskipped
      exact Nat.not_le.mp hskipped.1.1.1

/-- The transactions in play and in the block are in the pool, and each is there once. -/
structure InPlay (env : MinerEnv D) (pool : CTxMemPool) (st : Assembly D) : Prop where
  known : ∀ tx ∈ inPlay st.toCandidates ++ st.vtx, pool.mapTx[tx.getHash env.H]? = some tx ∧
    tx.isCoinBase = false
  nodup : ((inPlay st.toCandidates ++ st.vtx).map (CTransaction.getHash env.H)).Nodup
  orphans : (orphanIds env st.toCandidates).Nodup

theorem InPlay.start {st : Candidates D}
    (h : CandidatesOk env pool.mapTx.toList st) : InPlay env pool (startAssembly env st) := by
  have hperm : (inPlay (startAssembly env st).toCandidates ++ (startAssembly env st).vtx).Perm
      (inPlay st) := by
    have hheap := env.heap.makeHeap_perm
      (txPriorityCompare env (decide (env.nBlockPrioritySize = 0))) st.vecPriority
    rw [startAssembly, append_nil]
    exact (hheap.map _).append_right _
  refine ⟨fun tx hin => ?_, ?_, ?_⟩
  · obtain ⟨hentry, hcoinbase⟩ := h.known tx (hperm.mem_iff.mp hin)
    exact ⟨Std.ExtTreeMap.mem_toList_iff_getElem?_eq_some.mp hentry, hcoinbase⟩
  · exact (hperm.map _).nodup_iff.mpr h.nodup
  · have hnodup := h.nodup
    rw [inPlay, h.waiting_eq, map_append, map_map] at hnodup
    exact (nodup_append.mp hnodup).2.1

theorem InPlay.round {tx : CTransaction} (h : InPlay env pool st)
    (hround : Round env db pool pindexPrev tx st st') :
    InPlay env pool st' := by
  have hsub : (inPlay st'.toCandidates ++ st'.vtx).Subperm (inPlay st.toCandidates ++ st.vtx) := by
    have hleft := hround.inPlay.symm
    rcases hround.block with hsame | ⟨spent, _, _, hadd⟩
    · have hvtx : st'.vtx = st.vtx := congrArg (·.2.2.2.1) hsame
      rw [hvtx]
      exact ((sublist_cons_self _ _).append_right _).subperm.trans
        (hleft.append_right _).subperm
    · have hvtx : st'.vtx = st.vtx ++ [tx] := congrArg (·.2.2.2.1) hadd
      rw [hvtx, ← append_assoc]
      refine ((perm_append_singleton tx _).trans ?_).subperm
      exact hleft.append_right _
  refine ⟨fun other hin => h.known other (hsub.subset hin), ?_, ?_⟩
  · obtain ⟨l, hperm, hsublist⟩ := hsub
    exact (hperm.map _).nodup_iff.mp (h.nodup.sublist (hsublist.map _))
  · rw [hround.orphans]
    exact h.orphans

/-- **The loop rule**: an invariant of the rounds holds at the end, when the queue is
empty. -/
theorem collectLoop_rule {fuel : Nat} (I : Assembly D → Prop) (hround : ∀ tx s s', InPlay env pool s
    → tx ∈ inPlay s.toCandidates → Round env db pool pindexPrev tx s s' → I s → I s')
    (hplay : InPlay env pool st) (hI : I st)
    (h : collectLoop env fProofOfStake nCoinbaseTime db pool pindexPrev fuel st = .ok st') :
    InPlay env pool st' ∧ I st' := by
  induction fuel generalizing st with
  | zero =>
    unfold collectLoop at h
    split at h
    · cases h
      exact ⟨hplay, hI⟩
    · cases h
  | succ fuel ih =>
    unfold collectLoop at h
    split at h
    next =>
      cases h
      exact ⟨hplay, hI⟩
    next top rest htop =>
      obtain ⟨s, hstep, h⟩ := bind_eq_ok.mp h
      have hr := round_of_processTop hplay.orphans htop hstep
      refine ih (hplay.round hr) (hround top.tx st s hplay ?_ hr hI) h
      exact hr.inPlay.mem_iff.mpr mem_cons_self

end Fantom.Miner
