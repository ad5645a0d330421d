/-
  Fantom.Blocks.OrphanMaps — The two maps of the orphan store over whole runs of `ProcessBlock`.

  * `orphan_maps_agree` — a run.

  During a round the index by parents still has the pointers that were deleted; the invariant then
  holds of the other entries (`DuringRound`).
-/
import Fantom.Blocks.ProcessBlock

namespace Fantom.Blocks

open Core Chain Lib List OrphanBlocks Nat StdMultimap

/-! ## §1. The orphans of an accepted block. -/

variable {H : Hashes} {rank : UInt256 → Nat}

/-- The objects of `s'` are objects of `s`. -/
def Shrinks (s s' : OrphanBlocks H) : Prop := ∀ p o, s'.heap p = some o → s.heap p = some o

variable {s : OrphanBlocks H} {p : Ptr} {hashPrev : UInt256} {nMaxOrphanBlocks : Int64} {b : CBlock}

theorem Shrinks.trans {s' s'' : OrphanBlocks H} (h : Shrinks s s') (h' : Shrinks s' s'') :
    Shrinks s s'' := fun p o ho => h p o (h' p o ho)

theorem shrinks_forget (s : OrphanBlocks H) (p : Ptr) (o : COrphanBlock H) :
    Shrinks s (s.forget p o) := by
  intro q o' ho'
  rw [forget_heap] at ho'
  split at ho'
  next => cases ho'
  next => exact ho'

theorem RankedBy.of_shrinks {s' : OrphanBlocks H} (hr : RankedBy rank s) (h : Shrinks s s') :
    RankedBy rank s' := fun p o ho => hr p o (h p o ho)

/-- The store in a round for `hashPrev` that began with `start`, with the pointers `rest`
still to come. -/
structure DuringRound (start : OrphanBlocks H) (hashPrev : UInt256) (rest : List Ptr)
    (s : OrphanBlocks H) : Prop where
  consistent : Consistent s.heap s.mapOrphanBlocks
    (rest.map (fun p => (hashPrev, p)) ++ start.mapOrphanBlocksByPrev.eraseKey hashPrev)
  fresh : ∀ p, s.nextPtr ≤ p → s.heap p = none
  byPrev_eq : s.mapOrphanBlocksByPrev = start.mapOrphanBlocksByPrev
  shrinks : Shrinks start s

variable (env : BlockEnv)

theorem processChild_eq {st : BlockState H × List UInt256} {o : COrphanBlock H}
    (ho : st.1.orphans.heap p = some o) :
    (∃ what, processChild env st p = .error (.threw what)) ∨
    processChild env st p =
      .ok (⟨(acceptBlock env st.1.chain o.vchBlock).2, st.1.orphans.forget p o⟩,
        if accepts (acceptBlock env st.1.chain o.vchBlock).1 then st.2 ++ [o.hashBlock]
        else st.2) := by
  rw [processChild, Sound.deref_eq ho, ok_bind]
  rcases acceptBlock env st.1.chain o.vchBlock with ⟨(nDoS | what) | _, chain⟩
  · exact .inr rfl
  · exact .inl ⟨what, rfl⟩
  · exact .inr rfl

theorem fresh_forget (hfresh : ∀ p, s.nextPtr ≤ p → s.heap p = none) (p : Ptr)
    (o : COrphanBlock H) : ∀ q, s.nextPtr ≤ q → (s.forget p o).heap q = none := by
  intro q hle
  rw [forget_heap]
  split
  next => rfl
  next => exact hfresh q hle

theorem DuringRound.start (hs : Sound s) (hashPrev : UInt256) :
    DuringRound s hashPrev (s.mapOrphanBlocksByPrev.equalRange hashPrev) s where
  consistent := hs.consistent.perm (s.mapOrphanBlocksByPrev.perm_equalRange hashPrev)
  fresh := hs.fresh
  byPrev_eq := rfl
  shrinks _ _ := id

theorem DuringRound.next {start : OrphanBlocks H} {rest : List Ptr}
    (h : DuringRound start hashPrev (p :: rest) s) :
    ∃ o, s.heap p = some o :=
  Option.isSome_iff_exists.mp ((h.consistent.live p).mpr (by simp))

theorem DuringRound.forget {start : OrphanBlocks H} {rest : List Ptr} {o : COrphanBlock H}
    (h : DuringRound start hashPrev (p :: rest) s) (ho : s.heap p = some o) : DuringRound start
    hashPrev rest (s.forget p o) where
  consistent := h.consistent.remove ho
  fresh := fresh_forget h.fresh p o
  byPrev_eq := h.byPrev_eq
  shrinks := h.shrinks.trans (shrinks_forget s p o)

theorem DuringRound.end {start : OrphanBlocks H} (h : DuringRound start hashPrev [] s) :
    Sound { s with mapOrphanBlocksByPrev := s.mapOrphanBlocksByPrev.eraseKey hashPrev } where
  consistent := by
    have hcons := h.consistent
    rw [map_nil, nil_append, ← h.byPrev_eq] at hcons
    exact hcons
  fresh := h.fresh

theorem processChild_safe {start : OrphanBlocks H} {rest : List Ptr} {st :
    BlockState H × List UInt256} {n : Nat} (h : DuringRound start hashPrev (p :: rest) st.1.orphans)
    (hlen : st.2.length + (p :: rest).length ≤ n) : Safe (processChild env st p) fun st' =>
    DuringRound start hashPrev rest st'.1.orphans ∧ st'.2.length + rest.length ≤ n := by
  obtain ⟨o, ho⟩ := h.next
  rcases processChild_eq env ho with ⟨what, heq⟩ | heq
  · rw [heq]
    exact .threw what
  · rw [heq]
    refine .ok ⟨h.forget ho, ?_⟩
    rw [length_cons] at hlen
    dsimp only
    split
    · rw [length_append, length_singleton]
      omega
    · omega

/-- **A round of the outer loop** deletes the children of a block from both maps. -/
theorem processRound_safe (hashPrev : UInt256) {s : BlockState H} (hs : Sound s.orphans) :
    Safe (processRound env hashPrev s) fun r => Sound r.1.orphans ∧
    Shrinks s.orphans r.1.orphans ∧ r.2.length + r.1.orphans.mapOrphanBlocksByPrev.length ≤
    s.orphans.mapOrphanBlocksByPrev.length := by
  have hlen := (s.orphans.mapOrphanBlocksByPrev.perm_equalRange hashPrev).length_eq
  rw [length_append, length_map] at hlen
  unfold processRound
  refine (Safe.foldlM (I := fun rest st => DuringRound s.orphans hashPrev rest st.1.orphans ∧
      st.2.length + rest.length ≤
        (s.orphans.mapOrphanBlocksByPrev.equalRange hashPrev).length)
    (fun p rest st hst => processChild_safe env hst.1 hst.2)
    ⟨.start hs hashPrev, by rw [length_nil, zero_add]⟩).bind fun r ⟨hdone, hwork⟩ => ?_
  refine .ok ⟨hdone.end, hdone.shrinks, ?_⟩
  dsimp only
  rw [hdone.byPrev_eq]
  rw [length_nil] at hwork
  omega

/-- **The work queue is worked off**: every other entry of it is the hash of an orphan that
was deleted, so as many rounds as orphans and one more are enough. -/
theorem workLoop_safe {fuel : Nat} {queue : List UInt256} {s : BlockState H}
    (hs : Sound s.orphans) (hfuel : queue.length + s.orphans.mapOrphanBlocksByPrev.length ≤ fuel) :
    Safe (workLoop env fuel queue s) fun s' => Sound s'.orphans ∧ Shrinks s.orphans s'.orphans ∧
    s'.orphans.mapOrphanBlocksByPrev.length ≤ s.orphans.mapOrphanBlocksByPrev.length := by
  induction fuel generalizing queue s with
  | zero =>
    cases queue with
    | nil => exact .ok ⟨hs, fun _ _ => id, le_refl _⟩
    | cons hashPrev queue =>
      rw [length_cons] at hfuel
      omega
  | succ fuel ih =>
    cases queue with
    | nil => exact .ok ⟨hs, fun _ _ => id, le_refl _⟩
    | cons hashPrev queue =>
      rw [length_cons] at hfuel
      unfold workLoop
      refine (processRound_safe env hashPrev hs).bind fun r ⟨hs', hshrinks, hlen⟩ => ?_
      refine (ih hs' ?_).mono fun s'' ⟨hs'', hshrinks', hlen'⟩ =>
        ⟨hs'', hshrinks.trans hshrinks', by omega⟩
      rw [length_append]
      omega

/-! ## §2. A new orphan. -/

/-- The store of a node: the invariant, acyclic hashes, and no more than one orphan above
the limit. -/
structure StoreOk (rank : UInt256 → Nat) (nMaxOrphanBlocks : Int64) (s : OrphanBlocks H) :
    Prop where
  sound : Sound s
  ranked : RankedBy rank s
  bounded : s.mapOrphanBlocksByPrev.length ≤ OrphanBlocks.maxOrphans nMaxOrphanBlocks + 1

theorem sound_evict (h : Sound s) {it : Nat} {e : UInt256 × Ptr} {o : COrphanBlock H}
    (hget : s.mapOrphanBlocksByPrev[it]? = some e) (ho : s.heap e.2 = some o) :
    Sound { s.forget e.2 o with
      mapOrphanBlocksByPrev := s.mapOrphanBlocksByPrev.eraseIdx it } where
  consistent := (h.consistent.perm (perm_eraseIdx hget)).remove ho
  fresh := fresh_forget h.fresh e.2 o

theorem sound_prune {nRand : UInt32} {s' : OrphanBlocks H} (h : Sound s)
    (hprune : s.pruneOrphanBlocks nMaxOrphanBlocks nRand = .ok s') :
    Sound s' ∧ ∀ hash, s.mapOrphanBlocks.contains hash = false →
      s'.mapOrphanBlocks.contains hash = false := by
  rcases pruneOrphanBlocks_eq_ok hprune with
    ⟨_, rfl⟩ | ⟨it, e, o, _, hget, ho, rfl⟩
  · exact ⟨h, fun _ => id⟩
  · refine ⟨sound_evict h hget ho, fun hash hno => ?_⟩
    rw [StdMap.contains_eq_false_iff] at hno ⊢
    rw [OrphanBlocks.forget, StdMap.get_erase, hno, ite_self]

theorem pruneOrphanBlocks_safe (h : StoreOk rank nMaxOrphanBlocks s) (nRand : UInt32) :
    Safe (s.pruneOrphanBlocks nMaxOrphanBlocks nRand) fun s' =>
      s.pruneOrphanBlocks nMaxOrphanBlocks nRand = .ok s' ∧ RankedBy rank s' ∧
        s'.mapOrphanBlocksByPrev.length ≤ OrphanBlocks.maxOrphans nMaxOrphanBlocks := by
  rcases h.sound.pruneOrphanBlocks_cases h.ranked nMaxOrphanBlocks nRand with
    ⟨hlimit, heq⟩ | ⟨hlimit, it, e, o, hget, ho, _, heq⟩
  · rw [heq]
    exact .ok ⟨rfl, h.ranked, hlimit⟩
  · rw [heq]
    refine .ok ⟨rfl, h.ranked.of_shrinks (shrinks_forget s e.2 o), ?_⟩
    have hbounded := h.bounded
    have hit := (List.getElem?_eq_some_iff.mp hget).1
    dsimp only
    rw [length_eraseIdx_of_lt hit]
    omega

theorem sound_insertOrphan (hs : Sound s)
    (hnew : s.mapOrphanBlocks.contains (b.getHash H) = false) : Sound (s.insertOrphan b) := by
  have hperm := insert_perm s.mapOrphanBlocksByPrev b.hashPrevBlock s.nextPtr
  constructor
  · have hinsert : (s.insertOrphan b).mapOrphanBlocks =
        s.mapOrphanBlocks.insert (b.getHash H) s.nextPtr :=
      if_neg (Bool.eq_false_iff.mp hnew)
    rw [hinsert]
    exact (hs.consistent.add (o := COrphanBlock.new H b) (hs.fresh _ (le_refl _))
      (StdMap.contains_eq_false_iff.mp hnew)).perm hperm.symm
  · intro q hq
    have hlt : s.nextPtr < q := hq
    rw [insertOrphan_heap, if_neg (ne_of_gt hlt)]
    exact hs.fresh q (le_of_lt hlt)

theorem insertOrphan_ok (hs : Sound s) (hr : RankedBy rank s)
    (hlen : s.mapOrphanBlocksByPrev.length ≤ OrphanBlocks.maxOrphans nMaxOrphanBlocks)
    (hnew : s.mapOrphanBlocks.contains (b.getHash H) = false)
    (hrank : rank b.hashPrevBlock < rank (b.getHash H)) :
    StoreOk rank nMaxOrphanBlocks (s.insertOrphan b) := by
  have hperm := insert_perm s.mapOrphanBlocksByPrev b.hashPrevBlock s.nextPtr
  refine ⟨sound_insertOrphan hs hnew, ?_, ?_⟩
  · intro q o ho
    rw [insertOrphan_heap] at ho
    split at ho
    next =>
      cases ho
      exact hrank
    next => exact hr q o ho
  · have hcount := hperm.length_eq
    rw [length_cons] at hcount
    have hinsert : (s.insertOrphan b).mapOrphanBlocksByPrev =
        s.mapOrphanBlocksByPrev.insert b.hashPrevBlock s.nextPtr := rfl
    rw [hinsert]
    omega

theorem storeOrphan_safe {s : BlockState H} (nRand : UInt32) (pfrom : Option Int32)
    (h : StoreOk rank nMaxOrphanBlocks s.orphans) (hnew : s.orphans.mapOrphanBlocks.contains
    (b.getHash H) = false) (hrank : rank b.hashPrevBlock < rank (b.getHash H)) :
    Safe (storeOrphan env nMaxOrphanBlocks nRand s pfrom b) fun r =>
    StoreOk rank nMaxOrphanBlocks r.2.orphans := by
  unfold storeOrphan
  split
  · exact .ok h
  split
  · exact .ok h
  refine (pruneOrphanBlocks_safe h nRand).bind fun orphans ⟨hprune, hr, hlen⟩ => ?_
  obtain ⟨hs, hkept⟩ := sound_prune h.sound hprune
  have hok := insertOrphan_ok hs hr hlen (hkept _ hnew) hrank
  have ho : (orphans.insertOrphan b).heap orphans.nextPtr = some (.new H b) := by
    rw [insertOrphan_heap, if_pos rfl]
  obtain ⟨root, hroot, _⟩ := hok.sound.getOrphanRoot_eq hok.ranked (b.getHash H)
  obtain ⟨wanted, hwanted, _⟩ := hok.sound.wantedByOrphan_eq hok.ranked ho
  dsimp only
  rw [hroot, ok_bind, hwanted, ok_bind]
  exact .ok hok

/-! ## §3. Calls. -/

theorem canonicalize_ok {env : BlockEnv} {pfrom : Option Int32} {b' : CBlock}
    (h : canonicalize env pfrom b = .ok b') : ∃ sig, b' = { b with vchBlockSig := sig } := by
  unfold canonicalize at h
  split at h
  · cases h
    exact ⟨_, rfl⟩
  split at h
  · cases h
  · cases h
    unfold reserealizeBlockSignature
    split
    · exact ⟨_, rfl⟩
    · exact ⟨_, rfl⟩

theorem checkNew_ok {env : BlockEnv} {s : BlockState H} {pfrom : Option Int32} {b' : CBlock}
    (h : checkNew env s pfrom b = .ok b') :
    (∃ sig, b' = { b with vchBlockSig := sig }) ∧
      s.orphans.mapOrphanBlocks.contains (b.getHash env.H) = false ∧
      s.chain.mapBlockIndex.contains (b.getHash env.H) = false := by
  simp only [checkNew, bind_eq_ok, rejectIf_eq_ok] at h
  obtain ⟨_, hindex, _, horphan, _, _, _, _, b₂, hb₂, _, _, _, _, hret⟩ := h
  cases hret
  exact ⟨canonicalize_ok hb₂, horphan, hindex⟩

theorem acceptWithOrphans_safe {s : BlockState H} (hs : Sound s.orphans) (b : CBlock) :
    Safe (acceptWithOrphans env s b) fun r => Sound r.2.orphans ∧ Shrinks s.orphans r.2.orphans ∧
    r.2.orphans.mapOrphanBlocksByPrev.length ≤ s.orphans.mapOrphanBlocksByPrev.length := by
  unfold acceptWithOrphans
  rcases acceptBlock env s.chain b with ⟨(nDoS | what) | ⟨⟩, chain⟩
  · exact .ok ⟨hs, fun _ _ => id, le_refl _⟩
  · exact .threw what
  · have hfuel : [b.getHash H].length + s.orphans.mapOrphanBlocksByPrev.length ≤
        s.orphans.mapOrphanBlocksByPrev.length + 1 := (add_comm _ _).le
    exact (workLoop_safe env (s := ⟨chain, s.orphans⟩) hs hfuel).map fun _ => id

theorem sound_processBlock {s : BlockState H} {c : Call H} {r : Answer × BlockState H}
    (hs : Sound s.orphans) (h : processBlock nMaxOrphanBlocks s c = .ok r) : Sound r.2.orphans := by
  rcases processBlock_eq_ok h with heq | ⟨b, hcheck, ⟨_, h⟩ | ⟨_, h⟩⟩
  · rw [heq]
    exact hs
  · obtain ⟨⟨sig, rfl⟩, hnew, _⟩ := checkNew_ok hcheck
    rw [c.hashes] at hnew
    rcases storeOrphan_eq_ok c.env h with ⟨_, heq⟩ | ⟨_, orphans, hprune, heq⟩
    · rw [heq]
      exact hs
    · rw [heq]
      obtain ⟨hs', hkept⟩ := sound_prune hs hprune
      exact sound_insertOrphan hs' (hkept _ hnew)
  · exact ((acceptWithOrphans_safe c.env hs b).of_ok h).1

theorem processBlock_safe {s : BlockState H} {c : Call H}
    (h : StoreOk rank nMaxOrphanBlocks s.orphans)
    (hrank : rank c.block.hashPrevBlock < rank (c.block.getHash H)) :
    Safe (processBlock nMaxOrphanBlocks s c) fun r =>
      StoreOk rank nMaxOrphanBlocks r.2.orphans := by
  unfold processBlock
  cases hcheck : checkNew c.env s c.pfrom c.block with
  | error f =>
    cases f with
    | rejected nDoS msg => exact .ok h
    | threw what => exact .threw what
  | ok b =>
    obtain ⟨⟨sig, rfl⟩, hnew, _⟩ := checkNew_ok hcheck
    rw [c.hashes] at hnew
    dsimp only
    split
    · exact storeOrphan_safe c.env c.nRand c.pfrom h hnew hrank
    · exact (acceptWithOrphans_safe c.env h.sound _).mono fun r ⟨hs, hshrinks, hlen⟩ =>
        ⟨hs, h.ranked.of_shrinks hshrinks, hlen.trans h.bounded⟩

/-- Block hashes are acyclic: a block comes after its parent in some order of hashes. -/
def AcyclicHashes (H : Hashes) (blocks : List CBlock) : Prop :=
  ∃ rank : UInt256 → Nat, ∀ b ∈ blocks, rank b.hashPrevBlock < rank (b.getHash H)

theorem processBlocks_safe {calls : List (Call H)} {s : BlockState H}
    (h : StoreOk rank nMaxOrphanBlocks s.orphans)
    (hrank : ∀ b ∈ calls.map Call.block, rank b.hashPrevBlock < rank (b.getHash H)) :
    Safe (processBlocks nMaxOrphanBlocks s calls) fun s' =>
      StoreOk rank nMaxOrphanBlocks s'.orphans := by
  unfold processBlocks
  refine (Safe.foldlM (I := fun rest s => StoreOk rank nMaxOrphanBlocks s.orphans ∧
    ∀ b ∈ rest.map Call.block, rank b.hashPrevBlock < rank (b.getHash H))
    (fun c rest s ⟨hs, hrest⟩ => ?_) ⟨h, hrank⟩).mono fun s' hs' => hs'.1
  rw [map_cons, forall_mem_cons] at hrest
  exact (processBlock_safe hs hrest.1).map fun r hr => ⟨hr, hrest.2⟩

theorem storeOk_empty (nMaxOrphanBlocks : Int64) :
    StoreOk rank nMaxOrphanBlocks (OrphanBlocks.empty : OrphanBlocks H) where
  sound := .empty
  ranked _ _ ho := nomatch ho
  bounded := zero_le _

/-- **The two maps agree** after every run of calls, whatever the blocks, their order and
the evictions: they point to the same objects, each of them once, under its hash and
under that of its parent; there is one of them more than the limit at most; an evicted
block has no child in the store; and the next call returns unless it throws. -/
theorem orphan_maps_agree (nMaxOrphanBlocks : Int64) (chain : BlockIndexes)
    (calls : List (Call H)) (hacyclic : AcyclicHashes H (calls.map Call.block))
    {s : BlockState H} (hrun : processBlocks nMaxOrphanBlocks ⟨chain, .empty⟩ calls = .ok s) :
    (s.orphans.mapOrphanBlocks.toList.map Prod.snd).Perm
        (s.orphans.mapOrphanBlocksByPrev.map Prod.snd) ∧
      (s.orphans.mapOrphanBlocksByPrev.map Prod.snd).Nodup ∧
      (∀ hash p, s.orphans.mapOrphanBlocks[hash]? = some p →
        ∃ o, s.orphans.heap p = some o ∧ o.hashBlock = hash) ∧
      (∀ hash p, (hash, p) ∈ s.orphans.mapOrphanBlocksByPrev →
        ∃ o, s.orphans.heap p = some o ∧ o.hashPrev = hash) ∧
      s.orphans.mapOrphanBlocksByPrev.length ≤ OrphanBlocks.maxOrphans nMaxOrphanBlocks + 1 ∧
      (∀ nRand, ∃ orphans, s.orphans.pruneOrphanBlocks nMaxOrphanBlocks nRand = .ok orphans ∧
        ∀ p o, s.orphans.heap p = some o → orphans.heap p = none →
          Childless s.orphans o.hashBlock) ∧
      ∀ c : Call H, AcyclicHashes H ((calls ++ [c]).map Call.block) →
        ∀ e, processBlock nMaxOrphanBlocks s c = .error e → ∃ what, e = .threw what := by
  obtain ⟨rank, hrank⟩ := hacyclic
  have hs := (processBlocks_safe (storeOk_empty nMaxOrphanBlocks) hrank).of_ok hrun
  have hcons := hs.sound.consistent
  refine ⟨hcons.same_objects, hcons.nodup, fun hash p => (hcons.byHash hash p).mp, hcons.byPrev,
    hs.bounded, fun nRand => ?_, fun c hc e he => ?_⟩
  · rcases hs.sound.pruneOrphanBlocks_cases hs.ranked nMaxOrphanBlocks nRand with
      ⟨_, heq⟩ | ⟨_, it, e, o, hget, ho, hchild, heq⟩
    · refine ⟨_, heq, fun p o ho hnone => ?_⟩
      rw [ho] at hnone
      cases hnone
    · refine ⟨_, heq, fun p o' ho' hnone => ?_⟩
      have hdeleted : (s.orphans.forget e.2 o).heap p = none := hnone
      rw [forget_heap] at hdeleted
      split at hdeleted
      next hp =>
        subst hp
        obtain rfl := Option.some.inj (ho.symm.trans ho')
        exact hchild
      next =>
        rw [ho'] at hdeleted
        cases hdeleted
  · obtain ⟨rank', hrank'⟩ := hc
    rw [map_append, forall_mem_append] at hrank'
    have hs' := (processBlocks_safe (storeOk_empty nMaxOrphanBlocks) hrank'.1).of_ok hrun
    exact (processBlock_safe hs' (hrank'.2 c.block (by simp))).of_error he

def orphanCalls : List (Call sampleChainHashes) :=
  [sampleCall childBlock, sampleCall workBlock, sampleCall (sampleWork 77 3 1000)]

theorem orphan_maps_agree_orphanCalls :
    ∃ s, processBlocks 0 ⟨sampleChain, .empty⟩ orphanCalls = .ok s ∧
      s.orphans.mapOrphanBlocksByPrev.length ≤ OrphanBlocks.maxOrphans 0 + 1 := by
  have hacyclic : AcyclicHashes sampleChainHashes (orphanCalls.map Call.block) :=
    ⟨fun hash => if hash = childBlock.getHash sampleChainHashes then 3
      else if hash = workBlock.getHash sampleChainHashes then 2
      else if hash = (sampleWork 77 3 1000).getHash sampleChainHashes then 1 else 0,
      by decide +kernel⟩
  obtain ⟨s, hs⟩ := accepts_iff.mp
    (show accepts (processBlocks 0 ⟨sampleChain, .empty⟩ orphanCalls) = true by decide +kernel)
  exact ⟨s, hs, (orphan_maps_agree 0 sampleChain orphanCalls hacyclic hs).2.2.2.2.1⟩

end Fantom.Blocks
