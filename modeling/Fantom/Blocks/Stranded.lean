/-
  Fantom.Blocks.Stranded — Orphans whose parent is in the block index.

  * `none_stranded` — runs without a late failure of a parent,
  * `orphan_stranded` — a parent that fails late.
-/
import Fantom.Blocks.OrphanMaps

namespace Fantom.Blocks

open Core Chain Lib List

/-! ## §1. The calls of AcceptBlock. -/

variable {H : Hashes}

/-- A call of `AcceptBlock`: the state it meets, its block, and the orphan it is made for. -/
structure Attempt (H : Hashes) where
  state : BlockState H
  block : CBlock
  orphan : Option Ptr

/-- What a round hands to `AcceptBlock`, with the index before. -/
def childAttempts (env : BlockEnv) : BlockState H × List UInt256 → List Ptr → List (Attempt H)
  | _, [] => []
  | st, p :: rest =>
    match st.1.orphans.heap p with
    | none => []
    | some o =>
      ⟨st.1, o.vchBlock, some p⟩ ::
        match processChild env st p with
        | .error _ => []
        | .ok st => childAttempts env st rest

/-- What all the rounds hand to it. -/
def loopAttempts (env : BlockEnv) : Nat → List UInt256 → BlockState H → List (Attempt H)
  | _, [], _ => []
  | 0, _ :: _, _ => []
  | fuel + 1, hashPrev :: vWorkQueue, s =>
    childAttempts env (s, []) (s.orphans.mapOrphanBlocksByPrev.equalRange hashPrev) ++
      match processRound env hashPrev s with
      | .error _ => []
      | .ok (s, vWork) => loopAttempts env fuel (vWorkQueue ++ vWork) s

/-- The attempts of a block whose parent is indexed. -/
def acceptAttempts (env : BlockEnv) (s : BlockState H) (b : CBlock) : List (Attempt H) :=
  ⟨s, b, none⟩ ::
    match acceptBlock env s.chain b with
    | (.error _, _) => []
    | (.ok (), chain) =>
      loopAttempts env (s.orphans.mapOrphanBlocksByPrev.length + 1) [b.getHash H]
        { s with chain }

variable (s : BlockState H)

def attempts (c : Call H) : List (Attempt H) :=
  match checkNew c.env s c.pfrom c.block with
  | .error _ => []
  | .ok b =>
    if !s.chain.mapBlockIndex.contains b.hashPrevBlock then []
    else acceptAttempts c.env s b

/-! ## §2. Orphans whose parent is indexed. -/

/-- A stored block whose parent is in `mapBlockIndex`. -/
def Stranded : Prop :=
  ∃ (hash : UInt256) (p : Ptr) (o : COrphanBlock H),
    s.orphans.mapOrphanBlocks[hash]? = some p ∧ s.orphans.heap p = some o ∧
      s.chain.mapBlockIndex.contains o.hashPrev = true

instance (s : BlockState H) : Decidable (Stranded s) :=
  decidable_of_iff (∃ e ∈ s.orphans.mapOrphanBlocks.toList,
      (s.orphans.heap e.2).any fun o => s.chain.mapBlockIndex.contains o.hashPrev) <| by
    have hget {hash : UInt256} {p : Ptr} : (hash, p) ∈ s.orphans.mapOrphanBlocks.toList ↔
        s.orphans.mapOrphanBlocks[hash]? = some p :=
      Std.ExtTreeMap.mem_toList_iff_getElem?_eq_some
    unfold Stranded
    constructor
    · rintro ⟨⟨hash, p⟩, hmem, hany⟩
      obtain ⟨o, ho, hindexed⟩ := (Option.any_eq_true _ _).mp hany
      exact ⟨hash, p, o, hget.mp hmem, ho, hindexed⟩
    · rintro ⟨hash, p, o, hmem, ho, hindexed⟩
      exact ⟨(hash, p), hget.mpr hmem, (Option.any_eq_true _ _).mpr ⟨o, ho, hindexed⟩⟩

/-- A stored block whose parent is indexed is in the work queue with its parent. -/
def Waiting (vWorkQueue : List UInt256) : Prop :=
  ∀ hash p, (hash, p) ∈ s.orphans.mapOrphanBlocksByPrev →
    s.chain.mapBlockIndex.contains hash = true → hash ∈ vWorkQueue

variable {s : BlockState H}

theorem not_stranded_iff (hs : Sound s.orphans) :
    ¬Stranded s ↔ Waiting s [] := by
  constructor
  · intro h hash p hmem hindexed
    obtain ⟨o, ho, rfl⟩ := hs.consistent.byPrev hash p hmem
    exact absurd ⟨o.hashBlock, p, o, (hs.consistent.stored ho).2, ho, hindexed⟩ h
  · rintro h ⟨hash, p, o, _, ho, hindexed⟩
    have hmem := h o.hashPrev p (hs.consistent.stored ho).1 hindexed
    cases hmem

/-- `AcceptBlock` does not fail late on a block with a child in the store. -/
def Attempt.NoLateParent (env : BlockEnv) (a : Attempt H) : Prop :=
  a.state.orphans.mapOrphanBlocksByPrev.contains (a.block.getHash H) = true →
    lateFailure env a.state.chain a.block = false

instance (env : BlockEnv) (a : Attempt H) : Decidable (a.NoLateParent env) :=
  inferInstanceAs (Decidable (_ = true → _ = false))

/-- **One attempt**: the parents of stored blocks that are indexed after it were before, or
are this block, accepted. -/
theorem indexed_after {env : BlockEnv} (hH : env.H = H) {b : CBlock} {orphan : Option Ptr}
    (hlate : Attempt.NoLateParent env ⟨s, b, orphan⟩) {hash : UInt256} {p : Ptr}
    (hmem : (hash, p) ∈ s.orphans.mapOrphanBlocksByPrev)
    (h : (acceptBlock env s.chain b).2.mapBlockIndex.contains hash = true) :
    s.chain.mapBlockIndex.contains hash = true ∨
      (hash = b.getHash H ∧ (acceptBlock env s.chain b).1 = .ok ()) := by
  rw [acceptBlock_contains, Bool.or_eq_true, Bool.and_eq_true] at h
  refine h.imp_right fun ⟨henters, hhash⟩ => ?_
  have hhash : b.getHash env.H = hash := eq_of_beq hhash
  rw [hH] at hhash
  refine ⟨hhash.symm, accepts_of_entersIndex henters (hlate ?_)⟩
  rw [hhash]
  exact StdMultimap.contains_iff.mpr ⟨p, hmem⟩

/-! ## §3. The work queue. -/

variable {env : BlockEnv}

/-- During a round, the blocks to come wait for the rest of the queue or for the blocks that
the round has accepted. -/
def WaitingInRound (start : OrphanBlocks H) (hashPrev : UInt256) (vWorkQueue : List UInt256)
    (st : BlockState H × List UInt256) : Prop :=
  ∀ hash p, (hash, p) ∈ start.mapOrphanBlocksByPrev.eraseKey hashPrev →
    st.1.chain.mapBlockIndex.contains hash = true → hash ∈ vWorkQueue ++ st.2

theorem waiting_child (hH : env.H = H) {start : OrphanBlocks H} {hashPrev : UInt256} {p : Ptr}
    {rest : List Ptr} {vWorkQueue : List UInt256} {st : BlockState H × List UInt256}
    (h : DuringRound start hashPrev (p :: rest) st.1.orphans)
    (hwait : WaitingInRound start hashPrev vWorkQueue st)
    (hlate : ∀ a ∈ childAttempts env st (p :: rest), a.NoLateParent env) :
    Safe (processChild env st p) fun st' =>
      DuringRound start hashPrev rest st'.1.orphans ∧
        WaitingInRound start hashPrev vWorkQueue st' ∧
        ∀ a ∈ childAttempts env st' rest, a.NoLateParent env := by
  obtain ⟨o, ho⟩ := h.next
  rw [childAttempts, ho] at hlate
  rw [forall_mem_cons] at hlate
  rcases processChild_eq env ho with ⟨what, heq⟩ | heq
  · rw [heq]
    exact .threw what
  rw [heq] at hlate ⊢
  refine .ok ⟨h.forget ho, fun hash q hmem hindexed => ?_, hlate.2⟩
  have hin : (hash, q) ∈ st.1.orphans.mapOrphanBlocksByPrev := by
    rw [h.byPrev_eq]
    exact mem_of_mem_filter hmem
  rcases indexed_after hH hlate.1 hin hindexed with hold | ⟨hhash, hok⟩
  · have hqueue := hwait hash q hmem hold
    dsimp only
    split
    · rw [← append_assoc]
      exact mem_append_left _ hqueue
    · exact hqueue
  · dsimp only
    rw [hok, accepts_ok, if_pos rfl, hhash, o.hashBlock_eq]
    exact mem_append_right _ (mem_append_right _ (mem_singleton_self _))

theorem waiting_round (hH : env.H = H) {hashPrev : UInt256} {vWorkQueue : List UInt256}
    (hs : Sound s.orphans) (hwait : Waiting s (hashPrev :: vWorkQueue)) (hlate : ∀ a ∈ childAttempts
    env (s, []) (s.orphans.mapOrphanBlocksByPrev.equalRange hashPrev), a.NoLateParent env) :
    Safe (processRound env hashPrev s) fun r => Waiting r.1 (vWorkQueue ++ r.2) := by
  have hstart : WaitingInRound s.orphans hashPrev vWorkQueue (s, []) := by
    intro hash p hmem hindexed
    obtain ⟨hin, hne⟩ := mem_filter.mp hmem
    rw [append_nil]
    refine (mem_cons.mp (hwait hash p hin hindexed)).resolve_left fun heq => ?_
    rw [heq, bne_self_eq_false] at hne
    cases hne
  unfold processRound
  refine (Safe.foldlM (I := fun rest st => DuringRound s.orphans hashPrev rest st.1.orphans ∧
      WaitingInRound s.orphans hashPrev vWorkQueue st ∧
      ∀ a ∈ childAttempts env st rest, a.NoLateParent env)
    (fun p rest st hst => waiting_child hH hst.1 hst.2.1 hst.2.2)
    ⟨.start hs hashPrev, hstart, hlate⟩).bind fun r ⟨hdone, hwait', _⟩ => ?_
  refine .ok fun hash p hmem hindexed => hwait' hash p ?_ hindexed
  rw [← hdone.byPrev_eq]
  exact hmem

theorem waiting_workLoop (hH : env.H = H) {fuel : Nat} {vWorkQueue : List UInt256}
    (hs : Sound s.orphans)
    (hfuel : vWorkQueue.length + s.orphans.mapOrphanBlocksByPrev.length ≤ fuel)
    (hwait : Waiting s vWorkQueue)
    (hlate : ∀ a ∈ loopAttempts env fuel vWorkQueue s, a.NoLateParent env) :
    Safe (workLoop env fuel vWorkQueue s) fun s' => Waiting s' [] := by
  induction fuel generalizing vWorkQueue s with
  | zero =>
    cases vWorkQueue with
    | nil => exact .ok hwait
    | cons hashPrev vWorkQueue =>
      rw [length_cons] at hfuel
      omega
  | succ fuel ih =>
    cases vWorkQueue with
    | nil => exact .ok hwait
    | cons hashPrev vWorkQueue =>
      rw [length_cons] at hfuel
      rw [loopAttempts, forall_mem_append] at hlate
      have hround := processRound_safe env hashPrev hs
      have hwait' := waiting_round hH hs hwait hlate.1
      have hrest := hlate.2
      unfold workLoop
      cases hr : processRound env hashPrev s with
      | error e =>
        obtain ⟨what, rfl⟩ := hround.of_error hr
        exact .threw what
      | ok r =>
        obtain ⟨hs', _, hlen⟩ := hround.of_ok hr
        rw [hr] at hrest
        refine ih hs' ?_ (hwait'.of_ok hr) hrest
        rw [length_append]
        omega

/-! ## §4. Calls and runs. -/

/-- Every attempt of a call leaves no block with a child in the store in the index and
refused. -/
def NoLateParents (s : BlockState H) (c : Call H) : Prop :=
  ∀ a ∈ attempts s c, a.NoLateParent c.env

instance (s : BlockState H) (c : Call H) : Decidable (NoLateParents s c) :=
  inferInstanceAs (Decidable (∀ a ∈ attempts s c, a.NoLateParent c.env))

theorem waiting_storeOrphan {nMaxOrphanBlocks : Int64} {nRand : UInt32} {orphans : OrphanBlocks H}
    {b : CBlock} (hwait : Waiting s [])
    (hparent : s.chain.mapBlockIndex.contains b.hashPrevBlock = false)
    (hprune : s.orphans.pruneOrphanBlocks nMaxOrphanBlocks nRand = .ok orphans) :
    Waiting { s with orphans := orphans.insertOrphan b } [] := by
  have hkept : ∀ e ∈ orphans.mapOrphanBlocksByPrev, e ∈ s.orphans.mapOrphanBlocksByPrev := by
    rcases OrphanBlocks.pruneOrphanBlocks_eq_ok hprune with
      ⟨_, rfl⟩ | ⟨it, e, o, _, _, _, rfl⟩
    · exact fun e => id
    · exact fun e => mem_of_mem_eraseIdx
  intro hash p hmem hindexed
  have hperm := StdMultimap.insert_perm orphans.mapOrphanBlocksByPrev b.hashPrevBlock
    orphans.nextPtr
  rcases mem_cons.mp (hperm.mem_iff.mp hmem) with heq | hold
  · cases heq
    rw [hparent] at hindexed
    cases hindexed
  · exact hwait hash p (hkept _ hold) hindexed

theorem waiting_acceptWithOrphans (hH : env.H = H) {b : CBlock} (hs : Sound s.orphans)
    (hwait : Waiting s []) (hlate : ∀ a ∈ acceptAttempts env s b, a.NoLateParent env) :
    Safe (acceptWithOrphans env s b) fun r => Waiting r.2 [] := by
  rw [acceptAttempts, forall_mem_cons] at hlate
  have hafter (hash : UInt256) (p : Ptr) (hmem : (hash, p) ∈ s.orphans.mapOrphanBlocksByPrev)
      (hindexed : (acceptBlock env s.chain b).2.mapBlockIndex.contains hash = true) :
      hash = b.getHash H ∧ (acceptBlock env s.chain b).1 = .ok () := by
    refine (indexed_after hH hlate.1 hmem hindexed).resolve_left fun hold => ?_
    have hnone := hwait hash p hmem hold
    cases hnone
  have hrest := hlate.2
  unfold acceptWithOrphans
  rcases hcall : acceptBlock env s.chain b with ⟨(nDoS | what) | ⟨⟩, chain⟩
  · rw [hcall] at hafter
    refine .ok fun hash p hmem hindexed => ?_
    cases (hafter hash p hmem hindexed).2
  · exact .threw what
  · rw [hcall] at hafter hrest
    have hfuel : [b.getHash H].length + s.orphans.mapOrphanBlocksByPrev.length ≤
        s.orphans.mapOrphanBlocksByPrev.length + 1 := (Nat.add_comm _ _).le
    have hwait' : Waiting ⟨chain, s.orphans⟩ [b.getHash H] := by
      intro hash p hmem hindexed
      rw [(hafter hash p hmem hindexed).1]
      exact mem_singleton_self _
    exact (waiting_workLoop hH (s := ⟨chain, s.orphans⟩) hs hfuel hwait' hrest).map fun _ => id

/-- **One call** leaves no orphan with an indexed parent. -/
theorem waiting_processBlock {nMaxOrphanBlocks : Int64} {c : Call H} {r : Answer × BlockState H}
    (hs : Sound s.orphans) (hwait : Waiting s []) (hlate : NoLateParents s c)
    (h : processBlock nMaxOrphanBlocks s c = .ok r) :
    Waiting r.2 [] := by
  unfold NoLateParents attempts at hlate
  rcases processBlock_eq_ok h with heq | ⟨b, hcheck, ⟨hparent, h⟩ | ⟨hparent, h⟩⟩
  · rw [heq]
    exact hwait
  · rcases storeOrphan_eq_ok c.env h with ⟨_, heq⟩ | ⟨_, orphans, hprune, heq⟩
    · rw [heq]
      exact hwait
    · rw [heq]
      exact waiting_storeOrphan hwait hparent hprune
  · rw [hcheck] at hlate
    dsimp only at hlate
    rw [hparent, Bool.not_true, if_neg Bool.false_ne_true] at hlate
    exact (waiting_acceptWithOrphans c.hashes hs hwait hlate).of_ok h

/-- **No orphan is stranded** in a run in which no block with a child in the store fails
late. -/
theorem none_stranded (nMaxOrphanBlocks : Int64) (chain : BlockIndexes) (calls : List (Call H))
    (hlate : AlongCalls nMaxOrphanBlocks NoLateParents ⟨chain, .empty⟩ calls)
    {s : BlockState H} (hrun : processBlocks nMaxOrphanBlocks ⟨chain, .empty⟩ calls = .ok s) :
    ¬Stranded s := by
  have hstart : Waiting (⟨chain, .empty⟩ : BlockState H) [] := fun _ _ hmem => nomatch hmem
  obtain ⟨hs, hwait⟩ := processBlocks_rule
    (I := fun s => Sound s.orphans ∧ Waiting s [])
    (fun s c r hs hlate h =>
      ⟨sound_processBlock hs.1 h, waiting_processBlock hs.1 hs.2 hlate h⟩)
    ⟨.empty, hstart⟩ hlate hrun
  exact (not_stranded_iff hs).mpr hwait

theorem none_stranded_orphanCalls :
    ∃ s, processBlocks 0 ⟨sampleChain, .empty⟩ orphanCalls = .ok s ∧ ¬Stranded s := by
  obtain ⟨s, hs⟩ := accepts_iff.mp
    (show accepts (processBlocks 0 ⟨sampleChain, .empty⟩ orphanCalls) = true by decide +kernel)
  exact ⟨s, hs, none_stranded 0 sampleChain orphanCalls (by decide +kernel) hs⟩

/-! ## §5. A parent that fails late. -/

def greedyBlock : CBlock := sampleWork (startBlock.getHash sampleChainHashes) 1 (8251 * COIN)

def greedyChild : CBlock := sampleWork (greedyBlock.getHash sampleChainHashes) 2 1000

/-- **An orphan is stranded**: its parent passes `CheckBlock` and enters the index, then
`ConnectBlock` refuses its reward. -/
theorem orphan_stranded :
    ∃ s, processBlocks 10 ⟨sampleChain, .empty⟩ [sampleCall greedyChild, sampleCall greedyBlock] =
      .ok s ∧ Stranded s := by
  obtain ⟨s, hs, hstranded⟩ := toOption_any_iff.mp
    (show (processBlocks 10 ⟨sampleChain, .empty⟩
      [sampleCall greedyChild, sampleCall greedyBlock]).toOption.any
        (fun s => decide (Stranded s)) = true by decide +kernel)
  exact ⟨s, hs, of_decide_eq_true hstranded⟩

end Fantom.Blocks
