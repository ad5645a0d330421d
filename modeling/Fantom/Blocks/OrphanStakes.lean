/-
  Fantom.Blocks.OrphanStakes — The set of the stakes of stored orphans.

  * `stakes_match` — runs in which no stake is taken out that another orphan keeps,
  * `stake_forgotten` — an eviction that forgets the stake of another orphan.

  The set has no multiplicity: the first of two orphans with one stake that goes takes the stake
  with it.
-/
import Fantom.Blocks.Stranded

namespace Fantom.Blocks

open Core Chain Lib List OrphanBlocks

variable {H : Hashes}

/-! ## §1. The stakes of the stored blocks. -/

variable (s : OrphanBlocks H)

/-- `setStakeSeenOrphan` has the stakes of the proof-of-stake blocks in `mapOrphanBlocks`. -/
def StakesMatch : Prop :=
  ∀ stake, stake ∈ s.setStakeSeenOrphan ↔ ∃ (hash : UInt256) (p : Ptr) (o : COrphanBlock H),
    s.mapOrphanBlocks[hash]? = some p ∧ s.heap p = some o ∧ o.vchBlock.isProofOfStake = true ∧
      o.stake = stake

def LiveStakes : Prop :=
  ∀ stake, stake ∈ s.setStakeSeenOrphan ↔ ∃ p o, s.heap p = some o ∧
    o.vchBlock.isProofOfStake = true ∧ o.stake = stake

theorem liveStakes_iff {s : OrphanBlocks H} (hs : Sound s) : LiveStakes s ↔ StakesMatch s := by
  refine forall_congr' fun stake => iff_congr Iff.rfl ?_
  constructor
  · rintro ⟨p, o, ho, hpos, hstake⟩
    exact ⟨o.hashBlock, p, o, (hs.consistent.stored ho).2, ho, hpos, hstake⟩
  · rintro ⟨_, p, o, _, ho, hpos, hstake⟩
    exact ⟨p, o, ho, hpos, hstake⟩

/-- The object at `q` is a proof-of-stake block with the stake of the one at `p`. -/
def sharesStake (p q : Ptr) : Bool :=
  match s.heap p, s.heap q with
  | some o, some o' => o'.vchBlock.isProofOfStake && o'.stake == o.stake
  | _, _ => false

/-! ## §2. Orphans that are taken out. -/

/-- From `s` to `s'` the objects `removed` are deleted, and their stakes are erased. -/
structure Forgets (s s' : OrphanBlocks H) (removed : List Ptr) : Prop where
  heap : ∀ q, s'.heap q = if q ∈ removed then none else s.heap q
  stakes : ∀ stake, stake ∈ s'.setStakeSeenOrphan ↔ stake ∈ s.setStakeSeenOrphan ∧
    ∀ p ∈ removed, ∀ o, s.heap p = some o → o.stake ≠ stake

namespace Forgets

variable {s s' s'' : OrphanBlocks H} {removed removed' : List Ptr}

theorem refl (s : OrphanBlocks H) : Forgets s s [] where
  heap q := by rw [if_neg not_mem_nil]
  stakes stake := by simp

theorem forget {p : Ptr} {o : COrphanBlock H} (ho : s.heap p = some o) :
    Forgets s (s.forget p o) [p] where
  heap q := by simp only [forget_heap, mem_singleton]
  stakes stake := by
    unfold OrphanBlocks.forget
    simp [ho, and_comm]

theorem trans (h : Forgets s s' removed) (h' : Forgets s' s'' removed') :
    Forgets s s'' (removed ++ removed') where
  heap q := by
    rw [h'.heap, h.heap]
    by_cases hq : q ∈ removed
    · rw [if_pos hq, if_pos (mem_append_left _ hq), ite_self]
    · rw [if_neg hq]
      exact if_congr (mem_append.trans (or_iff_right hq)).symm rfl rfl
  stakes stake := by
    rw [h'.stakes, h.stakes, and_assoc]
    refine and_congr_right fun _ =>
      ⟨?_, fun hall => ⟨fun p hp o => hall p (mem_append_left _ hp) o,
      fun p hp o ho => ?_⟩⟩
    · rintro ⟨hfirst, hsecond⟩ p hp o ho
      by_cases hin : p ∈ removed
      · exact hfirst p hin o ho
      · refine hsecond p ((mem_append.mp hp).resolve_left hin) o ?_
        rw [h.heap, if_neg hin]
        exact ho
    · rw [h.heap] at ho
      split at ho
      next => cases ho
      next => exact hall p (mem_append_right _ hp) o ho

/-- **The set still matches** when no orphan that stays has a stake that was taken out. -/
theorem liveStakes (h : Forgets s s' removed) (hs : LiveStakes s)
    (hkeep : ∀ p ∈ removed, ∀ q, sharesStake s p q = true → q ∈ removed) : LiveStakes s' := by
  intro stake
  rw [h.stakes, hs stake]
  constructor
  · rintro ⟨⟨q, o, ho, hpos, hstake⟩, hgone⟩
    refine ⟨q, o, ?_, hpos, hstake⟩
    rw [h.heap, if_neg fun hq => hgone q hq o ho hstake]
    exact ho
  · rintro ⟨q, o', ho', hpos, hstake⟩
    rw [h.heap] at ho'
    split at ho'
    next => cases ho'
    next hq =>
      refine ⟨⟨q, o', ho', hpos, hstake⟩, fun p hp o ho heq => hq (hkeep p hp q ?_)⟩
      rw [sharesStake, ho, ho']
      simp [hpos, hstake, heq]

end Forgets

variable {env : BlockEnv}

def orphansOf (l : List (Attempt H)) : List Ptr := l.filterMap Attempt.orphan

theorem processChild_eq_ok {st st' : BlockState H × List UInt256} {p : Ptr}
    (h : processChild env st p = .ok st') :
    ∃ o, st.1.orphans.heap p = some o ∧ st'.1.orphans = st.1.orphans.forget p o := by
  obtain ⟨o, ho, _⟩ := bind_eq_ok.mp (show (st.1.orphans.deref p >>= _) = _ from h)
  have ho : st.1.orphans.heap p = some o := required_eq_ok.mp ho
  refine ⟨o, ho, ?_⟩
  rcases processChild_eq env ho with ⟨what, heq⟩ | heq
  · rw [heq] at h
    cases h
  · rw [heq] at h
    cases h
    rfl

theorem forgets_children {ps : List Ptr} {st st' : BlockState H × List UInt256}
    (h : ps.foldlM (processChild env) st = .ok st') :
    Forgets st.1.orphans st'.1.orphans (orphansOf (childAttempts env st ps)) := by
  induction ps generalizing st with
  | nil =>
    cases h
    exact .refl _
  | cons p rest ih =>
    rw [foldlM_cons] at h
    obtain ⟨st₁, hchild, hrest⟩ := bind_eq_ok.mp h
    obtain ⟨o, ho, horphans⟩ := processChild_eq_ok hchild
    have htail := ih hrest
    rw [horphans] at htail
    rw [childAttempts, ho]
    dsimp only
    rw [hchild]
    exact (Forgets.forget ho).trans htail

theorem forgets_workLoop {fuel : Nat} {vWorkQueue : List UInt256} {s s' : BlockState H}
    (h : workLoop env fuel vWorkQueue s = .ok s') :
    Forgets s.orphans s'.orphans (orphansOf (loopAttempts env fuel vWorkQueue s)) := by
  induction fuel generalizing vWorkQueue s with
  | zero =>
    cases vWorkQueue with
    | nil =>
      cases h
      exact .refl _
    | cons hashPrev vWorkQueue => cases h
  | succ fuel ih =>
    cases vWorkQueue with
    | nil =>
      cases h
      exact .refl _
    | cons hashPrev vWorkQueue =>
      unfold workLoop at h
      obtain ⟨⟨s₁, vWork⟩, hround, hrest⟩ := bind_eq_ok.mp h
      obtain ⟨⟨s₂, vWork'⟩, hfold, hret⟩ :=
        bind_eq_ok.mp (show (foldlM (processChild env) _ _ >>= _) = _ from hround)
      cases hret
      unfold loopAttempts orphansOf
      rw [hround, filterMap_append]
      dsimp only
      have hfirst := forgets_children hfold
      have herased : Forgets s.orphans { s₂.orphans with
          mapOrphanBlocksByPrev := s₂.orphans.mapOrphanBlocksByPrev.eraseKey hashPrev }
          (orphansOf (childAttempts env (s, [])
            (s.orphans.mapOrphanBlocksByPrev.equalRange hashPrev))) :=
        ⟨hfirst.heap, hfirst.stakes⟩
      exact herased.trans (ih hrest)

theorem forgets_acceptWithOrphans {s : BlockState H} {b : CBlock} {r : Answer × BlockState H}
    (h : acceptWithOrphans env s b = .ok r) :
    Forgets s.orphans r.2.orphans (orphansOf (acceptAttempts env s b)) := by
  unfold acceptWithOrphans at h
  unfold acceptAttempts orphansOf
  rw [filterMap_cons_none rfl]
  rcases hcall : acceptBlock env s.chain b with ⟨(nDoS | what) | ⟨⟩, chain⟩
  · rw [hcall] at h
    cases h
    exact .refl _
  · rw [hcall] at h
    cases h
  · rw [hcall] at h
    dsimp only at h
    cases hloop : workLoop env (s.orphans.mapOrphanBlocksByPrev.length + 1) [b.getHash H]
        { s with chain } with
    | error e =>
      rw [hloop] at h
      cases h
    | ok s' =>
      rw [hloop] at h
      cases h
      exact forgets_workLoop hloop

theorem forgets_prune {nMaxOrphanBlocks : Int64} {nRand : UInt32} {s s' : OrphanBlocks H}
    (h : s.pruneOrphanBlocks nMaxOrphanBlocks nRand = .ok s') :
    Forgets s s' (s.evicted nMaxOrphanBlocks nRand).toList := by
  rcases pruneOrphanBlocks_eq_ok h with
    ⟨hnone, rfl⟩ | ⟨it, e, o, hevicted, _, ho, rfl⟩
  · rw [hnone]
    exact .refl _
  · rw [hevicted]
    have hforget := Forgets.forget ho
    exact ⟨hforget.heap, hforget.stakes⟩

/-! ## §3. Calls and runs. -/

/-- The orphans that a call deletes: the one that is evicted for a new orphan, or those
that are tried after their parents. -/
def takenOut (nMaxOrphanBlocks : Int64) (s : BlockState H) (c : Call H) : List Ptr :=
  match checkNew c.env s c.pfrom c.block with
  | .error _ => []
  | .ok b =>
    if !s.chain.mapBlockIndex.contains b.hashPrevBlock then
      if c.pfrom.isNone || duplicateOrphan s.orphans b then []
      else (s.orphans.evicted nMaxOrphanBlocks c.nRand).toList
    else orphansOf (acceptAttempts c.env s b)

/-- With an orphan that a call deletes go all the stored ones with its stake. -/
def KeepsStakes (nMaxOrphanBlocks : Int64) (s : BlockState H) (c : Call H) : Prop :=
  ∀ p ∈ takenOut nMaxOrphanBlocks s c, ∀ e ∈ s.orphans.mapOrphanBlocksByPrev,
    sharesStake s.orphans p e.2 = true → e.2 ∈ takenOut nMaxOrphanBlocks s c

instance (nMaxOrphanBlocks : Int64) (s : BlockState H) (c : Call H) :
    Decidable (KeepsStakes nMaxOrphanBlocks s c) := by
  unfold KeepsStakes
  infer_instance

theorem liveStakes_insertOrphan {s : OrphanBlocks H} (hs : Sound s) (h : LiveStakes s)
    (b : CBlock) : LiveStakes (s.insertOrphan b) := by
  intro stake
  have hfresh := hs.fresh s.nextPtr (Nat.le_refl _)
  have hset : stake ∈ (s.insertOrphan b).setStakeSeenOrphan ↔
      (b.isProofOfStake = true ∧ getProofOfStake b = stake) ∨ stake ∈ s.setStakeSeenOrphan := by
    unfold OrphanBlocks.insertOrphan COrphanBlock.new
    dsimp only
    split
    next hpos => simp [hpos]
    next hpow => simp [hpow]
  rw [hset, h stake]
  constructor
  · rintro (⟨hpos, hstake⟩ | ⟨p, o, ho, hpos, hstake⟩)
    · refine ⟨s.nextPtr, .new H b, ?_, hpos, hstake⟩
      rw [insertOrphan_heap, if_pos rfl]
    · refine ⟨p, o, ?_, hpos, hstake⟩
      rw [insertOrphan_heap, if_neg]
      · exact ho
      · rintro rfl
        rw [hfresh] at ho
        cases ho
  · rintro ⟨p, o, ho, hpos, hstake⟩
    rw [insertOrphan_heap] at ho
    split at ho
    next =>
      cases ho
      exact .inl ⟨hpos, hstake⟩
    next => exact .inr ⟨p, o, ho, hpos, hstake⟩

theorem mem_of_sharesStake {s : OrphanBlocks H} (hs : Sound s) {p q : Ptr}
    (h : sharesStake s p q = true) : ∃ hash, (hash, q) ∈ s.mapOrphanBlocksByPrev := by
  unfold sharesStake at h
  split at h
  next o o' ho ho' => exact ⟨o'.hashPrev, (hs.consistent.stored ho').1⟩
  next => cases h

/-- **One call** keeps the set when it keeps the stakes. -/
theorem liveStakes_processBlock {nMaxOrphanBlocks : Int64} {s : BlockState H} {c : Call H}
    {r : Answer × BlockState H} (hs : Sound s.orphans) (hlive : LiveStakes s.orphans)
    (hkeeps : KeepsStakes nMaxOrphanBlocks s c)
    (h : processBlock nMaxOrphanBlocks s c = .ok r) : LiveStakes r.2.orphans := by
  have hkeep : ∀ p ∈ takenOut nMaxOrphanBlocks s c, ∀ q, sharesStake s.orphans p q = true →
      q ∈ takenOut nMaxOrphanBlocks s c := by
    intro p hp q hq
    obtain ⟨hash, hmem⟩ := mem_of_sharesStake hs hq
    exact hkeeps p hp (hash, q) hmem hq
  unfold takenOut at hkeep
  rcases processBlock_eq_ok h with heq | ⟨b, hcheck, ⟨hparent, h⟩ | ⟨hparent, h⟩⟩
  · rw [heq]
    exact hlive
  · rcases storeOrphan_eq_ok c.env h with ⟨_, heq⟩ | ⟨hnew, orphans, hprune, heq⟩
    · rw [heq]
      exact hlive
    · rw [heq]
      simp only [hcheck, hparent, hnew, Bool.not_false, if_true, Bool.false_eq_true,
        if_false] at hkeep
      exact liveStakes_insertOrphan (sound_prune hs hprune).1
        ((forgets_prune hprune).liveStakes hlive hkeep) b
  · simp only [hcheck, hparent, Bool.not_true, Bool.false_eq_true, if_false] at hkeep
    exact (forgets_acceptWithOrphans h).liveStakes hlive hkeep

/-- **The set has the stakes of the stored blocks** after every run in which no orphan is
deleted without the other ones that have its stake. -/
theorem stakes_match (nMaxOrphanBlocks : Int64) (chain : BlockIndexes) (calls : List (Call H))
    (hkeeps : AlongCalls nMaxOrphanBlocks (KeepsStakes nMaxOrphanBlocks) ⟨chain, .empty⟩ calls)
    {s : BlockState H} (hrun : processBlocks nMaxOrphanBlocks ⟨chain, .empty⟩ calls = .ok s) :
    StakesMatch s.orphans := by
  have hstart : LiveStakes (OrphanBlocks.empty : OrphanBlocks H) := by
    intro stake
    simp [OrphanBlocks.empty]
  obtain ⟨hs, hlive⟩ := processBlocks_rule
    (I := fun s => Sound s.orphans ∧ LiveStakes s.orphans)
    (fun s c r hs hkeeps h =>
      ⟨sound_processBlock hs.1 h, liveStakes_processBlock hs.1 hs.2 hkeeps h⟩)
    ⟨.empty, hstart⟩ hkeeps hrun
  exact (liveStakes_iff hs).mp hlive

/-- An orphan with a stake, its child, and a second orphan with the stake that the child
allows. -/
def stakeBlock : CBlock := sampleStake 77 ⟨5, 0⟩

def secondStake : CBlock := sampleStake 78 ⟨5, 0⟩

def stakeChild : CBlock := sampleWork (secondStake.getHash sampleChainHashes) 3 1000

def stakeCalls : List (Call sampleChainHashes) :=
  [sampleCall stakeBlock, sampleCall stakeChild, sampleCall secondStake]

theorem stakes_match_stakeCalls :
    ∃ s, processBlocks 10 ⟨sampleChain, .empty⟩ stakeCalls = .ok s ∧ StakesMatch s.orphans := by
  obtain ⟨s, hs⟩ := accepts_iff.mp
    (show accepts (processBlocks 10 ⟨sampleChain, .empty⟩ stakeCalls) = true by decide +kernel)
  exact ⟨s, hs, stakes_match 10 sampleChain stakeCalls (by decide +kernel) hs⟩

/-! ## §4. An eviction that forgets a stake. -/

/-- **The stake of a stored orphan is forgotten**: the first orphan with it is evicted. -/
theorem stake_forgotten :
    ∃ s, processBlocks 2 ⟨sampleChain, .empty⟩
        (stakeCalls ++ [sampleCall (sampleWork 79 2 1000)]) = .ok s ∧
      ¬StakesMatch s.orphans := by
  obtain ⟨s, hs, hkept⟩ := toOption_any_iff.mp
    (show (processBlocks 2 ⟨sampleChain, .empty⟩
      (stakeCalls ++ [sampleCall (sampleWork 79 2 1000)])).toOption.any (fun s =>
        !s.orphans.setStakeSeenOrphan.contains (getProofOfStake secondStake) &&
        (s.orphans.mapOrphanBlocks[secondStake.getHash sampleChainHashes]?).any fun p =>
          (s.orphans.heap p).any fun o =>
            o.vchBlock.isProofOfStake && o.stake == getProofOfStake secondStake) = true by
      decide +kernel)
  obtain ⟨hforgotten, hstored⟩ := Bool.and_eq_true_iff.mp hkept
  obtain ⟨p, hp, hany⟩ := (Option.any_eq_true _ _).mp hstored
  obtain ⟨o, ho, hstake⟩ := (Option.any_eq_true _ _).mp hany
  rw [Bool.and_eq_true, beq_iff_eq] at hstake
  refine ⟨s, hs, fun hmatch => ?_⟩
  have hmem := (hmatch (getProofOfStake secondStake)).mpr ⟨_, p, o, hp, ho, hstake⟩
  rw [Bool.not_eq_true', ← Bool.not_eq_true] at hforgotten
  exact hforgotten hmem

end Fantom.Blocks
