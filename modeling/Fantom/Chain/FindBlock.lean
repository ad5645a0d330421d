/-
  Fantom.Chain.FindBlock — The block of the best chain at a height.

  * `finds_of_mem`, `Sound.finds` — where the search ends,
  * `findBlockByHeight_ancestor` — in every run, the block of the best chain.

  A new best block empties the cache; a call that fails leaves it, and the best chain, as they are.
-/
import Fantom.Chain.BestChain
import Fantom.Lib.WhileLoop

namespace Fantom.Chain

open Core Lib

/-! ## §1. `FindBlockByHeight`. -/

/-- The node, with the static `pblockindexFBBHLast`. -/
structure Finder where
  node : Node
  pblockindexFBBHLast : Option CBlockIndex

namespace Finder

/-- Where the search starts; none where a null pointer is followed, and null inside. -/
def startAt (s : Finder) (nHeight : Int) : Option (Option CBlockIndex) :=
  let pblockindex :=
    if nHeight < s.node.nBestHeight.tdiv 2 then s.node.pindexGenesisBlock else s.node.pindexBest
  match s.pblockindexFBBHLast with
  | none => some pblockindex
  | some last =>
    match pblockindex with
    | none => none
    | some p =>
      if (nHeight - p.nHeight).natAbs > (nHeight - last.nHeight).natAbs then some (some last)
      else some (some p)

/-- `while (pblockindex->nHeight > nHeight) pblockindex = pblockindex->pprev`, one turn.  The loop
is left with none where a null pointer is followed. -/
def downTurn (nHeight : Int) : Option CBlockIndex → Option CBlockIndex ⊕ Option CBlockIndex
  | none => .inr none
  | some p => if p.nHeight > nHeight then .inl p.pprev else .inr (some p)

/-- `while (pblockindex->nHeight < nHeight) pblockindex = pblockindex->pnext`, one turn. -/
def upTurn (pnext : CBlockIndex → Option CBlockIndex) (nHeight : Int) :
    Option CBlockIndex → Option CBlockIndex ⊕ Option CBlockIndex
  | none => .inr none
  | some p => if p.nHeight < nHeight then .inl (pnext p) else .inr (some p)

/-- `FindBlockByHeight(nHeight)` comes to an end: with a block, or with none where a null pointer is
followed. -/
inductive Finds (s : Finder) (nHeight : Int) : Option CBlockIndex → Prop where
  | nowhere : s.startAt nHeight = none → Finds s nHeight none
  | below {pblockindex : Option CBlockIndex} : s.startAt nHeight = some pblockindex →
      WhileLoop.Ends (downTurn nHeight) pblockindex none → Finds s nHeight none
  | reached {pblockindex r : Option CBlockIndex} {p : CBlockIndex} :
      s.startAt nHeight = some pblockindex →
      WhileLoop.Ends (downTurn nHeight) pblockindex (some p) →
      WhileLoop.Ends (upTurn s.node.mem.pnext nHeight) (some p) r → Finds s nHeight r

/-- What happens to a node: a call of `SetBestChain`, or a search that returned a block. -/
inductive Event where
  | setBestChain (c : Call)
  | found (nHeight : Int) (pblockindex : CBlockIndex)

/-- `pblockindexFBBHLast = NULL` stands among the last lines of `SetBestChain`. -/
def step (s : Finder) : Event → Finder
  | .setBestChain c =>
    ⟨c.step s.node, if accepts (c.answer s.node).1 then none else s.pblockindexFBBHLast⟩
  | .found _ pblockindex => { s with pblockindexFBBHLast := some pblockindex }

/-- The events of a run: calls for indexed blocks that connect every block up to the new one, and
searches for heights up to that of the best block. -/
def Allowed (t : BlockTree) (s : Finder) : Event → Prop
  | .setBestChain c => IndexedAs t s.node c ∧ unbroken s.node c = true
  | .found nHeight pblockindex =>
    0 ≤ nHeight ∧ nHeight ≤ s.node.nBestHeight ∧ s.Finds nHeight (some pblockindex)

/-! ## §2. The height of the best block. -/

/-- A node before its genesis block, or one whose height is that of its best block, with the block
that was found last on its best chain. -/
def Sound (t : BlockTree) (s : Finder) : Prop :=
  (Settled t s.node ∧ s.node.pindexBest = none ∧ s.node.nBestHeight = -1 ∧
    s.pblockindexFBBHLast = none) ∨
  ∃ best, Consistent t s.node best ∧ s.node.nBestHeight = best.nHeight ∧
    ∀ last, s.pblockindexFBBHLast = some last → last ∈ best.branch

end Finder

/-! ## §3. What `SetBestChain` leaves until its last lines. -/

def Unmoved (node node' : Node) : Prop :=
  node'.pindexBest = node.pindexBest ∧ node'.nBestHeight = node.nBestHeight

theorem Unmoved.trans {a b c : Node} (h : Unmoved a b) (h' : Unmoved b c) : Unmoved a c :=
  ⟨h'.1.trans h.1, h'.2.trans h.2⟩

theorem invalidChainFound_unmoved (node : Node) (pindexNew : CBlockIndex) :
    Unmoved node (invalidChainFound node.txnAbort pindexNew) := by
  unfold invalidChainFound
  split <;> exact ⟨rfl, rfl⟩

variable (env : ChainEnv)

variable (node : Node)

theorem setBestChainInner_unmoved (pindexBest : CBlockIndex) (b : CBlock) (pindexNew :
    CBlockIndex) : Unmoved node (setBestChainInner env node pindexBest b pindexNew).2 := by
  unfold setBestChainInner commitInner
  split
  · split <;> exact ⟨rfl, rfl⟩
  · exact ⟨rfl, rfl⟩
  · exact invalidChainFound_unmoved node pindexNew

theorem reconnect_unmoved (pindexBest : CBlockIndex) (node : Node) (l : List CBlockIndex) :
    Unmoved node (reconnect env pindexBest node l).2 := by
  induction l generalizing node with
  | nil => exact ⟨rfl, rfl⟩
  | cons pindex rest ih =>
    rw [reconnect]
    split
    · exact ⟨rfl, rfl⟩
    next block _ =>
      have hinner : Unmoved node _ :=
        setBestChainInner_unmoved env node.txnBegin pindexBest block pindex
      split
      next node' heq =>
        rw [heq] at hinner
        exact hinner.trans (ih node')
      next heq =>
        rw [heq] at hinner
        exact hinner
      next heq =>
        rw [heq] at hinner
        exact hinner

theorem reorganize_unmoved {node node' : Node} {pindexBest pindexNew : CBlockIndex}
    (h : reorganize env node pindexBest pindexNew = .ok node') : Unmoved node node' := by
  obtain ⟨_, _, _, _, _, _, _, _, _, _, _, rfl⟩ := reorganize_eq_ok env h
  exact ⟨rfl, rfl⟩

theorem advanceChain_unmoved (b : CBlock) (pindexNew : CBlockIndex) :
    Unmoved node (advanceChain env node b pindexNew).2 := by
  unfold advanceChain
  split
  · unfold startChain
    split <;> exact ⟨rfl, rfl⟩
  split
  · exact ⟨rfl, rfl⟩
  next pindexBest _ =>
    split
    · have hinner := setBestChainInner_unmoved env node pindexBest b pindexNew
      rw [extendChain_snd]
      exact hinner
    · unfold switchChain
      dsimp only
      split
      next next heq =>
        exact (reorganize_unmoved env heq).trans (reconnect_unmoved env pindexBest next _)
      next => exact ⟨rfl, rfl⟩
      next => exact invalidChainFound_unmoved node pindexNew

variable {env}

theorem answer_best (c : Call) :
    if accepts (c.answer node).1 then
      (c.step node).pindexBest = some c.pindexNew ∧ (c.step node).nBestHeight = c.pindexNew.nHeight
    else Unmoved node (c.step node) := by
  have hadv : Unmoved node _ := advanceChain_unmoved c.env (c.met node).txnBegin c.b c.pindexNew
  rw [Call.step, answer_eq]
  cases hr : advanceChain c.env (c.met node).txnBegin c.b c.pindexNew with
  | mk r node' =>
    rw [hr] at hadv
    cases r with
    | ok u =>
      have haccepts : accepts (Except.ok () : Except Failure Unit) = true := rfl
      exact (if_pos haccepts).mpr ⟨rfl, rfl⟩
    | error f =>
      have hrefuses : ¬ accepts (Except.error f : Except Failure Unit) = true :=
        Bool.noConfusion
      exact (if_neg hrefuses).mpr hadv

/-! ## §4. The search. -/

namespace Finder

variable {s : Finder} {nHeight : Int} {best : CBlockIndex}

theorem down_ends (h0 : 0 ≤ nHeight) {p : CBlockIndex} (hp : p ∈ best.branch) :
    ∃ low, WhileLoop.Ends (downTurn nHeight) (some p) low ∧
      ∃ q ∈ best.branch, low = some q ∧ q.nHeight ≤ nHeight := by
  apply WhileLoop.ends_of_measure (I := fun o => ∃ p ∈ best.branch, o = some p)
    (fun o => o.elim 0 fun p => p.nHeight)
  · intro o o' ho hturn
    obtain ⟨p, hp, rfl⟩ := ho
    rw [downTurn] at hturn
    split at hturn
    next hgt =>
      cases hturn
      -- a block above height zero has a parent
      cases p with
      | root d => exact absurd hgt (by show ¬ (0 : Nat) > nHeight; omega)
      | child parent d =>
        refine ⟨⟨parent, CBlockIndex.links.parent_mem_line hp rfl, rfl⟩, ?_⟩
        show parent.nHeight < parent.nHeight + 1
        omega
    next => exact nomatch hturn
  · intro o r ho hturn
    obtain ⟨p, hp, rfl⟩ := ho
    rw [downTurn] at hturn
    split at hturn
    next => exact nomatch hturn
    next hle =>
      cases hturn
      exact ⟨p, hp, rfl, by omega⟩
  · exact ⟨p, hp, rfl⟩

theorem up_ends {pnext : CBlockIndex → Option CBlockIndex}
    (hlinked : CBlockIndex.links.Linked pnext best) (hle : nHeight ≤ best.nHeight)
    {p : CBlockIndex} (hp : p ∈ best.branch) (hlow : p.nHeight ≤ nHeight) :
    ∃ r, WhileLoop.Ends (upTurn pnext nHeight) (some p) r ∧
      ∃ q ∈ best.branch, r = some q ∧ q.nHeight = nHeight := by
  apply WhileLoop.ends_of_measure
    (I := fun o => ∃ p ∈ best.branch, o = some p ∧ (p.nHeight : Int) ≤ nHeight)
    (fun o => o.elim 0 fun p => (nHeight - p.nHeight).toNat)
  · intro o o' ho hturn
    obtain ⟨p, hp, rfl, hlow⟩ := ho
    rw [upTurn] at hturn
    split at hturn
    next hlt =>
      cases hturn
      -- it is below the end of the chain
      have hne : p ≠ best := by
        intro heq
        rw [heq] at hlt
        omega
      obtain ⟨q, hq, hqmem, hpar⟩ := hlinked.next_of_mem hp hne
      have hrank : q.nHeight = p.nHeight + 1 := CBlockIndex.links.rank_parent q p hpar
      rw [hq]
      refine ⟨⟨q, hqmem, rfl, by omega⟩, ?_⟩
      show (nHeight - q.nHeight).toNat < (nHeight - p.nHeight).toNat
      omega
    next => exact nomatch hturn
  · intro o r ho hturn
    obtain ⟨p, hp, rfl, hlow⟩ := ho
    rw [upTurn] at hturn
    split at hturn
    next => exact nomatch hturn
    next hge =>
      cases hturn
      exact ⟨p, hp, rfl, by omega⟩
  · exact ⟨p, hp, rfl, hlow⟩

theorem Finds.unique {r r' : Option CBlockIndex} (h : s.Finds nHeight r)
    (h' : s.Finds nHeight r') : r = r' := by
  cases h with
  | nowhere hstart =>
    cases h' with
    | nowhere => rfl
    | below => rfl
    | reached hstart' => rw [hstart] at hstart'; exact nomatch hstart'
  | below hstart hdown =>
    cases h' with
    | nowhere => rfl
    | below => rfl
    | reached hstart' hdown' =>
      rw [hstart] at hstart'
      cases hstart'
      cases hdown.unique hdown'
  | reached hstart hdown hup =>
    cases h' with
    | nowhere hstart' => rw [hstart] at hstart'; exact nomatch hstart'
    | below hstart' hdown' =>
      rw [hstart] at hstart'
      cases hstart'
      exact nomatch hdown.unique hdown'
    | reached hstart' hdown' hup' =>
      rw [hstart] at hstart'
      cases hstart'
      obtain rfl := Option.some.inj (hdown.unique hdown')
      exact hup.unique hup'

/-- **Where the search ends** that starts on the best chain. -/
theorem finds_of_mem {p : CBlockIndex} (hstart : s.startAt nHeight = some (some p))
    (hp : p ∈ best.branch) (hlinked : CBlockIndex.links.Linked s.node.mem.pnext best)
    (h0 : 0 ≤ nHeight) (hle : nHeight ≤ best.nHeight) :
    ∃ q ∈ best.branch, q.nHeight = nHeight ∧ s.Finds nHeight (some q) := by
  obtain ⟨_, hdown, low, hlow, rfl, hlowle⟩ := down_ends h0 hp
  obtain ⟨_, hup, q, hq, rfl, hheight⟩ := up_ends hlinked hle hlow hlowle
  exact ⟨q, hq, hheight, Finds.reached hstart hdown hup⟩

/-! ## §5. Every run. -/

variable (nHeight) in
theorem startAt_mem {t : BlockTree} (hcons : Consistent t s.node best)
    (hlast : ∀ last, s.pblockindexFBBHLast = some last → last ∈ best.branch) :
    ∃ p ∈ best.branch, s.startAt nHeight = some (some p) := by
  have hne : best.branch ≠ [] := List.ne_nil_of_mem best.self_mem_branch
  -- the genesis block and the best block are there
  have hends : ∃ p ∈ best.branch, (if nHeight < s.node.nBestHeight.tdiv 2 then
      s.node.pindexGenesisBlock else s.node.pindexBest) = some p := by
    split
    · refine ⟨best.branch.getLast hne, List.getLast_mem hne, ?_⟩
      rw [hcons.connected.genesis, List.getLast?_eq_some_getLast hne]
    · exact ⟨best, best.self_mem_branch, hcons.pindexBest⟩
  obtain ⟨p, hp, hends⟩ := hends
  rw [startAt, hends]
  cases hcache : s.pblockindexFBBHLast with
  | none => exact ⟨p, hp, rfl⟩
  | some last =>
    dsimp only
    split
    · exact ⟨last, hlast last hcache, rfl⟩
    · exact ⟨p, hp, rfl⟩

/-- **A sound search ends at the block of the best chain**, whatever was found last. -/
theorem Sound.finds {t : BlockTree} (h : Sound t s) (h0 : 0 ≤ nHeight)
    (hle : nHeight ≤ s.node.nBestHeight) :
    ∃ best, s.node.pindexBest = some best ∧
      ∃ q ∈ best.branch, q.nHeight = nHeight ∧ s.Finds nHeight (some q) := by
  cases h with
  | inl hbefore =>
    obtain ⟨_, _, hheight, _⟩ := hbefore
    omega
  | inr hafter =>
    obtain ⟨best, hcons, hheight, hlast⟩ := hafter
    obtain ⟨p, hp, hstart⟩ := startAt_mem nHeight hcons hlast
    exact ⟨best, hcons.pindexBest,
      finds_of_mem hstart hp hcons.connected.linked h0 (by omega)⟩

theorem Sound.setBestChain {t : BlockTree} {c : Call} (h : Sound t s) (hc : IndexedAs t s.node c)
    (hu : unbroken s.node c = true) : Sound t (s.step (.setBestChain c)) := by
  have hbest := answer_best s.node c
  cases hanswer : accepts (c.answer s.node).1 with
  | true =>
    -- the new block is the best one, and nothing is cached
    obtain ⟨u, hok⟩ := accepts_iff.mp hanswer
    rw [hanswer, if_pos rfl] at hbest
    have hcons : Consistent t (c.step s.node) c.pindexNew := by
      cases h with
      | inl hbefore =>
        obtain ⟨hsettled, hnone, _, _⟩ := hbefore
        rcases hsettled with ⟨_, hgenesis, hpnext⟩ | ⟨best, hcons⟩
        · exact (settled_of_start hnone hgenesis hpnext hc).2 hok
        · rw [hcons.pindexBest] at hnone
          exact nomatch hnone
      | inr hafter =>
        obtain ⟨best, hcons, _, _⟩ := hafter
        exact (viewsAgree_of_consistent hcons hc hok).2 hu
    refine .inr ⟨c.pindexNew, hcons, hbest.2, ?_⟩
    intro last hlast
    simp [step, hanswer] at hlast
  | false =>
    rw [hanswer, if_neg (by simp)] at hbest
    have hcache : (s.step (.setBestChain c)).pblockindexFBBHLast = s.pblockindexFBBHLast := by
      simp [step, hanswer]
    cases h with
    | inl hbefore =>
      obtain ⟨hsettled, hnone, hheight, hempty⟩ := hbefore
      exact .inl ⟨settled_step hsettled hc hu, hbest.1.trans hnone, hbest.2.trans hheight,
        hcache.trans hempty⟩
    | inr hafter =>
      obtain ⟨best, hcons, hheight, hlast⟩ := hafter
      obtain ⟨best', hcons'⟩ := consistent_step hcons hc hu
      have hsame : best' = best := by
        have hstays := hcons'.pindexBest.symm.trans (hbest.1.trans hcons.pindexBest)
        exact Option.some.inj hstays
      subst hsame
      refine .inr ⟨best', hcons', hbest.2.trans hheight, ?_⟩
      rw [hcache]
      exact hlast

theorem Sound.found {t : BlockTree} {pblockindex : CBlockIndex} (h : Sound t s)
    (h0 : 0 ≤ nHeight) (hle : nHeight ≤ s.node.nBestHeight)
    (hfinds : s.Finds nHeight (some pblockindex)) :
    Sound t (s.step (.found nHeight pblockindex)) := by
  obtain ⟨best, hbest, q, hq, _, hfound⟩ := h.finds h0 hle
  have hsame : pblockindex = q := Option.some.inj (hfinds.unique hfound)
  subst hsame
  cases h with
  | inl hbefore =>
    obtain ⟨_, _, hheight, _⟩ := hbefore
    omega
  | inr hafter =>
    obtain ⟨best', hcons, hheight, _⟩ := hafter
    have hsame : best' = best := Option.some.inj (hcons.pindexBest.symm.trans hbest)
    subst hsame
    refine .inr ⟨best', hcons, hheight, ?_⟩
    intro last hlast
    cases hlast
    exact hq

theorem Sound.step {t : BlockTree} {e : Event} (h : Sound t s) (he : Allowed t s e) :
    Sound t (s.step e) := by
  cases e with
  | setBestChain c => exact h.setBestChain he.1 he.2
  | found nHeight pblockindex => exact h.found he.1 he.2.1 he.2.2

def initial : Finder := ⟨Node.initial, none⟩

/-- A node that was loaded with a best chain, and has searched for nothing. -/
structure Loaded (t : BlockTree) (s : Finder) (best : CBlockIndex) : Prop where
  consistent : Consistent t s.node best
  nBestHeight : s.node.nBestHeight = best.nHeight
  nothing : s.pblockindexFBBHLast = none

/-- **`FindBlockByHeight` returns the block of the best chain.**  In every run of best-chain
changes, each of which connects every block up to the new one, and of searches, from a node before
its genesis block or from a loaded one: each search for a height from 0 to that of the best block
comes to an end, follows no null pointer and returns the ancestor of the best block at this height,
whatever was found last. -/
theorem findBlockByHeight_ancestor {t : BlockTree} {evs : List Event} {nHeight : Int}
    (hstart : s = initial ∨ ∃ best, Loaded t s best)
    (hrun : Along Finder.step (Allowed t) s evs) (h0 : 0 ≤ nHeight)
    (hle : nHeight ≤ (run Finder.step s evs).node.nBestHeight) :
    ∃ best q, (run Finder.step s evs).node.pindexBest = some best ∧ q ∈ best.branch ∧
      q.nHeight = nHeight ∧
      ∀ r, (run Finder.step s evs).Finds nHeight r ↔ r = some q := by
  have hsound : Sound t s := by
    cases hstart with
    | inl hinitial =>
      rw [hinitial]
      exact .inl ⟨settled_initial t, rfl, rfl, rfl⟩
    | inr hloaded =>
      obtain ⟨best, hloaded⟩ := hloaded
      refine .inr ⟨best, hloaded.consistent, hloaded.nBestHeight, ?_⟩
      intro last hlast
      rw [hloaded.nothing] at hlast
      exact nomatch hlast
  have hend : Sound t (run Finder.step s evs) :=
    run_invariant (fun _ _ hs he => hs.step he) hsound hrun
  obtain ⟨best, hbest, q, hq, hheight, hfinds⟩ := hend.finds h0 hle
  refine ⟨best, q, hbest, hq, hheight, ?_⟩
  intro r
  constructor
  · intro hr
    exact hr.unique hfinds
  · intro hr
    rw [hr]
    exact hfinds

def forkEvents : List Event :=
  (forkCalls (80 * COIN)).map .setBestChain ++
    [.found 1 losingIndex, .setBestChain (thirdCall (80 * COIN))]

/-- What was found last is on the branch that lost. -/
theorem findBlockByHeight_forkEvents :
    ∃ best q, (run Finder.step initial forkEvents).node.pindexBest = some best ∧
      q ∈ best.branch ∧ q.nHeight = (1 : Int) ∧
      ∀ r, (run Finder.step initial forkEvents).Finds 1 r ↔ r = some q := by
  let s := run Finder.step initial ((forkCalls (80 * COIN)).map .setBestChain)
  have hfinds : s.Finds 1 (some losingIndex) := by
    have hstart : s.startAt 1 = some (some losingIndex) := by decide +kernel
    have hdown : downTurn 1 (some losingIndex) = .inr (some losingIndex) := by decide +kernel
    have hup : upTurn s.node.mem.pnext 1 (some losingIndex) = .inr (some losingIndex) := by
      decide +kernel
    exact Finds.reached hstart ((WhileLoop.ends_inr_iff hdown).mpr rfl)
      ((WhileLoop.ends_inr_iff hup).mpr rfl)
  have hrun : Along Finder.step (Allowed goodTree) initial forkEvents := by
    refine ⟨⟨?_, ?_⟩, ⟨?_, ?_⟩, ⟨?_, ?_⟩, ⟨?_, ?_, hfinds⟩, ⟨?_, ?_⟩, trivial⟩
    iterate 10 decide +kernel
  exact findBlockByHeight_ancestor (.inl rfl) hrun (by decide) (by decide +kernel)

end Finder

end Fantom.Chain
