/-
  Fantom.Chain.Broken — A call of `SetBestChain` whose last loop stops before the new block.

  * `broken_best` — the database then names another best block than the memory.
-/
import Fantom.Chain.BestChain

namespace Fantom.Chain

open Core Lib

/-! ## §1. The end of the loop. -/

theorem SameBest.refl (node : Node) : SameBest node node := ⟨rfl, rfl⟩

/-- **The loop over the postponed blocks ends at one of them**, or where it started; and not
at the last one unless all of them connect. -/
theorem reconnect_tip (env : ChainEnv) (pindexBest : CBlockIndex) {tip top : CBlockIndex}
    {l : List CBlockIndex} {node : Node} (hl : CBlockIndex.links.Ascends tip l top)
    (hc : Connected node tip) :
    ∃ tip', Connected (reconnect env pindexBest node l).2 tip' ∧
      SameBest node (reconnect env pindexBest node l).2 ∧ (tip' = tip ∨ tip' ∈ l) ∧
      (reconnects env pindexBest node l = false → tip' ≠ top) := by
  induction hl generalizing node with
  | refl tip => exact ⟨tip, hc, .refl node, .inl rfl, nofun⟩
  | @cons tip pindex top l hprev hl ih =>
    have hbelow : tip ≠ top := by
      have hrank := (ParentLinks.Ascends.cons hprev hl).rank_eq
      intro heq
      rw [heq, List.length_cons] at hrank
      omega
    rw [reconnect]
    cases hread : readFromDisk env pindex with
    | none => exact ⟨tip, hc, .refl node, .inl rfl, fun _ => hbelow⟩
    | some block =>
      dsimp only
      rcases reconnects_cons node pindexBest l hread with
        ⟨next, hinner, heq⟩ | ⟨f, next, hinner, heq⟩
      · obtain ⟨hnext, hsame⟩ := setBestChainInner_ok hc.txnBegin hprev
          (hash_of_readFromDisk hread) hinner
        obtain ⟨tip', htip', hsame', hmem, hne⟩ := ih hnext
        rw [hinner, heq]
        refine ⟨tip', htip', SameBest.trans hsame hsame', .inr ?_, hne⟩
        rcases hmem with rfl | hmem
        · exact List.mem_cons_self
        · exact List.mem_cons_of_mem _ hmem
      · obtain ⟨hnext, hsame⟩ := setBestChainInner_error hc hinner
        rw [hinner]
        cases f <;> exact ⟨tip, hnext, hsame, .inl rfl, fun _ => hbelow⟩

/-! ## §2. The blocks on the way. -/

theorem postpone_trust {nBestTrust : UInt256} {p q : CBlockIndex}
    (hq : q = (postpone nBestTrust p).1 ∨ q ∈ (postpone nBestTrust p).2) (hne : q ≠ p) :
    q.nChainTrust > nBestTrust := by
  induction p with
  | root d =>
    rcases hq with rfl | hq
    · exact absurd rfl hne
    · cases hq
  | child p d ih =>
    rw [postpone] at hq
    split at hq
    next hgt =>
      by_cases hqp : q = p
      · rw [hqp]
        exact hgt
      · rcases hq with hq | hq
        · exact ih (.inl hq) hqp
        · exact ih (.inr ((List.mem_cons.mp hq).resolve_left hne)) hqp
    next =>
      rcases hq with rfl | hq
      · exact absurd rfl hne
      · cases hq

/-! ## §3. Two best blocks. -/

/-- **A broken call leaves two best blocks**: the one that the database names, and that of
the memory. -/
theorem broken_best {t : BlockTree} {node : Node} {best : CBlockIndex} {c : Call}
    (hn : Consistent t node best) (hc : IndexedAs t node c) (hu : unbroken node c = false) :
    ∃ tip pindexBest : CBlockIndex, (c.step node).txdb.disk.hashBestChain = some tip.getBlockHash ∧
      (c.step node).pindexBest = some pindexBest ∧
      tip.getBlockHash ≠ pindexBest.getBlockHash := by
  rw [unbroken, hn.pindexBest] at hu
  dsimp only at hu
  have hadvance := hn.advanceChain_eq (c := c)
  split at hu
  next => cases hu
  next hprev =>
    rw [if_neg hprev] at hadvance
    unfold switchChain at hadvance
    dsimp only at hadvance
    split at hu
    next => cases hu
    next next hreorg =>
      rw [hreorg] at hadvance
      dsimp only at hadvance
      obtain ⟨hnext, hsame⟩ := reorganize_ok (hn.met c).txnBegin hreorg
      have hup := ascends_postpone best.nChainTrust c.pindexNew
      obtain ⟨tip, htip, hsame', hmem, hne⟩ :=
        reconnect_tip c.env best hup hnext
      have hnew : tip ≠ c.pindexNew := hne hu
      have hway : tip = (postpone best.nChainTrust c.pindexNew).1 ∨
          tip ∈ (postpone best.nChainTrust c.pindexNew).2 := by
        rcases hmem with h | h
        · exact .inl h
        · exact .inr (List.mem_reverse.mp h)
      have htree : tip ∈ t := by
        refine BlockTree.branch_mem hc.mem ?_
        rcases hmem with rfl | h
        · exact hup.mem_line
        · exact (hup.of_mem h).1
      have hold : tip ≠ best := by
        rintro rfl
        exact BitVec.lt_irrefl _ (postpone_trust hway hnew)
      rw [Call.step, answer_eq, hadvance]
      cases hloop : reconnect c.env best next
          (postpone best.nChainTrust c.pindexNew).2.reverse with
      | mk r node' =>
        rw [hloop] at htip hsame'
        cases r with
        | ok u =>
          refine ⟨tip, c.pindexNew, htip.disk, rfl, fun h => hnew ?_⟩
          exact BlockTree.eq_of_hash htree hc.mem h
        | error f =>
          refine ⟨tip, best, htip.disk, ?_, fun h => hold ?_⟩
          · exact hsame'.1.trans (hsame.1.trans hn.pindexBest)
          · exact BlockTree.eq_of_hash htree hn.mem h

end Fantom.Chain
