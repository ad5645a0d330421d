/-
  Fantom.Pool.Switch — What a switch of the best chain does to the memory pool.

  * `resurrect_fold`, `deleteRedundant_fold` — what each of the two loops keeps.
-/
import Fantom.Chain.BestChain
import Fantom.Pool.Accept

namespace Fantom.Pool

open Core Chain Lib List

/-! ## §1. The node. -/

section Node

variable {L : Type} (env : AcceptEnv L) (free : L)

/-- The best chain, where `AcceptToMemoryPool(mempool, tx, false, NULL)` decides
what is resurrected. -/
def AcceptEnv.node : ChainEnv :=
  { env.toChainEnv with
    acceptToMemoryPool := fun db pindexBest pool tx =>
      accepts (acceptToMemoryPool env db pindexBest (pool, free) tx false false).1 }

theorem limiter_unlimited (tx : CTransaction) (nFees : Int64) (ignoreFees : Bool) :
    limiter env tx nFees false ignoreFees free = (true, free) := by
  unfold limiter
  simp

end Node

/-! ## §2. The blocks of a switch. -/

variable {env : ChainEnv} (pindexBest pindexNew : CBlockIndex)

/-- `vDisconnect`, the best block first. -/
def vDisconnect : List CBlockIndex :=
  match findFork pindexBest pindexNew with
  | none => []
  | some pfork => backTo pfork pindexBest

/-- `vConnect`, the block on the fork first. -/
def vConnect : List CBlockIndex :=
  match findFork pindexBest pindexNew with
  | none => []
  | some pfork => (backTo pfork pindexNew).reverse

variable (env) in
/-- The blocks of index entries, as the disk has them. -/
def blocksOf (l : List CBlockIndex) : List CBlock := l.filterMap (readFromDisk env)

variable (env) in
/-- The transactions of a disconnected block that are to come back. -/
def resurrectableOf (pindex : CBlockIndex) : List CTransaction :=
  match readFromDisk env pindex with
  | none => []
  | some block => block.vtx.filter fun tx => !(tx.isCoinBase || tx.isCoinStake) &&
      decide (pindex.nHeight > env.nTotalBlocksEstimate)

variable (env) in
/-- `vResurrect`, the oldest transaction first. -/
def resurrectable : List CTransaction :=
  (vDisconnect pindexBest pindexNew).reverse.flatMap (resurrectableOf env)

variable (env) in
/-- `vDelete`. -/
def deletable : List CTransaction :=
  (blocksOf env (vConnect pindexBest pindexNew)).flatMap CBlock.vtx

theorem disconnectOne_fold {mem : IndexMem} {l : List CBlockIndex}
    {st st' : Records × List CTransaction}
    (h : l.foldlM (disconnectOne env mem) st = .ok st') :
    st'.2 = l.reverse.flatMap (resurrectableOf env) ++ st.2 := by
  refine foldlM_rule (I := fun done (s : Records × List CTransaction) =>
    s.2 = done.reverse.flatMap (resurrectableOf env) ++ st.2) rfl ?_ h
  intro done pindex rest s s' _ hs hstep
  unfold disconnectOne at hstep
  obtain ⟨block, hread, hstep⟩ := bind_eq_ok.mp hstep
  obtain ⟨db, _, hstep⟩ := bind_eq_ok.mp hstep
  cases pure_eq_ok.mp hstep
  -- `push_front` from the last transaction on keeps the order inside a block
  rw [reverse_append, reverse_singleton, singleton_append, flatMap_cons,
    append_assoc, ← hs, resurrectableOf, required_eq_ok.mp hread]

theorem connectOne_fold {pindexBest : CBlockIndex} {l : List CBlockIndex}
    {st st' : IndexMem × Records × List CTransaction}
    (h : l.foldlM (connectOne env pindexBest) st = .ok st') :
    st'.2.2 = st.2.2 ++ (blocksOf env l).flatMap CBlock.vtx := by
  refine foldlM_rule (I := fun done (s : IndexMem × Records × List CTransaction) =>
    s.2.2 = st.2.2 ++ (blocksOf env done).flatMap CBlock.vtx) (by simp [blocksOf]) ?_ h
  intro done pindex rest s s' _ hs hstep
  unfold connectOne at hstep
  obtain ⟨block, hread, hstep⟩ := bind_eq_ok.mp hstep
  obtain ⟨⟨mem, db⟩, _, hstep⟩ := bind_eq_ok.mp hstep
  cases pure_eq_ok.mp hstep
  have hone : blocksOf env (done ++ [pindex]) = blocksOf env done ++ [block] := by
    rw [blocksOf, filterMap_append, filterMap_cons, required_eq_ok.mp hread]
    rfl
  rw [hone, flatMap_append, flatMap_singleton, ← append_assoc, ← hs]

/-- **The pool after a successful `Reorganize`.** -/
theorem reorganize_pool {node node' : Node} {pindexBest pindexNew : CBlockIndex}
    (h : reorganize env node pindexBest pindexNew = .ok node') :
    node'.pool = (deletable env pindexBest pindexNew).foldl (deleteRedundant env)
      ((resurrectable env pindexBest pindexNew).foldl
        (resurrect env node'.txdb.disk pindexBest) node.pool) := by
  obtain ⟨pfork, db, vResurrect, mem, db', vDelete, txdb, hfork, hdisconnect, hconnect, _, rfl⟩ :=
    reorganize_eq_ok env h
  have hresurrect := disconnectOne_fold hdisconnect
  have hdelete := connectOne_fold hconnect
  dsimp only at hresurrect hdelete
  rw [append_nil] at hresurrect
  rw [nil_append] at hdelete
  unfold deletable resurrectable vConnect vDisconnect
  rw [hfork]
  dsimp only
  rw [hresurrect, hdelete]
  rfl

variable (env) in
/-- The transactions of the pool and of the block files. -/
def OfPoolOrFiles (pool : CTxMemPool) (tx : CTransaction) : Prop :=
  (∃ i : UInt256, pool.mapTx[i]? = some tx) ∨
    ∃ pindex block, readFromDisk env pindex = some block ∧ tx ∈ block.vtx

variable {tx : CTransaction} {pool : CTxMemPool}

theorem mem_resurrectable {pindexBest pindexNew : CBlockIndex}
    (h : tx ∈ resurrectable env pindexBest pindexNew) :
    ∃ pindex block, readFromDisk env pindex = some block ∧ tx ∈ block.vtx := by
  obtain ⟨pindex, _, h⟩ := mem_flatMap.mp h
  unfold resurrectableOf at h
  split at h
  next => cases h
  next block hread => exact ⟨pindex, block, hread, (mem_filter.mp h).1⟩

theorem mem_deletable {pindexBest pindexNew : CBlockIndex}
    (h : tx ∈ deletable env pindexBest pindexNew) :
    ∃ pindex block, readFromDisk env pindex = some block ∧ tx ∈ block.vtx := by
  obtain ⟨block, hblock, h⟩ := mem_flatMap.mp h
  obtain ⟨pindex, _, hread⟩ := mem_filterMap.mp hblock
  exact ⟨pindex, block, hread, h⟩

/-! ## §3. The resurrections. -/

/-- A pool with the invariant that has all transactions of another one, and
besides only some of these. -/
structure Grown (H : Hashes) (pool : CTxMemPool) (txs : List CTransaction) (pool' : CTxMemPool) :
    Prop where
  indexed : Indexed H pool'
  keeps : ∀ (i : UInt256) (t : CTransaction), pool.mapTx[i]? = some t → pool'.mapTx[i]? = some t
  origin : ∀ (i : UInt256) (t : CTransaction), pool'.mapTx[i]? = some t →
    pool.mapTx[i]? = some t ∨ t ∈ txs

section Resurrect

variable {L : Type} {env : AcceptEnv L} {free : L} {db : Records} {pindexBest : CBlockIndex}
  {pool pool' : CTxMemPool}

theorem resurrect_eq (tx : CTransaction) :
    resurrect (env.node free) db pindexBest pool tx =
      if accepts (acceptToMemoryPool env db pindexBest (pool, free) tx false false).1 then
        pool.addUnchecked (tx.getHash env.H) tx
      else pool := rfl

theorem accepted_addable
    (h : accepts (acceptToMemoryPool env db pindexBest (pool, free) tx false false).1 = true) :
    Addable env.H pool tx := by
  obtain ⟨⟨⟩, hok⟩ := accepts_iff.mp h
  exact checkLoose_addable env (acceptToMemoryPool_ok env hok).1

theorem Grown.resurrect {txs : List CTransaction} (h : Grown env.H pool txs pool')
    (tx : CTransaction) :
    Grown env.H pool (txs ++ [tx]) (resurrect (env.node free) db pindexBest pool' tx) := by
  rw [resurrect_eq]
  split
  next haccepts =>
    have haddable : Addable env.H pool' tx := accepted_addable haccepts
    refine ⟨h.indexed.addUnchecked haddable, ?_, ?_⟩
    · intro i t ht
      rw [CTxMemPool.mapTx_addUnchecked, if_neg, h.keeps i t ht]
      rintro rfl
      -- an id that is there already is refused
      have hnew := haddable.new
      rw [h.keeps _ t ht] at hnew
      cases hnew
    · intro i t ht
      rw [CTxMemPool.mapTx_addUnchecked] at ht
      split at ht
      · cases ht
        exact .inr (mem_append_right _ (mem_singleton_self _))
      · exact (h.origin i t ht).imp_right (mem_append_left _)
  next =>
    exact ⟨h.indexed, h.keeps, fun i t ht => (h.origin i t ht).imp_right (mem_append_left _)⟩

/-- **The loop over `vResurrect`** only adds, and only from the list. -/
theorem resurrect_fold (h : Indexed env.H pool) (vResurrect : List CTransaction) :
    Grown env.H pool vResurrect
      (vResurrect.foldl (resurrect (env.node free) db pindexBest) pool) :=
  run_rule (I := fun done p => Grown env.H pool done p)
    ⟨h, fun _ _ ht => ht, fun _ _ ht => .inl ht⟩ fun _ tx _ _ _ hp => hp.resurrect tx

end Resurrect

/-! ## §4. The deletions. -/

def TellsApart (H : Hashes) (S : CTransaction → Prop) : Prop :=
  ∀ a b, S a → S b → a.getHash H = b.getHash H → a.eqv b = true

/-- **No conflict**: no transaction of the pool spends an outpoint that one of
these spends. -/
def NoConflict (pool : CTxMemPool) (txs : List CTransaction) : Prop :=
  ∀ (i : UInt256) (t : CTransaction), pool.mapTx[i]? = some t →
    ∀ tx ∈ txs, ∀ o ∈ outpoints tx, o ∉ outpoints t

theorem NoConflict.sub {pool' : CTxMemPool} {txs : List CTransaction} (h : NoConflict pool txs)
    (hsub : ∀ (i : UInt256) (t : CTransaction), pool'.mapTx[i]? = some t → pool.mapTx[i]? = some t)
    : NoConflict pool' txs :=
  fun i t ht => h i t (hsub i t ht)

theorem noConflict_append {txs txs' : List CTransaction} :
    NoConflict pool (txs ++ txs') ↔ NoConflict pool txs ∧ NoConflict pool txs' := by
  simp only [NoConflict, mem_append]
  constructor
  · intro h
    exact ⟨fun i t ht tx htx => h i t ht tx (.inl htx),
      fun i t ht tx htx => h i t ht tx (.inr htx)⟩
  · rintro ⟨h, h'⟩ i t ht tx (htx | htx)
    · exact h i t ht tx htx
    · exact h' i t ht tx htx

theorem deleteRedundant_shrunk (h : Indexed env.H pool) (he : EqualOrAbsent env.H pool tx) :
    Shrunk env.H pool (deleteRedundant env pool tx) := by
  have hremove : Shrunk env.H pool (pool.remove env.H tx false) := remove_shrunk h he false
  exact hremove.trans (removeConflicts_shrunk hremove.indexed tx)

theorem deleteRedundant_noConflict (h : Indexed env.H pool) (he : EqualOrAbsent env.H pool tx) :
    NoConflict (deleteRedundant env pool tx) [tx] := by
  have hremove : Shrunk env.H pool (pool.remove env.H tx false) := remove_shrunk h he false
  have hshrunk : Shrunk env.H (pool.remove env.H tx false) (deleteRedundant env pool tx) :=
    removeConflicts_shrunk hremove.indexed tx
  intro i t ht tx' htx' o ho hot
  obtain rfl := mem_singleton.mp htx'
  have heqv : t.eqv tx' = true := removeConflicts_spends hremove.indexed ht ho hot
  -- an equal transaction has the id that has just been removed
  have hid : tx'.getHash env.H = i := by
    rw [← eqv_getHash env.H heqv]
    exact hshrunk.indexed.ids i t ht
  have hgone : (pool.remove env.H tx' false).mapTx[i]? = none := by
    rw [← hid]
    exact remove_gone pool tx' false
  rw [hshrunk.stays_absent hgone] at ht
  cases ht

/-- **The loop over `vDelete`** leaves no conflict with its transactions. -/
theorem deleteRedundant_fold (h : Indexed env.H pool) {vDelete : List CTransaction}
    (he : ∀ tx ∈ vDelete, EqualOrAbsent env.H pool tx) :
    Shrunk env.H pool (vDelete.foldl (deleteRedundant env) pool) ∧
      NoConflict (vDelete.foldl (deleteRedundant env) pool) vDelete := by
  refine run_rule (I := fun done p => Shrunk env.H pool p ∧ NoConflict p done)
    ⟨.refl h, fun _ _ _ _ htx => nomatch htx⟩ ?_
  rintro done tx rest p hl ⟨hp, hdone⟩
  have hequal : EqualOrAbsent env.H p tx :=
    (he tx (hl ▸ mem_append_right _ mem_cons_self)).shrunk hp
  have hstep : Shrunk env.H p (deleteRedundant env p tx) := deleteRedundant_shrunk hp.indexed hequal
  exact ⟨hp.trans hstep, noConflict_append.mpr
    ⟨hdone.sub hstep.sub, deleteRedundant_noConflict hp.indexed hequal⟩⟩

end Fantom.Pool
