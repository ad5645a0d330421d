/-
  Fantom.Pool.Conflicts — The memory pool and the blocks a node connects.

  * `WithoutIds` — what `SetBestChainInner` does to the pool: the ids of its block go, and nothing
    else,
  * `pool_conflicts_iff` — when the pool is free of conflicts with what was connected.

  `Reorganize` removes conflicts as well as ids, `SetBestChainInner` does not.
-/
import Fantom.Pool.Switch

namespace Fantom.Pool

open Core Chain Lib Script

variable {env : ChainEnv}

/-! ## §1. What a call connects. -/

variable (env) in
/-- The blocks that the loop over the postponed blocks connects. -/
def reconnected (pindexBest : CBlockIndex) : Node → List CBlockIndex → List CBlock
  | _, [] => []
  | node, pindex :: rest =>
    match readFromDisk env pindex with
    -- errors now are not fatal: they end the loop, and the call returns true
    | none => []
    | some block =>
      match setBestChainInner env node.txnBegin pindexBest block pindex with
      | (.ok (), node) => block :: reconnected pindexBest node rest
      | (.error _, _) => []

/-- The transactions that `Reorganize` connects, and those that `SetBestChainInner`
connects, with the pool that its first call meets. -/
structure Connection where
  reorganized : List CTransaction
  pool : CTxMemPool
  extended : List CTransaction

def Connection.all (c : Connection) : List CTransaction := c.reorganized ++ c.extended

variable (env) in
/-- What `SetBestChain` connects, branch by branch. -/
def connection (node : Node) (b : CBlock) (pindexNew : CBlockIndex) : Connection :=
  -- the genesis block is not connected: nothing of it is in the index
  if node.pindexGenesisBlock = none ∧ b.getHash env.H = env.hashGenesisBlock then
    ⟨[], node.pool, []⟩
  else
    match node.pindexBest with
    | none => ⟨[], node.pool, []⟩
    | some pindexBest =>
      if b.hashPrevBlock = node.hashBestChain then ⟨[], node.pool, b.vtx⟩
      else
        let (pindexIntermediate, vpindexSecondary) := postpone pindexBest.nChainTrust pindexNew
        match reorganize env node pindexBest pindexIntermediate with
        | .error _ => ⟨[], node.pool, []⟩
        | .ok node =>
          ⟨deletable env pindexBest pindexIntermediate, node.pool,
            (reconnected env pindexBest node vpindexSecondary.reverse).flatMap CBlock.vtx⟩

variable {node node' : Node} {pindexBest pindexNew : CBlockIndex} {b : CBlock}

theorem connection_extend (hstart : node.pindexGenesisBlock ≠ none)
    (hbest : node.pindexBest = some pindexBest) (hprev : b.hashPrevBlock = node.hashBestChain) :
    connection env node b pindexNew = ⟨[], node.pool, b.vtx⟩ := by
  rw [connection, if_neg (fun h => hstart h.1), hbest]
  dsimp only
  rw [if_pos hprev]

/-! ## §2. What `SetBestChainInner` leaves. -/

variable (H : Hashes)

/-- A pool without the transactions that have the id of one of these. -/
def WithoutIds (txs : List CTransaction) (pool pool' : CTxMemPool) : Prop :=
  ∀ (i : UInt256) (t : CTransaction), pool'.mapTx[i]? = some t ↔
    pool.mapTx[i]? = some t ∧ i ∉ txs.map (CTransaction.getHash H)

variable (pool : CTxMemPool)

theorem WithoutIds.refl : WithoutIds H [] pool pool := by
  intro i t
  simp

theorem WithoutIds.trans {H : Hashes} {txs txs' : List CTransaction}
    {pool pool' pool'' : CTxMemPool} (h : WithoutIds H txs pool pool')
    (h' : WithoutIds H txs' pool' pool'') : WithoutIds H (txs ++ txs') pool pool'' := by
  intro i t
  rw [h' i t, h i t, List.map_append, List.mem_append, not_or, and_assoc]

variable (tx : CTransaction)

theorem withoutIds_remove : WithoutIds H [tx] pool (pool.remove H tx false) := by
  intro i t
  rw [List.map_singleton, List.mem_singleton, get_remove]
  by_cases hi : tx.getHash H = i
  · simp [hi]
  · simp [hi, Ne.symm hi]

theorem withoutIds_removeAll (vtx : List CTransaction) :
    WithoutIds H vtx pool (vtx.foldl (fun pool tx => pool.remove H tx false) pool) :=
  run_rule (I := fun done p => WithoutIds H done pool p) (.refl H pool)
    fun _ tx _ p _ hp => hp.trans (withoutIds_remove H p tx)

theorem setBestChainInner_withoutIds
    (h : setBestChainInner env node pindexBest b pindexNew = (.ok (), node')) :
    WithoutIds env.H b.vtx node.pool node'.pool := by
  obtain ⟨mem, db, txdb, _, _, rfl⟩ := setBestChainInner_eq_ok env h
  exact withoutIds_removeAll env.H node.pool b.vtx

theorem setBestChainInner_pool {f : Failure}
    (h : setBestChainInner env node pindexBest b pindexNew = (.error f, node')) :
    node'.pool = node.pool := by
  obtain ⟨mem, db, txdb, _, _, rfl⟩ | rfl | rfl := setBestChainInner_eq_error env h
  · rfl
  · rfl
  · unfold invalidChainFound
    split <;> rfl

theorem reconnect_withoutIds {l : List CBlockIndex}
    (h : reconnect env pindexBest node l = (.ok (), node')) :
    WithoutIds env.H ((reconnected env pindexBest node l).flatMap CBlock.vtx) node.pool
      node'.pool := by
  -- over the postponed blocks; each round takes its ids and hands its node on
  induction l generalizing node with
  | nil =>
    cases h
    exact .refl _ _
  | cons pindex rest ih =>
    rw [reconnect] at h
    rw [reconnected]
    cases hread : readFromDisk env pindex with
    | none =>
      rw [hread] at h
      cases h
      exact .refl _ _
    | some block =>
      rw [hread] at h
      dsimp only at h ⊢
      cases hinner : setBestChainInner env node.txnBegin pindexBest block pindex with
      | mk answer next =>
        rw [hinner] at h
        cases answer with
        | ok u =>
          have hblock : WithoutIds env.H block.vtx node.txnBegin.pool next.pool :=
            setBestChainInner_withoutIds hinner
          rw [List.flatMap_cons]
          exact hblock.trans (ih h)
        | error f =>
          have hpool : next.pool = node.txnBegin.pool := setBestChainInner_pool hinner
          cases f with
          | threw what => cases h
          | rejected nDoS msg =>
            cases h
            rw [hpool]
            exact .refl _ _

/-- **From the pool that the first `SetBestChainInner` meets**, a call takes the
ids of what it connects. -/
theorem advanceChain_withoutIds (h : advanceChain env node b pindexNew = (.ok (), node')) :
    WithoutIds env.H (connection env node b pindexNew).extended
      (connection env node b pindexNew).pool node'.pool := by
  unfold advanceChain at h
  unfold connection
  split at h
  next hstart =>
    rw [if_pos hstart]
    unfold startChain at h
    split at h
    next => cases h; exact .refl _ _
    next => cases h
  next hstart =>
    rw [if_neg hstart]
    cases hbest : node.pindexBest with
    | none =>
      rw [hbest] at h
      cases h
    | some pindexBest =>
      rw [hbest] at h
      dsimp only at h ⊢
      split at h
      next hprev =>
        rw [if_pos hprev]
        exact setBestChainInner_withoutIds (extendChain_eq_ok env h)
      next hprev =>
        rw [if_neg hprev]
        obtain ⟨next, hreorganize, hloop⟩ := switchChain_eq_ok env h
        rw [hreorganize]
        exact reconnect_withoutIds hloop

/-! ## §3. Conflicts. -/

section Conflicts

variable {L : Type} (env : AcceptEnv L) (free : L)

/-- **The condition on the pool** that `SetBestChainInner` meets: a transaction of
it that spends what a connected one spends has the id of a connected one. -/
def Covered (txs : List CTransaction) : Prop :=
  ∀ (i : UInt256) (t : CTransaction), pool.mapTx[i]? = some t →
    (∃ tx ∈ txs, ∃ o ∈ outpoints tx, o ∈ outpoints t) → i ∈ txs.map (CTransaction.getHash H)

variable {env free}

/-- **`Reorganize` leaves no conflict** with what it connects. -/
theorem reorganize_noConflict (hpool : Indexed env.H node.pool)
    (hids : TellsApart env.H (OfPoolOrFiles (env.node free) node.pool))
    (h : reorganize (env.node free) node pindexBest pindexNew = .ok node') :
    NoConflict node'.pool (deletable (env.node free) pindexBest pindexNew) := by
  rw [reorganize_pool h]
  have hgrown : Grown env.H node.pool _ ((resurrectable (env.node free) pindexBest pindexNew).foldl
      (resurrect (env.node free) node'.txdb.disk pindexBest) node.pool) :=
    resurrect_fold hpool _
  refine And.right (deleteRedundant_fold hgrown.indexed fun tx htx t ht => ?_)
  -- a transaction with the id of a deleted one was in the pool or in a block
  refine hids t tx ?_ (.inr (mem_deletable htx)) (hgrown.indexed.ids _ t ht)
  exact (hgrown.origin _ t ht).imp (fun hold => ⟨_, hold⟩) mem_resurrectable

theorem connection_noConflict (hpool : Indexed env.H node.pool)
    (hids : TellsApart env.H (OfPoolOrFiles (env.node free) node.pool)) :
    NoConflict (connection (env.node free) node b pindexNew).pool
      (connection (env.node free) node b pindexNew).reorganized := by
  have hnone : NoConflict node.pool [] := fun _ _ _ _ htx => nomatch htx
  unfold connection
  split
  next => exact hnone
  next =>
    split
    next => exact hnone
    next pindexBest _ =>
      split
      next => exact hnone
      next =>
        dsimp only
        split
        next => exact hnone
        next node' hreorganize => exact reorganize_noConflict hpool hids hreorganize

/-- With the ids of transactions out of the pool, it conflicts with none of them
exactly where they cover their conflicts. -/
theorem WithoutIds.noConflict_iff {H : Hashes} {txs : List CTransaction}
    {pool pool' : CTxMemPool} (h : WithoutIds H txs pool pool') :
    NoConflict pool' txs ↔ Covered H pool txs := by
  constructor
  · rintro hfree i t ht ⟨tx, htx, o, ho, hot⟩
    by_contra hi
    -- its id is none of those that went, so it is still there
    exact hfree i t ((h i t).mpr ⟨ht, hi⟩) tx htx o ho hot
  · intro hcovered i t ht tx htx o ho hot
    obtain ⟨hold, hi⟩ := (h i t).mp ht
    exact hi (hcovered i t hold ⟨tx, htx, o, ho, hot⟩)

theorem noConflict_newBest {env : ChainEnv} {txs : List CTransaction} :
    NoConflict (newBest env node b pindexNew).pool txs ↔ NoConflict node.pool txs := Iff.rfl

/-- **When the pool is free of conflicts** after a call of `SetBestChain` that
succeeds: exactly when every transaction that conflicts with a block of
`SetBestChainInner` is itself in these blocks.  What `Reorganize` connects leaves
no conflict. -/
theorem pool_conflicts_iff (env : AcceptEnv L) (free : L) (node : Node) (b : CBlock)
    (pindexNew : CBlockIndex) (hpool : Indexed env.H node.pool)
    (hids : TellsApart env.H (OfPoolOrFiles (env.node free) node.pool))
    (hok : (setBestChain (env.node free) node b pindexNew).1 = .ok ()) :
    NoConflict (setBestChain (env.node free) node b pindexNew).2.pool
        (connection (env.node free) node.txnBegin b pindexNew).all ↔
      Covered env.H (connection (env.node free) node.txnBegin b pindexNew).pool
        (connection (env.node free) node.txnBegin b pindexNew).extended := by
  unfold setBestChain at hok ⊢
  split at hok
  next => cases hok
  next hbatch =>
    rw [if_neg hbatch]
    rcases hadvance : advanceChain (env.node free) node.txnBegin b pindexNew with ⟨answer, node'⟩
    rw [hadvance] at hok
    cases answer with
    | error f => cases hok
    | ok u =>
      have hwithout : WithoutIds (env.node free).H
          (connection (env.node free) node.txnBegin b pindexNew).extended
          (connection (env.node free) node.txnBegin b pindexNew).pool node'.pool :=
        advanceChain_withoutIds hadvance
      have hkept : NoConflict (connection (env.node free) node.txnBegin b pindexNew).pool
          (connection (env.node free) node.txnBegin b pindexNew).reorganized :=
        connection_noConflict hpool hids
      show NoConflict (newBest (env.node free) node' b pindexNew).pool _ ↔
        Covered (env.node free).H _ _
      unfold Connection.all
      -- what follows `Reorganize` only takes transactions out, so its part stays true
      rw [noConflict_newBest, noConflict_append, ← hwithout.noConflict_iff]
      exact and_iff_right (hkept.sub fun i t ht => ((hwithout i t).mp ht).1)

end Conflicts

/-! ## §4. A rival in the pool. -/

def rivalEnv : AcceptEnv Unit :=
  { chainedEnv with
    testNet := true
    sigEnv := sampleSigEnv
    limitFree := fun _ _ => (true, ()) }

/-- A transaction that spends an output of the funding transaction, as one of the
block on the genesis block does. -/
def rival : CTransaction := sampleTx [(sampleFunding.getHash sampleChainHashes, 0)] [450]

def poolWith : CTxMemPool :=
  (acceptToMemoryPool rivalEnv sampleRecords sampleGenesis (.empty, ()) tx false false).2.1

def rivalNode : Node :=
  { Node.initial with
    txdb := ⟨sampleRecords, none⟩
    pool := pool
    pindexGenesisBlock := some sampleGenesis
    pindexBest := some sampleGenesis
    hashBestChain := sampleGenesis.getBlockHash
    nBestHeight := 0
    nBestChainTrust := sampleGenesis.nChainTrust }

theorem rivalNode_pool : (rivalNode pool).pool = pool := rfl

theorem poolWith_get (h : (acceptToMemoryPool rivalEnv sampleRecords sampleGenesis (.empty,
    ()) tx false false).1 = .ok ()) : Indexed rivalEnv.H (poolWith tx) ∧ ∀ (i : UInt256)
    (t : CTransaction), (poolWith tx).mapTx[i]? = some t → t = tx ∧ i = tx.getHash rivalEnv.H := by
  obtain ⟨hloose, _, hpool⟩ := acceptToMemoryPool_ok rivalEnv h
  rw [poolWith, hpool]
  refine ⟨(empty_indexed _ 0).addUnchecked (checkLoose_addable rivalEnv hloose), ?_⟩
  intro i t ht
  rw [CTxMemPool.mapTx_addUnchecked] at ht
  split at ht
  next hi =>
    cases ht
    exact ⟨rfl, hi.symm⟩
  next => exact absurd (ht.symm.trans (StdMap.get_empty i)) nofun

theorem connection_rivalNode : connection (rivalEnv.node ())
    (rivalNode pool).txnBegin chainedBlock chainedIndex = ⟨[], pool, chainedBlock.vtx⟩ :=
  connection_extend (fun h => nomatch h) rfl rfl

/-- A pool with a transaction of the block itself is clean after the block. -/
theorem pool_conflicts_iff_sampleSpend :
    NoConflict (setBestChain (rivalEnv.node ()) (rivalNode (poolWith sampleSpend)) chainedBlock
        chainedIndex).2.pool
      (connection (rivalEnv.node ()) (rivalNode (poolWith sampleSpend)).txnBegin chainedBlock
        chainedIndex).all := by
  obtain ⟨hindexed, hget⟩ := poolWith_get sampleSpend (by decide +kernel)
  have hok : (setBestChain (rivalEnv.node ()) (rivalNode (poolWith sampleSpend)) chainedBlock
      chainedIndex).1 = .ok () := by decide +kernel
  have hself : sampleSpend.eqv sampleSpend = true := by decide +kernel
  have hin : sampleSpend.getHash rivalEnv.H ∈
      chainedBlock.vtx.map (CTransaction.getHash rivalEnv.H) := by decide +kernel
  generalize poolWith sampleSpend = pool at hindexed hget hok ⊢
  have hids : TellsApart rivalEnv.H (OfPoolOrFiles (rivalEnv.node ()) (rivalNode pool).pool) := by
    -- the block files are empty, and the pool has one transaction
    rintro a b (⟨i, ha⟩ | ⟨_, _, hread, _⟩) (⟨j, hb⟩ | ⟨_, _, hread, _⟩) _
    · rw [(hget i a ha).1, (hget j b hb).1]
      exact hself
    all_goals exact absurd hread nofun
  have hiff := pool_conflicts_iff rivalEnv () (rivalNode pool) chainedBlock chainedIndex hindexed
    hids hok
  rw [connection_rivalNode] at hiff ⊢
  refine hiff.mpr fun i t ht _ => ?_
  rw [(hget i t ht).2]
  exact hin

/-- **A rival stays.**  The block on the genesis block spends what a transaction of
the pool spends; the call succeeds, and the transaction is still in the pool. -/
theorem rival_stays :
    let called := setBestChain (rivalEnv.node ()) (rivalNode (poolWith rival)) chainedBlock
      chainedIndex
    Indexed rivalEnv.H (rivalNode (poolWith rival)).pool ∧
      called.1 = .ok () ∧
      called.2.pool.mapTx[rival.getHash rivalEnv.H]? = some rival ∧
      ∃ tx ∈ chainedBlock.vtx, ∃ o ∈ outpoints tx, o ∈ outpoints rival := by
  intro called
  refine ⟨?_, ?_, ?_, ?_⟩
  · rw [rivalNode_pool]
    exact (poolWith_get rival (by decide +kernel)).1
  · decide +kernel
  · decide +kernel
  · decide +kernel

end Fantom.Pool
