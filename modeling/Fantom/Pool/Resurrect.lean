/-
  Fantom.Pool.Resurrect — The transactions of disconnected blocks, after a reorganisation.

  * `reorganize_keeps` — every one that is still good is in the pool afterwards.
-/
import Fantom.Pool.OrphanQueue
import Fantom.Pool.Switch

namespace Fantom.Pool

open Core Chain Lib Script List StdMap

variable {L : Type} (env : AcceptEnv L) (free : L)

/-! ## §1. Acceptance alone. -/

/-- `AcceptToMemoryPool(mempool, tx, false, NULL)` with an empty pool. -/
def acceptsAlone (db : Records) (pindexBest : CBlockIndex) (tx : CTransaction) : Bool :=
  accepts (acceptToMemoryPool env db pindexBest (.empty, free) tx false false).1

variable {env free} {db : Records} {pindexBest : CBlockIndex} {pool : CTxMemPool}
  {tx : CTransaction}

theorem acceptToMemoryPool_unlimited_iff :
    accepts (acceptToMemoryPool env db pindexBest (pool, free) tx false false).1 = true ↔
      ∃ mapInputs nFees, checkLoose env pindexBest pool tx = .ok () ∧ checkKnown db tx = .ok () ∧
        checkInputs env db pool tx = .ok mapInputs ∧ getFees tx mapInputs = .ok nFees ∧
        checkSpends env pindexBest tx mapInputs = .ok () := by
  have hbefore : ∀ found, checkBefore env db pindexBest pool tx false false = .ok found ↔
      checkLoose env pindexBest pool tx = .ok () ∧ checkKnown db tx = .ok () ∧
        checkInputs env db pool tx = .ok found.1 ∧ getFees tx found.1 = .ok found.2 := by
    rintro ⟨mapInputs, nFees⟩
    unfold checkBefore checkFees
    simp only [bind_eq_ok, rejectIf_eq_ok, pure_eq_ok]
    constructor
    · rintro ⟨⟨⟩, hloose, ⟨⟩, hknown, _, hinputs, _, hfees, ⟨⟩, _, hfound⟩
      cases hfound
      exact ⟨hloose, hknown, hinputs, hfees⟩
    · rintro ⟨hloose, hknown, hinputs, hfees⟩
      exact ⟨(), hloose, (), hknown, _, hinputs, _, hfees, (), by simp, rfl⟩
  unfold acceptToMemoryPool
  cases hchecks : checkBefore env db pindexBest pool tx false false with
  | error refusal =>
    refine iff_of_false Bool.false_ne_true ?_
    rintro ⟨mapInputs, nFees, hloose, hknown, hinputs, hfees, _⟩
    rw [(hbefore (mapInputs, nFees)).mpr ⟨hloose, hknown, hinputs, hfees⟩] at hchecks
    cases hchecks
  | ok found =>
    obtain ⟨hloose, hknown, hinputs, hfees⟩ := (hbefore found).mp hchecks
    dsimp only
    rw [limiter_unlimited]
    constructor
    · intro h
      refine ⟨found.1, found.2, hloose, hknown, hinputs, hfees, ?_⟩
      cases hspends : checkSpends env pindexBest tx found.1 with
      | error refusal =>
        rw [hspends] at h
        cases h
      | ok _ => rfl
    · rintro ⟨mapInputs, nFees, _, _, hinputs', _, hspends⟩
      rw [hinputs] at hinputs'
      cases hinputs'
      rw [hspends]
      rfl

theorem checkLoose_of_empty (h : checkLoose env pindexBest .empty tx = .ok ())
    (hnew : pool.mapTx[tx.getHash env.H]? = none)
    (hfree : ∀ o ∈ outpoints tx, pool.mapNextTx[o]? = none) :
    checkLoose env pindexBest pool tx = .ok () := by
  unfold checkLoose at h ⊢
  obtain ⟨_, hcheck, h⟩ := bind_eq_ok.mp h
  obtain ⟨_, hcoinbase, h⟩ := bind_eq_ok.mp h
  obtain ⟨_, hcoinstake, h⟩ := bind_eq_ok.mp h
  obtain ⟨_, hstandard, h⟩ := bind_eq_ok.mp h
  obtain ⟨_, _, h⟩ := bind_eq_ok.mp h
  obtain ⟨_, hlocks, _⟩ := bind_eq_ok.mp h
  rw [hcheck, ok_bind, hcoinbase, ok_bind, hcoinstake, ok_bind, hstandard, ok_bind,
    contains_eq_false_iff.mpr hnew, rejectIf_false, ok_bind, hlocks, ok_bind, forM_eq_ok]
  intro txin hin
  rw [rejectIf_eq_ok]
  exact contains_eq_false_iff.mpr (hfree _ (mem_map_of_mem hin))

/-! A previous transaction that is found with an empty pool comes from a block
file, and is found there with any pool. -/

theorem readPrev_of_empty {env : ChainEnv} {hash : UInt256} {pos : CDiskTxPos}
    {txPrev : CTransaction} (h : readPrev (withPool env .empty) hash pos = .ok txPrev) :
    readPrev (withPool env pool) hash pos = .ok txPrev := by
  unfold readPrev at h ⊢
  split at h
  next =>
    -- the position of pool transactions, which an empty pool cannot serve
    have hnone : (withPool env .empty).mempoolLookup hash = none := get_empty hash
    rw [hnone] at h
    cases h
  next hpos =>
    rw [if_neg hpos]
    exact h

theorem fetchInput_of_empty {env : ChainEnv} {m m' : MapPrevTx} {txin : CTxIn}
    (h : fetchInput (withPool env .empty) db ∅ false false m txin = .ok m') :
    fetchInput (withPool env pool) db ∅ false false m txin = .ok m' := by
  unfold fetchInput at h ⊢
  split at h
  next hc =>
    rw [if_pos hc]
    exact h
  next hc =>
    rw [if_neg hc]
    cases hindex : readQueued db ∅ (false || false) txin.prevout.hash with
    | some txindex =>
      rw [hindex] at h
      dsimp only at h ⊢
      obtain ⟨txPrev, hprev, h⟩ := bind_eq_ok.mp h
      exact bind_eq_ok.mpr ⟨txPrev, readPrev_of_empty hprev, h⟩
    | none =>
      rw [hindex] at h
      -- outside the index only the pool is left to look in
      have hnone : (withPool env .empty).mempoolLookup txin.prevout.hash = none :=
        get_empty txin.prevout.hash
      simp only [rejectIf_false, ok_bind, hnone] at h
      cases h

theorem fetchInputs_of_empty {env : ChainEnv} {m : MapPrevTx}
    (h : fetchInputs (withPool env .empty) db ∅ false false tx ∅ = .ok m) :
    fetchInputs (withPool env pool) db ∅ false false tx ∅ = .ok m := by
  unfold fetchInputs at h ⊢
  split at h
  next hc =>
    rw [if_pos hc]
    exact h
  next hc =>
    rw [if_neg hc]
    obtain ⟨m', hloop, h⟩ := bind_eq_ok.mp h
    exact bind_eq_ok.mpr ⟨m', foldlM_mono (fun _ _ _ => fetchInput_of_empty) hloop, h⟩

theorem checkInputs_of_empty {mapInputs : MapPrevTx}
    (h : checkInputs env db .empty tx = .ok mapInputs) :
    checkInputs env db pool tx = .ok mapInputs := by
  unfold checkInputs at h ⊢
  obtain ⟨m, hm, h⟩ := bind_eq_ok.mp h
  exact bind_eq_ok.mpr ⟨m, mapError_eq_ok.mpr (fetchInputs_of_empty (mapError_eq_ok.mp hm)), h⟩

/-- **A transaction that is accepted alone** is accepted by every pool that does not
have it and spends none of its outpoints. -/
theorem accepts_of_alone (h : acceptsAlone env free db pindexBest tx = true)
    (hnew : pool.mapTx[tx.getHash env.H]? = none)
    (hfree : ∀ o ∈ outpoints tx, pool.mapNextTx[o]? = none) :
    accepts (acceptToMemoryPool env db pindexBest (pool, free) tx false false).1 = true := by
  obtain ⟨mapInputs, nFees, hloose, hknown, hinputs, hfees, hspends⟩ :=
    acceptToMemoryPool_unlimited_iff.mp h
  exact acceptToMemoryPool_unlimited_iff.mpr ⟨mapInputs, nFees,
    checkLoose_of_empty hloose hnew hfree, hknown, checkInputs_of_empty hinputs, hfees, hspends⟩

/-! ## §2. What survives a switch. -/

/-- The ids of a transaction and of those it depends on, among the transactions
of `R`. -/
inductive Ancestor (H : Hashes) (R : CTransaction → Prop) (tx : CTransaction) : UInt256 → Prop
  | self : Ancestor H R tx (tx.getHash H)
  | parent (t a : CTransaction) (ht : R t) (ha : R a)
      (hchild : Ancestor H R tx (t.getHash H)) (o : COutPoint) (ho : o ∈ outpoints t)
      (hprev : o.hash = a.getHash H) : Ancestor H R tx (a.getHash H)

/-- The transactions that may be in the pool after the resurrections: those of the
pool before, and those of the disconnected blocks. -/
def Loose (env : ChainEnv) (pool : CTxMemPool) (pindexBest pindexNew : CBlockIndex)
    (tx : CTransaction) : Prop :=
  (∃ i : UInt256, pool.mapTx[i]? = some tx) ∨ tx ∈ resurrectable env pindexBest pindexNew

variable (env free)

/-- **What a transaction needs** to be in the pool after a switch: it passes the
checks on its own, where the new branch is connected; it is not in the new branch;
no other loose transaction spends what it spends; and neither it nor a loose
ancestor conflicts with a transaction of the new branch. -/
structure StillGood (db : Records) (pool : CTxMemPool) (pindexBest pindexNew : CBlockIndex)
    (tx : CTransaction) : Prop where
  alone : acceptsAlone env free db pindexBest tx = true
  notNew : ∀ d ∈ deletable (env.node free) pindexBest pindexNew,
    d.getHash env.H ≠ tx.getHash env.H
  noRival : ∀ u, Loose (env.node free) pool pindexBest pindexNew u →
    u.getHash env.H ≠ tx.getHash env.H → ∀ o ∈ outpoints u, o ∉ outpoints tx
  noConflict : ∀ a, Loose (env.node free) pool pindexBest pindexNew a →
    Ancestor env.H (Loose (env.node free) pool pindexBest pindexNew) tx (a.getHash env.H) →
    ∀ d ∈ deletable (env.node free) pindexBest pindexNew,
      (∃ o ∈ outpoints d, o ∈ outpoints a) → a.getHash env.H = d.getHash env.H

variable {env free}

/-- **Resurrected**: the loop over `vResurrect` leaves the transaction in the pool. -/
theorem resurrect_contains {vResurrect : List CTransaction} (hpool : Indexed env.H pool)
    (htx : tx ∈ vResurrect) (halone : acceptsAlone env free db pindexBest tx = true) (hrival : ∀ u,
    (∃ i : UInt256, pool.mapTx[i]? = some u) ∨ u ∈ vResurrect → u.getHash env.H ≠ tx.getHash env.H →
    ∀ o ∈ outpoints u, o ∉ outpoints tx) :
    ∃ t, (vResurrect.foldl (resurrect (env.node free) db pindexBest) pool).mapTx[
      tx.getHash env.H]? = some t := by
  obtain ⟨before, rest, rfl⟩ := append_of_mem htx
  rw [foldl_append, foldl_cons]
  have hbefore : Grown env.H pool before
      (before.foldl (resurrect (env.node free) db pindexBest) pool) :=
    resurrect_fold hpool before
  generalize before.foldl (resurrect (env.node free) db pindexBest) pool = met at hbefore
  have hturn : Grown env.H met [tx] (resurrect (env.node free) db pindexBest met tx) :=
    resurrect_fold hbefore.indexed [tx]
  -- what is in the pool after its turn stays there
  suffices hnow : ∃ t, (resurrect (env.node free) db pindexBest met tx).mapTx[
      tx.getHash env.H]? = some t by
    obtain ⟨t, ht⟩ := hnow
    exact ⟨t, (resurrect_fold hturn.indexed rest).keeps _ t ht⟩
  cases hmet : met.mapTx[tx.getHash env.H]? with
  -- it was in the pool before, or came with another block
  | some t => exact ⟨t, hturn.keeps _ t hmet⟩
  | none =>
    have hfree : ∀ o ∈ outpoints tx, met.mapNextTx[o]? = none := by
      intro o ho
      rw [Option.eq_none_iff_forall_ne_some]
      intro p hp
      obtain ⟨u, hu, hou⟩ := hbefore.indexed.spends hp
      have hid : u.getHash env.H = p.ptx := hbefore.indexed.ids _ u hu
      refine hrival u ?_ ?_ o hou ho
      · exact (hbefore.origin _ u hu).imp (fun hold => ⟨_, hold⟩) (mem_append_left _)
      · intro heq
        rw [← heq, hid, hu] at hmet
        cases hmet
    refine ⟨tx, ?_⟩
    rw [resurrect_eq, if_pos (accepts_of_alone halone hmet hfree)]
    exact (met.mapTx_addUnchecked _ _ tx).trans (if_pos rfl)

/-- **Not deleted**: the loop over `vDelete` leaves an id alone that has no
conflicting ancestor and is not in the new branch. -/
theorem deleteRedundant_keeps {env : ChainEnv} {vDelete : List CTransaction} {K : UInt256 → Prop}
    {i : UInt256} (hpool : Indexed env.H pool) (he : ∀ d ∈ vDelete, EqualOrAbsent env.H pool d)
    (hK : ParentClosed pool K) (hi : K i) (hnew : ∀ d ∈ vDelete, d.getHash env.H ≠ i) (hfree : ∀ (j
    : UInt256) (t : CTransaction), pool.mapTx[j]? = some t → K j → ∀ d ∈ vDelete, (∃ o ∈ outpoints
    d, o ∈ outpoints t) → t.eqv d = true) :
    (vDelete.foldl (deleteRedundant env) pool).mapTx[i]? = pool.mapTx[i]? := by
  refine And.right (run_rule (I := fun _ p => Shrunk env.H pool p ∧ p.mapTx[i]? = pool.mapTx[i]?)
    ⟨.refl hpool, rfl⟩ ?_)
  rintro done d rest p hl ⟨hp, hkept⟩
  have hd : d ∈ vDelete := hl ▸ mem_append_right _ mem_cons_self
  have heq : EqualOrAbsent env.H p d := (he d hd).shrunk hp
  have hremove : Shrunk env.H p (p.remove env.H d false) := remove_shrunk hp.indexed heq false
  refine ⟨hp.trans (deleteRedundant_shrunk hp.indexed heq), ?_⟩
  unfold deleteRedundant
  rw [removeConflicts_keeps hremove.indexed (hK.shrunk (hp.trans hremove)) ?_ hi, get_remove,
    if_neg (hnew d hd), hkept]
  -- the pool has only shrunk, so what conflicts now was there before
  intro j t ht hj hshared
  exact hfree j t (hp.sub j t (hremove.sub j t ht)) hj d hd hshared

/-- **A reorganisation keeps what is still good.**  After a successful `Reorganize`
whose disconnected blocks are above the last checkpoint, every transaction of a
disconnected block that is neither coinbase nor coinstake and is still good is in
the memory pool. -/
theorem reorganize_keeps (env : AcceptEnv L) (free : L) {node node' : Node}
    {pindexBest pindexNew : CBlockIndex} (hpool : Indexed env.H node.pool)
    (hids : TellsApart env.H (OfPoolOrFiles (env.node free) node.pool))
    (hok : reorganize (env.node free) node pindexBest pindexNew = .ok node')
    (hlast : ∀ pindex ∈ vDisconnect pindexBest pindexNew,
      pindex.nHeight > env.nTotalBlocksEstimate)
    {pindex : CBlockIndex} (hdisconnect : pindex ∈ vDisconnect pindexBest pindexNew)
    {block : CBlock} (hread : readFromDisk (env.node free) pindex = some block)
    {tx : CTransaction} (htx : tx ∈ block.vtx) (hcoinbase : tx.isCoinBase = false)
    (hcoinstake : tx.isCoinStake = false)
    (hgood : StillGood env free node'.txdb.disk node.pool pindexBest pindexNew tx) :
    node'.pool.mapTx.contains (tx.getHash env.H) = true := by
  have hmem : tx ∈ resurrectable (env.node free) pindexBest pindexNew := by
    refine mem_flatMap.mpr ⟨pindex, mem_reverse.mpr hdisconnect, ?_⟩
    rw [resurrectableOf, hread]
    refine mem_filter.mpr ⟨htx, ?_⟩
    rw [hcoinbase, hcoinstake]
    exact decide_eq_true (hlast pindex hdisconnect)
  rw [reorganize_pool hok, StdMap.contains_iff]
  obtain ⟨t, ht⟩ : ∃ t, ((resurrectable (env.node free) pindexBest pindexNew).foldl
      (resurrect (env.node free) node'.txdb.disk pindexBest) node.pool).mapTx[
        tx.getHash env.H]? = some t :=
    resurrect_contains hpool hmem hgood.alone hgood.noRival
  have hgrown : Grown env.H node.pool _ ((resurrectable (env.node free) pindexBest pindexNew).foldl
      (resurrect (env.node free) node'.txdb.disk pindexBest) node.pool) :=
    resurrect_fold hpool _
  generalize (resurrectable (env.node free) pindexBest pindexNew).foldl
    (resurrect (env.node free) node'.txdb.disk pindexBest) node.pool = met at ht hgrown
  -- a transaction of this pool is loose, and ids tell it from the deleted ones
  have hloose : ∀ (j : UInt256) (u : CTransaction), met.mapTx[j]? = some u →
      Loose (env.node free) node.pool pindexBest pindexNew u :=
    fun j u hu => (hgrown.origin j u hu).imp_left fun hold => ⟨j, hold⟩
  have hsame : ∀ (j : UInt256) (u : CTransaction), met.mapTx[j]? = some u →
      ∀ d ∈ deletable (env.node free) pindexBest pindexNew,
        u.getHash env.H = d.getHash env.H → u.eqv d = true :=
    fun j u hu d hd => hids u d ((hloose j u hu).imp_right mem_resurrectable)
      (.inr (mem_deletable hd))
  have hself : Ancestor env.H (Loose (env.node free) node.pool pindexBest pindexNew) tx
      (tx.getHash env.H) := .self
  refine ⟨t, Eq.trans (deleteRedundant_keeps hgrown.indexed ?_ ?_ hself hgood.notNew ?_) ht⟩
  · exact fun d hd u hu => hsame _ u hu d hd (hgrown.indexed.ids _ u hu)
  · -- a parent in the pool is a loose ancestor
    intro j u hu hj o ho hc
    obtain ⟨a, ha⟩ := contains_iff.mp hc
    have hid : a.getHash env.H = o.hash := hgrown.indexed.ids _ a ha
    rw [← hid]
    rw [← hgrown.indexed.ids j u hu] at hj
    exact .parent u a (hloose j u hu) (hloose _ a ha) hj o ho hid.symm
  · intro j u hu hj d hd hshared
    rw [← hgrown.indexed.ids j u hu] at hj
    exact hsame j u hu d hd (hgood.noConflict u (hloose j u hu) hj d hd hshared)

/-! ## §3. Two blocks on the genesis block. -/

def oldBlock : CBlock :=
  sampleBlock sampleGenesis [sampleCoinBase 1000, relayParent, relayChild]

def oldIndex : CBlockIndex := sampleIndex sampleGenesis oldBlock 500

def relayRival : CTransaction := relayTx (relayFunding.getHash sampleChainHashes) 0 [45000]

variable (vtx : List CTransaction)

def newBlock : CBlock :=
  sampleBlock sampleGenesis (sampleCoinBase 2000 :: vtx)

def newIndex : CBlockIndex :=
  sampleIndex sampleGenesis (newBlock vtx) 1000

def switchBlocks : List (UInt32 × CBlock) :=
  [(500, oldBlock), (1000, newBlock vtx)]

def switchEnv : AcceptEnv Unit :=
  { sampleChainEnv [(77, relayFunding), (firstTxPos oldBlock oldIndex false +
      UInt32.ofNat (sampleCoinBase 1000).getSerializeSize, relayParent)] with
    readBlock := fun _ nBlockPos =>
      ((switchBlocks vtx).find? fun s => s.1 == nBlockPos).map Prod.snd
    testNet := false
    sigEnv := sampleSigEnv
    limitFree := fun _ _ => (true, ()) }

def oldNode : Node :=
  (setBestChain ((switchEnv vtx).node ())
    { Node.initial with
      txdb := ⟨relayRecords, none⟩
      pindexGenesisBlock := some sampleGenesis
      pindexBest := some sampleGenesis
      hashBestChain := sampleGenesis.getBlockHash
      nBestHeight := 0
      nBestChainTrust := sampleGenesis.nChainTrust } oldBlock oldIndex).2

def switched : Except Failure Node :=
  reorganize ((switchEnv vtx).node ()) (oldNode vtx).txnBegin oldIndex (newIndex vtx)

def inPoolAfter (tx : CTransaction) : Option Bool :=
  (switched vtx).toOption.map fun node => node.pool.mapTx.contains (tx.getHash sampleChainHashes)

theorem oldNode_pool : ∃ n, (oldNode []).txnBegin.pool = ⟨n, ∅, ∅⟩ := by
  have hmapTx : (oldNode []).txnBegin.pool.mapTx = ∅ :=
    Std.ExtTreeMap.isEmpty_iff.mp (by decide +kernel)
  have hmapNextTx : (oldNode []).txnBegin.pool.mapNextTx = ∅ :=
    Std.ExtTreeMap.isEmpty_iff.mp (by decide +kernel)
  generalize (oldNode []).txnBegin.pool = pool at hmapTx hmapNextTx
  cases pool
  cases hmapTx
  cases hmapNextTx
  exact ⟨_, rfl⟩

theorem oldNode_get {i : UInt256} {t : CTransaction} :
    (oldNode []).txnBegin.pool.mapTx[i]? ≠ some t := by
  obtain ⟨n, hpool⟩ := oldNode_pool
  rw [hpool, get_empty]
  exact nofun

theorem mem_switchBlocks {vtx : List CTransaction} {pindex : CBlockIndex} {block : CBlock}
    (h : readFromDisk ((switchEnv vtx).node ()) pindex = some block) :
    block ∈ (switchBlocks vtx).map Prod.snd := by
  obtain ⟨hread, _⟩ := Option.filter_eq_some_iff.mp h
  obtain ⟨s, hs, rfl⟩ := Option.map_eq_some_iff.mp hread
  exact mem_map_of_mem (mem_of_find?_eq_some hs)

theorem switchEnv_tellsApart :
    TellsApart (switchEnv []).H (OfPoolOrFiles ((switchEnv []).node ())
      (oldNode []).txnBegin.pool) := by
  have hfiles : ∀ tx, OfPoolOrFiles ((switchEnv []).node ()) (oldNode []).txnBegin.pool tx →
      tx ∈ (switchBlocks []).flatMap fun s => s.2.vtx := by
    rintro tx (⟨i, ht⟩ | ⟨pindex, block, hread, hin⟩)
    · exact absurd ht oldNode_get
    · obtain ⟨s, hs, rfl⟩ := mem_map.mp (mem_switchBlocks hread)
      exact mem_flatMap.mpr ⟨s, hs, hin⟩
  have hdistinct : ∀ a ∈ (switchBlocks []).flatMap fun s => s.2.vtx,
      ∀ b ∈ (switchBlocks []).flatMap fun s => s.2.vtx,
        a.getHash (switchEnv []).H = b.getHash (switchEnv []).H → a.eqv b = true := by
    decide +kernel
  exact fun a b ha hb => hdistinct a (hfiles a ha) b (hfiles b hb)

theorem reorganize_keeps_relayParent :
    (switched []).toOption.any (fun node =>
      node.pool.mapTx.contains (relayParent.getHash (switchEnv []).H)) = true := by
  have hresurrect : resurrectable ((switchEnv []).node ()) oldIndex (newIndex []) =
      [relayParent, relayChild] := by decide +kernel
  have hdelete : deletable ((switchEnv []).node ()) oldIndex (newIndex []) =
      [sampleCoinBase 2000] := by decide +kernel
  have hdisconnect : vDisconnect oldIndex (newIndex []) = [oldIndex] := by decide +kernel
  have hapart : ∀ u ∈ [relayParent, relayChild], ∀ d ∈ [sampleCoinBase 2000],
      ¬ ∃ o ∈ outpoints d, o ∈ outpoints u := by decide +kernel
  have hread : readFromDisk ((switchEnv []).node ()) oldIndex = some oldBlock := by decide +kernel
  have htx : relayParent ∈ oldBlock.vtx := by decide +kernel
  obtain ⟨node', hok, halone⟩ := toOption_any_iff.mp
    (show (switched []).toOption.any (fun node =>
      acceptsAlone (switchEnv []) () node.txdb.disk oldIndex relayParent) = true by decide +kernel)
  have hgood : StillGood (switchEnv []) () node'.txdb.disk (oldNode []).txnBegin.pool oldIndex
      (newIndex []) relayParent := by
    refine ⟨halone, ?_, ?_, ?_⟩
    · rw [hdelete]
      decide +kernel
    · rintro u (⟨i, hu⟩ | hu)
      · exact absurd hu oldNode_get
      · rw [hresurrect] at hu
        revert u
        decide +kernel
    · rintro u (⟨i, hu⟩ | hu) _ d hd hshared
      · exact absurd hu oldNode_get
      · rw [hresurrect] at hu
        rw [hdelete] at hd
        exact absurd hshared (hapart u hu d hd)
  refine toOption_any_iff.mpr ⟨node', hok, ?_⟩
  refine reorganize_keeps (switchEnv []) () ?_ switchEnv_tellsApart hok ?_
    (hdisconnect ▸ mem_singleton_self _) hread htx (by decide +kernel) (by decide +kernel)
    hgood
  · obtain ⟨n, hpool⟩ := oldNode_pool
    rw [hpool]
    exact empty_indexed _ n
  · rw [hdisconnect]
    decide +kernel

def passesRelayRules (env : AcceptEnv Unit) (pindexBest : CBlockIndex) (tx txPrev : CTransaction) :
    Bool :=
  let mapInputs : MapPrevTx := (∅ : MapPrevTx).insert (txPrev.getHash env.H)
    (CTxIndex.fresh (.inFile .first 0 77) txPrev.vout.length, txPrev)
  accepts do
    checkStandardTx env pindexBest tx
    checkStandardInputs env tx mapInputs
    let nFees ← getFees tx mapInputs
    checkFees tx nFees false false

/-- **Lost by a switch.**  Both transactions of the old block pass the checks on
standardness and fees.  When the new block spends the same output, the first one is
gone.  When it does not, the first one comes back, and the second one is gone
although its only parent came back. -/
theorem switch_loses :
    oldIndex ∈ vDisconnect oldIndex (newIndex [relayRival]) ∧
      oldIndex ∈ vDisconnect oldIndex (newIndex []) ∧
      oldIndex.nHeight > (switchEnv []).nTotalBlocksEstimate ∧
      relayParent ∈ oldBlock.vtx ∧ relayChild ∈ oldBlock.vtx ∧
      passesRelayRules (switchEnv []) oldIndex relayParent relayFunding = true ∧
      passesRelayRules (switchEnv []) oldIndex relayChild relayParent = true ∧
      prevIds relayParent = [relayFunding.getHash sampleChainHashes] ∧
      containsTx relayRecords (relayFunding.getHash sampleChainHashes) = true ∧
      relayParent ∉ (newBlock [relayRival]).vtx ∧
      inPoolAfter [relayRival] relayParent = some false ∧
      prevIds relayChild = [relayParent.getHash sampleChainHashes] ∧
      inPoolAfter [] relayParent = some true ∧
      inPoolAfter [] relayChild = some false := by
  refine ⟨?_, ?_, ?_, ?_, ?_, ?_, ?_, ?_, ?_, ?_, ?_, ?_, ?_, ?_⟩
  all_goals decide +kernel

end Fantom.Pool
