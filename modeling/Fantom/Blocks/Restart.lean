/-
  Fantom.Blocks.Restart — What a node that stops finds again when it starts: the block index in the
  database.

  * `index_survives_iff` — when the index survives a restart.
-/
import Fantom.Blocks.ProcessBlock
import Fantom.Chain.Broken
import Fantom.Chain.LoadBlockIndex

namespace Fantom.Blocks

open Core Chain Lib Option

/-! ## §1. A run of the node. -/

/-- What `CChainParams` fixes of a genesis block: its hash is asserted, and its target is the
lowest. -/
structure IsGenesis (H : Hashes) (b : CBlock) : Prop where
  hashPrevBlock : b.hashPrevBlock = 0
  nBits : b.nBits = 0x1e0fffff
  hash : b.getHash H ≠ 0

instance (H : Hashes) (b : CBlock) : Decidable (IsGenesis H b) :=
  decidable_of_iff (b.hashPrevBlock = 0 ∧ b.nBits = 0x1e0fffff ∧ b.getHash H ≠ 0)
    ⟨fun ⟨h₁, h₂, h₃⟩ => ⟨h₁, h₂, h₃⟩, fun ⟨h₁, h₂, h₃⟩ => ⟨h₁, h₂, h₃⟩⟩

/-- The surroundings, on the network of a genesis block. -/
def onNetwork (hashGenesisBlock : UInt256) (env : BlockEnv) : BlockEnv :=
  { env with hashGenesisBlock := hashGenesisBlock }

/-- `LoadBlockIndex` of a node without a block index: the genesis block comes first. -/
def start (env : BlockEnv) (genesis : CBlock) : Except Failure Unit × BlockIndexes :=
  let env := onNetwork (genesis.getHash env.H) env
  let c : BlockIndexes := ⟨.initial, ∅, ∅⟩
  match env.writeToDisk genesis with
  | none => (.error (.error "LoadBlockIndex() : writing genesis block to disk failed"), c)
  | some pos =>
    let result := addToBlockIndex env c pos (genesis.getHash env.H) genesis
    (result.1.mapError (reportAs "LoadBlockIndex() : genesis block not accepted"), result.2)

/-- A block that reaches `AcceptBlock`, with what the call reads besides the chain.  The hash
functions are the same in every call. -/
structure Arrival (H : Hashes) where
  env : BlockEnv
  hashes : env.H = H
  pool : CTxMemPool
  block : CBlock

variable {H : Hashes}

def Arrival.met (c : BlockIndexes) (e : Arrival H) : BlockIndexes :=
  { c with node := { c.node with pool := e.pool } }

def Arrival.step (hashGenesisBlock : UInt256) (c : BlockIndexes) (e : Arrival H) :
    BlockIndexes :=
  (acceptBlock (onNetwork hashGenesisBlock e.env) (e.met c) e.block).2

/-! ## §2. A restart. -/

/-- The loaded index is that of the node: the same blocks, linked in the same way, and the
same best block. -/
structure SameIndex (c : BlockIndexes) (s : LoadedIndex) : Prop where
  links : ∀ h : UInt256, (s.mapBlockIndex[h]?).map IndexEntry.toIndexLinks =
    (c.mapBlockIndex[h]?).map (indexLinks c.node.mem.pnext)
  trust : ∀ h : UInt256, (s.mapBlockIndex[h]?).map IndexEntry.nChainTrust =
    (c.mapBlockIndex[h]?).map CBlockIndex.nChainTrust
  best : s.pindexBest = c.node.pindexBest.map CBlockIndex.getBlockHash

/-- **The index survives a restart** from the committed database, at any time and with or
without the fast index. -/
structure Survives (H : Hashes) (hashGenesisBlock : UInt256) (c : BlockIndexes) : Prop where
  records : ∀ (h : UInt256) (p : CBlockIndex), c.mapBlockIndex[h]? = some p →
    ∃ r, c.node.txdb.disk.blockindex[h]? = some r ∧ r.hashPrev = hashOrZero p.pprev ∧
      r.hashNext = hashOrZero (c.node.mem.pnext p)
  loads : ∀ (fUseFastIndex : Bool) (nAdjustedTime : Int64), ∃ s,
    loadBlockIndex ⟨H, hashGenesisBlock, fUseFastIndex, nAdjustedTime⟩ c.node.txdb.disk = .ok s ∧
      SameIndex c s

/-- The node after the batch with the record of a new block. -/
def recordedNode (node : Node) (pindexNew : CBlockIndex) : Node :=
  { node with
    txdb := ⟨node.txdb.disk.writeBlockIndex (diskBlockIndex node.mem pindexNew), none⟩ }

/-- **The condition on the state before a block is accepted**: it does not enter the index, or
its hash is not zero, the batch with its record is written, and the call of `SetBestChain`,
if there is one, is unbroken. -/
def keepsIndex (env : BlockEnv) (c : BlockIndexes) (b : CBlock) : Bool :=
  match entersIndex env c b with
  | none => true
  | some pos =>
    let hash := b.getHash env.H
    let pindexNew := newBlockIndex c.mapBlockIndex[b.hashPrevBlock]? pos hash b
    let node := recordedNode c.node pindexNew
    hash != 0 && env.txnCommitOk node.txdb.disk &&
      (!decide (pindexNew.nChainTrust > node.nBestChainTrust) ||
        unbroken node ⟨env.toChainEnv, node.pool, b, pindexNew⟩)

def Arrival.keepsIndex (hashGenesisBlock : UInt256) (c : BlockIndexes) (e : Arrival H) : Bool :=
  Blocks.keepsIndex (onNetwork hashGenesisBlock e.env) (e.met c) e.block

/-! ## §3. A standing node. -/

/-- **The invariant**: the index is a tree whose records mirror it, every block is under the
hash of its header, and memory and database stand at one best block. -/
structure Standing (H : Hashes) (hashGenesisBlock : UInt256) (t : BlockTree)
    (best : CBlockIndex) (c : BlockIndexes) : Prop where
  tree : t.mapBlockIndex = c.mapBlockIndex
  genesis : c.mapBlockIndex.contains hashGenesisBlock = true
  consistent : Chain.Consistent t c.node best
  mirrored : Mirrored t c.node
  headed : Headed H t
  nonzero : ∀ p ∈ t, p.getBlockHash ≠ 0

variable {hashGenesisBlock : UInt256} {t : BlockTree} {best : CBlockIndex} {c : BlockIndexes}

/-- **The index of a standing node survives** a restart. -/
theorem Standing.survives (hs : Standing H hashGenesisBlock t best c) :
    Survives H hashGenesisBlock c := by
  have hnext : ∀ p ∈ t, ∀ q, c.node.mem.pnext p = some q → q ∈ t := fun p _ q hq =>
    BlockTree.branch_mem hs.consistent.mem ((hs.consistent.connected.linked p q).mp hq).1
  refine ⟨?_, ?_⟩
  · intro h p hp
    rw [← hs.tree] at hp
    obtain ⟨hmem, rfl⟩ := BlockTree.mem_of_get hp
    obtain ⟨r, hget, hstored⟩ := Recorded.get hs.mirrored hmem
    exact ⟨r, hget, congrArg StoredLinks.hashPrev hstored, congrArg StoredLinks.hashNext hstored⟩
  · intro fUseFastIndex nAdjustedTime
    obtain ⟨s, hload, hbest, hlinks, htrust⟩ :=
      loadBlockIndex_ok ⟨H, hashGenesisBlock, fUseFastIndex, nAdjustedTime⟩ hs.headed hs.mirrored
        hs.nonzero hnext hs.consistent.mem hs.consistent.connected.disk
    refine ⟨s, hload, ?_, ?_, ?_⟩
    · rw [← hs.tree]
      exact hlinks
    · intro h
      rw [← hs.tree]
      cases hp : t.mapBlockIndex[h]? with
      | some p =>
        obtain ⟨hmem, rfl⟩ := BlockTree.mem_of_get hp
        exact htrust p hmem
      | none =>
        have hnone := hlinks h
        rw [hp, map_none, map_eq_none_iff] at hnone
        rw [hnone]
        rfl
    · rw [hbest, hs.consistent.pindexBest]
      rfl

theorem Standing.met (hs : Standing H hashGenesisBlock t best c) (e : Arrival H) :
    Standing H hashGenesisBlock t best (e.met c) :=
  ⟨hs.tree, hs.genesis, ⟨hs.consistent.mem, hs.consistent.pindexBest, hs.consistent.hashBestChain,
    hs.consistent.connected.disk, hs.consistent.connected.genesis,
    hs.consistent.connected.linked⟩, hs.mirrored, hs.headed, hs.nonzero⟩

/-! ## §4. A new entry. -/

variable {env : BlockEnv}

variable {b : CBlock} {pos : BlockFile × UInt32} {pindexNew : CBlockIndex}

theorem entersIndex_some (h : entersIndex env c b = some pos) :
    c.mapBlockIndex[b.getHash env.H]? = none ∧
      ∃ pprev, c.mapBlockIndex[b.hashPrevBlock]? = some pprev := by
  unfold entersIndex at h
  split at h
  next => cases h
  next pos' hcheck =>
    refine ⟨StdMap.contains_eq_false_iff.mp (checkAccept_new hcheck), ?_⟩
    unfold checkAccept at hcheck
    obtain ⟨_, _, hcheck⟩ := bind_eq_ok.mp hcheck
    obtain ⟨_, _, hcheck⟩ := bind_eq_ok.mp hcheck
    obtain ⟨pprev, hprev, _⟩ := bind_eq_ok.mp hcheck
    exact ⟨pprev, required_eq_ok.mp hprev⟩

/-- The call of `SetBestChain` for a new entry. -/
def callFor (env : BlockEnv) (node : Node) (b : CBlock) (pindexNew : CBlockIndex) : Chain.Call :=
  ⟨env.toChainEnv, node.pool, b, pindexNew⟩

/-- The node after a new entry whose record is written. -/
def nodeAfter (env : BlockEnv) (node : Node) (b : CBlock) (pindexNew : CBlockIndex) : Node :=
  if pindexNew.nChainTrust > node.nBestChainTrust then
    (callFor env node b pindexNew).step (recordedNode node pindexNew)
  else recordedNode node pindexNew

theorem indexBlock_eq {hash : UInt256}
    (hnew : pindexNew = newBlockIndex c.mapBlockIndex[b.hashPrevBlock]? pos hash b) :
    indexBlock env c pos hash b = finishIndex env (insertIndex c pindexNew b) pindexNew b := by
  rw [hnew]
  rfl

theorem indexBlock_of_written {hash : UInt256}
    (hnew : pindexNew = newBlockIndex c.mapBlockIndex[b.hashPrevBlock]? pos hash b)
    (hok : env.txnCommitOk (recordedNode c.node pindexNew).txdb.disk = true) :
    (indexBlock env c pos hash b).2 =
      { insertIndex c pindexNew b with node := nodeAfter env c.node b pindexNew } := by
  have hview : env.txnCommitOk (c.node.txdb.disk.writeBlockIndex
      (diskBlockIndex c.node.mem pindexNew)) = true := hok
  rw [indexBlock_eq hnew]
  unfold finishIndex CTxDB.write CTxDB.txnCommit CTxDB.view nodeAfter
  dsimp only [Node.openTxDB, Node.txnBegin, CTxDB.txnBegin, insertIndex, getD_some]
  simp only [hview, Bool.not_true, Bool.false_eq_true, ↓reduceIte]
  split <;> rfl

theorem indexBlock_of_unwritten {hash : UInt256}
    (hnew : pindexNew = newBlockIndex c.mapBlockIndex[b.hashPrevBlock]? pos hash b)
    (hok : env.txnCommitOk (recordedNode c.node pindexNew).txdb.disk = false) :
    (indexBlock env c pos hash b).2.mapBlockIndex =
        c.mapBlockIndex.insert pindexNew.getBlockHash pindexNew ∧
      (indexBlock env c pos hash b).2.node.txdb.disk = c.node.txdb.disk := by
  have hview : env.txnCommitOk (c.node.txdb.disk.writeBlockIndex
      (diskBlockIndex c.node.mem pindexNew)) = false := hok
  rw [indexBlock_eq hnew]
  unfold finishIndex CTxDB.write CTxDB.txnCommit CTxDB.view
  dsimp only [Node.openTxDB, Node.txnBegin, CTxDB.txnBegin, insertIndex, getD_some]
  simp only [hview, Bool.not_false, Bool.false_eq_true, ↓reduceIte, and_self]

theorem indexBlock_accepted {hash : UInt256}
    (hnew : pindexNew = newBlockIndex c.mapBlockIndex[b.hashPrevBlock]? pos hash b)
    (h : (indexBlock env c pos hash b).1 = .ok ()) :
    env.txnCommitOk (recordedNode c.node pindexNew).txdb.disk = true ∧
      (pindexNew.nChainTrust > c.node.nBestChainTrust →
        ((callFor env c.node b pindexNew).answer (recordedNode c.node pindexNew)).1 = .ok ()) := by
  rw [indexBlock_eq hnew] at h
  unfold finishIndex CTxDB.write CTxDB.txnCommit CTxDB.view at h
  dsimp only [Node.openTxDB, Node.txnBegin, CTxDB.txnBegin, insertIndex, getD_some] at h
  cases hok : env.txnCommitOk (c.node.txdb.disk.writeBlockIndex
      (diskBlockIndex c.node.mem pindexNew)) with
  | false =>
    simp only [hok, Bool.not_false, ↓reduceIte, reduceCtorEq] at h
  | true =>
    refine ⟨hok, fun htrust => ?_⟩
    simp only [hok, Bool.not_true, Bool.false_eq_true, ↓reduceIte] at h
    rw [if_pos htrust] at h
    exact h

/-- What the call for a new block meets: a tree with the block, and the record of the block. -/
structure Entered (t : BlockTree) (best : CBlockIndex) (env : BlockEnv) (c : BlockIndexes)
    (b : CBlock) (pindexNew : CBlockIndex) : Prop where
  tree : t.mapBlockIndex = c.mapBlockIndex.insert pindexNew.getBlockHash pindexNew
  mem : pindexNew ∈ t
  consistent : Chain.Consistent t (recordedNode c.node pindexNew) best
  mirrored : Mirrored t (recordedNode c.node pindexNew)
  headed : Headed env.H t
  indexed : pindexNew.nChainTrust > c.node.nBestChainTrust →
    IndexedAs t (recordedNode c.node pindexNew) (callFor env c.node b pindexNew)

/-- **A block enters the index** of a standing node. -/
theorem Standing.enters (hs : Standing env.H env.hashGenesisBlock t best c)
    (henters : entersIndex env c b = some pos)
    (hnew : pindexNew = newBlockIndex c.mapBlockIndex[b.hashPrevBlock]? pos (b.getHash env.H) b) :
    ∃ t', Entered t' best env c b pindexNew := by
  obtain ⟨hnone, pprev, hprev⟩ := entersIndex_some henters
  rw [hprev] at hnew
  rw [← hs.tree] at hnone hprev
  obtain ⟨hmem, hhash⟩ := BlockTree.mem_of_get hprev
  let data : BlockIndexData := ⟨b.getHash env.H, pos.1, pos.2, b.nVersion, b.hashMerkleRoot,
    b.nTime, b.nBits, b.nNonce⟩
  have hchild : pindexNew = .child pprev data := hnew
  have htree : (t.add pprev data hmem hnone).mapBlockIndex =
      c.mapBlockIndex.insert pindexNew.getBlockHash pindexNew := by
    rw [hchild, ← hs.tree]
    rfl
  have hin : pindexNew ∈ t.add pprev data hmem hnone := by
    show (t.add pprev data hmem hnone).mapBlockIndex[pindexNew.getBlockHash]? = some pindexNew
    rw [htree, StdMap.get_insert_self]
  -- what was in the tree is not under the hash of the new block
  have hold : ∀ (h : UInt256) (p : CBlockIndex), t.mapBlockIndex[h]? = some p →
      (t.add pprev data hmem hnone).mapBlockIndex[h]? = some p := by
    intro h p hp
    show (t.mapBlockIndex.insert data.hash _)[h]? = some p
    rw [StdMap.get_insert_ne]
    · exact hp
    · rintro rfl
      rw [hnone] at hp
      cases hp
  refine ⟨t.add pprev data hmem hnone, htree, hin, ?_, ?_, ?_, fun htrust => ?_⟩
  · exact ⟨hold _ _ hs.consistent.mem, hs.consistent.pindexBest, hs.consistent.hashBestChain,
      hs.consistent.connected.disk, hs.consistent.connected.genesis,
      hs.consistent.connected.linked⟩
  · refine Recorded.add hs.mirrored ?_
    rw [stored_diskBlockIndex, hchild]
    rfl
  · -- the header of the new block names the parent by the hash it was found under
    intro p hp
    have hget : (t.mapBlockIndex.insert data.hash (.child pprev data))[p.getBlockHash]? =
        some p := hp
    rw [StdMap.get_insert] at hget
    split at hget
    next =>
      cases hget
      show (headerOf pprev.getBlockHash data).getHash env.H = b.getHash env.H
      rw [hhash]
      rfl
    next => exact hs.headed p hget
  · refine ⟨hin, ?_, ?_, ?_, htrust⟩
    · rw [hchild]
      rfl
    · rw [hchild]
      exact (hold _ _ hprev).symm
    · -- the genesis block is not new
      intro hgenesis
      obtain ⟨p, hp⟩ := StdMap.contains_iff.mp hs.genesis
      have hgenesis' : b.getHash env.H = env.hashGenesisBlock := hgenesis
      rw [hs.tree, hgenesis', hp] at hnone
      cases hnone

theorem Entered.pindexBest_mem (h : Entered t best env c b pindexNew) (p : CBlockIndex)
    (hp : (recordedNode c.node pindexNew).pindexBest = some p) : p ∈ t := by
  rw [h.consistent.pindexBest] at hp
  cases hp
  exact h.consistent.mem

theorem Entered.mirrored_after (h : Entered t best env c b pindexNew) : Mirrored t
    (nodeAfter env c.node b pindexNew) := by
  unfold nodeAfter
  split
  · exact setBestChain_recorded h.mirrored h.mem h.pindexBest_mem
  · exact h.mirrored

theorem Entered.consistent_after (h : Entered t best env c b pindexNew) (hu : pindexNew.nChainTrust
    > c.node.nBestChainTrust → unbroken (recordedNode c.node pindexNew) (callFor env c.node b
    pindexNew) = true) :
    ∃ best', Chain.Consistent t (nodeAfter env c.node b pindexNew) best' := by
  unfold nodeAfter
  split
  next htrust => exact consistent_step h.consistent (h.indexed htrust) (hu htrust)
  next => exact ⟨best, h.consistent⟩

theorem Entered.best_ne {s : LoadedIndex} {loadEnv : LoadEnv} (h : Entered t best env c b pindexNew)
    (htrust : pindexNew.nChainTrust > c.node.nBestChainTrust)
    (hu : unbroken (recordedNode c.node pindexNew) (callFor env c.node b pindexNew) = false)
    (hload : loadBlockIndex loadEnv (nodeAfter env c.node b pindexNew).txdb.disk = .ok s) :
    s.pindexBest ≠
      (nodeAfter env c.node b pindexNew).pindexBest.map CBlockIndex.getBlockHash := by
  have hafter : nodeAfter env c.node b pindexNew =
      (callFor env c.node b pindexNew).step (recordedNode c.node pindexNew) := if_pos htrust
  rw [hafter] at hload ⊢
  obtain ⟨tip, pindexBest, htip, hpindex, hne⟩ := broken_best h.consistent (h.indexed htrust) hu
  rw [loadBlockIndex_best hload htip, hpindex]
  intro heq
  exact hne (Option.some.inj heq)

/-! ## §5. One block. -/

theorem Entered.standing {best' : CBlockIndex} {node : Node} (h : Entered t best env c b pindexNew)
    (hz : ∀ p ∈ t, p.getBlockHash ≠ 0) (hgenesis : c.mapBlockIndex.contains hashGenesisBlock = true)
    (hconsistent : Chain.Consistent t node best') (hmirrored : Mirrored t node) :
    Standing env.H hashGenesisBlock t best' { insertIndex c pindexNew b with node } := by
  refine ⟨h.tree, ?_, hconsistent, hmirrored, h.headed, hz⟩
  obtain ⟨p, hp⟩ := StdMap.contains_iff.mp hgenesis
  show (c.mapBlockIndex.insert pindexNew.getBlockHash pindexNew).contains hashGenesisBlock = true
  rw [StdMap.contains_eq, StdMap.get_insert]
  split
  · rfl
  · rw [hp]
    rfl

/-- **The step lemma.**  Where the condition holds, the node stands afterwards. -/
theorem Standing.accept (hs : Standing env.H env.hashGenesisBlock t best c)
    (hk : keepsIndex env c b = true) :
    ∃ t' best', Standing env.H env.hashGenesisBlock t' best' (acceptBlock env c b).2 := by
  cases henters : entersIndex env c b with
  | none =>
    obtain ⟨f, hf⟩ := acceptBlock_of_none henters
    rw [hf]
    exact ⟨t, best, hs⟩
  | some pos =>
    rw [keepsIndex, henters] at hk
    dsimp only at hk
    rw [Bool.and_eq_true, Bool.and_eq_true, bne_iff_ne] at hk
    obtain ⟨⟨hzero, hok⟩, hcall⟩ := hk
    obtain ⟨t', hin⟩ := hs.enters henters rfl
    have hz : ∀ p ∈ t', p.getBlockHash ≠ 0 := by
      intro p hp
      have hget : t'.mapBlockIndex[p.getBlockHash]? = some p := hp
      rw [hin.tree, StdMap.get_insert, newBlockIndex_hash] at hget
      split at hget
      next hh =>
        rw [← hh]
        exact hzero
      next =>
        rw [← hs.tree] at hget
        exact hs.nonzero p hget
    rw [acceptBlock_of_some henters]
    dsimp only
    rw [indexBlock_of_written rfl hok]
    rw [Bool.or_eq_true, Bool.not_eq_true', decide_eq_false_iff_not] at hcall
    obtain ⟨best', hbest'⟩ := hin.consistent_after fun htrust =>
      hcall.resolve_left fun hle => hle htrust
    exact ⟨t', best', hin.standing hz hs.genesis hbest' hin.mirrored_after⟩

theorem Standing.lost (hs : Standing env.H env.hashGenesisBlock t best c)
    (hk : keepsIndex env c b = false) :
    ¬ Survives env.H env.hashGenesisBlock (acceptBlock env c b).2 := by
  intro hsurvives
  cases henters : entersIndex env c b with
  | none =>
    rw [keepsIndex, henters] at hk
    cases hk
  | some pos =>
    obtain ⟨t', hin⟩ := hs.enters henters rfl
    rw [acceptBlock_of_some henters] at hsurvives
    dsimp only at hsurvives
    cases hok : env.txnCommitOk (recordedNode c.node (newBlockIndex
        c.mapBlockIndex[b.hashPrevBlock]? pos (b.getHash env.H) b)).txdb.disk with
    | false =>
      -- the block has no record
      obtain ⟨hmap, hdisk⟩ := indexBlock_of_unwritten rfl hok
      obtain ⟨r, hget, _⟩ := hsurvives.records (b.getHash env.H) _ (by
        rw [hmap, newBlockIndex_hash, StdMap.get_insert_self])
      rw [hdisk] at hget
      obtain ⟨p, hp, hhash, _⟩ := Recorded.entry hs.mirrored hget
      have hp' : t.mapBlockIndex[p.getBlockHash]? = some p := hp
      rw [hhash, hs.tree, (entersIndex_some henters).1] at hp'
      cases hp'
    | true =>
      rw [indexBlock_of_written rfl hok] at hsurvives
      obtain ⟨s, hload, hsame⟩ := hsurvives.loads false 0
      rw [keepsIndex, henters] at hk
      dsimp only at hk
      rw [hok, Bool.and_true, Bool.and_eq_false_iff, bne_eq_false_iff_eq,
        Bool.or_eq_false_iff, Bool.not_eq_false', decide_eq_true_iff] at hk
      rcases hk with hzero | ⟨htrust, hbroken⟩
      · -- a record under the hash zero cannot be loaded
        have hmirrored := hin.mirrored_after
        refine loadBlockIndex_nonzero hin.headed hmirrored hload _ hin.mem ?_
        rw [newBlockIndex_hash]
        exact hzero
      · exact hin.best_ne htrust hbroken hload hsame.best

/-! ## §6. Runs. -/

theorem getBlockTrust_lowest : 0 < getBlockTrust 0x1e0fffff := by decide +kernel

theorem mem_genesis (data : BlockIndexData) : CBlockIndex.root data ∈ BlockTree.genesis data :=
  StdMap.get_insert_self _ _ _

/-- **The genesis block** is where the node stands, once it is accepted. -/
theorem standing_genesis {genesis : CBlock} (hgenesis : IsGenesis env.H genesis)
    (hnetwork : env.hashGenesisBlock = genesis.getHash env.H)
    (h : (indexBlock env ⟨.initial, ∅, ∅⟩ pos (genesis.getHash env.H) genesis).1 = .ok ()) :
    ∃ t best, Standing env.H env.hashGenesisBlock t best
      (indexBlock env ⟨.initial, ∅, ∅⟩ pos (genesis.getHash env.H) genesis).2 := by
  let data : BlockIndexData := ⟨genesis.getHash env.H, pos.1, pos.2, genesis.nVersion,
    genesis.hashMerkleRoot, genesis.nTime, genesis.nBits, genesis.nNonce⟩
  let root : CBlockIndex := .root data
  have hnew : root = newBlockIndex (∅ : StdMap UInt256 CBlockIndex)[genesis.hashPrevBlock]? pos
      (genesis.getHash env.H) genesis := by
    rw [StdMap.get_empty]
    rfl
  obtain ⟨hok, hcall⟩ := indexBlock_accepted hnew h
  rw [indexBlock_of_written hnew hok]
  have htrust : root.nChainTrust > Node.initial.nBestChainTrust := by
    show getBlockTrust genesis.nBits > 0
    rw [hgenesis.nBits]
    exact getBlockTrust_lowest
  have hmirrored : Mirrored (.genesis data) (recordedNode .initial root) := by
    refine Recorded.genesis ?_
    rw [stored_diskBlockIndex]
    rfl
  have hindexed : IndexedAs (.genesis data) (recordedNode .initial root)
      (callFor env .initial genesis root) := by
    refine ⟨mem_genesis data, rfl, ?_, fun _ => rfl, htrust⟩
    -- no block is under the hash zero
    show none = ((∅ : StdMap UInt256 CBlockIndex).insert data.hash root)[genesis.hashPrevBlock]?
    rw [hgenesis.hashPrevBlock, StdMap.get_insert_ne _ _ hgenesis.hash, StdMap.get_empty]
  have hconsistent := (settled_of_start rfl rfl rfl hindexed).2 (hcall htrust)
  have hafter : nodeAfter env .initial genesis root =
      (callFor env .initial genesis root).step (recordedNode .initial root) := if_pos htrust
  -- the tree has no other block
  have honly : ∀ p ∈ BlockTree.genesis data, p = root := by
    intro p hp
    have hget : ((∅ : StdMap UInt256 CBlockIndex).insert data.hash root)[p.getBlockHash]? =
        some p := hp
    rw [StdMap.get_insert, StdMap.get_empty] at hget
    split at hget
    next => exact (Option.some.inj hget).symm
    next => cases hget
  refine ⟨.genesis data, root, rfl, ?_, ?_, ?_, ?_, ?_⟩
  · show ((∅ : StdMap UInt256 CBlockIndex).insert data.hash root).contains
      env.hashGenesisBlock = true
    rw [hnetwork, StdMap.contains_eq, StdMap.get_insert_self]
    rfl
  · rw [hafter]
    exact hconsistent
  · rw [hafter]
    exact setBestChain_recorded hmirrored (mem_genesis data) nofun
  · intro p hp
    rw [honly p hp]
    show (headerOf 0 data).getHash env.H = genesis.getHash env.H
    rw [← hgenesis.hashPrevBlock]
    rfl
  · intro p hp
    rw [honly p hp]
    exact hgenesis.hash

/-- **A node that starts** stands at its genesis block. -/
theorem standing_start {genesis : CBlock} (hgenesis : IsGenesis env.H genesis)
    (h : start env genesis = (.ok (), c)) :
    ∃ t best, Standing env.H (genesis.getHash env.H) t best c := by
  unfold start at h
  dsimp only at h
  split at h
  next => cases h
  next pos hwrite =>
    rw [addToBlockIndex, if_neg (by rw [StdMap.contains_eq, StdMap.get_empty]; decide)] at h
    split at h
    next => cases h
    next =>
      obtain ⟨hanswer, rfl⟩ := Prod.mk.inj h
      have hnetwork : IsGenesis (onNetwork (genesis.getHash env.H) env).H genesis := hgenesis
      exact standing_genesis hnetwork rfl (mapError_eq_ok.mp hanswer)

theorem Standing.onNetwork (hs : Standing H hashGenesisBlock t best c) (e : Arrival H) :
    Standing (Blocks.onNetwork hashGenesisBlock e.env).H
      (Blocks.onNetwork hashGenesisBlock e.env).hashGenesisBlock t best (e.met c) := by
  have hH : (Blocks.onNetwork hashGenesisBlock e.env).H = H := e.hashes
  rw [hH]
  exact hs.met e

theorem Standing.step {e : Arrival H} (hs : Standing H hashGenesisBlock t best c)
    (hk : e.keepsIndex hashGenesisBlock c = true) :
    ∃ t' best', Standing H hashGenesisBlock t' best' (e.step hashGenesisBlock c) := by
  have hnext := (hs.onNetwork e).accept hk
  have hH : (Blocks.onNetwork hashGenesisBlock e.env).H = H := e.hashes
  rw [hH] at hnext
  exact hnext

theorem Standing.lost_step {e : Arrival H} (hs : Standing H hashGenesisBlock t best c)
    (hk : e.keepsIndex hashGenesisBlock c = false) :
    ¬ Survives H hashGenesisBlock (e.step hashGenesisBlock c) := by
  have hnext := (hs.onNetwork e).lost hk
  have hH : (Blocks.onNetwork hashGenesisBlock e.env).H = H := e.hashes
  rw [hH] at hnext
  exact hnext

/-- **The block index survives a restart.**  After any run of blocks that meet the condition,
it does; and after one more block, exactly when that block meets it. -/
theorem index_survives_iff {genesis : CBlock} {arrivals : List (Arrival env.H)}
    (hgenesis : IsGenesis env.H genesis) (hstart : start env genesis = (.ok (), c))
    (hkept : Along (Arrival.step (genesis.getHash env.H))
      (fun c e => e.keepsIndex (genesis.getHash env.H) c = true) c arrivals) :
    Survives env.H (genesis.getHash env.H)
        (run (Arrival.step (genesis.getHash env.H)) c arrivals) ∧
      ∀ e : Arrival env.H, Survives env.H (genesis.getHash env.H)
          (run (Arrival.step (genesis.getHash env.H)) c (arrivals ++ [e])) ↔
        e.keepsIndex (genesis.getHash env.H)
          (run (Arrival.step (genesis.getHash env.H)) c arrivals) = true := by
  have hstep : ∀ (c : BlockIndexes) (e : Arrival env.H),
      (∃ t best, Standing env.H (genesis.getHash env.H) t best c) →
      e.keepsIndex (genesis.getHash env.H) c = true →
      ∃ t best, Standing env.H (genesis.getHash env.H) t best
        (e.step (genesis.getHash env.H) c) := by
    rintro c e ⟨t, best, hs⟩ hk
    exact hs.step hk
  have hstanding := run_invariant hstep (standing_start hgenesis hstart) hkept
  refine ⟨?_, fun e => ?_⟩
  · obtain ⟨t, best, hs⟩ := hstanding
    exact hs.survives
  · rw [run_concat]
    constructor
    · intro hsurvives
      obtain ⟨t, best, hs⟩ := hstanding
      by_contra hk
      exact hs.lost_step (Bool.eq_false_iff.mpr hk) hsurvives
    · intro hk
      obtain ⟨t', best', hs'⟩ := hstep _ e hstanding hk
      exact hs'.survives

/-! ## §7. A fork. -/

def sideBlock : CBlock := sampleWork (startBlock.getHash sampleChainHashes) 1 2000
def sideChild : CBlock := sampleWork (sideBlock.getHash sampleChainHashes) 2 1000
variable (nValue : Int64)

def sideTop : CBlock := sampleWork (sideChild.getHash sampleChainHashes) 3 nValue

def storedBlocks : List (UInt32 × CBlock) :=
  [(0, startBlock), (500, workBlock), (1000, sideBlock), (1500, sideChild),
    (2000, sideTop nValue)]

def restartEnv (refused : Option UInt256) : BlockEnv :=
  { sampleBlockEnv with
    readBlock := fun _ nBlockPos =>
      ((storedBlocks nValue).find? fun s => s.1 == nBlockPos).map Prod.snd
    writeToDisk := fun b => ((storedBlocks nValue).find? fun s =>
      s.2.getHash sampleChainHashes == b.getHash sampleChainHashes).map fun s => (.first, s.1)
    txnCommitOk := fun db => refused.isNone || db.hashBestChain != refused }

def restartNode : BlockIndexes := (start (restartEnv nValue none) startBlock).2

def forkArrivals : List (Arrival sampleChainHashes) :=
  [⟨restartEnv nValue none, rfl, .empty, workBlock⟩,
    ⟨restartEnv nValue none, rfl, .empty, sideBlock⟩,
    ⟨restartEnv nValue (some (sideChild.getHash sampleChainHashes)), rfl, .empty, sideChild⟩]

def topArrival : Arrival sampleChainHashes :=
  ⟨restartEnv nValue none, rfl, .empty, sideTop nValue⟩

theorem restartNode_started {nValue : Int64}
    (h : accepts (start (restartEnv nValue none) startBlock).1 = true) :
    start (restartEnv nValue none) startBlock = (.ok (), restartNode nValue) := by
  obtain ⟨⟨⟩, hok⟩ := accepts_iff.mp h
  rw [restartNode, ← hok, Prod.eta]

theorem index_survives_fork :
    Survives sampleChainHashes (startBlock.getHash sampleChainHashes)
      (run (Arrival.step (startBlock.getHash sampleChainHashes)) (restartNode (80 * COIN))
        (forkArrivals (80 * COIN) ++ [topArrival (80 * COIN)])) := by
  have hgenesis : IsGenesis (restartEnv (80 * COIN) none).H startBlock := by decide +kernel
  have hstart := restartNode_started (show accepts (start (restartEnv (80 * COIN) none)
    startBlock).1 = true by decide +kernel)
  have hkept : Along (Arrival.step (startBlock.getHash sampleChainHashes))
      (fun c e => e.keepsIndex (startBlock.getHash sampleChainHashes) c = true)
      (restartNode (80 * COIN)) (forkArrivals (80 * COIN)) := by
    refine ⟨?_, ?_, ?_, trivial⟩
    iterate 3 decide +kernel
  exact ((index_survives_iff hgenesis hstart hkept).2 (topArrival (80 * COIN))).mpr
    (by decide +kernel)

/-- **The best block does not survive.**  The node postpones the last block, switches to the
second one, cannot connect the last one, and takes it as its best block: `AcceptBlock`
returns true, and the database names the second one. -/
theorem index_lost_fork :
    accepts (start (restartEnv (81 * COIN) none) startBlock).1 = true ∧
      accepts (acceptBlock (restartEnv (81 * COIN) none)
        (run (Arrival.step (startBlock.getHash sampleChainHashes)) (restartNode (81 * COIN))
          (forkArrivals (81 * COIN))) (sideTop (81 * COIN))).1 = true ∧
      ¬ Survives sampleChainHashes (startBlock.getHash sampleChainHashes)
        (run (Arrival.step (startBlock.getHash sampleChainHashes)) (restartNode (81 * COIN))
          (forkArrivals (81 * COIN) ++ [topArrival (81 * COIN)])) := by
  refine ⟨by decide +kernel, by decide +kernel, ?_⟩
  intro hsurvives
  obtain ⟨s, hload, hsame⟩ := hsurvives.loads false 0
  have hdisk : (run (Arrival.step (startBlock.getHash sampleChainHashes))
      (restartNode (81 * COIN)) (forkArrivals (81 * COIN) ++
        [topArrival (81 * COIN)])).node.txdb.disk.hashBestChain =
      some (sideChild.getHash sampleChainHashes) := by decide +kernel
  have hbest := hsame.best
  rw [loadBlockIndex_best hload hdisk] at hbest
  revert hbest
  decide +kernel

end Fantom.Blocks
