/-
  Fantom.Chain.BestChain — The best chain in memory and the best chain in the database.

  * `views_agree_iff` — when a call leaves both views equal.

  `SetBestChain` moves `pindexBest` to the new block after the loop over the postponed blocks, also
  when the loop stopped before the new block.
-/
import Fantom.Chain.Accepted
import Fantom.Chain.SetBestChain

namespace Fantom.Chain

open Core Lib List CBlockIndex

/-! ## §1. The two views. -/

/-- The database and the links of the node stand at `tip`. -/
structure Connected (node : Node) (tip : CBlockIndex) : Prop where
  disk : node.txdb.disk.hashBestChain = some tip.getBlockHash
  genesis : node.pindexGenesisBlock = tip.branch.getLast?
  linked : CBlockIndex.links.Linked node.mem.pnext tip

/-- `hashBestChain`, `pindexBest`, the committed hash and the walk along
`pnext` from the genesis block all mean one chain. -/
def ViewsAgree (node : Node) : Prop :=
  ∃ pindexBest pindexGenesisBlock, node.pindexBest = some pindexBest ∧
    node.pindexGenesisBlock = some pindexGenesisBlock ∧
    node.txdb.disk.hashBestChain = some node.hashBestChain ∧
    node.hashBestChain = pindexBest.getBlockHash ∧
    ParentLinks.Visits node.mem.pnext pindexGenesisBlock pindexBest.branch.reverse

/-- The globals that only the end of `SetBestChain` sets. -/
def SameBest (node node' : Node) : Prop :=
  node'.pindexBest = node.pindexBest ∧ node'.hashBestChain = node.hashBestChain

theorem SameBest.trans {a b c : Node} (h : SameBest a b) (h' : SameBest b c) : SameBest a c :=
  ⟨h'.1.trans h.1, h'.2.trans h.2⟩

variable {node node' : Node} {tip pindexBest pindex pindexNew best : CBlockIndex} {db : Records}
    {b : CBlock} {t : BlockTree} {c : Call}

theorem Connected.txnBegin (h : Connected node tip) :
    Connected node.txnBegin tip := ⟨h.disk, h.genesis, h.linked⟩

variable {env : ChainEnv}

/-! ## §2. Commits and failures. -/

theorem view_write (txdb : CTxDB) (db : Records) : (txdb.write fun _ => db).view = db := by
  unfold CTxDB.write CTxDB.view
  cases txdb.activeBatch <;> rfl

theorem commitHashBestChain_ok {txdb txdb' : CTxDB} {hash : UInt256}
    (h : commitHashBestChain env txdb db hash = (true, txdb')) :
    txdb'.disk = db.writeHashBestChain hash ∧
      env.txnCommitOk (db.writeHashBestChain hash) = true := by
  unfold commitHashBestChain at h
  dsimp only at h
  rw [view_write] at h
  obtain ⟨hok, htxdb⟩ := Prod.mk.inj h
  refine ⟨?_, hok⟩
  rw [← htxdb, hok]
  exact view_write txdb _

theorem commitHashBestChain_error {txdb txdb' : CTxDB} {batch : Records} {hash : UInt256}
    (hbatch : txdb.activeBatch = some batch)
    (h : commitHashBestChain env txdb db hash = (false, txdb')) :
    txdb'.disk = txdb.disk ∧ env.txnCommitOk (db.writeHashBestChain hash) = false := by
  unfold commitHashBestChain CTxDB.write at h
  rw [hbatch] at h
  obtain ⟨hok, htxdb⟩ := Prod.mk.inj h
  refine ⟨?_, hok⟩
  rw [← htxdb, hok]
  rfl

theorem invalidChainFound_disk (node : Node) (pindexNew : CBlockIndex) :
    (invalidChainFound node pindexNew).txdb.disk.hashBestChain =
      node.txdb.disk.hashBestChain := by
  unfold invalidChainFound
  split <;> rfl

theorem invalidChainFound_mem (node : Node) (pindexNew : CBlockIndex) :
    (invalidChainFound node pindexNew).mem = node.mem ∧
      (invalidChainFound node pindexNew).pindexGenesisBlock = node.pindexGenesisBlock ∧
      SameBest node (invalidChainFound node pindexNew) := by
  unfold invalidChainFound
  split <;> exact ⟨rfl, rfl, rfl, rfl⟩

theorem Connected.invalid (h : Connected node tip) (pindexNew : CBlockIndex) :
    Connected (invalidChainFound node.txnAbort pindexNew) tip ∧
      SameBest node (invalidChainFound node.txnAbort pindexNew) := by
  obtain ⟨hmem, hgenesis, hsame⟩ := invalidChainFound_mem node.txnAbort pindexNew
  refine ⟨⟨?_, ?_, ?_⟩, hsame⟩
  · rw [invalidChainFound_disk]
    exact h.disk
  · rw [hgenesis]
    exact h.genesis
  · rw [hmem]
    exact h.linked

theorem connectBlock_pnext {mem mem' : IndexMem} {db' : Records}
    (h : connectBlock env pindexBest mem db b pindex false = .ok (mem', db')) :
    mem'.pnext = mem.pnext := by
  obtain ⟨st, _, _, _, hmem, _⟩ := connectBlock_ok h
  rw [hmem]
  rfl

theorem linkNext_pnext (mem : IndexMem) (pindex : CBlockIndex) :
    (linkNext mem pindex).pnext = CBlockIndex.links.link mem.pnext pindex := by
  cases pindex <;> rfl

theorem unlinkNext_pnext (mem : IndexMem) (pindex : CBlockIndex) :
    (unlinkNext mem pindex).pnext = CBlockIndex.links.unlink mem.pnext pindex := by
  cases pindex <;> rfl

/-! ## §3. SetBestChainInner. -/

/-- **A block that `SetBestChainInner` accepts** is where the database and the
links stand afterwards. -/
theorem setBestChainInner_ok (hc : Connected node tip) (hprev : pindexNew.pprev = some tip)
    (hhash : b.getHash env.H = pindexNew.getBlockHash)
    (h : setBestChainInner env node pindexBest b pindexNew = (.ok (), node')) :
    Connected node' pindexNew ∧ SameBest node node' := by
  obtain ⟨mem, db, txdb, hconnect, hcommit, rfl⟩ := setBestChainInner_eq_ok env h
  obtain ⟨hdisk, _⟩ := commitHashBestChain_ok hcommit
  have hpnext : mem.pnext = node.mem.pnext := connectBlock_pnext hconnect
  have hroot := CBlockIndex.links.root_of_mem
    (CBlockIndex.links.parent_mem_line (CBlockIndex.links.self_mem_line pindexNew) hprev)
  refine ⟨⟨?_, ?_, ?_⟩, rfl, rfl⟩
  · show txdb.disk.hashBestChain = _
    rw [hdisk, Records.writeHashBestChain_hashBestChain, hhash]
  · show node.pindexGenesisBlock = _
    rw [hc.genesis]
    exact hroot
  · show CBlockIndex.links.Linked (linkNext mem pindexNew).pnext pindexNew
    rw [linkNext_pnext, hpnext]
    exact hc.linked.link_all (.cons hprev (.refl _))

theorem setBestChainInner_error {f : Failure} (hc : Connected node tip)
    (h : setBestChainInner env node.txnBegin pindexBest b pindexNew = (.error f, node')) :
    Connected node' tip ∧ SameBest node node' := by
  obtain ⟨mem, db, txdb, hconnect, hcommit, rfl⟩ | rfl | rfl := setBestChainInner_eq_error env h
  · obtain ⟨hdisk, _⟩ := commitHashBestChain_error rfl hcommit
    have hpnext : mem.pnext = node.mem.pnext := connectBlock_pnext hconnect
    refine ⟨⟨?_, hc.genesis, ?_⟩, rfl, rfl⟩
    · show txdb.disk.hashBestChain = _
      rw [hdisk]
      exact hc.disk
    · show CBlockIndex.links.Linked mem.pnext tip
      rw [hpnext]
      exact hc.linked
  · exact ⟨hc.txnBegin, rfl, rfl⟩
  · exact hc.txnBegin.invalid pindexNew

theorem commitInner_ok_iff {mem : IndexMem} :
    (commitInner env node b pindexNew mem db).1 = .ok () ↔
      env.txnCommitOk (db.writeHashBestChain (b.getHash env.H)) = true := by
  unfold commitInner commitHashBestChain
  dsimp only
  rw [view_write]
  cases env.txnCommitOk (db.writeHashBestChain (b.getHash env.H)) <;> simp

theorem setBestChainInner_of_ok {mem : IndexMem} (h : connectBlock (withPool env node.pool)
    pindexBest node.mem node.txdb.disk b pindexNew false = .ok (mem, db)) :
    setBestChainInner env node.txnBegin pindexBest b pindexNew =
      commitInner env node.txnBegin b pindexNew mem db := by
  have hmet : connectBlock (withPool env node.txnBegin.pool) pindexBest node.txnBegin.mem
      node.txnBegin.txdb.view b pindexNew false = .ok (mem, db) := h
  rw [setBestChainInner, hmet]

theorem setBestChainInner_of_error {f : Failure} (h : connectBlock (withPool env node.pool)
    pindexBest node.mem node.txdb.disk b pindexNew false = .error f) :
    ∃ f' node', setBestChainInner env node.txnBegin pindexBest b pindexNew =
      (.error f', node') := by
  have hmet : connectBlock (withPool env node.txnBegin.pool) pindexBest node.txnBegin.mem
      node.txnBegin.txdb.view b pindexNew false = .error f := h
  rw [setBestChainInner, hmet]
  cases f with
  | rejected nDoS msg => exact ⟨_, _, rfl⟩
  | threw what => exact ⟨_, _, rfl⟩

/-! ## §4. The postponed blocks. -/

/-- Every postponed block is read, passes `ConnectBlock` on what its
predecessors left, and is committed. -/
def reconnects (env : ChainEnv) (pindexBest : CBlockIndex) : Node → List CBlockIndex → Bool
  | _, [] => true
  | node, pindex :: rest =>
    match readFromDisk env pindex with
    | none => false
    | some block =>
      match connectBlock (withPool env node.pool) pindexBest node.mem node.txdb.disk block
          pindex false with
      | .error _ => false
      | .ok (mem, db) =>
        env.txnCommitOk (db.writeHashBestChain (block.getHash env.H)) &&
          reconnects env pindexBest (commitInner env node.txnBegin block pindex mem db).2 rest

theorem reconnects_cons (node : Node) (pindexBest : CBlockIndex) (rest : List CBlockIndex)
    {block : CBlock} (hread : readFromDisk env pindex = some block) :
    (∃ node', setBestChainInner env node.txnBegin pindexBest block pindex = (.ok (), node') ∧
      reconnects env pindexBest node (pindex :: rest) = reconnects env pindexBest node' rest) ∨
    (∃ f node', setBestChainInner env node.txnBegin pindexBest block pindex = (.error f, node') ∧
      reconnects env pindexBest node (pindex :: rest) = false) := by
  rw [reconnects, hread]
  dsimp only
  cases hconnect : connectBlock (withPool env node.pool) pindexBest node.mem node.txdb.disk block
      pindex false with
  | error f =>
    obtain ⟨f', node', hinner⟩ := setBestChainInner_of_error hconnect
    exact .inr ⟨f', node', hinner, rfl⟩
  | ok r =>
    obtain ⟨mem, db⟩ := r
    dsimp only
    rw [setBestChainInner_of_ok hconnect]
    have hok : (commitInner env node.txnBegin block pindex mem db).1 = .ok () ↔
        env.txnCommitOk (db.writeHashBestChain (block.getHash env.H)) = true :=
      commitInner_ok_iff
    cases hcommit : commitInner env node.txnBegin block pindex mem db with
    | mk answer node' =>
      rw [hcommit] at hok
      cases answer with
      | ok u =>
        left
        refine ⟨node', rfl, ?_⟩
        rw [hok.mp rfl, Bool.true_and]
      | error f =>
        right
        refine ⟨f, node', rfl, ?_⟩
        rw [Bool.eq_false_iff.mpr (fun h => nomatch hok.mpr h), Bool.false_and]

theorem hash_of_readFromDisk {block : CBlock} (h : readFromDisk env pindex = some block) :
    block.getHash env.H = pindex.getBlockHash := by
  unfold readFromDisk at h
  obtain ⟨_, hcheck⟩ := Option.filter_eq_some_iff.mp h
  rw [Bool.and_eq_true, beq_iff_eq] at hcheck
  exact hcheck.2

/-- **Where the loop ends**: at a block of the new branch, which is its last
one exactly when all postponed blocks connect. -/
theorem reconnect_ok {top : CBlockIndex} {l : List CBlockIndex}
    (hl : CBlockIndex.links.Ascends tip l top) (hc : Connected node tip)
    (h : reconnect env pindexBest node l = (.ok (), node')) :
    ∃ tip', Connected node' tip' ∧ tip' ∈ top.branch ∧
      (tip' = top ↔ reconnects env pindexBest node l = true) := by
  -- the loop stops at `tip`, below the top of the branch
  have hstop : ∀ {tip l}, CBlockIndex.links.Ascends tip l top → l ≠ [] → tip ≠ top := by
    intro tip l hl hne heq
    have hrank := hl.rank_eq
    have hlength := length_pos_of_ne_nil hne
    rw [heq] at hrank
    omega
  induction hl generalizing node with
  | refl tip =>
    cases h
    exact ⟨tip, hc, self_mem_branch tip, ⟨fun _ => rfl, fun _ => rfl⟩⟩
  | @cons tip pindex top l hprev hl ih =>
    have hmem : tip ∈ top.branch := (ParentLinks.Ascends.cons hprev hl).mem_line
    have hne : tip ≠ top := hstop (.cons hprev hl) (cons_ne_nil _ _)
    rw [reconnect] at h
    cases hread : readFromDisk env pindex with
    | none =>
      rw [hread] at h
      cases h
      refine ⟨tip, hc, hmem, ⟨fun h => absurd h hne, fun h => ?_⟩⟩
      rw [reconnects, hread] at h
      cases h
    | some block =>
      rw [hread] at h
      dsimp only at h
      rcases reconnects_cons node pindexBest l hread with
        ⟨next, hinner, heq⟩ | ⟨f, next, hinner, heq⟩
      · rw [hinner] at h
        obtain ⟨hnext, _⟩ := setBestChainInner_ok hc.txnBegin hprev
          (hash_of_readFromDisk hread) hinner
        rw [heq]
        exact ih hnext h hstop
      · rw [hinner] at h
        obtain ⟨hnext, _⟩ := setBestChainInner_error hc hinner
        cases f with
        | threw what => cases h
        | rejected nDoS msg =>
          cases h
          refine ⟨tip, hnext, hmem, ⟨fun h => absurd h hne, fun h => ?_⟩⟩
          rw [heq] at h
          cases h

theorem reconnect_of_reconnects {l : List CBlockIndex}
    (h : reconnects env pindexBest node l = true) :
    ∃ node', reconnect env pindexBest node l = (.ok (), node') := by
  induction l generalizing node with
  | nil => exact ⟨node, rfl⟩
  | cons pindex rest ih =>
    cases hread : readFromDisk env pindex with
    | none =>
      rw [reconnects, hread] at h
      cases h
    | some block =>
      rw [reconnect, hread]
      dsimp only
      rcases reconnects_cons node pindexBest rest hread with
        ⟨next, hinner, heq⟩ | ⟨f, next, hinner, heq⟩
      · rw [hinner]
        rw [heq] at h
        exact ih h
      · rw [heq] at h
        cases h

/-! ## §5. Reorganize. -/

theorem descend_mem_branch (nHeight : Nat) (p : CBlockIndex) : descend nHeight p ∈ p.branch := by
  induction p with
  | root d => exact self_mem_branch _
  | child p d ih =>
    rw [descend]
    split
    · exact mem_cons_of_mem _ ih
    · exact self_mem_branch _

theorem findFork_mem {p q pfork : CBlockIndex} (h : findFork p q = some pfork) :
    pfork ∈ p.branch ∧ pfork ∈ q.branch := by
  induction p generalizing q with
  | root d =>
    rw [findFork] at h
    split at h
    next heq =>
      cases h
      refine ⟨self_mem_branch _, ?_⟩
      rw [heq]
      exact descend_mem_branch 0 q
    next => cases h
  | child p d ih =>
    rw [findFork] at h
    split at h
    next heq =>
      cases h
      refine ⟨self_mem_branch _, ?_⟩
      rw [heq]
      exact descend_mem_branch _ q
    next =>
      obtain ⟨hp, hq⟩ := ih h
      exact ⟨mem_cons_of_mem _ hp,
        CBlockIndex.links.line_trans hq (descend_mem_branch _ q)⟩

theorem ascends_backTo {pfork p : CBlockIndex} (h : pfork ∈ p.branch) :
    CBlockIndex.links.Ascends pfork (backTo pfork p).reverse p := by
  induction p with
  | root d =>
    obtain rfl := mem_singleton.mp h
    unfold backTo CBlockIndex.branch
    rw [takeWhile_cons_of_neg (by simp), reverse_nil]
    exact .refl _
  | child p d ih =>
    by_cases heq : CBlockIndex.child p d = pfork
    · subst heq
      unfold backTo CBlockIndex.branch
      rw [takeWhile_cons_of_neg (by simp), reverse_nil]
      exact .refl _
    · have hp : pfork ∈ p.branch := (mem_cons.mp h).resolve_left (Ne.symm heq)
      have hback : backTo pfork (.child p d) = .child p d :: backTo pfork p := by
        unfold backTo CBlockIndex.branch
        rw [takeWhile_cons_of_pos (by simpa using heq)]
        cases p <;> rfl
      rw [hback, reverse_cons]
      exact (ih hp).concat rfl

theorem pnext_foldl_linkNext (l : List CBlockIndex) (mem : IndexMem) :
    (l.foldl linkNext mem).pnext = l.foldl CBlockIndex.links.link mem.pnext := by
  induction l generalizing mem with
  | nil => rfl
  | cons p l ih => rw [foldl_cons, foldl_cons, ih, linkNext_pnext]

theorem pnext_foldl_unlinkNext (l : List CBlockIndex) (mem : IndexMem) :
    (l.foldl unlinkNext mem).pnext = l.foldl CBlockIndex.links.unlink mem.pnext := by
  induction l generalizing mem with
  | nil => rfl
  | cons p l ih => rw [foldl_cons, foldl_cons, ih, unlinkNext_pnext]

theorem connectOne_pnext {st st' : IndexMem × Records × List CTransaction}
    (h : connectOne env pindexBest st pindex = .ok st') : st'.1.pnext = st.1.pnext := by
  unfold connectOne at h
  obtain ⟨block, _, h⟩ := bind_eq_ok.mp h
  obtain ⟨⟨mem, db⟩, hconnect, h⟩ := bind_eq_ok.mp h
  cases pure_eq_ok.mp h
  exact connectBlock_pnext (mapError_eq_ok.mp hconnect)

theorem connects_pnext {vConnect : List CBlockIndex} {mem mem' : IndexMem} {db db' : Records}
    {vDelete : List CTransaction} (h : vConnect.foldlM (connectOne env pindexBest) (mem, db, []) =
      .ok (mem', db', vDelete)) : mem'.pnext = mem.pnext :=
  foldlM_invariant (fun (st : IndexMem × Records × List CTransaction) => st.1.pnext = mem.pnext) rfl
    (fun _ _ _ _ hs hstep => (connectOne_pnext hstep).trans hs) h

/-- **A successful `Reorganize`** moves the database and the links. -/
theorem reorganize_ok (hc : Connected node pindexBest)
    (h : reorganize env node pindexBest pindexNew = .ok node') :
    Connected node' pindexNew ∧ SameBest node node' := by
  obtain ⟨pfork, db, vResurrect, mem, db', vDelete, txdb, hfork, _, hconnect, hcommit, rfl⟩ :=
    reorganize_eq_ok env h
  obtain ⟨hbest, hnew⟩ := findFork_mem hfork
  obtain ⟨hdisk, _⟩ := commitHashBestChain_ok hcommit
  have hpnext := connects_pnext hconnect
  refine ⟨⟨?_, ?_, ?_⟩, rfl, rfl⟩
  · show txdb.disk.hashBestChain = _
    rw [hdisk, Records.writeHashBestChain_hashBestChain]
  · show node.pindexGenesisBlock = _
    rw [hc.genesis]
    exact (CBlockIndex.links.root_of_mem hbest).symm.trans (CBlockIndex.links.root_of_mem hnew)
  · show CBlockIndex.links.Linked (foldl linkNext (foldl unlinkNext mem _) _).pnext _
    rw [pnext_foldl_linkNext, pnext_foldl_unlinkNext, hpnext]
    have hdown := hc.linked.unlink_all (ascends_backTo hbest)
    rw [reverse_reverse] at hdown
    exact hdown.link_all (ascends_backTo hnew)

theorem ascends_postpone (nBestTrust : UInt256) (p : CBlockIndex) :
    CBlockIndex.links.Ascends (postpone nBestTrust p).1 (postpone nBestTrust p).2.reverse p := by
  induction p with
  | root d => exact .refl _
  | child p d ih =>
    rw [postpone]
    split
    · rw [reverse_cons]
      exact ih.concat rfl
    · exact .refl _

/-! ## §6. One call. -/

/-- A call of `SetBestChain`, with the surroundings and the pool it meets. -/
structure Call where
  env : ChainEnv
  pool : CTxMemPool
  b : CBlock
  pindexNew : CBlockIndex

/-- The node the call meets: a fresh handle of the database, and the pool. -/
def Call.met (node : Node) (c : Call) : Node := { node.openTxDB with pool := c.pool }

def Call.answer (node : Node) (c : Call) : Except Failure Unit × Node :=
  setBestChain c.env (c.met node) c.b c.pindexNew

def Call.step (node : Node) (c : Call) : Node := (c.answer node).2

/-- The entry of the block is the one `AddToBlockIndex` makes for it in the
tree, and it has more trust than the best block. -/
structure IndexedAs (t : BlockTree) (node : Node) (c : Call) : Prop where
  mem : c.pindexNew ∈ t
  hash : c.b.getHash c.env.H = c.pindexNew.getBlockHash
  pprev : c.pindexNew.pprev = t.mapBlockIndex[c.b.hashPrevBlock]?
  genesis : c.b.getHash c.env.H = c.env.hashGenesisBlock → c.pindexNew.pprev = none
  trust : node.nBestChainTrust < c.pindexNew.nChainTrust

instance (t : BlockTree) (node : Node) (c : Call) : Decidable (IndexedAs t node c) :=
  decidable_of_iff (c.pindexNew ∈ t ∧ c.b.getHash c.env.H = c.pindexNew.getBlockHash ∧
      c.pindexNew.pprev = t.mapBlockIndex[c.b.hashPrevBlock]? ∧
      (c.b.getHash c.env.H = c.env.hashGenesisBlock → c.pindexNew.pprev = none) ∧
      node.nBestChainTrust < c.pindexNew.nChainTrust)
    ⟨fun ⟨h₁, h₂, h₃, h₄, h₅⟩ => ⟨h₁, h₂, h₃, h₄, h₅⟩,
      fun ⟨h₁, h₂, h₃, h₄, h₅⟩ => ⟨h₁, h₂, h₃, h₄, h₅⟩⟩

/-- **The condition on the state before the call**: it extends the best block,
or `Reorganize` fails, or every postponed block connects. -/
def unbroken (node : Node) (c : Call) : Bool :=
  match node.pindexBest with
  | none => true
  | some pindexBest =>
    if c.b.hashPrevBlock = node.hashBestChain then true
    else
      match reorganize c.env (c.met node).txnBegin pindexBest
          (postpone pindexBest.nChainTrust c.pindexNew).1 with
      | .error _ => true
      | .ok node =>
        reconnects c.env pindexBest node
          (postpone pindexBest.nChainTrust c.pindexNew).2.reverse

/-- Memory and database agree, and their block is in the tree. -/
structure Consistent (t : BlockTree) (node : Node) (best : CBlockIndex) : Prop where
  mem : best ∈ t
  pindexBest : node.pindexBest = some best
  hashBestChain : node.hashBestChain = best.getBlockHash
  connected : Connected node best

/-- A node before its genesis block, or a consistent one. -/
def Settled (t : BlockTree) (node : Node) : Prop :=
  (node.pindexBest = none ∧ node.pindexGenesisBlock = none ∧ node.mem.pnext = fun _ => none) ∨
    ∃ best, Consistent t node best

theorem Consistent.viewsAgree (h : Consistent t node best) : ViewsAgree node := by
  have hne : best.branch ≠ [] := ne_nil_of_mem best.self_mem_branch
  have hlast := getLast?_eq_some_getLast hne
  refine ⟨best, best.branch.getLast hne, h.pindexBest, ?_, ?_, h.hashBestChain, ?_⟩
  · rw [h.connected.genesis, hlast]
  · rw [h.connected.disk, h.hashBestChain]
  · exact h.connected.linked.visits hlast

theorem Consistent.met (h : Consistent t node best) (c : Call) : Connected (c.met node) best :=
  ⟨h.connected.disk, h.connected.genesis, h.connected.linked⟩

theorem Consistent.advanceChain_eq (h : Consistent t node best) :
    advanceChain c.env (c.met node).txnBegin c.b c.pindexNew =
      if c.b.hashPrevBlock = node.hashBestChain then
        extendChain c.env (c.met node).txnBegin best c.b c.pindexNew
      else switchChain c.env (c.met node).txnBegin best c.pindexNew := by
  have hgenesis : (c.met node).txnBegin.pindexGenesisBlock ≠ none := by
    rw [(h.met c).txnBegin.genesis]
    intro hnil
    rw [getLast?_eq_none_iff] at hnil
    exact ne_nil_of_mem best.self_mem_branch hnil
  have hbest : (c.met node).txnBegin.pindexBest = some best := h.pindexBest
  rw [advanceChain, if_neg (fun hand => hgenesis hand.1), hbest]
  rfl

theorem Consistent.pprev_eq (h : Consistent t node best) (hc : IndexedAs t node c)
    (hprev : c.b.hashPrevBlock = node.hashBestChain) : c.pindexNew.pprev = some best := by
  rw [hc.pprev, hprev, h.hashBestChain]
  exact h.mem

/-- **A call that succeeds** leaves the database and the links at a block of
the new branch, which is the new block exactly when the call is unbroken. -/
theorem advanceChain_ok (hn : Consistent t node best) (hc : IndexedAs t node c)
    (h : advanceChain c.env (c.met node).txnBegin c.b c.pindexNew = (.ok (), node')) :
    ∃ tip, Connected node' tip ∧ tip ∈ c.pindexNew.branch ∧
      (tip = c.pindexNew ↔ unbroken node c = true) := by
  rw [hn.advanceChain_eq] at h
  rw [unbroken, hn.pindexBest]
  dsimp only
  by_cases hprev : c.b.hashPrevBlock = node.hashBestChain
  · rw [if_pos hprev] at h ⊢
    obtain ⟨hnew, _⟩ := setBestChainInner_ok (hn.met c).txnBegin (hn.pprev_eq hc hprev) hc.hash
      (extendChain_eq_ok c.env h)
    exact ⟨c.pindexNew, hnew, c.pindexNew.self_mem_branch, ⟨fun _ => rfl, fun _ => rfl⟩⟩
  · rw [if_neg hprev] at h ⊢
    obtain ⟨next, hreorg, hloop⟩ := switchChain_eq_ok c.env h
    rw [hreorg]
    obtain ⟨hnext, _⟩ := reorganize_ok (hn.met c).txnBegin hreorg
    exact reconnect_ok (ascends_postpone _ _) hnext hloop

/-- **A call that fails**, unbroken, leaves them at the best block. -/
theorem advanceChain_error {f : Failure} (hn : Consistent t node best) (hu : unbroken node c = true)
    (h : advanceChain c.env (c.met node).txnBegin c.b c.pindexNew = (.error f, node')) :
    Connected node' best ∧ SameBest node node' := by
  rw [hn.advanceChain_eq] at h
  rw [unbroken, hn.pindexBest] at hu
  dsimp only at hu
  by_cases hprev : c.b.hashPrevBlock = node.hashBestChain
  · rw [if_pos hprev] at h
    -- whatever the failure is called, the node is the one `SetBestChainInner` left
    have hinner : ∃ f', setBestChainInner c.env (c.met node).txnBegin best c.b c.pindexNew =
        (.error f', node') := by
      unfold extendChain at h
      split at h
      next heq =>
        cases h
        exact ⟨_, heq⟩
      next => exact ⟨f, h⟩
    obtain ⟨f', hinner⟩ := hinner
    have hleft : Connected node' best ∧ SameBest (c.met node) node' :=
      setBestChainInner_error (hn.met c) hinner
    exact hleft
  · rw [if_neg hprev] at h hu
    unfold switchChain at h
    dsimp only at h
    cases hreorg : reorganize c.env (c.met node).txnBegin best
        (postpone best.nChainTrust c.pindexNew).1 with
    | error f' =>
      rw [hreorg] at h
      cases f' with
      | rejected nDoS msg =>
        cases h
        exact (hn.met c).txnBegin.invalid c.pindexNew
      | threw what =>
        cases h
        exact ⟨(hn.met c).txnBegin, rfl, rfl⟩
    | ok next =>
      -- the loop over the postponed blocks does not fail
      rw [hreorg] at h hu
      obtain ⟨node'', hok⟩ := reconnect_of_reconnects hu
      dsimp only at h
      rw [hok] at h
      cases h

theorem answer_eq (node : Node) (c : Call) :
    c.answer node =
      match advanceChain c.env (c.met node).txnBegin c.b c.pindexNew with
      | (.ok (), node) => (.ok (), newBest c.env node c.b c.pindexNew)
      | r => r := rfl

theorem settled_of_start (hbest : node.pindexBest = none)
    (hgenesis : node.pindexGenesisBlock = none) (hpnext : node.mem.pnext = fun _ => none)
    (hc : IndexedAs t node c) :
    Settled t (c.step node) ∧
      ((c.answer node).1 = .ok () → Consistent t (c.step node) c.pindexNew) := by
  rw [Call.step, answer_eq]
  have hmet : (c.met node).txnBegin.pindexGenesisBlock = none := hgenesis
  have hmetBest : (c.met node).txnBegin.pindexBest = none := hbest
  unfold advanceChain
  by_cases hhash : c.b.getHash c.env.H = c.env.hashGenesisBlock
  · rw [if_pos ⟨hmet, hhash⟩]
    unfold startChain
    cases hcommit : commitHashBestChain c.env (c.met node).txnBegin.txdb
        (c.met node).txnBegin.txdb.view (c.b.getHash c.env.H) with
    | mk fOk txdb =>
      cases fOk with
      | false => exact ⟨.inl ⟨hbest, hgenesis, hpnext⟩, nofun⟩
      | true =>
        obtain ⟨hdisk, _⟩ := commitHashBestChain_ok hcommit
        have hroot := hc.genesis hhash
        have hcons : Consistent t (newBest c.env { (c.met node).txnBegin with
            txdb := txdb, pindexGenesisBlock := some c.pindexNew } c.b c.pindexNew)
            c.pindexNew := by
          refine ⟨hc.mem, rfl, hc.hash, ⟨?_, ?_, ?_⟩⟩
          · show txdb.disk.hashBestChain = _
            rw [hdisk, Records.writeHashBestChain_hashBestChain, hc.hash]
          · show some c.pindexNew = (CBlockIndex.links.line c.pindexNew).getLast?
            rw [CBlockIndex.links.line_root _ hroot]
            rfl
          · show CBlockIndex.links.Linked node.mem.pnext c.pindexNew
            rw [hpnext]
            exact ParentLinks.Linked.root hroot
        exact ⟨.inr ⟨_, hcons⟩, fun _ => hcons⟩
  · rw [if_neg (fun hand => hhash hand.2), hmetBest]
    exact ⟨.inl ⟨hbest, hgenesis, hpnext⟩, nofun⟩

theorem viewsAgree_of_consistent (hn : Consistent t node best) (hc : IndexedAs t node c)
    (hok : (c.answer node).1 = .ok ()) :
    (ViewsAgree (c.step node) ↔ unbroken node c = true) ∧
      (unbroken node c = true → Consistent t (c.step node) c.pindexNew) := by
  unfold Call.step
  rw [answer_eq] at hok ⊢
  cases hadv : advanceChain c.env (c.met node).txnBegin c.b c.pindexNew with
  | mk r node' =>
    rw [hadv] at hok
    cases r with
    | error f => cases hok
    | ok u =>
      obtain ⟨tip, htip, hmem, hiff⟩ := advanceChain_ok hn hc hadv
      have hcons : tip = c.pindexNew →
          Consistent t (newBest c.env node' c.b c.pindexNew) c.pindexNew := by
        rintro rfl
        exact ⟨hc.mem, rfl, hc.hash, ⟨htip.disk, htip.genesis, htip.linked⟩⟩
      refine ⟨⟨?_, fun hu => (hcons (hiff.mpr hu)).viewsAgree⟩, fun hu => hcons (hiff.mpr hu)⟩
      rintro ⟨best', genesis', _, _, hdisk, _, _⟩
      apply hiff.mp
      -- one hash in the database, so one block of the tree
      have hdisk' : node'.txdb.disk.hashBestChain = some (c.b.getHash c.env.H) := hdisk
      rw [htip.disk, hc.hash] at hdisk'
      exact BlockTree.eq_of_hash (BlockTree.branch_mem hc.mem hmem) hc.mem
        (Option.some.inj hdisk')

/-! ## §7. Runs. -/

theorem consistent_step (hn : Consistent t node best) (hc : IndexedAs t node c)
    (hu : unbroken node c = true) :
    ∃ best', Consistent t (c.step node) best' := by
  cases hadv : advanceChain c.env (c.met node).txnBegin c.b c.pindexNew with
  | mk r node' =>
    cases r with
    | ok u =>
      have hok : (c.answer node).1 = .ok () := by rw [answer_eq, hadv]
      exact ⟨_, (viewsAgree_of_consistent hn hc hok).2 hu⟩
    | error f =>
      obtain ⟨hconn, hpindex, hhash⟩ := advanceChain_error hn hu hadv
      have hstep : c.step node = node' := by
        rw [Call.step, answer_eq, hadv]
      rw [hstep]
      exact ⟨best, hn.mem, hpindex.trans hn.pindexBest, hhash.trans hn.hashBestChain, hconn⟩

/-- **The step lemma.**  An unbroken call keeps the node settled, whatever it
returns. -/
theorem settled_step (hn : Settled t node) (hc : IndexedAs t node c) (hu : unbroken node c = true) :
    Settled t (c.step node) := by
  rcases hn with ⟨hbest, hgenesis, hpnext⟩ | ⟨best, hn⟩
  · exact (settled_of_start hbest hgenesis hpnext hc).1
  · exact .inr (consistent_step hn hc hu)

/-- **Both views of the best chain.**  From a node before its genesis block or
a consistent one, after any run of unbroken calls: when one more call of
`SetBestChain` returns true, the database and the memory agree on the best
chain exactly when that call is unbroken. -/
theorem views_agree_iff {t : BlockTree} {node : Node} {calls : List Call} {c : Call}
    (hn : Settled t node)
    (hcalls :
      Along Call.step (fun node c => IndexedAs t node c ∧ unbroken node c = true) node calls)
    (hc : IndexedAs t (run Call.step node calls) c)
    (hok : (c.answer (run Call.step node calls)).1 = .ok ()) :
    ViewsAgree (run Call.step node (calls ++ [c])) ↔
      unbroken (run Call.step node calls) c = true := by
  have hsettled : Settled t (run Call.step node calls) :=
    run_invariant (fun _ _ hs hP => settled_step hs hP.1 hP.2) hn hcalls
  rw [run_concat]
  rcases hsettled with ⟨hbest, hgenesis, hpnext⟩ | ⟨best, hs⟩
  · -- the call starts the chain, and nothing was postponed
    have hcons := (settled_of_start hbest hgenesis hpnext hc).2 hok
    refine ⟨fun _ => ?_, fun _ => hcons.viewsAgree⟩
    rw [unbroken, hbest]
  · exact (viewsAgree_of_consistent hs hc hok).1

/-! ## §8. A fork. -/

def startBlock : CBlock :=
  let b : CBlock := ⟨2, 0, 0, 1000, 0x1e0fffff, 0, [sampleCoinBase 0], []⟩
  { b with hashMerkleRoot := b.buildMerkleTree sampleChainHashes }

def startIndex : CBlockIndex :=
  .root ⟨startBlock.getHash sampleChainHashes, .first, 0, startBlock.nVersion,
    startBlock.hashMerkleRoot, startBlock.nTime, startBlock.nBits, startBlock.nNonce⟩

def losingBlock : CBlock := sampleBlock startIndex [sampleCoinBase 1000]
def losingIndex : CBlockIndex := sampleIndex startIndex losingBlock 500
def forkBlock : CBlock := sampleBlock startIndex [sampleCoinBase 2000]
def forkIndex : CBlockIndex := sampleIndex startIndex forkBlock 1000
def secondBlock : CBlock := sampleBlock forkIndex [sampleCoinBase 1000]
def secondIndex : CBlockIndex := sampleIndex forkIndex secondBlock 1500
variable (nValue : Int64)

def thirdBlock : CBlock := sampleBlock secondIndex [sampleCoinBase nValue]
def thirdIndex : CBlockIndex := sampleIndex secondIndex (thirdBlock nValue) 2000

def forkEnv (fCommit : Bool) : ChainEnv :=
  { sampleChainEnv [] with
    hashGenesisBlock := startBlock.getHash sampleChainHashes
    readBlock := fun _ nBlockPos => ([(500, losingBlock), (1000, forkBlock), (1500, secondBlock),
      (2000, thirdBlock nValue)].find? fun s => s.1 == nBlockPos).map Prod.snd
    txnCommitOk := fun _ => fCommit }

def forkTree : BlockTree :=
  (((BlockTree.genesis startIndex.data).add startIndex losingIndex.data (by decide +kernel)
    (by decide +kernel)).add startIndex forkIndex.data (by decide +kernel)
    (by decide +kernel)).add forkIndex secondIndex.data (by decide +kernel) (by decide +kernel)

def goodTree : BlockTree :=
  forkTree.add secondIndex (thirdIndex (80 * COIN)).data (by decide +kernel) (by decide +kernel)

def badTree : BlockTree :=
  forkTree.add secondIndex (thirdIndex (81 * COIN)).data (by decide +kernel) (by decide +kernel)

/-- The genesis block, the losing block, and the second block of the other
branch while the disk refuses to write. -/
def forkCalls : List Call :=
  [⟨forkEnv nValue true, .empty, startBlock, startIndex⟩,
    ⟨forkEnv nValue true, .empty, losingBlock, losingIndex⟩,
    ⟨forkEnv nValue false, .empty, secondBlock, secondIndex⟩]

def thirdCall : Call :=
  ⟨forkEnv nValue true, .empty, thirdBlock nValue, thirdIndex nValue⟩

theorem settled_initial (t : BlockTree) : Settled t Node.initial := .inl ⟨rfl, rfl, rfl⟩

theorem views_agree_goodTree :
    ViewsAgree (run Call.step Node.initial (forkCalls (80 * COIN) ++ [thirdCall (80 * COIN)])) := by
  obtain ⟨⟨⟩, hok⟩ := accepts_iff.mp (show accepts ((thirdCall (80 * COIN)).answer
    (run Call.step Node.initial (forkCalls (80 * COIN)))).1 = true by decide +kernel)
  have hcalls : Along Call.step (fun node c => IndexedAs goodTree node c ∧ unbroken node c = true)
      Node.initial (forkCalls (80 * COIN)) := by
    refine ⟨?_, ?_, ?_, trivial⟩
    iterate 3 decide +kernel
  exact (views_agree_iff (settled_initial goodTree) hcalls (by decide +kernel) hok).mpr
    (by decide +kernel)

/-- **A postponed block fails**: the call reorganises to the second block,
`ConnectBlock` refuses the third one, and the call returns true with the third
block as the best one. -/
theorem views_differ_badTree :
    let node := run Call.step Node.initial (forkCalls (81 * COIN))
    Along Call.step (fun node c => IndexedAs badTree node c ∧ unbroken node c = true) Node.initial
        (forkCalls (81 * COIN)) ∧
      IndexedAs badTree node (thirdCall (81 * COIN)) ∧
      ((thirdCall (81 * COIN)).answer node).1 = .ok () ∧
      ¬ ViewsAgree ((thirdCall (81 * COIN)).step node) := by
  intro node
  obtain ⟨⟨⟩, hok⟩ := accepts_iff.mp
    (show accepts ((thirdCall (81 * COIN)).answer node).1 = true by decide +kernel)
  refine ⟨⟨?_, ?_, ?_, trivial⟩, ?_, hok, ?_⟩
  iterate 4 decide +kernel
  rintro ⟨_, _, _, _, hdisk, _, _⟩
  revert hdisk
  decide +kernel

end Fantom.Chain
