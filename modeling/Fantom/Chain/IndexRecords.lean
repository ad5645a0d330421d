/-
  Fantom.Chain.IndexRecords — The records of the block index in the database, and the links of its
  entries in memory.

  * `StoredLinks`, `Recorded` — every entry has a record, which points where it does,
  * `Recorded.connect`, `Recorded.disconnect` — one block, in the batch: the records go to the links
    that the memory gets after the commit.

  The records that are written in the middle of a call are made from the links of before the call.
  Those of the connected blocks are right because no such link has changed by then: the blocks are
  above the fork (`findFork_top`), one after the other.
-/
import Fantom.Chain.BestChain

namespace Fantom.Chain

open Core Lib List Function Option StdMap CBlockIndex

/-! ## §1. Records. -/

/-- The links of an entry, as its record holds them. -/
structure StoredLinks where
  hashPrev : UInt256
  hashNext : UInt256
  nHeight : Nat
  data : BlockIndexData
deriving DecidableEq

def CDiskBlockIndex.stored (r : CDiskBlockIndex) : StoredLinks :=
  ⟨r.hashPrev, r.hashNext, r.nHeight, r.data⟩

/-- `(pindex ? pindex->GetBlockHash() : 0)` -/
def hashOrZero (pindex : Option CBlockIndex) : UInt256 :=
  (pindex.map getBlockHash).getD 0

/-- The links of an entry in memory, where `next` is `pnext`. -/
def storedLinks (next : CBlockIndex → Option CBlockIndex) (p : CBlockIndex) : StoredLinks :=
  ⟨hashOrZero p.pprev, hashOrZero (next p), p.nHeight, p.data⟩

/-- **The database mirrors the index**: the entries of the tree have records with their links,
and there are no other records. -/
def Recorded (t : BlockTree) (next : CBlockIndex → Option CBlockIndex) (db : Records) : Prop :=
  ∀ h : UInt256, (db.blockindex[h]?).map CDiskBlockIndex.stored =
    (t.mapBlockIndex[h]?).map (storedLinks next)

variable {t : BlockTree} {next next' : CBlockIndex → Option CBlockIndex} {db db' : Records}

theorem stored_diskBlockIndex (mem : IndexMem) (p : CBlockIndex) :
    (diskBlockIndex mem p).stored = storedLinks mem.pnext p := rfl

variable {p pindexBest pindex pindexNew : CBlockIndex} {r : CDiskBlockIndex} {mem : IndexMem}
    {b : CBlock} {node : Node}

theorem storedLinks_congr (h : next' p = next p) :
    storedLinks next' p = storedLinks next p := by
  unfold storedLinks
  rw [h]

theorem Recorded.get (h : Recorded t next db) (hp : p ∈ t) :
    ∃ r, db.blockindex[p.getBlockHash]? = some r ∧ r.stored = storedLinks next p :=
  BlockTree.mirror_get h hp

theorem Recorded.entry {h : UInt256} (hr : Recorded t next db) (hget : db.blockindex[h]? = some r) :
    ∃ p, p ∈ t ∧ p.getBlockHash = h ∧ r.stored = storedLinks next p :=
  BlockTree.mirror_entry hr hget

theorem Recorded.write (h : Recorded t next db) (hp : p ∈ t) (hr : r.stored = storedLinks next' p)
    (hsame : ∀ q, q ≠ p → next' q = next q) :
    Recorded t next' (db.writeBlockIndex r) := by
  have hkey : r.data.hash = p.getBlockHash := congrArg (fun s => s.data.hash) hr
  intro a
  show ((db.blockindex.insert r.data.hash r)[a]?).map _ = _
  rw [hkey, get_insert]
  by_cases ha : p.getBlockHash = a
  · have hget : t.mapBlockIndex[p.getBlockHash]? = some p := hp
    rw [if_pos ha, ← ha, hget, map_some, map_some, hr]
  · rw [if_neg ha, h a]
    -- the entry at another key is another one
    cases hq : t.mapBlockIndex[a]? with
    | none => rfl
    | some q =>
      have hne : q ≠ p := by
        rintro rfl
        exact ha (t.keyed a q hq)
      rw [map_some, map_some, storedLinks_congr (hsame q hne)]

theorem Recorded.add {pprev : CBlockIndex} {data : BlockIndexData} {hprev : pprev ∈ t}
    {hnew : t.mapBlockIndex[data.hash]? = none} (h : Recorded t next db)
    (hr : r.stored = storedLinks next (.child pprev data)) :
    Recorded (t.add pprev data hprev hnew) next (db.writeBlockIndex r) := by
  have hkey : r.data.hash = data.hash := congrArg (fun s => s.data.hash) hr
  intro a
  show ((db.blockindex.insert r.data.hash r)[a]?).map _ =
    ((t.mapBlockIndex.insert data.hash (.child pprev data))[a]?).map _
  rw [hkey, get_insert, get_insert]
  by_cases ha : data.hash = a
  · rw [if_pos ha, if_pos ha, map_some, map_some, hr]
  · rw [if_neg ha, if_neg ha]
    exact h a

theorem Recorded.genesis {data : BlockIndexData} (hr : r.stored = storedLinks next (.root data)) :
    Recorded (.genesis data) next (Records.empty.writeBlockIndex r) := by
  have hkey : r.data.hash = data.hash := congrArg (fun s => s.data.hash) hr
  intro a
  show (((∅ : StdMap UInt256 CDiskBlockIndex).insert r.data.hash r)[a]?).map _ =
    (((∅ : StdMap UInt256 CBlockIndex).insert data.hash (.root data))[a]?).map _
  rw [hkey, get_insert, get_insert]
  by_cases ha : data.hash = a
  · rw [if_pos ha, if_pos ha, map_some, map_some, hr]
  · rw [if_neg ha, if_neg ha, get_empty, get_empty]
    rfl

theorem Recorded.congr (h : Recorded t next db) (hdb : db'.blockindex = db.blockindex) :
    Recorded t next db' := by
  intro a
  rw [hdb]
  exact h a

theorem Recorded.writePrev {hashNext : UInt256} {l : Option CBlockIndex} (h : Recorded t next db)
    (hp : p ∈ t) (hhash : hashNext = hashOrZero l)
    (hlink : ∀ q, p.pprev = some q → next' = update next q l)
    (hroot : p.pprev = none → next' = next) :
    Recorded t next' (writePrevBlockIndex mem p hashNext db) := by
  unfold writePrevBlockIndex
  cases hq : p.pprev with
  | none =>
    rw [hroot hq]
    exact h
  | some q =>
    rw [hlink q hq]
    refine h.write (BlockTree.pprev_mem hp hq) ?_ fun x hx => update_of_ne hx _ _
    rw [storedLinks, update_self, ← hhash]
    rfl

/-! ## §2. One block. -/

variable {env : ChainEnv}

theorem foldl_blockindex {α : Type} {f : Records → α → Records}
    (hf : ∀ db a, (f db a).blockindex = db.blockindex) (l : List α) (db : Records) :
    (l.foldl f db).blockindex = db.blockindex := by
  induction l generalizing db with
  | nil => rfl
  | cons a l ih => rw [foldl_cons, ih, hf]

theorem writeAddrIndex_blockindex (db : Records) (txHash : UInt256) (addrHash : UInt160) :
    (db.writeAddrIndex txHash addrHash).blockindex = db.blockindex := by
  unfold Records.writeAddrIndex
  cases db.adr[addrHash]? with
  | none => rfl
  | some txHashes =>
    dsimp only
    split <;> rfl

theorem writeOutputAddrs_blockindex (hashTx : UInt256) (db : Records) (txout : CTxOut) :
    (writeOutputAddrs env hashTx db txout).blockindex = db.blockindex :=
  foldl_blockindex (fun db id => writeAddrIndex_blockindex db hashTx id) _ db

theorem writeTxAddrs_blockindex {tx : CTransaction} (h : writeTxAddrs env db tx = .ok db') :
    db'.blockindex = db.blockindex := by
  unfold writeTxAddrs at h
  obtain ⟨inputs, _, h⟩ := bind_eq_ok.mp h
  cases pure_eq_ok.mp h
  rw [foldl_blockindex (writeOutputAddrs_blockindex _), Std.ExtTreeMap.foldl_eq_foldl_toList]
  exact foldl_blockindex (fun db (e : UInt256 × CTxIndex × CTransaction) =>
    foldl_blockindex (writeOutputAddrs_blockindex _) e.2.2.vout db) _ db

theorem writePrevBlockIndex_congr {db₁ db₂ : Records} (mem : IndexMem) (p : CBlockIndex)
    (hashNext : UInt256) (h : db₁.blockindex = db₂.blockindex) :
    (writePrevBlockIndex mem p hashNext db₁).blockindex =
      (writePrevBlockIndex mem p hashNext db₂).blockindex := by
  unfold writePrevBlockIndex
  cases p.pprev with
  | none => exact h
  | some q =>
    unfold Records.writeBlockIndex
    rw [h]

theorem connectBlock_blockindex {mem' : IndexMem}
    (h : connectBlock env pindexBest mem db b pindex false = .ok (mem', db')) :
    db'.blockindex = (writePrevBlockIndex mem' pindex pindex.getBlockHash
      (db.writeBlockIndex (diskBlockIndex mem' pindex))).blockindex := by
  obtain ⟨st, db₁, _, _, _, haddr, hr⟩ := (connectBlock_eq_ok env).mp h
  cases hr
  refine writePrevBlockIndex_congr _ _ _ ?_
  refine foldlM_invariant (fun (db₂ : Records) => db₂.blockindex =
    (db.writeBlockIndex (diskBlockIndex (trackSupply mem pindex st) pindex)).blockindex) ?_ ?_
    haddr
  · rfl
  · intro tx _ s s' hs hstep
    rw [writeTxAddrs_blockindex hstep, hs]

/-- **A connected block** is linked in the records, if its own link is still that of before
the call. -/
theorem Recorded.connect {mem' : IndexMem} (hr : Recorded t next db) (hp : pindex ∈ t)
    (hnext : mem.pnext pindex = next pindex)
    (h : connectBlock env pindexBest mem db b pindex false = .ok (mem', db')) :
    Recorded t (links.link next pindex) db' := by
  have hself : Recorded t next (db.writeBlockIndex (diskBlockIndex mem' pindex)) := by
    refine hr.write hp ?_ fun _ _ => rfl
    rw [stored_diskBlockIndex, connectBlock_pnext h, storedLinks_congr hnext]
  refine Recorded.congr ?_ (connectBlock_blockindex h)
  exact hself.writePrev hp (l := some pindex) rfl
    (fun _ hq => ParentLinks.link_child (T := links) hq)
    (fun hq => ParentLinks.link_root (T := links) hq)

theorem disconnectInputs_blockindex {tx : CTransaction}
    (h : disconnectInputs env db tx = .ok db') : db'.blockindex = db.blockindex := by
  unfold disconnectInputs at h
  obtain ⟨db₁, hunspend, h⟩ := bind_eq_ok.mp h
  cases pure_eq_ok.mp h
  show db₁.blockindex = db.blockindex
  unfold unspendInputs at hunspend
  split at hunspend
  · cases hunspend
    rfl
  · refine foldlM_invariant (fun (db₂ : Records) => db₂.blockindex = db.blockindex) rfl ?_ hunspend
    intro txin _ s s' hs hstep
    unfold unspendInput at hstep
    obtain ⟨txindex, _, hstep⟩ := bind_eq_ok.mp hstep
    obtain ⟨_, _, hstep⟩ := bind_eq_ok.mp hstep
    cases pure_eq_ok.mp hstep
    exact hs

/-- **A disconnected block** is not linked in the records any more. -/
theorem Recorded.disconnect (hr : Recorded t next db) (hp : pindex ∈ t)
    (h : disconnectBlock env mem db b pindex = .ok db') :
    Recorded t (links.unlink next pindex) db' := by
  unfold disconnectBlock at h
  obtain ⟨db₁, hloop, h⟩ := bind_eq_ok.mp h
  cases pure_eq_ok.mp h
  have hsame : db₁.blockindex = db.blockindex :=
    foldlM_invariant (fun (db₂ : Records) => db₂.blockindex = db.blockindex) rfl
      (fun tx _ s s' hs hstep => (disconnectInputs_blockindex hstep).trans hs) hloop
  exact (hr.congr hsame).writePrev hp (l := none) rfl
    (fun _ hq => ParentLinks.unlink_child (T := links) hq)
    (fun hq => ParentLinks.unlink_root (T := links) hq)

/-! ## §3. The fork. -/

theorem descend_height (nHeight : Nat) (p : CBlockIndex) (h : nHeight ≤ p.nHeight) :
    (descend nHeight p).nHeight = nHeight := by
  induction p with
  | root d => exact (Nat.le_zero.mp h).symm
  | child p d ih =>
    have hheight : (child p d).nHeight = p.nHeight + 1 := rfl
    rw [hheight] at h
    rw [descend]
    split
    next hgt => exact ih (by omega)
    next hle =>
      rw [hheight]
      omega

theorem mem_descend {nHeight : Nat} {x : CBlockIndex} (hx : x ∈ p.branch)
    (hheight : x.nHeight ≤ nHeight) : x ∈ (descend nHeight p).branch := by
  induction p with
  | root d => exact hx
  | child p d ih =>
    rw [descend]
    split
    next hgt =>
      rcases mem_cons.mp hx with rfl | hx
      · have : (child p d).nHeight = p.nHeight + 1 := rfl
        omega
      · exact ih hx
    next => exact hx

/-- **The fork is the highest block of both branches.** -/
theorem findFork_top {q pfork x : CBlockIndex} (h : findFork p q = some pfork) (hp : x ∈ p.branch)
    (hq : x ∈ q.branch) : x ∈ pfork.branch := by
  induction p generalizing q with
  | root d =>
    rw [findFork] at h
    split at h
    next =>
      cases h
      exact hp
    next => cases h
  | child p d ih =>
    rw [findFork] at h
    split at h
    next =>
      cases h
      exact hp
    next hne =>
      have hrank : x.nHeight ≤ p.nHeight + 1 :=
        links.rank_le_of_mem (a := .child p d) hp
      have hdesc := mem_descend hq hrank
      rcases mem_cons.mp hp with rfl | hp
      · -- a block of that height on the other branch is where the search has stopped
        refine absurd (links.eq_of_mem_line hdesc ?_) hne
        exact (descend_height _ q (links.rank_le_of_mem hq)).symm
      · exact ih h hp hdesc

theorem pprev_ne_of_backTo {best new pfork c : CBlockIndex} (hfork : findFork best new = some pfork)
    (hpindex : pindex ∈ (backTo pfork new).reverse) (hc : c ∈ backTo pfork best) :
    c.pprev ≠ some pindex := by
  obtain ⟨hbest, hnew⟩ := findFork_mem hfork
  obtain ⟨hline, habove, _⟩ := (ascends_backTo hnew).of_mem hpindex
  have hcline : c ∈ best.branch :=
    ((ascends_backTo hbest).of_mem (mem_reverse.mpr hc)).1
  intro hparent
  have hcommon := findFork_top hfork (links.parent_mem_line hcline hparent) hline
  have := links.rank_le_of_mem hcommon
  omega

/-! ## §4. Reorganize. -/

theorem disconnectOne_recorded {st st' : Records × List CTransaction} (hr : Recorded t next st.1)
    (hp : pindex ∈ t) (h : disconnectOne env mem st pindex = .ok st') :
    Recorded t (links.unlink next pindex) st'.1 := by
  unfold disconnectOne at h
  obtain ⟨block, _, h⟩ := bind_eq_ok.mp h
  obtain ⟨db, hdisconnect, h⟩ := bind_eq_ok.mp h
  cases pure_eq_ok.mp h
  exact hr.disconnect hp (mapError_eq_ok.mp hdisconnect)

theorem connectOne_recorded {st st' : IndexMem × Records × List CTransaction}
    (hr : Recorded t next st.2.1) (hp : pindex ∈ t) (hnext : st.1.pnext pindex = next pindex)
    (h : connectOne env pindexBest st pindex = .ok st') :
    Recorded t (links.link next pindex) st'.2.1 := by
  unfold connectOne at h
  obtain ⟨block, _, h⟩ := bind_eq_ok.mp h
  obtain ⟨⟨mem, db⟩, hconnect, h⟩ := bind_eq_ok.mp h
  cases pure_eq_ok.mp h
  exact hr.connect hp hnext (mapError_eq_ok.mp hconnect)

theorem disconnects_recorded {l : List CBlockIndex} {st : Records × List CTransaction}
    {vResurrect : List CTransaction} (hr : Recorded t next db) (hl : ∀ p ∈ l, p ∈ t)
    (h : l.foldlM (disconnectOne env mem) (db, vResurrect) = .ok st) :
    Recorded t (l.foldl links.unlink next) st.1 := by
  refine foldlM_rule (fun done (st : Records × List CTransaction) =>
    Recorded t (done.foldl links.unlink next) st.1) ?_ ?_ h
  · exact hr
  intro done pindex rest s s' hsplit hs hstep
  rw [foldl_append, foldl_cons, foldl_nil]
  exact disconnectOne_recorded hs (hl pindex (by simp [hsplit])) hstep

theorem connects_recorded {pfork top : CBlockIndex} {l : List CBlockIndex}
    {st : IndexMem × Records × List CTransaction} {vDelete : List CTransaction}
    (hr : Recorded t next db) (hl : ∀ p ∈ l, p ∈ t) (hup : links.Ascends pfork l top)
    (hnext : ∀ p ∈ l, mem.pnext p = next p)
    (h : l.foldlM (connectOne env pindexBest) (mem, db, vDelete) = .ok st) :
    Recorded t (l.foldl links.link next) st.2.1 := by
  refine (foldlM_rule (fun done (st : IndexMem × Records × List CTransaction) =>
    st.1.pnext = mem.pnext ∧ Recorded t (done.foldl links.link next) st.2.1)
    ?_ ?_ h).2
  · exact ⟨rfl, hr⟩
  intro done pindex rest s s' hsplit hs hstep
  have hmem : pindex ∈ l := by simp [hsplit]
  refine ⟨(connectOne_pnext hstep).trans hs.1, ?_⟩
  rw [foldl_append, foldl_cons, foldl_nil]
  refine connectOne_recorded hs.2 (hl pindex hmem) ?_ hstep
  -- the blocks connected before this one are below it
  rw [hs.1, hnext pindex hmem]
  rw [hsplit] at hup
  exact (ParentLinks.foldl_link_of_ne fun c hc => hup.parent_ne hc).symm

theorem commitHashBestChain_blockindex {txdb txdb' : CTxDB} {hash : UInt256}
    (h : commitHashBestChain env txdb db hash = (true, txdb')) :
    txdb'.disk.blockindex = db.blockindex := by
  rw [(commitHashBestChain_ok h).1]
  rfl

/-- **A successful `Reorganize`** leaves records of the links that it leaves. -/
theorem reorganize_recorded {node' : Node} (hr : Recorded t node.mem.pnext node.txdb.view)
    (hbest : pindexBest ∈ t) (hnew : pindexNew ∈ t)
    (h : reorganize env node pindexBest pindexNew = .ok node') :
    Recorded t node'.mem.pnext node'.txdb.disk := by
  obtain ⟨pfork, db, vResurrect, mem, db', vDelete, txdb, hfork, hdisconnect, hconnect, hcommit,
    rfl⟩ := reorganize_eq_ok env h
  obtain ⟨hbestFork, hnewFork⟩ := findFork_mem hfork
  have hup := ascends_backTo hnewFork
  have hdown := ascends_backTo hbestFork
  have hinBest : ∀ p ∈ backTo pfork pindexBest, p ∈ t := fun p hp =>
    BlockTree.branch_mem hbest (hdown.of_mem (mem_reverse.mpr hp)).1
  have hinNew : ∀ p ∈ (backTo pfork pindexNew).reverse, p ∈ t := fun p hp =>
    BlockTree.branch_mem hnew (hup.of_mem hp).1
  have hnext : ∀ p ∈ (backTo pfork pindexNew).reverse, node.mem.pnext p =
      (backTo pfork pindexBest).foldl links.unlink node.mem.pnext p := fun p hp =>
    (ParentLinks.foldl_unlink_of_ne fun c hc => pprev_ne_of_backTo hfork hp hc).symm
  have hrecords := connects_recorded (disconnects_recorded hr hinBest hdisconnect) hinNew hup
    hnext hconnect
  show Recorded t (foldl linkNext (foldl unlinkNext mem _) _).pnext _
  rw [pnext_foldl_linkNext, pnext_foldl_unlinkNext, connects_pnext hconnect]
  exact hrecords.congr (commitHashBestChain_blockindex hcommit)

/-! ## §5. SetBestChain. -/

def Mirrored (t : BlockTree) (node : Node) : Prop := Recorded t node.mem.pnext node.txdb.disk

theorem invalidChainFound_recorded (pindexNew : CBlockIndex) (hr : Mirrored t node) : Mirrored t
    (invalidChainFound node.txnAbort pindexNew) := by
  rw [Mirrored, (invalidChainFound_mem node.txnAbort pindexNew).1]
  refine hr.congr ?_
  unfold invalidChainFound
  split <;> rfl

theorem setBestChainInner_recorded (hr : Mirrored t node) (hnew : pindexNew ∈ t) :
    Mirrored t (setBestChainInner env node.txnBegin pindexBest b pindexNew).2 := by
  unfold setBestChainInner
  split
  next mem db hconnect =>
    have hpnext : mem.pnext = node.mem.pnext := connectBlock_pnext hconnect
    unfold commitInner
    split
    next txdb hcommit =>
      have hrecords : Recorded t (links.link node.mem.pnext pindexNew) db :=
        Recorded.connect hr hnew rfl hconnect
      show Recorded t (linkNext mem pindexNew).pnext txdb.disk
      rw [linkNext_pnext, hpnext]
      exact hrecords.congr (commitHashBestChain_blockindex hcommit)
    next txdb hcommit =>
      show Recorded t mem.pnext txdb.disk
      rw [hpnext, (commitHashBestChain_error rfl hcommit).1]
      exact hr
  next => exact hr
  next =>
    have hbegin : Mirrored t node.txnBegin := hr
    exact invalidChainFound_recorded pindexNew hbegin

theorem reconnect_recorded {l : List CBlockIndex} (hr : Mirrored t node) (hl : ∀ p ∈ l, p ∈ t) :
    Mirrored t (reconnect env pindexBest node l).2 := by
  induction l generalizing node with
  | nil => exact hr
  | cons pindex rest ih =>
    rw [reconnect]
    split
    next => exact hr
    next block hread =>
      have hinner : Mirrored t
          (setBestChainInner env node.txnBegin pindexBest block pindex).2 :=
        setBestChainInner_recorded hr (hl pindex mem_cons_self)
      split
      next node' heq =>
        rw [heq] at hinner
        exact ih hinner fun p hp => hl p (mem_cons_of_mem _ hp)
      next node' heq =>
        rw [heq] at hinner
        exact hinner
      next node' _ heq =>
        rw [heq] at hinner
        exact hinner

theorem postpone_mem {nBestTrust : UInt256} {q : CBlockIndex}
    (h : q = (postpone nBestTrust p).1 ∨ q ∈ (postpone nBestTrust p).2.reverse) :
    q ∈ p.branch := by
  have hup := ascends_postpone nBestTrust p
  rcases h with rfl | h
  · exact hup.mem_line
  · exact (hup.of_mem h).1

theorem advanceChain_recorded (hr : Mirrored t node) (hnew : pindexNew ∈ t)
    (hbest : ∀ p, node.pindexBest = some p → p ∈ t) :
    Mirrored t (advanceChain env node.txnBegin b pindexNew).2 := by
  unfold advanceChain
  split
  · -- the genesis block has no other record than the one that it has
    unfold startChain
    split
    next txdb hcommit => exact hr.congr (commitHashBestChain_blockindex hcommit)
    next txdb hcommit =>
      show Recorded t node.mem.pnext txdb.disk
      rw [(commitHashBestChain_error rfl hcommit).1]
      exact hr
  · split
    next => exact hr
    next pindexBest hpindex =>
      split
      · have hinner : Mirrored t
            (setBestChainInner env node.txnBegin pindexBest b pindexNew).2 :=
          setBestChainInner_recorded hr hnew
        rw [extendChain_snd]
        exact hinner
      · unfold switchChain
        dsimp only
        split
        next node' hreorg =>
          have hnode' : Mirrored t node' := by
            refine reorganize_recorded ?_ (hbest pindexBest hpindex) ?_ hreorg
            · exact hr
            · exact BlockTree.branch_mem hnew (postpone_mem (.inl rfl))
          exact reconnect_recorded hnode' fun p hp =>
            BlockTree.branch_mem hnew (postpone_mem (.inr hp))
        next => exact hr
        next =>
          have hbegin : Mirrored t node.txnBegin := hr
          exact invalidChainFound_recorded pindexNew hbegin

/-- **Every call of `SetBestChain`**, also one that fails, leaves records of the links that
it leaves. -/
theorem setBestChain_recorded (hr : Mirrored t node) (hnew : pindexNew ∈ t)
    (hbest : ∀ p, node.pindexBest = some p → p ∈ t) :
    Mirrored t (setBestChain env node b pindexNew).2 := by
  have hadvance : Mirrored t (advanceChain env node.txnBegin b pindexNew).2 :=
    advanceChain_recorded hr hnew hbest
  unfold setBestChain
  split
  · exact hr
  · split
    next node' heq =>
      rw [heq] at hadvance
      exact hadvance
    next => exact hadvance

end Fantom.Chain
