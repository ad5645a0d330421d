/-
  Fantom.Chain.LoadBlockIndex — `CTxDB::LoadBlockIndex`: the block index, rebuilt from the database
  at the start.

  * `sortedByHeight`, `addTrust` — the trust of the chains, from the lowest block up.

  The check of the last blocks against the block files, which comes after that, is not part of the
  model.
-/
import Fantom.Chain.IndexRecords
import Fantom.Lib.Relink
import Mathlib.Data.List.Sort

namespace Fantom.Chain

open Core Lib List

/-! ## §1. Entries. -/

/-- What links a `CBlockIndex` into the tree.  A pointer is a key of `mapBlockIndex`. -/
structure IndexLinks where
  data : BlockIndexData
  nHeight : Nat
  pprev : Option UInt256
  pnext : Option UInt256
deriving DecidableEq

/-- A `CBlockIndex` that `LoadBlockIndex` makes. -/
structure IndexEntry extends IndexLinks where
  nChainTrust : UInt256
  nMint : Int64
  nMoneySupply : Int64
deriving DecidableEq

/-- `CBlockIndex()`, at its place in `mapBlockIndex`. -/
def IndexEntry.fresh (hash : UInt256) : IndexEntry :=
  ⟨⟨⟨hash, ⟨0, by decide⟩, 0, 0, 0, 0, 0, 0⟩, 0, none, none⟩, 0, 0, 0⟩

/-- The globals that `LoadBlockIndex` sets. -/
structure LoadedIndex where
  mapBlockIndex : StdMap UInt256 IndexEntry
  pindexGenesisBlock : Option UInt256
  hashBestChain : UInt256
  pindexBest : Option UInt256
  nBestHeight : Int
  nBestChainTrust : UInt256

def LoadedIndex.initial : LoadedIndex := ⟨∅, none, 0, none, -1, 0⟩

def insertBlockIndex (mapBlockIndex : StdMap UInt256 IndexEntry) (hash : UInt256) :
    Option UInt256 × StdMap UInt256 IndexEntry :=
  if hash = 0 then (none, mapBlockIndex)
  else (some hash, mapBlockIndex.insertNew hash (.fresh hash))

/-- What `LoadBlockIndex` reads besides the database. -/
structure LoadEnv where
  H : Hashes
  hashGenesisBlock : UInt256
  fUseFastIndex : Bool
  nAdjustedTime : Int64

/-- The block whose header `CDiskBlockIndex::GetBlockHash` fills in. -/
def headerOf (hashPrev : UInt256) (data : BlockIndexData) : CBlock :=
  ⟨data.nVersion, hashPrev, data.hashMerkleRoot, data.nTime, data.nBits, data.nNonce, [], []⟩

variable (env : LoadEnv)

/-- `CDiskBlockIndex::GetBlockHash`: the stored `blockHash` of an old block, else the hash of
the header. -/
def CDiskBlockIndex.getBlockHash (diskindex : CDiskBlockIndex) : UInt256 :=
  if env.fUseFastIndex &&
      decide (diskindex.data.nTime.toUInt64.toInt64 < env.nAdjustedTime - 24 * 60 * 60) &&
      diskindex.data.hash != 0 then diskindex.data.hash
  else (headerOf diskindex.hashPrev diskindex.data).getHash env.H

/-- The entry of a record, before its trust is known. -/
def entryOf (diskindex : CDiskBlockIndex) (pprev pnext : Option UInt256) : IndexEntry :=
  ⟨⟨diskindex.data, diskindex.nHeight, pprev, pnext⟩, 0, diskindex.nMint, diskindex.nMoneySupply⟩

/-- One record of the loop of `LoadBlockIndex`. -/
def loadEntry (s : LoadedIndex) (diskindex : CDiskBlockIndex) : Except Failure LoadedIndex := do
  let (pindexNew, m) := insertBlockIndex s.mapBlockIndex (diskindex.getBlockHash env)
  let (pprev, m) := insertBlockIndex m diskindex.hashPrev
  let (pnext, m) := insertBlockIndex m diskindex.hashNext
  let hash ← required pindexNew (.threw "pindexNew is null")
  return { s with
    mapBlockIndex := m.insert hash (entryOf diskindex pprev pnext)
    pindexGenesisBlock :=
      if s.pindexGenesisBlock = none ∧ hash = env.hashGenesisBlock then some hash
      else s.pindexGenesisBlock }

/-- The records in the order of the iterator, which is that of the bytes of their keys. -/
def diskIndexes (db : Records) : List CDiskBlockIndex :=
  (db.blockindex.toList.insertionSort fun a b =>
    leBytes 32 a.1.toNat ≤ leBytes 32 b.1.toNat).map Prod.snd

/-- `vSortedByHeight`.  The addresses that decide between blocks of one height have no
effect on the trust. -/
def sortedByHeight (mapBlockIndex : StdMap UInt256 IndexEntry) : List (Nat × UInt256) :=
  (mapBlockIndex.toList.map fun e => (e.2.nHeight, e.1)).insertionSort fun a b => a.1 ≤ b.1

/-- `pindex->nChainTrust = (pindex->pprev ? ...) + pindex->GetBlockTrust()`. -/
def addTrust (m : StdMap UInt256 IndexEntry) (item : Nat × UInt256) : StdMap UInt256 IndexEntry :=
  match m[item.2]? with
  | none => m
  | some e =>
    let nPrevTrust := (e.pprev.bind fun q => (m[q]?).map fun e => e.nChainTrust).getD 0
    m.insert item.2 { e with nChainTrust := nPrevTrust + getBlockTrust e.data.nBits }

/-- `CTxDB::LoadBlockIndex`, up to `pindexBest`.  `CheckIndex` is always true. -/
def loadBlockIndex (db : Records) : Except Failure LoadedIndex := do
  let s ← (diskIndexes db).foldlM (loadEntry env) .initial
  let m := (sortedByHeight s.mapBlockIndex).foldl addTrust s.mapBlockIndex
  match db.hashBestChain with
  | none =>
    rejectIf s.pindexGenesisBlock.isSome
      (.error "CTxDB::LoadBlockIndex() : hashBestChain not loaded")
    return { s with mapBlockIndex := m }
  | some hash =>
    let pindexBest ← required m[hash]?
      (.error "CTxDB::LoadBlockIndex() : hashBestChain not found in the block index")
    return { s with
      mapBlockIndex := m
      hashBestChain := hash
      pindexBest := some hash
      nBestHeight := pindexBest.nHeight
      nBestChainTrust := pindexBest.nChainTrust }

/-! ## §2. Records to entries. -/

/-- The pointer to a hash; zero is the null pointer. -/
def pointerTo (hash : UInt256) : Option UInt256 := if hash = 0 then none else some hash

/-- How the records of the block index stand for its entries. -/
def diskFormat : Relink.Format CDiskBlockIndex UInt256 IndexEntry where
  key := CDiskBlockIndex.getBlockHash env
  refs r := [r.hashPrev, r.hashNext].filter (· ≠ 0)
  blank := .fresh
  make r := entryOf r (pointerTo r.hashPrev) (pointerTo r.hashNext)

variable {env : LoadEnv}

theorem insertBlockIndex_eq (env : LoadEnv) (m : StdMap UInt256 IndexEntry) (hash : UInt256) :
    insertBlockIndex m hash =
      (pointerTo hash, ([hash].filter (· ≠ 0)).foldl (Relink.refer (diskFormat env)) m) := by
  unfold insertBlockIndex pointerTo
  by_cases hz : hash = 0
  · rw [if_pos hz, if_pos hz, filter_cons_of_neg (by simpa using hz), filter_nil,
      foldl_nil]
  · rw [if_neg hz, if_neg hz, filter_cons_of_pos (by simpa using hz), filter_nil]
    rfl

variable {s : LoadedIndex} {r : CDiskBlockIndex} {p : CBlockIndex} {m : StdMap UInt256 IndexEntry}

theorem loadEntry_eq_ok {s' : LoadedIndex} (h : loadEntry env s r = .ok s') :
    r.getBlockHash env ≠ 0 ∧ s'.mapBlockIndex = Relink.place (diskFormat env) s.mapBlockIndex r := by
  rw [loadEntry, insertBlockIndex_eq env] at h
  dsimp only at h
  rw [insertBlockIndex_eq env, insertBlockIndex_eq env] at h
  dsimp only at h
  obtain ⟨hash, hhash, h⟩ := bind_eq_ok.mp h
  cases pure_eq_ok.mp h
  rw [required_eq_ok] at hhash
  unfold pointerTo at hhash
  split at hhash
  next => cases hhash
  next hz =>
    cases hhash
    refine ⟨hz, ?_⟩
    have hrefs : ∀ a b : UInt256, [a, b].filter (· ≠ 0) =
        [a].filter (· ≠ 0) ++ [b].filter (· ≠ 0) := fun a b => filter_append [a] [b]
    have hself : [r.getBlockHash env].filter (· ≠ 0) = [r.getBlockHash env] :=
      filter_eq_self.mpr (by simpa using hz)
    show _ = (foldl (Relink.refer (diskFormat env)) s.mapBlockIndex
      ([r.getBlockHash env] ++ [r.hashPrev, r.hashNext].filter (· ≠ 0))).insert _ _
    rw [hrefs, foldl_append, foldl_append, hself]
    rfl

theorem loadEntry_accepts (env : LoadEnv) (s : LoadedIndex) (hz : r.getBlockHash env ≠ 0) : ∃ s',
    loadEntry env s r = .ok s' := by
  rw [loadEntry, insertBlockIndex_eq env]
  dsimp only
  rw [pointerTo, if_neg hz]
  exact ⟨_, rfl⟩

theorem loadEntries_accepts (env : LoadEnv) {l : List CDiskBlockIndex}
    (hz : ∀ r ∈ l, r.getBlockHash env ≠ 0) (s : LoadedIndex) :
    ∃ s', l.foldlM (loadEntry env) s = .ok s' := by
  induction l generalizing s with
  | nil => exact ⟨s, rfl⟩
  | cons r l ih =>
    obtain ⟨s₁, hs₁⟩ := loadEntry_accepts env s (hz r mem_cons_self)
    obtain ⟨s', hs'⟩ := ih (fun r' hr' => hz r' (mem_cons_of_mem _ hr')) s₁
    refine ⟨s', ?_⟩
    rw [foldlM_cons]
    exact bind_eq_ok.mpr ⟨s₁, hs₁, hs'⟩

theorem loadEntries_eq_ok {l : List CDiskBlockIndex}
    (h : l.foldlM (loadEntry env) .initial = .ok s) :
    (∀ r ∈ l, r.getBlockHash env ≠ 0) ∧ s.mapBlockIndex = Relink.rebuild (diskFormat env) l := by
  refine foldlM_rule (fun done (s : LoadedIndex) => (∀ r ∈ done, r.getBlockHash env ≠ 0) ∧
    s.mapBlockIndex = Relink.rebuild (diskFormat env) done) ?_ ?_ h
  · exact ⟨nofun, rfl⟩
  · rintro done r rest s s' _ ⟨hz, hmap⟩ hstep
    obtain ⟨hr, hplace⟩ := loadEntry_eq_ok hstep
    refine ⟨forall_mem_append.mpr ⟨hz, forall_mem_singleton.mpr hr⟩, ?_⟩
    unfold Relink.rebuild at hmap ⊢
    rw [hplace, hmap, foldl_append, foldl_cons, foldl_nil]

variable {t : BlockTree} {next : CBlockIndex → Option CBlockIndex} {db : Records}

theorem mem_diskIndexes :
    r ∈ diskIndexes db ↔ ∃ h : UInt256, db.blockindex[h]? = some r := by
  rw [diskIndexes, mem_map]
  constructor
  · rintro ⟨⟨h, r'⟩, hmem, rfl⟩
    rw [mem_insertionSort, Std.ExtTreeMap.mem_toList_iff_getElem?_eq_some] at hmem
    exact ⟨h, hmem⟩
  · rintro ⟨h, hget⟩
    refine ⟨(h, r), ?_, rfl⟩
    rw [mem_insertionSort]
    exact Std.ExtTreeMap.mem_toList_iff_getElem?_eq_some.mpr hget

/-- **Every entry is under the hash of its header**, in which its parent is named by hash. -/
def Headed (H : Hashes) (t : BlockTree) : Prop :=
  ∀ p ∈ t, (headerOf (hashOrZero p.pprev) p.data).getHash H = p.getBlockHash

theorem getBlockHash_eq (hH : Headed env.H t) (hp : p ∈ t) (hr : r.stored = storedLinks next p) :
    r.getBlockHash env = p.getBlockHash := by
  have hdata : r.data = p.data := congrArg StoredLinks.data hr
  have hprev : r.hashPrev = hashOrZero p.pprev := congrArg StoredLinks.hashPrev hr
  rw [CDiskBlockIndex.getBlockHash, hdata, hprev]
  split
  · rfl
  · exact hH p hp

theorem diskIndexes_distinct (hH : Headed env.H t) (hr : Recorded t next db) :
    (diskIndexes db).Pairwise fun r r' => r.getBlockHash env ≠ r'.getBlockHash env := by
  have hkey : ∀ h r, (h, r) ∈ db.blockindex.toList → r.getBlockHash env = h := by
    intro h r hmem
    obtain ⟨p, hp, hhash, hstored⟩ :=
      hr.entry (Std.ExtTreeMap.mem_toList_iff_getElem?_eq_some.mp hmem)
    rw [← hhash]
    exact getBlockHash_eq hH hp hstored
  have hdistinct : db.blockindex.toList.Pairwise fun a b => a.1 ≠ b.1 := by
    have := Std.ExtTreeMap.distinct_keys_toList (t := db.blockindex)
    simpa using this
  have hsorted : (db.blockindex.toList.insertionSort fun a b =>
      leBytes 32 a.1.toNat ≤ leBytes 32 b.1.toNat).Pairwise fun a b => a.1 ≠ b.1 :=
    ((perm_insertionSort _ _).pairwise_iff fun h => Ne.symm h).mpr hdistinct
  rw [diskIndexes, pairwise_map]
  refine hsorted.imp_of_mem ?_
  intro a b ha hb hne
  rw [mem_insertionSort] at ha hb
  rw [hkey a.1 a.2 ha, hkey b.1 b.2 hb]
  exact hne

theorem pointerTo_hashOrZero {q : Option CBlockIndex}
    (hz : ∀ p, q = some p → p.getBlockHash ≠ 0) :
    pointerTo (hashOrZero q) = q.map CBlockIndex.getBlockHash := by
  cases q with
  | none => rfl
  | some p => exact if_neg (hz p rfl)

/-! ## §3. The entries. -/

/-- The links of an entry in memory, where `next` is `pnext`. -/
def indexLinks (next : CBlockIndex → Option CBlockIndex) (p : CBlockIndex) : IndexLinks :=
  ⟨p.data, p.nHeight, p.pprev.map CBlockIndex.getBlockHash,
    (next p).map CBlockIndex.getBlockHash⟩

/-- The entries of `m` are those of the tree, with their links. -/
def HasLinks (t : BlockTree) (next : CBlockIndex → Option CBlockIndex)
    (m : StdMap UInt256 IndexEntry) : Prop :=
  ∀ h : UInt256, (m[h]?).map IndexEntry.toIndexLinks = (t.mapBlockIndex[h]?).map (indexLinks next)

theorem HasLinks.get (h : HasLinks t next m) (hp : p ∈ t) : ∃ e, m[p.getBlockHash]? = some e ∧
    e.toIndexLinks = indexLinks next p :=
  BlockTree.mirror_get h hp

theorem HasLinks.entry {h : UInt256} {e : IndexEntry} (hm : HasLinks t next m)
    (hget : m[h]? = some e) :
    ∃ p, p ∈ t ∧ p.getBlockHash = h ∧ e.toIndexLinks = indexLinks next p :=
  BlockTree.mirror_entry hm hget

theorem refs_recorded (hH : Headed env.H t) (hr : Recorded t next db)
    (hnext : ∀ p ∈ t, ∀ q, next p = some q → q ∈ t) (hmem : r ∈ diskIndexes db) {k : UInt256}
    (hk : k ∈ (diskFormat env).refs r) :
    ∃ r' ∈ diskIndexes db, (diskFormat env).key r' = k := by
  obtain ⟨h, hget⟩ := mem_diskIndexes.mp hmem
  obtain ⟨p, hp, _, hstored⟩ := hr.entry hget
  -- a hash that is not zero is that of an entry
  suffices hof : ∀ l : Option CBlockIndex, (∀ q, l = some q → q ∈ t) → k = hashOrZero l →
      ∃ r' ∈ diskIndexes db, (diskFormat env).key r' = k by
    have hprev : r.hashPrev = hashOrZero p.pprev := congrArg StoredLinks.hashPrev hstored
    have hlast : r.hashNext = hashOrZero (next p) := congrArg StoredLinks.hashNext hstored
    have hrefs : k ∈ [r.hashPrev, r.hashNext].filter (· ≠ 0) := hk
    rcases mem_cons.mp (mem_of_mem_filter hrefs) with heq | hk
    · exact hof p.pprev (fun q hq => BlockTree.pprev_mem hp hq) (heq.trans hprev)
    · exact hof (next p) (hnext p hp) ((mem_singleton.mp hk).trans hlast)
  intro l hl heq
  cases l with
  | none =>
    have hz : k ≠ 0 := of_decide_eq_true (mem_filter.mp hk).2
    exact absurd heq hz
  | some q =>
    obtain ⟨r', hr', hq⟩ := hr.get (hl q rfl)
    refine ⟨r', mem_diskIndexes.mpr ⟨_, hr'⟩, ?_⟩
    rw [heq]
    exact getBlockHash_eq hH (hl q rfl) hq

/-- **The loop over the records** gives the entries back. -/
theorem hasLinks_rebuild (hH : Headed env.H t) (hr : Recorded t next db)
    (hz : ∀ p ∈ t, p.getBlockHash ≠ 0)
    (hnext : ∀ p ∈ t, ∀ q, next p = some q → q ∈ t) :
    HasLinks t next (Relink.rebuild (diskFormat env) (diskIndexes db)) := by
  obtain ⟨hall, honly⟩ := Relink.get_rebuild (F := diskFormat env) (diskIndexes_distinct hH hr)
    fun r hmem k hk => refs_recorded hH hr hnext hmem hk
  intro h
  cases hp : t.mapBlockIndex[h]? with
  | some p =>
    obtain ⟨hmem, hhash⟩ := BlockTree.mem_of_get hp
    obtain ⟨r, hget, hstored⟩ := hr.get hmem
    have hkey : (diskFormat env).key r = h := by
      rw [← hhash]
      exact getBlockHash_eq hH hmem hstored
    have hentry := hall r (mem_diskIndexes.mpr ⟨_, hget⟩)
    rw [hkey] at hentry
    have hdata : r.data = p.data := congrArg StoredLinks.data hstored
    have hheight : r.nHeight = p.nHeight := congrArg StoredLinks.nHeight hstored
    have hprev : r.hashPrev = hashOrZero p.pprev := congrArg StoredLinks.hashPrev hstored
    have hlast : r.hashNext = hashOrZero (next p) := congrArg StoredLinks.hashNext hstored
    rw [hentry, Option.map_some, Option.map_some]
    show some (IndexLinks.mk r.data r.nHeight (pointerTo r.hashPrev) (pointerTo r.hashNext)) = _
    rw [hdata, hheight, hprev, hlast,
      pointerTo_hashOrZero fun q hq => hz q (BlockTree.pprev_mem hmem hq),
      pointerTo_hashOrZero fun q hq => hz q (hnext p hmem q hq)]
    rfl
  | none =>
    cases he : (Relink.rebuild (diskFormat env) (diskIndexes db))[h]? with
    | none => rfl
    | some e =>
      obtain ⟨r, hmem, hkey⟩ := honly h e he
      obtain ⟨a, hget⟩ := mem_diskIndexes.mp hmem
      obtain ⟨q, hq, _, hstored⟩ := hr.entry hget
      have hhash : q.getBlockHash = h := by
        rw [← hkey]
        exact (getBlockHash_eq hH hq hstored).symm
      have hq' : t.mapBlockIndex[q.getBlockHash]? = some q := hq
      rw [hhash, hp] at hq'
      cases hq'

/-! ## §4. The trust. -/

theorem mem_sortedByHeight {item : Nat × UInt256} :
    item ∈ sortedByHeight m ↔ ∃ e, m[item.2]? = some e ∧ e.nHeight = item.1 := by
  rw [sortedByHeight, mem_insertionSort, mem_map]
  constructor
  · rintro ⟨⟨h, e⟩, hmem, rfl⟩
    exact ⟨e, Std.ExtTreeMap.mem_toList_iff_getElem?_eq_some.mp hmem, rfl⟩
  · rintro ⟨e, hget, hheight⟩
    refine ⟨(item.2, e), Std.ExtTreeMap.mem_toList_iff_getElem?_eq_some.mpr hget, ?_⟩
    rw [hheight]

theorem sortedByHeight_sorted (m : StdMap UInt256 IndexEntry) :
    (sortedByHeight m).Pairwise fun a b => a.1 ≤ b.1 := by
  have htotal : Std.Total fun a b : Nat × UInt256 => a.1 ≤ b.1 := ⟨fun a b => Nat.le_total a.1 b.1⟩
  have htrans : IsTrans (Nat × UInt256) fun a b => a.1 ≤ b.1 := ⟨fun _ _ _ => Nat.le_trans⟩
  exact pairwise_insertionSort _ _

theorem mem_of_sorted {done rest : List (Nat × UInt256)} {a x : Nat × UInt256}
    (hs : (done ++ a :: rest).Pairwise fun a b => a.1 ≤ b.1) (hx : x ∈ done ++ a :: rest)
    (hlt : x.1 < a.1) : x ∈ done := by
  rcases mem_append.mp hx with hx | hx
  · exact hx
  · have hhead := (pairwise_cons.mp (pairwise_append.mp hs).2.1).1
    rcases mem_cons.mp hx with rfl | hx
    · exact absurd hlt (Nat.lt_irrefl _)
    · exact absurd (hhead x hx) (by omega)

theorem nChainTrust_eq (p : CBlockIndex) :
    p.nChainTrust = (p.pprev.map CBlockIndex.nChainTrust).getD 0 + getBlockTrust p.data.nBits := by
  cases p with
  | root d => exact (BitVec.zero_add _).symm
  | child p d => rfl

/-- The entries of `m` have their links, and those of the blocks in `done` their trust. -/
structure Trusted (t : BlockTree) (next : CBlockIndex → Option CBlockIndex)
    (done : List (Nat × UInt256)) (m : StdMap UInt256 IndexEntry) : Prop where
  links : HasLinks t next m
  trust : ∀ p ∈ t, (p.nHeight, p.getBlockHash) ∈ done →
    (m[p.getBlockHash]?).map IndexEntry.nChainTrust = some p.nChainTrust

theorem Trusted.prevTrust {done : List (Nat × UInt256)} {e : IndexEntry}
    (hm : Trusted t next done m) (hp : p ∈ t) (he : e.toIndexLinks = indexLinks next p)
    (hdone : ∀ q, p.pprev = some q → (q.nHeight, q.getBlockHash) ∈ done) :
    (e.pprev.bind fun q => (m[q]?).map fun e => e.nChainTrust).getD 0 =
      (p.pprev.map CBlockIndex.nChainTrust).getD 0 := by
  have hpprev : e.pprev = p.pprev.map CBlockIndex.getBlockHash := congrArg IndexLinks.pprev he
  rw [hpprev]
  cases hq : p.pprev with
  | none => rfl
  | some q =>
    have htrust := hm.trust q (BlockTree.pprev_mem hp hq) (hdone q hq)
    rw [Option.map_some, Option.map_some, Option.bind_some, htrust]

theorem Trusted.addTrust {done : List (Nat × UInt256)} (hm : Trusted t next done m) (hp : p ∈ t)
    (hdone : ∀ q, p.pprev = some q → (q.nHeight, q.getBlockHash) ∈ done) :
    Trusted t next (done ++ [(p.nHeight, p.getBlockHash)])
      (addTrust m (p.nHeight, p.getBlockHash)) := by
  obtain ⟨e, hget, he⟩ := hm.links.get hp
  have hdata : e.data = p.data := congrArg IndexLinks.data he
  have hstep : Chain.addTrust m (p.nHeight, p.getBlockHash) =
      m.insert p.getBlockHash { e with nChainTrust := p.nChainTrust } := by
    rw [Chain.addTrust, hget]
    dsimp only
    rw [hm.prevTrust hp he hdone, hdata, ← nChainTrust_eq]
  rw [hstep]
  refine ⟨?_, ?_⟩
  · intro h
    rw [StdMap.get_insert]
    split
    next hh =>
      rw [← hh, ← hm.links p.getBlockHash, hget]
      rfl
    next => exact hm.links h
  · intro p' hp' hmem
    rw [StdMap.get_insert]
    split
    next hh =>
      rw [BlockTree.eq_of_hash hp hp' hh]
      rfl
    next hh =>
      refine hm.trust p' hp' ?_
      rcases mem_append.mp hmem with hmem | hmem
      · exact hmem
      · exact absurd (congrArg Prod.snd (mem_singleton.mp hmem)).symm hh

/-- **The trust of every chain** is that of the tree when all entries have been visited, the
lowest ones first. -/
theorem trusted_sorted (hm : HasLinks t next m) :
    Trusted t next (sortedByHeight m) ((sortedByHeight m).foldl addTrust m) := by
  have hitem : ∀ p ∈ t, (p.nHeight, p.getBlockHash) ∈ sortedByHeight m := by
    intro p hp
    obtain ⟨e, hget, hlinks⟩ := hm.get hp
    exact mem_sortedByHeight.mpr ⟨e, hget, congrArg IndexLinks.nHeight hlinks⟩
  have h0 : Trusted t next [] m := ⟨hm, nofun⟩
  refine run_rule (I := Trusted t next) h0 ?_
  intro done item rest m' hsplit hm'
  have hmem : item ∈ sortedByHeight m := by simp [hsplit]
  obtain ⟨e, hget, hheight⟩ := mem_sortedByHeight.mp hmem
  obtain ⟨p, hp, hhash, hlinks⟩ := hm.entry hget
  have hp_item : (p.nHeight, p.getBlockHash) = item := by
    refine Prod.ext ?_ hhash
    rw [← hheight]
    exact (congrArg IndexLinks.nHeight hlinks).symm
  rw [← hp_item]
  refine hm'.addTrust hp fun q hq => ?_
  -- the parent is lower, so it stands before
  have hsorted := sortedByHeight_sorted m
  rw [hsplit] at hsorted
  refine mem_of_sorted hsorted (hsplit ▸ hitem q (BlockTree.pprev_mem hp hq)) ?_
  have hlower : p.nHeight = q.nHeight + 1 := CBlockIndex.links.rank_parent p q hq
  rw [← hp_item, hlower]
  exact Nat.lt_succ_self _

/-! ## §5. The index. -/

/-- **A database that mirrors an index** gives it back: the same entries, linked in the same
way, with the same trust, and the best block that it names. -/
theorem loadBlockIndex_ok {best : CBlockIndex} (env : LoadEnv)
    (hH : Headed env.H t) (hr : Recorded t next db) (hz : ∀ p ∈ t, p.getBlockHash ≠ 0)
    (hnext : ∀ p ∈ t, ∀ q, next p = some q → q ∈ t) (hbest : best ∈ t)
    (hhash : db.hashBestChain = some best.getBlockHash) :
    ∃ s, loadBlockIndex env db = .ok s ∧
      s.pindexBest = some best.getBlockHash ∧ HasLinks t next s.mapBlockIndex ∧
      ∀ p ∈ t, (s.mapBlockIndex[p.getBlockHash]?).map IndexEntry.nChainTrust =
        some p.nChainTrust := by
  have hrecords : ∀ r ∈ diskIndexes db, r.getBlockHash env ≠ 0 := by
    intro r hmem
    obtain ⟨h, hget⟩ := mem_diskIndexes.mp hmem
    obtain ⟨p, hp, _, hstored⟩ := hr.entry hget
    rw [getBlockHash_eq hH hp hstored]
    exact hz p hp
  obtain ⟨s, hs⟩ := loadEntries_accepts env hrecords .initial
  have hmap := (loadEntries_eq_ok hs).2
  have hlinks : HasLinks t next s.mapBlockIndex := by
    rw [hmap]
    exact hasLinks_rebuild hH hr hz hnext
  have htrusted := trusted_sorted hlinks
  obtain ⟨e, hget, _⟩ := htrusted.links.get hbest
  refine ⟨{ s with
    mapBlockIndex := (sortedByHeight s.mapBlockIndex).foldl addTrust s.mapBlockIndex
    hashBestChain := best.getBlockHash
    pindexBest := some best.getBlockHash
    nBestHeight := e.nHeight
    nBestChainTrust := e.nChainTrust }, ?_, rfl, htrusted.links,
    fun p hp => htrusted.trust p hp ?_⟩
  · rw [loadBlockIndex, hs, ok_bind, hhash]
    dsimp only
    rw [hget]
    rfl
  · obtain ⟨e', hget', hlinks'⟩ := hlinks.get hp
    exact mem_sortedByHeight.mpr ⟨e', hget', congrArg IndexLinks.nHeight hlinks'⟩

theorem loadBlockIndex_nonzero (hH : Headed env.H t) (hr : Recorded t next db)
    (h : loadBlockIndex env db = .ok s) :
    ∀ p ∈ t, p.getBlockHash ≠ 0 := by
  unfold loadBlockIndex at h
  obtain ⟨s', hs', _⟩ := bind_eq_ok.mp h
  intro p hp
  obtain ⟨r, hget, hstored⟩ := hr.get hp
  rw [← getBlockHash_eq hH hp hstored]
  exact (loadEntries_eq_ok hs').1 r (mem_diskIndexes.mpr ⟨_, hget⟩)

theorem loadBlockIndex_best {hash : UInt256} (h : loadBlockIndex env db = .ok s)
    (hhash : db.hashBestChain = some hash) :
    s.pindexBest = some hash := by
  unfold loadBlockIndex at h
  obtain ⟨s', _, h⟩ := bind_eq_ok.mp h
  rw [hhash] at h
  dsimp only at h
  obtain ⟨e, _, h⟩ := bind_eq_ok.mp h
  cases pure_eq_ok.mp h
  rfl

end Fantom.Chain
