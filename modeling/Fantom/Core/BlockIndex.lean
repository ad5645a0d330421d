/-
  Fantom.Core.BlockIndex — The block index in memory: positions in the block files, targets and
  trust, `CBlockIndex` as a tree linked by `pprev`, and `mapBlockIndex`.

  * `CDiskTxPos`, `CTxIndex` — where a transaction is stored and where each of its outputs is spent.

  `pnext`, `nMint` and `nMoneySupply` change while the node runs and are kept in the state of the
  node, not here.
-/
import Fantom.Core.Transaction
import Fantom.Lib.ParentLinks
import Fantom.Lib.StdMap

namespace Fantom.Core

section Tree

open Lib Option StdMap

/-! ## §1. Positions. -/

/-- `CDiskTxPos`.  `SetNull` zeroes the offsets and nothing else writes the
null file number, so there is one null position. -/
structure CDiskTxPos where
  nFile : UInt32
  nBlockPos : UInt32
  nTxPos : UInt32
  null_eq : nFile = 0xffffffff → nBlockPos = 0 ∧ nTxPos = 0
deriving DecidableEq

/-- `CDiskTxPos::SetNull`. -/
def CDiskTxPos.null : CDiskTxPos := ⟨0xffffffff, 0, 0, fun _ => ⟨rfl, rfl⟩⟩

def CDiskTxPos.isNull (pos : CDiskTxPos) : Bool := pos.nFile == 0xffffffff

theorem CDiskTxPos.isNull_iff {pos : CDiskTxPos} : pos.isNull = true ↔ pos = .null := by
  rw [isNull, beq_iff_eq]
  constructor
  · intro h
    obtain ⟨hb, ht⟩ := pos.null_eq h
    cases pos
    simp_all [null]
  · intro h
    rw [h]
    rfl

/-- The number of a block file; `OpenBlockFile` has none with number `-1`. -/
abbrev BlockFile := { nFile : UInt32 // nFile ≠ 0xffffffff }

/-- The file `blk0001.dat`. -/
def BlockFile.first : BlockFile := ⟨1, by decide⟩

/-- `CDiskTxPos(nFile, nBlockPos, nTxPos)` for a block file. -/
def CDiskTxPos.inFile (nFile : BlockFile) (nBlockPos nTxPos : UInt32) : CDiskTxPos :=
  ⟨nFile.1, nBlockPos, nTxPos, fun h => absurd h nFile.2⟩

theorem CDiskTxPos.inFile_not_null (nFile : BlockFile) (nBlockPos nTxPos : UInt32) :
    (CDiskTxPos.inFile nFile nBlockPos nTxPos).isNull = false := by
  unfold isNull inFile
  exact beq_false_of_ne nFile.2

/-- `CDiskTxPos(1,1,1)`, the mark of a transaction of the memory pool. -/
def CDiskTxPos.inMempool : CDiskTxPos := .inFile .first 1 1

/-- `CTxIndex`: where a transaction is, and for each of its outputs the
position of the transaction that spends it. -/
structure CTxIndex where
  pos : CDiskTxPos
  vSpent : List CDiskTxPos
deriving DecidableEq

/-- `CTxIndex(posIn, nOutputs)`. -/
def CTxIndex.fresh (pos : CDiskTxPos) (nOutputs : Nat) : CTxIndex :=
  ⟨pos, List.replicate nOutputs .null⟩

/-! ## §2. Targets and trust. -/

/-- `BN_mpi2bn` on the bytes after the length: a sign bit, then the magnitude,
most significant byte first. -/
def mpi2bn : List UInt8 → Int
  | [] => 0
  | b :: bs =>
    let n : Int := ofLEBytes ((b &&& 0x7f) :: bs).reverse
    if b &&& 0x80 = 0 then n else -n

def setCompact (nCompact : UInt32) : Int :=
  let nSize := (nCompact >>> 24).toNat
  mpi2bn <|
    ([(nCompact >>> 16).toUInt8, (nCompact >>> 8).toUInt8, nCompact.toUInt8] ++
      List.replicate (nSize - 3) 0).take nSize

-- the target of the genesis block: three bytes, then 27 zero bytes
example : setCompact 0x1e0fffff = 0x0fffff * 256 ^ 27 := by decide +kernel

/-- `Params().ProofOfWorkLimit()`, the same on both networks. -/
def bnProofOfWorkLimit : Int := (2 ^ 256 - 1) / 2 ^ 12

def checkProofOfWork (hash : UInt256) (nBits : UInt32) : Bool :=
  let bnTarget := setCompact nBits
  if bnTarget ≤ 0 ∨ bnTarget > bnProofOfWorkLimit then false
  else decide ((hash.toNat : Int) ≤ bnTarget)

def getBlockTrust (nBits : UInt32) : UInt256 :=
  let bnTarget := setCompact nBits
  if bnTarget ≤ 0 then 0 else BitVec.ofInt 256 (2 ^ 256 / (bnTarget + 1))

/-! ## §3. Nodes of the index. -/

/-- The fields of a `CBlockIndex` that are set once. -/
structure BlockIndexData where
  /-- `*phashBlock`. -/
  hash : UInt256
  nFile : BlockFile
  nBlockPos : UInt32
  nVersion : Int32
  hashMerkleRoot : UInt256
  nTime : UInt32
  nBits : UInt32
  nNonce : UInt32
deriving DecidableEq

/-- `CBlockIndex`.  `pprev` is null at the root only. -/
inductive CBlockIndex where
  | root (data : BlockIndexData)
  | child (pprev : CBlockIndex) (data : BlockIndexData)
deriving DecidableEq

namespace CBlockIndex

def data : CBlockIndex → BlockIndexData
  | root d => d
  | child _ d => d

def pprev : CBlockIndex → Option CBlockIndex
  | root _ => none
  | child p _ => some p

def getBlockHash (pindex : CBlockIndex) : UInt256 := pindex.data.hash

def getBlockTime (pindex : CBlockIndex) : Int64 := pindex.data.nTime.toUInt64.toInt64

def nHeight : CBlockIndex → Nat
  | root _ => 0
  | child p _ => p.nHeight + 1

/-- The trust of a block is added to that of its parent. -/
def nChainTrust : CBlockIndex → UInt256
  | root d => getBlockTrust d.nBits
  | child p d => p.nChainTrust + getBlockTrust d.nBits

/-- The block and its ancestors, `for (p = pindex; p; p = p->pprev)`. -/
def branch : CBlockIndex → List CBlockIndex
  | root d => [root d]
  | child p d => child p d :: p.branch

/-- The block index, each entry with its `pprev`. -/
def links : ParentLinks CBlockIndex where
  parent := pprev
  rank := nHeight
  line := branch
  rank_parent p q h := by
    cases p with
    | root d => cases h
    | child p d =>
      cases h
      rfl
  line_root p h := by
    cases p with
    | root d => rfl
    | child p d => cases h
  line_child p q h := by
    cases p with
    | root d => cases h
    | child p d =>
      cases h
      rfl

theorem self_mem_branch (p : CBlockIndex) : p ∈ p.branch := links.self_mem_line p

end CBlockIndex

/-- `IsConfirmedInNPrevBlocks`.  The depth it finds is only logged. -/
def isConfirmedInNPrevBlocks (txindex : CTxIndex) (pindexFrom : CBlockIndex) (nMaxDepth : Nat) :
    Bool :=
  (pindexFrom.branch.takeWhile fun pindex => pindexFrom.nHeight - pindex.nHeight < nMaxDepth).any
    fun pindex => pindex.data.nBlockPos == txindex.pos.nBlockPos &&
      pindex.data.nFile.1 == txindex.pos.nFile

/-! ## §4. The tree. -/

/-- `mapBlockIndex`: every node under its own hash, with its parent. -/
structure BlockTree where
  mapBlockIndex : StdMap UInt256 CBlockIndex
  keyed : ∀ (h : UInt256) (p : CBlockIndex), mapBlockIndex[h]? = some p → p.getBlockHash = h
  closed : ∀ (h : UInt256) (p q : CBlockIndex), mapBlockIndex[h]? = some p →
    p.pprev = some q → mapBlockIndex[q.getBlockHash]? = some q

namespace BlockTree

instance : Membership CBlockIndex BlockTree :=
  ⟨fun t p => t.mapBlockIndex[p.getBlockHash]? = some p⟩

instance (t : BlockTree) (p : CBlockIndex) : Decidable (p ∈ t) :=
  inferInstanceAs (Decidable (t.mapBlockIndex[p.getBlockHash]? = some p))

theorem eq_of_hash {t : BlockTree} {p q : CBlockIndex} (hp : p ∈ t) (hq : q ∈ t)
    (h : p.getBlockHash = q.getBlockHash) : p = q := by
  have hp' : t.mapBlockIndex[p.getBlockHash]? = some p := hp
  have hq' : t.mapBlockIndex[q.getBlockHash]? = some q := hq
  rw [h, hq'] at hp'
  exact (Option.some.inj hp').symm

theorem mem_of_get {t : BlockTree} {h : UInt256} {p : CBlockIndex}
    (hp : t.mapBlockIndex[h]? = some p) : p ∈ t ∧ p.getBlockHash = h := by
  have hhash := t.keyed h p hp
  refine ⟨?_, hhash⟩
  show t.mapBlockIndex[p.getBlockHash]? = some p
  rw [hhash]
  exact hp

theorem pprev_mem {t : BlockTree} {p q : CBlockIndex} (hp : p ∈ t) (h : p.pprev = some q) :
    q ∈ t :=
  t.closed p.getBlockHash p q hp h

section Mirror

/-! A map with an entry for every node of the tree, which looks (`f`) as the node does (`g`). -/

variable {ρ σ : Type} {t : BlockTree} {m : StdMap UInt256 ρ} {f : ρ → σ} {g : CBlockIndex → σ}

theorem mirror_get (hm : ∀ h : UInt256, (m[h]?).map f = (t.mapBlockIndex[h]?).map g)
    {p : CBlockIndex} (hp : p ∈ t) : ∃ r, m[p.getBlockHash]? = some r ∧ f r = g p := by
  have hget : t.mapBlockIndex[p.getBlockHash]? = some p := hp
  have hboth := hm p.getBlockHash
  rw [hget, map_some] at hboth
  exact map_eq_some_iff.mp hboth

theorem mirror_entry (hm : ∀ h : UInt256, (m[h]?).map f = (t.mapBlockIndex[h]?).map g)
    {h : UInt256} {r : ρ} (hget : m[h]? = some r) :
    ∃ p, p ∈ t ∧ p.getBlockHash = h ∧ f r = g p := by
  have hboth := hm h
  rw [hget, map_some] at hboth
  obtain ⟨p, hp, heq⟩ := map_eq_some_iff.mp hboth.symm
  obtain ⟨hmem, hhash⟩ := mem_of_get hp
  exact ⟨p, hmem, hhash, heq.symm⟩

end Mirror

theorem branch_mem {t : BlockTree} {p q : CBlockIndex} (hp : p ∈ t) (hq : q ∈ p.branch) :
    q ∈ t := by
  induction p with
  | root d =>
    obtain rfl := List.mem_singleton.mp hq
    exact hp
  | child p d ih =>
    rcases List.mem_cons.mp hq with rfl | hq
    · exact hp
    · exact ih (pprev_mem hp rfl) hq

/-- The tree of the genesis block alone. -/
def genesis (data : BlockIndexData) : BlockTree where
  mapBlockIndex := (∅ : StdMap UInt256 CBlockIndex).insert data.hash (.root data)
  keyed h p hp := by
    rw [get_insert] at hp
    split at hp
    next hk =>
      cases hp
      exact hk
    next => rw [get_empty] at hp; cases hp
  closed h p q hp hq := by
    rw [get_insert] at hp
    split at hp
    next =>
      cases hp
      cases hq
    next => rw [get_empty] at hp; cases hp

/-- The insertion of `AddToBlockIndex`: a new block under a known parent. -/
def add (t : BlockTree) (pprev : CBlockIndex) (data : BlockIndexData) (hprev : pprev ∈ t)
    (hnew : t.mapBlockIndex[data.hash]? = none) : BlockTree where
  mapBlockIndex := t.mapBlockIndex.insert data.hash (.child pprev data)
  keyed h p hp := by
    rw [get_insert] at hp
    split at hp
    next hk =>
      cases hp
      exact hk
    next => exact t.keyed h p hp
  closed h p q hp hq := by
    -- the parent is another node than the new one, whose hash is unknown
    have hold : t.mapBlockIndex[q.getBlockHash]? = some q := by
      rw [get_insert] at hp
      split at hp
      next =>
        cases hp
        cases hq
        exact hprev
      next => exact t.closed h p q hp hq
    rw [get_insert, if_neg ?_]
    · exact hold
    · intro hk
      rw [hk, hold] at hnew
      cases hnew

end BlockTree

end Tree

/-! ## For proof of stake. -/

section Stake

/-- A `CBlockIndex` with the fields of proof of stake. -/
structure StakeIndexData extends BlockIndexData where
  nFlags : UInt32
  nStakeModifier : UInt64
  hashProof : UInt256
deriving DecidableEq

namespace StakeIndexData

def BLOCK_PROOF_OF_STAKE : UInt32 := (1 : UInt32) <<< 0

def BLOCK_STAKE_ENTROPY : UInt32 := (1 : UInt32) <<< 1

def BLOCK_STAKE_MODIFIER : UInt32 := (1 : UInt32) <<< 2

variable (pindex : StakeIndexData)

def isProofOfStake : Bool :=
  pindex.nFlags &&& BLOCK_PROOF_OF_STAKE != 0

def getStakeEntropyBit : UInt32 :=
  (pindex.nFlags &&& BLOCK_STAKE_ENTROPY) >>> 1

def generatedStakeModifier : Bool :=
  pindex.nFlags &&& BLOCK_STAKE_MODIFIER != 0

/-- `GetBlockTime`: an `unsigned int` in an `int64_t`. -/
def getBlockTime : Int := pindex.nTime.toNat

end StakeIndexData

/-- `CBlockIndex*`: the block, and the blocks below it down to the root.  The empty list is
null, and `pprev` is the tail. -/
abbrev IndexPtr := List StakeIndexData

end Stake

end Fantom.Core
