/-
  Fantom.Chain.GetTransaction — `GetTransaction` and `GetInputAge`: a transaction by its id, and how
  far behind the best block it was confirmed.

  * `getInputAge_confirmed` — the age of an input whose transaction is in a block of the index.
-/
import Fantom.Chain.Locator

namespace Fantom.Chain

open Core Lib

/-! ## §1. Looking a transaction up. -/

/-- What `GetTransaction` and `GetInputAge` read.  Both run on nodes that have a
best block. -/
structure TxView where
  env : ChainEnv
  /-- `block.ReadFromDisk(nFile, nBlockPos, false)`, and then `block.GetHash()`. -/
  readHeaderHash : UInt32 → UInt32 → Option UInt256
  mapBlockIndex : StdMap UInt256 CBlockIndex
  node : Node
  /-- `*pindexBest`. -/
  best : CBlockIndex
  hbest : node.pindexBest = some best

namespace TxView

variable (v : TxView)

/-- `CTransaction::ReadFromDisk(txdb, hash, txindexRet)`, over a new handle. -/
def readTxFromDisk (hash : UInt256) : Option (CTxIndex × CTransaction) := do
  let txindex ← v.node.txdb.disk.readTxIndex hash
  let tx ← v.env.readTx txindex.pos.nFile txindex.pos.nTxPos
  return (txindex, tx)

/-- The last loop of `GetTransaction`: blocks outside the main chain are searched
in the order of their hashes. -/
def orphanedTx (hash : UInt256) : Option CTransaction :=
  v.mapBlockIndex.toList.findSome? fun item =>
    if isInMainChain v.node item.2 then none
    else (readFromDisk v.env item.2).bind fun block =>
      block.vtx.find? fun tx => tx.getHash v.env.H == hash

/-- `GetTransaction`: the transaction, and `hashBlock`.  That stays zero unless
the transaction is in the index and the header of its block can be read. -/
def getTransaction (hash : UInt256) : Option (CTransaction × UInt256) :=
  match v.node.pool.lookup hash with
  | some tx => some (tx, 0)
  | none =>
    match v.readTxFromDisk hash with
    | some (txindex, tx) =>
      some (tx, (v.readHeaderHash txindex.pos.nFile txindex.pos.nBlockPos).getD 0)
    | none => (v.orphanedTx hash).map fun tx => (tx, 0)

def getInputAge (vin : CTxIn) : Int32 :=
  match v.getTransaction vin.prevout.hash with
  | none => 0
  | some (_, hashBlock) =>
    match v.mapBlockIndex[hashBlock]? with
    | none => 0
    | some pindex => Int32.ofNat v.best.nHeight - Int32.ofNat pindex.nHeight

/-! ## §2. Confirmed transactions. -/

/-- The node has the transaction in a block of its chain: the index entry leads to
that block, and the transaction has left the pool. -/
structure Confirmed (hash : UInt256) (pindex : CBlockIndex) : Prop where
  branch : pindex ∈ v.best.branch
  entry : v.mapBlockIndex[pindex.getBlockHash]? = some pindex
  pool : v.node.pool.lookup hash = none
  index : ∃ txindex tx, v.readTxFromDisk hash = some (txindex, tx) ∧
    v.readHeaderHash txindex.pos.nFile txindex.pos.nBlockPos = some pindex.getBlockHash

variable {v}

theorem getTransaction_confirmed {hash : UInt256} {pindex : CBlockIndex}
    (h : v.Confirmed hash pindex) :
    ∃ tx, v.getTransaction hash = some (tx, pindex.getBlockHash) := by
  obtain ⟨txindex, tx, hread, hheader⟩ := h.index
  refine ⟨tx, ?_⟩
  rw [getTransaction, h.pool, hread]
  show some (tx, (v.readHeaderHash txindex.pos.nFile txindex.pos.nBlockPos).getD 0) = _
  rw [hheader]
  rfl

/-- **The age of a confirmed input** is what its block lies behind the best one. -/
theorem getInputAge_confirmed {vin : CTxIn} {pindex : CBlockIndex}
    (h : v.Confirmed vin.prevout.hash pindex) :
    v.getInputAge vin = Int32.ofNat v.best.nHeight - Int32.ofNat pindex.nHeight := by
  obtain ⟨tx, htx⟩ := getTransaction_confirmed h
  rw [getInputAge, htx]
  dsimp only
  rw [h.entry]

end TxView

end Fantom.Chain
