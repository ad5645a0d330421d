/-
  Fantom.Chain.TxDB — `CTxDB`, the database of the block chain: its records, the address index, and
  database transactions.

  * `Records` — what the database holds,
  * `CTxDB` — the database with its pending batch.

  Reads and writes go through the batch while there is one, so they all work on one set of records,
  `CTxDB.view`.
-/
import Fantom.Core.BlockIndex

namespace Fantom.Chain

open Core Lib

/-! ## §1. Records. -/

/-- `CDiskBlockIndex`, as far as it differs from the entry it is a copy of. -/
structure CDiskBlockIndex where
  hashPrev : UInt256
  hashNext : UInt256
  nHeight : Nat
  nMint : Int64
  nMoneySupply : Int64
  data : BlockIndexData
deriving DecidableEq

/-- The records of the database, by the kind of their key. -/
structure Records where
  /-- `("tx", hash)`. -/
  tx : StdMap UInt256 CTxIndex
  /-- `("blockindex", hash)`. -/
  blockindex : StdMap UInt256 CDiskBlockIndex
  /-- `("adr", addrHash)`. -/
  adr : StdMap UInt160 (List UInt256)
  /-- `"hashBestChain"`. -/
  hashBestChain : Option UInt256
  /-- `"bnBestInvalidTrust"`. -/
  bnBestInvalidTrust : Option UInt256

def Records.empty : Records := ⟨∅, ∅, ∅, none, none⟩

namespace Records

variable (db : Records)

def readTxIndex (hash : UInt256) : Option CTxIndex := db.tx[hash]?

def updateTxIndex (hash : UInt256) (txindex : CTxIndex) : Records :=
  { db with tx := db.tx.insert hash txindex }

def eraseTxIndex (hash : UInt256) : Records :=
  { db with tx := db.tx.erase hash }

def writeBlockIndex (blockindex : CDiskBlockIndex) : Records :=
  { db with blockindex := db.blockindex.insert blockindex.data.hash blockindex }

def writeHashBestChain (hash : UInt256) : Records :=
  { db with hashBestChain := some hash }

def writeBestInvalidTrust (bnBestInvalidTrust : UInt256) : Records :=
  { db with bnBestInvalidTrust := some bnBestInvalidTrust }

/-- `WriteAddrIndex`: the transaction joins the list of the address once. -/
def writeAddrIndex (txHash : UInt256) (addrHash : UInt160) : Records :=
  match db.adr[addrHash]? with
  | none => { db with adr := db.adr.insert addrHash [txHash] }
  | some txHashes =>
    if txHash ∈ txHashes then db
    else { db with adr := db.adr.insert addrHash (txHashes ++ [txHash]) }

@[simp] theorem eraseTxIndex_tx (hash : UInt256) :
    (db.eraseTxIndex hash).tx = db.tx.erase hash := rfl

@[simp] theorem writeAddrIndex_tx (txHash : UInt256) (addrHash : UInt160) :
    (db.writeAddrIndex txHash addrHash).tx = db.tx := by
  unfold writeAddrIndex
  cases db.adr[addrHash]? with
  | none => rfl
  | some txHashes =>
    dsimp only
    split <;> rfl

theorem foldl_tx {α : Type} {f : Records → α → Records} (hf : ∀ db a, (f db a).tx = db.tx)
    (l : List α) (db : Records) : (l.foldl f db).tx = db.tx := by
  induction l generalizing db with
  | nil => rfl
  | cons a l ih => rw [List.foldl_cons, ih, hf]

@[simp] theorem writeHashBestChain_hashBestChain (hash : UInt256) :
    (db.writeHashBestChain hash).hashBestChain = some hash := rfl

end Records

/-! ## §2. Database transactions. -/

/-- `CTxDB`.  The batch is held as the records with its writes applied: no
other writer touches them before `TxnCommit` or `TxnAbort`. -/
structure CTxDB where
  disk : Records
  activeBatch : Option Records

namespace CTxDB

variable (txdb : CTxDB)

/-- What `Read` returns records from. -/
def view : Records := txdb.activeBatch.getD txdb.disk

/-- `Write` and `Erase`: into the batch while there is one. -/
def write (f : Records → Records) : CTxDB :=
  match txdb.activeBatch with
  | some batch => { txdb with activeBatch := some (f batch) }
  | none => { txdb with disk := f txdb.disk }

/-- `TxnBegin`, which asserts that no batch is active. -/
def txnBegin : CTxDB := { txdb with activeBatch := some txdb.disk }

/-- `TxnCommit`, when the write of the batch succeeds or fails as `fOk` says.
The batch is gone either way. -/
def txnCommit (fOk : Bool) (txdb : CTxDB) : CTxDB :=
  { disk := if fOk then txdb.view else txdb.disk, activeBatch := none }

def txnAbort : CTxDB := { txdb with activeBatch := none }

end CTxDB

end Fantom.Chain
