/-
  Fantom.Core.DataStream — `CDataStream::operator>>` of a transaction, and where one that throws
  leaves the stream.

  * `transaction_short`, `transaction_left_lt` — four bytes or more are taken, or none.

  `CDataStream::read` throws before it moves `nReadPos`.
-/
import Fantom.Core.Unserialize
import Fantom.Lib.TornRead

namespace Fantom.Core.CDataStream

open Lib

/-! ## §1. Reading. -/

/-- `READDATA` of a number of `w` bytes. -/
def number (w : Nat) : TornReader UInt8 Nat := ofLEBytes <$> TornReader.take w

def longSize (w least : Nat) : TornReader UInt8 Nat := do
  let nSizeRet ← number w
  if nSizeRet < least then TornReader.throw else return nSizeRet

def sizeBehind (chSize : Nat) : TornReader UInt8 Nat :=
  if chSize < 253 then pure chSize
  else if chSize = 253 then longSize 2 253
  else if chSize = 254 then longSize 4 0x10000
  else longSize 8 0x100000000

/-- `ReadCompactSize` -/
def compactSize : TornReader UInt8 Nat := do
  let chSize ← number 1
  let nSizeRet ← sizeBehind chSize
  if nSizeRet > MAX_SIZE then TornReader.throw else return nSizeRet

/-- The loop of `Unserialize` for bytes: blocks of at most 5000000. -/
def blocks : Nat → Nat → TornReader UInt8 (List UInt8)
  | _, 0 => pure []
  | 0, _ + 1 => TornReader.throw
  | fuel + 1, n + 1 => do
    let block ← TornReader.take (min (n + 1) 5000000)
    let v ← blocks fuel (n + 1 - min (n + 1) 5000000)
    return block ++ v

def bytes : TornReader UInt8 (List UInt8) := do
  let nSize ← compactSize
  blocks nSize nSize

def vector {α : Type} (r : TornReader UInt8 α) : TornReader UInt8 (List α) := do
  let nSize ← compactSize
  r.many nSize

def outPoint : TornReader UInt8 COutPoint := do
  let hash ← number 32
  let n ← number 4
  return ⟨BitVec.ofNat 256 hash, UInt32.ofNat n⟩

def txIn : TornReader UInt8 CTxIn := do
  let prevout ← outPoint
  let scriptSig ← bytes
  let nSequence ← number 4
  return ⟨prevout, scriptSig, [], UInt32.ofNat nSequence⟩

def txOut : TornReader UInt8 CTxOut := do
  let nValue ← number 8
  let scriptPubKey ← bytes
  return ⟨(UInt64.ofNat nValue).toInt64, -10, scriptPubKey⟩

def transaction : TornReader UInt8 CTransaction := do
  let nVersion ← number 4
  let nTime ← number 4
  let vin ← vector txIn
  let vout ← vector txOut
  let nLockTime ← number 4
  return ⟨(UInt32.ofNat nVersion).toInt32, UInt32.ofNat nTime, vin, vout, UInt32.ofNat nLockTime⟩

/-! ## §2. What is read. -/

@[simp] theorem toReader_number (w : Nat) : (number w).toReader = readNumber w := by
  simp [number, readNumber]

@[simp] theorem toReader_longSize (w least : Nat) :
    (longSize w least).toReader = readLongSize w least := by
  simp [longSize, readLongSize]

@[simp] theorem toReader_sizeBehind (chSize : Nat) :
    (sizeBehind chSize).toReader = readSizeBehind chSize := by
  simp [sizeBehind, readSizeBehind]

@[simp] theorem toReader_compactSize : compactSize.toReader = readCompactSize := by
  simp [compactSize, readCompactSize]

@[simp] theorem toReader_blocks (fuel n : Nat) : (blocks fuel n).toReader = readBlocks fuel n := by
  induction fuel generalizing n with
  | zero => cases n <;> simp [blocks, readBlocks]
  | succ fuel ih => cases n <;> simp [blocks, readBlocks, ih]

@[simp] theorem toReader_bytes : bytes.toReader = unserializeBytes := by
  simp [bytes, unserializeBytes]

@[simp] theorem toReader_vector {α : Type} (r : TornReader UInt8 α) :
    (vector r).toReader = unserializeVector r.toReader := by
  simp [vector, unserializeVector]

@[simp] theorem toReader_outPoint : outPoint.toReader = COutPoint.unserialize := by
  simp [outPoint, COutPoint.unserialize, readUInt256, readUInt32]

@[simp] theorem toReader_txIn : txIn.toReader = CTxIn.unserialize := by
  simp [txIn, CTxIn.unserialize, readUInt32]

@[simp] theorem toReader_txOut : txOut.toReader = CTxOut.unserialize := by
  simp [txOut, CTxOut.unserialize, readInt64]

theorem toReader_transaction : transaction.toReader = CTransaction.unserialize := by
  simp [transaction, CTransaction.unserialize, readInt32, readUInt32]

theorem transaction_serialize {tx : CTransaction} (h : tx.SizesOk) (rest : List UInt8) :
    transaction.run (tx.serialize ++ rest) = .ok (tx.wire, rest) := by
  apply TornReader.run_of_toReader
  rw [toReader_transaction]
  exact format_transaction.reads tx rest h

/-! ## §3. What is left. -/

theorem transaction_short {bs : List UInt8} (h : bs.length < 4) :
    transaction.run bs = .error bs := by
  refine TornReader.run_bind_error (TornReader.run_bind_error ?_)
  show (if 4 ≤ bs.length then _ else _) = _
  rw [if_neg (by omega)]

/-- **A version is taken**, however the read ends. -/
theorem transaction_left_lt {bs : List UInt8} (h : 4 ≤ bs.length) :
    (leftOf (transaction.run bs)).length < bs.length := by
  have htake : (TornReader.take 4).run bs = .ok (bs.take 4, bs.drop 4) := if_pos h
  have hversion : (number 4).run bs = .ok (ofLEBytes (bs.take 4), bs.drop 4) :=
    TornReader.run_bind_ok htake
  rw [transaction, TornReader.run_bind_ok hversion]
  refine Nat.lt_of_le_of_lt (TornReader.left_le _ (bs.drop 4)) ?_
  rw [List.length_drop]
  omega

end Fantom.Core.CDataStream
