/-
  Fantom.Core.Unserialize — Transactions and blocks on the wire: reading, and the sizes.

  * `wire_format` — values are one to one with their bytes.

  `prevPubKey`, `nRounds` are not written, so an object that was read has those of a new one.
-/
import Fantom.Core.Wire

namespace Fantom.Core

open Lib List CTransaction

/-! ## §1. Outpoints, inputs and outputs. -/

def COutPoint.unserialize : Reader UInt8 COutPoint := do
  let hash ← readUInt256
  let n ← readUInt32
  return ⟨hash, n⟩

def CTxIn.unserialize : Reader UInt8 CTxIn := do
  let prevout ← COutPoint.unserialize
  let scriptSig ← unserializeBytes
  let nSequence ← readUInt32
  return ⟨prevout, scriptSig, [], nSequence⟩

def CTxOut.unserialize : Reader UInt8 CTxOut := do
  let nValue ← readInt64
  let scriptPubKey ← unserializeBytes
  return ⟨nValue, -10, scriptPubKey⟩

def CTxIn.wire (i : CTxIn) : CTxIn := { i with prevPubKey := [] }

variable (o : CTxOut)

def CTxOut.wire : CTxOut := { o with nRounds := -10 }

theorem format_outPoint :
    Format COutPoint.serialize COutPoint.unserialize (fun _ => True) id where
  reads o rest _ := by
    unfold COutPoint.serialize COutPoint.unserialize
    rw [append_assoc, run_bind_of_eq (format_uint256.reads o.hash _ trivial),
      run_bind_of_eq (format_uint32.reads o.n rest trivial)]
    rfl
  takes bs o rest h := by
    obtain ⟨hash, rest1, hhash, h1⟩ := run_bind_eq_some.mp h
    obtain ⟨n, rest2, hn, h2⟩ := run_bind_eq_some.mp h1
    obtain ⟨rfl, rfl⟩ := run_pure_eq_some.mp h2
    obtain ⟨rfl, _⟩ := format_uint256.takes bs hash rest1 hhash
    obtain ⟨rfl, _⟩ := format_uint32.takes rest1 n rest2 hn
    exact ⟨(append_assoc ..).symm, trivial⟩

theorem format_txIn :
    Format CTxIn.serialize CTxIn.unserialize (fun i => i.scriptSig.length ≤ MAX_SIZE)
      CTxIn.wire where
  reads i rest hok := by
    unfold CTxIn.serialize CTxIn.unserialize
    rw [append_assoc, append_assoc,
      run_bind_of_eq (format_outPoint.reads i.prevout _ trivial),
      run_bind_of_eq (format_bytes.reads i.scriptSig _ hok),
      run_bind_of_eq (format_uint32.reads i.nSequence rest trivial)]
    rfl
  takes bs i rest h := by
    obtain ⟨prevout, rest1, hprevout, h1⟩ := run_bind_eq_some.mp h
    obtain ⟨scriptSig, rest2, hscriptSig, h2⟩ := run_bind_eq_some.mp h1
    obtain ⟨nSequence, rest3, hnSequence, h3⟩ := run_bind_eq_some.mp h2
    obtain ⟨rfl, rfl⟩ := run_pure_eq_some.mp h3
    obtain ⟨rfl, _⟩ := format_outPoint.takes bs prevout rest1 hprevout
    obtain ⟨rfl, hok⟩ := format_bytes.takes rest1 scriptSig rest2 hscriptSig
    obtain ⟨rfl, _⟩ := format_uint32.takes rest2 nSequence rest3 hnSequence
    refine ⟨?_, hok⟩
    rw [CTxIn.serialize, append_assoc, append_assoc]

theorem format_txOut :
    Format CTxOut.serialize CTxOut.unserialize (fun o => o.scriptPubKey.length ≤ MAX_SIZE)
      CTxOut.wire where
  reads o rest hok := by
    unfold CTxOut.serialize CTxOut.unserialize
    rw [append_assoc, run_bind_of_eq (format_int64.reads o.nValue _ trivial),
      run_bind_of_eq (format_bytes.reads o.scriptPubKey rest hok)]
    rfl
  takes bs o rest h := by
    obtain ⟨nValue, rest1, hnValue, h1⟩ := run_bind_eq_some.mp h
    obtain ⟨scriptPubKey, rest2, hscriptPubKey, h2⟩ := run_bind_eq_some.mp h1
    obtain ⟨rfl, rfl⟩ := run_pure_eq_some.mp h2
    obtain ⟨rfl, _⟩ := format_int64.takes bs nValue rest1 hnValue
    obtain ⟨rfl, hok⟩ := format_bytes.takes rest1 scriptPubKey rest2 hscriptPubKey
    exact ⟨(append_assoc ..).symm, hok⟩

/-! ## §2. Transactions. -/

def CTransaction.unserialize : Reader UInt8 CTransaction := do
  let nVersion ← readInt32
  let nTime ← readUInt32
  let vin ← unserializeVector CTxIn.unserialize
  let vout ← unserializeVector CTxOut.unserialize
  let nLockTime ← readUInt32
  return ⟨nVersion, nTime, vin, vout, nLockTime⟩

/-- The vectors and scripts have sizes at most `MAX_SIZE`. -/
structure CTransaction.SizesOk (tx : CTransaction) : Prop where
  vin : tx.vin.length ≤ MAX_SIZE ∧ ∀ i ∈ tx.vin, i.scriptSig.length ≤ MAX_SIZE
  vout : tx.vout.length ≤ MAX_SIZE ∧ ∀ o ∈ tx.vout, o.scriptPubKey.length ≤ MAX_SIZE

def CTransaction.wire (tx : CTransaction) : CTransaction :=
  { tx with vin := tx.vin.map CTxIn.wire, vout := tx.vout.map CTxOut.wire }

theorem format_transaction :
    Format serialize unserialize CTransaction.SizesOk
      wire where
  reads tx rest hok := by
    unfold serialize unserialize
    rw [append_assoc, append_assoc, append_assoc, append_assoc,
      run_bind_of_eq (format_int32.reads tx.nVersion _ trivial),
      run_bind_of_eq (format_uint32.reads tx.nTime _ trivial),
      run_bind_of_eq ((format_vector format_txIn).reads tx.vin _ hok.vin),
      run_bind_of_eq ((format_vector format_txOut).reads tx.vout _ hok.vout),
      run_bind_of_eq (format_uint32.reads tx.nLockTime rest trivial)]
    rfl
  takes bs tx rest h := by
    obtain ⟨nVersion, rest1, hnVersion, h1⟩ := run_bind_eq_some.mp h
    obtain ⟨nTime, rest2, hnTime, h2⟩ := run_bind_eq_some.mp h1
    obtain ⟨vin, rest3, hvin, h3⟩ := run_bind_eq_some.mp h2
    obtain ⟨vout, rest4, hvout, h4⟩ := run_bind_eq_some.mp h3
    obtain ⟨nLockTime, rest5, hnLockTime, h5⟩ := run_bind_eq_some.mp h4
    obtain ⟨rfl, rfl⟩ := run_pure_eq_some.mp h5
    obtain ⟨rfl, _⟩ := format_int32.takes bs nVersion rest1 hnVersion
    obtain ⟨rfl, _⟩ := format_uint32.takes rest1 nTime rest2 hnTime
    obtain ⟨rfl, hin⟩ := (format_vector format_txIn).takes rest2 vin rest3 hvin
    obtain ⟨rfl, hout⟩ := (format_vector format_txOut).takes rest3 vout rest4 hvout
    obtain ⟨rfl, _⟩ := format_uint32.takes rest4 nLockTime rest5 hnLockTime
    refine ⟨?_, hin, hout⟩
    rw [serialize, append_assoc, append_assoc, append_assoc, append_assoc]

/-! ## §3. Blocks. -/

def SER_GETHASH : Int32 := (1 : Int32) <<< (2 : Int32)

def SER_BLOCKHEADERONLY : Int32 := (1 : Int32) <<< (17 : Int32)

variable (nType : Int32)

/-- Whether a stream of this type carries the header of a block alone. -/
def headerOnly : Bool := nType &&& (SER_GETHASH ||| SER_BLOCKHEADERONLY) != 0

def CBlock.serializeAs (b : CBlock) : List UInt8 :=
  if headerOnly nType then b.serializeHeader else b.serialize

def CBlock.unserializeHeader : Reader UInt8 CBlock := do
  let nVersion ← readInt32
  let hashPrevBlock ← readUInt256
  let hashMerkleRoot ← readUInt256
  let nTime ← readUInt32
  let nBits ← readUInt32
  let nNonce ← readUInt32
  return ⟨nVersion, hashPrevBlock, hashMerkleRoot, nTime, nBits, nNonce, [], []⟩

/-- Behind the header there are the transactions, unless they are left out; then the block
has none. -/
def CBlock.unserialize (nType : Int32) : Reader UInt8 CBlock := do
  let b ← CBlock.unserializeHeader
  if headerOnly nType then return b
  else do
    let vtx ← unserializeVector CTransaction.unserialize
    let vchBlockSig ← unserializeBytes
    return { b with vtx := vtx, vchBlockSig := vchBlockSig }

/-- What is written of the vectors has sizes at most `MAX_SIZE`. -/
def CBlock.SizesOk (nType : Int32) (b : CBlock) : Prop :=
  headerOnly nType = false →
    (b.vtx.length ≤ MAX_SIZE ∧ ∀ tx ∈ b.vtx, tx.SizesOk) ∧ b.vchBlockSig.length ≤ MAX_SIZE

def CBlock.header (b : CBlock) : CBlock := { b with vtx := [], vchBlockSig := [] }

def CBlock.wire (nType : Int32) (b : CBlock) : CBlock :=
  if headerOnly nType then b.header else { b with vtx := b.vtx.map CTransaction.wire }

theorem format_blockHeader :
    Format CBlock.serializeHeader CBlock.unserializeHeader (fun _ => True) CBlock.header where
  reads b rest _ := by
    unfold CBlock.serializeHeader CBlock.unserializeHeader
    rw [append_assoc, append_assoc, append_assoc, append_assoc,
      append_assoc, run_bind_of_eq (format_int32.reads b.nVersion _ trivial),
      run_bind_of_eq (format_uint256.reads b.hashPrevBlock _ trivial),
      run_bind_of_eq (format_uint256.reads b.hashMerkleRoot _ trivial),
      run_bind_of_eq (format_uint32.reads b.nTime _ trivial),
      run_bind_of_eq (format_uint32.reads b.nBits _ trivial),
      run_bind_of_eq (format_uint32.reads b.nNonce rest trivial)]
    rfl
  takes bs b rest h := by
    obtain ⟨nVersion, rest1, hnVersion, h1⟩ := run_bind_eq_some.mp h
    obtain ⟨hashPrevBlock, rest2, hprev, h2⟩ := run_bind_eq_some.mp h1
    obtain ⟨hashMerkleRoot, rest3, hroot, h3⟩ := run_bind_eq_some.mp h2
    obtain ⟨nTime, rest4, hnTime, h4⟩ := run_bind_eq_some.mp h3
    obtain ⟨nBits, rest5, hnBits, h5⟩ := run_bind_eq_some.mp h4
    obtain ⟨nNonce, rest6, hnNonce, h6⟩ := run_bind_eq_some.mp h5
    obtain ⟨rfl, rfl⟩ := run_pure_eq_some.mp h6
    obtain ⟨rfl, _⟩ := format_int32.takes bs nVersion rest1 hnVersion
    obtain ⟨rfl, _⟩ := format_uint256.takes rest1 hashPrevBlock rest2 hprev
    obtain ⟨rfl, _⟩ := format_uint256.takes rest2 hashMerkleRoot rest3 hroot
    obtain ⟨rfl, _⟩ := format_uint32.takes rest3 nTime rest4 hnTime
    obtain ⟨rfl, _⟩ := format_uint32.takes rest4 nBits rest5 hnBits
    obtain ⟨rfl, _⟩ := format_uint32.takes rest5 nNonce rest6 hnNonce
    refine ⟨?_, trivial⟩
    rw [CBlock.serializeHeader, append_assoc, append_assoc, append_assoc, append_assoc,
      append_assoc]

theorem format_block :
    Format (CBlock.serializeAs nType) (CBlock.unserialize nType) (CBlock.SizesOk nType)
      (CBlock.wire nType) where
  reads b rest hok := by
    unfold CBlock.serializeAs CBlock.unserialize CBlock.wire
    cases hheader : headerOnly nType with
    | true =>
      rw [if_pos rfl, if_pos rfl, run_bind_of_eq (format_blockHeader.reads b rest trivial)]
      rfl
    | false =>
      obtain ⟨hvtx, hsig⟩ := hok hheader
      rw [CBlock.serialize, if_neg Bool.false_ne_true, if_neg Bool.false_ne_true, append_assoc,
        append_assoc, run_bind_of_eq (format_blockHeader.reads b _ trivial),
        if_neg Bool.false_ne_true,
        run_bind_of_eq ((format_vector format_transaction).reads b.vtx _ hvtx),
        run_bind_of_eq (format_bytes.reads b.vchBlockSig rest hsig)]
      rfl
  takes bs b rest h := by
    obtain ⟨header, rest1, hb, h1⟩ := run_bind_eq_some.mp h
    obtain ⟨rfl, _⟩ := format_blockHeader.takes bs header rest1 hb
    unfold CBlock.serializeAs CBlock.SizesOk
    cases hheader : headerOnly nType with
    | true =>
      rw [hheader, if_pos rfl] at h1
      obtain ⟨rfl, rfl⟩ := run_pure_eq_some.mp h1
      exact ⟨rfl, fun hfull => absurd hfull (by decide)⟩
    | false =>
      rw [hheader, if_neg Bool.false_ne_true] at h1
      obtain ⟨vtx, rest2, hvtx, h2⟩ := run_bind_eq_some.mp h1
      obtain ⟨vchBlockSig, rest3, hsig, h3⟩ := run_bind_eq_some.mp h2
      obtain ⟨rfl, rfl⟩ := run_pure_eq_some.mp h3
      obtain ⟨rfl, hoks⟩ := (format_vector format_transaction).takes rest1 vtx rest2 hvtx
      obtain ⟨rfl, hok⟩ := format_bytes.takes rest2 vchBlockSig rest3 hsig
      refine ⟨?_, fun _ => ⟨hoks, hok⟩⟩
      rw [if_neg Bool.false_ne_true]
      rw [CBlock.serialize, append_assoc, append_assoc]
      rfl

/-! ## §4. Sizes. -/

/-- The size of `FLATDATA(*this)`. -/
def COutPoint.nSerSize (_ : COutPoint) : UInt32 := 36

def CTxIn.nSerSize (i : CTxIn) : UInt32 := i.prevout.nSerSize + sizeOfBytes i.scriptSig + 4

def CTxOut.nSerSize : UInt32 := 8 + sizeOfBytes o.scriptPubKey

def CTransaction.nSerSize (tx : CTransaction) : UInt32 :=
  4 + 4 + sizeOfVector CTxIn.nSerSize tx.vin + sizeOfVector CTxOut.nSerSize tx.vout + 4

def CBlock.nSerSize (nType : Int32) (b : CBlock) : UInt32 :=
  let nSerSize := 4 + 32 + 32 + 4 + 4 + 4
  if headerOnly nType then nSerSize
  else nSerSize + sizeOfVector CTransaction.nSerSize b.vtx + sizeOfBytes b.vchBlockSig

theorem CTxIn.nSerSize_eq (i : CTxIn) : i.nSerSize = UInt32.ofNat i.serialize.length := by
  unfold CTxIn.nSerSize CTxIn.serialize COutPoint.serialize COutPoint.nSerSize
  simp only [sizeOfBytes_eq, length_append, leBytes_length, UInt32.ofNat_add]
  rfl

theorem CTxOut.nSerSize_eq : o.nSerSize = UInt32.ofNat o.serialize.length := by
  unfold CTxOut.nSerSize CTxOut.serialize
  simp only [sizeOfBytes_eq, length_append, leBytes_length, UInt32.ofNat_add]
  rfl

theorem CTransaction.nSerSize_eq (tx : CTransaction) :
    tx.nSerSize = UInt32.ofNat tx.serialize.length := by
  unfold nSerSize serialize
  rw [sizeOfVector_eq fun i _ => i.nSerSize_eq, sizeOfVector_eq fun o _ => o.nSerSize_eq]
  simp only [length_append, leBytes_length, UInt32.ofNat_add]
  rfl

theorem CBlock.nSerSize_eq (nType : Int32) (b : CBlock) :
    b.nSerSize nType = UInt32.ofNat (b.serializeAs nType).length := by
  have hheader : b.serializeHeader.length = 80 := by
    simp only [CBlock.serializeHeader, length_append, leBytes_length]
  unfold CBlock.nSerSize CBlock.serializeAs CBlock.serialize
  rw [sizeOfVector_eq fun tx _ => tx.nSerSize_eq, sizeOfBytes_eq]
  split
  next =>
    rw [hheader]
    rfl
  next =>
    rw [length_append, length_append, hheader, UInt32.ofNat_add, UInt32.ofNat_add]
    rfl

/-! ## §5. One to one. -/

/-- Values and their bytes determine each other. -/
structure OneToOne {α : Type} (serialize : α → List UInt8) (unserialize : Reader UInt8 α)
    (SizesOk : α → Prop) (wire : α → α) (getSerializeSize : α → UInt32) : Prop where
  /-- What was written is read back, and nothing behind it is read. -/
  roundTrip : ∀ a rest, SizesOk a → unserialize.run (serialize a ++ rest) = some (wire a, rest)
  /-- `GetSerializeSize` is the number of bytes written, and read. -/
  size : ∀ a, (serialize a).length < 2 ^ 32 → (getSerializeSize a).toNat = (serialize a).length
  /-- What is read is what its result would be written as. -/
  canonical : ∀ bs a rest, unserialize.run bs = some (a, rest) →
    bs = serialize a ++ rest ∧ SizesOk a ∧ wire a = a
  /-- Different bytes are never read as the same. -/
  injective : ∀ taken taken' rest rest' a, unserialize.run (taken ++ rest) = some (a, rest) →
    unserialize.run (taken' ++ rest') = some (a, rest') → taken = taken'

theorem oneToOne_of_format {α : Type} {write : α → List UInt8} {read : Reader UInt8 α}
    {Ok : α → Prop} {norm : α → α} {size : α → UInt32} (f : Format write read Ok norm)
    (hsize : ∀ a, size a = UInt32.ofNat (write a).length) : OneToOne write read Ok norm size where
  roundTrip := f.reads
  size a hlen := by
    rw [hsize]
    exact UInt32.toNat_ofNat_of_lt hlen
  canonical bs a rest h := by
    obtain ⟨rfl, hok⟩ := f.takes bs a rest h
    exact ⟨rfl, hok, f.norm_of_read h⟩
  injective _ _ _ _ _ := f.unique

/-- **Transactions and blocks are one to one with their bytes**, and the hash of a transaction
is the hash of the bytes it was read from. -/
theorem wire_format (H : Hashes) (nType : Int32) :
    OneToOne serialize unserialize CTransaction.SizesOk
        wire nSerSize ∧
      OneToOne (CBlock.serializeAs nType) (CBlock.unserialize nType) (CBlock.SizesOk nType)
        (CBlock.wire nType) (CBlock.nSerSize nType) ∧
      ∀ taken rest tx, unserialize.run (taken ++ rest) = some (tx, rest) →
        tx.getHash H = H.hash taken := by
  refine ⟨oneToOne_of_format format_transaction nSerSize_eq,
    oneToOne_of_format (format_block nType) (CBlock.nSerSize_eq nType), ?_⟩
  intro taken rest tx h
  have hbs := (format_transaction.takes _ tx rest h).1
  rw [getHash, append_cancel_right hbs]

def longTransaction : CTransaction :=
  ⟨1, 0, replicate 129 ⟨COutPoint.null, replicate MAX_SIZE 0, [], 0⟩, [], 0⟩

theorem longTransaction_length : longTransaction.serialize.length = 4328527547 := by
  have hmax : getSizeOfCompactSize MAX_SIZE = 5 := by decide
  unfold longTransaction serialize serializeVector CTxIn.serialize
    COutPoint.serialize serializeBytes
  simp only [length_append, length_flatMap, map_replicate, sum_replicate_nat,
    length_replicate, leBytes_length, writeCompactSize_length, hmax]
  decide

/-- Its sizes are within `MAX_SIZE`, and it reads back, but `GetSerializeSize` is not the
number of bytes read. -/
theorem longTransaction_size :
    longTransaction.SizesOk ∧
      unserialize.run longTransaction.serialize = some (longTransaction, []) ∧
      longTransaction.nSerSize.toNat = 33560251 ∧
      longTransaction.serialize.length = 4328527547 := by
  have hok : longTransaction.SizesOk := by
    refine ⟨⟨?_, ?_⟩, Nat.zero_le _, forall_mem_nil _⟩
    · exact length_replicate.trans_le (by decide)
    · intro i hi
      rw [eq_of_mem_replicate hi]
      exact Nat.le_of_eq length_replicate
  have hread := format_transaction.reads longTransaction [] hok
  rw [append_nil] at hread
  refine ⟨hok, hread, ?_, longTransaction_length⟩
  rw [nSerSize_eq, longTransaction_length]
  rfl

end Fantom.Core
