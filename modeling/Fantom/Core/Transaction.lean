/-
  Fantom.Core.Transaction — `CTransaction` and `CBlock`: fields, wire format, hashes, the coinbase
  and coinstake patterns, value sums and the merkle root.
-/
import Fantom.Core.Script

namespace Fantom.Core

/-! ## §1. Transactions. -/

structure CTransaction where
  nVersion : Int32
  nTime : UInt32
  vin : List CTxIn
  vout : List CTxOut
  nLockTime : UInt32
deriving DecidableEq, Repr

/-- `CTransaction()`, created at the adjusted time `nTime`. -/
def CTransaction.null (nTime : UInt32) : CTransaction := ⟨1, nTime, [], [], 0⟩

def CTransaction.serialize (tx : CTransaction) : List UInt8 :=
  leBytes 4 tx.nVersion.toUInt32.toNat ++ leBytes 4 tx.nTime.toNat ++
    serializeVector CTxIn.serialize tx.vin ++ serializeVector CTxOut.serialize tx.vout ++
    leBytes 4 tx.nLockTime.toNat

variable (tx : CTransaction)

def CTransaction.getSerializeSize : Nat := tx.serialize.length

variable (H : Hashes)

def CTransaction.getHash (tx : CTransaction) : UInt256 := H.hash tx.serialize

def CTransaction.isCoinBase : Bool :=
  match tx.vin with
  | [txin] => txin.prevout.isNull && 1 ≤ tx.vout.length
  | _ => false

/-- The coinstake is marked with the first output empty. -/
def CTransaction.isCoinStake : Bool :=
  match tx.vin, tx.vout with
  | txin :: _, txout :: _ :: _ => !txin.prevout.isNull && txout.isEmpty
  | _, _ => false

theorem CTransaction.isCoinStake_of_isCoinBase {tx : CTransaction} (h : tx.isCoinBase = true) :
    tx.isCoinStake = false := by
  unfold isCoinBase at h
  unfold isCoinStake
  split at h
  next txin hvin =>
    rw [Bool.and_eq_true] at h
    rw [hvin]
    split
    next txin' _ _ _ _ hcons _ =>
      obtain ⟨rfl, _⟩ := List.cons.inj hcons
      rw [h.1]
      rfl
    next => rfl
  next => cases h

/-- The loop of `GetValueOut`; it throws on a value or a sum out of range. -/
def getValueOutLoop : Int64 → List CTxOut → Option Int64
  | nValueOut, [] => some nValueOut
  | nValueOut, txout :: rest =>
    let nValueOut := nValueOut + txout.nValue
    if !moneyRange txout.nValue || !moneyRange nValueOut then none
    else getValueOutLoop nValueOut rest

/-- `GetValueOut`, with `none` for the exception. -/
def CTransaction.getValueOut : Option Int64 := getValueOutLoop 0 tx.vout

def CTransaction.getLegacySigOpCount : UInt32 :=
  (tx.vin.map fun txin => CScript.getSigOpCount txin.scriptSig false).sum +
    (tx.vout.map fun txout => CScript.getSigOpCount txout.scriptPubKey false).sum

/-! ## §2. Blocks. -/

/-- `CBlock` -/
structure CBlock where
  nVersion : Int32
  hashPrevBlock : UInt256
  hashMerkleRoot : UInt256
  nTime : UInt32
  nBits : UInt32
  nNonce : UInt32
  vtx : List CTransaction
  vchBlockSig : List UInt8
deriving DecidableEq, Repr

variable (b : CBlock)

/-- The header, `BEGIN(nVersion) .. END(nNonce)`. -/
def CBlock.serializeHeader : List UInt8 :=
  leBytes 4 b.nVersion.toUInt32.toNat ++ leBytes 32 b.hashPrevBlock.toNat ++
    leBytes 32 b.hashMerkleRoot.toNat ++ leBytes 4 b.nTime.toNat ++ leBytes 4 b.nBits.toNat ++
    leBytes 4 b.nNonce.toNat

def CBlock.serialize (b : CBlock) : List UInt8 :=
  b.serializeHeader ++ serializeVector CTransaction.serialize b.vtx ++
    serializeBytes b.vchBlockSig

def CBlock.getSerializeSize : Nat := b.serialize.length

def CBlock.getPoWHash : UInt256 :=
  H.velvetHash b.serializeHeader b.nNonce

def CBlock.getHash : UInt256 :=
  if b.nVersion > 1 then H.hash b.serializeHeader else b.getPoWHash H

def CBlock.isProofOfStake : Bool :=
  match b.vtx with
  | _ :: tx :: _ => tx.isCoinStake
  | _ => false

def CBlock.isProofOfWork : Bool := !b.isProofOfStake

def hashPair (a b : UInt256) : UInt256 :=
  H.hash (leBytes 32 a.toNat ++ leBytes 32 b.toNat)

/-- One level of the merkle tree; an odd last hash is paired with itself. -/
def merkleLevel (H : Hashes) : List UInt256 → List UInt256
  | [] => []
  | [a] => [hashPair H a a]
  | a :: b :: rest => hashPair H a b :: merkleLevel H rest

/-- The levels up to the root; `fuel` bounds their number. -/
def merkleRootLoop (H : Hashes) : Nat → List UInt256 → UInt256
  | _, [] => 0
  | _, [a] => a
  | 0, a :: _ => a
  | fuel + 1, hs => merkleRootLoop H fuel (merkleLevel H hs)

/-- `BuildMerkleTree`: a level has at most half its predecessor, so as many
levels as transactions are enough. -/
def CBlock.buildMerkleTree : UInt256 :=
  merkleRootLoop H b.vtx.length (b.vtx.map (CTransaction.getHash H))

end Fantom.Core
