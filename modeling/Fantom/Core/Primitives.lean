/-
  Fantom.Core.Primitives — The base types of the node: hashes, amounts, scripts as bytes, outpoints,
  inputs and outputs of a transaction, and the little-endian wire format they are hashed and
  measured in.

  * `CTxIn`, `CTxOut`,
  * `bin2bn`, `bn2bin`, `numBytes` — the non-negative `BIGNUM`s of OpenSSL and their bytes, most
    significant first: `bn2bin` writes no leading zero.
-/
import Mathlib.Algebra.Order.Ring.Int
import Mathlib.Data.Nat.Digits.Lemmas
import Mathlib.Data.UInt
import Mathlib.Tactic.Common

namespace Fantom.Core

/-! ## §1. Hashes and bytes. -/

abbrev UInt256 := BitVec 256

abbrev UInt160 := BitVec 160

/-- `operator<` is the order of the numbers. -/
instance : Std.TransOrd UInt256 := BitVec.instTransOrd

instance : Std.TransOrd UInt160 := BitVec.instTransOrd

/-- `CScript`: a byte vector. -/
abbrev CScript := List UInt8

/-- The hash functions.  They are third-party code (OpenSSL and the Velvet
kernels), so every result holds for whatever they return. -/
structure Hashes where
  /-- `Hash`, double SHA-256. -/
  hash : List UInt8 → UInt256
  /-- `Hash160`, RIPEMD-160 of SHA-256. -/
  hash160 : List UInt8 → UInt160
  /-- `VelvetHash(pbegin, pend, nNonce)`. -/
  velvetHash : List UInt8 → UInt32 → UInt256

/-- `w` bytes of a number, least significant first. -/
def leBytes : Nat → Nat → List UInt8
  | 0, _ => []
  | w + 1, n => UInt8.ofNat n :: leBytes w (n / 256)

@[simp] theorem leBytes_length (w n : Nat) : (leBytes w n).length = w := by
  induction w generalizing n with
  | zero => rfl
  | succ w ih => simp [leBytes, ih]

/-- The number that bytes spell, least significant first (`memcpy` into an
integer). -/
def ofLEBytes : List UInt8 → Nat
  | [] => 0
  | b :: bs => b.toNat + 256 * ofLEBytes bs

theorem ofLEBytes_leBytes {w n : Nat} (h : n < 256 ^ w) : ofLEBytes (leBytes w n) = n := by
  induction w generalizing n with
  | zero =>
    obtain rfl : n = 0 := by omega
    rfl
  | succ w ih =>
    rw [Nat.pow_succ] at h
    rw [leBytes, ofLEBytes, UInt8.toNat_ofNat', ih (by omega)]
    omega

theorem ofNat_lowByte (b : UInt8) (n : Nat) : UInt8.ofNat (b.toNat + 256 * n) = b := by
  have hb := b.toNat_lt
  apply UInt8.toNat_inj.mp
  rw [UInt8.toNat_ofNat']
  omega

variable (bs : List UInt8)

theorem leBytes_ofLEBytes : leBytes bs.length (ofLEBytes bs) = bs := by
  induction bs with
  | nil => rfl
  | cons b bs ih =>
    have hb : b.toNat < 256 := b.toNat_lt
    have hhigh : (b.toNat + 256 * ofLEBytes bs) / 256 = ofLEBytes bs := by omega
    rw [List.length_cons, ofLEBytes, leBytes, ofNat_lowByte, hhigh, ih]

theorem ofLEBytes_lt : ofLEBytes bs < 256 ^ bs.length := by
  induction bs with
  | nil => decide
  | cons b bs ih =>
    have hb : b.toNat < 256 := b.toNat_lt
    rw [List.length_cons, ofLEBytes, Nat.pow_succ]
    omega

variable (nSize : Nat)

def getSizeOfCompactSize : Nat :=
  if nSize < 253 then 1 else if nSize ≤ 0xffff then 3 else if nSize ≤ 0xffffffff then 5 else 9

def writeCompactSize : List UInt8 :=
  if nSize < 253 then leBytes 1 nSize
  else if nSize ≤ 0xffff then 253 :: leBytes 2 nSize
  else if nSize ≤ 0xffffffff then 254 :: leBytes 4 nSize
  else 255 :: leBytes 8 nSize

theorem writeCompactSize_length : (writeCompactSize nSize).length = getSizeOfCompactSize nSize := by
  unfold writeCompactSize getSizeOfCompactSize
  split
  · simp
  · split
    · simp
    · split <;> simp

/-- A script or another byte vector on the wire: its length, then its bytes. -/
def serializeBytes : List UInt8 := writeCompactSize bs.length ++ bs

theorem serializeBytes_inj {a b : List UInt8} (h : serializeBytes a = serializeBytes b) :
    a = b := by
  have hlen := congrArg List.length h
  simp only [serializeBytes, List.length_append, writeCompactSize_length] at hlen
  -- the size of the prefix grows with the length, so the lengths agree
  have hab : a.length = b.length := by
    unfold getSizeOfCompactSize at hlen
    split at hlen <;> split at hlen <;> (repeat' split at hlen) <;> omega
  rw [serializeBytes, hab] at h
  exact List.append_cancel_left h

/-- A vector on the wire: its length, then its elements. -/
def serializeVector {α : Type} (f : α → List UInt8) (xs : List α) : List UInt8 :=
  writeCompactSize xs.length ++ xs.flatMap f

/-! ## §2. Amounts. -/

def COIN : Int64 := 100000000

def MAX_MONEY : Int64 := 10000000 * COIN

def moneyRange (nValue : Int64) : Bool := 0 ≤ nValue && nValue ≤ MAX_MONEY

theorem moneyRange_iff {nValue : Int64} :
    moneyRange nValue = true ↔ 0 ≤ nValue.toInt ∧ nValue.toInt ≤ MAX_MONEY.toInt := by
  rw [moneyRange, Bool.and_eq_true, decide_eq_true_iff, decide_eq_true_iff, Int64.le_iff_toInt_le,
    Int64.le_iff_toInt_le]
  rfl

theorem toInt_add_of_moneyRange {a b : Int64} (ha : moneyRange a = true)
    (hb : moneyRange b = true) : (a + b).toInt = a.toInt + b.toInt := by
  obtain ⟨ha0, ha1⟩ := moneyRange_iff.mp ha
  obtain ⟨hb0, hb1⟩ := moneyRange_iff.mp hb
  have hmax : MAX_MONEY.toInt = 1000000000000000 := by decide
  rw [Int64.toInt_add, Int.bmod_eq_of_le] <;> omega

/-! ## §3. Outpoints. -/

/-- `COutPoint`. -/
structure COutPoint where
  hash : UInt256
  n : UInt32
deriving DecidableEq, Repr

def COutPoint.isNull (o : COutPoint) : Bool := o.hash == 0 && o.n == 0xffffffff

/-- `COutPoint()`. -/
def COutPoint.null : COutPoint := ⟨0, 0xffffffff⟩

/-- `operator<`: by hash, then by output number. -/
instance : Ord COutPoint := ⟨compareLex (compareOn COutPoint.hash) (compareOn COutPoint.n)⟩

instance : Std.TransOrd COutPoint :=
  inferInstanceAs
    (Std.TransCmp (compareLex (compareOn COutPoint.hash) (compareOn COutPoint.n)))

instance : Std.LawfulEqOrd COutPoint where
  eq_of_compare {a b} h := by
    obtain ⟨ha, hn⟩ := compareLex_eq_eq.mp h
    cases a
    cases b
    simp_all [compareOn]

/-! ## §4. Inputs and outputs. -/

/-- `CTxIn`.  `prevPubKey` is kept in memory only. -/
structure CTxIn where
  prevout : COutPoint
  scriptSig : CScript
  prevPubKey : CScript
  nSequence : UInt32
deriving DecidableEq, Repr

/-- `operator==` on inputs. -/
def CTxIn.eqv (a b : CTxIn) : Bool :=
  a.prevout == b.prevout && a.scriptSig == b.scriptSig && a.nSequence == b.nSequence

/-- `CTxOut`.  `nRounds` is kept in memory only. -/
structure CTxOut where
  nValue : Int64
  nRounds : Int32
  scriptPubKey : CScript
deriving DecidableEq, Repr

def CTxOut.isEmpty (o : CTxOut) : Bool := o.nValue == 0 && o.scriptPubKey.isEmpty

/-- `COutPoint` on the wire. -/
def COutPoint.serialize (o : COutPoint) : List UInt8 :=
  leBytes 32 o.hash.toNat ++ leBytes 4 o.n.toNat

/-- `CTxIn` on the wire. -/
def CTxIn.serialize (i : CTxIn) : List UInt8 :=
  i.prevout.serialize ++ serializeBytes i.scriptSig ++ leBytes 4 i.nSequence.toNat

/-- `CTxOut` on the wire. -/
def CTxOut.serialize (o : CTxOut) : List UInt8 :=
  leBytes 8 o.nValue.toUInt64.toNat ++ serializeBytes o.scriptPubKey

/-! ## §5. Big numbers. -/

/-- `BN_bin2bn` -/
def bin2bn : Nat := ofLEBytes bs.reverse

variable (bn : Nat)

/-- `BN_num_bytes` -/
def numBytes : Nat := (Nat.digits 256 bn).length

/-- `BN_bn2bin` -/
def bn2bin : List UInt8 := (leBytes (numBytes bn) bn).reverse

@[simp] theorem bn2bin_length : (bn2bin bn).length = numBytes bn := by
  rw [bn2bin, List.length_reverse, leBytes_length]

theorem lt_pow_numBytes : bn < 256 ^ numBytes bn :=
  Nat.lt_base_pow_length_digits (by omega)

theorem numBytes_le_iff {bn k : Nat} : numBytes bn ≤ k ↔ bn < 256 ^ k :=
  Nat.digits_length_le_iff (by omega) bn

theorem numBytes_eq_iff {bn k : Nat} :
    numBytes bn = k + 1 ↔ 256 ^ k ≤ bn ∧ bn < 256 ^ (k + 1) := by
  have hle := @numBytes_le_iff bn (k + 1)
  have hlt := @numBytes_le_iff bn k
  constructor
  · intro h
    exact ⟨not_lt.mp fun hk => absurd (hlt.mpr hk) (by omega), hle.mp (by omega)⟩
  · rintro ⟨h₁, h₂⟩
    have := hle.mpr h₂
    have : ¬ numBytes bn ≤ k := fun hk => absurd (hlt.mp hk) (not_lt.mpr h₁)
    omega

@[simp] theorem bin2bn_bn2bin : bin2bn (bn2bin bn) = bn := by
  rw [bin2bn, bn2bin, List.reverse_reverse, ofLEBytes_leBytes (lt_pow_numBytes bn)]

theorem bin2bn_lt : bin2bn bs < 256 ^ bs.length := by
  have h := ofLEBytes_lt bs.reverse
  rw [List.length_reverse] at h
  exact h

end Fantom.Core
