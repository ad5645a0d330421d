/-
  Fantom.Script.DerEncoding — The encodings of signatures, with every read of a byte.

  * `signatureEncoding_exact` — no byte outside is read, and the tests accept these encodings and no
    other byte strings.
-/
import Fantom.Script.Signature

namespace Fantom.Script

open Core Lib List Option Radix UInt8 Nat

/-! ## §1. `CompareBigEndian`. -/

/-- `while (c1len > c2len)`, with `n` bytes to go: whether they are zeros, and what is behind
them.  A pointer is the bytes from there on. -/
def skipZeros : Nat → List UInt8 → Option (Option (List UInt8))
  | 0, c => some (some c)
  | n + 1, c => c.head?.bind fun b => if b ≠ 0 then some none else skipZeros n c.tail

/-- `while (c1len > 0)` -/
def compareBytes : Nat → List UInt8 → List UInt8 → Option Int
  | 0, _, _ => some 0
  | n + 1, c1, c2 =>
    c1.head?.bind fun b1 => c2.head?.bind fun b2 =>
      if b1 > b2 then some 1
      else if b2 > b1 then some (-1)
      else compareBytes n c1.tail c2.tail

def compareBigEndian (c1 : List UInt8) (c1len : Nat) (c2 : List UInt8) (c2len : Nat) :
    Option Int :=
  (skipZeros (c1len - c2len) c1).bind fun
    | none => some 1
    | some c1 => (skipZeros (c2len - c1len) c2).bind fun
        | none => some (-1)
        | some c2 => compareBytes (min c1len c2len) c1 c2

def compareResult (n m : Nat) : Int := if n > m then 1 else if m > n then -1 else 0

variable {x y r1 r2 : List UInt8}

theorem skipZeros_append (x rest : List UInt8) :
    skipZeros x.length (x ++ rest) =
      some (if Radix.value 256 x = 0 then some rest else none) := by
  induction x with
  | nil => rfl
  | cons b x ih =>
    rw [length_cons, cons_append, skipZeros, head?_cons, bind_some,
      tail_cons]
    by_cases hb : b = 0
    · subst hb
      rw [if_neg (not_not.mpr rfl), ih, value_zero_cons]
    · have hle := pow_le_value (b := 256) hb x
      have hpos : 0 < 256 ^ x.length := Nat.pow_pos (by decide)
      rw [if_pos hb, if_neg (by omega)]

theorem compareBytes_append (hlen : x.length = y.length) :
    compareBytes x.length (x ++ r1) (y ++ r2) =
      some (compareResult (Radix.value 256 x) (Radix.value 256 y)) := by
  induction x generalizing y with
  | nil =>
    obtain rfl := eq_nil_of_length_eq_zero hlen.symm
    rfl
  | cons b1 x ih =>
    cases y with
    | nil => cases hlen
    | cons b2 y =>
      have hlen' : x.length = y.length := Nat.succ.inj hlen
      rw [length_cons, cons_append, cons_append, compareBytes, head?_cons,
        head?_cons, bind_some, bind_some, tail_cons, tail_cons,
        ih hlen']
      unfold compareResult
      by_cases hgt : b1 > b2
      · have hlt := value_cons_lt hlen'.symm (digits_bytes y) hgt
        rw [if_pos hgt, if_pos hlt]
      · rw [if_neg hgt]
        by_cases hlt : b2 > b1
        · have hlt' := value_cons_lt hlen' (digits_bytes x) hlt
          rw [if_pos hlt, if_neg (lt_asymm hlt'), if_pos hlt']
        · obtain rfl : b1 = b2 := UInt8.le_antisymm (UInt8.not_lt.mp hgt) (UInt8.not_lt.mp hlt)
          rw [if_neg hlt, value_cons, value_cons, hlen']
          simp only [gt_iff_lt, add_lt_add_iff_left]

/-- What is in front of a number with as many bytes as another one makes it the larger one,
unless it is zeros. -/
theorem value_append_gt {front : List UInt8} (hfront : Radix.value 256 front ≠ 0)
    (hlen : x.length = y.length) : Radix.value 256 y < Radix.value 256 (front ++ x) := by
  have hlt := value_lt (digits_bytes y)
  have hle := Nat.le_mul_of_pos_left (256 ^ x.length) (pos_of_ne_zero hfront)
  rw [value_append, hlen] at *
  omega

theorem value_append_zero {front : List UInt8} (hfront : Radix.value 256 front = 0)
    (x : List UInt8) : Radix.value 256 (front ++ x) = Radix.value 256 x := by
  rw [value_append, hfront, Nat.zero_mul, zero_add]

theorem exists_append_of_le {n : Nat} (h : n ≤ x.length) :
    ∃ front back, x = front ++ back ∧ back.length = n := by
  refine ⟨x.take (x.length - n), x.drop (x.length - n), (take_append_drop _ x).symm, ?_⟩
  rw [length_drop]
  omega

/-- **`CompareBigEndian` compares the numbers**, and reads what it is given. -/
theorem compareBigEndian_append (x y r1 r2 : List UInt8) :
    compareBigEndian (x ++ r1) x.length (y ++ r2) y.length =
      some (compareResult (Radix.value 256 x) (Radix.value 256 y)) := by
  unfold compareBigEndian
  rcases le_total y.length x.length with hle | hle
  · obtain ⟨front, x, rfl, hlen⟩ := exists_append_of_le hle
    have hfront : (front ++ x).length - y.length = front.length := by
      rw [length_append]
      omega
    have hmin : min (front ++ x).length y.length = x.length := by
      rw [length_append]
      omega
    rw [hfront, Nat.sub_eq_zero_of_le hle, hmin, append_assoc, skipZeros_append,
      bind_some]
    by_cases hzero : Radix.value 256 front = 0
    · rw [if_pos hzero, value_append_zero hzero]
      exact compareBytes_append hlen
    · rw [if_neg hzero, compareResult, if_pos (value_append_gt hzero hlen)]
  · obtain ⟨front, y, rfl, hlen⟩ := exists_append_of_le hle
    have hfront : (front ++ y).length - x.length = front.length := by
      rw [length_append]
      omega
    have hmin : min x.length (front ++ y).length = x.length := min_eq_left hle
    rw [hfront, Nat.sub_eq_zero_of_le hle, hmin, append_assoc, skipZeros_append, skipZeros,
      bind_some]
    dsimp only
    rw [bind_some]
    by_cases hzero : Radix.value 256 front = 0
    · rw [if_pos hzero, value_append_zero hzero]
      exact compareBytes_append hlen.symm
    · have hlt := value_append_gt hzero hlen
      rw [if_neg hzero, compareResult, if_neg (lt_asymm hlt), if_pos hlt]

/-! ## §2. `CheckSignatureElement`. -/

def vchMaxModOrder : List UInt8 :=
  [0xFF, 0xFF, 0xFF, 0xFF, 0xFF, 0xFF, 0xFF, 0xFF, 0xFF, 0xFF, 0xFF, 0xFF, 0xFF, 0xFF, 0xFF, 0xFE,
    0xBA, 0xAE, 0xDC, 0xE6, 0xAF, 0x48, 0xA0, 0x3B, 0xBF, 0xD2, 0x5E, 0x8C, 0xD0, 0x36, 0x41, 0x40]

def vchMaxModHalfOrder : List UInt8 :=
  [0x7F, 0xFF, 0xFF, 0xFF, 0xFF, 0xFF, 0xFF, 0xFF, 0xFF, 0xFF, 0xFF, 0xFF, 0xFF, 0xFF, 0xFF, 0xFF,
    0x5D, 0x57, 0x6E, 0x73, 0x57, 0xA4, 0x50, 0x1D, 0xDF, 0xE9, 0x2F, 0x46, 0x68, 0x1B, 0x20, 0xA0]

/-- `CheckSignatureElement(vch, len, half)` -/
def readsSignatureElement (vch : List UInt8) (len : Nat) (half : Bool) : Option Bool :=
  (compareBigEndian vch len [] 0).bind fun least =>
    if least ≤ 0 then some false
    else (compareBigEndian vch len (if half then vchMaxModHalfOrder else vchMaxModOrder) 32).map
      fun most => most ≤ 0

theorem ofLEBytes_eq_ofDigits (bs : List UInt8) :
    ofLEBytes bs = Nat.ofDigits 256 (bs.map UInt8.toNat) := by
  induction bs with
  | nil => rfl
  | cons b bs ih => rw [ofLEBytes, ih, map_cons, ofDigits_cons]

theorem value_eq_ofLEBytes (bs : List UInt8) : Radix.value 256 bs = ofLEBytes bs.reverse :=
  (ofLEBytes_eq_ofDigits bs.reverse).symm

theorem value_max (half : Bool) :
    Radix.value 256 (if half then vchMaxModHalfOrder else vchMaxModOrder) =
      if half then maxModHalfOrder else maxModOrder := by
  cases half <;> rfl

theorem compareResult_le_zero (n m : Nat) : compareResult n m ≤ 0 ↔ n ≤ m := by
  unfold compareResult
  split
  next hgt => simpa using hgt
  next hle =>
    refine ⟨fun _ => not_lt.mp hle, fun _ => ?_⟩
    split <;> decide

theorem readsSignatureElement_append (x rest : List UInt8) (half : Bool) :
    readsSignatureElement (x ++ rest) x.length half = some (checkSignatureElement x half) := by
  have hleast : compareBigEndian (x ++ rest) x.length [] 0 =
      some (compareResult (Radix.value 256 x) 0) := compareBigEndian_append x [] rest []
  have hmost := compareBigEndian_append x (if half then vchMaxModHalfOrder else vchMaxModOrder)
    rest []
  have hlen : (if half then vchMaxModHalfOrder else vchMaxModOrder).length = 32 := by
    cases half <;> rfl
  rw [append_nil, hlen, value_max] at hmost
  unfold readsSignatureElement checkSignatureElement
  rw [hleast, hmost, bind_some, map_some, ← value_eq_ofLEBytes]
  simp only [compareResult_le_zero]
  by_cases hzero : Radix.value 256 x ≤ 0
  · rw [if_pos hzero, decide_eq_false (not_lt.mpr hzero), Bool.false_and]
  · rw [if_neg hzero, decide_eq_true (not_le.mp hzero), Bool.true_and]

/-! ## §3. The bytes that are read. -/

variable (vchSig : Valtype)

/-- The tests of one of the two numbers, `nLen` bytes from `pos` on. -/
def readsDERInteger (pos nLen : Nat) : Option Bool :=
  vchSig[pos - 2]?.bind fun valueType =>
    if valueType ≠ 0x02 then some false
    else if nLen = 0 then some false
    else vchSig[pos]?.bind fun first =>
      if first &&& 0x80 ≠ 0 then some false
      else if 1 < nLen ∧ first = 0x00 then
        vchSig[pos + 1]?.map fun second => second &&& 0x80 ≠ 0
      else some true

/-- `IsDERSignature`; an address that is taken of an element counts as a read of it. -/
def readsDERSignature (haveHashType : Bool) : Option Bool :=
  if vchSig.length < 9 then some false
  else if vchSig.length > 73 then some false
  else vchSig[0]?.bind fun type =>
    if type ≠ 0x30 then some false
    else vchSig[1]?.bind fun nLen =>
      if nLen.toNat ≠ vchSig.length - (if haveHashType then 3 else 2) then some false
      else vchSig[3]?.bind fun nLenR =>
        if 5 + nLenR.toNat ≥ vchSig.length then some false
        else vchSig[5 + nLenR.toNat]?.bind fun nLenS =>
          if nLenR.toNat + nLenS.toNat + (if haveHashType then 7 else 6) ≠ vchSig.length then
            some false
          else vchSig[4]?.bind fun _ =>
            (readsDERInteger vchSig 4 nLenR.toNat).bind fun fR =>
              if !fR then some false
              else vchSig[6 + nLenR.toNat]?.bind fun _ =>
                readsDERInteger vchSig (6 + nLenR.toNat) nLenS.toNat

/-- `IsLowDERSignature` -/
def readsLowDERSignature : Option Bool :=
  (readsDERSignature vchSig true).bind fun fDER =>
    if !fDER then some false
    else vchSig[3]?.bind fun nLenR => vchSig[5 + nLenR.toNat]?.bind fun nLenS =>
      vchSig[6 + nLenR.toNat]?.bind fun _ =>
        readsSignatureElement (vchSig.drop (6 + nLenR.toNat)) nLenS.toNat true

variable {vchSig : Valtype}

theorem getElem?_eq_byteAt {i : Nat} (h : i < vchSig.length) :
    vchSig[i]? = some (byteAt vchSig i) := by
  rw [byteAt, getD_eq_getElem?_getD, getElem?_eq_getElem h, getD_some]

theorem readsDERInteger_eq {pos nLen : Nat} (hpos : 2 ≤ pos)
    (h : pos + nLen < vchSig.length) :
    readsDERInteger vchSig pos nLen = some (isDERInteger vchSig pos nLen) := by
  unfold readsDERInteger isDERInteger
  rw [getElem?_eq_byteAt (show pos - 2 < vchSig.length by omega),
    getElem?_eq_byteAt (show pos < vchSig.length by omega), bind_some, bind_some]
  by_cases htype : byteAt vchSig (pos - 2) = 0x02
  · rw [if_neg (not_not.mpr htype), htype]
    by_cases hlen : nLen = 0
    · rw [if_pos hlen, hlen]
      rfl
    rw [if_neg hlen]
    by_cases hhigh : byteAt vchSig pos &&& 0x80 = 0
    · rw [if_neg (not_not.mpr hhigh), hhigh]
      by_cases hexcess : 1 < nLen ∧ byteAt vchSig pos = 0x00
      · rw [if_pos hexcess, getElem?_eq_byteAt (show pos + 1 < vchSig.length by omega),
          map_some]
        have hne : (nLen != 0) = true := bne_iff_ne.mpr hlen
        rw [hexcess.2, hne, decide_eq_true hexcess.1]
        cases hback : byteAt vchSig (pos + 1) &&& 0x80 == 0 <;> simp_all
      · rw [if_neg hexcess]
        simp only [not_and] at hexcess
        by_cases hone : 1 < nLen
        · simp [hlen, hone, hexcess hone]
        · simp [hlen, hone]
    · rw [if_pos hhigh]
      simp [hhigh]
  · rw [if_pos htype, beq_eq_false_iff_ne.mpr htype]
    rfl

theorem some_guard {p : Prop} [Decidable p] {x : Option Bool} {b : Bool} (h : ¬p → x = some b) :
    (if p then some false else x) = some (if p then false else b) := by
  split
  next => rfl
  next hp => exact h hp

/-- **No byte outside is read**, where a signature comes with its hash type. -/
theorem readsDERSignature_eq (vchSig : Valtype) :
    readsDERSignature vchSig true = some (isDERSignature vchSig true) := by
  unfold readsDERSignature isDERSignature
  simp only [if_true]
  refine some_guard fun hshort => some_guard fun hlong => ?_
  rw [getElem?_eq_byteAt (show 0 < vchSig.length by omega), bind_some]
  refine some_guard fun htype => ?_
  rw [getElem?_eq_byteAt (show 1 < vchSig.length by omega), bind_some]
  refine some_guard fun hlen => ?_
  rw [getElem?_eq_byteAt (show 3 < vchSig.length by omega), bind_some]
  refine some_guard fun hplace => ?_
  rw [getElem?_eq_byteAt (not_le.mp hplace), bind_some]
  refine some_guard fun hsum => ?_
  have hsum := not_not.mp hsum
  rw [getElem?_eq_byteAt (show 4 < vchSig.length by omega), bind_some,
    readsDERInteger_eq (by decide) (by omega), bind_some]
  cases isDERInteger vchSig 4 (byteAt vchSig 3).toNat with
  | false => rfl
  | true =>
    rw [if_neg (by decide), getElem?_eq_byteAt (by omega), bind_some,
      readsDERInteger_eq (by omega) (by omega), Bool.true_and]

/-! ## §4. Strict encodings. -/

/-- The DER encoding of an integer in less than 128 bytes. -/
def DerInteger (n : Nat) (text : List UInt8) : Prop :=
  ∃ bs, TwosComplement.Minimal n bs ∧ text = 0x02 :: UInt8.ofNat bs.length :: bs

/-- The DER encoding of a signature, the sequence of two integers, in less than 128 bytes. -/
def DerSignature (r s : Nat) (text : List UInt8) : Prop :=
  ∃ textR textS, DerInteger r textR ∧ DerInteger s textS ∧
    text = 0x30 :: UInt8.ofNat (textR ++ textS).length :: (textR ++ textS)

/-- A signature with its hash type, of a length that is allowed. -/
def EncodedSignature (r s : Nat) (vchSig : Valtype) : Prop :=
  9 ≤ vchSig.length ∧ vchSig.length ≤ 73 ∧
    ∃ text hashType, DerSignature r s text ∧ vchSig = text ++ [hashType]

/-- The bytes of a signature in their places: each number has the length in front of it. -/
structure PlacedBytes where
  type : UInt8
  nLen : UInt8
  typeR : UInt8
  nLenR : UInt8
  R : List UInt8
  typeS : UInt8
  nLenS : UInt8
  S : List UInt8
  hashType : UInt8
  hR : R.length = nLenR.toNat
  hS : S.length = nLenS.toNat

def PlacedBytes.bytes (b : PlacedBytes) : Valtype :=
  b.type :: b.nLen :: b.typeR :: b.nLenR ::
    (b.R ++ b.typeS :: b.nLenS :: (b.S ++ [b.hashType]))

theorem byteAt_append (front back : List UInt8) (k : Nat) :
    byteAt (front ++ back) (front.length + k) = byteAt back k := by
  unfold byteAt
  rw [getD_eq_getElem?_getD, getD_eq_getElem?_getD,
    getElem?_append_right (le_add_right _ _), Nat.add_sub_cancel_left]

theorem isDERInteger_append (front R back : List UInt8) (type nLen : UInt8) :
    isDERInteger (front ++ type :: nLen :: (R ++ back)) (front.length + 2) R.length =
      (type == 0x02 && TwosComplement.isShortest R) := by
  have htype : byteAt (front ++ type :: nLen :: (R ++ back)) (front.length + 2 - 2) = type :=
    byteAt_append front _ 0
  have hat (k : Nat) : byteAt (front ++ type :: nLen :: (R ++ back)) (front.length + 2 + k) =
      byteAt (R ++ back) k := by
    rw [add_assoc, byteAt_append, add_comm 2 k]
    rfl
  have hfirst := hat 0
  rw [add_zero] at hfirst
  rw [isDERInteger, htype, hfirst, hat]
  rcases R with _ | ⟨b, _ | ⟨c, R⟩⟩
  · simp [TwosComplement.isShortest]
  · simp [TwosComplement.isShortest, byteAt]
  · simp [TwosComplement.isShortest, byteAt, Bool.and_assoc]

theorem byteAt_second (type nLen typeR nLenR typeS nLenS : UInt8) (R rest : List UInt8) :
    byteAt (type :: nLen :: typeR :: nLenR :: (R ++ typeS :: nLenS :: rest)) (5 + R.length) =
      nLenS := by
  have hfront := byteAt_append (type :: nLen :: typeR :: nLenR :: R) (typeS :: nLenS :: rest) 1
  rw [show 5 + R.length = (type :: nLen :: typeR :: nLenR :: R).length + 1 by
    simp only [length_cons]
    omega]
  exact hfront

namespace PlacedBytes

variable (b : PlacedBytes)

theorem length_bytes : b.bytes.length = b.R.length + b.S.length + 7 := by
  simp only [bytes, length_cons, length_append, length_nil]
  omega

theorem byteAt_nLenR : byteAt b.bytes 3 = b.nLenR := rfl

theorem byteAt_nLenS : byteAt b.bytes (5 + b.nLenR.toNat) = b.nLenS := by
  rw [← b.hR]
  exact byteAt_second b.type b.nLen b.typeR b.nLenR b.typeS b.nLenS b.R _

theorem drop_bytes : b.bytes.drop (6 + b.nLenR.toNat) = b.S ++ [b.hashType] := by
  rw [← b.hR, add_comm]
  change ((b.R ++ b.typeS :: b.nLenS :: (b.S ++ [b.hashType])).drop (b.R.length + 2)) = _
  rw [drop_append]
  simp

end PlacedBytes

theorem ite_false_eq_true {p : Prop} [Decidable p] {b : Bool} :
    (if p then false else b) = true ↔ ¬p ∧ b = true := by
  split
  next hp => exact ⟨nofun, fun h => absurd hp h.1⟩
  next hp => exact ⟨fun h => ⟨hp, h⟩, fun h => h.2⟩

theorem isDERSignature_bytes (b : PlacedBytes) :
    isDERSignature b.bytes true = true ↔
      b.bytes.length ≤ 73 ∧ b.type = 0x30 ∧ b.nLen.toNat = b.R.length + b.S.length + 4 ∧
        (b.typeR = 0x02 ∧ TwosComplement.isShortest b.R = true) ∧
        b.typeS = 0x02 ∧ TwosComplement.isShortest b.S = true := by
  have hfirst : isDERInteger b.bytes 4 b.R.length =
      (b.typeR == 0x02 && TwosComplement.isShortest b.R) :=
    isDERInteger_append [b.type, b.nLen] b.R _ b.typeR b.nLenR
  have hsecond : isDERInteger b.bytes (6 + b.R.length) b.S.length =
      (b.typeS == 0x02 && TwosComplement.isShortest b.S) := by
    have happend := isDERInteger_append (b.type :: b.nLen :: b.typeR :: b.nLenR :: b.R) b.S
      [b.hashType] b.typeS b.nLenS
    rw [show 6 + b.R.length = (b.type :: b.nLen :: b.typeR :: b.nLenR :: b.R).length + 2 by
      simp only [length_cons]
      omega]
    exact happend
  have htype : byteAt b.bytes 0 = b.type := rfl
  have hnLen : byteAt b.bytes 1 = b.nLen := rfl
  have hnLenS := b.byteAt_nLenS
  rw [← b.hR] at hnLenS
  unfold isDERSignature
  simp only [htype, hnLen, b.byteAt_nLenR, ← b.hR, hnLenS, b.length_bytes, ← b.hS, hfirst,
    hsecond, ite_false_eq_true, Bool.and_eq_true, beq_iff_eq, if_true]
  constructor
  · rintro ⟨_, hlong, hthirty, hlen, _, _, hints⟩
    exact ⟨by omega, not_not.mp hthirty, by omega, hints⟩
  · rintro ⟨hlong, hthirty, hlen, hints⟩
    have hposR := TwosComplement.length_pos_of_shortest hints.1.2
    have hposS := TwosComplement.length_pos_of_shortest hints.2.2
    exact ⟨by omega, by omega, not_not.mpr hthirty, by omega, by omega, by omega, hints⟩

theorem exists_bytes (h : isDERSignature vchSig true = true) :
    ∃ b : PlacedBytes, vchSig = b.bytes := by
  simp only [isDERSignature, ite_false_eq_true, if_true] at h
  obtain ⟨hshort, _, _, _, _, hsum, _⟩ := h
  rcases vchSig with _ | ⟨type, _ | ⟨nLen, _ | ⟨typeR, _ | ⟨nLenR, rest⟩⟩⟩⟩
  iterate 4 exact absurd (by simp) hshort
  change ¬(nLenR.toNat + _ + 7 ≠ _) at hsum
  have hsum := not_not.mp hsum
  simp only [length_cons] at hsum
  obtain ⟨R, rest, rfl, hR⟩ : ∃ R back, rest = R ++ back ∧ R.length = nLenR.toNat :=
    ⟨rest.take _, rest.drop _, (take_append_drop _ _).symm,
      length_take_of_le (by omega)⟩
  rw [length_append] at hsum
  rcases rest with _ | ⟨typeS, _ | ⟨nLenS, rest⟩⟩
  · rw [length_nil] at hsum
    omega
  · rw [length_singleton] at hsum
    omega
  have hat : byteAt (type :: nLen :: typeR :: nLenR :: (R ++ typeS :: nLenS :: rest))
      (5 + (byteAt (type :: nLen :: typeR :: nLenR :: (R ++ typeS :: nLenS :: rest)) 3).toNat) =
        nLenS := by
    change byteAt _ (5 + nLenR.toNat) = nLenS
    rw [← hR]
    exact byteAt_second type nLen typeR nLenR typeS nLenS R rest
  rw [hat, length_cons, length_cons] at hsum
  obtain ⟨S, hashType, rfl⟩ : ∃ S hashType, rest = S ++ [hashType] := by
    rcases eq_nil_or_concat' rest with rfl | hback
    · rw [length_nil] at hsum
      omega
    · exact hback
  rw [length_append, length_singleton] at hsum
  exact ⟨⟨type, nLen, typeR, nLenR, R, typeS, nLenS, S, hashType, hR, by omega⟩, rfl⟩

theorem text_eq_append (R S : List UInt8) (hashType : UInt8) :
    0x30 :: UInt8.ofNat (R.length + S.length + 4) :: 0x02 :: UInt8.ofNat R.length ::
        (R ++ 0x02 :: UInt8.ofNat S.length :: (S ++ [hashType])) =
      (0x30 :: UInt8.ofNat ((0x02 :: UInt8.ofNat R.length :: R) ++
          0x02 :: UInt8.ofNat S.length :: S).length ::
        ((0x02 :: UInt8.ofNat R.length :: R) ++ 0x02 :: UInt8.ofNat S.length :: S)) ++
          [hashType] := by
  have hlen : ((0x02 :: UInt8.ofNat R.length :: R) ++ 0x02 :: UInt8.ofNat S.length :: S).length =
      R.length + S.length + 4 := by
    simp only [length_append, length_cons]
    omega
  rw [hlen]
  simp only [cons_append, append_assoc]

/-- **The encodings are what passes**, by the numbers in their places. -/
theorem encodedSignature_iff {r s : Nat} :
    EncodedSignature r s vchSig ↔
      ∃ b : PlacedBytes, vchSig = b.bytes ∧ isDERSignature vchSig true = true ∧
        Radix.value 256 b.R = r ∧ Radix.value 256 b.S = s := by
  constructor
  · rintro ⟨_, hlong, _, hashType, ⟨_, _, ⟨R, hR, rfl⟩, ⟨S, hS, rfl⟩, rfl⟩, rfl⟩
    obtain ⟨hr, hshortR⟩ := TwosComplement.minimal_iff.mp hR
    obtain ⟨hs, hshortS⟩ := TwosComplement.minimal_iff.mp hS
    rw [← text_eq_append] at hlong ⊢
    have hlen : R.length + S.length + 7 ≤ 73 := by
      simp only [length_cons, length_append, length_nil] at hlong
      omega
    have htoNat (n : Nat) (hn : n < 256) : (UInt8.ofNat n).toNat = n :=
      toNat_ofNat_of_lt' hn
    let b : PlacedBytes := ⟨0x30, UInt8.ofNat (R.length + S.length + 4), 0x02,
      UInt8.ofNat R.length, R, 0x02, UInt8.ofNat S.length, S, hashType,
      (htoNat _ (by omega)).symm, (htoNat _ (by omega)).symm⟩
    have hder : isDERSignature b.bytes true = true := (isDERSignature_bytes b).mpr
      ⟨hlong, rfl, htoNat _ (by omega), ⟨rfl, hshortR⟩, rfl, hshortS⟩
    exact ⟨b, rfl, hder, hr, hs⟩
  · rintro ⟨b, rfl, hder, rfl, rfl⟩
    obtain ⟨hlong, htype, hnLen, ⟨htypeR, hshortR⟩, htypeS, hshortS⟩ :=
      (isDERSignature_bytes b).mp hder
    have hposR := TwosComplement.length_pos_of_shortest hshortR
    have hposS := TwosComplement.length_pos_of_shortest hshortS
    have hlen := b.length_bytes
    refine ⟨by omega, hlong, _, b.hashType, ⟨_, _,
      ⟨b.R, TwosComplement.minimal_of_shortest hshortR, rfl⟩,
      ⟨b.S, TwosComplement.minimal_of_shortest hshortS, rfl⟩, rfl⟩, ?_⟩
    rw [← text_eq_append, PlacedBytes.bytes, htype, htypeR, htypeS, ← hnLen, b.hR, b.hS,
      UInt8.ofNat_toNat, UInt8.ofNat_toNat, UInt8.ofNat_toNat]

/-! ## §5. The second number. -/

theorem sigElementS_bytes (b : PlacedBytes) : sigElementS b.bytes = b.S := by
  unfold sigElementS
  rw [b.byteAt_nLenR]
  dsimp only
  rw [b.drop_bytes, b.byteAt_nLenS, ← b.hS, take_left]

/-- **No byte outside is read** of a signature that may be of any bytes. -/
theorem readsLowDERSignature_eq (vchSig : Valtype) :
    readsLowDERSignature vchSig = some (isLowDERSignature vchSig) := by
  unfold readsLowDERSignature isLowDERSignature
  rw [readsDERSignature_eq, bind_some]
  cases hder : isDERSignature vchSig true with
  | false => rfl
  | true =>
    obtain ⟨b, rfl⟩ := exists_bytes hder
    have hlen := b.length_bytes
    have hR := b.hR
    rw [if_neg (by decide), getElem?_eq_byteAt (by omega), b.byteAt_nLenR, bind_some,
      getElem?_eq_byteAt (by omega), b.byteAt_nLenS, bind_some,
      getElem?_eq_byteAt (by omega), bind_some, b.drop_bytes, ← b.hS,
      readsSignatureElement_append, sigElementS_bytes, Bool.true_and]

def curveOrder : Nat := 0xfffffffffffffffffffffffffffffffebaaedce6af48a03bbfd25e8cd0364141

theorem checkSignatureElement_half (vch : List UInt8) :
    checkSignatureElement vch true = true ↔
      1 ≤ Radix.value 256 vch ∧ Radix.value 256 vch ≤ curveOrder / 2 := by
  have hhalf : maxModHalfOrder = curveOrder / 2 := by decide
  unfold checkSignatureElement
  rw [← value_eq_ofLEBytes, if_pos rfl, hhalf, Bool.and_eq_true, decide_eq_true_eq,
    decide_eq_true_eq]
  rfl

/-- **The encodings are checked exactly**: no byte outside a string is read, `IsDERSignature`
accepts the strict encodings of two numbers that are not negative with a hash type, of 9 to 73
bytes, and `IsLowDERSignature` those with the second number in `1 .. n / 2`. -/
theorem signatureEncoding_exact (vchSig : Valtype) :
    (∃ accepted, readsDERSignature vchSig true = some accepted ∧
      isDERSignature vchSig true = accepted ∧
      (accepted = true ↔ ∃ r s, EncodedSignature r s vchSig)) ∧
    ∃ accepted, readsLowDERSignature vchSig = some accepted ∧
      isLowDERSignature vchSig = accepted ∧
      (accepted = true ↔ ∃ r s, EncodedSignature r s vchSig ∧ 1 ≤ s ∧ s ≤ curveOrder / 2) := by
  refine ⟨⟨_, readsDERSignature_eq vchSig, rfl, ?_⟩, _, readsLowDERSignature_eq vchSig, rfl, ?_⟩
  · constructor
    · intro hder
      obtain ⟨b, rfl⟩ := exists_bytes hder
      exact ⟨_, _, encodedSignature_iff.mpr ⟨b, rfl, hder, rfl, rfl⟩⟩
    · rintro ⟨r, s, henc⟩
      obtain ⟨_, _, hder, _, _⟩ := encodedSignature_iff.mp henc
      exact hder
  · rw [isLowDERSignature, Bool.and_eq_true, checkSignatureElement_half]
    constructor
    · rintro ⟨hder, hlow⟩
      obtain ⟨b, rfl⟩ := exists_bytes hder
      rw [sigElementS_bytes] at hlow
      exact ⟨_, _, encodedSignature_iff.mpr ⟨b, rfl, hder, rfl, rfl⟩, hlow⟩
    · rintro ⟨r, s, henc, hlow⟩
      obtain ⟨b, rfl, hder, rfl, rfl⟩ := encodedSignature_iff.mp henc
      rw [sigElementS_bytes]
      exact ⟨hder, hlow⟩

end Fantom.Script
