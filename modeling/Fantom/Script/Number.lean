/-
  Fantom.Script.Number — The numbers of the two script interpreters: `CBigNum`, of any size and
  converted through the MPI format of OpenSSL, and `CScriptNum`, an `int64_t` with a conversion of
  its own.

  * `setVch_toInt`, `serialize_eq_getvch` — both read and write numbers alike.

  A stack element is its bytes, least significant first.
-/
import Fantom.Core.BlockIndex

namespace Fantom.Script

open Core List Int64 UInt8 Nat

abbrev Valtype := List UInt8

/-! ## §1. Bytes of a magnitude. -/

/-- The bytes of a number, least significant first and without leading zeros;
`fuel = n` is enough. -/
def magnitudeBytes : Nat → Nat → List UInt8
  | 0, _ => []
  | fuel + 1, n => if n = 0 then [] else UInt8.ofNat n :: magnitudeBytes fuel (n / 256)

/-- `while (n) { push_back(n & 0xff); n >>= 8; }` -/
def bytesOf (n : Nat) : List UInt8 := magnitudeBytes n n

theorem ofLEBytes_append (xs ys : List UInt8) :
    ofLEBytes (xs ++ ys) = ofLEBytes xs + 256 ^ xs.length * ofLEBytes ys := by
  induction xs with
  | nil => simp [ofLEBytes]
  | cons x xs ih =>
    rw [cons_append, ofLEBytes, ofLEBytes, ih, length_cons, pow_succ',
      mul_add, mul_assoc, add_assoc]

theorem ofLEBytes_magnitudeBytes {fuel n : Nat} (h : n ≤ fuel) :
    ofLEBytes (magnitudeBytes fuel n) = n := by
  induction fuel generalizing n with
  | zero =>
    obtain rfl : n = 0 := by omega
    rfl
  | succ fuel ih =>
    rw [magnitudeBytes]
    split
    next hn => rw [hn]; rfl
    next hn =>
      rw [ofLEBytes, ih (by omega), toNat_ofNat']
      omega

theorem ofLEBytes_bytesOf (n : Nat) : ofLEBytes (bytesOf n) = n :=
  ofLEBytes_magnitudeBytes (le_refl n)

/-! ## §2. `CBigNum`. -/

/-- `BN_bn2mpi` without the length: the magnitude, most significant byte first,
with the sign in its top bit or in a byte more. -/
def bn2mpi (n : Int) : List UInt8 :=
  match (bytesOf n.natAbs).reverse with
  | [] => []
  | b :: bs =>
    if b &&& 0x80 ≠ 0 then (if n < 0 then 0x80 else 0) :: b :: bs
    else (if n < 0 then b ||| 0x80 else b) :: bs

variable (vch : Valtype)

def CBigNum.setvch : Int := mpi2bn vch.reverse

def CBigNum.getvch (bn : Int) : Valtype := (bn2mpi bn).reverse

def nDefaultMaxNumSize : Nat := 4

/-- `CastToBigNum`, with `none` for its exception. -/
def castToBigNum (nMaxNumSize : Nat) : Option Int :=
  if vch.length > nMaxNumSize then none
  else some (CBigNum.setvch (CBigNum.getvch (CBigNum.setvch vch)))

/-- `CBigNum::getint`: out of the range of an `int`, its nearest end. -/
def CBigNum.getint (bn : Int) : Int :=
  if 0 ≤ bn then (if bn.natAbs > 2147483647 then 2147483647 else bn)
  else (if bn.natAbs > 2147483647 then -2147483648 else bn)

/-! ### The round trip. -/

theorem clear_top_or : ∀ b : BitVec 8, b &&& 0x80 = 0 → (b ||| 0x80) &&& 0x7f = b := by decide

theorem clear_top : ∀ b : BitVec 8, b &&& 0x80 = 0 → b &&& 0x7f = b := by decide

theorem top_or : ∀ b : BitVec 8, (b ||| 0x80) &&& 0x80 ≠ 0 := by decide

theorem byte_clear_top_or {b : UInt8} (h : b &&& 0x80 = 0) : (b ||| 0x80) &&& 0x7f = b :=
  UInt8.toBitVec_inj.mp (Script.clear_top_or b.toBitVec (congrArg UInt8.toBitVec h))

theorem byte_clear_top {b : UInt8} (h : b &&& 0x80 = 0) : b &&& 0x7f = b :=
  UInt8.toBitVec_inj.mp (Script.clear_top b.toBitVec (congrArg UInt8.toBitVec h))

theorem byte_top_or (b : UInt8) : (b ||| 0x80) &&& 0x80 ≠ 0 :=
  fun h => Script.top_or b.toBitVec (congrArg UInt8.toBitVec h)

theorem mpi2bn_cons (b : UInt8) (bs : List UInt8) :
    mpi2bn (b :: bs) = if b &&& 0x80 = 0 then (ofLEBytes (bs.reverse ++ [b &&& 0x7f]) : Int)
      else -(ofLEBytes (bs.reverse ++ [b &&& 0x7f]) : Int) := by
  rw [mpi2bn, reverse_cons]

theorem ofLEBytes_concat_zero (xs : List UInt8) : ofLEBytes (xs ++ [0]) = ofLEBytes xs := by
  rw [ofLEBytes_append]
  simp [ofLEBytes]

/-- **MPI is exact**: reading back what was written gives the number. -/
theorem mpi2bn_bn2mpi (n : Int) : mpi2bn (bn2mpi n) = n := by
  have hbytes : ofLEBytes (bytesOf n.natAbs).reverse.reverse = n.natAbs := by
    rw [reverse_reverse, ofLEBytes_bytesOf]
  unfold bn2mpi
  cases hr : (bytesOf n.natAbs).reverse with
  | nil =>
    rw [hr] at hbytes
    have hzero : n = 0 := Int.natAbs_eq_zero.mp hbytes.symm
    rw [hzero]
    rfl
  | cons b bs =>
    rw [hr, reverse_cons] at hbytes
    dsimp only
    by_cases htop : b &&& 0x80 = 0
    · rw [if_neg (by simpa using htop)]
      by_cases hneg : n < 0
      · rw [if_pos hneg, mpi2bn_cons, if_neg (byte_top_or b), byte_clear_top_or htop, hbytes]
        omega
      · rw [if_neg hneg, mpi2bn_cons, if_pos htop, byte_clear_top htop, hbytes]
        omega
    · rw [if_pos (by simpa using htop)]
      by_cases hneg : n < 0
      · rw [if_pos hneg, mpi2bn_cons, if_neg (by decide), show (0x80 &&& 0x7f : UInt8) = 0 from rfl,
          reverse_cons, ofLEBytes_concat_zero, hbytes]
        omega
      · rw [if_neg hneg, mpi2bn_cons, if_pos (by decide), show (0 &&& 0x7f : UInt8) = 0 from rfl,
          reverse_cons, ofLEBytes_concat_zero, hbytes]
        omega

theorem CBigNum.setvch_getvch (bn : Int) : CBigNum.setvch (CBigNum.getvch bn) = bn := by
  rw [CBigNum.setvch, CBigNum.getvch, reverse_reverse, mpi2bn_bn2mpi]

theorem castToBigNum_eq (nMaxNumSize : Nat) :
    castToBigNum vch nMaxNumSize =
      if vch.length > nMaxNumSize then none else some (CBigNum.setvch vch) := by
  rw [castToBigNum, CBigNum.setvch_getvch]

/-! ## §3. `CScriptNum`. -/

/-- `CScriptNum`: its `m_value`. -/
abbrev CScriptNum := Int64

/-- `CScriptNum::set_vch`.  The bit that carries the sign is cleared in the last
byte. -/
def CScriptNum.setVch : CScriptNum :=
  match vch.getLast? with
  | none => 0
  | some back =>
    if back &&& 0x80 ≠ 0 then -Int64.ofNat (ofLEBytes (vch.dropLast ++ [back &&& 0x7f]))
    else Int64.ofNat (ofLEBytes vch)

variable (value : Int64)

/-- `CScriptNum::serialize` -/
def CScriptNum.serialize : Valtype :=
  if value = 0 then []
  else
    let neg := value < 0
    let absvalue := (if neg then -value else value).toUInt64.toNat
    let result := bytesOf absvalue
    match result.getLast? with
    | none => result
    | some back =>
      if back &&& 0x80 ≠ 0 then result ++ [if neg then 0x80 else 0]
      else if neg then result.dropLast ++ [back ||| 0x80]
      else result

/-- The test for the shortest encoding: the last byte is more than a sign, unless
the byte before needs its top bit for itself. -/
def isMinimal : Bool :=
  match vch.reverse with
  | [] => true
  | [back] => back &&& 0x7f != 0
  | back :: before :: _ => back &&& 0x7f != 0 || before &&& 0x80 != 0

def CScriptNum.nMaxNumSize : Nat := 4

/-- `CScriptNum(vch, fRequireMinimal)`, with `none` for its exceptions. -/
def CScriptNum.ofVch (fRequireMinimal : Bool) : Option CScriptNum :=
  if vch.length > CScriptNum.nMaxNumSize then none
  else if fRequireMinimal && !isMinimal vch then none
  else some (CScriptNum.setVch vch)

def CScriptNum.getint (n : CScriptNum) : Int :=
  if n > 2147483647 then 2147483647 else if n < -2147483648 then -2147483648 else n.toInt

/-! ### Both kinds agree. -/

theorem setvch_eq (init : List UInt8) (back : UInt8) :
    CBigNum.setvch (init ++ [back]) =
      if back &&& 0x80 = 0 then (ofLEBytes (init ++ [back &&& 0x7f]) : Int)
      else -(ofLEBytes (init ++ [back &&& 0x7f]) : Int) := by
  rw [CBigNum.setvch, reverse_append, reverse_singleton, singleton_append,
    mpi2bn_cons, reverse_reverse]

theorem toNat_clear_top (b : UInt8) : (b &&& 0x7f).toNat < 128 := by
  rw [UInt8.toNat_and]
  exact lt_of_le_of_lt Nat.and_le_right (by decide)

theorem magnitude_lt {init : List UInt8} (h : init.length ≤ 3) (back : UInt8) :
    ofLEBytes (init ++ [back &&& 0x7f]) < 2147483648 := by
  have hinit := ofLEBytes_lt init
  have hback := toNat_clear_top back
  have hpow : 256 ^ init.length ≤ 256 ^ 3 := Nat.pow_le_pow_right (by decide) h
  rw [ofLEBytes_append]
  simp only [ofLEBytes, Nat.mul_zero, add_zero]
  calc ofLEBytes init + 256 ^ init.length * (back &&& 0x7f).toNat
      < 256 ^ init.length + 256 ^ init.length * (back &&& 0x7f).toNat := by omega
    _ = 256 ^ init.length * (1 + (back &&& 0x7f).toNat) := by rw [mul_add, Nat.mul_one]
    _ ≤ 256 ^ 3 * 128 := Nat.mul_le_mul hpow (by omega)
    _ = 2147483648 := by decide

theorem setvch_bound {vch : Valtype} (h : vch.length ≤ 4) :
    -2147483647 ≤ CBigNum.setvch vch ∧ CBigNum.setvch vch ≤ 2147483647 := by
  rcases eq_nil_or_concat vch with rfl | ⟨init, back, rfl⟩
  · decide
  · rw [concat_eq_append] at h ⊢
    rw [length_append, length_singleton] at h
    have hlt := magnitude_lt (show init.length ≤ 3 by omega) back
    rw [setvch_eq]
    split <;> omega

theorem setVch_toInt {vch : Valtype} (h : vch.length ≤ 4) :
    (CScriptNum.setVch vch).toInt = CBigNum.setvch vch := by
  rcases eq_nil_or_concat vch with rfl | ⟨init, back, rfl⟩
  · rfl
  rw [concat_eq_append] at h ⊢
  rw [length_append, length_singleton] at h
  have hlt := magnitude_lt (show init.length ≤ 3 by omega) back
  rw [setvch_eq, CScriptNum.setVch, getLast?_concat]
  dsimp only
  by_cases htop : back &&& 0x80 = 0
  · rw [if_neg (by simpa using htop), if_pos htop]
    rw [byte_clear_top htop] at hlt ⊢
    exact toInt_ofNat_of_lt (by omega)
  · rw [if_pos (by simpa using htop), if_neg htop, dropLast_concat]
    have hnat : (Int64.ofNat (ofLEBytes (init ++ [back &&& 0x7f]))).toInt =
        ofLEBytes (init ++ [back &&& 0x7f]) := toInt_ofNat_of_lt (by omega)
    rw [toInt_neg, hnat, Int.bmod_eq_of_le] <;> omega

theorem toNat_of_nonneg {x : Int64} (h : 0 ≤ x.toInt) : x.toUInt64.toNat = x.toInt.natAbs := by
  rw [toNat_toUInt64_of_le (le_iff_toInt_le.mpr h), Int64.toNatClampNeg]
  omega

theorem absvalue_eq :
    (if value < 0 then -value else value).toUInt64.toNat = value.toInt.natAbs := by
  have hlt : value < 0 ↔ value.toInt < 0 := by
    rw [lt_iff_toInt_lt]
    rfl
  by_cases hmin : value = Int64.minValue
  · rw [hmin]
    decide
  split
  next hneg =>
    have hneg' := hlt.mp hneg
    have hlow : Int64.minValue.toInt < value.toInt :=
      lt_of_le_of_ne (minValue_le_toInt value) (fun h => hmin (Int64.toInt.inj h.symm))
    have hlow' : -9223372036854775808 < value.toInt := hlow
    have hval : (-value).toInt = -value.toInt := by
      rw [toInt_neg, Int.bmod_eq_of_le] <;> omega
    rw [toNat_of_nonneg (by omega), hval]
    omega
  next hneg =>
    rw [hlt] at hneg
    exact toNat_of_nonneg (by omega)

theorem serialize_eq_getvch : CScriptNum.serialize value = CBigNum.getvch value.toInt := by
  have hlt : value < 0 ↔ value.toInt < 0 := by
    rw [lt_iff_toInt_lt]
    rfl
  rw [CScriptNum.serialize, CBigNum.getvch, bn2mpi]
  dsimp only
  rw [absvalue_eq]
  by_cases hzero : value = 0
  · rw [if_pos hzero, hzero]
    rfl
  · rw [if_neg hzero]
    rcases eq_nil_or_concat (bytesOf value.toInt.natAbs) with hnil | ⟨init, back, hbytes⟩
    · rw [hnil]
      rfl
    · rw [hbytes, concat_eq_append, getLast?_concat, reverse_append,
        reverse_singleton, singleton_append, dropLast_concat]
      dsimp only
      simp only [hlt]
      split
      · rw [reverse_cons, reverse_cons, reverse_reverse]
      · split <;> simp

theorem getint_eq (n : CScriptNum) : CScriptNum.getint n = CBigNum.getint n.toInt := by
  unfold CScriptNum.getint CBigNum.getint
  have hmax : (n > 2147483647) ↔ n.toInt > 2147483647 := by
    rw [gt_iff_lt, lt_iff_toInt_lt]
    rfl
  have hmin : (n < -2147483648) ↔ n.toInt < -2147483648 := by
    rw [lt_iff_toInt_lt]
    rfl
  simp only [hmax, hmin]
  split
  · split
    · split <;> omega
    · split <;> omega
  · split
    · split
      · split <;> omega
      · split <;> omega
    · split
      · split <;> omega
      · split <;> omega

end Fantom.Script
