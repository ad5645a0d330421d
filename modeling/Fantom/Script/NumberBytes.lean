/-
  Fantom.Script.NumberBytes — Numbers in their shortest encoding, and the third way of writing one:
  the bytes that `CBigNum` is made of when it is given a C integer.

  * `CBigNum.setint64`, `CBigNum.ofLong` — a `CBigNum` of an `int64_t`,
  * `scriptNum_exact` — all ways of reading and writing agree.
-/
import Fantom.Script.Number

namespace Fantom.Script

open Core List CBigNum

/-! ## §1. Magnitudes without leading zeros. -/

variable {bs : List UInt8} {b : UInt8}

theorem ofLEBytes_pos (hne : bs ≠ []) (hlast : bs.getLast? ≠ some 0) :
    0 < ofLEBytes bs := by
  induction bs with
  | nil => exact absurd rfl hne
  | cons b bs ih =>
    rw [ofLEBytes]
    by_cases hbs : bs = []
    · -- the byte is the last one
      subst hbs
      have hb : b ≠ 0 := fun h => hlast (by rw [h]; rfl)
      have hb' : b.toNat ≠ 0 := fun h => hb (UInt8.toNat_inj.mp h)
      omega
    · have hpos := ih hbs (by rwa [getLast?_cons_of_ne_nil hbs] at hlast)
      omega

theorem magnitudeBytes_ofLEBytes (hlast : bs.getLast? ≠ some 0) :
    ∀ fuel, ofLEBytes bs ≤ fuel → magnitudeBytes fuel (ofLEBytes bs) = bs := by
  induction bs with
  | nil =>
    intro fuel _
    cases fuel <;> simp [ofLEBytes, magnitudeBytes]
  | cons b bs ih =>
    intro fuel hfuel
    have hpos := ofLEBytes_pos (cons_ne_nil b bs) hlast
    have hrest : bs.getLast? ≠ some 0 := by
      intro h
      have hbs : bs ≠ [] := by
        intro hnil
        rw [hnil] at h
        cases h
      exact hlast (by rw [getLast?_cons_of_ne_nil hbs, h])
    have hb : b.toNat < 256 := b.toNat_lt
    cases fuel with
    | zero => omega
    | succ fuel =>
      rw [ofLEBytes] at hpos hfuel ⊢
      have hhigh : (b.toNat + 256 * ofLEBytes bs) / 256 = ofLEBytes bs := by omega
      rw [magnitudeBytes, if_neg (by omega), ofNat_lowByte, hhigh, ih hrest fuel (by omega)]

/-- **A magnitude has one text** without leading zeros. -/
theorem bytesOf_ofLEBytes (hlast : bs.getLast? ≠ some 0) :
    bytesOf (ofLEBytes bs) = bs :=
  magnitudeBytes_ofLEBytes hlast _ (Nat.le_refl _)

theorem magnitudeBytes_getLast? (fuel n : Nat) (h : n ≤ fuel) :
    (magnitudeBytes fuel n).getLast? ≠ some 0 := by
  induction fuel generalizing n with
  | zero => simp [magnitudeBytes]
  | succ fuel ih =>
    rw [magnitudeBytes]
    split
    next => simp
    next hn =>
      have hrest := ih (n / 256) (by omega)
      by_cases hnil : magnitudeBytes fuel (n / 256) = []
      · -- the highest digit: the quotient is 0, and the number is not
        have hzero : n / 256 = 0 := by
          have hvalue := ofLEBytes_magnitudeBytes (show n / 256 ≤ fuel by omega)
          rw [hnil] at hvalue
          exact hvalue.symm
        rw [hnil]
        simp only [getLast?_singleton, ne_eq, Option.some.injEq]
        intro hbyte
        have hnat := congrArg UInt8.toNat hbyte
        rw [UInt8.toNat_ofNat'] at hnat
        have : (0 : UInt8).toNat = 0 := rfl
        omega
      · rwa [getLast?_cons_of_ne_nil hnil]

theorem bytesOf_getLast? (n : Nat) : (bytesOf n).getLast? ≠ some 0 :=
  magnitudeBytes_getLast? n n (Nat.le_refl n)

theorem bytesOf_reverse_head_ne {n : Nat} (h : (bytesOf n).reverse = b :: bs) : b ≠ 0 := by
  intro hb
  apply bytesOf_getLast? n
  rw [← head?_reverse, h, hb]
  rfl

theorem bytesOf_reverse_eq_dropWhile (bs : List UInt8) :
    (bytesOf (ofLEBytes bs.reverse)).reverse = bs.dropWhile (· == 0) := by
  induction bs with
  | nil => rfl
  | cons b bs ih =>
    by_cases hb : b = 0
    · rw [reverse_cons, hb, ofLEBytes_concat_zero, ih]
      simp
    · have hkept : (b :: bs).dropWhile (· == 0) = b :: bs := by simp [hb]
      rw [hkept, bytesOf_ofLEBytes, reverse_reverse]
      simp [hb]

/-! ## §2. `CBigNum` of a C integer. -/

/-- The loop of `setint64`: the bytes of `n` from the top, without its leading zeros, and with
the sign in the first one or in a byte more.  There are `left` of them to come. -/
def setint64Loop (fNegative : Bool) : Nat → Bool → UInt64 → List UInt8
  | 0, _, _ => []
  | left + 1, fLeadingZeroes, n =>
    let c := (n >>> 56).toUInt8
    let n := n <<< 8
    if fLeadingZeroes then
      if c = 0 then setint64Loop fNegative left true n
      else if c &&& 0x80 ≠ 0 then
        (if fNegative then 0x80 else 0) :: c :: setint64Loop fNegative left false n
      else (if fNegative then c ||| 0x80 else c) :: setint64Loop fNegative left false n
    else c :: setint64Loop fNegative left false n

variable (sn : Int64)

/-- What `setint64` writes behind the length. -/
def setint64Bytes : List UInt8 :=
  -- the least number is brought into range before its sign is changed
  let n := if sn < 0 then (-(sn + 1)).toUInt64 + 1 else sn.toUInt64
  setint64Loop (decide (sn < 0)) 8 true n

/-- `CBigNum::setint64`, which `CBigNum(long long)` calls. -/
def CBigNum.setint64 : Int := mpi2bn (setint64Bytes sn)

def CBigNum.setulong (n : UInt64) : Int := n.toNat

/-- `CBigNum(long)` -/
def CBigNum.ofLong (n : Int64) : Int :=
  if n ≥ 0 then CBigNum.setulong n.toUInt64 else CBigNum.setint64 n

theorem leBytes_succ_reverse (w m : Nat) :
    (leBytes (w + 1) m).reverse = UInt8.ofNat (m / 256 ^ w) :: (leBytes w m).reverse := by
  have hsplit : leBytes (w + 1) m = leBytes w m ++ [UInt8.ofNat (m / 256 ^ w)] := by
    induction w generalizing m with
    | zero => simp [leBytes]
    | succ w ih =>
      rw [leBytes, ih (m / 256), leBytes, Nat.div_div_eq_div_mul, ← Nat.pow_succ']
      rfl
  rw [hsplit, reverse_append]
  rfl

variable (fNegative : Bool)

/-- The sign, before the bytes of a magnitude or in the first of them. -/
def withSign : List UInt8 → List UInt8
  | [] => []
  | b :: bs =>
    if b &&& 0x80 ≠ 0 then (if fNegative then 0x80 else 0) :: b :: bs
    else (if fNegative then b ||| 0x80 else b) :: bs

theorem withSign_of_clear (h : b &&& 0x80 = 0) (bs : List UInt8) :
    withSign fNegative (b :: bs) = (if fNegative then b ||| 0x80 else b) :: bs :=
  if_neg fun hne => hne h

theorem withSign_of_set (h : b &&& 0x80 ≠ 0) (bs : List UInt8) :
    withSign fNegative (b :: bs) = (if fNegative then 0x80 else 0) :: b :: bs :=
  if_pos h

theorem bn2mpi_eq_withSign (n : Int) :
    bn2mpi n = withSign (decide (n < 0)) (bytesOf n.natAbs).reverse := by
  unfold bn2mpi
  cases (bytesOf n.natAbs).reverse with
  | nil => rfl
  | cons b bs => simp [withSign]

theorem setint64_byte {left m : Nat} {n : UInt64} (hleft : left < 8)
    (hn : n.toNat = m % 256 ^ (left + 1) * 256 ^ (7 - left)) :
    (n >>> 56).toUInt8 = UInt8.ofNat (m / 256 ^ left) ∧
      (n <<< 8).toNat = m % 256 ^ left * 256 ^ (8 - left) := by
  have hpow : 256 ^ left * 256 ^ (7 - left) = 2 ^ 56 := by
    rw [← Nat.pow_add, show left + (7 - left) = 7 by omega]
    rfl
  have hsplit : m % 256 ^ (left + 1) = m % 256 ^ left + 256 ^ left * (m / 256 ^ left % 256) := by
    rw [Nat.pow_succ, Nat.mod_mul]
  have hlow : m % 256 ^ left * 256 ^ (7 - left) < 2 ^ 56 := by
    rw [← hpow]
    exact Nat.mul_lt_mul_of_pos_right (Nat.mod_lt _ (Nat.pow_pos (by decide)))
      (Nat.pow_pos (by decide))
  have hvalue : n.toNat =
      m % 256 ^ left * 256 ^ (7 - left) + 2 ^ 56 * (m / 256 ^ left % 256) := by
    rw [hn, hsplit, Nat.add_mul, Nat.mul_right_comm, hpow]
  constructor
  · apply UInt8.toNat_inj.mp
    show (n >>> 56).toUInt8.toNat = _
    rw [UInt64.toNat_toUInt8, UInt64.toNat_shiftRight, UInt8.toNat_ofNat', Nat.shiftRight_eq_div_pow,
      hvalue]
    show _ / 2 ^ 56 % 2 ^ 8 = _
    omega
  · have hnext : 256 ^ (8 - left) = 256 * 256 ^ (7 - left) := by
      rw [← Nat.pow_succ', show 8 - left = 7 - left + 1 by omega]
    rw [UInt64.toNat_shiftLeft, Nat.shiftLeft_eq, hnext, hvalue]
    show _ * 2 ^ 8 % 2 ^ 64 = _
    rw [Nat.mul_left_comm]
    omega

theorem setint64Loop_copies (m : Nat) : ∀ left n, left ≤ 8 → n.toNat = m % 256 ^ left *
    256 ^ (8 - left) → setint64Loop fNegative left false n = (leBytes left m).reverse := by
  intro left
  induction left with
  | zero => intros; rfl
  | succ left ih =>
    intro n hleft hn
    rw [show 8 - (left + 1) = 7 - left by omega] at hn
    obtain ⟨hbyte, hrest⟩ := setint64_byte (by omega) hn
    rw [leBytes_succ_reverse, setint64Loop, if_neg (by decide), hbyte, ih _ (by omega) hrest]

theorem setint64Loop_eq (m : Nat) : ∀ left n, left ≤ 8 →
    n.toNat = m % 256 ^ left * 256 ^ (8 - left) → setint64Loop fNegative left true n =
    withSign fNegative ((leBytes left m).reverse.dropWhile (· == 0)) := by
  intro left
  induction left with
  | zero => intros; rfl
  | succ left ih =>
    intro n hleft hn
    rw [show 8 - (left + 1) = 7 - left by omega] at hn
    obtain ⟨hbyte, hrest⟩ := setint64_byte (by omega) hn
    rw [leBytes_succ_reverse, setint64Loop, if_pos rfl, hbyte]
    by_cases hzero : UInt8.ofNat (m / 256 ^ left) = 0
    · rw [if_pos hzero, ih _ (by omega) hrest]
      simp [hzero]
    · -- the first byte of the magnitude
      rw [if_neg hzero, setint64Loop_copies fNegative m left _ (by omega) hrest]
      simp [hzero, withSign]

theorem setint64Bytes_eq : setint64Bytes sn = bn2mpi sn.toInt := by
  have hlt : sn < 0 ↔ sn.toInt < 0 := by
    rw [Int64.lt_iff_toInt_lt]
    rfl
  have hmagnitude : (if sn < 0 then (-(sn + 1)).toUInt64 + 1 else sn.toUInt64).toNat =
      sn.toInt.natAbs := by
    have habs := absvalue_eq sn
    split
    next hneg =>
      rw [if_pos hneg] at habs
      have hsame : (-(sn + 1)).toUInt64 + 1 = (-sn).toUInt64 := by
        apply UInt64.toBitVec_inj.mp
        show -(sn.toBitVec + 1) + 1 = -sn.toBitVec
        rw [BitVec.neg_add, BitVec.sub_add_cancel]
      rw [hsame, habs]
    next hneg =>
      rw [if_neg hneg] at habs
      exact habs
  have hbound : sn.toInt.natAbs < 256 ^ 8 := by
    rw [← hmagnitude]
    exact UInt64.toNat_lt _
  rw [setint64Bytes, setint64Loop_eq _ sn.toInt.natAbs 8 _ (Nat.le_refl 8), bn2mpi_eq_withSign]
  · rw [← bytesOf_reverse_eq_dropWhile, reverse_reverse, ofLEBytes_leBytes hbound]
    simp only [hlt]
  · rw [hmagnitude, Nat.mod_eq_of_lt hbound]
    simp

theorem setint64_eq : CBigNum.setint64 sn = sn.toInt := by
  rw [CBigNum.setint64, setint64Bytes_eq, mpi2bn_bn2mpi]

theorem ofLong_eq (n : Int64) : CBigNum.ofLong n = n.toInt := by
  unfold CBigNum.ofLong
  split
  next hpos =>
    have hpos' : 0 ≤ n.toInt := Int64.le_iff_toInt_le.mp hpos
    have hnat := toNat_of_nonneg hpos'
    show (n.toUInt64.toNat : Int) = n.toInt
    omega
  next => exact setint64_eq n

/-! ## §3. The shortest encoding. -/

theorem isMinimal_getvch (n : Int) : isMinimal (CBigNum.getvch n) = true := by
  unfold isMinimal CBigNum.getvch
  rw [reverse_reverse, bn2mpi_eq_withSign]
  cases h : (bytesOf n.natAbs).reverse with
  | nil => rfl
  | cons b bs =>
    have hb := bytesOf_reverse_head_ne h
    by_cases htop : b &&& 0x80 = 0
    · -- the sign is in the first byte, which has other bits as well
      rw [withSign_of_clear _ htop]
      have hfirst : ((if decide (n < 0) then b ||| 0x80 else b) &&& 0x7f) = b := by
        split
        · exact byte_clear_top_or htop
        · exact byte_clear_top htop
      cases bs with
      | nil => simp only [hfirst, bne_iff_ne.mpr hb]
      | cons c bs => simp only [hfirst, bne_iff_ne.mpr hb, Bool.true_or]
    · -- the sign is a byte of its own, and the next one needs its top bit
      rw [withSign_of_set _ htop]
      simp only [bne_iff_ne.mpr htop, Bool.or_true]

theorem top_clear : ∀ b : BitVec 8, (b &&& 0x7f) &&& 0x80 = 0 := by decide

theorem top_set : ∀ b : BitVec 8, b &&& 0x80 ≠ 0 → (b &&& 0x7f) ||| 0x80 = b := by decide

theorem top_alone : ∀ b : BitVec 8, b &&& 0x7f = 0 → b = if b &&& 0x80 = 0 then 0 else 0x80 := by
  decide

theorem byte_top_clear (b : UInt8) : (b &&& 0x7f) &&& 0x80 = 0 :=
  UInt8.toBitVec_inj.mp (Script.top_clear b.toBitVec)

theorem byte_top_set (h : b &&& 0x80 ≠ 0) : (b &&& 0x7f) ||| 0x80 = b :=
  UInt8.toBitVec_inj.mp (Script.top_set b.toBitVec fun h' => h (UInt8.toBitVec_inj.mp h'))

theorem byte_top_alone (h : b &&& 0x7f = 0) :
    b = if b &&& 0x80 = 0 then 0 else 0x80 := by
  have hbits := Script.top_alone b.toBitVec (congrArg UInt8.toBitVec h)
  have htop : b &&& 0x80 = 0 ↔ b.toBitVec &&& 0x80 = 0 := UInt8.toBitVec_inj.symm
  simp only [htop]
  split
  next hclear =>
    rw [if_pos hclear] at hbits
    exact UInt8.toBitVec_inj.mp hbits
  next hset =>
    rw [if_neg hset] at hbits
    exact UInt8.toBitVec_inj.mp hbits

theorem mpi2bn_neg_iff (hpos : 0 < ofLEBytes (bs.reverse ++ [b &&& 0x7f])) :
    mpi2bn (b :: bs) < 0 ↔ b &&& 0x80 ≠ 0 := by
  rw [mpi2bn_cons]
  split
  next htop => exact ⟨fun h => by omega, fun h => absurd htop h⟩
  next htop => exact ⟨fun _ => htop, fun _ => by omega⟩

theorem mpi2bn_natAbs (b : UInt8) (bs : List UInt8) :
    (mpi2bn (b :: bs)).natAbs = ofLEBytes (bs.reverse ++ [b &&& 0x7f]) := by
  rw [mpi2bn_cons]
  split <;> omega

/-- **What passes the test for the shortest encoding is written again.** -/
theorem getvch_setvch {vch : Valtype} (h : isMinimal vch = true) :
    CBigNum.getvch (CBigNum.setvch vch) = vch := by
  unfold isMinimal at h
  rw [CBigNum.getvch, CBigNum.setvch]
  suffices hmpi : bn2mpi (mpi2bn vch.reverse) = vch.reverse by rw [hmpi, reverse_reverse]
  rw [bn2mpi_eq_withSign]
  cases hvch : vch.reverse with
  | nil => rfl
  | cons b bs =>
    rw [hvch] at h
    rw [mpi2bn_natAbs]
    by_cases hbits : b &&& 0x7f = 0
    · -- the first byte is the sign alone, so that there is a next one which needs its top bit
      rw [hbits, ofLEBytes_concat_zero]
      cases bs with
      | nil => simp [hbits] at h
      | cons c bs =>
        have hc : c &&& 0x80 ≠ 0 := by simpa [hbits] using h
        have hlast : ((c :: bs).reverse).getLast? ≠ some 0 := by
          rw [getLast?_reverse]
          intro hzero
          rw [Option.some.inj hzero] at hc
          exact hc (by decide)
        have hpos : 0 < ofLEBytes ((c :: bs).reverse ++ [b &&& 0x7f]) := by
          rw [hbits, ofLEBytes_concat_zero]
          exact ofLEBytes_pos (by simp) hlast
        rw [bytesOf_ofLEBytes hlast, reverse_reverse, withSign_of_set _ hc]
        have hb := byte_top_alone hbits
        by_cases htop : b &&& 0x80 = 0
        · have hneg : ¬ mpi2bn (b :: c :: bs) < 0 := fun h => (mpi2bn_neg_iff hpos).mp h htop
          rw [if_pos htop] at hb
          rw [decide_eq_false hneg, if_neg (by decide), ← hb]
        · rw [if_neg htop] at hb
          rw [decide_eq_true ((mpi2bn_neg_iff hpos).mpr htop), if_pos rfl, ← hb]
    · have hlast : (bs.reverse ++ [b &&& 0x7f]).getLast? ≠ some 0 := by
        rw [getLast?_concat]
        exact fun hzero => hbits (Option.some.inj hzero)
      have hpos := ofLEBytes_pos (by simp) hlast
      rw [bytesOf_ofLEBytes hlast, reverse_append, reverse_reverse,
        reverse_singleton, singleton_append, withSign_of_clear _ (byte_top_clear b)]
      by_cases htop : b &&& 0x80 = 0
      · have hneg : ¬ mpi2bn (b :: bs) < 0 := fun h => (mpi2bn_neg_iff hpos).mp h htop
        rw [decide_eq_false hneg, if_neg (by decide), byte_clear_top htop]
      · rw [decide_eq_true ((mpi2bn_neg_iff hpos).mpr htop), if_pos rfl, byte_top_set htop]

/-! ## §4. Four bytes, and the range of an `int`. -/

theorem top_le : ∀ b : BitVec 8, b &&& 0x80 ≠ 0 → 128 ≤ b.toNat := by decide

theorem byte_top_le (h : b &&& 0x80 ≠ 0) : 128 ≤ b.toNat :=
  Script.top_le b.toBitVec fun h' => h (UInt8.toBitVec_inj.mp h')

theorem bytesOf_length_le {n w : Nat} (h : n < 256 ^ w) : (bytesOf n).length ≤ w := by
  have hbytes := bytesOf_reverse_eq_dropWhile (leBytes w n).reverse
  rw [reverse_reverse, ofLEBytes_leBytes h] at hbytes
  have hle := (dropWhile_suffix (l := (leBytes w n).reverse) (· == 0)).length_le
  rw [← hbytes] at hle
  simpa using hle

theorem getvch_numSize {n : Int} (h : n.natAbs < 2 ^ 31) : (CBigNum.getvch n).length ≤ 4 := by
  rw [CBigNum.getvch, length_reverse, bn2mpi_eq_withSign]
  have hlen := bytesOf_length_le (show n.natAbs < 256 ^ 4 by omega)
  have hvalue := ofLEBytes_bytesOf n.natAbs
  rw [← reverse_reverse (bytesOf n.natAbs)] at hvalue
  rw [← length_reverse] at hlen
  cases hbytes : (bytesOf n.natAbs).reverse with
  | nil => exact Nat.zero_le 4
  | cons b bs =>
    rw [hbytes] at hlen hvalue
    rw [length_cons] at hlen
    by_cases htop : b &&& 0x80 = 0
    · rw [withSign_of_clear _ htop, length_cons]
      omega
    · rw [withSign_of_set _ htop, length_cons, length_cons]
      -- four bytes with the top bit would be 2^31 at least
      have hfour : bs.length ≠ 3 := by
        intro hthree
        have hb := byte_top_le htop
        rw [reverse_cons, ofLEBytes_append, length_reverse, hthree] at hvalue
        simp only [ofLEBytes, Nat.mul_zero, Nat.add_zero] at hvalue
        omega
      omega

theorem CScriptNum.getint_clamps (n : CScriptNum) :
    CScriptNum.getint n = max (-2147483648) (min 2147483647 n.toInt) := by
  rw [getint_eq, CBigNum.getint]
  split <;> split <;> omega

theorem getint_clamps (bn : Int) :
    CBigNum.getint bn = max (-2147483648) (min 2147483647 bn) := by
  rw [CBigNum.getint]
  split <;> split <;> omega

theorem ofVch_serialize {n : Int64} (h : n.toInt.natAbs < 2 ^ 31) :
    CScriptNum.ofVch (CScriptNum.serialize n) true = some n := by
  rw [serialize_eq_getvch]
  have hlen := getvch_numSize h
  have hlong : ¬ (CBigNum.getvch n.toInt).length > CScriptNum.nMaxNumSize := Nat.not_lt.mpr hlen
  have hvalue : CScriptNum.setVch (CBigNum.getvch n.toInt) = n := by
    apply Int64.toInt.inj
    rw [setVch_toInt hlen, setvch_getvch]
  rw [CScriptNum.ofVch, if_neg hlong, isMinimal_getvch, hvalue]
  rfl

theorem serialize_of_ofVch {vch : Valtype} {n : Int64} (h : CScriptNum.ofVch vch true = some n) :
    CScriptNum.serialize n = vch := by
  unfold CScriptNum.ofVch at h
  split at h
  · cases h
  next hlen =>
    split at h
    · cases h
    next hminimal =>
      cases h
      have hlen' : vch.length ≤ 4 := Nat.not_lt.mp hlen
      rw [serialize_eq_getvch, setVch_toInt hlen', getvch_setvch (by simpa using hminimal)]

/-- **Script numbers are exact**: what either kind writes, either kind reads back, and the
shortest encoding is the one that is written. -/
theorem scriptNum_exact :
    (∀ n : Int64, n.toInt.natAbs < 2 ^ 31 →
      CScriptNum.ofVch (CScriptNum.serialize n) true = some n) ∧
    (∀ (vch : Valtype) (n : CScriptNum), vch.length ≤ 4 → CScriptNum.ofVch vch true = some n →
      CScriptNum.serialize n = vch) ∧
    (∀ n : Int64, n.toInt.natAbs < 2 ^ 63 →
      CScriptNum.serialize n = CBigNum.getvch (CBigNum.ofLong n) ∧
      CScriptNum.serialize n = CBigNum.getvch (CBigNum.setint64 n) ∧
      CBigNum.setvch (CScriptNum.serialize n) = n.toInt) ∧
    (∀ n : CScriptNum, CScriptNum.getint n = max (-2147483648) (min 2147483647 n.toInt)) ∧
    (∀ bn : Int, CBigNum.getint bn = max (-2147483648) (min 2147483647 bn)) := by
  refine ⟨fun n hn => ofVch_serialize hn, fun vch n _ hread => serialize_of_ofVch hread,
    fun n _ => ?_, CScriptNum.getint_clamps, getint_clamps⟩
  have hbytes := serialize_eq_getvch n
  refine ⟨by rw [hbytes, ofLong_eq], by rw [hbytes, setint64_eq], ?_⟩
  rw [hbytes, setvch_getvch]

/-- -255 takes a byte more for its sign. -/
theorem scriptNum_exact_negative :
    CScriptNum.ofVch (CScriptNum.serialize (-255)) true = some (-255) ∧
      CScriptNum.serialize (-255) = [0xff, 0x80] ∧
      CBigNum.getvch (CBigNum.ofLong (-255)) = [0xff, 0x80] := by
  obtain ⟨hreads, hwrites, hbig, _⟩ := scriptNum_exact
  have hread := hreads (-255) (by decide)
  have hbytes : CScriptNum.serialize (-255) = [0xff, 0x80] :=
    hwrites [0xff, 0x80] (-255) (by decide) (by decide)
  exact ⟨hread, hbytes, (hbig (-255) (by decide)).1.symm.trans hbytes⟩

end Fantom.Script
