/-
  Fantom.Core.Compact — Targets in 32 bits: a size, and the first three bytes of a number.

  * `compact_exact` — what is lost between them, and that no more is lost a second time.

  `setCompact` itself stands with the block index.
-/
import Fantom.Core.BlockIndex
import Fantom.Lib.Radix
import Mathlib.Data.Nat.Size

namespace Fantom.Core

open Lib List Int

/-! ## §1. The format of `BN_bn2mpi`. -/

variable (n : Nat)

/-- `ext` of `BN_bn2mpi`: whether the first bit of the number is where the sign goes.
`BN_num_bits` is `Nat.size`. -/
def signByte : Bool := decide (0 < numBytes n) && decide (Nat.size n % 8 = 0)

/-- `BN_bn2mpi` behind its length. -/
def mpiBody (bn : Int) : List UInt8 :=
  let d := (if signByte bn.natAbs then [0] else []) ++ bn2bin bn.natAbs
  if bn < 0 then d.modifyHead (· ||| 0x80) else d

/-- `BN_bn2mpi` -/
def bnBn2mpi (bn : Int) : List UInt8 :=
  (leBytes 4 (mpiBody bn).length).reverse ++ mpiBody bn

/-- `BN_mpi2bn(d, len, bn)`; none for an encoding error. -/
def bnMpi2bn (d : List UInt8) : Option Int :=
  if d.length < 4 then none
  else if bin2bn (d.take 4) + 4 ≠ d.length then none
  else some (mpi2bn (d.drop 4))

/-! ## §2. `CBigNum::SetCompact` and `CBigNum::GetCompact`. -/

/-- The bytes that `SetCompact` gives to `BN_mpi2bn`. -/
def setCompactVch (nCompact : UInt32) : List UInt8 :=
  let nSize := nCompact >>> 24
  let vch := replicate (4 + nSize.toNat) (0 : UInt8)
  let vch := vch.set 3 nSize.toUInt8
  let vch := if nSize ≥ 1 then vch.set 4 ((nCompact >>> 16) &&& 0xff).toUInt8 else vch
  let vch := if nSize ≥ 2 then vch.set 5 ((nCompact >>> 8) &&& 0xff).toUInt8 else vch
  if nSize ≥ 3 then vch.set 6 ((nCompact >>> 0) &&& 0xff).toUInt8 else vch

def getCompact (bn : Int) : UInt32 :=
  let vch := bnBn2mpi bn
  let nSize := UInt32.ofNat vch.length - 4
  let nCompact := nSize <<< 24
  let nCompact := if nSize ≥ 1 then nCompact ||| (vch.getD 4 0).toUInt32 <<< 16 else nCompact
  let nCompact := if nSize ≥ 2 then nCompact ||| (vch.getD 5 0).toUInt32 <<< 8 else nCompact
  if nSize ≥ 3 then nCompact ||| (vch.getD 6 0).toUInt32 <<< 0 else nCompact

-- the proof-of-work limit and its compact form
example : getCompact bnProofOfWorkLimit = 0x1f0fffff := by decide +kernel

/-! ## §3. How many bytes a number needs. -/

/-- The bytes of `n` in the format. -/
def mpiSize : Nat := (mpiBody n).length

theorem mpiBody_natCast :
    mpiBody n = (if signByte n then [0] else []) ++ bn2bin n := by
  have hnonneg : ¬ (n : Int) < 0 := by omega
  rw [mpiBody, if_neg hnonneg, natAbs_natCast]

theorem mpiSize_eq : mpiSize n = numBytes n + (if signByte n then 1 else 0) := by
  rw [mpiSize, mpiBody_natCast, length_append, bn2bin_length, Nat.add_comm]
  split <;> rfl

theorem signByte_iff {n k : Nat} (h : numBytes n = k + 1) :
    signByte n = true ↔ 128 * 256 ^ k ≤ n := by
  obtain ⟨hlow, hhigh⟩ := numBytes_eq_iff.mp h
  have hpow : ∀ j, (256 : Nat) ^ j = 2 ^ (8 * j) := fun j => by rw [Nat.pow_mul]
  rw [hpow] at hlow hhigh
  have hgt : 8 * k < Nat.size n := Nat.lt_size.mpr hlow
  have hle : Nat.size n ≤ 8 * (k + 1) := Nat.size_le.mpr hhigh
  have htop : 128 * 256 ^ k = 2 ^ (8 * k + 7) := by rw [hpow, Nat.pow_add, Nat.mul_comm]
  rw [signByte, h, htop, ← Nat.lt_size]
  simp only [Bool.and_eq_true, decide_eq_true_eq]
  omega

theorem mpiSize_le_iff {n k : Nat} : mpiSize n ≤ k ↔ 2 * n < 256 ^ k := by
  rw [mpiSize_eq]
  cases hn : numBytes n with
  | zero =>
    have hzero : n = 0 := by
      have := lt_pow_numBytes n
      rw [hn] at this
      omega
    have hsign : signByte n = false := by rw [signByte, hn]; rfl
    rw [hsign, hzero]
    simp
  | succ j =>
    obtain ⟨hlow, hhigh⟩ := numBytes_eq_iff.mp hn
    have hsign := signByte_iff hn
    rw [Nat.pow_succ] at hhigh
    -- `k` is below, at, or above the place of the first byte
    by_cases hlt : k ≤ j
    · have hpow : 256 ^ k ≤ 256 ^ j := Nat.pow_le_pow_right (by omega) hlt
      omega
    by_cases hk : k = j + 1
    · subst hk
      rw [Nat.pow_succ]
      cases hs : signByte n with
      | true =>
        have := hsign.mp hs
        simp only [if_true]
        omega
      | false =>
        have := mt hsign.mpr (by simp [hs])
        simp only [Bool.false_eq_true, if_false]
        omega
    · have hpow : 256 ^ (j + 2) ≤ 256 ^ k := Nat.pow_le_pow_right (by omega) (by omega)
      rw [Nat.pow_succ, Nat.pow_succ] at hpow
      split <;> omega

/-! ## §4. The first bytes of a number. -/

theorem bin2bn_append (bs bs' : List UInt8) :
    bin2bn (bs ++ bs') = bin2bn bs * 256 ^ bs'.length + bin2bn bs' := by
  have hle : ∀ xs ys : List UInt8,
      ofLEBytes (xs ++ ys) = ofLEBytes xs + 256 ^ xs.length * ofLEBytes ys := by
    intro xs ys
    induction xs with
    | nil => simp [ofLEBytes]
    | cons x xs ih =>
      rw [cons_append, ofLEBytes, ih, ofLEBytes, length_cons, Nat.pow_succ]
      ring
  rw [bin2bn, reverse_append, hle, length_reverse, bin2bn, bin2bn]
  ring

theorem bin2bn_replicate_zero (k : Nat) : bin2bn (replicate k 0) = 0 := by
  induction k with
  | zero => rfl
  | succ k ih =>
    rw [replicate_succ', bin2bn_append, ih]
    rfl

theorem bin2bn_take (bs : List UInt8) (k : Nat) :
    bin2bn ((bs ++ replicate (k - bs.length) 0).take k) =
      bin2bn bs * 256 ^ k / 256 ^ bs.length := by
  by_cases hk : k ≤ bs.length
  · -- bytes are cut off
    have hsplit := bin2bn_append (bs.take k) (bs.drop k)
    have hlt := bin2bn_lt (bs.drop k)
    have hpow : 256 ^ bs.length = 256 ^ (bs.drop k).length * 256 ^ k := by
      rw [length_drop, ← Nat.pow_add, Nat.sub_add_cancel hk]
    rw [take_append_drop] at hsplit
    rw [Nat.sub_eq_zero_of_le hk, replicate_zero, append_nil, hpow,
      Nat.mul_div_mul_right _ _ (Nat.pow_pos (by omega)), hsplit, Nat.mul_comm,
      Nat.mul_add_div (Nat.pow_pos (by omega)), Nat.div_eq_of_lt hlt, Nat.add_zero]
  · have hpow : 256 ^ k = 256 ^ (k - bs.length) * 256 ^ bs.length := by
      rw [← Nat.pow_add, Nat.sub_add_cancel (by omega)]
    rw [take_of_length_le (by simp; omega), bin2bn_append, bin2bn_replicate_zero,
      length_replicate, Nat.add_zero, hpow, ← Nat.mul_assoc,
      Nat.mul_div_cancel _ (Nat.pow_pos (by omega))]

theorem bin2bn_three (x y z : UInt8) :
    bin2bn [x, y, z] = x.toNat * 65536 + y.toNat * 256 + z.toNat := by
  simp only [bin2bn, reverse_cons, reverse_nil, nil_append, cons_append,
    ofLEBytes]
  omega

theorem mpi2bn_cons (b : UInt8) (bs : List UInt8) :
    mpi2bn (b :: bs) = (if b.toNat < 128 then 1 else -1) * (bin2bn ((b &&& 0x7f) :: bs) : Nat) := by
  have hbit : ∀ n, n < 256 → (n &&& 128 = 0 ↔ n < 128) := by decide +kernel
  have hsign : b &&& 0x80 = 0 ↔ b.toNat < 128 := by
    rw [← UInt8.toNat_inj, UInt8.toNat_and]
    exact hbit b.toNat b.toNat_lt
  rw [mpi2bn, bin2bn]
  simp only [hsign]
  split <;> simp

/-- **`SetCompact` as a number**: of every word, the low 23 bits are the first bytes, the bit above
them is the sign, and the highest byte is the size. -/
theorem setCompact_eq (w : UInt32) :
    setCompact w = (if w.toNat / 2 ^ 23 % 2 = 0 then 1 else -1) *
      ((w.toNat % 2 ^ 23 * 256 ^ (w.toNat / 2 ^ 24) / 256 ^ 3 : Nat) : Int) := by
  have hsize : (w >>> 24).toNat = w.toNat / 2 ^ 24 := by
    simp [UInt32.toNat_shiftRight, Nat.shiftRight_eq_div_pow]
  have hb : (w >>> 16).toUInt8.toNat = w.toNat / 2 ^ 16 % 256 := by
    simp [UInt32.toNat_shiftRight, Nat.shiftRight_eq_div_pow]
  have hb1 : (w >>> 8).toUInt8.toNat = w.toNat / 2 ^ 8 % 256 := by
    simp [UInt32.toNat_shiftRight, Nat.shiftRight_eq_div_pow]
  have hb0 : w.toUInt8.toNat = w.toNat % 256 := by simp
  have hmask : ∀ b : UInt8, (b &&& 0x7f).toNat = b.toNat % 128 := by
    intro b
    rw [UInt8.toNat_and]
    exact Nat.and_two_pow_sub_one_eq_mod b.toNat 7
  rw [setCompact, hsize]
  cases hs : w.toNat / 2 ^ 24 with
  | zero =>
    have hsmall : w.toNat % 2 ^ 23 * 256 ^ 0 / 256 ^ 3 = 0 := by omega
    rw [hsmall, take_zero, mpi2bn]
    simp
  | succ k =>
    -- the sign stands in the first byte
    have htake := bin2bn_take [(w >>> 16).toUInt8 &&& 0x7f, (w >>> 8).toUInt8, w.toUInt8] (k + 1)
    rw [bin2bn_three, hmask, hb, hb1, hb0] at htake
    have hlow : w.toNat / 2 ^ 16 % 256 % 128 * 65536 + w.toNat / 2 ^ 8 % 256 * 256 +
        w.toNat % 256 = w.toNat % 2 ^ 23 := by omega
    have hsign : (w >>> 16).toUInt8.toNat < 128 ↔ w.toNat / 2 ^ 23 % 2 = 0 := by
      rw [hb]
      omega
    rw [hlow] at htake
    show mpi2bn (_ :: _) = _
    rw [mpi2bn_cons, ← take_succ_cons]
    simp only [hsign]
    congr 2

theorem bin2bn_mpiBody : bin2bn (mpiBody n) = n := by
  rw [mpiBody_natCast, bin2bn_append, bin2bn_bn2bin]
  cases signByte n <;> simp [bin2bn, ofLEBytes]

theorem ite_or_shift {p : Prop} [Decidable p] {nCompact k : UInt32} {b : UInt8}
    (h : ¬ p → b = 0) :
    (if p then nCompact ||| b.toUInt32 <<< k else nCompact) = nCompact ||| b.toUInt32 <<< k := by
  by_cases hp : p
  · rw [if_pos hp]
  · rw [if_neg hp, h hp]
    apply UInt32.toNat_inj.mp
    simp

theorem getCompact_word {n : Nat} (h : mpiSize n ≤ 255) :
    getCompact n = UInt32.ofNat (mpiSize n) <<< 24 |||
      ((mpiBody n).getD 0 0).toUInt32 <<< 16 ||| ((mpiBody n).getD 1 0).toUInt32 <<< 8 |||
        ((mpiBody n).getD 2 0).toUInt32 <<< 0 := by
  have hheader : ((leBytes 4 (mpiBody n).length).reverse).length = 4 := by
    rw [length_reverse, leBytes_length]
  have hget : ∀ i, (bnBn2mpi n).getD (4 + i) 0 = (mpiBody n).getD i 0 := by
    intro i
    rw [bnBn2mpi, getD_eq_getElem?_getD, getElem?_append_right (by omega), hheader,
      Nat.add_sub_cancel_left, getD_eq_getElem?_getD]
  have hlen : UInt32.ofNat (bnBn2mpi n).length - 4 = UInt32.ofNat (mpiSize n) := by
    rw [bnBn2mpi, length_append, hheader, Nat.add_comm, UInt32.ofNat_add]
    exact UInt32.add_sub_cancel _ _
  have hnone : ∀ (i : Nat) (k : UInt32), k.toNat ≤ i + 1 → ¬ UInt32.ofNat (mpiSize n) ≥ k →
      (mpiBody n).getD i 0 = 0 := by
    intro i k hi hsize
    rw [ge_iff_le, UInt32.not_le, UInt32.lt_iff_toNat_lt,
      UInt32.toNat_ofNat_of_lt' (Nat.lt_of_le_of_lt h (by decide))] at hsize
    rw [getD_eq_getElem?_getD, getElem?_eq_none]
    · rfl
    · show mpiSize n ≤ i
      omega
  rw [getCompact, hlen, hget 0, hget 1, hget 2, ite_or_shift (hnone 0 1 (by decide)),
    ite_or_shift (hnone 1 2 (by decide)), ite_or_shift (hnone 2 3 (by decide))]

theorem or_bytes {a x y z : Nat} (hx : x < 256) (hy : y < 256) (hz : z < 256) :
    2 ^ 24 * a ||| 2 ^ 16 * x ||| 2 ^ 8 * y ||| z = 2 ^ 24 * a + (x * 65536 + y * 256 + z) := by
  have hfirst : 2 ^ 24 * a ||| 2 ^ 16 * x = 2 ^ 16 * (256 * a + x) := by
    rw [← Nat.two_pow_add_eq_or_of_lt (by omega)]
    omega
  have hsecond : 2 ^ 16 * (256 * a + x) ||| 2 ^ 8 * y = 2 ^ 8 * (65536 * a + 256 * x + y) := by
    rw [← Nat.two_pow_add_eq_or_of_lt (by omega)]
    omega
  rw [hfirst, hsecond, ← Nat.two_pow_add_eq_or_of_lt (by omega)]
  omega

theorem getCompact_eq {n : Nat} (h : mpiSize n ≤ 255) :
    (getCompact n).toNat = mpiSize n * 2 ^ 24 + n * 256 ^ 3 / 256 ^ mpiSize n := by
  have hthree : ∀ bs : List UInt8, (bs ++ replicate (3 - bs.length) 0).take 3 =
      [bs.getD 0 0, bs.getD 1 0, bs.getD 2 0] := by
    intro bs
    match bs with
    | [] => rfl
    | [_] => rfl
    | [_, _] => rfl
    | _ :: _ :: _ :: _ => simp
  have hbytes := bin2bn_take (mpiBody n) 3
  rw [hthree, bin2bn_three, bin2bn_mpiBody] at hbytes
  have hx := ((mpiBody n).getD 0 0).toNat_lt
  have hy := ((mpiBody n).getD 1 0).toNat_lt
  have hz := ((mpiBody n).getD 2 0).toNat_lt
  have hshift : ∀ (m k : Nat), m < 256 → k ≤ 24 → m <<< k % 2 ^ 32 = 2 ^ k * m := by
    intro m k hm hk
    have hpow : 2 ^ k ≤ 2 ^ 24 := Nat.pow_le_pow_right (by omega) hk
    have hmul : 2 ^ k * m ≤ 2 ^ 24 * 255 := Nat.mul_le_mul hpow (by omega)
    rw [Nat.shiftLeft_eq, Nat.mul_comm, Nat.mod_eq_of_lt (by omega)]
  rw [getCompact_word h]
  show _ = _ + n * 256 ^ 3 / 256 ^ (mpiBody n).length
  rw [← hbytes, Nat.mul_comm, ← or_bytes hx hy hz]
  simp only [UInt32.toNat_or, UInt32.toNat_shiftLeft, UInt8.toNat_toUInt32]
  rw [UInt32.toNat_ofNat_of_lt' (Nat.lt_of_le_of_lt h (by decide))]
  show mpiSize n <<< 24 % 2 ^ 32 ||| ((mpiBody n).getD 0 0).toNat <<< 16 % 2 ^ 32 |||
    ((mpiBody n).getD 1 0).toNat <<< 8 % 2 ^ 32 ||| ((mpiBody n).getD 2 0).toNat <<< 0 % 2 ^ 32 = _
  rw [hshift _ 24 (by omega) (by omega), hshift _ 16 hx (by omega), hshift _ 8 hy (by omega),
    hshift _ 0 hz (by omega), Nat.pow_zero, Nat.one_mul]

/-! ## §5. There and back. -/

/-- Numbers in the format, cut to their first three bytes. -/
def mpiScale : Significand where
  b := 256
  c := 2
  p := 3
  one_lt := by omega
  dvd := ⟨128, rfl⟩
  two_le := by omega
  size := mpiSize
  size_le_iff _ _ := mpiSize_le_iff

theorem mpiScale_size : mpiScale.size n = mpiSize n := rfl

theorem mpiScale_round : mpiScale.round n = n / 256 ^ (mpiSize n - 3) * 256 ^ (mpiSize n - 3) := rfl

theorem firstBytes_eq {n s : Nat} :
    (n * 256 ^ 3 / 256 ^ s) * 256 ^ s / 256 ^ 3 = n / 256 ^ (s - 3) * 256 ^ (s - 3) ∧
      (n / 256 ^ (s - 3) * 256 ^ (s - 3)) * 256 ^ 3 / 256 ^ s = n * 256 ^ 3 / 256 ^ s := by
  by_cases hs : 3 ≤ s
  · have hpow : (256 : Nat) ^ s = 256 ^ (s - 3) * 256 ^ 3 := by
      rw [← Nat.pow_add, Nat.sub_add_cancel hs]
    have hpos : 0 < (256 : Nat) ^ (s - 3) := Nat.pow_pos (by omega)
    rw [hpow, Nat.mul_div_mul_right _ _ (by omega), Nat.mul_div_mul_right _ _ (by omega),
      ← Nat.mul_assoc, Nat.mul_div_cancel _ (by omega), Nat.mul_div_cancel _ hpos]
    exact ⟨rfl, rfl⟩
  · have hpow : (256 : Nat) ^ 3 = 256 ^ (3 - s) * 256 ^ s := by
      rw [← Nat.pow_add, Nat.sub_add_cancel (by omega)]
    have hpos : 0 < (256 : Nat) ^ s := Nat.pow_pos (by omega)
    have hpos' : 0 < (256 : Nat) ^ (3 - s) := Nat.pow_pos (by omega)
    rw [Nat.sub_eq_zero_of_le (by omega), Nat.pow_zero, Nat.div_one, Nat.mul_one, hpow,
      ← Nat.mul_assoc, Nat.mul_div_cancel _ hpos, Nat.mul_assoc,
      Nat.mul_div_cancel _ (Nat.mul_pos hpos' hpos)]
    exact ⟨rfl, rfl⟩

/-- **There and back**: the first three bytes are left. -/
theorem setCompact_getCompact {n : Nat} (h : mpiSize n ≤ 255) :
    setCompact (getCompact n) = (mpiScale.round n : Nat) := by
  have hfit : n * 256 ^ 3 / 256 ^ mpiSize n < 2 ^ 23 := by
    rw [Nat.div_lt_iff_lt_mul (Nat.pow_pos (by omega))]
    have := (mpiSize_le_iff (n := n)).mp (Nat.le_refl _)
    omega
  -- the fields of a word
  have hfields : ∀ s m, m < 2 ^ 23 → (s * 2 ^ 24 + m) / 2 ^ 23 % 2 = 0 ∧
      (s * 2 ^ 24 + m) % 2 ^ 23 = m ∧ (s * 2 ^ 24 + m) / 2 ^ 24 = s := by
    intro s m hm
    omega
  obtain ⟨hsign, hbytes, hsize⟩ := hfields (mpiSize n) _ hfit
  rw [setCompact_eq, getCompact_eq h, hsign, hbytes, hsize, firstBytes_eq.1, if_pos rfl,
    one_mul, mpiScale_round]

theorem getCompact_round {n : Nat} (h : mpiSize n ≤ 255) :
    getCompact (mpiScale.round n : Nat) = getCompact n := by
  have hsize := mpiScale.size_round n
  rw [mpiScale_size, mpiScale_size] at hsize
  apply UInt32.toNat_inj.mp
  rw [getCompact_eq (by rw [hsize]; exact h), getCompact_eq h, hsize]
  exact congrArg _ firstBytes_eq.2

theorem round_setCompact {w : UInt32} {t : Nat} (h : setCompact w = t) :
    mpiSize t ≤ 255 ∧ mpiScale.round t = t := by
  have hw : w.toNat / 2 ^ 24 ≤ 255 := by
    have := w.toNat_lt
    omega
  have hmag : t = w.toNat % 2 ^ 23 * 256 ^ (w.toNat / 2 ^ 24) / 256 ^ 3 := by
    have habs := congrArg Int.natAbs (setCompact_eq w)
    rw [h, natAbs_mul, natAbs_natCast, natAbs_natCast] at habs
    split at habs <;> simpa using habs
  have hm : w.toNat % 2 ^ 23 < 2 ^ 23 := Nat.mod_lt _ (by omega)
  generalize w.toNat % 2 ^ 23 = m at hmag hm
  generalize w.toNat / 2 ^ 24 = s at hmag hw
  -- the size of the number is not above the one in the word
  have hsize : mpiSize t ≤ s := by
    rw [mpiSize_le_iff]
    have hpow : 0 < 256 ^ s := Nat.pow_pos (by omega)
    have hle : t * 256 ^ 3 ≤ m * 256 ^ s := by
      rw [hmag]
      exact Nat.div_mul_le_self _ _
    have hlt : m * 256 ^ s < 2 ^ 23 * 256 ^ s := Nat.mul_lt_mul_of_pos_right hm hpow
    omega
  refine ⟨Nat.le_trans hsize hw, ?_⟩
  by_cases hs : 3 ≤ s
  · -- the number ends in as many zeros as the word says
    apply mpiScale.round_of_dvd
    have hpow : (256 : Nat) ^ s = 256 ^ (s - 3) * 256 ^ 3 := by
      rw [← Nat.pow_add, Nat.sub_add_cancel hs]
    rw [hpow, ← Nat.mul_assoc, Nat.mul_div_cancel _ (by omega)] at hmag
    rw [hmag]
    apply Dvd.dvd.mul_left
    exact Nat.pow_dvd_pow 256 (by rw [← hmag]; exact Nat.sub_le_sub_right hsize 3)
  · exact mpiScale.round_of_le (Nat.le_trans hsize (by show s ≤ 3; omega))

theorem setCompact_getCompact_self {w : UInt32} {t : Nat} (h : setCompact w = t) :
    setCompact (getCompact t) = t := by
  obtain ⟨hfit, hround⟩ := round_setCompact h
  rw [setCompact_getCompact hfit, hround]

theorem bnMpi2bn_setCompactVch (w : UInt32) :
    bnMpi2bn (setCompactVch w) = some (setCompact w) := by
  have hbyte : ∀ x : UInt32, (x &&& 0xff).toUInt8 = x.toUInt8 := by
    intro x
    apply UInt8.toNat_inj.mp
    rw [UInt32.toNat_toUInt8, UInt32.toNat_and, UInt32.toNat_toUInt8]
    show (x.toNat &&& 2 ^ 8 - 1) % 2 ^ 8 = _
    rw [Nat.and_two_pow_sub_one_eq_mod, Nat.mod_mod]
  have hlt : (w >>> 24).toNat < 256 := by
    rw [UInt32.toNat_shiftRight]
    show w.toNat >>> 24 < 256
    rw [Nat.shiftRight_eq_div_pow]
    have := w.toNat_lt
    omega
  have hlow : (w >>> 24).toUInt8.toNat = (w >>> 24).toNat := by
    rw [UInt32.toNat_toUInt8]
    omega
  have hge : ∀ k : UInt32, w >>> 24 ≥ k ↔ k.toNat ≤ (w >>> 24).toNat :=
    fun _ => UInt32.le_iff_toNat_le
  -- the length in front is that of what follows
  have hvch : setCompactVch w = ([0, 0, 0, (w >>> 24).toUInt8] : List UInt8) ++
      ([(w >>> 16).toUInt8, (w >>> 8).toUInt8, w.toUInt8] ++
        replicate ((w >>> 24).toNat - 3) 0).take (w >>> 24).toNat := by
    rw [setCompactVch]
    simp only [hge, hbyte, UInt32.shiftRight_zero]
    match (w >>> 24).toNat with
    | 0 => rfl
    | 1 => rfl
    | 2 => rfl
    | k + 3 =>
      have htake : (replicate k (0 : UInt8)).take k = replicate k 0 :=
        take_of_length_le (by simp)
      simp [replicate_succ, show 4 + (k + 3) = k + 7 by omega, htake]
  have hcount : bin2bn [0, 0, 0, (w >>> 24).toUInt8] = (w >>> 24).toNat := by
    simp [bin2bn, ofLEBytes, hlow]
  have hlen : (([(w >>> 16).toUInt8, (w >>> 8).toUInt8, w.toUInt8] ++
      replicate ((w >>> 24).toNat - 3) 0).take (w >>> 24).toNat).length =
        (w >>> 24).toNat := by
    rw [length_take, length_append, length_replicate]
    simp only [length_cons, length_nil]
    omega
  have hheader : ([0, 0, 0, (w >>> 24).toUInt8] : List UInt8).length = 4 := rfl
  rw [hvch, bnMpi2bn, length_append, hlen, take_left' hheader, drop_left' hheader,
    hcount, hheader, if_neg (by omega), if_neg (by omega)]
  rfl

/-! ## §6. Compact targets. -/

theorem mpiSize_sub_three :
    mpiSize n - 3 = if signByte n then numBytes n - 2 else numBytes n - 3 := by
  rw [mpiSize_eq]
  cases signByte n <;> simp

/-- **Compact targets**: a number of at most 255 bytes loses what stands behind its first three
bytes, and nothing more on a second conversion; conversions keep the order; every word stands for a
number. -/
theorem compact_exact :
    (∀ n : Nat, mpiSize n ≤ 255 →
      setCompact (getCompact n) ≤ n ∧
      setCompact (getCompact n) = (n / 256 ^ (mpiSize n - 3) * 256 ^ (mpiSize n - 3) : Nat) ∧
      (n : Int) - setCompact (getCompact n) <
        256 ^ (if signByte n then numBytes n - 2 else numBytes n - 3) ∧
      getCompact (setCompact (getCompact n)) = getCompact n ∧
      ∀ m ≤ n, setCompact (getCompact m) ≤ setCompact (getCompact n)) ∧
    ∀ nCompact, bnMpi2bn (setCompactVch nCompact) = some (setCompact nCompact) := by
  refine ⟨?_, bnMpi2bn_setCompactVch⟩
  intro n h
  have hback := setCompact_getCompact h
  refine ⟨?_, ?_, ?_, ?_, ?_⟩
  · rw [hback]
    exact ofNat_le.mpr (mpiScale.round_le n)
  · rw [hback, mpiScale_round]
  · have hlost : n < mpiScale.round n + 256 ^ (mpiSize n - 3) := mpiScale.lt_round_add n
    rw [hback, ← mpiSize_sub_three]
    have hcast : (256 : Int) ^ (mpiSize n - 3) = (256 ^ (mpiSize n - 3) : Nat) := by push_cast; rfl
    rw [hcast]
    omega
  · rw [hback, getCompact_round h]
  · intro m hm
    have hm255 : mpiSize m ≤ 255 := Nat.le_trans (mpiScale.size_mono hm) h
    rw [hback, setCompact_getCompact hm255]
    exact ofNat_le.mpr (mpiScale.round_mono hm)

/-- A number with a byte for its sign keeps two of its own. -/
theorem compact_exact_signByte :
    signByte 0x80123456 = true ∧
      setCompact (getCompact (0x80123456 : Nat)) = (0x80120000 : Nat) ∧
      getCompact (setCompact (getCompact (0x80123456 : Nat))) = getCompact (0x80123456 : Nat) := by
  have hfits : mpiSize 0x80123456 ≤ 255 := by decide +kernel
  obtain ⟨-, hbytes, -, hagain, -⟩ := compact_exact.1 0x80123456 hfits
  refine ⟨by decide +kernel, ?_, hagain⟩
  rw [hbytes]
  decide +kernel

end Fantom.Core
