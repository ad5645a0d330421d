/-
  Fantom.InstantX.ValueCap — What the two sums of `IsIXTXValid` say about a lock request.

  * `value_capped_iff` — `true` means what it says unless a total leaves the range of `int64_t` and
    comes back looking covered.

  Only the totals matter: partial sums may overflow and return on the way.
-/
import Fantom.InstantX.Model

namespace Fantom.InstantX

open Core Lib Spork List Bool Int

/-! ## §1. Wrapped sums. -/

theorem toInt_sum (l : List Int64) : l.sum.toInt = (l.map Int64.toInt).sum.bmod (2 ^ 64) := by
  induction l with
  | nil => rfl
  | cons x l ih =>
    rw [sum_cons, map_cons, sum_cons, Int64.toInt_add, ih, add_bmod_bmod]

theorem le_of_bmod_le {x bound : Int} (hbound : bound < 2 ^ 63) (h : x.bmod (2 ^ 64) ≤ bound) :
    x ≤ bound ↔ x < 2 ^ 63 := by
  constructor
  · intro hle
    omega
  · intro hlt
    rw [bmod_def] at h
    omega

theorem le_of_le_bmod {x bound : Int} (hbound : -(2 ^ 63) ≤ bound) (h : bound ≤ x.bmod (2 ^ 64)) :
    bound ≤ x ↔ -(2 ^ 63) ≤ x := by
  constructor
  · intro hle
    omega
  · intro hge
    rw [bmod_def] at h
    omega

/-! ## §2. The sums of a lock request. -/

variable {C : Crypto} (env : IXEnv C) (tx : CTransaction)

/-- The value of the output that an input spends: nothing where there is no such
output. -/
def inputValue (txin : CTxIn) : Int64 :=
  (((env.getTransaction txin.prevout.hash).bind fun tx2 =>
    tx2.vout[txin.prevout.n.toNat]?).map CTxOut.nValue).getD 0

def exactValueOut : Int := (tx.vout.map fun o => o.nValue.toInt).sum

def exactValueIn : Int := (tx.vin.map fun txin => (inputValue env txin).toInt).sum

/-- `GetSporkValue(SPORK_5_MAX_VALUE)*COIN`, exactly. -/
def maxValue : Int :=
  (getSporkValue env.mapSporksActive SPORK_5_MAX_VALUE).toInt * COIN.toInt

def InputsKnown : Prop := ∀ txin ∈ tx.vin, (env.getTransaction txin.prevout.hash).isSome = true

/-- The cap holds for the exact sums, and the fee is paid. -/
def ValueCapped : Prop :=
  exactValueOut tx ≤ maxValue env ∧ 1000000 ≤ exactValueIn env tx - exactValueOut tx

/-- A total leaves the range of `int64_t`: the outputs upwards, or the fee downwards. -/
def TotalOverflows : Prop :=
  2 ^ 63 ≤ exactValueOut tx ∨ exactValueIn env tx - exactValueOut tx < -(2 ^ 63)

/-- The totals look covered modulo `2^64`. -/
def ResiduesCovered : Prop :=
  (exactValueOut tx).bmod (2 ^ 64) ≤ maxValue env ∧
    1000000 ≤ (exactValueIn env tx - exactValueOut tx).bmod (2 ^ 64)

/-- The tests of `IsIXTXValid` that come before the sums. -/
def Countable : Prop := tx.vout ≠ [] ∧ tx.nLockTime = 0

/-! ## §3. The answer of `IsIXTXValid`. -/

theorem maxValue_eq :
    ((getSporkValue env.mapSporksActive SPORK_5_MAX_VALUE).toInt64 * COIN).toInt = maxValue env ∧
      maxValue env < 2 ^ 63 := by
  have hcoin : COIN.toInt = 100000000 := rfl
  have hlow := Int32.le_toInt (getSporkValue env.mapSporksActive SPORK_5_MAX_VALUE)
  have hhigh := Int32.toInt_lt (getSporkValue env.mapSporksActive SPORK_5_MAX_VALUE)
  rw [maxValue, Int64.toInt_mul, Int32.toInt_toInt64, hcoin]
  exact ⟨bmod_eq_of_le (by omega) (by omega), by omega⟩

variable {env tx}

theorem isIXTXValid_known (hknown : InputsKnown env tx) (hcountable : Countable tx) :
    isIXTXValid env tx = true ↔
      (tx.vout.map CTxOut.nValue).sum ≤
          (getSporkValue env.mapSporksActive SPORK_5_MAX_VALUE).toInt64 * COIN ∧
        COIN / 100 ≤ (tx.vin.map (inputValue env)).sum - (tx.vout.map CTxOut.nValue).sum := by
  obtain ⟨hvout, hlock⟩ := hcountable
  have hlength : ¬ tx.vout.length < 1 := by
    have := length_pos_iff.mpr hvout
    omega
  have hvalue : ∀ txin ∈ tx.vin,
      ((env.getTransaction txin.prevout.hash).map fun tx2 =>
        (tx2.vout[txin.prevout.n.toNat]?.map CTxOut.nValue).getD 0) =
          some (inputValue env txin) := by
    intro txin htxin
    obtain ⟨tx2, htx2⟩ := Option.isSome_iff_exists.mp (hknown txin htxin)
    rw [inputValue, htx2]
    rfl
  rw [isIXTXValid, if_neg hlength, if_neg (not_not_intro hlock)]
  dsimp only
  rw [map_congr_left hvalue, map_map, any_map]
  have hnone : (tx.vin.any (Option.isNone ∘ fun txin => some (inputValue env txin))) = false :=
    any_eq_false.mpr fun _ _ => false_ne_true
  rw [hnone]
  simp only [Function.comp_def, Option.getD_some]
  split
  next hhigh =>
    exact ⟨fun h => (false_ne_true h).elim, fun h => absurd h.1 (Int64.not_le.mpr hhigh)⟩
  next hlow =>
    simp only [false_eq_true, if_false, not_eq_true', decide_eq_false_iff_not,
      Int64.not_lt]
    exact ⟨fun h => ⟨Int64.not_lt.mp hlow, h⟩, fun h => h.2⟩

/-- **`IsIXTXValid` reads the totals modulo `2^64`.** -/
theorem isIXTXValid_iff (hknown : InputsKnown env tx) (hcountable : Countable tx) :
    isIXTXValid env tx = true ↔ ResiduesCovered env tx := by
  have hfee : (COIN / 100).toInt = 1000000 := rfl
  have hout : ((tx.vout.map CTxOut.nValue).sum).toInt = (exactValueOut tx).bmod (2 ^ 64) := by
    rw [toInt_sum, map_map]
    rfl
  have hin : ((tx.vin.map (inputValue env)).sum).toInt = (exactValueIn env tx).bmod (2 ^ 64) := by
    rw [toInt_sum, map_map]
    rfl
  rw [isIXTXValid_known hknown hcountable, Int64.le_iff_toInt_le, Int64.le_iff_toInt_le,
    (maxValue_eq env).1, Int64.toInt_sub, hfee, hout, hin, bmod_sub_bmod, sub_bmod_bmod]
  exact Iff.rfl

theorem countable_of_valid (h : isIXTXValid env tx = true) : Countable tx := by
  unfold isIXTXValid at h
  split at h
  next => cases h
  next hlength =>
    split at h
    next => cases h
    next hlock =>
      refine ⟨?_, not_not.mp hlock⟩
      rintro hnil
      rw [hnil] at hlength
      exact hlength Nat.zero_lt_one

/-- **The cap is real exactly when no total overflows into a covered residue.** -/
theorem value_capped_iff (C : Crypto) (env : IXEnv C) (tx : CTransaction)
    (hknown : InputsKnown env tx) :
    (isIXTXValid env tx = true → ValueCapped env tx) ↔
      ¬ (Countable tx ∧ TotalOverflows env tx ∧ ResiduesCovered env tx) := by
  -- covered residues and exact totals part only where a total overflows
  have hexact : ResiduesCovered env tx → (ValueCapped env tx ↔ ¬ TotalOverflows env tx) := by
    rintro ⟨hcap, hfee⟩
    unfold ValueCapped TotalOverflows
    rw [le_of_bmod_le (maxValue_eq env).2 hcap, le_of_le_bmod (by omega) hfee]
    omega
  constructor
  · rintro hcapped ⟨hcountable, hoverflow, hcovered⟩
    exact (hexact hcovered).mp (hcapped ((isIXTXValid_iff hknown hcountable).mpr hcovered)) hoverflow
  · intro hno hvalid
    have hcountable := countable_of_valid hvalid
    have hcovered := (isIXTXValid_iff hknown hcountable).mp hvalid
    exact (hexact hcovered).mpr fun hoverflow => hno ⟨hcountable, hoverflow, hcovered⟩

/-! ## §4. A request that is worth more than all coins. -/

def sampleCapEnv (nValue : Int64) : IXEnv sampleCrypto :=
  { sampleIXEnv 0 true with getTransaction := fun _ => some (sampleTx ⟨1, 0⟩ nValue) }

def sampleCapRequest (values : List Int64) : CTransaction :=
  { sampleTx ⟨71, 0⟩ 0 with vout := values.map fun nValue => ⟨nValue, -10, []⟩ }

/-- Two coins of three are sent: the request is valid, and below the cap. -/
theorem sample_value_capped :
    isIXTXValid (sampleCapEnv (3 * COIN)) (sampleCapRequest [COIN, COIN]) = true ∧
      ValueCapped (sampleCapEnv (3 * COIN)) (sampleCapRequest [COIN, COIN]) := by
  have hvalid : isIXTXValid (sampleCapEnv (3 * COIN)) (sampleCapRequest [COIN, COIN]) = true := by
    decide +kernel
  refine ⟨hvalid, (value_capped_iff sampleCrypto _ _ fun _ _ => rfl).mpr ?_ hvalid⟩
  rintro ⟨-, hoverflow, -⟩
  revert hoverflow
  unfold TotalOverflows
  decide +kernel

/-- Two outputs of `2^63 - 1` and one of two add up to zero. -/
theorem outputs_wrap_to_nothing :
    InputsKnown (sampleCapEnv COIN)
        (sampleCapRequest [9223372036854775807, 9223372036854775807, 2]) ∧
      ¬ (isIXTXValid (sampleCapEnv COIN)
            (sampleCapRequest [9223372036854775807, 9223372036854775807, 2]) = true →
          ValueCapped (sampleCapEnv COIN)
            (sampleCapRequest [9223372036854775807, 9223372036854775807, 2])) := by
  refine ⟨fun _ _ => rfl, fun h => ?_⟩
  have hcapped := h (by decide +kernel)
  have hout : exactValueOut (sampleCapRequest [9223372036854775807, 9223372036854775807, 2]) =
      2 ^ 64 := by decide +kernel
  have hmax := (maxValue_eq (sampleCapEnv COIN)).2
  have hle := hcapped.1
  rw [hout] at hle
  omega

end Fantom.InstantX
