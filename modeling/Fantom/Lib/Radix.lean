/-
  Fantom.Lib.Radix — Numbers as bytes, the highest digit first, in any base up to 256.

  * `digits`, `value_digits`, `digits_value` — the shortest digits of a number; digits are zeros and
    the shortest ones,
  * `mulAdd`, `mulAdd_value` — a buffer of digits times a factor, plus a digit, with the carry that
    does not fit,
  * `Room`, `room_replicate` — how many digits are enough after a change of base.

  Numbers in two's complement:

  * `TwosComplement.minimal_iff` — for a number that is not negative: its sign bit is clear, and no
    zero in front is in excess.

  Numbers cut to their leading digits:

  * `round_le`, `lt_round_add` — what is lost,
  * `size_round`, `round_mono` — a number that is cut keeps its size, and stays in order with
    others.

  And the decimal text of signed integers, with the ways it can be cut into such texts:

  * `append_mark_inj` — the one way to cut at the first mark.
-/
import Mathlib.Algebra.Order.Ring.Nat
import Mathlib.Data.List.Basic
import Mathlib.Data.Nat.Digits.Lemmas
import Mathlib.Tactic.Common

namespace Fantom.Lib

/-! ## Without a sign. -/

namespace Radix

/-! ## §1. Values. -/

/-- The number that digits in base `b` spell. -/
def value (b : Nat) (ds : List UInt8) : Nat := Nat.ofDigits b (ds.reverse.map UInt8.toNat)

/-- Every digit is one in base `b`. -/
def Digits (b : Nat) (ds : List UInt8) : Prop := ∀ d ∈ ds, d.toNat < b

variable {b : Nat} {d e : UInt8} {ds es : List UInt8}

@[simp] theorem value_nil (b : Nat) : value b [] = 0 := rfl

theorem value_cons (b : Nat) (d : UInt8) (ds : List UInt8) :
    value b (d :: ds) = d.toNat * b ^ ds.length + value b ds := by
  unfold value
  rw [List.reverse_cons, List.map_append, Nat.ofDigits_append, List.length_map,
    List.length_reverse, List.map_singleton, Nat.ofDigits_singleton, Nat.mul_comm, Nat.add_comm]

@[simp] theorem value_zero_cons (b : Nat) (ds : List UInt8) :
    value b (0 :: ds) = value b ds := by
  rw [value_cons, UInt8.toNat_zero, Nat.zero_mul, Nat.zero_add]

theorem value_append (b : Nat) (ds es : List UInt8) :
    value b (ds ++ es) = value b ds * b ^ es.length + value b es := by
  unfold value
  rw [List.reverse_append, List.map_append, Nat.ofDigits_append, List.length_map,
    List.length_reverse, Nat.mul_comm, Nat.add_comm]

theorem digits_bytes (bs : List UInt8) : Digits 256 bs := fun d _ => d.toNat_lt

theorem digits_cons : Digits b (d :: ds) ↔ d.toNat < b ∧ Digits b ds := List.forall_mem_cons

theorem value_lt (h : Digits b ds) : value b ds < b ^ ds.length := by
  induction ds with
  | nil => exact Nat.one_pos
  | cons d ds ih =>
    obtain ⟨hd, hds⟩ := digits_cons.mp h
    rw [value_cons, List.length_cons, Nat.pow_succ, Nat.mul_comm (b ^ ds.length)]
    calc d.toNat * b ^ ds.length + value b ds
        < d.toNat * b ^ ds.length + b ^ ds.length := Nat.add_lt_add_left (ih hds) _
      _ = (d.toNat + 1) * b ^ ds.length := (Nat.succ_mul _ _).symm
      _ ≤ b * b ^ ds.length := Nat.mul_le_mul_right _ hd

theorem value_cons_lt (hlen : ds.length = es.length) (hds : Digits b ds)
    (h : d < e) : value b (d :: ds) < value b (e :: es) := by
  have hlt := value_lt hds
  have hle : d.toNat + 1 ≤ e.toNat := h
  rw [value_cons, value_cons, ← hlen]
  calc d.toNat * b ^ ds.length + value b ds
      < d.toNat * b ^ ds.length + b ^ ds.length := Nat.add_lt_add_left hlt _
    _ = (d.toNat + 1) * b ^ ds.length := (Nat.succ_mul _ _).symm
    _ ≤ e.toNat * b ^ ds.length := Nat.mul_le_mul_right _ hle
    _ ≤ e.toNat * b ^ ds.length + value b es := Nat.le_add_right _ _

theorem pow_le_value (h : d ≠ 0) (ds : List UInt8) : b ^ ds.length ≤ value b (d :: ds) := by
  have hpos : 0 < d.toNat := Nat.pos_of_ne_zero fun hzero => h (UInt8.toNat_inj.mp hzero)
  rw [value_cons]
  exact (Nat.le_mul_of_pos_left _ hpos).trans (Nat.le_add_right _ _)

theorem eq_of_value_eq (hlen : ds.length = es.length) (hds : Digits b ds) (hes : Digits b es)
    (h : value b ds = value b es) : ds = es := by
  induction ds generalizing es with
  | nil => exact (List.eq_nil_of_length_eq_zero hlen.symm).symm
  | cons d ds ih =>
    cases es with
    | nil => cases hlen
    | cons e es =>
      have hlen' : ds.length = es.length := Nat.succ.inj hlen
      obtain ⟨_, hds'⟩ := digits_cons.mp hds
      obtain ⟨_, hes'⟩ := digits_cons.mp hes
      rcases Nat.lt_trichotomy d.toNat e.toNat with hlt | heq | hgt
      · exact absurd h (value_cons_lt hlen' hds' (UInt8.lt_iff_toNat_lt.mpr hlt)).ne
      · obtain rfl := UInt8.toNat_inj.mp heq
        rw [value_cons, value_cons, hlen'] at h
        rw [ih hlen' hds' hes' (Nat.add_left_cancel h)]
      · exact absurd h (value_cons_lt hlen'.symm hes' (UInt8.lt_iff_toNat_lt.mpr hgt)).ne'

/-! ## §2. The shortest digits. -/

/-- The digits of `n` without zeros in front. -/
def digits (b n : Nat) : List UInt8 := ((Nat.digits b n).map UInt8.ofNat).reverse

def dropZeros (ds : List UInt8) : List UInt8 := ds.dropWhile (· == 0)

@[simp] theorem dropZeros_zero_cons (ds : List UInt8) : dropZeros (0 :: ds) = dropZeros ds := rfl

theorem dropZeros_cons (h : d ≠ 0) (ds : List UInt8) : dropZeros (d :: ds) = d :: ds :=
  List.dropWhile_cons_of_neg (by simpa using h)

theorem dropZeros_subset (ds : List UInt8) : dropZeros ds ⊆ ds := (List.dropWhile_suffix _).subset

theorem value_dropZeros (b : Nat) (ds : List UInt8) : value b (dropZeros ds) = value b ds := by
  induction ds with
  | nil => rfl
  | cons d ds ih =>
    by_cases hd : d = 0
    · subst hd
      rw [dropZeros_zero_cons, ih, value_zero_cons]
    · rw [dropZeros_cons hd]

theorem dropZeros_head_ne (ds : List UInt8) : (dropZeros ds).head? ≠ some 0 := by
  intro h
  have hnot := List.head?_dropWhile_not (· == (0 : UInt8)) ds
  rw [show (ds.dropWhile (· == 0)).head? = some 0 from h] at hnot
  exact absurd hnot (by decide)

variable (hb : 1 < b) (hb' : b ≤ 256)

include hb hb' in
theorem digits_digits (n : Nat) : Digits b (digits b n) := by
  intro d hd
  obtain ⟨k, hk, rfl⟩ := List.mem_map.mp (List.mem_reverse.mp hd)
  have hlt := Nat.digits_lt_base hb hk
  rw [UInt8.toNat_ofNat_of_lt' (by have : UInt8.size = 256 := rfl; omega)]
  exact hlt

include hb hb' in
theorem value_digits (n : Nat) : value b (digits b n) = n := by
  unfold value digits
  rw [List.reverse_reverse, List.map_map]
  have hid : (Nat.digits b n).map (UInt8.toNat ∘ UInt8.ofNat) = (Nat.digits b n).map id := by
    refine List.map_congr_left fun k hk => ?_
    have hlt := Nat.digits_lt_base hb hk
    exact UInt8.toNat_ofNat_of_lt' (by have : UInt8.size = 256 := rfl; omega)
  rw [hid, List.map_id, Nat.ofDigits_digits]

include hb in
/-- **Digits are the shortest ones behind zeros.** -/
theorem digits_value (h : Digits b ds) : digits b (value b ds) = dropZeros ds := by
  rw [← value_dropZeros]
  have hds : Digits b (dropZeros ds) := fun d hd => h d (dropZeros_subset ds hd)
  have hhead := dropZeros_head_ne ds
  unfold digits value
  rw [Nat.digits_ofDigits b hb]
  · rw [List.map_map, ← List.map_reverse, List.reverse_reverse]
    calc (dropZeros ds).map (UInt8.ofNat ∘ UInt8.toNat)
        = (dropZeros ds).map id := List.map_congr_left fun d _ => UInt8.ofNat_toNat
      _ = dropZeros ds := List.map_id _
  · intro k hk
    obtain ⟨d, hd, rfl⟩ := List.mem_map.mp hk
    exact hds d (List.mem_reverse.mp hd)
  · intro hne hzero
    rw [List.getLast_map, List.getLast_reverse] at hzero
    have hfirst : (dropZeros ds).head (by simpa using hne) = 0 := UInt8.toNat_inj.mp hzero
    rw [List.head?_eq_some_head (by simpa using hne), hfirst] at hhead
    exact hhead rfl

include hb hb' in
theorem digits_head_ne (n : Nat) : (digits b n).head? ≠ some 0 := by
  have hself := digits_value hb (digits_digits hb hb' n)
  rw [value_digits hb hb'] at hself
  rw [hself]
  exact dropZeros_head_ne _

theorem dropZeros_eq_self (h : ds.head? ≠ some 0) : dropZeros ds = ds := by
  cases ds with
  | nil => rfl
  | cons d ds => exact dropZeros_cons (fun hd => h (congrArg some hd)) ds

/-! ## §3. A buffer of digits. -/

/-- `ds` times `m`, plus `carry`, from the lowest digit up: the digits, and what is carried out of
the highest. -/
def mulAdd (b m : Nat) : List UInt8 → Nat → List UInt8 × Nat
  | [], carry => ([], carry)
  | d :: ds, carry =>
    let low := mulAdd b m ds carry
    let carry := low.2 + m * d.toNat
    (UInt8.ofNat (carry % b) :: low.1, carry / b)

theorem mulAdd_length (b m : Nat) (ds : List UInt8) (carry : Nat) :
    (mulAdd b m ds carry).1.length = ds.length := by
  induction ds with
  | nil => rfl
  | cons d ds ih =>
    dsimp only [mulAdd]
    rw [List.length_cons, List.length_cons, ih]

include hb hb' in
theorem toNat_ofNat_mod (n : Nat) : (UInt8.ofNat (n % b)).toNat = n % b := by
  have hlt : n % b < b := Nat.mod_lt n (by omega)
  have hsize : UInt8.size = 256 := rfl
  exact UInt8.toNat_ofNat_of_lt' (by omega)

include hb hb' in
theorem mulAdd_digits (m : Nat) (ds : List UInt8) (carry : Nat) :
    Digits b (mulAdd b m ds carry).1 := by
  induction ds with
  | nil => exact List.forall_mem_nil _
  | cons d ds ih =>
    refine digits_cons.mpr ⟨?_, ih⟩
    rw [toNat_ofNat_mod hb hb']
    exact Nat.mod_lt _ (by omega)

include hb hb' in
/-- **Nothing is lost**: the digits and what is carried out of them are the result. -/
theorem mulAdd_value (m : Nat) (ds : List UInt8) (carry : Nat) :
    value b (mulAdd b m ds carry).1 + (mulAdd b m ds carry).2 * b ^ ds.length =
      m * value b ds + carry := by
  induction ds with
  | nil => simp [mulAdd]
  | cons d ds ih =>
    dsimp only [mulAdd]
    rw [value_cons, value_cons, mulAdd_length, toNat_ofNat_mod hb hb', List.length_cons]
    generalize mulAdd b m ds carry = low at ih ⊢
    have hdiv := Nat.mod_add_div (low.2 + m * d.toNat) b
    calc (low.2 + m * d.toNat) % b * b ^ ds.length + value b low.1 +
          (low.2 + m * d.toNat) / b * b ^ (ds.length + 1)
        = ((low.2 + m * d.toNat) % b + b * ((low.2 + m * d.toNat) / b)) * b ^ ds.length +
            value b low.1 := by ring
      _ = m * d.toNat * b ^ ds.length + (value b low.1 + low.2 * b ^ ds.length) := by
          rw [hdiv]
          ring
      _ = m * (d.toNat * b ^ ds.length + value b ds) + carry := by
          rw [ih]
          ring

include hb hb' in
theorem mulAdd_of_lt {m : Nat} {ds : List UInt8} {carry : Nat}
    (h : m * value b ds + carry < b ^ ds.length) :
    (mulAdd b m ds carry).2 = 0 ∧ value b (mulAdd b m ds carry).1 = m * value b ds + carry := by
  have hvalue := mulAdd_value hb hb' m ds carry
  have hzero : (mulAdd b m ds carry).2 = 0 := by
    by_contra hne
    have hle := Nat.le_mul_of_pos_left (b ^ ds.length) (Nat.pos_of_ne_zero hne)
    omega
  rw [hzero, Nat.zero_mul, Nat.add_zero] at hvalue
  exact ⟨hzero, hvalue⟩

/-! ## §4. How long a buffer has to be. -/

/-- A buffer of digits in base `b` has room for `k` more digits in base `m`. -/
def Room (b m : Nat) (ds : List UInt8) (k : Nat) : Prop :=
  (value b ds + 1) * m ^ k ≤ b ^ ds.length

include hb hb' in
/-- **A digit that there is room for** is taken in, and nothing is carried out. -/
theorem Room.step {m k carry : Nat} (h : Room b m ds (k + 1)) (hcarry : carry < m) :
    (mulAdd b m ds carry).2 = 0 ∧
      value b (mulAdd b m ds carry).1 = m * value b ds + carry ∧
      Room b m (mulAdd b m ds carry).1 k := by
  unfold Room at h
  have hpow : 0 < m ^ k := Nat.pow_pos (by omega)
  have hle : (m * value b ds + carry + 1) * m ^ k ≤ b ^ ds.length := by
    refine Nat.le_trans ?_ h
    rw [Nat.pow_succ, Nat.mul_comm (m ^ k) m, ← Nat.mul_assoc]
    refine Nat.mul_le_mul_right _ ?_
    calc m * value b ds + carry + 1 ≤ m * value b ds + m := Nat.add_le_add_left hcarry _
      _ = (value b ds + 1) * m := by ring
  have hlt : m * value b ds + carry < b ^ ds.length :=
    Nat.lt_of_lt_of_le (Nat.lt_succ_self _) ((Nat.le_mul_of_pos_right _ hpow).trans hle)
  obtain ⟨hzero, hvalue⟩ := mulAdd_of_lt hb hb' hlt
  refine ⟨hzero, hvalue, ?_⟩
  rw [Room, hvalue, mulAdd_length]
  exact hle

theorem value_replicate_zero (b n : Nat) : value b (List.replicate n 0) = 0 := by
  induction n with
  | zero => rfl
  | succ n ih => rw [List.replicate_succ, value_zero_cons, ih]

/-- **A ratio that is an upper bound at one length is one at every length**, rounded up. -/
theorem lt_pow_of_ratio {a c p q : Nat} (hc : 1 < c) (hq : 0 < q) (h : a ^ q ≤ c ^ p) (k : Nat) :
    a ^ k < c ^ (k * p / q + 1) := by
  refine lt_of_pow_lt_pow_left₀ q (Nat.zero_le _) ?_
  calc (a ^ k) ^ q
      = (a ^ q) ^ k := by rw [← Nat.pow_mul, ← Nat.pow_mul, Nat.mul_comm]
    _ ≤ (c ^ p) ^ k := Nat.pow_le_pow_left h k
    _ = c ^ (k * p) := by rw [← Nat.pow_mul, Nat.mul_comm]
    _ < c ^ ((k * p / q + 1) * q) :=
        Nat.pow_lt_pow_right hc ((Nat.lt_mul_div_succ _ hq).trans_eq (Nat.mul_comm _ _))
    _ = (c ^ (k * p / q + 1)) ^ q := Nat.pow_mul _ _ _

theorem pow_le_bytes {m q bits k p : Nat} (h : m ^ q ≤ 2 ^ bits) (n : Nat) (hk : k = q * n)
    (hp : bits * n ≤ 8 * p) : m ^ k ≤ 256 ^ p :=
  calc m ^ k
    _ = (m ^ q) ^ n := hk ▸ Nat.pow_mul _ _ _
    _ ≤ (2 ^ bits) ^ n := Nat.pow_le_pow_left h n
    _ = 2 ^ (bits * n) := (Nat.pow_mul _ _ _).symm
    _ ≤ 2 ^ (8 * p) := Nat.pow_le_pow_right (by decide) hp
    _ = 256 ^ p := Nat.pow_mul _ _ _

theorem room_replicate {m p q : Nat} (hb : 1 < b) (hq : 0 < q) (h : m ^ q ≤ b ^ p) (k : Nat) :
    Room b m (List.replicate (k * p / q + 1) 0) k := by
  rw [Room, value_replicate_zero, Nat.zero_add, Nat.one_mul, List.length_replicate]
  exact (lt_pow_of_ratio hb hq h k).le

end Radix

/-! ## With a sign. -/

namespace TwosComplement

open Radix List

/-- The number that bytes spell; the highest bit counts as negative. -/
def toInt : List UInt8 → Int
  | [] => 0
  | b :: bs => value 256 (b :: bs) - if b &&& 0x80 = 0 then 0 else 256 ^ (bs.length + 1)

/-- `bs` spell `n`, and no fewer bytes do. -/
def Minimal (n : Int) (bs : List UInt8) : Prop :=
  bs ≠ [] ∧ toInt bs = n ∧ ∀ bs', bs' ≠ [] → toInt bs' = n → bs.length ≤ bs'.length

/-- The sign bit is clear, and a zero in front is there only to clear it. -/
def isShortest : List UInt8 → Bool
  | [] => false
  | [b] => b &&& 0x80 == 0
  | b :: c :: _ => b &&& 0x80 == 0 && !(b == 0 && c &&& 0x80 == 0)

variable {b c : UInt8} {bs : List UInt8} {n : Nat}

theorem high_eq_zero_iff : ∀ b : UInt8, b &&& 0x80 = 0 ↔ b.toNat < 128 := by
  intro b
  have hall : ∀ v : BitVec 8, UInt8.ofBitVec v &&& 0x80 = 0 ↔ (UInt8.ofBitVec v).toNat < 128 := by
    decide +kernel
  exact hall b.toBitVec

theorem toInt_of_low (h : b &&& 0x80 = 0) (bs : List UInt8) :
    toInt (b :: bs) = value 256 (b :: bs) := by
  rw [toInt, if_pos h, Int.sub_zero]

theorem low_of_toInt (h : toInt (b :: bs) = n) : b &&& 0x80 = 0 := by
  by_contra hhigh
  rw [toInt, if_neg hhigh] at h
  have hlt : value 256 (b :: bs) < 256 ^ (bs.length + 1) := value_lt (digits_bytes (b :: bs))
  have hlt' : ((value 256 (b :: bs) : Nat) : Int) < 256 ^ (bs.length + 1) := by exact_mod_cast hlt
  omega

theorem value_of_toInt (h : toInt bs = n) : value 256 bs = n := by
  cases bs with
  | nil => exact Int.ofNat.inj h
  | cons b bs =>
    rw [toInt_of_low (low_of_toInt h)] at h
    exact Int.ofNat.inj h

theorem value_lt_of_low (h : b &&& 0x80 = 0) (bs : List UInt8) :
    value 256 (b :: bs) < 128 * 256 ^ bs.length := by
  have hb := (high_eq_zero_iff b).mp h
  have hbs := value_lt (digits_bytes bs)
  rw [value_cons]
  calc b.toNat * 256 ^ bs.length + value 256 bs
      < b.toNat * 256 ^ bs.length + 256 ^ bs.length := Nat.add_lt_add_left hbs _
    _ = (b.toNat + 1) * 256 ^ bs.length := (Nat.succ_mul _ _).symm
    _ ≤ 128 * 256 ^ bs.length := Nat.mul_le_mul_right _ hb

theorem le_value_of_high (h : c &&& 0x80 ≠ 0) (bs : List UInt8) :
    128 * 256 ^ bs.length ≤ value 256 (c :: bs) := by
  have hc : 128 ≤ c.toNat := Nat.not_lt.mp fun hlt => h ((high_eq_zero_iff c).mpr hlt)
  rw [value_cons]
  exact (Nat.mul_le_mul_right _ hc).trans (Nat.le_add_right _ _)

theorem minimal_of_shortest (h : isShortest bs = true) : Minimal (value 256 bs) bs := by
  cases bs with
  | nil => cases h
  | cons b bs =>
    have hlow : b &&& 0x80 = 0 := by
      cases bs with
      | nil => exact eq_of_beq h
      | cons c bs => exact eq_of_beq (Bool.and_eq_true_iff.mp h).1
    refine ⟨cons_ne_nil b bs, toInt_of_low hlow bs, fun bs' hne hbs' => ?_⟩
    have hvalue := value_of_toInt hbs'
    obtain ⟨b', bs', rfl⟩ := exists_cons_of_ne_nil hne
    have hlow' := low_of_toInt hbs'
    -- fewer bytes with a clear sign bit do not reach the number
    by_contra hlt
    rw [length_cons, length_cons] at hlt
    have hlen : bs'.length + 1 ≤ bs.length := by omega
    have hlt' := value_lt_of_low hlow' bs'
    by_cases hzero : b = 0
    · subst hzero
      cases bs with
      | nil => cases hlen
      | cons c bs =>
        have hhigh : c &&& 0x80 ≠ 0 := by
          intro hc
          rw [isShortest, hc] at h
          exact absurd h (by decide)
        have hle := le_value_of_high hhigh bs
        have hpow : 128 * 256 ^ bs'.length ≤ 128 * 256 ^ bs.length :=
          Nat.mul_le_mul_left _ (Nat.pow_le_pow_right (by decide) (Nat.le_of_succ_le_succ hlen))
        rw [value_zero_cons] at hvalue
        omega
    · have hle := pow_le_value (b := 256) hzero bs
      have hpow : 256 ^ (bs'.length + 1) ≤ 256 ^ bs.length :=
        Nat.pow_le_pow_right (by decide) hlen
      rw [Nat.pow_succ] at hpow
      omega

theorem length_pos_of_shortest (h : isShortest bs = true) : 0 < bs.length :=
  length_pos_iff.mpr (minimal_of_shortest h).1

theorem shortest_of_minimal (h : Minimal n bs) : isShortest bs = true := by
  obtain ⟨hne, hvalue, hleast⟩ := h
  obtain ⟨b, bs, rfl⟩ := exists_cons_of_ne_nil hne
  have hlow := low_of_toInt hvalue
  cases bs with
  | nil => exact beq_iff_eq.mpr hlow
  | cons c bs =>
    rw [isShortest, hlow]
    by_contra hexcess
    -- without the zero the bytes spell the same
    obtain ⟨rfl, hc⟩ : b = 0 ∧ c &&& 0x80 = 0 := by simpa using hexcess
    rw [toInt_of_low hlow, value_zero_cons, ← toInt_of_low hc] at hvalue
    have hle := hleast (c :: bs) (cons_ne_nil c bs) hvalue
    rw [length_cons] at hle
    omega

theorem minimal_iff : Minimal n bs ↔ value 256 bs = n ∧ isShortest bs = true := by
  constructor
  · intro h
    exact ⟨value_of_toInt h.2.1, shortest_of_minimal h⟩
  · rintro ⟨rfl, h⟩
    exact minimal_of_shortest h

end TwosComplement

/-! ## The leading digits. -/

/-- Digits in base `b`, of which `p` are kept.  `c * n`, and not `n`, decides how many there
are: with `c = 2` the first digit is below half the base. -/
structure Significand where
  b : Nat
  c : Nat
  p : Nat
  one_lt : 1 < b
  dvd : c ∣ b
  two_le : 2 ≤ p
  size : Nat → Nat
  size_le_iff : ∀ n k, size n ≤ k ↔ c * n < b ^ k

namespace Significand

variable (s : Significand) {m n k : Nat}

/-- The number without the digits behind the first `p`. -/
def round (n : Nat) : Nat := n / s.b ^ (s.size n - s.p) * s.b ^ (s.size n - s.p)

theorem unit_pos (k : Nat) : 0 < s.b ^ k := Nat.pow_pos (Nat.lt_of_succ_lt s.one_lt)

theorem c_pos : 0 < s.c := by
  apply Nat.pos_of_ne_zero
  intro hzero
  have hb := s.one_lt
  have hdvd := s.dvd
  rw [hzero, Nat.zero_dvd] at hdvd
  omega

theorem round_le (n : Nat) : s.round n ≤ n := Nat.div_mul_le_self _ _

theorem lt_round_add (n : Nat) : n < s.round n + s.b ^ (s.size n - s.p) := by
  have hmod := Nat.mod_lt n (s.unit_pos (s.size n - s.p))
  have hdiv := Nat.div_add_mod' n (s.b ^ (s.size n - s.p))
  unfold round
  omega

theorem round_of_dvd (h : s.b ^ (s.size n - s.p) ∣ n) : s.round n = n := Nat.div_mul_cancel h

theorem round_of_le (h : s.size n ≤ s.p) : s.round n = n := by
  rw [round, Nat.sub_eq_zero_of_le h, Nat.pow_zero, Nat.div_one, Nat.mul_one]

theorem size_mono (h : m ≤ n) : s.size m ≤ s.size n := by
  rw [s.size_le_iff]
  exact Nat.lt_of_le_of_lt (Nat.mul_le_mul_left _ h) ((s.size_le_iff n _).mp (Nat.le_refl _))

theorem le_round_iff : s.b ^ k ≤ s.c * s.round n ↔ s.b ^ k ≤ s.c * n := by
  constructor
  · intro h
    exact Nat.le_trans h (Nat.mul_le_mul_left _ (s.round_le n))
  · intro h
    obtain ⟨q, hq⟩ := s.dvd
    have hc := s.c_pos
    by_cases hfew : s.size n ≤ s.p
    · rw [s.round_of_le hfew]
      exact h
    · -- the least number of this size has as many zeros as are cut off
      have hbound : k < s.size n := by
        by_contra hle
        have := (s.size_le_iff n k).mp (by omega)
        omega
      have htwo := s.two_le
      have hpow : s.b ^ (s.size n - 1) = s.c * (q * s.b ^ (s.p - 2) *
          s.b ^ (s.size n - s.p)) := by
        rw [show s.size n - 1 = 1 + ((s.p - 2) + (s.size n - s.p)) by omega, Nat.pow_add,
          Nat.pow_add, Nat.pow_one, Nat.mul_assoc q, ← Nat.mul_assoc s.c, ← hq]
      have hleast : s.b ^ (s.size n - 1) ≤ s.c * n := by
        by_contra hlt
        have := (s.size_le_iff n (s.size n - 1)).mpr (by omega)
        omega
      have hdigits : q * s.b ^ (s.p - 2) ≤ n / s.b ^ (s.size n - s.p) := by
        rw [Nat.le_div_iff_mul_le (s.unit_pos _)]
        rw [hpow] at hleast
        exact Nat.le_of_mul_le_mul_left hleast hc
      calc s.b ^ k ≤ s.b ^ (s.size n - 1) := Nat.pow_le_pow_right (by have := s.one_lt; omega)
            (by omega)
        _ = s.c * (q * s.b ^ (s.p - 2) * s.b ^ (s.size n - s.p)) := hpow
        _ ≤ s.c * s.round n := Nat.mul_le_mul_left _ (Nat.mul_le_mul_right _ hdigits)

theorem round_pos (h : 0 < n) : 0 < s.round n := by
  have hone : s.b ^ 0 ≤ s.c * s.round n := by
    rw [s.le_round_iff, Nat.pow_zero]
    exact Nat.mul_pos s.c_pos h
  rw [Nat.pow_zero] at hone
  exact Nat.pos_of_mul_pos_left hone

theorem size_round (n : Nat) : s.size (s.round n) = s.size n := by
  apply Nat.le_antisymm (s.size_mono (s.round_le n))
  by_contra hlt
  have hround := (s.size_le_iff (s.round n) (s.size n - 1)).mp (by omega)
  have hnot : ¬ s.b ^ (s.size n - 1) ≤ s.c * s.round n := by omega
  rw [s.le_round_iff] at hnot
  have := (s.size_le_iff n (s.size n - 1)).mpr (by omega)
  omega

theorem round_mono (h : m ≤ n) : s.round m ≤ s.round n := by
  by_cases hsize : s.size m = s.size n
  · -- the same digits are kept
    rw [round, hsize]
    exact Nat.mul_le_mul_right _ (Nat.div_le_div_right h)
  · have hlt : s.size m < s.size n := Nat.lt_of_le_of_ne (s.size_mono h) hsize
    have hm : s.size (s.round m) < s.size (s.round n) := by
      rw [size_round, size_round]
      exact hlt
    by_contra hgt
    have := s.size_mono (show s.round n ≤ s.round m by omega)
    omega

end Significand

/-! ## The text of an integer. -/

def decimal (n : Int) : List Char :=
  match n with
  | .ofNat m => Nat.toDigits 10 m
  | .negSucc m => '-' :: Nat.toDigits 10 (m + 1)

/-- The integer a text would spell, before asking whether the text is the
decimal text of that integer. -/
def spelled : List Char → Int
  | '-' :: ds => -(Nat.ofDigitChars 10 ds 0 : Int)
  | ds => (Nat.ofDigitChars 10 ds 0 : Int)

/-- Read a decimal text.  Leading zeros, `-0` and anything else that is not the
text of an integer are refused. -/
def readDecimal (s : List Char) : Option Int :=
  if decimal (spelled s) = s then some (spelled s) else none

theorem spelled_of_head_ne {s : List Char} (h : s.head? ≠ some '-') :
    spelled s = (Nat.ofDigitChars 10 s 0 : Int) := by
  unfold spelled
  split
  · exact absurd rfl h
  · rfl

theorem toDigits_head_ne_minus (m : Nat) : (Nat.toDigits 10 m).head? ≠ some '-' := by
  intro h
  have hmem : '-' ∈ Nat.toDigits 10 m := List.mem_of_mem_head? h
  have := Nat.isDigit_of_mem_toDigits (by omega) (by omega) hmem
  exact absurd this (by decide)

theorem toDigits_ascii (m : Nat) : ∀ c ∈ Nat.toDigits 10 m, c.toNat < 128 := by
  intro c hc
  have hd := Nat.isDigit_of_mem_toDigits (by omega) (by omega) hc
  have h9 := (Char.isDigit_iff_toNat.mp hd).2
  exact Nat.lt_of_le_of_lt h9 (by decide)

theorem decimal_ascii (n : Int) : ∀ c ∈ decimal n, c.toNat < 128 := by
  cases n with
  | ofNat m => exact toDigits_ascii m
  | negSucc m =>
    intro c hc
    rcases List.mem_cons.mp hc with rfl | hc
    · decide
    · exact toDigits_ascii (m + 1) c hc

theorem spelled_decimal (n : Int) : spelled (decimal n) = n := by
  cases n with
  | ofNat m =>
    show spelled (Nat.toDigits 10 m) = _
    rw [spelled_of_head_ne (toDigits_head_ne_minus m),
      Nat.ofDigitChars_toDigits (by omega) (by omega)]
    rfl
  | negSucc m =>
    show -(Nat.ofDigitChars 10 (Nat.toDigits 10 (m + 1)) 0 : Int) = _
    rw [Nat.ofDigitChars_toDigits (by omega) (by omega)]
    rfl

/-- **`readDecimal` inverts `decimal`**, and accepts nothing else. -/
theorem readDecimal_eq_some {s : List Char} {n : Int} :
    readDecimal s = some n ↔ decimal n = s := by
  unfold readDecimal
  constructor
  · intro h
    split at h
    next hs =>
      cases h
      exact hs
    next => cases h
  · intro h
    subst h
    rw [spelled_decimal, if_pos rfl]

theorem decimal_inj {m n : Int} : decimal m = decimal n ↔ m = n := by
  refine ⟨fun h => ?_, congrArg decimal⟩
  rw [← spelled_decimal m, h, spelled_decimal]

/-! ## Cutting a text in two. -/

theorem append_mark_inj {α : Type} {p : α → Prop} {a a' r r' : List α} {x x' : α}
    (ha : ∀ c ∈ a, ¬ p c) (ha' : ∀ c ∈ a', ¬ p c) (hx : p x) (hx' : p x') :
    a ++ x :: r = a' ++ x' :: r' ↔ a = a' ∧ x = x' ∧ r = r' := by
  refine ⟨fun h => ?_, ?_⟩
  · induction a generalizing a' with
    | nil =>
      cases a' with
      | nil => exact ⟨rfl, List.cons.inj h⟩
      | cons c' a' =>
        obtain ⟨rfl, _⟩ := List.cons.inj h
        exact absurd hx (ha' x List.mem_cons_self)
    | cons c a ih =>
      cases a' with
      | nil =>
        obtain ⟨rfl, _⟩ := List.cons.inj h
        exact absurd hx' (ha c List.mem_cons_self)
      | cons c' a' =>
        obtain ⟨rfl, htail⟩ := List.cons.inj h
        obtain ⟨rfl, hrest⟩ := ih (fun d hd => ha d (List.mem_cons_of_mem _ hd))
          (fun d hd => ha' d (List.mem_cons_of_mem _ hd)) htail
        exact ⟨rfl, hrest⟩
  · rintro ⟨rfl, rfl, rfl⟩
    rfl

def cuts (s : List Char) : List (List Char × List Char) :=
  (List.range (s.length + 1)).map fun i => (s.take i, s.drop i)

theorem mem_cuts {s a b : List Char} : (a, b) ∈ cuts s ↔ a ++ b = s := by
  rw [cuts, List.mem_map]
  constructor
  · rintro ⟨i, -, hi⟩
    cases hi
    exact List.take_append_drop i s
  · intro h
    subst h
    refine ⟨a.length, ?_, ?_⟩
    · rw [List.mem_range, List.length_append]
      omega
    · rw [List.take_left, List.drop_left]

end Fantom.Lib
