/-
  Fantom.Lib.Ecdsa — ECDSA over a group of prime order, whose points have coordinates in a field.

  * `Curve`, `Curve.Exact` — the group, and what its operations promise,
  * `smul_congr`, `smul_inj` — multiples of a point, which count modulo the order,
  * `Signed`, `sign` — what a signature is, with the nonce that it was made with,
  * `recovered_eq_iff` — the key that a point recovers is the signer's where the point is the
    nonce's, and only there,
  * `Signed.x_eq`, `nonceId` — which of the four candidates that point is.
-/
import Mathlib.Algebra.Module.NatInt
import Mathlib.Data.ZMod.Basic
import Mathlib.GroupTheory.OrderOfElement
import Mathlib.Tactic.Ring

namespace Fantom.Lib.Ecdsa

open Nat

/-! ## §1. The group. -/

/-- Points, with the coordinates of those that are not zero. -/
structure Curve where
  Point : Type
  [group : AddCommGroup Point]
  [decEq : DecidableEq Point]
  /-- The generator. -/
  G : Point
  /-- The order of the group. -/
  n : Nat
  /-- The size of the field. -/
  p : Nat
  x : Point → Nat
  y : Point → Nat
  /-- The point with this `x`, and a `y` that is odd or not. -/
  ofX : Nat → Bool → Option Point

attribute [instance] Curve.group Curve.decEq

/-- The operations are those of a group of prime order, in which a point is its `x` with the
parity of its `y`; the field is less than twice as large as the group. -/
structure Curve.Exact (E : Curve) : Prop where
  prime : E.n.Prime
  n_smul : ∀ P : E.Point, E.n • P = 0
  G_ne : E.G ≠ 0
  x_lt : ∀ P, P ≠ 0 → E.x P < E.p
  y_lt : ∀ P, P ≠ 0 → E.y P < E.p
  ofX_eq_some : ∀ x odd P, x < E.p →
    (E.ofX x odd = some P ↔ P ≠ 0 ∧ E.x P = x ∧ (E.y P % 2 == 1) = odd)
  p_lt : E.p < 2 * E.n

variable {E : Curve}

theorem Curve.Exact.n_pos (hE : E.Exact) : 0 < E.n := hE.prime.pos

theorem Curve.Exact.ext (hE : E.Exact) {P Q : E.Point} (hP : P ≠ 0) (hQ : Q ≠ 0)
    (hx : E.x P = E.x Q) (hy : E.y P % 2 = E.y Q % 2) : P = Q := by
  have hofP := (hE.ofX_eq_some _ (E.y P % 2 == 1) P (hE.x_lt P hP)).mpr ⟨hP, rfl, rfl⟩
  have hofQ := (hE.ofX_eq_some _ (E.y P % 2 == 1) Q (hE.x_lt P hP)).mpr ⟨hQ, hx.symm, by rw [hy]⟩
  exact Option.some.inj (hofP.symm.trans hofQ)

/-! ## §2. Multiples. -/

theorem smul_congr (hE : E.Exact) {a b : Nat} (h : a ≡ b [MOD E.n]) (P : E.Point) :
    a • P = b • P :=
  nsmul_eq_nsmul_iff_modEq.mpr (h.of_dvd (addOrderOf_dvd_iff_nsmul_eq_zero.mpr (hE.n_smul P)))

theorem coprime_of_lt (hE : E.Exact) {a : Nat} (hpos : 0 < a) (hlt : a < E.n) :
    Nat.Coprime a E.n :=
  (coprime_of_lt_prime hpos.ne' hlt hE.prime).symm

theorem smul_inj (hE : E.Exact) {a : Nat} (h : Nat.Coprime a E.n) {P Q : E.Point} :
    a • P = a • Q ↔ P = Q := by
  refine ⟨fun heq => ?_, fun heq => heq ▸ rfl⟩
  obtain ⟨b, _, hb⟩ := exists_mul_mod_eq_one_of_coprime h hE.prime.one_lt
  have hone : b * a ≡ 1 [MOD E.n] := by
    rw [mul_comm]
    exact hb.trans (mod_eq_of_lt hE.prime.one_lt).symm
  calc P = 1 • P := (one_nsmul P).symm
    _ = (b * a) • P := (smul_congr hE hone P).symm
    _ = b • a • P := mul_nsmul' P b a
    _ = b • a • Q := by rw [heq]
    _ = (b * a) • Q := (mul_nsmul' Q b a).symm
    _ = 1 • Q := smul_congr hE hone Q
    _ = Q := one_nsmul Q

theorem smul_ne_zero (hE : E.Exact) {a : Nat} (hpos : 0 < a) (hlt : a < E.n) {P : E.Point}
    (hP : P ≠ 0) : a • P ≠ 0 := by
  intro hzero
  rw [← nsmul_zero a, smul_inj hE (coprime_of_lt hE hpos hlt)] at hzero
  exact hP hzero

/-! ## §3. Inverses. -/

/-- The inverse modulo `n`, if there is one. -/
def modInverse (a n : Nat) : Option Nat :=
  if Nat.Coprime a n then some ((a : ZMod n)⁻¹).val else none

theorem mul_modInverse {a n i : Nat} [NeZero n] (h : modInverse a n = some i) :
    a * i ≡ 1 [MOD n] := by
  unfold modInverse at h
  split_ifs at h with hcoprime
  cases h
  rw [← ZMod.natCast_eq_natCast_iff, cast_mul, ZMod.natCast_zmod_val, cast_one]
  exact ZMod.coe_mul_inv_eq_one a hcoprime

/-! ## §4. Signatures. -/

variable (E) in
/-- `r` and `s` sign `e` under the key `d`, with the nonce `k`. -/
structure Signed (d e k r s : Nat) : Prop where
  k_pos : 0 < k
  k_lt : k < E.n
  r_eq : r = E.x (k • E.G) % E.n
  r_pos : 0 < r
  s_pos : 0 < s
  s_lt : s < E.n
  equation : s * k ≡ e + r * d [MOD E.n]

variable {d e k r s : Nat}

theorem Signed.r_lt (hE : E.Exact) (h : Signed E d e k r s) : r < E.n := by
  rw [h.r_eq]
  exact mod_lt _ hE.n_pos

theorem Signed.nonce_ne (hE : E.Exact) (h : Signed E d e k r s) : k • E.G ≠ 0 :=
  smul_ne_zero hE h.k_pos h.k_lt hE.G_ne

variable (E) in
/-- The signature with the nonce `k`, where that makes one. -/
def sign (d e k : Nat) : Option (Nat × Nat) :=
  if k = 0 ∨ E.n ≤ k then none
  else
    match modInverse k E.n with
    | none => none
    | some kk =>
      let r := E.x (k • E.G) % E.n
      let s := (e + r * d) * kk % E.n
      if r = 0 ∨ s = 0 then none else some (r, s)

theorem sign_spec (hE : E.Exact) (h : sign E d e k = some (r, s)) : Signed E d e k r s := by
  have hpos := hE.n_pos
  have hne : NeZero E.n := ⟨hpos.ne'⟩
  unfold sign at h
  by_cases hk : k = 0 ∨ E.n ≤ k
  · rw [if_pos hk] at h
    cases h
  rw [if_neg hk] at h
  cases hinverse : modInverse k E.n with
  | none =>
    rw [hinverse] at h
    cases h
  | some kk =>
    rw [hinverse] at h
    dsimp only at h
    by_cases hzero : E.x (k • E.G) % E.n = 0 ∨
        (e + E.x (k • E.G) % E.n * d) * kk % E.n = 0
    · rw [if_pos hzero] at h
      cases h
    · rw [if_neg hzero] at h
      cases h
      push Not at hk hzero
      refine ⟨pos_of_ne_zero hk.1, hk.2, rfl, pos_of_ne_zero hzero.1,
        pos_of_ne_zero hzero.2, mod_lt _ hpos, ?_⟩
      generalize e + E.x (k • E.G) % E.n * d = m
      calc m * kk % E.n * k ≡ m * kk * k [MOD E.n] := (mod_modEq _ _).mul_right k
        _ = m * (k * kk) := by ring
        _ ≡ m * 1 [MOD E.n] := (mul_modInverse hinverse).mul_left m
        _ = m := mul_one m

variable (E) in
/-- The key that `R` recovers, `rr` being the inverse of `r`. -/
def recovered (R : E.Point) (e s rr : Nat) : E.Point :=
  ((E.n - e % E.n) % E.n * rr % E.n) • E.G + (s * rr % E.n) • R

/-- **The key that is recovered** is the signer's where the point is that of the nonce. -/
theorem recovered_eq_iff (hE : E.Exact) (h : Signed E d e k r s) {rr : Nat}
    (hrr : r * rr ≡ 1 [MOD E.n]) (R : E.Point) :
    recovered E R e s rr = d • E.G ↔ R = k • E.G := by
  have hr := coprime_of_lt hE h.r_pos (h.r_lt hE)
  have hs := coprime_of_lt hE h.s_pos h.s_lt
  -- `r` times what is recovered, without the inverse
  have hcancel : ∀ a : Nat, r * (a * rr % E.n) ≡ a [MOD E.n] := by
    intro a
    calc r * (a * rr % E.n) ≡ r * (a * rr) [MOD E.n] := (mod_modEq _ _).mul_left r
      _ = r * rr * a := by ring
      _ ≡ 1 * a [MOD E.n] := hrr.mul_right a
      _ = a := one_mul a
  have hneg : e + (E.n - e % E.n) % E.n ≡ 0 [MOD E.n] := by
    have hlt := mod_lt e hE.n_pos
    calc e + (E.n - e % E.n) % E.n ≡ e % E.n + (E.n - e % E.n) [MOD E.n] :=
          (mod_modEq e E.n).symm.add (mod_modEq _ _)
      _ = E.n := by omega
      _ ≡ 0 [MOD E.n] := modEq_zero_iff_dvd.mpr dvd_rfl
  have hmul : e • E.G + r • recovered E R e s rr = s • R := by
    rw [recovered, nsmul_add, ← mul_nsmul', ← mul_nsmul', smul_congr hE (hcancel _),
      smul_congr hE (hcancel s), ← add_assoc, ← add_nsmul, smul_congr hE hneg, zero_nsmul,
      zero_add]
  have hkey : e • E.G + r • d • E.G = s • k • E.G := by
    rw [← mul_nsmul', ← mul_nsmul', ← add_nsmul]
    exact smul_congr hE h.equation.symm E.G
  calc recovered E R e s rr = d • E.G
      ↔ r • recovered E R e s rr = r • d • E.G := (smul_inj hE hr).symm
    _ ↔ e • E.G + r • recovered E R e s rr = e • E.G + r • d • E.G := (add_right_inj _).symm
    _ ↔ s • R = s • k • E.G := by rw [hmul, hkey]
    _ ↔ R = k • E.G := smul_inj hE hs

/-! ## §5. The four candidates. -/

variable (E) in
/-- Which of the points that `r` stands for is the nonce's: two bits, whether its `x` is past the
order, and whether its `y` is odd. -/
def nonceId (k : Nat) : Nat := 2 * (E.x (k • E.G) / E.n) + E.y (k • E.G) % 2

theorem Signed.x_eq (h : Signed E d e k r s) :
    E.x (k • E.G) = E.n * (E.x (k • E.G) / E.n) + r := by
  rw [h.r_eq]
  exact (div_add_mod _ _).symm

theorem div_le_one (hE : E.Exact) {P : E.Point} (hP : P ≠ 0) : E.x P / E.n ≤ 1 := by
  refine le_of_lt_succ ((div_lt_iff_lt_mul hE.n_pos).mpr ?_)
  have hx := hE.x_lt P hP
  have hp := hE.p_lt
  omega

theorem nonceId_lt (hE : E.Exact) (h : Signed E d e k r s) : nonceId E k < 4 := by
  have hdiv := div_le_one hE (h.nonce_ne hE)
  unfold nonceId
  omega

theorem nonceId_eq_three_iff (hE : E.Exact) (h : Signed E d e k r s) :
    nonceId E k = 3 ↔ E.n ≤ E.x (k • E.G) ∧ E.y (k • E.G) % 2 = 1 := by
  have hdiv := div_le_one hE (h.nonce_ne hE)
  have hone : E.x (k • E.G) / E.n = 1 ↔ E.n ≤ E.x (k • E.G) := by
    have hpos : 1 ≤ E.x (k • E.G) / E.n ↔ 1 * E.n ≤ E.x (k • E.G) :=
      le_div_iff_mul_le hE.n_pos
    omega
  unfold nonceId
  omega

/-- **A candidate is the nonce's point** if its number is the nonce's. -/
theorem candidate_iff (hE : E.Exact) (h : Signed E d e k r s) (i : Nat) {R : E.Point}
    (hx : E.n * (i / 2) + r < E.p) (hR : E.ofX (E.n * (i / 2) + r) (i % 2 == 1) = some R) :
    R = k • E.G ↔ i = nonceId E k := by
  obtain ⟨hne, hRx, hRy⟩ := (hE.ofX_eq_some _ _ R hx).mp hR
  have hnonce := h.nonce_ne hE
  have hxk := h.x_eq
  have hr := h.r_lt hE
  have hRy' : E.y R % 2 = i % 2 := by
    rcases mod_two_eq_zero_or_one i with hi | hi <;>
      rcases mod_two_eq_zero_or_one (E.y R) with hy | hy <;> simp_all
  have hdiv : E.x R / E.n = i / 2 := by
    rw [hRx, add_comm, add_mul_div_left _ _ hE.n_pos, div_eq_of_lt hr, zero_add]
  unfold nonceId
  constructor
  · intro heq
    rw [heq] at hRy' hdiv
    omega
  · intro hi
    have hhigh : i / 2 = E.x (k • E.G) / E.n := by omega
    refine hE.ext hne hnonce ?_ (by omega)
    rw [hRx, hhigh, ← hxk]

theorem exists_candidate (hE : E.Exact) (h : Signed E d e k r s) :
    E.n * (nonceId E k / 2) + r < E.p ∧
      E.ofX (E.n * (nonceId E k / 2) + r) (nonceId E k % 2 == 1) = some (k • E.G) := by
  have hnonce := h.nonce_ne hE
  have hhigh : nonceId E k / 2 = E.x (k • E.G) / E.n := by
    unfold nonceId
    omega
  have hlow : nonceId E k % 2 = E.y (k • E.G) % 2 := by
    unfold nonceId
    omega
  rw [hhigh, hlow, ← h.x_eq]
  have hlt := hE.x_lt _ hnonce
  exact ⟨hlt, (hE.ofX_eq_some _ _ _ hlt).mpr ⟨hnonce, rfl, rfl⟩⟩

end Fantom.Lib.Ecdsa
