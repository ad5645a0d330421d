/-
  Fantom.Wallet.Stealth — Payments to a stealth address.

  * `stealth_received_iff` — which payments can be spent.

  A secret is written into 32 bytes only where its number has that many, without a leading zero.
-/
import Fantom.Core.Signer
import Mathlib.Algebra.Module.NatInt
import Mathlib.Data.ZMod.Basic

namespace Fantom.Wallet

open Core Option Nat

/-! ## §1. Secrets, points, and the curve. -/

/-- `ec_secret`: 32 bytes. -/
structure EcSecret where
  e : List UInt8
  size : e.length = 32
deriving DecidableEq

/-- `ec_point`: the bytes of a point. -/
abbrev EcPoint := List UInt8

def EcSecret.bn (secret : EcSecret) : Nat := bin2bn secret.e

/-- The group `NID_secp256k1` of OpenSSL and its conversions, and `SHA256`. -/
structure Curve where
  Point : Type
  [group : AddCommGroup Point]
  /-- The generator. -/
  G : Point
  /-- `EC_GROUP_get_order` -/
  order : Nat
  /-- `EC_POINT_point2bn`, with `POINT_CONVERSION_COMPRESSED`. -/
  point2bn : Point → Nat
  /-- `EC_POINT_bn2point` -/
  bn2point : Nat → Option Point
  SHA256 : List UInt8 → EcSecret

attribute [instance] Curve.group

/-- The operations of the curve are exact: a point has 33 compressed bytes, the point at
infinity is a zero byte, and what was compressed is read back. -/
structure Curve.Exact (E : Curve) : Prop where
  order_smul : E.order • E.G = 0
  order_least : ∀ k, 0 < k → k < E.order → k • E.G ≠ 0
  order_le : E.order ≤ 256 ^ 32
  order_pos : 0 < E.order
  numBytes_point2bn : ∀ P, P ≠ 0 → numBytes (E.point2bn P) = 33
  point2bn_zero : E.point2bn 0 = 0
  bn2point_point2bn : ∀ P, P ≠ 0 → E.bn2point (E.point2bn P) = some P

/-! ## §2. The functions. -/

/-- A point in `ec_compressed_size` bytes, or a failure (`incorrect length`). -/
def toCompressed (bnOut : Nat) : Option EcPoint :=
  if numBytes bnOut = 33 then some (bn2bin bnOut) else none

/-- A number in `ec_secret_size` bytes, or a failure (`bnSpend is zero`, `bnSpend incorrect
length`). -/
def toSecret (bnSpend : Nat) : Option EcSecret :=
  if bnSpend = 0 then none
  else if h : numBytes bnSpend = 32 then some ⟨bn2bin bnSpend, (bn2bin_length bnSpend).trans h⟩
  else none

variable (E : Curve)

def secretToPublicKey (secret : EcSecret) : Option EcPoint :=
  toCompressed (E.point2bn (secret.bn • E.G))

/-- `StealthSecret`: the shared secret and the public key. -/
def stealthSecret (secret : EcSecret) (pubkey pkSpend : EcPoint) : Option (EcSecret × EcPoint) := do
  let Q ← E.bn2point (bin2bn pubkey)
  -- eQ
  let Q := secret.bn • Q
  let vchOutQ ← toCompressed (E.point2bn Q)
  let sharedSOut := E.SHA256 vchOutQ
  -- cG
  let C := sharedSOut.bn • E.G
  let R ← E.bn2point (bin2bn pkSpend)
  let pkOut ← toCompressed (E.point2bn (R + C))
  some (sharedSOut, pkOut)

def stealthSharedToSecretSpend (sharedS spendSecret : EcSecret) : Option EcSecret :=
  toSecret ((spendSecret.bn + sharedS.bn) % E.order)

def stealthSecretSpend (scanSecret : EcSecret) (ephemPubkey : EcPoint) (spendSecret : EcSecret) :
    Option EcSecret := do
  let P ← E.bn2point (bin2bn ephemPubkey)
  -- dP
  let P := scanSecret.bn • P
  let vchOutP ← toCompressed (E.point2bn P)
  toSecret ((spendSecret.bn + (E.SHA256 vchOutP).bn) % E.order)

/-- The receiver of the payment to `R` can spend it, from the keys alone and from the shared
secret that the scan left. -/
def Received (scanSecret spendSecret : EcSecret) (ephemPubkey pkSpend R : EcPoint) : Prop :=
  (∃ secretOut, stealthSecretSpend E scanSecret ephemPubkey spendSecret = some secretOut ∧
    secretToPublicKey E secretOut = some R) ∧
  ∃ sharedS pkExtracted secretOut,
    stealthSecret E scanSecret ephemPubkey pkSpend = some (sharedS, pkExtracted) ∧
    stealthSharedToSecretSpend E sharedS spendSecret = some secretOut ∧
    secretToPublicKey E secretOut = some R

/-- The number `c` that the ephemeral and the scan secret share: the hash of `edG`. -/
def sharedNumber (ephemSecret scanSecret : EcSecret) : Nat :=
  (E.SHA256 (bn2bin (E.point2bn ((ephemSecret.bn * scanSecret.bn) • E.G)))).bn

/-! ## §3. Buffers. -/

theorem toCompressed_eq_some {bnOut : Nat} {out : EcPoint} :
    toCompressed bnOut = some out ↔ numBytes bnOut = 33 ∧ out = bn2bin bnOut := by
  unfold toCompressed
  split
  · rename_i h
    rw [some_inj, eq_comm]
    exact ⟨fun heq => ⟨h, heq⟩, And.right⟩
  · rename_i h
    exact ⟨nofun, fun heq => absurd heq.1 h⟩

/-- **A number fits a secret** where it has its top byte. -/
theorem toSecret_eq_some {bnSpend : Nat} {secret : EcSecret} :
    toSecret bnSpend = some secret ↔
      256 ^ 31 ≤ bnSpend ∧ bnSpend < 256 ^ 32 ∧ secret.e = bn2bin bnSpend := by
  unfold toSecret
  constructor
  · intro h
    split at h
    · cases h
    · split at h
      · rename_i hlen
        obtain ⟨h₁, h₂⟩ := numBytes_eq_iff.mp hlen
        exact ⟨h₁, h₂, by rw [← Option.some.inj h]⟩
      · cases h
  · rintro ⟨h₁, h₂, he⟩
    have hne : bnSpend ≠ 0 := by
      rintro rfl
      exact absurd h₁ (by decide)
    rw [if_neg hne, dif_pos (numBytes_eq_iff.mpr ⟨h₁, h₂⟩)]
    obtain ⟨e, size⟩ := secret
    obtain rfl := he
    rfl

/-! ## §4. Both sides compute one point. -/

variable {E}

theorem bn2point_of_compressed (hE : E.Exact) {P : E.Point} {out : EcPoint}
    (h : toCompressed (E.point2bn P) = some out) : E.bn2point (bin2bn out) = some P := by
  obtain ⟨hlen, rfl⟩ := toCompressed_eq_some.mp h
  have hP : P ≠ 0 := by
    rintro rfl
    rw [hE.point2bn_zero] at hlen
    exact absurd hlen (by decide)
  rw [bin2bn_bn2bin]
  exact hE.bn2point_point2bn P hP

theorem mod_order_smul (hE : E.Exact) (k : Nat) : (k % E.order) • E.G = k • E.G := by
  have hk : k • E.G = (k % E.order + E.order * (k / E.order)) • E.G := by rw [mod_add_div]
  rw [hk, add_smul, mul_comm, mul_smul, hE.order_smul, smul_zero, add_zero]

theorem stealthSecret_eq_some (hE : E.Exact) {secret other spendSecret : EcSecret}
    {pubkey pkSpend pkOut : EcPoint} {sharedS : EcSecret}
    (hpubkey : secretToPublicKey E other = some pubkey)
    (hspend : secretToPublicKey E spendSecret = some pkSpend) :
    stealthSecret E secret pubkey pkSpend = some (sharedS, pkOut) ↔
      numBytes (E.point2bn ((secret.bn * other.bn) • E.G)) = 33 ∧
      sharedS = E.SHA256 (bn2bin (E.point2bn ((secret.bn * other.bn) • E.G))) ∧
      toCompressed (E.point2bn ((spendSecret.bn + sharedS.bn) • E.G)) = some pkOut := by
  have hQ := bn2point_of_compressed hE hpubkey
  have hR := bn2point_of_compressed hE hspend
  simp only [stealthSecret, hQ, hR, bind_eq_bind, bind_some, ← mul_smul, ← add_smul,
    bind_eq_some_iff, some_inj, Prod.mk.injEq, toCompressed_eq_some]
  constructor
  · rintro ⟨vchOutQ, ⟨hlen, rfl⟩, pk, ⟨hlen', rfl⟩, rfl, rfl⟩
    exact ⟨hlen, rfl, hlen', rfl⟩
  · rintro ⟨hlen, rfl, hlen', rfl⟩
    exact ⟨_, ⟨hlen, rfl⟩, _, ⟨hlen', rfl⟩, rfl, rfl⟩

theorem stealthSecretSpend_eq (hE : E.Exact) {scanSecret spendSecret ephemSecret : EcSecret}
    {ephemPubkey : EcPoint} (hephem : secretToPublicKey E ephemSecret = some ephemPubkey)
    (hlen : numBytes (E.point2bn ((ephemSecret.bn * scanSecret.bn) • E.G)) = 33) :
    stealthSecretSpend E scanSecret ephemPubkey spendSecret =
      toSecret ((spendSecret.bn + sharedNumber E ephemSecret scanSecret) % E.order) := by
  have hP := bn2point_of_compressed hE hephem
  have hcomm : scanSecret.bn * ephemSecret.bn = ephemSecret.bn * scanSecret.bn := mul_comm _ _
  have hout := toCompressed_eq_some.mpr ⟨hlen, rfl⟩
  simp only [stealthSecretSpend, hP, bind_eq_bind, bind_some, ← mul_smul, hcomm, hout]
  rfl

theorem secretToPublicKey_sum (hE : E.Exact) {secret : EcSecret} {k : Nat}
    (h : toSecret (k % E.order) = some secret) :
    secretToPublicKey E secret = toCompressed (E.point2bn (k • E.G)) := by
  obtain ⟨-, -, he⟩ := toSecret_eq_some.mp h
  have hbn : secret.bn = k % E.order := by
    rw [EcSecret.bn, he, bin2bn_bn2bin]
  rw [secretToPublicKey, hbn, mod_order_smul hE]

/-- **Every stealth payment can be received** whose secret, the sum of `f` and `c` modulo the
order, does not begin with a zero byte. -/
theorem stealth_received_iff (E : Curve) (hE : E.Exact)
    {scanSecret spendSecret ephemSecret : EcSecret} {pkScan pkSpend ephemPubkey R : EcPoint}
    {sharedS : EcSecret} (hscan : secretToPublicKey E scanSecret = some pkScan)
    (hspend : secretToPublicKey E spendSecret = some pkSpend)
    (hephem : secretToPublicKey E ephemSecret = some ephemPubkey)
    (hsend : stealthSecret E ephemSecret pkScan pkSpend = some (sharedS, R)) :
    Received E scanSecret spendSecret ephemPubkey pkSpend R ↔
      256 ^ 31 ≤ (spendSecret.bn + sharedNumber E ephemSecret scanSecret) % E.order := by
  obtain ⟨hlen, hshared, hR⟩ := (stealthSecret_eq_some hE hscan hspend).mp hsend
  have hc : sharedS.bn = sharedNumber E ephemSecret scanSecret := by
    rw [hshared]
    rfl
  have hkeys : stealthSecretSpend E scanSecret ephemPubkey spendSecret = _ :=
    stealthSecretSpend_eq hE hephem hlen
  -- the receiver's scan gives what the sender's did
  have hrecv : stealthSecret E scanSecret ephemPubkey pkSpend = some (sharedS, R) := by
    rw [stealthSecret_eq_some hE hephem hspend, mul_comm]
    exact ⟨hlen, hshared, hR⟩
  constructor
  · rintro ⟨⟨secretOut, hout, -⟩, -⟩
    rw [hkeys] at hout
    exact (toSecret_eq_some.mp hout).1
  · intro hbig
    have hlt : (spendSecret.bn + sharedNumber E ephemSecret scanSecret) % E.order < 256 ^ 32 :=
      lt_of_lt_of_le (mod_lt _ hE.order_pos) hE.order_le
    have hsize : (bn2bin ((spendSecret.bn + sharedNumber E ephemSecret scanSecret) %
        E.order)).length = 32 := by
      rw [bn2bin_length]
      exact numBytes_eq_iff.mpr ⟨hbig, hlt⟩
    have hsecret : toSecret ((spendSecret.bn + sharedNumber E ephemSecret scanSecret) % E.order) =
        some ⟨_, hsize⟩ := toSecret_eq_some.mpr ⟨hbig, hlt, rfl⟩
    rw [hc] at hR
    have hkey := (secretToPublicKey_sum hE hsecret).trans hR
    refine ⟨⟨_, hkeys.trans hsecret, hkey⟩, sharedS, R, _, hrecv, ?_, hkey⟩
    rw [stealthSharedToSecretSpend, hc]
    exact hsecret

/-! ## §5. A group of the same order. -/

def sampleOrder : Nat := 0xFFFFFFFFFFFFFFFFFFFFFFFFFFFFFFFEBAAEDCE6AF48A03BBFD25E8CD0364141

instance : NeZero sampleOrder := ⟨by decide⟩

def EcSecret.ofNat (n : Nat) : EcSecret where
  e := (leBytes 32 n).reverse
  size := by rw [List.length_reverse, leBytes_length]

theorem EcSecret.bn_ofNat {n : Nat} (h : n < 256 ^ 32) : (EcSecret.ofNat n).bn = n := by
  rw [EcSecret.bn, EcSecret.ofNat, bin2bn, List.reverse_reverse, ofLEBytes_leBytes h]

def sampleEncode (x : ZMod sampleOrder) : Nat := if x = 0 then 0 else 2 * 256 ^ 32 + x.val

def sampleDecode (bn : Nat) : Option (ZMod sampleOrder) :=
  if bn < 2 * 256 ^ 32 then none else some ((bn - 2 * 256 ^ 32 : Nat) : ZMod sampleOrder)

def sampleCurve : Curve where
  Point := ZMod sampleOrder
  G := (1 : ZMod sampleOrder)
  order := sampleOrder
  point2bn := sampleEncode
  bn2point := sampleDecode
  SHA256 bs := .ofNat (polyHash bs)

theorem sampleEncode_natCast (k : Nat) : sampleEncode (k : ZMod sampleOrder) =
    if k % sampleOrder = 0 then 0 else 2 * 256 ^ 32 + k % sampleOrder := by
  simp only [sampleEncode, ← ZMod.val_eq_zero, ZMod.val_natCast]

theorem sampleCurve_point2bn (k : Nat) : sampleCurve.point2bn (k • sampleCurve.G) =
    if k % sampleOrder = 0 then 0 else 2 * 256 ^ 32 + k % sampleOrder := by
  have hk : k • (1 : ZMod sampleOrder) = (k : ZMod sampleOrder) := nsmul_one k
  rw [← sampleEncode_natCast, ← hk]
  rfl

theorem numBytes_sampleEncode {x : ZMod sampleOrder} (hx : x ≠ 0) :
    numBytes (sampleEncode x) = 33 := by
  have hlt : x.val < 256 ^ 32 := lt_of_lt_of_le (ZMod.val_lt x) (by decide)
  rw [sampleEncode, if_neg hx]
  exact numBytes_eq_iff.mpr ⟨by omega, by omega⟩

theorem sampleDecode_encode {x : ZMod sampleOrder} (hx : x ≠ 0) :
    sampleDecode (sampleEncode x) = some x := by
  rw [sampleEncode, if_neg hx, sampleDecode, if_neg (by omega), Nat.add_sub_cancel_left,
    ZMod.natCast_zmod_val]

theorem sampleCurve_exact : sampleCurve.Exact where
  order_smul := by
    have h : sampleOrder • (1 : ZMod sampleOrder) = (sampleOrder : ZMod sampleOrder) :=
      nsmul_one sampleOrder
    exact h.trans (ZMod.natCast_self sampleOrder)
  order_least k h₀ hlt h := by
    have hk : (k : ZMod sampleOrder) = 0 := (nsmul_one k).symm.trans h
    have hlt' : k < sampleOrder := hlt
    rw [← ZMod.val_eq_zero, ZMod.val_natCast, mod_eq_of_lt hlt'] at hk
    omega
  order_le := by decide
  order_pos := by decide
  numBytes_point2bn _ hP := numBytes_sampleEncode hP
  point2bn_zero := by
    show sampleEncode 0 = 0
    exact if_pos rfl
  bn2point_point2bn _ hP := sampleDecode_encode hP

theorem secretToPublicKey_sample {n : Nat} (h₀ : 0 < n) (hlt : n < sampleOrder) :
    secretToPublicKey sampleCurve (.ofNat n) = some (bn2bin (2 * 256 ^ 32 + n)) := by
  have hn : n < 256 ^ 32 := lt_trans hlt (by decide)
  have hmod : n % sampleOrder = n := mod_eq_of_lt hlt
  rw [secretToPublicKey, EcSecret.bn_ofNat hn, sampleCurve_point2bn, hmod, if_neg (by omega)]
  exact toCompressed_eq_some.mpr ⟨numBytes_eq_iff.mpr ⟨by omega, by omega⟩, rfl⟩

def samplePublicKey (n : Nat) : EcPoint := bn2bin (2 * 256 ^ 32 + n)

def sampleShared : EcSecret := sampleCurve.SHA256 (samplePublicKey 6)

theorem sample_point : sampleCurve.point2bn
    (((EcSecret.ofNat 2).bn * (EcSecret.ofNat 3).bn) • sampleCurve.G) = 2 * 256 ^ 32 + 6 := by
  rw [EcSecret.bn_ofNat (by decide), EcSecret.bn_ofNat (by decide), sampleCurve_point2bn]
  decide

theorem sample_sharedNumber :
    sharedNumber sampleCurve (.ofNat 2) (.ofNat 3) = sampleShared.bn := by
  rw [sharedNumber, sample_point]
  rfl

theorem sample_sent {f : Nat} (h₀ : 0 < f) (hlt : f < sampleOrder)
    (hsum : (f + sampleShared.bn) % sampleOrder ≠ 0) :
    stealthSecret sampleCurve (.ofNat 2) (samplePublicKey 3) (samplePublicKey f) =
      some (sampleShared, samplePublicKey ((f + sampleShared.bn) % sampleOrder)) := by
  have hscan : secretToPublicKey sampleCurve (.ofNat 3) = some (samplePublicKey 3) :=
    secretToPublicKey_sample (by decide) (by decide)
  have hspend : secretToPublicKey sampleCurve (.ofNat f) = some (samplePublicKey f) :=
    secretToPublicKey_sample h₀ hlt
  have hmod : (f + sampleShared.bn) % sampleOrder < sampleOrder := mod_lt _ (by decide)
  have horder : sampleOrder < 256 ^ 32 := by decide
  rw [stealthSecret_eq_some sampleCurve_exact hscan hspend, sample_point,
    EcSecret.bn_ofNat (lt_trans hlt horder), sampleCurve_point2bn, if_neg hsum]
  refine ⟨numBytes_eq_iff.mpr ⟨by decide, by decide⟩, rfl, toCompressed_eq_some.mpr ⟨?_, rfl⟩⟩
  exact numBytes_eq_iff.mpr ⟨by omega, by omega⟩

/-- A payment that is received. -/
theorem stealth_received_one : Received sampleCurve (.ofNat 3) (.ofNat 1) (samplePublicKey 2)
    (samplePublicKey 1) (samplePublicKey ((1 + sampleShared.bn) % sampleOrder)) := by
  refine (stealth_received_iff sampleCurve sampleCurve_exact
    (secretToPublicKey_sample (by decide) (by decide))
    (secretToPublicKey_sample (by decide) (by decide))
    (secretToPublicKey_sample (by decide) (by decide))
    (sample_sent (by decide) (by decide) (by decide +kernel))).mpr ?_
  rw [sample_sharedNumber]
  decide +kernel

def sampleLostSecret : Nat :=
  51957043736155183727799765927545789671394682471149348898288918679777549996060

/-- A payment that is sent and cannot be received. -/
theorem stealth_payment_lost :
    secretToPublicKey sampleCurve (.ofNat 3) = some (samplePublicKey 3) ∧
    secretToPublicKey sampleCurve (.ofNat sampleLostSecret) =
      some (samplePublicKey sampleLostSecret) ∧
    secretToPublicKey sampleCurve (.ofNat 2) = some (samplePublicKey 2) ∧
    stealthSecret sampleCurve (.ofNat 2) (samplePublicKey 3) (samplePublicKey sampleLostSecret) =
      some (sampleShared, samplePublicKey 5) ∧
    stealthSecretSpend sampleCurve (.ofNat 3) (samplePublicKey 2) (.ofNat sampleLostSecret) =
      none ∧
    ¬ Received sampleCurve (.ofNat 3) (.ofNat sampleLostSecret) (samplePublicKey 2)
      (samplePublicKey sampleLostSecret) (samplePublicKey 5) := by
  have hscan := secretToPublicKey_sample (n := 3) (by decide) (by decide)
  have hspend := secretToPublicKey_sample (n := sampleLostSecret) (by decide) (by decide)
  have hephem := secretToPublicKey_sample (n := 2) (by decide) (by decide)
  have hsum : (sampleLostSecret + sampleShared.bn) % sampleOrder = 5 := by decide +kernel
  have hsend := sample_sent (f := sampleLostSecret) (by decide) (by decide) (by rw [hsum]; decide)
  rw [hsum] at hsend
  have hlen : numBytes (2 * 256 ^ 32 + 6) = 33 := numBytes_eq_iff.mpr ⟨by decide, by decide⟩
  have hnone : stealthSecretSpend sampleCurve (.ofNat 3) (samplePublicKey 2)
      (.ofNat sampleLostSecret) = none := by
    have hbn : (EcSecret.ofNat sampleLostSecret).bn = sampleLostSecret :=
      EcSecret.bn_ofNat (by decide)
    have hmod : (sampleLostSecret + sampleShared.bn) % sampleCurve.order = 5 := hsum
    rw [← sample_point] at hlen
    rw [samplePublicKey, stealthSecretSpend_eq sampleCurve_exact hephem hlen, sample_sharedNumber,
      hbn, hmod]
    decide
  refine ⟨hscan, hspend, hephem, hsend, hnone, ?_⟩
  rintro ⟨⟨secretOut, hout, -⟩, -⟩
  rw [hnone] at hout
  cases hout

end Fantom.Wallet
