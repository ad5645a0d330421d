/-
  Fantom.Script.CompactSig — Compact signatures, from which the key is recovered that made them.

  * `EcdsaEnv`, `EcdsaEnv.Exact` — what is taken from OpenSSL, and what it promises,
  * `compactSig_recovers_iff` — a signature is recovered unless the candidate is the last one.

  The signer tries four candidates, and the reader takes the first three.
-/
import Fantom.Lib.Returns
import Fantom.Lib.Ecdsa
import Fantom.Script.Sign
import Mathlib.Data.Nat.Size
import Mathlib.Tactic.IntervalCases

namespace Fantom.Script

open Core Lib Lib.Ecdsa List Radix UInt8 Nat Option

/-! ## §1. OpenSSL. -/

/-- `ECDSA_SIG` -/
structure ECDSA_SIG where
  r : Nat
  s : Nat
deriving DecidableEq, Repr

/-- What is taken from OpenSSL. -/
structure EcdsaEnv where
  /-- The group `NID_secp256k1`. -/
  E : Curve
  /-- `ECDSA_do_sign`, of a digest and a private key, with the nonce that is drawn. -/
  ECDSA_do_sign : (dgst : List UInt8) → (priv : Nat) → (k : Nat) → Option ECDSA_SIG

/-- The group is one of prime order with numbers of 256 bits, and what is returned is a
signature of the digest. -/
structure EcdsaEnv.Exact (S : EcdsaEnv) : Prop where
  group : S.E.Exact
  p_le : S.E.p ≤ 256 ^ 32
  n_le : S.E.n ≤ 256 ^ 32
  do_sign : ∀ dgst priv k sig, dgst.length = 32 → S.ECDSA_do_sign dgst priv k = some sig →
    Signed S.E priv (bin2bn dgst) k sig.r sig.s

/-- `BN_bn2bin` to the end of `width` bytes that are zero. -/
def bn2binPadded (width bn : Nat) : List UInt8 :=
  replicate (width - numBytes bn) 0 ++ bn2bin bn

/-- `EC_GROUP_get_degree`: the field has 256 bits. -/
def degree : Nat := 256

variable (S : EcdsaEnv)

/-- `i2o_ECPublicKey`: zero is one byte. -/
def i2oECPublicKey (Q : S.E.Point) (fCompressed : Bool) : List UInt8 :=
  if Q = 0 then [0]
  else if fCompressed then UInt8.ofNat (2 + S.E.y Q % 2) :: bn2binPadded 32 (S.E.x Q)
  else 4 :: (bn2binPadded 32 (S.E.x Q) ++ bn2binPadded 32 (S.E.y Q))

/-! ## §2. `CECKey`. -/

/-- `ECDSA_SIG_recover_key_GFp`: the public key, where it returns 1. -/
def ecdsaSigRecoverKeyGFp (ecsig : ECDSA_SIG) (msg : List UInt8) (recid : Nat) (check : Bool) :
    Option S.E.Point :=
  let i := recid / 2
  let x := S.E.n * i + ecsig.r
  if x ≥ S.E.p then none
  else
    match S.E.ofX x (recid % 2 == 1) with
    | none => none
    | some R =>
      if check && S.E.n • R != 0 then none
      else
        let e := bin2bn msg
        let e := if 8 * msg.length > degree then e >>> (8 - degree % 8) else e
        match modInverse ecsig.r S.E.n with
        | none => none
        | some rr =>
          -- `eor` and `sor`
          some (((S.E.n - e % S.E.n) % S.E.n * rr % S.E.n) • S.E.G +
            (ecsig.s * rr % S.E.n) • R)

def CECKey.getPubKey (Q : S.E.Point) (fCompressed : Bool) : CPubKey :=
  CPubKey.ofVch (i2oECPublicKey S Q fCompressed)

/-- `(unsigned char*)&hash` -/
def hashBytes (hash : UInt256) : List UInt8 := leBytes 32 hash.toNat

theorem hashBytes_length (hash : UInt256) : (hashBytes hash).length = 32 :=
  leBytes_length 32 hash.toNat

/-- Whether the candidate `i` is the signer's key. -/
def recoversKey (sig : ECDSA_SIG) (hash : UInt256) (pubkey : CPubKey) (i : Nat) : Bool :=
  match ecdsaSigRecoverKeyGFp S sig (hashBytes hash) i true with
  | none => false
  | some Q => CECKey.getPubKey S Q true == pubkey

/-- `CECKey::SignCompact`, of the private key `priv`: the bytes and the number, or none where it
returns false. -/
def CECKey.signCompact (priv : Nat) (hash : UInt256) (k : Nat) :
    Except Abort (Option (List UInt8 × Nat)) :=
  match S.ECDSA_do_sign (hashBytes hash) priv k with
  | none => .ok none
  | some sig =>
    if sig.r.size ≤ 256 && sig.s.size ≤ 256 then
      let pubkey := CECKey.getPubKey S (priv • S.E.G) true
      match (range 4).find? (recoversKey S sig hash pubkey) with
      | none => .error (.threw "fOk")
      | some i => .ok (some (bn2binPadded 32 sig.r ++ bn2binPadded 32 sig.s, i))
    else .ok none

def CECKey.recover (hash : UInt256) (p64 : List UInt8) (i : Nat) : Option S.E.Point :=
  if i ≥ 3 then none
  else
    let sig : ECDSA_SIG := ⟨bin2bn (p64.take 32), bin2bn ((p64.drop 32).take 32)⟩
    ecdsaSigRecoverKeyGFp S sig (hashBytes hash) i false

/-! ## §3. `CKey`. -/

/-- The loop of `CKey::Check` that compares. -/
def checkLoop : List UInt8 → List UInt8 → Bool
  | b :: vch, m :: vchMax => if b < m then true else if b > m then false else checkLoop vch vchMax
  | _, _ => true

def CKey.check (vchMax vch : List UInt8) : Bool :=
  if vch.all (· == 0) then false else checkLoop vch vchMax

/-- `vchMax`: the order minus one. -/
def vchMax : List UInt8 := bn2binPadded 32 (S.E.n - 1)

/-- `CKey`: a key is valid where it was checked. -/
structure CKey where
  fValid : Bool
  fCompressed : Bool
  vch : List UInt8
  size : vch.length = 32
  checked : fValid = true → CKey.check (vchMax S) vch = true

variable {S}

/-- `SetSecretBytes`: the number of the key. -/
def CKey.priv (key : CKey S) : Nat := bin2bn key.vch

/-- `CKey::GetPubKey`, of a valid key. -/
def CKey.getPubKey (key : CKey S) : CPubKey :=
  CECKey.getPubKey S (key.priv • S.E.G) key.fCompressed

/-- `CKey::SignCompact`, with the nonce that is drawn. -/
def CKey.signCompact (key : CKey S) (hash : UInt256) (k : Nat) :
    Except Abort (Option (List UInt8)) := do
  if !key.fValid then return none
  else
    match ← CECKey.signCompact S key.priv hash k with
    | none => return none
    | some (p64, i) =>
      return some (UInt8.ofNat (27 + i + if key.fCompressed then 4 else 0) :: p64)

/-! ## §4. `CPubKey`. -/

variable (S)

/-- The signer of the node, whose nonces are drawn from the key and the hash. -/
def ecdsaCrypto (H : Hashes) (draw : CKey S → UInt256 → Nat) : Crypto where
  toHashes := H
  CKey := CKey S
  getPubKey := CKey.getPubKey
  signCompact key hash := (key.signCompact hash (draw key hash)).toOption.join
  recover hash p64 recid fComp :=
    (CECKey.recover S hash p64 recid.toNat).map (CECKey.getPubKey S · fComp)

/-- `CPubKey::VerifyCompact` -/
def verifyCompact (pubkey : CPubKey) (hash : UInt256) (vchSig : List UInt8) : Bool :=
  if !pubKeyIsValid pubkey then false
  else if vchSig.length ≠ 65 then false
  else
    let recid := (vchSig.headD 0 - 27) &&& 3
    match CECKey.recover S hash vchSig.tail recid.toNat with
    | none => false
    | some Q => pubkey == CECKey.getPubKey S Q (pubkey.length == 33)

/-! ## §5. Bytes of a number. -/

theorem ofLEBytes_zeros (z : Nat) : ofLEBytes (replicate z 0) = 0 := by
  induction z with
  | zero => rfl
  | succ z ih => rw [replicate_succ, ofLEBytes, ih, UInt8.toNat_zero]

@[simp] theorem bin2bn_bn2binPadded (width bn : Nat) : bin2bn (bn2binPadded width bn) = bn := by
  unfold bn2binPadded bin2bn
  rw [reverse_append, reverse_replicate, ofLEBytes_append, ofLEBytes_zeros,
    Nat.mul_zero, add_zero]
  exact bin2bn_bn2bin bn

theorem bn2binPadded_length {width bn : Nat} (h : bn < 256 ^ width) :
    (bn2binPadded width bn).length = width := by
  have hle := numBytes_le_iff.mpr h
  rw [bn2binPadded, length_append, length_replicate, bn2bin_length]
  omega

theorem bn2binPadded_inj {width a b : Nat} (h : bn2binPadded width a = bn2binPadded width b) :
    a = b := by
  rw [← bin2bn_bn2binPadded width a, h, bin2bn_bn2binPadded]

theorem bin2bn_eq_value (bs : List UInt8) : bin2bn bs = Radix.value 256 bs := by
  unfold bin2bn Radix.value
  induction bs.reverse with
  | nil => rfl
  | cons b bs ih =>
    rw [map_cons, ofDigits_cons, ofLEBytes, ih]

/-! ## §6. Keys. -/

theorem checkLoop_iff {vch vchMax : List UInt8} (hlen : vch.length = vchMax.length) :
    checkLoop vch vchMax = true ↔ Radix.value 256 vch ≤ Radix.value 256 vchMax := by
  induction vch generalizing vchMax with
  | nil =>
    rw [value_nil]
    exact ⟨fun _ => zero_le _, fun _ => rfl⟩
  | cons b vch ih =>
    cases vchMax with
    | nil => cases hlen
    | cons m vchMax =>
      have hlen' : vch.length = vchMax.length := Nat.succ.inj hlen
      rw [checkLoop]
      rcases lt_trichotomy b.toNat m.toNat with hlt | heq | hgt
      · have hlt' : b < m := lt_iff_toNat_lt.mpr hlt
        rw [if_pos hlt']
        exact iff_of_true rfl (value_cons_lt hlen' (digits_bytes _) hlt').le
      · obtain rfl := UInt8.toNat_inj.mp heq
        rw [if_neg (UInt8.lt_irrefl b), if_neg (UInt8.lt_irrefl b), ih hlen',
          value_cons, value_cons, hlen', add_le_add_iff_left]
      · have hgt' : m < b := lt_iff_toNat_lt.mpr hgt
        rw [if_neg (UInt8.lt_asymm hgt'), if_pos hgt']
        refine iff_of_false (by decide) (Nat.not_le_of_lt ?_)
        exact Radix.value_cons_lt hlen'.symm (digits_bytes _) hgt'

theorem check_spec {vch vchMax : List UInt8} (hlen : vch.length = vchMax.length)
    (h : CKey.check vchMax vch = true) : 0 < bin2bn vch ∧ bin2bn vch ≤ bin2bn vchMax := by
  unfold CKey.check at h
  split_ifs at h with hzero
  rw [bin2bn_eq_value, bin2bn_eq_value]
  refine ⟨pos_of_ne_zero fun hvalue => hzero ?_, (checkLoop_iff hlen).mp h⟩
  have hreplicate : vch = replicate vch.length 0 :=
    eq_of_value_eq length_replicate.symm (digits_bytes _)
      (digits_bytes _) (hvalue.trans (value_replicate_zero 256 _).symm)
  rw [hreplicate]
  exact all_replicate.trans (by simp)

variable {S}

/-- **A valid key** is a number below the order, and not zero. -/
theorem CKey.priv_range (hS : S.Exact) (key : CKey S) (h : key.fValid = true) :
    0 < key.priv ∧ key.priv < S.E.n := by
  have hpos := hS.group.n_pos
  have hn := hS.n_le
  have hmax : (vchMax S).length = 32 := bn2binPadded_length (by omega)
  obtain ⟨hlow, hhigh⟩ := check_spec (key.size.trans hmax.symm) (key.checked h)
  rw [vchMax, bin2bn_bn2binPadded] at hhigh
  unfold CKey.priv
  exact ⟨hlow, by omega⟩

theorem i2oECPublicKey_valid (hS : S.Exact) {Q : S.E.Point} (hQ : Q ≠ 0) (fCompressed : Bool) :
    pubKeyIsValid (i2oECPublicKey S Q fCompressed) = true ∧
      (i2oECPublicKey S Q fCompressed).length = if fCompressed then 33 else 65 := by
  have hx := (hS.group.x_lt Q hQ).trans_le hS.p_le
  have hy := (hS.group.y_lt Q hQ).trans_le hS.p_le
  rw [i2oECPublicKey, if_neg hQ]
  cases fCompressed with
  | true =>
    have hlen : (UInt8.ofNat (2 + S.E.y Q % 2) :: bn2binPadded 32 (S.E.x Q)).length = 33 := by
      rw [length_cons, bn2binPadded_length hx]
    have hheader : pubKeyLen (UInt8.ofNat (2 + S.E.y Q % 2)) = 33 := by
      rcases mod_two_eq_zero_or_one (S.E.y Q) with h | h <;> rw [h] <;> rfl
    refine ⟨?_, hlen⟩
    rw [if_pos rfl, pubKeyIsValid, hheader, hlen]
    rfl
  | false =>
    have hlen : (4 :: (bn2binPadded 32 (S.E.x Q) ++ bn2binPadded 32 (S.E.y Q))).length = 65 := by
      rw [length_cons, length_append, bn2binPadded_length hx, bn2binPadded_length hy]
    refine ⟨?_, hlen⟩
    rw [if_neg (by decide), pubKeyIsValid, hlen]
    rfl

theorem getPubKey_eq (hS : S.Exact) {Q : S.E.Point} (hQ : Q ≠ 0) (fCompressed : Bool) :
    CECKey.getPubKey S Q fCompressed = i2oECPublicKey S Q fCompressed := by
  unfold CECKey.getPubKey CPubKey.ofVch
  rw [if_pos (i2oECPublicKey_valid hS hQ fCompressed).1]

theorem getPubKey_inj (hS : S.Exact) {P Q : S.E.Point} (hQ : Q ≠ 0)
    (h : CECKey.getPubKey S P true = CECKey.getPubKey S Q true) : P = Q := by
  by_cases hP : P = 0
  · subst hP
    have hlen := (i2oECPublicKey_valid hS hQ true).2
    rw [← getPubKey_eq hS hQ, ← h] at hlen
    unfold CECKey.getPubKey i2oECPublicKey at hlen
    rw [if_pos rfl] at hlen
    exact absurd hlen (by decide)
  · rw [getPubKey_eq hS hP, getPubKey_eq hS hQ] at h
    unfold i2oECPublicKey at h
    rw [if_neg hP, if_neg hQ, if_pos rfl, if_pos rfl] at h
    obtain ⟨hheader, hx⟩ := cons.inj h
    refine hS.group.ext hP hQ (bn2binPadded_inj hx) ?_
    rcases mod_two_eq_zero_or_one (S.E.y P) with hyP | hyP <;>
      rcases mod_two_eq_zero_or_one (S.E.y Q) with hyQ | hyQ <;>
      rw [hyP, hyQ] at hheader ⊢ <;> cases hheader

/-! ## §7. Recovery. -/

variable {msg : List UInt8} {sig : ECDSA_SIG} {priv k : Nat}

/-- What is computed from a signature of 32 bytes: every point is one of the group, and nothing
is shifted out of the message. -/
theorem ecdsaSigRecoverKeyGFp_eq (hS : S.Exact) (hlen : msg.length = 32)
    (hsig : Signed S.E priv (bin2bn msg) k sig.r sig.s) :
    ∃ rr, sig.r * rr ≡ 1 [MOD S.E.n] ∧ ∀ recid check,
      ecdsaSigRecoverKeyGFp S sig msg recid check =
        if S.E.n * (recid / 2) + sig.r ≥ S.E.p then none
        else (S.E.ofX (S.E.n * (recid / 2) + sig.r) (recid % 2 == 1)).map
          (recovered S.E · (bin2bn msg) sig.s rr) := by
  have hcoprime := coprime_of_lt hS.group hsig.r_pos (hsig.r_lt hS.group)
  have hne : NeZero S.E.n := ⟨hS.group.n_pos.ne'⟩
  have hinverse : modInverse sig.r S.E.n = some ((sig.r : ZMod S.E.n)⁻¹).val := if_pos hcoprime
  refine ⟨_, mul_modInverse hinverse, fun recid check => ?_⟩
  unfold ecdsaSigRecoverKeyGFp
  dsimp only
  by_cases hx : S.E.n * (recid / 2) + sig.r ≥ S.E.p
  · rw [if_pos hx, if_pos hx]
  · rw [if_neg hx, if_neg hx]
    cases S.E.ofX (S.E.n * (recid / 2) + sig.r) (recid % 2 == 1) with
    | none => rfl
    | some R =>
      dsimp only
      rw [hS.group.n_smul R, bne_self_eq_false, Bool.and_false, if_neg (by decide), hlen,
        if_neg (by decide), hinverse]
      rfl

/-- **The candidate that recovers the signer's key** is the nonce's point. -/
theorem ecdsaSigRecoverKeyGFp_eq_some_iff (hS : S.Exact) (hlen : msg.length = 32)
    (hsig : Signed S.E priv (bin2bn msg) k sig.r sig.s) (recid : Nat) (check : Bool) :
    ecdsaSigRecoverKeyGFp S sig msg recid check = some (priv • S.E.G) ↔
      recid = nonceId S.E k := by
  obtain ⟨rr, hrr, heq⟩ := ecdsaSigRecoverKeyGFp_eq hS hlen hsig
  rw [heq]
  constructor
  · intro h
    by_cases hx : S.E.n * (recid / 2) + sig.r ≥ S.E.p
    · rw [if_pos hx] at h
      cases h
    · rw [if_neg hx] at h
      obtain ⟨R, hR, hkey⟩ := map_eq_some_iff.mp h
      have hnonce := (recovered_eq_iff hS.group hsig hrr R).mp hkey
      exact (candidate_iff hS.group hsig recid (Nat.lt_of_not_le hx) hR).mp hnonce
  · rintro rfl
    obtain ⟨hx, hR⟩ := exists_candidate hS.group hsig
    rw [if_neg (Nat.not_le_of_lt hx), hR, map_some,
      (recovered_eq_iff hS.group hsig hrr _).mpr rfl]

theorem recoversKey_iff (hS : S.Exact) {hash : UInt256}
    (hsig : Signed S.E priv (bin2bn (hashBytes hash)) k sig.r sig.s) (hpub : priv • S.E.G ≠ 0)
    (i : Nat) :
    recoversKey S sig hash (CECKey.getPubKey S (priv • S.E.G) true) i = true ↔
      i = nonceId S.E k := by
  have hiff := ecdsaSigRecoverKeyGFp_eq_some_iff hS (hashBytes_length hash) hsig i true
  rw [← hiff]
  unfold recoversKey
  constructor
  · intro h
    cases hkey : ecdsaSigRecoverKeyGFp S sig (hashBytes hash) i true with
    | none =>
      rw [hkey] at h
      cases h
    | some Q =>
      rw [hkey] at h
      exact congrArg some (getPubKey_inj hS hpub (eq_of_beq h))
  · intro h
    rw [h]
    exact beq_self_eq_true _

theorem find_range_eq_some {p : Nat → Bool} {n i : Nat} (hi : i < n)
    (h : ∀ j, p j = true ↔ j = i) : (range n).find? p = some i := by
  cases hfind : (range n).find? p with
  | none =>
    exact absurd ((h i).mpr rfl) (find?_eq_none.mp hfind i (mem_range.mpr hi))
  | some j => rw [(h j).mp (find?_some hfind)]

theorem EcdsaEnv.Exact.size_le (hS : S.Exact) {bn : Nat} (h : bn < S.E.n) : bn.size ≤ 256 := by
  refine Nat.size_le.mpr (lt_of_lt_of_le h (hS.n_le.trans ?_))
  decide +kernel

def sigBytes (sig : ECDSA_SIG) : List UInt8 := bn2binPadded 32 sig.r ++ bn2binPadded 32 sig.s

/-- **Signing finds the nonce's point**, and its assertion holds. -/
theorem signCompact_eq (hS : S.Exact) (key : CKey S) (hvalid : key.fValid = true) {hash : UInt256}
    (hdo : S.ECDSA_do_sign (hashBytes hash) key.priv k = some sig) :
    key.signCompact hash k = .ok (some
      (UInt8.ofNat (27 + nonceId S.E k + if key.fCompressed then 4 else 0) :: sigBytes sig)) := by
  have hsig := hS.do_sign _ _ _ _ (hashBytes_length hash) hdo
  obtain ⟨hpos, hlt⟩ := key.priv_range hS hvalid
  have hpub := smul_ne_zero hS.group hpos hlt hS.group.G_ne
  have hr := hS.size_le (hsig.r_lt hS.group)
  have hs := hS.size_le hsig.s_lt
  have hfind := find_range_eq_some (nonceId_lt hS.group hsig) (recoversKey_iff hS hsig hpub)
  unfold CKey.signCompact CECKey.signCompact
  rw [hvalid, hdo]
  dsimp only
  rw [decide_eq_true hr, decide_eq_true hs, hfind]
  rfl

/-! ## §8. Reading a signature. -/

theorem header_spec (fCompressed : Bool) {i : Nat} (h : i < 4) :
    let header := UInt8.ofNat (27 + i + if fCompressed then 4 else 0) - 27
    (header &&& 3).toNat = i ∧ (header &&& 4 != 0) = fCompressed := by
  cases fCompressed <;> interval_cases i <;> decide

theorem sigBytes_spec (hS : S.Exact) {d e : Nat} (hsig : Signed S.E d e k sig.r sig.s) :
    (sigBytes sig).length = 64 ∧ (sigBytes sig).take 32 = bn2binPadded 32 sig.r ∧
      ((sigBytes sig).drop 32).take 32 = bn2binPadded 32 sig.s := by
  have hr : (bn2binPadded 32 sig.r).length = 32 :=
    bn2binPadded_length ((hsig.r_lt hS.group).trans_le hS.n_le)
  have hs : (bn2binPadded 32 sig.s).length = 32 :=
    bn2binPadded_length (hsig.s_lt.trans_le hS.n_le)
  unfold sigBytes
  refine ⟨by rw [length_append, hr, hs], take_left' hr, ?_⟩
  rw [drop_left' hr]
  exact take_of_length_le hs.le

/-- **The reader** has the signer's key, or none where the candidate is the last one. -/
theorem recover_sigBytes (hS : S.Exact) {hash : UInt256}
    (hsig : Signed S.E priv (bin2bn (hashBytes hash)) k sig.r sig.s) :
    CECKey.recover S hash (sigBytes sig) (nonceId S.E k) =
      if nonceId S.E k = 3 then none else some (priv • S.E.G) := by
  have hlt := nonceId_lt hS.group hsig
  obtain ⟨_, hr, hs⟩ := sigBytes_spec hS hsig
  unfold CECKey.recover
  by_cases hthree : nonceId S.E k = 3
  · rw [if_pos hthree, hthree, if_pos (by decide)]
  · rw [if_neg hthree, if_neg (by omega), hr, hs, bin2bn_bn2binPadded, bin2bn_bn2binPadded]
    exact (ecdsaSigRecoverKeyGFp_eq_some_iff hS (hashBytes_length hash) hsig _ false).mpr rfl

section Reading

variable (hS : S.Exact) (H : Hashes) (draw : CKey S → UInt256 → Nat) (key : CKey S)
  (hvalid : key.fValid = true) {hash : UInt256}
  (hdo : S.ECDSA_do_sign (hashBytes hash) key.priv k = some sig)

include hS hdo in
theorem recoverCompact_eq :
    recoverCompact (ecdsaCrypto S H draw) hash
        (UInt8.ofNat (27 + nonceId S.E k + if key.fCompressed then 4 else 0) :: sigBytes sig) =
      if nonceId S.E k = 3 then none else some key.getPubKey := by
  have hsig := hS.do_sign _ _ _ _ (hashBytes_length hash) hdo
  obtain ⟨hlen, _, _⟩ := sigBytes_spec hS hsig
  obtain ⟨hid, hcomp⟩ := header_spec key.fCompressed (nonceId_lt hS.group hsig)
  rw [recoverCompact, length_cons, hlen, if_neg (by decide)]
  dsimp only [headD_cons, tail_cons, ecdsaCrypto]
  rw [hid, hcomp, recover_sigBytes hS hsig]
  split_ifs <;> rfl

include hS hvalid hdo in
theorem verifyCompact_eq :
    verifyCompact S key.getPubKey hash
        (UInt8.ofNat (27 + nonceId S.E k + if key.fCompressed then 4 else 0) :: sigBytes sig) =
      !decide (nonceId S.E k = 3) := by
  have hsig := hS.do_sign _ _ _ _ (hashBytes_length hash) hdo
  obtain ⟨hlen, _, _⟩ := sigBytes_spec hS hsig
  obtain ⟨hid, _⟩ := header_spec key.fCompressed (nonceId_lt hS.group hsig)
  obtain ⟨hpos, hlt⟩ := key.priv_range hS hvalid
  have hpub := smul_ne_zero hS.group hpos hlt hS.group.G_ne
  obtain ⟨hform, hsize⟩ := i2oECPublicKey_valid hS hpub key.fCompressed
  have hbytes : key.getPubKey = i2oECPublicKey S (key.priv • S.E.G) key.fCompressed :=
    getPubKey_eq hS hpub key.fCompressed
  have hcompressed : (key.getPubKey.length == 33) = key.fCompressed := by
    rw [hbytes, hsize]
    cases key.fCompressed <;> rfl
  rw [verifyCompact, hbytes, hform, ← hbytes, length_cons, hlen]
  dsimp only [headD_cons, tail_cons]
  rw [hid, recover_sigBytes hS hsig, hcompressed]
  by_cases hthree : nonceId S.E k = 3
  · rw [if_pos hthree, decide_eq_true hthree]
    rfl
  · rw [if_neg hthree, decide_eq_false hthree]
    exact beq_self_eq_true key.getPubKey

end Reading

/-! ## §9. The result. -/

/-- **A compact signature is recovered** unless the nonce's point is past the order with an odd
`y`: the key that is recovered is the signer's, the signature verifies under it, and so do the
messages with that hash. -/
theorem compactSig_recovers_iff (hS : S.Exact) (H : Hashes) (draw : CKey S → UInt256 → Nat)
    (key : CKey S) (hvalid : key.fValid = true) (hash : UInt256) (k : Nat) (sig : ECDSA_SIG)
    (hdo : S.ECDSA_do_sign (hashBytes hash) key.priv k = some sig) :
    (∃ vchSig, key.signCompact hash k = .ok (some vchSig) ∧
      recoverCompact (ecdsaCrypto S H draw) hash vchSig = some key.getPubKey ∧
      verifyCompact S key.getPubKey hash vchSig = true ∧
      ∀ strMessage, messageHash (ecdsaCrypto S H draw) strMessage = hash →
        verifyMessage (ecdsaCrypto S H draw) key.getPubKey vchSig strMessage = true) ↔
    ¬(S.E.n ≤ S.E.x (k • S.E.G) ∧ S.E.y (k • S.E.G) % 2 = 1) := by
  have hsig := hS.do_sign _ _ _ _ (hashBytes_length hash) hdo
  have hsign := signCompact_eq hS key hvalid hdo
  have hrecover := recoverCompact_eq hS H draw key hdo
  have hverify := verifyCompact_eq hS key hvalid hdo
  rw [← nonceId_eq_three_iff hS.group hsig]
  constructor
  · rintro ⟨vchSig, hsign', _, hverify', _⟩ hthree
    obtain rfl := Option.some.inj (Except.ok.inj (hsign.symm.trans hsign'))
    rw [hverify, decide_eq_true hthree] at hverify'
    cases hverify'
  · intro hthree
    rw [if_neg hthree] at hrecover
    rw [decide_eq_false hthree] at hverify
    refine ⟨_, hsign, hrecover, hverify, fun strMessage hhash => ?_⟩
    rw [verifyMessage, hhash, hrecover]
    exact beq_self_eq_true _

/-! ## §10. A small group. -/

def smallCurve : Curve where
  Point := ZMod 7
  G := (1 : ZMod 7)
  n := 7
  p := 13
  x P := [0, 8, 11, 7, 7, 11, 8].getD P.val 0
  y P := [0, 5, 5, 8, 5, 8, 8].getD P.val 0
  ofX x odd := ([1, 2, 3, 4, 5, 6] : List (ZMod 7)).find? fun P =>
    [0, 8, 11, 7, 7, 11, 8].getD P.val 0 == x &&
      ([0, 5, 5, 8, 5, 8, 8].getD P.val 0 % 2 == 1) == odd

instance : Fintype smallCurve.Point := ZMod.fintype 7

theorem smallCurve_ofX : ∀ (x : Fin 13) (odd : Bool) (P : smallCurve.Point),
    smallCurve.ofX x odd = some P ↔
      P ≠ 0 ∧ smallCurve.x P = x ∧ (smallCurve.y P % 2 == 1) = odd := by
  decide +kernel

theorem smallCurve_exact : smallCurve.Exact where
  prime := by decide
  n_smul := by decide +kernel
  G_ne := by decide
  x_lt := by decide +kernel
  y_lt := by decide +kernel
  ofX_eq_some x odd P hx := smallCurve_ofX ⟨x, hx⟩ odd P
  p_lt := by decide

def smallEnv : EcdsaEnv where
  E := smallCurve
  ECDSA_do_sign dgst priv k :=
    (sign smallCurve priv (bin2bn dgst) k).map fun rs => ⟨rs.1, rs.2⟩

theorem smallEnv_exact : smallEnv.Exact where
  group := smallCurve_exact
  p_le := by decide
  n_le := by decide
  do_sign dgst priv k sig _ h := by
    obtain ⟨rs, hsign, rfl⟩ := map_eq_some_iff.mp h
    exact sign_spec smallCurve_exact hsign

def smallKey : CKey smallEnv where
  fValid := true
  fCompressed := true
  vch := replicate 31 0 ++ [1]
  size := by decide
  checked _ := by decide +kernel

/-- With the nonce 6, whose point is `(8, 8)`, the signature is recovered. -/
theorem compactSig_recovers_iff_smallKey :
    ∃ vchSig, smallKey.signCompact 0 6 = .ok (some vchSig) ∧
      recoverCompact (ecdsaCrypto smallEnv sampleHashes fun _ _ => 6) 0 vchSig =
        some smallKey.getPubKey ∧
      verifyCompact smallEnv smallKey.getPubKey 0 vchSig = true ∧
      ∀ strMessage,
        messageHash (ecdsaCrypto smallEnv sampleHashes fun _ _ => 6) strMessage = 0 →
        verifyMessage (ecdsaCrypto smallEnv sampleHashes fun _ _ => 6) smallKey.getPubKey vchSig
          strMessage = true :=
  (compactSig_recovers_iff smallEnv_exact sampleHashes (fun _ _ => 6) smallKey rfl 0 6 ⟨1, 6⟩
    (by decide +kernel)).mpr (by decide +kernel)

/-- With the nonce 1, whose point is `(8, 5)`, the signer makes a signature and the reader
refuses it. -/
theorem compactSig_refused :
    ∃ vchSig, smallKey.signCompact 0 1 = .ok (some vchSig) ∧
      recoverCompact (ecdsaCrypto smallEnv sampleHashes fun _ _ => 1) 0 vchSig = none ∧
      verifyCompact smallEnv smallKey.getPubKey 0 vchSig = false :=
  ⟨UInt8.ofNat (27 + 3 + 4) :: sigBytes ⟨1, 1⟩, by decide +kernel, by decide +kernel,
    by decide +kernel⟩

end Fantom.Script
