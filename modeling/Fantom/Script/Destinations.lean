/-
  Fantom.Script.Destinations — Scripts made for a destination, and the destinations read back from a
  script.

  * `destinations_roundTrip` — all of it.

  The scripts are made with stream operators and read with templates; that the two agree is `Form`,
  which both are about.
-/
import Fantom.Script.AddrIndex
import Fantom.Script.Forms
import Fantom.Script.Pushes

namespace Fantom.Script

open Core List UInt8 CScript

/-! ## §1. Scripts for a destination. -/

variable (b : UInt160)

/-- `CScript() << b` of a `uint160`. -/
def CScript.pushUint160 : CScript := 20 :: leBytes 20 b.toNat

variable (dest : CTxDestination)

/-- `CScriptVisitor`, for the ids of a key and of a script. -/
def scriptVisitor : CScript :=
  match dest with
  | .CKeyID keyID =>
    [OP_DUP, OP_HASH160] ++ pushUint160 keyID ++ [OP_EQUALVERIFY, OP_CHECKSIG]
  | .CScriptID scriptID => [OP_HASH160] ++ pushUint160 scriptID ++ [OP_EQUAL]

def CScript.setDestination : CScript := scriptVisitor dest

def getScriptForDestination : CScript := scriptVisitor dest

/-- `CScript::EncodeOP_N`; none where its assertion fails. -/
def encodeOP_N (n : Int32) : Option UInt8 :=
  if n ≥ 0 ∧ n ≤ 16 then
    if n = 0 then some 0 else some (OP_1 + n.toUInt32.toUInt8 - 1)
  else none

/-- `CScript::SetMultisig`; none where an assertion fails, that of `EncodeOP_N` or the one on
the size of a key. -/
def CScript.setMultisig (nRequired : Int32) (keys : List CPubKey) : Option CScript :=
  match encodeOP_N nRequired, encodeOP_N (Int32.ofNat keys.length) with
  | some opM, some opN =>
    if keys.all fun key => key.length < OP_PUSHDATA1.toNat then
      some ([opM] ++ (keys.map pushPubKey).flatten ++ [opN, OP_CHECKMULTISIG])
    else none
  | _, _ => none

/-! ## §2. The destinations of a script. -/

/-- What `ExtractDestinations` gives back. -/
structure Destinations where
  typeRet : TxnOutType
  addressRet : List CTxDestination
  nRequiredRet : Int32
deriving DecidableEq

variable (H : Hashes)

/-- `CPubKey(vch).GetID()` -/
def keyIDOf (vch : Valtype) : UInt160 := H.hash160 (CPubKey.ofVch vch)

variable (script : CScript)

def CScript.getID : UInt160 := H.hash160 script

/-- `CPubKey::IsFullyValid`, with OpenSSL's reading of a key. -/
def isFullyValid (setPubKey : CPubKey → Bool) (key : CPubKey) : Bool :=
  pubKeyIsValid key && setPubKey key

/-- `ExtractDestinations` -/
def extractDestinations (scriptPubKey : CScript) : Option Destinations :=
  match solver scriptPubKey with
  | none => none
  | some (typeRet, vSolutions) =>
    if typeRet = .TX_NULL_DATA then none
    else if typeRet = .TX_MULTISIG then
      some ⟨typeRet, (multiSigKeys vSolutions).map fun vch => .CKeyID (keyIDOf H vch),
        Int32.ofNat (firstByte vSolutions.head?).toNat⟩
    else (extractDestination H scriptPubKey).map fun address => ⟨typeRet, [address], 1⟩

/-! ## §3. The forms of what is made. -/

theorem pushOf_pushUint160 : PushOf (leBytes 20 b.toNat) (pushUint160 b) :=
  .direct (by decide) (by rw [leBytes_length]; rfl)

theorem pubKeyIsValid_length {key : CPubKey} (h : pubKeyIsValid key = true) :
    key.length = 33 ∨ key.length = 65 := by
  cases key with
  | nil => cases h
  | cons chHeader key =>
    unfold pubKeyIsValid pubKeyLen at h
    simp only [Bool.and_eq_true, bne_iff_ne, beq_iff_eq] at h
    obtain ⟨hpos, hlen⟩ := h
    split at hlen
    · exact .inl hlen.symm
    · split at hlen
      · exact .inr hlen.symm
      · rename_i h1 h2
        rw [if_neg h1, if_neg h2] at hpos
        exact absurd rfl hpos

theorem isPubKeySize_of_valid {key : CPubKey} (h : pubKeyIsValid key = true) :
    isPubKeySize key = true := by
  unfold isPubKeySize
  rcases pubKeyIsValid_length h with hlen | hlen <;> simp [hlen]

theorem pushOf_pushPubKey {key : CPubKey} (h : key.length < OP_PUSHDATA1.toNat) :
    PushOf key (pushPubKey key) := by
  have hdata1 : OP_PUSHDATA1.toNat = 76 := rfl
  have hsize : (UInt8.ofNat key.length).toNat = key.length := by
    rw [toNat_ofNat']
    omega
  exact .direct (by rw [lt_iff_toNat_lt, hsize]; exact h) hsize

theorem encodeOP_N_ofNat :
    ∀ n < 17, 0 < n → encodeOP_N (Int32.ofNat n) = some (opNumber (UInt8.ofNat n)) := by
  decide

variable {H}

theorem uint160_leBytes : uint160 (leBytes 20 b.toNat) = b := by
  rw [uint160, if_pos (leBytes_length 20 b.toNat),
    ofLEBytes_leBytes (show b.toNat < 256 ^ 20 from b.isLt), BitVec.ofNat_toNat,
    BitVec.setWidth_eq]

def CTxDestination.formOf : CTxDestination → TxnOutType
  | CKeyID _ => .TX_PUBKEYHASH
  | CScriptID _ => .TX_SCRIPTHASH

theorem form_scriptVisitor :
    Form (scriptVisitor dest) dest.formOf [leBytes 20 dest.value.toNat] := by
  cases dest with
  | CKeyID keyID => exact .pubKeyHash (leBytes_length 20 _) (pushOf_pushUint160 keyID)
  | CScriptID scriptID => exact .scriptHash (leBytes_length 20 _)

/-- **The destination is read back** from the script that was made for it. -/
theorem extractDestination_scriptVisitor (dest : CTxDestination) :
    extractDestination H (scriptVisitor dest) = some dest := by
  have hsolver := (form_scriptVisitor dest).solver_eq
  rw [extractDestination, hsolver]
  cases dest with
  | CKeyID keyID =>
    show some (CTxDestination.CKeyID (uint160 (leBytes 20 keyID.toNat))) = _
    rw [uint160_leBytes]
  | CScriptID scriptID =>
    show some (CTxDestination.CScriptID (uint160 (leBytes 20 scriptID.toNat))) = _
    rw [uint160_leBytes]

theorem forall₂_pushPubKey {keys : List CPubKey} (h : ∀ key ∈ keys, pubKeyIsValid key = true) :
    List.Forall₂ PushOf keys (keys.map pushPubKey) := by
  rw [forall₂_map_right_iff, forall₂_same]
  intro key hkey
  have hdata1 : OP_PUSHDATA1.toNat = 76 := rfl
  apply pushOf_pushPubKey
  rcases pubKeyIsValid_length (h key hkey) with hlen | hlen <;> omega

theorem setMultisig_form {m : Nat} {keys : List CPubKey} (hm : 1 ≤ m) (hmn : m ≤ keys.length)
    (hn : keys.length ≤ 16) (hkeys : ∀ key ∈ keys, pubKeyIsValid key = true) :
    ∃ script, setMultisig (Int32.ofNat m) keys = some script ∧
      Form script .TX_MULTISIG ([UInt8.ofNat m] :: (keys ++ [[UInt8.ofNat keys.length]])) := by
  have hto {k : Nat} (h : k ≤ 16) : (UInt8.ofNat k).toNat = k := by
    rw [toNat_ofNat']
    omega
  have hshort : keys.all (fun key => key.length < OP_PUSHDATA1.toNat) = true := by
    have hdata1 : OP_PUSHDATA1.toNat = 76 := rfl
    rw [all_eq_true]
    intro key hkey
    rw [decide_eq_true_eq]
    rcases pubKeyIsValid_length (hkeys key hkey) with hlen | hlen <;> omega
  refine ⟨opNumber (UInt8.ofNat m) :: ((keys.map pushPubKey).flatten ++
    [opNumber (UInt8.ofNat keys.length), OP_CHECKMULTISIG]), ?_, ?_⟩
  · unfold setMultisig
    rw [encodeOP_N_ofNat m (by omega) hm, encodeOP_N_ofNat keys.length (by omega) (by omega)]
    exact if_pos hshort
  · refine .multiSig (forall₂_pushPubKey hkeys) (fun key hkey => isPubKeySize_of_valid (hkeys key hkey))
      ?_ ?_ ?_ (hto hn).symm
    · rw [le_iff_toNat_le, hto (by omega)]
      exact hm
    · rw [le_iff_toNat_le, hto (by omega), hto hn]
      exact hmn
    · rw [le_iff_toNat_le, hto hn]
      exact hn

/-- **The keys are read back** from the script that was made for them, in their order and with
the count. -/
theorem extractDestinations_multiSig {m : Nat} {keys : List CPubKey} {script : CScript}
    (hm : m ≤ 16) (hkeys : ∀ key ∈ keys, pubKeyIsValid key = true) {n : UInt8}
    (h : solver script = some (.TX_MULTISIG, [UInt8.ofNat m] :: (keys ++ [[n]]))) :
    extractDestinations H script =
      some ⟨.TX_MULTISIG, keys.map fun key => .CKeyID (H.hash160 key), Int32.ofNat m⟩ := by
  have hmid : multiSigKeys ([UInt8.ofNat m] :: (keys ++ [[n]])) = keys := by
    rw [multiSigKeys, drop_succ_cons, drop_zero, dropLast_concat]
  have hids : (keys.map fun vch => CTxDestination.CKeyID (keyIDOf H vch)) =
      keys.map fun key => .CKeyID (H.hash160 key) := by
    refine map_congr_left fun key hkey => ?_
    unfold keyIDOf CPubKey.ofVch
    rw [if_pos (hkeys key hkey)]
  have hcount : (UInt8.ofNat m).toNat = m := by
    rw [toNat_ofNat']
    omega
  rw [extractDestinations, h]
  dsimp only
  rw [if_neg (by decide), if_pos rfl, hmid, hids]
  show some (Destinations.mk _ _ (Int32.ofNat (UInt8.ofNat m).toNat)) = _
  rw [hcount]

variable (H) in
/-- The script that pays to the hash of another one. -/
def payToHashOf : CScript :=
  getScriptForDestination (.CScriptID (getID H script))

theorem solver_payToHashOf : solver (payToHashOf H script) =
    some (.TX_SCRIPTHASH, [leBytes 20 (getID H script).toNat]) :=
  (form_scriptVisitor (.CScriptID (getID H script))).solver_eq

/-! ## §4. The way back. -/

/-- **Destinations are read back from the scripts made for them**: an id of a key or of a
script, the keys of a multisig script, and the hash of either script. -/
theorem destinations_roundTrip (H : Hashes) (setPubKey : CPubKey → Bool) :
    (∀ dest, extractDestination H (getScriptForDestination dest) = some dest ∧
      extractDestination H (setDestination dest) = some dest ∧
      solver (payToHashOf H (getScriptForDestination dest)) =
        some (.TX_SCRIPTHASH, [leBytes 20 (getID H (getScriptForDestination dest)).toNat])) ∧
    ∀ (m : Nat) (keys : List CPubKey), 1 ≤ m → m ≤ keys.length → keys.length ≤ 16 →
      (∀ key ∈ keys, isFullyValid setPubKey key = true) →
      ∃ script, setMultisig (Int32.ofNat m) keys = some script ∧
        solver script = some (.TX_MULTISIG,
          [UInt8.ofNat m] :: (keys ++ [[UInt8.ofNat keys.length]])) ∧
        extractDestinations H script =
          some ⟨.TX_MULTISIG, keys.map fun key => .CKeyID (H.hash160 key), Int32.ofNat m⟩ ∧
        solver (payToHashOf H script) =
          some (.TX_SCRIPTHASH, [leBytes 20 (getID H script).toNat]) := by
  refine ⟨fun dest => ⟨extractDestination_scriptVisitor dest,
    extractDestination_scriptVisitor dest, solver_payToHashOf _⟩, ?_⟩
  intro m keys hm hmn hn hfull
  have hkeys : ∀ key ∈ keys, pubKeyIsValid key = true := by
    intro key hkey
    exact (Bool.and_eq_true_iff.mp (hfull key hkey)).1
  obtain ⟨script, hmade, hform⟩ := setMultisig_form hm hmn hn hkeys
  have hsolver := hform.solver_eq
  exact ⟨script, hmade, hsolver, extractDestinations_multiSig (by omega) hkeys hsolver,
    solver_payToHashOf script⟩

/-- One key of two. -/
theorem destinations_roundTrip_oneOfTwo :
    ∃ script, setMultisig 1 [2 :: replicate 32 7, 3 :: replicate 32 8] =
        some script ∧
      extractDestinations sampleHashes script = some ⟨.TX_MULTISIG,
        [.CKeyID (sampleHashes.hash160 (2 :: replicate 32 7)),
          .CKeyID (sampleHashes.hash160 (3 :: replicate 32 8))], 1⟩ := by
  obtain ⟨script, hmade, _, hextract, _⟩ :=
    (destinations_roundTrip sampleHashes fun _ => true).2 1
      [2 :: replicate 32 7, 3 :: replicate 32 8] (by decide) (by decide) (by decide)
      (by decide)
  exact ⟨script, hmade, hextract⟩

end Fantom.Script
