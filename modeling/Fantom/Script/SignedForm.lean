/-
  Fantom.Script.SignedForm — The signatures that a form of script gets, and what both interpreters
  make of them.

  * `SignedForm.endsTrue_of_fits`, `SignedForm.fits_of_endsTrue`.
-/
import Fantom.Script.Lockstep

namespace Fantom.Script

open Core Chain Lib List Nat Option

variable (S : SignEnv) (keystore : CKeyStore S)

/-! ## §1. Signing. -/

/-- `CKey::Sign` gives a signature with every valid key; it is strict DER with the low
second number, and verifies under the public key of its own key. -/
structure SignsWell : Prop where
  signs : ∀ key hash rng, S.isValid key = true → ((S.sign key hash rng).1).isSome = true
  strict : ∀ key hash rng vchSig, (S.sign key hash rng).1 = some vchSig →
    isLowDERSignature (vchSig ++ [SIGHASH_ALL]) = true
  verifies : ∀ key hash rng vchSig, (S.sign key hash rng).1 = some vchSig →
    S.verify (S.getPubKey key) hash vchSig = true

/-- The public key of the key that the store signs with for an id. -/
def usableKey (address : UInt160) : Option CPubKey :=
  (keystore.getKey address).bind fun key =>
    if S.isValid key then some (S.getPubKey key) else none

/-- The public keys of the keys that the store has for those of a script, in order. -/
def ownKeys (pubkeys : List Valtype) : List CPubKey :=
  pubkeys.filterMap fun pubkey => usableKey S keystore (S.getID (CPubKey.ofVch pubkey))

/-- A signature of `hash` by the key of `pubkey`, as it is pushed. -/
structure SignedBy (hash : UInt256) (pubkey : CPubKey) (vchSig : Valtype) : Prop where
  made : MadeByKey vchSig
  verifies : S.verify pubkey hash vchSig.dropLast = true

variable {S keystore}
variable (hS : SignsWell S) {hash : UInt256}

variable (hash) in
theorem sign1_none {address : UInt160} (h : usableKey S keystore address = none)
    (s : SignState S) :
    (sign1 S keystore hash sighashAll address s).1 = false ∧
      (sign1 S keystore hash sighashAll address s).2.scriptSigRet = s.scriptSigRet := by
  unfold sign1
  cases hget : keystore.getKey address with
  | none => exact ⟨rfl, rfl⟩
  | some key =>
    have hinvalid : S.isValid key = false := by
      rw [usableKey, hget, bind_some] at h
      split at h
      · cases h
      next hv => simpa using hv
    have hsign : S.sign key hash s.rng = (none, s.rng) := by
      rw [SignEnv.sign, hinvalid]
      rfl
    dsimp only
    rw [hsign]
    exact ⟨rfl, rfl⟩

include hS in
variable (hash) in
theorem sign1_some {address : UInt160} {pubkey : CPubKey}
    (h : usableKey S keystore address = some pubkey) (s : SignState S) :
    (sign1 S keystore hash sighashAll address s).1 = true ∧
      ∃ vchSig, SignedBy S hash pubkey vchSig ∧
        (sign1 S keystore hash sighashAll address s).2.scriptSigRet =
          s.scriptSigRet ++ pushes [vchSig] := by
  obtain ⟨key, hget, hkey⟩ := bind_eq_some_iff.mp h
  split at hkey
  next hvalid =>
    cases hkey
    obtain ⟨vchSig, hvch⟩ := isSome_iff_exists.mp (hS.signs key hash s.rng hvalid)
    obtain ⟨rng, hsign⟩ : ∃ rng, S.sign key hash s.rng = (some vchSig, rng) :=
      ⟨_, Prod.ext hvch rfl⟩
    have hbyte : sighashAll.toUInt32.toUInt8 = SIGHASH_ALL := rfl
    rw [sign1, hget]
    dsimp only
    rw [hsign, hbyte]
    refine ⟨rfl, vchSig ++ [SIGHASH_ALL], ⟨⟨hS.strict key hash s.rng vchSig hvch, ?_⟩, ?_⟩, ?_⟩
    · exact getLast?_concat
    · rw [dropLast_concat]
      exact hS.verifies key hash s.rng vchSig hvch
    · rw [pushes_singleton]
  next => cases hkey

include hS in
variable (hash) in
/-- **The loop of `SignN`** signs with the first keys that the store has, as many as are
missing. -/
theorem signNLoop_spec (nRequired : Nat) (pubkeys : List Valtype) (nSigned : Nat)
    (s : SignState S) :
    ∃ sigs, List.Forall₂ (SignedBy S hash)
        ((ownKeys S keystore pubkeys).take (nRequired - nSigned)) sigs ∧
      (signNLoop S keystore hash sighashAll nRequired pubkeys nSigned s).1 =
        nSigned + sigs.length ∧
      (signNLoop S keystore hash sighashAll nRequired pubkeys nSigned s).2.scriptSigRet =
        s.scriptSigRet ++ pushes sigs := by
  induction pubkeys generalizing nSigned s with
  | nil =>
    refine ⟨[], ?_, rfl, by simp [signNLoop]⟩
    rw [ownKeys, filterMap_nil, take_nil]
    exact .nil
  | cons pubkey pubkeys ih =>
    unfold signNLoop
    by_cases hmore : nSigned < nRequired
    · rw [if_pos hmore]
      cases hkey : usableKey S keystore (S.getID (CPubKey.ofVch pubkey)) with
      | none =>
        obtain ⟨hfail, hsame⟩ := sign1_none hash hkey s
        obtain ⟨sigs, hsigs, hcount, hscript⟩ := ih nSigned
          (sign1 S keystore hash sighashAll (S.getID (CPubKey.ofVch pubkey)) s).2
        have howns : ownKeys S keystore (pubkey :: pubkeys) = ownKeys S keystore pubkeys := by
          unfold ownKeys
          rw [filterMap_cons, hkey]
        dsimp only
        rw [hfail, howns, if_neg (by decide), ← hsame]
        exact ⟨sigs, hsigs, hcount, hscript⟩
      | some q =>
        obtain ⟨hok, vchSig, hsigned, hpush⟩ := sign1_some hS hash hkey s
        obtain ⟨sigs, hsigs, hcount, hscript⟩ := ih (nSigned + 1)
          (sign1 S keystore hash sighashAll (S.getID (CPubKey.ofVch pubkey)) s).2
        have howns : ownKeys S keystore (pubkey :: pubkeys) =
            q :: ownKeys S keystore pubkeys := by
          unfold ownKeys
          rw [filterMap_cons, hkey]
        dsimp only
        rw [hok, howns, if_pos rfl]
        refine ⟨vchSig :: sigs, ?_, ?_, ?_⟩
        · rw [show nRequired - nSigned = nRequired - (nSigned + 1) + 1 by omega,
            take_succ_cons]
          exact .cons hsigned hsigs
        · rw [hcount, length_cons]
          omega
        · rw [hscript, hpush, append_assoc, ← pushes_append, singleton_append]
    · rw [if_neg hmore, show nRequired - nSigned = 0 by omega, take_zero]
      exact ⟨[], .nil, rfl, by simp⟩

/-! ## §2. The keys of a redeem script. -/

variable (S keystore)

/-- `OP_CHECKMULTISIG` reads the keys from the last one down, and fails on one that is neither
compressed nor uncompressed.  `KeysMatch` is its loop with the public keys of those who
signed in the place of their signatures. -/
def KeysMatch (keys : List Valtype) (owners : List CPubKey) : Prop :=
  scan isCompressedOrUncompressedPubKey (fun k q => decide (k = q)) keys owners = some true

instance (keys : List Valtype) (owners : List CPubKey) : Decidable (KeysMatch keys owners) :=
  inferInstanceAs (Decidable (_ = _))

/-- The key that is pushed for `OP_HASH160`. -/
def pushedKey (address : UInt160) : CPubKey :=
  CPubKey.ofVch ((keystore.getPubKey address).getD [])

/-- Whether the keys of a script that the store can sign for are the right ones: well-formed
as far as they are read, and those of the keys that sign.  Nothing is asked of a script that
the store cannot sign for. -/
def RedeemFits (redeem : CScript) : Prop :=
  match solver redeem with
  | some (.TX_PUBKEY, [key]) =>
    ∀ q, usableKey S keystore (S.getID (CPubKey.ofVch key)) = some q → KeysMatch [key] [q]
  | some (.TX_PUBKEYHASH, [hash]) =>
    ∀ q, usableKey S keystore (uint160 hash) = some q →
      S.scriptHashes.vchHash .OP_HASH160 (pushedKey S keystore (uint160 hash)) = hash ∧
        KeysMatch [pushedKey S keystore (uint160 hash)] [q]
  | some (.TX_MULTISIG, vSolutions) =>
    let nRequired := (firstByte vSolutions.head?).toNat
    let owners := (ownKeys S keystore (multiSigKeys vSolutions)).take nRequired
    owners.length = nRequired → KeysMatch (multiSigKeys vSolutions).reverse owners.reverse
  | _ => True

/-- The public keys that a script and the store hold. -/
inductive KnownKey (script : CScript) : CPubKey → Prop
  | pushed {r : GetOpResult} (h : r ∈ CScript.ops script) : KnownKey script r.data
  | own {address : UInt160} {q : CPubKey} (h : usableKey S keystore address = some q) :
      KnownKey script q
  | shown (address : UInt160) : KnownKey script (pushedKey S keystore address)

/-- What a form of script was signed with, and the verdict on it: `bs` is pushed, of which
`sigs` are the signatures by the keys of `owners`, and they are checked against `keys` if
`guard` lets them. -/
structure SignedForm (txTo : CTransaction) (nIn : Nat) (nHashType : Int32) (hash : UInt256)
    (script : CScript) (bs : List Valtype) where
  keys : List Valtype
  owners : List CPubKey
  sigs : List Valtype
  guard : Bool
  signed_by : List.Forall₂ (SignedBy S hash) owners sigs
  mem_sigs : ∀ vchSig ∈ sigs, vchSig ∈ bs
  short : ∀ b ∈ bs, b.length ≤ MAX_SCRIPT_ELEMENT_SIZE
  few : bs.length ≤ 17
  known_keys : ∀ k ∈ keys, KnownKey S keystore script k
  known_owners : ∀ q ∈ owners, ∃ address, usableKey S keystore address = some q
  both : script.length ≤ MAX_SCRIPT_SIZE →
    BothScript S.toSigEnv txTo nIn nHashType bs.reverse script
      (if guard then
        (scan isCompressedOrUncompressedPubKey (signed S.toSigEnv txTo nIn
          (sigs.foldl (fun scriptCode vchSig =>
            CScript.findAndDelete scriptCode (CScript.push vchSig)) script)) keys sigs).map
          fun b => [vchBool b]
        else none)
  fits : RedeemFits S keystore script ↔ guard = true ∧ KeysMatch keys owners

variable {S keystore}
variable {txTo : CTransaction} {nIn : Nat} {nHashType : Int32}
  (hType : nHashType = 0 ∨ nHashType = sighashAll) {script : CScript} {out : List Valtype}
  {rng : S.Rng}

theorem MadeByKey.length_le {vchSig : Valtype} (h : MadeByKey vchSig) :
    vchSig.length ≤ 73 := by
  have hder := isDERSignature_of_low h.low
  unfold isDERSignature at hder
  dsimp only at hder
  split at hder
  · cases hder
  · split at hder
    · cases hder
    · omega

theorem scan_one {κ σ : Type} (wf : κ → Bool) (fits : κ → σ → Bool) (k : κ) (s : σ) :
    scan wf fits [k] [s] = if wf k then some (fits k s) else none := by
  rw [scan]
  cases wf k
  · rfl
  · cases fits k s <;> rfl

/-! ### The forms, as they are signed. -/

theorem signSolver_pubKey {key : Valtype} (h : solver script = some (.TX_PUBKEY, [key])) :
    signSolver S keystore hash sighashAll script rng =
      ⟨(sign1 S keystore hash sighashAll (S.getID (CPubKey.ofVch key)) ⟨[], rng⟩).1, .TX_PUBKEY,
        (sign1 S keystore hash sighashAll (S.getID (CPubKey.ofVch key)) ⟨[], rng⟩).2⟩ := by
  rw [signSolver, h]
  rfl

theorem signSolver_pubKeyHash {vch : Valtype} (h : solver script = some (.TX_PUBKEYHASH, [vch])) :
    signSolver S keystore hash sighashAll script rng =
      let signed1 := sign1 S keystore hash sighashAll (uint160 vch) ⟨[], rng⟩
      if !signed1.1 then ⟨false, .TX_PUBKEYHASH, signed1.2⟩
      else ⟨true, .TX_PUBKEYHASH, { signed1.2 with
        scriptSigRet := signed1.2.scriptSigRet ++
          CScript.pushPubKey (pushedKey S keystore (uint160 vch)) }⟩ := by
  rw [signSolver, h]
  rfl

theorem signSolver_multiSig (h : solver script = some (.TX_MULTISIG, out)) :
    signSolver S keystore hash sighashAll script rng =
      let signedN := signNLoop S keystore hash sighashAll (firstByte out.head?).toNat
        (multiSigKeys out) 0 ⟨[0], rng⟩
      ⟨signedN.1 == (firstByte out.head?).toNat, .TX_MULTISIG, signedN.2⟩ := by
  rw [signSolver, h]
  rfl

include hS in
variable (hash rng) in
/-- **A script whose keys do not fit is signed for.** -/
theorem signSolver_of_not_fits (h : ¬RedeemFits S keystore script) :
    (signSolver S keystore hash sighashAll script rng).ok = true ∧
      (signSolver S keystore hash sighashAll script rng).whichType ≠ .TX_SCRIPTHASH := by
  unfold RedeemFits at h
  split at h
  next key hsolver =>
    push Not at h
    obtain ⟨q, hown, _⟩ := h
    rw [signSolver_pubKey hsolver]
    exact ⟨(sign1_some hS hash hown _).1, nofun⟩
  next vch hsolver =>
    push Not at h
    obtain ⟨q, hown, _⟩ := h
    rw [signSolver_pubKeyHash hsolver]
    dsimp only
    rw [(sign1_some hS hash hown _).1]
    exact ⟨rfl, nofun⟩
  next vSolutions hsolver =>
    obtain ⟨hall, _⟩ := Classical.not_imp.mp h
    obtain ⟨sigs, hsigs, hcount, _⟩ := signNLoop_spec hS hash (firstByte vSolutions.head?).toNat
      (multiSigKeys vSolutions) 0 (⟨[0], rng⟩ : SignState S)
    rw [signSolver_multiSig hsolver]
    dsimp only
    rw [Nat.sub_zero] at hsigs
    rw [hcount, zero_add, ← hsigs.length_eq, hall]
    exact ⟨beq_self_eq_true _, nofun⟩
  next => exact absurd trivial h

include hS hType in
theorem signedForm_pubKey (h : solver script = some (.TX_PUBKEY, out))
    (hok : (signSolver S keystore hash sighashAll script rng).ok = true) :
    ∃ bs, (signSolver S keystore hash sighashAll script rng).s.scriptSigRet = pushes bs ∧
      Nonempty (SignedForm S keystore txTo nIn nHashType hash script bs) := by
  obtain ⟨r, rc, hops, rfl, hpush, hkey, hcheck⟩ := ops_of_pubKey h
  rw [signSolver_pubKey h] at hok ⊢
  cases hown : usableKey S keystore (S.getID (CPubKey.ofVch r.data)) with
  | none =>
    rw [(sign1_none hash hown _).1] at hok
    cases hok
  | some q =>
    obtain ⟨_, vchSig, hsigned, hscript⟩ :=
      sign1_some hS hash hown (⟨[], rng⟩ : SignState S)
    have hlen := hsigned.made.length_le
    have hmax : MAX_SCRIPT_ELEMENT_SIZE = 520 := rfl
    refine ⟨[vchSig], hscript, ⟨{
      keys := [r.data]
      owners := [q]
      sigs := [vchSig]
      guard := true
      signed_by := .cons hsigned .nil
      mem_sigs := fun _ hmem => hmem
      short := forall_mem_singleton.mpr (by omega)
      few := le_add_left 1 16
      known_keys := forall_mem_singleton.mpr (.pushed (hops ▸ mem_cons_self))
      known_owners := forall_mem_singleton.mpr ⟨_, hown⟩
      both := ?_
      fits := ?_ }⟩⟩
    · intro hsize
      obtain ⟨key, hkeyeq, hboth⟩ := both_pubKey S.toSigEnv txTo nIn hType h hsize hsigned.made
      obtain rfl := (cons.inj hkeyeq).1
      rw [scan_one, if_pos rfl, apply_ite (Option.map fun b => [vchBool b])]
      exact hboth
    · rw [RedeemFits, h]
      dsimp only
      rw [hown]
      simp

theorem ofVch_length (vch : Valtype) : (CPubKey.ofVch vch).length ≤ 65 := by
  unfold CPubKey.ofVch
  split
  next hvalid =>
    unfold pubKeyIsValid at hvalid
    split at hvalid
    · cases hvalid
    next chHeader rest =>
      rw [Bool.and_eq_true, beq_iff_eq] at hvalid
      rw [← hvalid.2]
      unfold pubKeyLen
      split
      · omega
      · split <;> omega
  next => exact zero_le _

theorem pushPubKey_eq {key : CPubKey} (h : key.length ≤ 65) :
    CScript.pushPubKey key = CScript.push key := by
  have hdata1 : OP_PUSHDATA1.toNat = 76 := rfl
  unfold CScript.pushPubKey CScript.push
  rw [if_pos (by omega)]

include hS hType in
theorem signedForm_pubKeyHash (h : solver script = some (.TX_PUBKEYHASH, out))
    (hok : (signSolver S keystore hash sighashAll script rng).ok = true) :
    ∃ bs, (signSolver S keystore hash sighashAll script rng).s.scriptSigRet = pushes bs ∧
      Nonempty (SignedForm S keystore txTo nIn nHashType hash script bs) := by
  obtain ⟨r1, r2, r, r4, rc, hops, rfl, _⟩ := ops_of_pubKeyHash h
  rw [signSolver_pubKeyHash h] at hok ⊢
  cases hown : usableKey S keystore (uint160 r.data) with
  | none =>
    dsimp only at hok
    rw [(sign1_none hash hown _).1] at hok
    cases hok
  | some q =>
    obtain ⟨hsign, vchSig, hsigned, hscript⟩ :=
      sign1_some hS hash hown (⟨[], rng⟩ : SignState S)
    have hlen := hsigned.made.length_le
    have hkeylen : (pushedKey S keystore (uint160 r.data)).length ≤ 65 := ofVch_length _
    have hmax : MAX_SCRIPT_ELEMENT_SIZE = 520 := rfl
    dsimp only
    rw [hsign]
    refine ⟨[vchSig, pushedKey S keystore (uint160 r.data)], ?_, ⟨{
      keys := [pushedKey S keystore (uint160 r.data)]
      owners := [q]
      sigs := [vchSig]
      guard := decide (S.scriptHashes.vchHash .OP_HASH160
        (pushedKey S keystore (uint160 r.data)) = r.data)
      signed_by := .cons hsigned .nil
      mem_sigs := forall_mem_singleton.mpr mem_cons_self
      short := forall_mem_cons.mpr ⟨by omega, forall_mem_singleton.mpr (by omega)⟩
      few := le_add_left 2 15
      known_keys := forall_mem_singleton.mpr (.shown _)
      known_owners := forall_mem_singleton.mpr ⟨_, hown⟩
      both := ?_
      fits := ?_ }⟩⟩
    · change (sign1 S keystore hash sighashAll (uint160 r.data) ⟨[], rng⟩).2.scriptSigRet ++
        CScript.pushPubKey (pushedKey S keystore (uint160 r.data)) = _
      rw [hscript, pushPubKey_eq hkeylen, ← pushes_singleton, nil_append, ← pushes_append]
      rfl
    · intro hsize
      obtain ⟨hash', heq, hboth⟩ := both_pubKeyHash S.toSigEnv txTo nIn hType h hsize
        hsigned.made (pushedKey S keystore (uint160 r.data))
      obtain rfl := (cons.inj heq).1
      rw [scan_one, apply_ite (Option.map fun b => [vchBool b])]
      simp only [decide_eq_true_eq]
      exact hboth
    · rw [RedeemFits, h]
      dsimp only
      rw [hown]
      simp

include hS hType in
theorem signedForm_multiSig (h : solver script = some (.TX_MULTISIG, out))
    (hok : (signSolver S keystore hash sighashAll script rng).ok = true) :
    ∃ bs, (signSolver S keystore hash sighashAll script rng).s.scriptSigRet = pushes bs ∧
      Nonempty (SignedForm S keystore txTo nIn nHashType hash script bs) := by
  obtain ⟨f⟩ := ops_of_multiSig h
  have hkeys : multiSigKeys out = f.kops.map GetOpResult.data := by
    refine (congrArg multiSigKeys f.out_eq).trans ?_
    rw [multiSigKeys, drop_one, tail_cons, dropLast_concat]
  have hrequired : firstByte out.head? = f.m :=
    congrArg (fun vSolutions : List Valtype => firstByte vSolutions.head?) f.out_eq
  obtain ⟨sigs, hsigs, hcount, hscript⟩ := signNLoop_spec hS hash f.m.toNat
    (f.kops.map GetOpResult.data) 0 (⟨[0], rng⟩ : SignState S)
  rw [signSolver_multiSig h, hkeys, hrequired] at hok ⊢
  dsimp only at hok ⊢
  rw [Nat.sub_zero] at hsigs
  rw [hcount, zero_add, beq_iff_eq] at hok
  have hmade : ∀ vchSig ∈ sigs, MadeByKey vchSig := by
    intro vchSig hmem
    obtain ⟨q, _, hq⟩ := exists_owner hsigs hmem
    exact hq.made
  have hm : f.m.toNat ≤ 16 := by
    have hhigh := UInt8.le_iff_toNat_le.mp f.m_op.range.2
    have h16 : OP_16.toNat = 96 := rfl
    rw [f.m_op.toNat_eq]
    omega
  have hmax : MAX_SCRIPT_ELEMENT_SIZE = 520 := rfl
  refine ⟨[] :: sigs, ?_, ⟨{
    keys := (f.kops.map GetOpResult.data).reverse
    owners := ((ownKeys S keystore (f.kops.map GetOpResult.data)).take f.m.toNat).reverse
    sigs := sigs.reverse
    guard := true
    signed_by := forall₂_reverse_iff.mpr hsigs
    mem_sigs := fun vchSig hmem => mem_cons_of_mem _ (mem_reverse.mp hmem)
    short := ?_
    few := ?_
    known_keys := ?_
    known_owners := ?_
    both := ?_
    fits := ?_ }⟩⟩
  · rw [hscript]
    rfl
  · intro b hb
    rcases mem_cons.mp hb with rfl | hb
    · exact zero_le _
    · have := (hmade b hb).length_le
      omega
  · rw [length_cons]
    omega
  · intro k hk
    obtain ⟨r, hr, rfl⟩ := mem_map.mp (mem_reverse.mp hk)
    refine .pushed ?_
    rw [f.ops_eq]
    exact mem_cons_of_mem _ (mem_append_left _ hr)
  · intro q hq
    obtain ⟨pubkey, _, hown⟩ :=
      mem_filterMap.mp (mem_of_mem_take (mem_reverse.mp hq))
    exact ⟨_, hown⟩
  · intro hsize
    rw [reverse_cons, if_pos rfl]
    exact both_multiSig hType f hsize (fun v hv => hmade v (mem_reverse.mp hv))
      (by rw [length_reverse, hok])
  · rw [RedeemFits, h]
    dsimp only
    rw [hkeys, hrequired, hsigs.length_eq]
    simp [hok]

/-! ## §3. The verdict on a form. -/

include hS hType in
variable (txTo nIn) in
/-- **What signing leaves**, for every form that keys sign for. -/
theorem signSolver_ok {t : TxnOutType} (h : solver script = some (t, out))
    (ht : t ≠ .TX_SCRIPTHASH)
    (hok : (signSolver S keystore hash sighashAll script rng).ok = true) :
    ∃ bs, (signSolver S keystore hash sighashAll script rng).s.scriptSigRet = pushes bs ∧
      Nonempty (SignedForm S keystore txTo nIn nHashType hash script bs) := by
  cases t with
  | TX_NONSTANDARD | TX_NULL_DATA =>
    rw [signSolver, h] at hok
    cases hok
  | TX_PUBKEY => exact signedForm_pubKey hS hType h hok
  | TX_PUBKEYHASH => exact signedForm_pubKeyHash hS hType h hok
  | TX_MULTISIG => exact signedForm_multiSig hS hType h hok
  | TX_SCRIPTHASH => exact absurd rfl ht

def endsTrue (res : Option (List Valtype)) : Bool :=
  match res with
  | some (top :: _) => castToBool top
  | _ => false

theorem castToBool_vchBool (b : Bool) : castToBool (vchBool b) = b := by
  cases b <;> rfl

/-- A push of the script is itself a signature of `hash` by a key of the store. -/
def HoldsSignature (S : SignEnv) (keystore : CKeyStore S) (script : CScript) (hash : UInt256) :
    Prop :=
  ∃ r ∈ CScript.ops script, isDERSignature r.data true = true ∧
    ∃ address q, usableKey S keystore address = some q ∧
      S.verify q hash r.data.dropLast = true

/-- No element of `bs` is a signature of `hash` under two of the keys that the script and the
store hold. -/
def TellsKeysApart (S : SignEnv) (keystore : CKeyStore S) (script : CScript) (hash : UInt256)
    (bs : List Valtype) : Prop :=
  ∀ b ∈ bs, ∀ k k', KnownKey S keystore script k → KnownKey S keystore script k' →
    S.verify k hash b.dropLast = true → S.verify k' hash b.dropLast = true → k = k'

section

variable {bs : List Valtype} (f : SignedForm S keystore txTo nIn nHashType hash script bs)

/-- The result of the run, once the signatures are not cut out of the script. -/
def SignedForm.result : Option (List Valtype) :=
  if f.guard then
    (scan isCompressedOrUncompressedPubKey (signed S.toSigEnv txTo nIn script) f.keys f.sigs).map
      fun b => [vchBool b]
  else none

theorem SignedForm.endsTrue_result :
    endsTrue f.result = true ↔ f.guard = true ∧
      scan isCompressedOrUncompressedPubKey (signed S.toSigEnv txTo nIn script) f.keys f.sigs =
        some true := by
  unfold SignedForm.result
  cases f.guard with
  | false => simp [endsTrue]
  | true =>
    cases scan isCompressedOrUncompressedPubKey (signed S.toSigEnv txTo nIn script) f.keys
      f.sigs with
    | none => simp [endsTrue]
    | some b => simp [endsTrue, castToBool_vchBool]

/-- **`FindAndDelete` cuts nothing** out of a script that holds none of its signatures. -/
theorem SignedForm.bothScript (hsize : script.length ≤ MAX_SCRIPT_SIZE)
    (hholds : ¬HoldsSignature S keystore script hash) :
    BothScript S.toSigEnv txTo nIn nHashType bs.reverse script f.result := by
  have hboth := f.both hsize
  rw [foldl_findAndDelete_eq_self] at hboth
  · exact hboth
  · intro vchSig hsig
    obtain ⟨q, hq, hsigned⟩ := exists_owner f.signed_by hsig
    have hlen := hsigned.made.length_le
    refine ⟨by omega, ?_⟩
    rintro r hr rfl
    obtain ⟨address, hown⟩ := f.known_owners q hq
    exact hholds ⟨r, hr, isDERSignature_of_low hsigned.made.low, address, q, hown,
      hsigned.verifies⟩

variable (hhash : hash = signatureHash S.H script txTo nIn sighashAll)

include hhash in
theorem SignedForm.endsTrue_of_fits (hfits : RedeemFits S keystore script) :
    endsTrue f.result = true := by
  obtain ⟨hguard, hmatch⟩ := f.fits.mp hfits
  refine f.endsTrue_result.mpr ⟨hguard, ?_⟩
  refine scan_of_owners (f.signed_by.imp fun q vchSig hq => ?_) (suffix_refl _) hmatch
  rw [signed, ← hhash]
  exact hq.verifies

include hhash in
/-- **Only keys that fit pass**, where a signature tells the keys apart. -/
theorem SignedForm.fits_of_endsTrue (hapart : TellsKeysApart S keystore script hash bs)
    (h : endsTrue f.result = true) : RedeemFits S keystore script := by
  obtain ⟨hguard, hscan⟩ := f.endsTrue_result.mp h
  refine f.fits.mpr ⟨hguard, ?_⟩
  rw [KeysMatch, ← hscan]
  refine Eq.symm ?_
  refine scan_eq_of_owners ?_
  refine (forall₂_and_mem f.signed_by).imp fun q vchSig ⟨hq, hmemq, hmem⟩ k hk => ?_
  obtain ⟨address, hown⟩ := f.known_owners q hmemq
  rw [signed, ← hhash]
  rw [Bool.eq_iff_iff, decide_eq_true_eq]
  refine ⟨fun hverify => ?_, fun heq => heq ▸ hq.verifies⟩
  exact hapart vchSig (f.mem_sigs vchSig hmem) k q (f.known_keys k hk) (.own hown) hverify
    hq.verifies

end

end Fantom.Script
