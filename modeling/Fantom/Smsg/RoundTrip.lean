/-
  Fantom.Smsg.RoundTrip — A message is taken, and read, as it was sent.

  * `secureMsg_roundTrip` — the text, the timestamp and the sender.

  The work is looked for with a checksum that is written afterwards, and both limits are those of a
  text that compression makes longer.
-/
import Fantom.Script.Base58Data
import Fantom.Smsg.Authentic

namespace Fantom.Smsg

open Core Lib Script

/-! ## §1. The proof of work. -/

/-- The two tests of the hash, where the three bits of the mask are the 1 that `||` makes. -/
abbrev isWork (sha256Hash : Vector UInt8 32) : Prop :=
  sha256Hash.get 31 = 0 ∧ sha256Hash.get 30 = 0 ∧ ~~~sha256Hash.get 29 &&& 1 ≠ 0

/-- `memcpy(&psmsg->nonse[0], &nonse, 4)` -/
def nonseBytes (nonse : Nat) : Vector UInt8 4 :=
  ⟨(leBytes 4 nonse).toArray, by simp⟩

/-- The loop of `SecureMsgSetHash`, with the rounds that are left: the header then, and the hash
that was found.  `fSecMsgEnabled` is read in each round. -/
def setHashLoop (hmac : HmacSha256) (fSecMsgEnabled : Nat → Bool) (pPayload : List UInt8) :
    (left nonse : Nat) → SecureMessage → SecureMessage × Option (Vector UInt8 32)
  | 0, _, psmsg => (psmsg, none)
  | left + 1, nonse, psmsg =>
    if !fSecMsgEnabled nonse then (psmsg, none)
    else
      let psmsg := { psmsg with nonse := nonseBytes nonse }
      let sha256Hash := workHash hmac psmsg pPayload
      if isWork sha256Hash then (psmsg, some sha256Hash)
      else setHashLoop hmac fSecMsgEnabled pPayload left (nonse + 1) psmsg

/-- `SecureMsgSetHash`, where `HMAC` makes no error: what it returns, and the header then.
`fSecMsgEnabledThen` is what is read after the loop. -/
def secureMsgSetHash (hmac : HmacSha256) (fSecMsgEnabled : Nat → Bool) (fSecMsgEnabledThen : Bool)
    (psmsg : SecureMessage) (pPayload : List UInt8) : Nat × SecureMessage :=
  let r := setHashLoop hmac fSecMsgEnabled pPayload (2 ^ 32) 0 psmsg
  if !fSecMsgEnabledThen then (2, r.1)
  else match r.2 with
    | none => (1, r.1)
    | some sha256Hash => (0, { r.1 with hash := sha256Hash.extract 0 4 })

variable {hmac : HmacSha256} {fSecMsgEnabled : Nat → Bool} {fSecMsgEnabledThen : Bool}
  {pPayload : List UInt8} {psmsg mined : SecureMessage}

theorem setHashLoop_eq_some {left nonse : Nat} {sha256Hash : Vector UInt8 32}
    (h : setHashLoop hmac fSecMsgEnabled pPayload left nonse psmsg = (mined, some sha256Hash)) :
    (∃ n, mined = { psmsg with nonse := n }) ∧ sha256Hash = workHash hmac mined pPayload ∧
      isWork sha256Hash := by
  -- induction on the rounds that are left
  induction left generalizing nonse psmsg with
  | zero => cases h
  | succ left ih =>
    rw [setHashLoop] at h
    split at h
    next => cases h
    next =>
      dsimp only at h
      split at h
      next hwork =>
        obtain ⟨rfl, hhash⟩ := Prod.mk.inj h
        cases hhash
        exact ⟨⟨_, rfl⟩, rfl, hwork⟩
      next =>
        obtain ⟨⟨n, rfl⟩, hhash, hwork⟩ := ih h
        exact ⟨⟨n, rfl⟩, hhash, hwork⟩

theorem workHash_setHash (smsg : SecureMessage) (hash : Vector UInt8 4) :
    workHash hmac { smsg with hash := hash } pPayload = workHash hmac smsg pPayload := by
  have hdrop (v : Vector UInt8 4) (rest : List UInt8) : (v.toList ++ rest).drop 4 = rest :=
    List.drop_left' v.length_toList
  unfold workHash SecureMessage.bytes
  rw [hdrop, hdrop]
  rfl

/-- **What was worked on** differs in its nonce and its checksum, and has both. -/
theorem secureMsgSetHash_eq_zero
    (h : secureMsgSetHash hmac fSecMsgEnabled fSecMsgEnabledThen psmsg pPayload = (0, mined)) :
    (∃ n hash, mined = { psmsg with nonse := n, hash := hash }) ∧
      mined.hash.toList = (workHash hmac mined pPayload).toList.take 4 ∧
      isWork (workHash hmac mined pPayload) := by
  unfold secureMsgSetHash at h
  dsimp only at h
  rcases hloop : setHashLoop hmac fSecMsgEnabled pPayload (2 ^ 32) 0 psmsg with ⟨header, found⟩
  rw [hloop] at h
  split at h
  next => exact absurd (Prod.mk.inj h).1 (by decide)
  next =>
    cases found with
    | none => exact absurd (Prod.mk.inj h).1 (by decide)
    | some sha256Hash =>
      obtain rfl := (Prod.mk.inj h).2
      obtain ⟨⟨n, rfl⟩, hhash, hwork⟩ := setHashLoop_eq_some hloop
      rw [workHash_setHash, ← hhash]
      exact ⟨⟨n, sha256Hash.extract 0 4, rfl⟩, Vector.toList_extract, hwork⟩

theorem secureMsgValidate_mined
    (h : secureMsgSetHash hmac fSecMsgEnabled fSecMsgEnabledThen psmsg pPayload = (0, mined))
    (hversion : psmsg.protocol = 1) (hsize : psmsg.nPayload.toNat ≤ SMSG_MAX_MSG_WORST) :
    secureMsgValidate hmac mined pPayload = 0 := by
  obtain ⟨⟨n, hash, rfl⟩, hhash, hwork⟩ := secureMsgSetHash_eq_zero h
  rw [secureMsgValidate, if_neg (not_not.mpr hversion), if_neg (by exact Nat.not_lt.mpr hsize)]
  dsimp only
  rw [if_neg (not_not.mpr hhash)]
  exact if_pos hwork

/-! ## §2. The texts of addresses. -/

/-- The text of an address has a version, an id and a checksum.  A text whose checksum is right
is an address, of a key where it has the version and the length of one. -/
def addressTexts (C : SmsgCrypto) (net : Script.Network) : AddressTexts where
  setString text :=
    match CBase58Data.setString C.toHashes (textBytes text) with
    | .ok (true, addr) =>
      match Script.CFantomAddress.get net addr with
      | some (.CKeyID ckid) => some (.key ckid)
      | _ => some .other
    | _ => none
  toText ckid :=
    match (Script.CFantomAddress.set net (.CKeyID ckid)).toString C.toHashes with
    | .ok str => bytesText str
    | .error _ => []

section Texts

variable (C : SmsgCrypto) (net : Script.Network)

theorem setString_toText (ckid : UInt160) :
    (addressTexts C net).setString ((addressTexts C net).toText ckid) = some (.key ckid) := by
  obtain ⟨str, htext, hread⟩ := setString_toString C.toHashes
    (Script.CFantomAddress.set net (.CKeyID ckid)) (set_version_length net _)
  have hto : (addressTexts C net).toText ckid = bytesText str := by
    unfold addressTexts
    dsimp only
    rw [htext]
  rw [hto]
  unfold addressTexts
  dsimp only
  rw [textBytes_bytesText, hread]
  dsimp only
  rw [get_set]

theorem setString_anon : (addressTexts C net).setString anon = none := by
  have hdecode : decodePsz (cStr (textBytes anon)) = .ok (some [100, 153, 21]) := by decide +kernel
  have hread : CBase58Data.setString C.toHashes (textBytes anon) = .ok (false, {}) := by
    unfold CBase58Data.setString CBase58Data.setStringPsz decodeBase58Check
    rw [hdecode]
    rfl
  unfold addressTexts
  dsimp only
  rw [hread]

theorem readFrom_senderText (sender : From) :
    readFrom (addressTexts C net) (senderText (addressTexts C net) sender) = .ok sender := by
  cases sender with
  | anonymous => exact if_pos rfl
  | key ckidFrom =>
    have hread := setString_toText C net ckidFrom
    have hne : (addressTexts C net).toText ckidFrom ≠ anon := by
      intro heq
      rw [heq, setString_anon] at hread
      cases hread
    show readFrom _ ((addressTexts C net).toText ckidFrom) = _
    rw [readFrom, if_neg hne, hread]

end Texts

/-! ## §3. The sizes. -/

/-- A key is recovered from what it signs, and compression makes `n` bytes `n / 255 + 2` longer at
most. -/
structure SmsgCrypto.RoundTrips (C : SmsgCrypto) : Prop extends C.Exact where
  recovers : ∀ k h, ∃ sig, C.signCompact k h = some sig ∧
    recoverCompact C.toCrypto h sig = some (C.getPubKey k)
  expands : ∀ bs, (C.LZ4_compress bs).length ≤ bs.length + bs.length / 255 + 2

variable {C : SmsgCrypto} {B : AddressTexts}

variable {message vchPayload : List UInt8} {node : Node C} {sender : From}

theorem compressed_length_le (hC : C.RoundTrips) {msgData : List UInt8}
    (h : compressed C message = .ok msgData) :
    msgData.length ≤ message.length + message.length / 255 + 2 := by
  unfold compressed at h
  split at h
  next =>
    split at h
    next => cases h
    next =>
      cases h
      exact hC.expands message
  next =>
    cases h
    omega

theorem makePayload_length_le (hC : C.RoundTrips)
    (h : makePayload node sender message = .ok vchPayload) :
    vchPayload.length ≤ SMSG_PL_HDR_LEN + (message.length + message.length / 255 + 2) := by
  have hhdr : SMSG_PL_HDR_LEN = 90 := rfl
  obtain ⟨msgData, hdata, ⟨-, rfl⟩ | ⟨ckidFrom, keyFrom, -, -, rfl⟩⟩ := makePayload_eq_ok h
  · have hdata := compressed_length_le hC hdata
    rw [List.length_cons, List.length_append, List.length_append, List.length_replicate,
      leBytes_length]
    omega
  · have hdata := compressed_length_le hC hdata
    have hsig := compactSignature_length hC.toExact keyFrom message
    rw [List.length_cons, List.length_append, List.length_append, List.length_append,
      leBytes_length, leBytes_length, hsig]
    omega

/-- **A payload is not too large**, whatever compression makes of the text. -/
theorem cipher_length_le (hC : C.RoundTrips) {cipher : List UInt8} {chKey : Vector UInt8 32}
    {chIV : Block} (hlen : message.length ≤ SMSG_MAX_MSG_BYTES)
    (hmake : makePayload node sender message = .ok vchPayload)
    (hcipher : crypterEncrypt C chKey chIV vchPayload = some cipher) :
    cipher.length ≤ SMSG_MAX_MSG_WORST := by
  have hhdr : SMSG_PL_HDR_LEN = 90 := rfl
  have hbytes : SMSG_MAX_MSG_BYTES = 4096 := rfl
  have hworst : SMSG_MAX_MSG_WORST = 4218 := rfl
  have hplain := makePayload_length_le hC hmake
  rw [crypterEncrypt_length hcipher]
  omega

/-! ## §4. The round trip. -/

theorem secureMsgEncrypt_header {draws : Draws C} {smsg : SecureMessage}
    {addressFrom addressTo : List Char} {sent : SecureMessage × List UInt8}
    (h : secureMsgEncrypt B node draws smsg addressFrom addressTo message = .ok sent) :
    sent.1.timestamp = draws.now ∧ sent.1.nPayload = UInt32.ofNat sent.2.length := by
  simp only [secureMsgEncrypt, bind_eq_ok] at h
  obtain ⟨_, -, _, -, _, -, _, -, _, -, _, -, _, -, _, -, _, -, _, -, h⟩ := h
  cases h
  exact ⟨rfl, rfl⟩

/-- The wallet has each key under the id of its public key, compressed or not. -/
def Node.Keyed (node : Node C) : Prop :=
  ∀ ckid key, node.getKey ckid = some key → getID C.toCrypto (C.getPubKey key) = ckid

theorem readPayload_sent (hC : C.RoundTrips) (hnode : node.Keyed)
    (hlen : message.length ≤ SMSG_MAX_MSG_BYTES)
    (hmake : makePayload node sender message = .ok vchPayload) (msg : MessageData) :
    readPayload B C vchPayload msg =
      .ok (0, ⟨msg.timestamp, senderText B sender, message ++ [0]⟩) := by
  obtain ⟨msgData, hdata, ⟨rfl, rfl⟩ | ⟨ckidFrom, keyFrom, rfl, hkey, rfl⟩⟩ :=
    makePayload_eq_ok hmake
  · exact readPayload_anonymous hC.toExact hlen hdata msg
  · -- the signature is of the text, with a key that the wallet has for the address
    obtain ⟨sig, hsign, hrecover⟩ := hC.recovers keyFrom (C.hash message)
    have hsig : compactSignature C keyFrom message = sig := by
      rw [compactSignature, hsign]
      rfl
    rw [readPayload_signed hC.toExact hlen hdata, hsig, hrecover]
    exact if_pos (hnode ckidFrom keyFrom hkey)

/-- **Secure messages round trip.**  A message that was encrypted and worked on is valid, and the
receiver decrypts it: it has the text, the time and the name of its sender.  That name is read as
the one that was given, and is the same where that was written as names are. -/
theorem secureMsg_roundTrip (hC : C.RoundTrips) (net : Script.Network) {node receiver : Node C}
    (hnode : node.Keyed) {draws : Draws C} {smsg mined : SecureMessage}
    {addressFrom addressTo address : List Char} {message : List UInt8}
    {sent : SecureMessage × List UInt8} {keyDest : C.CKey}
    (hb : Between (addressTexts C net) node receiver addressTo address keyDest)
    (hsent : secureMsgEncrypt (addressTexts C net) node draws smsg addressFrom addressTo message =
      .ok sent)
    (hmined : secureMsgSetHash C.hmacSha256 fSecMsgEnabled fSecMsgEnabledThen sent.1 sent.2 =
      (0, mined)) (msg : MessageData) :
    secureMsgValidate C.hmacSha256 mined sent.2 = 0 ∧
      ∃ sender, readFrom (addressTexts C net) addressFrom = .ok sender ∧
        secureMsgDecrypt (addressTexts C net) receiver false address mined sent.2 msg =
          .ok (0, ⟨draws.now, senderText (addressTexts C net) sender, message ++ [0]⟩) ∧
        readFrom (addressTexts C net) (senderText (addressTexts C net) sender) = .ok sender ∧
        ∀ name, addressFrom = senderText (addressTexts C net) name →
          senderText (addressTexts C net) sender = addressFrom := by
  obtain ⟨sender, ckidDest, cpkDestK, vchP, vchPayload, he⟩ := secureMsgEncrypt_eq_ok hsent
  obtain ⟨htime, hsize⟩ := secureMsgEncrypt_header hsent
  have hplace : sent.1.nPayload.toNat ≤ SMSG_MAX_MSG_WORST := by
    rw [hsize, UInt32.toNat_ofNat']
    exact (Nat.mod_le _ _).trans (cipher_length_le hC he.short he.payload he.cipher)
  refine ⟨secureMsgValidate_mined hmined he.version hplace, sender, he.origin, ?_,
    readFrom_senderText C net sender, ?_⟩
  · obtain ⟨⟨n, hash, rfl⟩, -, -⟩ := secureMsgSetHash_eq_zero hmined
    have hread := readPayload_sent (B := addressTexts C net) hC hnode he.short he.payload
      { msg with timestamp := sent.1.timestamp }
    rw [← htime]
    exact (secureMsgDecrypt_eq_ok hb.own).mpr ⟨he.version, vchP, vchPayload,
      sharedSecret_eq hC.toExact he hb, he.mac.symm, crypterDecrypt_encrypt hC.toExact he.cipher,
      hread⟩
  · rintro name rfl
    have hname := readFrom_senderText C net name
    rw [he.origin] at hname
    rw [Except.ok.inj hname]

/-! ### A signed message to oneself. -/

/-- A signature begins with what it signs; a hash is a sum, and one of four is work. -/
def signingCrypto : SmsgCrypto where
  toHashes := { sampleHashes with hash160 := fun _ => receiverId }
  CKey := Bool
  getPubKey k := if k then pubR else pubK
  signCompact k h := some ((if k then 32 else 31) :: (leBytes 32 h.toNat ++ List.replicate 32 1))
  recover h vchSig recid _ :=
    if vchSig.take 32 = leBytes 32 h.toNat then some (if recid = 0 then pubK else pubR) else none
  setPubKey := sampleSmsgCrypto.setPubKey
  ECDH_compute_key := sampleSmsgCrypto.ECDH_compute_key
  SHA512 := sampleSmsgCrypto.SHA512
  hmacSha256 key bs := .ofFn fun i =>
    let n := UInt8.ofNat i.val + key.sum + bs.sum
    if i.val = 31 then n &&& 3 else if i.val ≥ 29 then 0 else n
  aesEncrypt := sampleSmsgCrypto.aesEncrypt
  aesDecrypt := sampleSmsgCrypto.aesDecrypt
  LZ4_compress := sampleSmsgCrypto.LZ4_compress
  LZ4_decompress_safe := sampleSmsgCrypto.LZ4_decompress_safe

theorem signingCrypto_roundTrips : signingCrypto.RoundTrips where
  setPubKey := sampleSmsgCrypto_exact.setPubKey
  ecdh := sampleSmsgCrypto_exact.ecdh
  aes := sampleSmsgCrypto_exact.aes
  lz4 := sampleSmsgCrypto_exact.lz4
  signature k h sig hsign := by
    cases hsign
    rfl
  recovers k h := by
    refine ⟨_, rfl, ?_⟩
    have hsigned : (leBytes 32 h.toNat ++ List.replicate 32 1).take 32 = leBytes 32 h.toNat :=
      List.take_left' (leBytes_length 32 _)
    refine (if_neg (by simp)).trans ((if_pos hsigned).trans ?_)
    cases k with
    | false => exact congrArg some (if_pos (show (31 - 27 : UInt8) &&& 3 = 0 by decide))
    | true => exact congrArg some (if_neg (show ¬(32 - 27 : UInt8) &&& 3 = 0 by decide))
  expands bs := by
    show bs.length ≤ _
    omega

def signingNode : Node signingCrypto where
  getKey ckid := if ckid = receiverId then some false else none
  getPublicKey ckid := if ckid = receiverId then some pubK else none

theorem signingNode_keyed : signingNode.Keyed := by
  intro ckid key hkey
  have hown : ckid = receiverId := by
    by_contra hne
    exact absurd ((if_neg hne).symm.trans hkey) (by simp)
  exact hown.symm

def signingDraws : Draws signingCrypto where
  now := sampleTime
  iv := sampleDraws.iv
  keyR := true

def signingAddress : List Char := (addressTexts signingCrypto .MAIN).toText receiverId

def signedSent : SecureMessage × List UInt8 :=
  (secureMsgEncrypt (addressTexts signingCrypto .MAIN) signingNode signingDraws sampleSent.1
    signingAddress signingAddress sampleText).toOption.getD sampleSent

def signedMined : SecureMessage :=
  (secureMsgSetHash signingCrypto.hmacSha256 (fun _ => true) true signedSent.1 signedSent.2).2

theorem signedSent_encrypted :
    secureMsgEncrypt (addressTexts signingCrypto .MAIN) signingNode signingDraws sampleSent.1
      signingAddress signingAddress sampleText = .ok signedSent := by
  decide +kernel

theorem between_signing : Between (addressTexts signingCrypto .MAIN) signingNode signingNode
    signingAddress signingAddress false where
  own := by
    have hread := setString_toText signingCrypto .MAIN receiverId
    unfold ownKey signingAddress
    rw [hread]
    rfl
  known := by
    have hread := setString_toText signingCrypto .MAIN receiverId
    refine ⟨receiverId, ?_, rfl⟩
    unfold readDestination signingAddress
    rw [hread]

/-- A signed text of five bytes comes back, from its own address. -/
theorem secureMsg_roundTrip_signed :
    secureMsgValidate signingCrypto.hmacSha256 signedMined signedSent.2 = 0 ∧
      ∃ sender, readFrom (addressTexts signingCrypto .MAIN) signingAddress = .ok sender ∧
        secureMsgDecrypt (addressTexts signingCrypto .MAIN) signingNode false signingAddress
          signedMined signedSent.2 ⟨0, [], []⟩ =
            .ok (0, ⟨sampleTime, senderText (addressTexts signingCrypto .MAIN) sender,
              sampleText ++ [0]⟩) ∧
        readFrom (addressTexts signingCrypto .MAIN)
          (senderText (addressTexts signingCrypto .MAIN) sender) = .ok sender ∧
        ∀ name, signingAddress = senderText (addressTexts signingCrypto .MAIN) name →
          senderText (addressTexts signingCrypto .MAIN) sender = signingAddress :=
  secureMsg_roundTrip signingCrypto_roundTrips .MAIN signingNode_keyed between_signing
    signedSent_encrypted (by decide +kernel : secureMsgSetHash signingCrypto.hmacSha256
      (fun _ => true) true signedSent.1 signedSent.2 = (0, signedMined)) ⟨0, [], []⟩

end Fantom.Smsg
