/-
  Fantom.Smsg.Authentic — Whether a message that is decrypted is the message that was sent.

  * `authentic_only_with_iv` — messages are authentic where the iv stays, and none is else,
  * `authentic_pay_nine` — a text that a relay has changed.

  The code authenticates the timestamp and the ciphertext.  It leaves out the iv, which sets the
  first block: the byte that says whose message it is, and the length of the text.
-/
import Fantom.Smsg.Encryption

namespace Fantom.Smsg

open Core Lib Script

variable {C : SmsgCrypto} {B : AddressTexts}

/-! ## §1. What is to hold. -/

/-- `addressTo` is an address of the receiver: the public key that the sender has for it is of
the key that the receiver decrypts with. -/
structure Between (B : AddressTexts) (node receiver : Node C) (addressTo address : List Char)
    (keyDest : C.CKey) : Prop where
  own : ownKey B receiver address = some keyDest
  known : ∃ ckidDest, readDestination B addressTo = .ok ckidDest ∧
    node.getPublicKey ckidDest = some (C.getPubKey keyDest)

/-- The code that is verified is the sender's: what it stands for is what he made it for. -/
def Unforged (keyDest : C.CKey) (sent : SecureMessage × List UInt8) (psmsg : SecureMessage)
    (pPayload : List UInt8) : Prop :=
  ∀ vchP, sharedSecret C psmsg.cpkR keyDest = some vchP →
    computeMac C vchP psmsg.timestamp pPayload = psmsg.mac →
    macData psmsg.timestamp pPayload = macData sent.1.timestamp sent.2

def senderText (B : AddressTexts) : From → List Char
  | .anonymous => anon
  | .key ckidFrom => B.toText ckidFrom

/-- What is decrypted, of the headers with `P` that have the sender's key, has the sender's
timestamp, text and name. -/
def Authentic (B : AddressTexts) (receiver : Node C) (address : List Char) (keyDest : C.CKey)
    (sender : From) (message : List UInt8) (sent : SecureMessage × List UInt8)
    (P : SecureMessage → Prop) : Prop :=
  ∀ psmsg pPayload msg msg', P psmsg → psmsg.cpkR = sent.1.cpkR →
    Unforged keyDest sent psmsg pPayload →
    secureMsgDecrypt B receiver false address psmsg pPayload msg = .ok (0, msg') →
    msg'.timestamp = sent.1.timestamp ∧ msg'.vchMessage = message ++ [0] ∧
      msg'.sFromAddress = senderText B sender

/-! ## §2. The parts of a payload. -/

theorem readAt_append (pre mid post : List UInt8) :
    readAt (pre ++ (mid ++ post)) pre.length mid.length = .ok mid := by
  have hle : pre.length + mid.length ≤ (pre ++ (mid ++ post)).length := by
    rw [List.length_append, List.length_append]
    omega
  rw [readAt, if_pos hle, List.drop_left, List.take_left]

theorem readText_eq {pre msgData : List UInt8} {hdr n : Nat} (hhdr : hdr = pre.length + 4)
    (hn : n < 0xffffffff) :
    readText C (pre ++ (leBytes 4 n ++ msgData)) hdr =
      if n > 128 then .ok (C.LZ4_decompress_safe msgData n)
      else some <$> readAt (pre ++ (leBytes 4 n ++ msgData)) hdr n := by
  have hlen : readAt (pre ++ (leBytes 4 n ++ msgData)) (hdr - 4) 4 = .ok (leBytes 4 n) := by
    have h := readAt_append pre (leBytes 4 n) msgData
    rw [leBytes_length] at h
    rw [hhdr, Nat.add_sub_cancel]
    exact h
  have hdata : (pre ++ (leBytes 4 n ++ msgData)).drop hdr = msgData := by
    rw [← List.append_assoc]
    apply List.drop_left'
    rw [List.length_append, leBytes_length, hhdr]
  have hnum : ofLEBytes (leBytes 4 n) = n := ofLEBytes_leBytes (Nat.lt_trans hn (by decide))
  rw [readText, hlen]
  show (if ofLEBytes (leBytes 4 n) > 128 then _ else _) = _
  rw [hnum, hdata]
  split
  · rw [if_neg (Nat.ne_of_lt hn)]
  · rfl

/-- **The text of the sender** is read as he wrote it. -/
theorem readText_compressed (hC : C.Exact) (pre : List UInt8) {message msgData : List UInt8}
    {hdr : Nat} (hhdr : hdr = pre.length + 4) (hlen : message.length ≤ SMSG_MAX_MSG_BYTES)
    (hdata : compressed C message = .ok msgData) :
    readText C (pre ++ (leBytes 4 message.length ++ msgData)) hdr = .ok (some message) := by
  have hmax : SMSG_MAX_MSG_BYTES = 4096 := rfl
  rw [readText_eq hhdr (by omega)]
  unfold compressed at hdata
  by_cases hlong : message.length > 128
  · rw [if_pos hlong] at hdata
    split at hdata
    next => cases hdata
    next =>
      cases hdata
      rw [if_pos hlong, hC.lz4]
  · rw [if_neg hlong] at hdata
    cases hdata
    have hread := readAt_append (pre ++ leBytes 4 message.length) message []
    rw [List.append_nil, List.append_assoc, List.length_append, leBytes_length, ← hhdr] at hread
    rw [if_neg hlong, hread]
    rfl

theorem compactSignature_length (hC : C.Exact) (keyFrom : C.CKey) (message : List UInt8) :
    (compactSignature C keyFrom message).length = 65 := by
  unfold compactSignature
  cases hsign : C.signCompact keyFrom (C.hash message) with
  | none => exact List.length_replicate
  | some sig => exact hC.signature _ _ _ hsign

theorem readSender_append {v : UInt8} {ckidFrom : UInt160} {vchSig rest text : List UInt8}
    (hsig : vchSig.length = 65) :
    readSender B C (v :: (leBytes 20 ckidFrom.toNat ++ (vchSig ++ rest))) text =
      .ok (match recoverCompact C.toCrypto (C.hash text) vchSig with
        | none => none
        | some cpkFromSig =>
          if getID C.toCrypto cpkFromSig = ckidFrom then some (B.toText ckidFrom) else none) := by
  have haddress : readAt (v :: (leBytes 20 ckidFrom.toNat ++ (vchSig ++ rest))) 1 20 =
      .ok (leBytes 20 ckidFrom.toNat) := by
    have hread := readAt_append [v] (leBytes 20 ckidFrom.toNat) (vchSig ++ rest)
    rw [leBytes_length] at hread
    exact hread
  have hckid : BitVec.ofNat 160 (ofLEBytes (leBytes 20 ckidFrom.toNat)) = ckidFrom := by
    have hlt : ckidFrom.toNat < 256 ^ 20 := Nat.lt_of_lt_of_eq ckidFrom.isLt (by decide)
    rw [ofLEBytes_leBytes hlt]
    exact (BitVec.ofNat_toNat 160 ckidFrom).trans (BitVec.setWidth_eq ckidFrom)
  have hsignature : readAt (v :: (leBytes 20 ckidFrom.toNat ++ (vchSig ++ rest))) (1 + 20) 65 =
      .ok vchSig := by
    have hread := readAt_append (v :: leBytes 20 ckidFrom.toNat) vchSig rest
    rw [List.length_cons, leBytes_length, hsig] at hread
    exact hread
  rw [readSender, haddress, ok_bind, hsignature, ok_bind, hckid]
  cases recoverCompact C.toCrypto (C.hash text) vchSig with
  | none => rfl
  | some cpkFromSig =>
    dsimp only
    split <;> rfl

section Payload

variable (hC : C.Exact) {message msgData : List UInt8}
  (hlen : message.length ≤ SMSG_MAX_MSG_BYTES) (hdata : compressed C message = .ok msgData)

include hC hlen hdata

theorem readPayload_anonymous (msg : MessageData) :
    readPayload B C (anonymousId :: (List.replicate 4 0 ++
        (leBytes 4 message.length ++ msgData))) msg =
      .ok (0, ⟨msg.timestamp, anon, message ++ [0]⟩) := by
  have htext : readText C (anonymousId :: (List.replicate 4 0 ++
      (leBytes 4 message.length ++ msgData))) 9 = .ok (some message) :=
    readText_compressed hC (anonymousId :: List.replicate 4 0) rfl hlen hdata
  have hfirst : readAt (anonymousId :: (List.replicate 4 0 ++
      (leBytes 4 message.length ++ msgData))) 0 1 = .ok [anonymousId] :=
    readAt_append [] [anonymousId] _
  rw [readPayload, hfirst]
  show (readText C _ 9 >>= _) = _
  rw [htext]
  rfl

theorem readPayload_signed (keyFrom : C.CKey) (ckidFrom : UInt160) (msg : MessageData) :
    readPayload B C (PUBKEY_ADDRESS :: (leBytes 20 ckidFrom.toNat ++
        (compactSignature C keyFrom message ++ (leBytes 4 message.length ++ msgData)))) msg =
      match recoverCompact C.toCrypto (C.hash message) (compactSignature C keyFrom message) with
      | none => .ok (1, { msg with vchMessage := message ++ [0] })
      | some cpkFromSig =>
        if getID C.toCrypto cpkFromSig = ckidFrom then
          .ok (0, ⟨msg.timestamp, B.toText ckidFrom, message ++ [0]⟩)
        else .ok (1, { msg with vchMessage := message ++ [0] }) := by
  have hsig := compactSignature_length hC keyFrom message
  -- the header has 86 bytes before the length of the text
  have hpre : (PUBKEY_ADDRESS :: (leBytes 20 ckidFrom.toNat ++
      compactSignature C keyFrom message)).length = 86 := by
    rw [List.length_cons, List.length_append, leBytes_length, hsig]
  have htext : readText C (PUBKEY_ADDRESS :: (leBytes 20 ckidFrom.toNat ++
      (compactSignature C keyFrom message ++ (leBytes 4 message.length ++ msgData))))
        SMSG_PL_HDR_LEN = .ok (some message) := by
    have h := readText_compressed hC _ (congrArg (· + 4) hpre.symm) hlen hdata
    rw [List.cons_append, List.append_assoc] at h
    exact h
  have hfirst : readAt (PUBKEY_ADDRESS :: (leBytes 20 ckidFrom.toNat ++
      (compactSignature C keyFrom message ++ (leBytes 4 message.length ++ msgData)))) 0 1 =
        .ok [PUBKEY_ADDRESS] :=
    readAt_append [] [PUBKEY_ADDRESS] _
  rw [readPayload, hfirst]
  show (readText C _ SMSG_PL_HDR_LEN >>= _) = _
  rw [htext]
  show (readSender B C _ message >>= _) = _
  rw [readSender_append hsig, ok_bind]
  cases recoverCompact C.toCrypto (C.hash message) (compactSignature C keyFrom message) with
  | none => rfl
  | some cpkFromSig =>
    dsimp only
    by_cases hid : getID C.toCrypto cpkFromSig = ckidFrom
    · rw [if_pos hid, if_pos hid]
      rfl
    · rw [if_neg hid, if_neg hid]
      rfl

end Payload

theorem makePayload_eq_ok {node : Node C} {sender : From} {message vchPayload : List UInt8}
    (h : makePayload node sender message = .ok vchPayload) :
    ∃ msgData, compressed C message = .ok msgData ∧
      ((sender = .anonymous ∧ vchPayload =
          anonymousId :: (List.replicate 4 0 ++ (leBytes 4 message.length ++ msgData))) ∨
        ∃ ckidFrom keyFrom, sender = .key ckidFrom ∧ node.getKey ckidFrom = some keyFrom ∧
          vchPayload = PUBKEY_ADDRESS :: (leBytes 20 ckidFrom.toNat ++
            (compactSignature C keyFrom message ++ (leBytes 4 message.length ++ msgData)))) := by
  obtain ⟨msgData, hdata, h⟩ := bind_eq_ok.mp h
  refine ⟨msgData, hdata, ?_⟩
  cases sender with
  | anonymous => exact .inl ⟨rfl, (Except.ok.inj h).symm⟩
  | key ckidFrom =>
    cases hkey : node.getKey ckidFrom with
    | none =>
      simp only [hkey] at h
      cases h
    | some keyFrom =>
      simp only [hkey] at h
      exact .inr ⟨ckidFrom, keyFrom, rfl, hkey, (Except.ok.inj h).symm⟩

/-- **The payload of the sender** reads as it was made: if it is taken, it is his text, and his
name. -/
theorem readPayload_makePayload (hC : C.Exact) {node : Node C} {sender : From}
    {message vchPayload : List UInt8} {msg msg' : MessageData}
    (hlen : message.length ≤ SMSG_MAX_MSG_BYTES)
    (hmake : makePayload node sender message = .ok vchPayload)
    (hread : readPayload B C vchPayload msg = .ok (0, msg')) :
    msg' = ⟨msg.timestamp, senderText B sender, message ++ [0]⟩ := by
  obtain ⟨msgData, hdata, ⟨rfl, rfl⟩ | ⟨ckidFrom, keyFrom, rfl, -, rfl⟩⟩ := makePayload_eq_ok hmake
  · rw [readPayload_anonymous hC hlen hdata] at hread
    exact (Prod.mk.inj (Except.ok.inj hread)).2.symm
  · rw [readPayload_signed hC hlen hdata] at hread
    split at hread
    next => exact absurd (Prod.mk.inj (Except.ok.inj hread)).1 (by decide)
    next =>
      split at hread
      next => exact (Prod.mk.inj (Except.ok.inj hread)).2.symm
      next => exact absurd (Prod.mk.inj (Except.ok.inj hread)).1 (by decide)

/-! ## §3. What either side has done. -/

/-- A message that was encrypted. -/
structure Encrypted (B : AddressTexts) (node : Node C) (draws : Draws C)
    (addressFrom addressTo : List Char) (message : List UInt8) (sent : SecureMessage × List UInt8)
    (sender : From) (ckidDest : UInt160) (cpkDestK : CPubKey) (vchP : Vector UInt8 32)
    (vchPayload : List UInt8) : Prop where
  short : message.length ≤ SMSG_MAX_MSG_BYTES
  origin : readFrom B addressFrom = .ok sender
  destination : readDestination B addressTo = .ok ckidDest
  known : node.getPublicKey ckidDest = some cpkDestK
  secret : C.ECDH_compute_key cpkDestK draws.keyR = some vchP
  cpkR : sent.1.cpkR.toList = C.getPubKey draws.keyR
  valid : pubKeyIsValid sent.1.cpkR.toList = true
  payload : makePayload node sender message = .ok vchPayload
  version : sent.1.protocol = 1
  cipher : crypterEncrypt C (key_e C vchP) sent.1.iv vchPayload = some sent.2
  mac : sent.1.mac = computeMac C vchP sent.1.timestamp sent.2

theorem secureMsgEncrypt_eq_ok {node : Node C} {draws : Draws C} {smsg : SecureMessage}
    {addressFrom addressTo : List Char} {message : List UInt8} {sent : SecureMessage × List UInt8}
    (h : secureMsgEncrypt B node draws smsg addressFrom addressTo message = .ok sent) :
    ∃ sender ckidDest cpkDestK vchP vchPayload,
      Encrypted B node draws addressFrom addressTo message sent sender ckidDest cpkDestK vchP
        vchPayload := by
  obtain ⟨_, hshort, h⟩ := bind_eq_ok.mp h
  obtain ⟨sender, hsender, h⟩ := bind_eq_ok.mp h
  obtain ⟨ckidDest, hdest, h⟩ := bind_eq_ok.mp h
  obtain ⟨cpkDestK, hknown, h⟩ := bind_eq_ok.mp h
  obtain ⟨_, _, h⟩ := bind_eq_ok.mp h
  obtain ⟨vchP, hsecret, h⟩ := bind_eq_ok.mp h
  obtain ⟨cpkR, hcpkR, h⟩ := bind_eq_ok.mp h
  obtain ⟨_, hvalid, h⟩ := bind_eq_ok.mp h
  obtain ⟨vchPayload, hpayload, h⟩ := bind_eq_ok.mp h
  obtain ⟨vchCiphertext, hcipher, h⟩ := bind_eq_ok.mp h
  cases h
  have hkey : cpkR.toList = C.getPubKey draws.keyR := by
    have harray := required_eq_ok.mp hcpkR
    unfold toArray33 at harray
    split at harray
    next =>
      cases harray
      rfl
    next => cases harray
  refine ⟨sender, ckidDest, cpkDestK, vchP, vchPayload, ?_⟩
  refine
    { short := ?_
      origin := hsender
      destination := hdest
      known := required_eq_ok.mp hknown
      secret := required_eq_ok.mp hsecret
      cpkR := hkey
      valid := ?_
      payload := hpayload
      version := rfl
      cipher := required_eq_ok.mp hcipher
      mac := rfl }
  · simpa using hshort
  · simpa using hvalid

theorem sharedSecret_eq (hC : C.Exact) {node receiver : Node C} {draws : Draws C}
    {addressFrom addressTo address : List Char} {message : List UInt8}
    {sent : SecureMessage × List UInt8} {sender : From} {ckidDest : UInt160} {cpkDestK : CPubKey}
    {vchP : Vector UInt8 32} {vchPayload : List UInt8} {keyDest : C.CKey}
    (he : Encrypted B node draws addressFrom addressTo message sent sender ckidDest cpkDestK vchP
      vchPayload) (hb : Between B node receiver addressTo address keyDest) :
    sharedSecret C sent.1.cpkR keyDest = some vchP := by
  obtain ⟨ckid, hckid, hpub⟩ := hb.known
  obtain rfl : ckid = ckidDest := Except.ok.inj (hckid.symm.trans he.destination)
  obtain rfl : C.getPubKey keyDest = cpkDestK := Option.some.inj (hpub.symm.trans he.known)
  have hpoint : C.setPubKey sent.1.cpkR.toList = true := by
    rw [he.cpkR]
    exact hC.setPubKey draws.keyR
  rw [sharedSecret, he.valid, hpoint]
  show C.ECDH_compute_key sent.1.cpkR.toList keyDest = _
  rw [he.cpkR, hC.ecdh]
  exact he.secret

theorem secureMsgDecrypt_eq_ok {receiver : Node C} {address : List Char} {keyDest : C.CKey}
    (hown : ownKey B receiver address = some keyDest) {psmsg : SecureMessage}
    {pPayload : List UInt8} {msg msg' : MessageData} :
    secureMsgDecrypt B receiver false address psmsg pPayload msg = .ok (0, msg') ↔
      psmsg.protocol = 1 ∧ ∃ vchP vchPayload, sharedSecret C psmsg.cpkR keyDest = some vchP ∧
        computeMac C vchP psmsg.timestamp pPayload = psmsg.mac ∧
        crypterDecrypt C (key_e C vchP) psmsg.iv pPayload = some vchPayload ∧
        readPayload B C vchPayload { msg with timestamp := psmsg.timestamp } = .ok (0, msg') := by
  rw [secureMsgDecrypt, hown]
  dsimp only
  constructor
  · intro h
    split at h
    next => exact absurd (Prod.mk.inj (Except.ok.inj h)).1 (by decide)
    next hversion =>
      split at h
      next => exact absurd (Prod.mk.inj (Except.ok.inj h)).1 (by decide)
      next vchP hsecret =>
        split at h
        next => exact absurd (Prod.mk.inj (Except.ok.inj h)).1 (by decide)
        next hmac =>
          rw [if_neg (by decide)] at h
          split at h
          next => exact absurd (Prod.mk.inj (Except.ok.inj h)).1 (by decide)
          next vchPayload hplain =>
            exact ⟨not_not.mp hversion, vchP, vchPayload, hsecret, not_not.mp hmac, hplain, h⟩
  · rintro ⟨hversion, vchP, vchPayload, hsecret, hmac, hplain, hread⟩
    rw [if_neg (not_not.mpr hversion), hsecret]
    dsimp only
    rw [if_neg (not_not.mpr hmac), if_neg (by decide), hplain]
    exact hread

theorem macData_inj {timestamp timestamp' : Int64} {pPayload pPayload' : List UInt8}
    (h : macData timestamp pPayload = macData timestamp' pPayload') :
    timestamp = timestamp' ∧ pPayload = pPayload' := by
  have hlen : (leBytes 8 timestamp.toUInt64.toNat).length =
      (leBytes 8 timestamp'.toUInt64.toNat).length := by
    rw [leBytes_length, leBytes_length]
  obtain ⟨htime, hpayload⟩ := List.append_inj h hlen
  refine ⟨?_, hpayload⟩
  -- eight bytes read back as the timestamp
  have hread := format_int64.reads timestamp [] trivial
  rw [htime, format_int64.reads timestamp' [] trivial] at hread
  exact (Prod.mk.inj (Option.some.inj hread)).1.symm

/-! ## §4. Another iv. -/

variable (n : Nat)

/-- The first block of an anonymous message whose text has `n` bytes, with a padding of one
byte. -/
def targetBytes : List UInt8 :=
  anonymousId :: (List.replicate 4 0 ++ (leBytes 4 n ++ [0, 0, 0, 0, 0, 0, 1]))

theorem targetBytes_length : (targetBytes n).length = 16 := by
  rw [targetBytes, List.length_cons, List.length_append, List.length_append, leBytes_length]
  rfl

def target : Block := ⟨(targetBytes n).toArray, by simpa using targetBytes_length n⟩

theorem unpad_target (plain : List UInt8) :
    ∃ tail, unpad 16 ((target n).toList ++ (pad 16 plain).drop 16) =
    some (anonymousId :: (List.replicate 4 0 ++ (leBytes 4 n ++ 0 :: tail))) := by
  have htarget : (target n).toList = targetBytes n := rfl
  rw [htarget]
  by_cases hlong : 16 ≤ plain.length
  · -- the padding is in a later block, and stays
    have hdrop : (pad 16 plain).drop 16 =
        plain.drop 16 ++ List.replicate (16 - plain.length % 16)
          (UInt8.ofNat (16 - plain.length % 16)) :=
      List.drop_append_of_le_length hlong
    refine ⟨[0, 0, 0, 0, 0, 1] ++ plain.drop 16, ?_⟩
    rw [hdrop, ← List.append_assoc, unpad_append (by omega) (by omega) (by omega)]
    simp [targetBytes]
  · -- there is one block: its last byte is the padding
    have hdrop : (pad 16 plain).drop 16 = [] := by
      apply List.drop_eq_nil_of_le
      rw [pad, List.length_append, List.length_replicate]
      omega
    refine ⟨[0, 0, 0, 0, 0], ?_⟩
    have hsplit : targetBytes n = (anonymousId :: (List.replicate 4 0 ++
        (leBytes 4 n ++ [0, 0, 0, 0, 0, 0]))) ++ List.replicate 1 (UInt8.ofNat 1) := by
      simp [targetBytes]
    rw [hdrop, List.append_nil, hsplit, unpad_append (by omega) (by omega) (by omega)]

/-- **A payload with that block** reads as an anonymous message of a byte, or of none. -/
theorem readPayload_target {n : Nat} (hn : n ≤ 1) (tail : List UInt8) (msg : MessageData) :
    readPayload B C (anonymousId :: (List.replicate 4 0 ++ (leBytes 4 n ++ 0 :: tail))) msg =
      .ok (0, ⟨msg.timestamp, anon, List.replicate n 0 ++ [0]⟩) := by
  have hfirst : readAt (anonymousId :: (List.replicate 4 0 ++ (leBytes 4 n ++ 0 :: tail))) 0 1 =
      .ok [anonymousId] := readAt_append [] [anonymousId] _
  have htext : readText C (anonymousId :: (List.replicate 4 0 ++ (leBytes 4 n ++ 0 :: tail))) 9 =
      .ok (some (List.replicate n 0)) := by
    have h : readText C ((anonymousId :: List.replicate 4 0) ++ (leBytes 4 n ++ 0 :: tail)) 9 =
        _ := readText_eq rfl (by omega)
    have hread : readAt ((anonymousId :: List.replicate 4 0) ++ (leBytes 4 n ++ 0 :: tail)) 9 n =
        .ok (List.replicate n 0) := by
      have hsome : n = 0 ∨ n = 1 := by omega
      rcases hsome with rfl | rfl
      · exact readAt_append ((anonymousId :: List.replicate 4 0) ++ leBytes 4 0) [] (0 :: tail)
      · exact readAt_append ((anonymousId :: List.replicate 4 0) ++ leBytes 4 1) [0] tail
    rw [if_neg (by omega), hread] at h
    exact h
  rw [readPayload, hfirst]
  show (readText C _ 9 >>= _) = _
  rw [htext]
  rfl

/-! ## §5. Authenticity. -/

section Authenticity

variable (hC : C.Exact) {node receiver : Node C} {draws : Draws C} {smsg : SecureMessage}
  {addressFrom addressTo address : List Char} {message : List UInt8}
  {sent : SecureMessage × List UInt8} {sender : From} {keyDest : C.CKey}

include hC

/-- **With the sender's iv** a message is authentic. -/
theorem authentic_of_iv
    (hsent : secureMsgEncrypt B node draws smsg addressFrom addressTo message = .ok sent)
    (hsender : readFrom B addressFrom = .ok sender)
    (hb : Between B node receiver addressTo address keyDest) :
    Authentic B receiver address keyDest sender message sent fun psmsg =>
      psmsg.iv = sent.1.iv := by
  obtain ⟨sender', ckidDest, cpkDestK, vchP, vchPayload, he⟩ := secureMsgEncrypt_eq_ok hsent
  obtain rfl : sender' = sender := Except.ok.inj (he.origin.symm.trans hsender)
  have hsecret := sharedSecret_eq hC he hb
  intro psmsg pPayload msg msg' hiv hcpkR hunforged hdecrypt
  obtain ⟨-, vchP', vchPayload', hsecret', hmac, hplain, hread⟩ :=
    (secureMsgDecrypt_eq_ok hb.own).mp hdecrypt
  -- the code is verified with the sender's key, so it is his
  have hmine := hunforged vchP' hsecret' hmac
  obtain ⟨htime, rfl⟩ := macData_inj hmine
  rw [hcpkR, hsecret] at hsecret'
  cases hsecret'
  rw [hiv, crypterDecrypt_encrypt hC he.cipher] at hplain
  cases hplain
  rw [readPayload_makePayload hC he.short he.payload hread]
  exact ⟨htime, rfl, rfl⟩

/-- **Without it** no message is: some iv makes an anonymous one of it, with another text. -/
theorem not_authentic
    (hsent : secureMsgEncrypt B node draws smsg addressFrom addressTo message = .ok sent)
    (hb : Between B node receiver addressTo address keyDest) :
    ¬ Authentic B receiver address keyDest sender message sent fun _ => True := by
  obtain ⟨sender', ckidDest, cpkDestK, vchP, vchPayload, he⟩ := secureMsgEncrypt_eq_ok hsent
  have hsecret := sharedSecret_eq hC he hb
  intro h
  -- a text of another length
  obtain ⟨n, hn, hne⟩ : ∃ n, n ≤ 1 ∧ message.length ≠ n := by
    by_cases hempty : message.length = 0
    · exact ⟨1, by omega, by omega⟩
    · exact ⟨0, by omega, hempty⟩
  obtain ⟨iv, hiv⟩ := crypterDecrypt_other hC he.cipher (target n)
  obtain ⟨tail, htail⟩ := unpad_target n vchPayload
  have hread := readPayload_target (B := B) (C := C) hn tail ⟨sent.1.timestamp, [], []⟩
  let altered : SecureMessage := { sent.1 with iv := iv }
  have hdecrypt : secureMsgDecrypt B receiver false address altered sent.2 ⟨0, [], []⟩ =
      .ok (0, ⟨sent.1.timestamp, anon, List.replicate n 0 ++ [0]⟩) :=
    (secureMsgDecrypt_eq_ok hb.own).mpr
      ⟨he.version, vchP, _, hsecret, he.mac.symm, hiv.trans htail, hread⟩
  have hunforged : Unforged keyDest sent altered sent.2 := fun _ _ _ => rfl
  obtain ⟨-, htext, -⟩ := h altered sent.2 _ _ trivial rfl hunforged hdecrypt
  have hlen := congrArg List.length htext
  rw [List.length_append, List.length_append, List.length_replicate] at hlen
  omega

/-- **The messages that are authentic.**  For every message that was encrypted: whatever is
decrypted with the sender's iv has his timestamp, text and name, and what is decrypted with
any iv has not. -/
theorem authentic_only_with_iv
    (hsent : secureMsgEncrypt B node draws smsg addressFrom addressTo message = .ok sent)
    (hsender : readFrom B addressFrom = .ok sender)
    (hb : Between B node receiver addressTo address keyDest) :
    (Authentic B receiver address keyDest sender message sent fun psmsg =>
        psmsg.iv = sent.1.iv) ∧
      ¬ Authentic B receiver address keyDest sender message sent fun _ => True :=
  ⟨authentic_of_iv hC hsent hsender hb, not_authentic hC hsent hb⟩

end Authenticity

/-! ## §6. Another amount.

An anonymous message of the text "pay 1" to one key, with the values of the real functions on
it. -/

section Amount

def pubK : CPubKey :=
  [3, 79, 53, 91, 220, 183, 204, 10, 247, 40, 239, 60, 206, 185, 97, 93, 144, 104, 75, 181, 178,
    202, 95, 133, 154, 176, 240, 183, 4, 7, 88, 113, 170]

def pubR : CPubKey :=
  [2, 70, 109, 127, 202, 229, 99, 229, 203, 9, 160, 209, 135, 11, 181, 128, 52, 72, 4, 97, 120,
    121, 161, 73, 73, 207, 34, 40, 95, 27, 174, 63, 39]

def sharedPoint : Vector UInt8 32 :=
  #v[119, 224, 81, 13, 80, 66, 226, 245, 233, 229, 156, 151, 123, 129, 238, 237, 89, 12, 247, 210,
    12, 28, 81, 218, 69, 26, 142, 170, 159, 220, 69, 255]

def sharedHash : Vector UInt8 64 :=
  #v[81, 184, 77, 163, 248, 94, 20, 160, 148, 234, 94, 205, 129, 52, 49, 165, 251, 142, 62, 112, 69,
    212, 247, 99, 87, 91, 124, 111, 157, 58, 22, 128, 191, 121, 249, 33, 73, 34, 109, 172, 163, 53,
    230, 27, 126, 250, 91, 74, 137, 231, 99, 237, 244, 100, 114, 142, 69, 220, 121, 96, 83, 4, 56,
    200]

def plainBlock : Block := #v[251, 2, 3, 4, 5, 3, 7, 8, 9, 122, 106, 117, 45, 63, 13, 18]

def cipherBlock : Block := #v[9, 67, 192, 58, 112, 122, 65, 73, 146, 173, 137, 220, 54, 117, 111, 0]

def swapBlock (b : Block) : Block :=
  if b = plainBlock then cipherBlock else if b = cipherBlock then plainBlock else b

theorem swapBlock_swapBlock (b : Block) : swapBlock (swapBlock b) = b := by
  have hne : cipherBlock ≠ plainBlock := by decide
  unfold swapBlock
  by_cases hplain : b = plainBlock
  · rw [if_pos hplain, if_neg hne, if_pos rfl, hplain]
  · rw [if_neg hplain]
    by_cases hcipher : b = cipherBlock
    · rw [if_pos hcipher, if_pos rfl, hcipher]
    · rw [if_neg hcipher, if_neg hplain, if_neg hcipher]

def sampleTime : Int64 := 1700000000

def sampleMac : Vector UInt8 32 :=
  #v[93, 64, 114, 65, 121, 143, 63, 54, 61, 127, 248, 117, 11, 7, 249, 209, 126, 88, 56, 243, 76,
    58, 98, 218, 158, 147, 155, 234, 57, 4, 128, 125]

def sampleSmsgCrypto : SmsgCrypto where
  toHashes := sampleHashes
  CKey := Bool
  getPubKey k := if k then pubR else pubK
  signCompact _ _ := none
  recover _ _ _ _ := none
  setPubKey cpk := cpk = pubK || cpk = pubR
  ECDH_compute_key cpk k := if cpk = (if k then pubK else pubR) then some sharedPoint else none
  SHA512 _ := sharedHash
  hmacSha256 _ data :=
    if data = macData sampleTime cipherBlock.toList then sampleMac else Vector.replicate 32 0
  aesEncrypt _ := swapBlock
  aesDecrypt _ := swapBlock
  LZ4_compress bs := bs
  LZ4_decompress_safe bs n := if bs.length = n then some bs else none

theorem sampleSmsgCrypto_exact : sampleSmsgCrypto.Exact where
  setPubKey := by
    show ∀ k : Bool, _
    decide
  ecdh := by
    show ∀ k r : Bool, _
    intro k r
    cases k <;> cases r <;> rfl
  aes _ b := swapBlock_swapBlock b
  lz4 _ := if_pos rfl
  signature _ _ _ h := nomatch h

def receiverAddress : List Char :=
  ['F', 't', 'B', 'X', 'f', 'z', 'e', 'k', 'p', 'i', 'u', 'u', 'H', '2', 'd', 'c', 'J', 'T', 'b',
    'M', 'd', 'p', 'v', 'N', 'g', 'h', 'N', 'M', 'b', 'o', 'R', 't', '3', 'R']

def receiverId : UInt160 := 0xef1c351778f0e58d73a2e50ec7ddde11a25072fc

def sampleTexts : AddressTexts where
  setString text := if text = receiverAddress then some (.key receiverId) else none
  toText _ := receiverAddress

def sampleNode : Node sampleSmsgCrypto where
  getKey ckid := if ckid = receiverId then some false else none
  getPublicKey ckid := if ckid = receiverId then some pubK else none

def sampleDraws : Draws sampleSmsgCrypto where
  now := sampleTime
  iv := #v[1, 2, 3, 4, 5, 6, 7, 8, 9, 10, 11, 12, 13, 14, 15, 16]
  keyR := true

def sampleText : List UInt8 := [112, 97, 121, 32, 49]

theorem sampleVersion_size : (#[1, 1] : Array UInt8).size = 2 := rfl

theorem pubR_size : pubR.toArray.size = 33 := rfl

def sampleSent : SecureMessage × List UInt8 :=
  (⟨.replicate 4 0, ⟨#[1, 1], sampleVersion_size⟩, 0, sampleTime, sampleDraws.iv,
    ⟨pubR.toArray, pubR_size⟩, sampleMac, .replicate 4 0, 16⟩, cipherBlock.toList)

def sampleAltered : SecureMessage :=
  { sampleSent.1 with iv := #v[1, 2, 3, 4, 5, 6, 7, 8, 9, 10, 11, 12, 13, 6, 15, 16] }

theorem sampleSent_encrypted :
    secureMsgEncrypt sampleTexts sampleNode sampleDraws { sampleSent.1 with nPayload := 0 } anon
      receiverAddress sampleText = .ok sampleSent := by
  decide +kernel

theorem between_sample : Between (C := sampleSmsgCrypto) sampleTexts sampleNode sampleNode
    receiverAddress receiverAddress false where
  own := rfl
  known := ⟨receiverId, rfl, rfl⟩

/-- The message keeps its sender and its text with its iv, and with no other. -/
theorem authentic_sample :
    Authentic (C := sampleSmsgCrypto) sampleTexts sampleNode receiverAddress false .anonymous
        sampleText sampleSent (fun psmsg => psmsg.iv = sampleSent.1.iv) ∧
      ¬ Authentic (C := sampleSmsgCrypto) sampleTexts sampleNode receiverAddress false .anonymous
        sampleText sampleSent (fun _ => True) :=
  authentic_only_with_iv sampleSmsgCrypto_exact sampleSent_encrypted rfl between_sample

/-- **A relay changes the amount.**  With the byte 14 of the iv 6 for 14 the message reads
"pay 9", and its code is verified. -/
theorem authentic_pay_nine :
    secureMsgEncrypt sampleTexts sampleNode sampleDraws { sampleSent.1 with nPayload := 0 } anon
        receiverAddress sampleText = .ok sampleSent ∧
      secureMsgDecrypt sampleTexts sampleNode false receiverAddress sampleAltered sampleSent.2
        ⟨0, [], []⟩ = .ok (0, ⟨sampleTime, anon, [112, 97, 121, 32, 57, 0]⟩) ∧
      ¬ Authentic (C := sampleSmsgCrypto) sampleTexts sampleNode receiverAddress false .anonymous
        sampleText sampleSent (fun _ => True) := by
  have hread : secureMsgDecrypt sampleTexts sampleNode false receiverAddress sampleAltered
      sampleSent.2 ⟨0, [], []⟩ = .ok (0, ⟨sampleTime, anon, [112, 97, 121, 32, 57, 0]⟩) := by
    decide +kernel
  have hunforged : Unforged (C := sampleSmsgCrypto) false sampleSent sampleAltered sampleSent.2 :=
    fun _ _ _ => rfl
  refine ⟨sampleSent_encrypted, hread, ?_⟩
  intro h
  have htext := (h sampleAltered sampleSent.2 _ _ trivial rfl hunforged hread).2.1
  exact absurd htext (by decide)

end Amount

end Fantom.Smsg
