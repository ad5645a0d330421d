/-
  Fantom.Smsg.Encryption — How a message is encrypted for an address, and decrypted with one.

  * `makePayload`, `secureMsgEncrypt` — the sender,
  * `readPayload`, `secureMsgDecrypt` — the receiver.

  A payload begins with the version of an address, or with 250 for an anonymous sender.
-/
import Fantom.Script.Signature
import Fantom.Smsg.Crypter
import Fantom.Lib.Returns

namespace Fantom.Smsg

open Core Lib Script

/-! ## §1. Nodes. -/

/-- An address that was read: of a key, or another one. -/
inductive CFantomAddress where
  | key (ckid : UInt160)
  | other
deriving DecidableEq

/-- The texts of addresses. -/
structure AddressTexts where
  /-- `CFantomAddress::SetString` -/
  setString : List Char → Option CFantomAddress
  /-- `CFantomAddress::ToString`, of the address of a key. -/
  toText : UInt160 → List Char

/-- What a node has: its keys, and the public keys that it has seen. -/
structure Node (C : SmsgCrypto) where
  /-- `pwalletMain->GetKey` -/
  getKey : UInt160 → Option C.CKey
  /-- `SecureMsgGetStoredKey`, and `SecureMsgGetLocalKey` where that finds none. -/
  getPublicKey : UInt160 → Option CPubKey

/-- What is drawn for a message. -/
structure Draws (C : SmsgCrypto) where
  /-- `GetTime()` -/
  now : Int64
  iv : Block
  keyR : C.CKey

/-- `MessageData` -/
structure MessageData where
  timestamp : Int64
  sFromAddress : List Char
  /-- The text, and a zero byte. -/
  vchMessage : List UInt8
deriving DecidableEq

def anon : List Char := ['a', 'n', 'o', 'n']

/-- `base58Prefixes[PUBKEY_ADDRESS]`, of both networks. -/
def PUBKEY_ADDRESS : UInt8 := 36

/-- The first byte of the payload of an anonymous message. -/
def anonymousId : UInt8 := 250

variable {C : SmsgCrypto} (B : AddressTexts)

/-- The key that enciphers: the first 32 bytes of the hash of the shared secret. -/
def key_e (C : SmsgCrypto) (vchP : Vector UInt8 32) : Vector UInt8 32 :=
  (C.SHA512 vchP.toList).extract 0 32

/-- The key that authenticates: the last 32 bytes. -/
def key_m (C : SmsgCrypto) (vchP : Vector UInt8 32) : Vector UInt8 32 :=
  (C.SHA512 vchP.toList).extract 32 64

/-- What `HMAC` is updated with: the timestamp, and the payload. -/
def macData (timestamp : Int64) (pPayload : List UInt8) : List UInt8 :=
  leBytes 8 timestamp.toUInt64.toNat ++ pPayload

def computeMac (C : SmsgCrypto) (vchP : Vector UInt8 32) (timestamp : Int64)
    (pPayload : List UInt8) : Vector UInt8 32 :=
  C.hmacSha256 (key_m C vchP).toList (macData timestamp pPayload)

/-! ## §2. The sender. -/

/-- Who a message is from. -/
inductive From where
  | anonymous
  | key (ckidFrom : UInt160)
deriving DecidableEq

/-- The sender of `addressFrom`: error 3 where it is no address, 4 where it is none of a
key. -/
def readFrom (addressFrom : List Char) : Except Nat From :=
  if addressFrom = anon then .ok .anonymous
  else match B.setString addressFrom with
    | none => .error 3
    | some .other => .error 4
    | some (.key ckidFrom) => .ok (.key ckidFrom)

/-- The key id of `addressTo`: error 4 where it is none. -/
def readDestination (addressTo : List Char) : Except Nat UInt160 :=
  match B.setString addressTo with
  | some (.key ckidDest) => .ok ckidDest
  | _ => .error 4

/-- The message as it is sent: compressed, if it has more than 128 bytes.  Error 9 where
nothing is left of it. -/
def compressed (C : SmsgCrypto) (message : List UInt8) : Except Nat (List UInt8) :=
  if message.length > 128 then
    if (C.LZ4_compress message).isEmpty then .error 9 else .ok (C.LZ4_compress message)
  else .ok message

/-- `SignCompact`, whose result is not asked for: where it fails the bytes are zero. -/
def compactSignature (C : SmsgCrypto) (keyFrom : C.CKey) (message : List UInt8) : List UInt8 :=
  (C.signCompact keyFrom (C.hash message)).getD (List.replicate 65 0)

variable (node : Node C)

/-- The payload before it is enciphered.  Error 7 where the sender's key is not there. -/
def makePayload (sender : From) (message : List UInt8) : Except Nat (List UInt8) := do
  let lenMsg := leBytes 4 message.length
  let msgData ← compressed C message
  match sender with
  | .anonymous => .ok (anonymousId :: (List.replicate 4 0 ++ (lenMsg ++ msgData)))
  | .key ckidFrom =>
    match node.getKey ckidFrom with
    | none => .error 7
    | some keyFrom =>
      .ok (PUBKEY_ADDRESS :: (leBytes 20 ckidFrom.toNat ++
        (compactSignature C keyFrom message ++ (lenMsg ++ msgData))))

def toArray33 (cpk : CPubKey) : Option (Vector UInt8 33) :=
  if h : cpk.length = 33 then some ⟨cpk.toArray, by simpa using h⟩ else none

/-- `SecureMsgEncrypt`: the header and the payload, or the error.  The fields of the header that
it does not set are those of `smsg`. -/
def secureMsgEncrypt (draws : Draws C) (smsg : SecureMessage) (addressFrom addressTo : List Char)
    (message : List UInt8) : Except Nat (SecureMessage × List UInt8) := do
  rejectIf (message.length > SMSG_MAX_MSG_BYTES) 2
  let sender ← readFrom B addressFrom
  let ckidDest ← readDestination B addressTo
  let cpkDestK ← required (node.getPublicKey ckidDest) 5
  rejectIf (!C.setPubKey cpkDestK) 4
  let vchP ← required (C.ECDH_compute_key cpkDestK draws.keyR) 6
  let cpkR ← required (toArray33 (C.getPubKey draws.keyR)) 1
  rejectIf (!pubKeyIsValid cpkR.toList) 1
  let vchPayload ← makePayload node sender message
  let vchCiphertext ← required (crypterEncrypt C (key_e C vchP) draws.iv vchPayload) 11
  return ({ smsg with
      version := #v[1, 1]
      timestamp := draws.now
      iv := draws.iv
      cpkR := cpkR
      mac := computeMac C vchP draws.now vchCiphertext
      nPayload := UInt32.ofNat vchCiphertext.length }, vchCiphertext)

/-! ## §3. The receiver. -/

/-- `n` bytes from `o` on, for a `memcpy`. -/
def readAt (bytes : List UInt8) (o n : Nat) : Except Abort (List UInt8) :=
  if o + n ≤ bytes.length then .ok ((bytes.drop o).take n) else .error .dangling

/-- The text of a payload, whose header has `hdr` bytes and ends in the length of the text;
`none` where it is not decompressed.  A length of 2^32 - 1 is made a buffer of 0 bytes, and -1 where
it is compared with what the decompressor returns, which is less than that in an error. -/
def readText (C : SmsgCrypto) (vchPayload : List UInt8) (hdr : Nat) :
    Except Abort (Option (List UInt8)) := do
  let lenPlain := ofLEBytes (← readAt vchPayload (hdr - 4) 4)
  if lenPlain > 128 then
    if lenPlain = 0xffffffff then .ok none
    else .ok (C.LZ4_decompress_safe (vchPayload.drop hdr) lenPlain)
  else some <$> readAt vchPayload hdr lenPlain

/-- The sender of a signed text: the error 1 where the signature is not of the address. -/
def readSender (C : SmsgCrypto) (vchPayload text : List UInt8) :
    Except Abort (Option (List Char)) := do
  let ckidFrom := BitVec.ofNat 160 (ofLEBytes (← readAt vchPayload 1 20))
  let vchSig ← readAt vchPayload (1 + 20) 65
  match recoverCompact C.toCrypto (C.hash text) vchSig with
  | none => .ok none
  | some cpkFromSig =>
    if getID C.toCrypto cpkFromSig = ckidFrom then .ok (some (B.toText ckidFrom))
    else .ok none

/-- The end of `SecureMsgDecrypt`, with the payload that was deciphered. -/
def readPayload (C : SmsgCrypto) (vchPayload : List UInt8) (msg : MessageData) :
    Except Abort (Nat × MessageData) := do
  let first ← readAt vchPayload 0 1
  let fFromAnonymous := first == [anonymousId]
  let some text ← readText C vchPayload (if fFromAnonymous then 9 else SMSG_PL_HDR_LEN)
    | return (1, msg)
  let msg := { msg with vchMessage := text ++ [0] }
  if fFromAnonymous then return (0, { msg with sFromAddress := anon })
  else
    let some sFromAddress ← readSender B C vchPayload text | return (1, msg)
    return (0, { msg with sFromAddress := sFromAddress })

def ownKey (address : List Char) : Option C.CKey :=
  match B.setString address with
  | some (.key ckidDest) => node.getKey ckidDest
  | _ => none

def sharedSecret (C : SmsgCrypto) (cpkR : Vector UInt8 33) (keyDest : C.CKey) :
    Option (Vector UInt8 32) :=
  if pubKeyIsValid cpkR.toList && C.setPubKey cpkR.toList then
    C.ECDH_compute_key cpkR.toList keyDest
  else none

/-- `SecureMsgDecrypt`: what it returns, and the message then.  The sender's key is put into a
database, which changes nothing here. -/
def secureMsgDecrypt (fTestOnly : Bool) (address : List Char) (psmsg : SecureMessage)
    (pPayload : List UInt8) (msg : MessageData) : Except Abort (Nat × MessageData) :=
  if psmsg.protocol ≠ 1 then .ok (2, msg)
  else match ownKey B node address with
    | none => .ok (3, msg)
    | some keyDest =>
      match sharedSecret C psmsg.cpkR keyDest with
      | none => .ok (1, msg)
      | some vchP =>
        if computeMac C vchP psmsg.timestamp pPayload ≠ psmsg.mac then .ok (1, msg)
        else if fTestOnly then .ok (0, msg)
        else
          match crypterDecrypt C (key_e C vchP) psmsg.iv pPayload with
          | none => .ok (1, msg)
          | some vchPayload =>
            readPayload B C vchPayload { msg with timestamp := psmsg.timestamp }

end Fantom.Smsg
