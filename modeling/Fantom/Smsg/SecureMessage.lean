/-
  Fantom.Smsg.SecureMessage — An encrypted message: its header, and its payload.

  * `SecureMessage`, `SecureMessage.bytes`, `readSecureMessage` — the header, 104 bytes,
  * `Message`, `Message.bytes`, `readMessage` — the header and its payload.

  The class is packed, so that a pointer to 104 bytes is a pointer to a header.
-/
import Fantom.Core.Wire

namespace Fantom.Smsg

open Core Lib

/-! ## §1. Arrays of bytes. -/

/-- An array of `n` bytes. -/
def readVector (n : Nat) : Reader UInt8 (Vector UInt8 n) := fun bs =>
  if h : n ≤ bs.length then
    some (⟨(bs.take n).toArray, by simp [h]⟩, bs.drop n)
  else none

theorem format_vector_bytes (n : Nat) :
    Format (Vector.toList (n := n)) (readVector n) (fun _ => True) id where
  reads v rest _ := by
    have hlen : v.toList.length = n := v.length_toList
    have hle : n ≤ (v.toList ++ rest).length := by
      rw [List.length_append]
      omega
    show (if h : n ≤ (v.toList ++ rest).length then _ else _) = _
    rw [dif_pos hle, List.drop_left' hlen]
    have htake : (v.toList ++ rest).take n = v.toList := List.take_left' hlen
    congr 2
    apply Vector.toArray_inj.mp
    show ((v.toList ++ rest).take n).toArray = v.toArray
    rw [htake]
    exact Array.toArray_toList
  takes bs v rest h := by
    change (if h : n ≤ bs.length then _ else _) = _ at h
    split at h
    next hle =>
      cases h
      exact ⟨(List.take_append_drop n bs).symm, trivial⟩
    next => cases h

theorem length_of_readVector {n : Nat} {bs rest : List UInt8} {v : Vector UInt8 n}
    (h : (readVector n).run bs = some (v, rest)) : bs.length = n + rest.length := by
  obtain ⟨rfl, -⟩ := (format_vector_bytes n).takes bs v rest h
  rw [List.length_append, v.length_toList]

/-- `uint8_t` -/
def readUInt8 : Reader UInt8 UInt8 := UInt8.ofNat <$> readNumber 1

theorem format_uint8 :
    Format (fun n : UInt8 => leBytes 1 n.toNat) readUInt8 (fun _ => True) id :=
  format_ofNumber UInt8.toNat_lt (fun _ => UInt8.ofNat_toNat)
    fun _ hn => UInt8.toNat_ofNat_of_lt hn

/-! ## §2. The header. -/

/-- `SecureMessage`, but for its pointer to the payload. -/
structure SecureMessage where
  hash : Vector UInt8 4
  version : Vector UInt8 2
  flags : UInt8
  timestamp : Int64
  iv : Vector UInt8 16
  cpkR : Vector UInt8 33
  mac : Vector UInt8 32
  nonse : Vector UInt8 4
  nPayload : UInt32
deriving DecidableEq

/-- Length of the unencrypted header: 4 + 2 + 1 + 8 + 16 + 33 + 32 + 4 + 4. -/
def SMSG_HDR_LEN : Nat := 104

variable (smsg : SecureMessage)

def SecureMessage.bytes : List UInt8 :=
  smsg.hash.toList ++ (smsg.version.toList ++ (leBytes 1 smsg.flags.toNat ++
    (leBytes 8 smsg.timestamp.toUInt64.toNat ++ (smsg.iv.toList ++ (smsg.cpkR.toList ++
      (smsg.mac.toList ++ (smsg.nonse.toList ++ leBytes 4 smsg.nPayload.toNat)))))))

/-- `fread(&smsg.hash[0], sizeof(uint8_t), SMSG_HDR_LEN, fp)` -/
def readSecureMessage : Reader UInt8 SecureMessage := do
  let hash ← readVector 4
  let version ← readVector 2
  let flags ← readUInt8
  let timestamp ← readInt64
  let iv ← readVector 16
  let cpkR ← readVector 33
  let mac ← readVector 32
  let nonse ← readVector 4
  let nPayload ← readUInt32
  return ⟨hash, version, flags, timestamp, iv, cpkR, mac, nonse, nPayload⟩

@[simp] theorem SecureMessage.bytes_length : smsg.bytes.length = SMSG_HDR_LEN := by
  simp [SecureMessage.bytes, SMSG_HDR_LEN]

theorem format_secureMessage :
    Format SecureMessage.bytes readSecureMessage (fun _ => True) id where
  reads smsg rest _ := by
    unfold SecureMessage.bytes readSecureMessage
    simp only [List.append_assoc]
    rw [run_bind_of_eq ((format_vector_bytes 4).reads smsg.hash _ trivial),
      run_bind_of_eq ((format_vector_bytes 2).reads smsg.version _ trivial),
      run_bind_of_eq (format_uint8.reads smsg.flags _ trivial),
      run_bind_of_eq (format_int64.reads smsg.timestamp _ trivial),
      run_bind_of_eq ((format_vector_bytes 16).reads smsg.iv _ trivial),
      run_bind_of_eq ((format_vector_bytes 33).reads smsg.cpkR _ trivial),
      run_bind_of_eq ((format_vector_bytes 32).reads smsg.mac _ trivial),
      run_bind_of_eq ((format_vector_bytes 4).reads smsg.nonse _ trivial),
      run_bind_of_eq (format_uint32.reads smsg.nPayload rest trivial)]
    rfl
  takes bs smsg rest h := by
    obtain ⟨hash, rest1, hhash, h1⟩ := run_bind_eq_some.mp h
    obtain ⟨version, rest2, hversion, h2⟩ := run_bind_eq_some.mp h1
    obtain ⟨flags, rest3, hflags, h3⟩ := run_bind_eq_some.mp h2
    obtain ⟨timestamp, rest4, htimestamp, h4⟩ := run_bind_eq_some.mp h3
    obtain ⟨iv, rest5, hiv, h5⟩ := run_bind_eq_some.mp h4
    obtain ⟨cpkR, rest6, hcpkR, h6⟩ := run_bind_eq_some.mp h5
    obtain ⟨mac, rest7, hmac, h7⟩ := run_bind_eq_some.mp h6
    obtain ⟨nonse, rest8, hnonse, h8⟩ := run_bind_eq_some.mp h7
    obtain ⟨nPayload, rest9, hnPayload, h9⟩ := run_bind_eq_some.mp h8
    obtain ⟨rfl, rfl⟩ := run_pure_eq_some.mp h9
    obtain ⟨rfl, -⟩ := (format_vector_bytes 4).takes bs hash rest1 hhash
    obtain ⟨rfl, -⟩ := (format_vector_bytes 2).takes rest1 version rest2 hversion
    obtain ⟨rfl, -⟩ := format_uint8.takes rest2 flags rest3 hflags
    obtain ⟨rfl, -⟩ := format_int64.takes rest3 timestamp rest4 htimestamp
    obtain ⟨rfl, -⟩ := (format_vector_bytes 16).takes rest4 iv rest5 hiv
    obtain ⟨rfl, -⟩ := (format_vector_bytes 33).takes rest5 cpkR rest6 hcpkR
    obtain ⟨rfl, -⟩ := (format_vector_bytes 32).takes rest6 mac rest7 hmac
    obtain ⟨rfl, -⟩ := (format_vector_bytes 4).takes rest7 nonse rest8 hnonse
    obtain ⟨rfl, -⟩ := format_uint32.takes rest8 nPayload rest9 hnPayload
    refine ⟨?_, trivial⟩
    simp only [SecureMessage.bytes, List.append_assoc]

theorem length_of_readSecureMessage {bs rest : List UInt8} {smsg : SecureMessage}
    (h : readSecureMessage.run bs = some (smsg, rest)) :
    bs.length = SMSG_HDR_LEN + rest.length := by
  obtain ⟨rfl, -⟩ := format_secureMessage.takes bs smsg rest h
  rw [List.length_append, SecureMessage.bytes_length]

theorem fixed_readVector (n : Nat) : Fixed n (readVector n) := by
  intro bs hn
  exact ⟨⟨(bs.take n).toArray, by simp [hn]⟩, dif_pos hn⟩

theorem fixed_readSecureMessage : Fixed SMSG_HDR_LEN readSecureMessage := by
  have hnumber (w : Nat) : Fixed w (readNumber w) := (fixed_take w).map _
  show Fixed (4 + (2 + (1 + (8 + (16 + (33 + (32 + (4 + (4 + 0))))))))) readSecureMessage
  unfold readSecureMessage
  refine (fixed_readVector 4).bind fun _ => (fixed_readVector 2).bind fun _ => ?_
  refine ((hnumber 1).map _).bind fun _ => ((hnumber 8).map _).bind fun _ => ?_
  refine (fixed_readVector 16).bind fun _ => (fixed_readVector 33).bind fun _ => ?_
  refine (fixed_readVector 32).bind fun _ => (fixed_readVector 4).bind fun _ => ?_
  exact ((hnumber 4).map _).bind fun _ => fixed_pure _

/-! ## §3. The payload. -/

/-- A message: a header, and as much payload as it says. -/
structure Message where
  smsg : SecureMessage
  pPayload : List UInt8
  size : pPayload.length = smsg.nPayload.toNat
deriving DecidableEq

def Message.bytes (m : Message) : List UInt8 := m.smsg.bytes ++ m.pPayload

/-- A header, and `smsg.nPayload` bytes behind it. -/
def readMessage : Reader UInt8 Message := do
  let smsg ← readSecureMessage
  let payload ← readVector smsg.nPayload.toNat
  return ⟨smsg, payload.toList, payload.length_toList⟩

theorem format_message : Format Message.bytes readMessage (fun _ => True) id where
  reads m rest _ := by
    obtain ⟨smsg, pPayload, hsize⟩ := m
    obtain ⟨v, rfl⟩ : ∃ v : Vector UInt8 smsg.nPayload.toNat, v.toList = pPayload :=
      ⟨⟨pPayload.toArray, by simp [hsize]⟩, rfl⟩
    unfold Message.bytes readMessage
    show (readSecureMessage >>= _).run (smsg.bytes ++ v.toList ++ rest) = _
    rw [List.append_assoc, run_bind_of_eq (format_secureMessage.reads smsg _ trivial), id_eq,
      run_bind_of_eq ((format_vector_bytes _).reads v rest trivial)]
    rfl
  takes bs m rest h := by
    obtain ⟨smsg, rest1, hsmsg, h1⟩ := run_bind_eq_some.mp h
    obtain ⟨v, rest2, hv, h2⟩ := run_bind_eq_some.mp h1
    obtain ⟨rfl, rfl⟩ := run_pure_eq_some.mp h2
    obtain ⟨rfl, -⟩ := format_secureMessage.takes bs smsg rest1 hsmsg
    obtain ⟨rfl, -⟩ := (format_vector_bytes _).takes rest1 v rest2 hv
    exact ⟨(List.append_assoc ..).symm, trivial⟩

theorem Message.bytes_length (m : Message) :
    m.bytes.length = SMSG_HDR_LEN + m.smsg.nPayload.toNat := by
  rw [Message.bytes, List.length_append, SecureMessage.bytes_length, m.size]

/-! ## §4. Which messages are taken. -/

def LZ4_COMPRESSBOUND (isize : Nat) : Nat :=
  if isize > 0x7E000000 then 0 else isize + isize / 255 + 16

/-- Length of the encrypted header in the payload: 1 + 20 + 65 + 4. -/
def SMSG_PL_HDR_LEN : Nat := 90

def SMSG_MAX_MSG_BYTES : Nat := 4096

/-- The largest payload, where compression fares worst. -/
def SMSG_MAX_MSG_WORST : Nat := LZ4_COMPRESSBOUND (SMSG_MAX_MSG_BYTES + SMSG_PL_HDR_LEN)

/-- `HMAC` with `EVP_sha256()`, of a key and of what it is updated with. -/
abbrev HmacSha256 := List UInt8 → List UInt8 → Vector UInt8 32

def civ : List UInt8 := (List.replicate 8 smsg.nonse.toList).flatten

/-- The hash that is the proof of work, and the checksum: the payload is hashed twice. -/
def workHash (hmac : HmacSha256) (smsg : SecureMessage) (pPayload : List UInt8) :
    Vector UInt8 32 :=
  hmac (civ smsg) (smsg.bytes.drop 4 ++ pPayload ++ pPayload)

/-- `version[0]`, the protocol that a message is written in. -/
abbrev SecureMessage.protocol (smsg : SecureMessage) : UInt8 := smsg.version[0]

/-- `SecureMsgValidate`, where `HMAC` makes no error: 0 for a message that is valid, 2 for a
hash that is no work, 3 for another checksum, 4 for another version, 5 for too large a
payload.  The mask of three bits is the 1 that `||` makes of it. -/
def secureMsgValidate (hmac : HmacSha256) (smsg : SecureMessage) (pPayload : List UInt8) : Nat :=
  if smsg.protocol ≠ 1 then 4
  else if smsg.nPayload.toNat > SMSG_MAX_MSG_WORST then 5
  else
    let sha256Hash := workHash hmac smsg pPayload
    if smsg.hash.toList ≠ sha256Hash.toList.take 4 then 3
    else if sha256Hash[31] = 0 ∧ sha256Hash[30] = 0 ∧ ~~~sha256Hash[29] &&& 1 ≠ 0 then 0
    else 2

end Fantom.Smsg
