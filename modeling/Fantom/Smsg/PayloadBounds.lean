/-
  Fantom.Smsg.PayloadBounds — Whether decrypting a message stays inside the payload and the text.

  * `decryptInto_inside_iff` — which messages are decrypted inside,
  * `decryptInto_outside` — a message that is verified, and has no text,
  * `decryptInto_eq` — decryption with its buffers is `secureMsgDecrypt`.

  Nothing asks for the size of a payload before its first byte, its header and its text are read.
-/
import Fantom.Smsg.Authentic
import Fantom.Smsg.Decompress

namespace Fantom.Smsg

open Core Lib Script Memory

variable {C : SmsgCrypto} (B : AddressTexts) (room : Nat → Bool)

/-! ## §1. The accesses. -/

/-- `resize(n)`: bytes of zero come behind the others. -/
def resize (vch : List UInt8) (n : Nat) : List UInt8 :=
  vch.take n ++ List.replicate (n - vch.length) 0

variable (vchPayload : List UInt8)

/-- `memcpy(&lenPlain, …, 4)`, at the end of the header. -/
def readLenPlain (hdr : Nat) : Except Abort UInt32 := do
  let bs ← readAt vchPayload (hdr - 4) 4
  return UInt32.ofNat (ofLEBytes bs)

/-- A number as an `int`. -/
def toInt (n : UInt32) : Int := n.toInt32.toInt

/-- The text of a payload whose header has `hdr` bytes, in `msg.vchMessage`: what is returned, and
the buffer then.  Error 8 where there is no `room` for it, 1 where it is not decompressed. -/
def storeText (hdr : Nat) (vchMessage : List UInt8) : Except Abort (Nat × List UInt8) := do
  let lenData := UInt32.ofNat vchPayload.length - UInt32.ofNat hdr
  let lenPlain ← readLenPlain vchPayload hdr
  if !room (lenPlain + 1).toNat then return (8, vchMessage)
  else
    let vchMessage := resize vchMessage (lenPlain + 1).toNat
    if lenPlain > 128 then do
      let (decoded, vchMessage) ← LZ4_decompress_safe (vchPayload.drop hdr) vchMessage
        (toInt lenData) (toInt lenPlain)
      if decoded ≠ toInt lenPlain then return (1, vchMessage)
      else do
        let vchMessage ← store vchMessage lenPlain.toNat [0]
        return (0, vchMessage)
    else do
      let vchMessage ← copy (fun _ => vchPayload) lenPlain.toNat 0 hdr vchMessage
      let vchMessage ← store vchMessage lenPlain.toNat [0]
      return (0, vchMessage)

/-- The length of the header: that of an anonymous message, or of a signed one. -/
def headerLength : Nat :=
  if vchPayload.head? = some anonymousId then 9 else SMSG_PL_HDR_LEN

/-- The end of `SecureMsgDecrypt`, with the payload that was deciphered: what it returns, and the
message then. -/
def parsePayload (C : SmsgCrypto) (vchPayload : List UInt8) (msg : MessageData) :
    Except Abort (Nat × MessageData) := do
  let first ← readAt vchPayload 0 1
  let fFromAnonymous := first == [anonymousId]
  let (rv, vchMessage) ← storeText room vchPayload
    (if fFromAnonymous then 9 else SMSG_PL_HDR_LEN) msg.vchMessage
  let msg := { msg with vchMessage := vchMessage }
  if rv ≠ 0 then return (rv, msg)
  else if fFromAnonymous then return (0, { msg with sFromAddress := anon })
  else do
    let some sFromAddress ← readSender B C vchPayload vchMessage.dropLast | return (1, msg)
    return (0, { msg with sFromAddress := sFromAddress })

variable (node : Node C)

variable (address : List Char)

variable (psmsg : SecureMessage)

variable (pPayload : List UInt8)

/-- The payload of a message whose code is verified, or the error. -/
def deciphered : Except Nat (List UInt8) := do
  rejectIf (psmsg.protocol ≠ 1) 2
  let keyDest ← required (ownKey B node address) 3
  let vchP ← required (sharedSecret C psmsg.cpkR keyDest) 1
  rejectIf (computeMac C vchP psmsg.timestamp pPayload ≠ psmsg.mac) 1
  required (crypterDecrypt C (key_e C vchP) psmsg.iv pPayload) 1

/-- `SecureMsgDecrypt`, not only to test it. -/
def decryptInto (msg : MessageData) : Except Abort (Nat × MessageData) :=
  match deciphered B node address psmsg pPayload with
  | .error rv => .ok (rv, msg)
  | .ok vchPayload => parsePayload B room C vchPayload { msg with timestamp := psmsg.timestamp }

/-! ## §2. Which payloads are read inside. -/

/-- No access is a bad one. -/
abbrev Contained {α : Type} (x : Except Abort α) : Prop := Returns x fun _ => True

/-- The length of the text that a payload claims. -/
def lenPlain (hdr : Nat) : UInt32 :=
  UInt32.ofNat (ofLEBytes ((vchPayload.drop (hdr - 4)).take 4))

/-- The text is there: all its bytes, or, of one that is compressed, the first. -/
def TextThere (hdr : Nat) : Prop :=
  if lenPlain vchPayload hdr > 128 then hdr < vchPayload.length
  else hdr + (lenPlain vchPayload hdr).toNat ≤ vchPayload.length

/-- The payload has the header that its first byte asks for, and the text, if there is room for
it. -/
structure Holds (room : Nat → Bool) (vchPayload : List UInt8) : Prop where
  header : headerLength vchPayload ≤ vchPayload.length
  text : room (lenPlain vchPayload (headerLength vchPayload) + 1).toNat = true →
    TextThere vchPayload (headerLength vchPayload)

theorem toInt_eq (n : UInt32) :
    toInt n = if n.toNat < 2147483648 then (n.toNat : Int) else n.toNat - 4294967296 := by
  show n.toBitVec.toInt = _
  rw [BitVec.toInt_eq_toNat_cond]
  show (if 2 * n.toNat < 2 ^ 32 then (n.toNat : Int) else n.toNat - (2 ^ 32 : Nat)) = _
  by_cases hsmall : n.toNat < 2147483648
  · rw [if_pos hsmall, if_pos (by omega)]
  · rw [if_neg hsmall, if_neg (by omega)]
    rfl

theorem toNat_succ (n : UInt32) : (n + 1).toNat = (n.toNat + 1) % 4294967296 := UInt32.toNat_add n 1

theorem toInt_lenData_le {size hdr : Nat} (hle : hdr ≤ size) :
    toInt (UInt32.ofNat size - UInt32.ofNat hdr) ≤ (size - hdr : Nat) := by
  have hnum : (UInt32.ofNat size - UInt32.ofNat hdr).toNat =
      (4294967296 - hdr % 4294967296 + size % 4294967296) % 4294967296 := by
    rw [UInt32.toNat_sub, UInt32.toNat_ofNat', UInt32.toNat_ofNat']
  rw [toInt_eq, hnum]
  split <;> omega

variable {room : Nat → Bool} {vchPayload vchMessage : List UInt8} {hdr : Nat}

theorem contained_readAt_iff {bytes : List UInt8} {o n : Nat} :
    Contained (readAt bytes o n) ↔ o + n ≤ bytes.length := by
  unfold readAt
  constructor
  · rintro ⟨bs, hread, -⟩
    split at hread
    next h => exact h
    next => cases hread
  · intro h
    exact ⟨_, if_pos h, trivial⟩

theorem readLenPlain_eq (hhdr : 4 ≤ hdr) (hle : hdr ≤ vchPayload.length) :
    readLenPlain vchPayload hdr = .ok (lenPlain vchPayload hdr) := by
  rw [readLenPlain, readAt, if_pos (by omega)]
  rfl

theorem resize_length (vch : List UInt8) (n : Nat) : (resize vch n).length = n := by
  rw [resize, List.length_append, List.length_take, List.length_replicate]
  omega

theorem contained_terminate {n : Nat} {rv : Nat} (h : n < vchMessage.length) :
    Contained (do
      let vchMessage ← store vchMessage n [0]
      return (rv, vchMessage)) := by
  refine (returns_store (by omega) ?_).bind fun _ _ => .ok trivial
  show (n : Int) + (1 : Nat) ≤ vchMessage.length
  omega

/-- **The decompressor** reads a byte in any case, and writes inside: the one length whose buffer
is empty is -1 for it. -/
theorem contained_decompressed_iff {n lenData : UInt32} {source : List UInt8} (hn : n > 128)
    (hdata : toInt lenData ≤ source.length) (hsize : vchMessage.length = (n + 1).toNat) :
    Contained (do
      let (decoded, vchMessage) ← LZ4_decompress_safe source vchMessage (toInt lenData) (toInt n)
      if decoded ≠ toInt n then return (1, vchMessage)
      else do
        let vchMessage ← store vchMessage n.toNat [0]
        return (0, vchMessage)) ↔ 0 < source.length := by
  have hlt := n.toNat_lt
  have hlong : 128 < n.toNat := hn
  have hnum := toInt_eq n
  rw [toNat_succ] at hsize
  have hne : toInt n ≠ 0 := by
    rw [hnum]
    split <;> omega
  constructor
  · intro h
    by_contra hempty
    obtain rfl : source = [] := List.eq_nil_of_length_eq_zero (by omega)
    rw [decompress_nil hne] at h
    obtain ⟨_, herr, -⟩ := h
    cases herr
  · intro hsource
    have hout : toInt n ≤ vchMessage.length := by
      rw [hnum, hsize]
      split <;> omega
    refine (returns_decompress hsource hdata hout).bind ?_
    rintro ⟨decoded, buffer⟩ ⟨herr, hbuffer⟩
    dsimp only at herr hbuffer ⊢
    split
    next => exact .ok trivial
    next hequal =>
      -- the decompressor has not returned -1, so that the buffer is not the empty one
      refine contained_terminate ?_
      have hminus := herr hne
      rw [not_not] at hequal
      rw [hequal, hnum] at hminus
      rw [hbuffer, hsize]
      split at hminus <;> omega

theorem contained_copied_iff {n : UInt32} (hn : ¬ n > 128)
    (hsize : vchMessage.length = (n + 1).toNat) :
    Contained (do
      let vchMessage ← copy (fun _ => vchPayload) n.toNat 0 hdr vchMessage
      let vchMessage ← store vchMessage n.toNat [0]
      return (0, vchMessage)) ↔ hdr + n.toNat ≤ vchPayload.length := by
  have hshort : n.toNat ≤ 128 := Nat.not_lt.mp hn
  rw [toNat_succ] at hsize
  constructor
  · intro h
    by_contra hlong
    have hcopy : copy (fun _ => vchPayload) n.toNat 0 hdr vchMessage = .error .dangling := by
      rw [copy, load_outside (by omega)]
      rfl
    rw [hcopy] at h
    obtain ⟨_, herr, -⟩ := h
    cases herr
  · intro hin
    refine (returns_copy (N := vchPayload.length) rfl (by omega) (by omega) (by omega)
      (by omega)).bind fun buffer hbuffer => ?_
    exact contained_terminate (by omega)

/-- **The text of a payload** is read and stored inside exactly when it is there. -/
theorem contained_storeText_iff (hhdr : 4 ≤ hdr) :
    Contained (storeText room vchPayload hdr vchMessage) ↔ hdr ≤ vchPayload.length ∧
      (room (lenPlain vchPayload hdr + 1).toNat = true → TextThere vchPayload hdr) := by
  by_cases hle : hdr ≤ vchPayload.length
  · rw [and_iff_right hle]
    unfold storeText TextThere
    dsimp only
    rw [readLenPlain_eq hhdr hle, ok_bind]
    cases hroom : room (lenPlain vchPayload hdr + 1).toNat with
    | false => exact ⟨fun _ h => (nomatch h), fun _ => .ok trivial⟩
    | true =>
      rw [if_neg (by decide)]
      refine Iff.trans ?_ ⟨fun h _ => h, fun h => h rfl⟩
      have hsize := resize_length vchMessage (lenPlain vchPayload hdr + 1).toNat
      by_cases hlong : lenPlain vchPayload hdr > 128
      · rw [if_pos hlong, if_pos hlong]
        have hrest : (vchPayload.drop hdr).length = vchPayload.length - hdr := List.length_drop
        refine (contained_decompressed_iff hlong ?_ hsize).trans ?_
        · rw [hrest]
          exact toInt_lenData_le hle
        · rw [hrest]
          omega
      · rw [if_neg hlong, if_neg hlong]
        exact contained_copied_iff hlong hsize
  · constructor
    · rintro ⟨r, hr, -⟩
      obtain ⟨n, hread, -⟩ := bind_eq_ok.mp hr
      obtain ⟨bs, hread, -⟩ := bind_eq_ok.mp hread
      have hin := contained_readAt_iff.mp ⟨bs, hread, trivial⟩
      omega
    · intro h
      exact absurd h.1 hle

theorem contained_readSender {B : AddressTexts} {text : List UInt8}
    (h : SMSG_PL_HDR_LEN ≤ vchPayload.length) : Contained (readSender B C vchPayload text) := by
  have hhdr : SMSG_PL_HDR_LEN = 90 := rfl
  unfold readSender
  refine (contained_readAt_iff.mpr (by omega)).bind fun address _ => ?_
  refine (contained_readAt_iff.mpr (by omega)).bind fun vchSig _ => ?_
  split
  next => exact .ok trivial
  next => split <;> exact .ok trivial

theorem headerLength_cons (first : UInt8) (rest : List UInt8) :
    headerLength (first :: rest) = if [first] == [anonymousId] then 9 else SMSG_PL_HDR_LEN := by
  unfold headerLength
  by_cases hanon : first = anonymousId
  · rw [hanon]
    rfl
  · have hhead : (first :: rest).head? ≠ some anonymousId := fun h => hanon (Option.some.inj h)
    have hfirst : ([first] == [anonymousId]) = false := by
      simpa using hanon
    rw [if_neg hhead, hfirst]
    rfl

/-- **A payload is parsed inside** exactly when it holds what it asks for. -/
theorem contained_parsePayload_iff {msg : MessageData} :
    Contained (parsePayload B room C vchPayload msg) ↔ Holds room vchPayload := by
  cases vchPayload with
  | nil =>
    -- an empty payload has no first byte
    constructor
    · rintro ⟨r, hr, -⟩
      cases hr
    · intro h
      exact absurd h.header (by decide)
  | cons first rest =>
    have hfirst : readAt (first :: rest) 0 1 = .ok [first] := readAt_append [] [first] rest
    have hfour : 4 ≤ headerLength (first :: rest) := by
      rw [headerLength_cons]
      split <;> decide
    have hstore : Contained (storeText room (first :: rest) (headerLength (first :: rest))
        msg.vchMessage) ↔ _ := contained_storeText_iff hfour
    rw [parsePayload, hfirst, ok_bind]
    dsimp only
    rw [← headerLength_cons first rest]
    constructor
    · intro h
      obtain ⟨r, hr, -⟩ := h.of_bind
      obtain ⟨hheader, htext⟩ := hstore.mp ⟨r, hr, trivial⟩
      exact ⟨hheader, htext⟩
    · rintro ⟨hheader, htext⟩
      refine (hstore.mpr ⟨hheader, htext⟩).bind ?_
      rintro ⟨rv, buffer⟩ -
      dsimp only
      split
      next => exact .ok trivial
      next =>
        split
        next => exact .ok trivial
        next hsigned =>
          -- the header of a signed payload has its address and its signature
          rw [headerLength_cons, if_neg hsigned] at hheader
          refine (contained_readSender hheader).bind fun sender _ => ?_
          split <;> exact .ok trivial

/-! ## §3. Which messages are. -/

/-- **The messages that are decrypted inside** the payload and the text: those whose payload, if
it deciphers to one, holds what it asks for. -/
theorem decryptInto_inside_iff (room : Nat → Bool) (node : Node C) (address : List Char)
    (psmsg : SecureMessage) (pPayload : List UInt8) (msg : MessageData) :
    Contained (decryptInto B room node address psmsg pPayload msg) ↔
      ∀ vchPayload, deciphered B node address psmsg pPayload = .ok vchPayload →
        Holds room vchPayload := by
  unfold decryptInto
  cases hplain : deciphered B node address psmsg pPayload with
  | error rv => exact ⟨fun _ _ h => (nomatch h), fun _ => .ok trivial⟩
  | ok vchPayload =>
    rw [contained_parsePayload_iff]
    constructor
    · rintro h _ heq
      cases heq
      exact h
    · intro h
      exact h vchPayload rfl

def Verified : Prop :=
  ∃ keyDest vchP, ownKey B node address = some keyDest ∧
    sharedSecret C psmsg.cpkR keyDest = some vchP ∧
    computeMac C vchP psmsg.timestamp pPayload = psmsg.mac

def emptySent : SecureMessage × List UInt8 :=
  ({ sampleSent.1 with iv := .replicate 16 0, mac := .replicate 32 0 }, List.replicate 16 16)

/-- **A message without a payload** is verified, and bytes that are not there are read. -/
theorem decryptInto_outside :
    deciphered sampleTexts sampleNode receiverAddress emptySent.1 emptySent.2 = .ok [] ∧
      decryptInto sampleTexts (fun _ => true) sampleNode receiverAddress emptySent.1 emptySent.2
        ⟨0, [], []⟩ = .error .dangling ∧
      ¬ ∀ psmsg pPayload msg, Verified sampleTexts sampleNode receiverAddress psmsg pPayload →
        Contained (decryptInto sampleTexts (fun _ => true) sampleNode receiverAddress psmsg
          pPayload msg) := by
  have hplain : deciphered sampleTexts sampleNode receiverAddress emptySent.1 emptySent.2 =
      .ok [] := by
    decide +kernel
  have hread : decryptInto sampleTexts (fun _ => true) sampleNode receiverAddress emptySent.1
      emptySent.2 ⟨0, [], []⟩ = .error .dangling := by
    rw [decryptInto, hplain]
    rfl
  have hverified : Verified sampleTexts sampleNode receiverAddress emptySent.1 emptySent.2 :=
    ⟨false, sharedPoint, rfl, by decide +kernel, by decide +kernel⟩
  refine ⟨hplain, hread, ?_⟩
  intro h
  obtain ⟨r, hr, -⟩ := h emptySent.1 emptySent.2 ⟨0, [], []⟩ hverified
  rw [hread] at hr
  cases hr

/-! ## §4. The two models of `SecureMsgDecrypt`. -/

theorem terminated_copy {mem source : List UInt8} {n : Nat} (hmem : mem.length = n + 1)
    (hin : hdr + n ≤ source.length) :
    (do let mem ← copy (fun _ => source) n 0 hdr mem; store mem n [0]) =
      .ok ((source.drop hdr).take n ++ [0]) := by
  have htext : ((source.drop hdr).take n).length = n := by
    rw [List.length_take, List.length_drop]
    omega
  have hrest : (mem.drop n).length = 1 := by
    rw [List.length_drop]
    omega
  obtain ⟨last, hlast⟩ := List.length_eq_one_iff.mp hrest
  rw [copy, load, if_pos (by omega), ok_bind, store, if_pos (by simp [htext]; omega), ok_bind]
  simp only [Int.toNat_zero, Int.toNat_natCast, List.take_zero, List.nil_append, Nat.zero_add,
    htext, hlast]
  rw [store, if_pos (by simp [htext])]
  simp [htext]

theorem storeText_copied (hhdr : 4 ≤ hdr) (hroom : room (lenPlain vchPayload hdr + 1).toNat = true)
    (hshort : ¬ lenPlain vchPayload hdr > 128)
    (hin : hdr + (lenPlain vchPayload hdr).toNat ≤ vchPayload.length) :
    storeText room vchPayload hdr vchMessage =
      .ok (0, (vchPayload.drop hdr).take (lenPlain vchPayload hdr).toNat ++ [0]) := by
  have hle : (lenPlain vchPayload hdr).toNat ≤ 128 := Nat.not_lt.mp hshort
  have hsize := resize_length vchMessage (lenPlain vchPayload hdr + 1).toNat
  rw [toNat_succ, Nat.mod_eq_of_lt (by omega)] at hsize
  unfold storeText
  dsimp only
  rw [readLenPlain_eq hhdr (by omega), ok_bind, hroom, if_neg (by decide), if_neg hshort,
    toNat_succ, Nat.mod_eq_of_lt (by omega), ← bind_assoc, terminated_copy hsize hin]
  rfl

theorem readText_copied (hhdr : 4 ≤ hdr) (hshort : ¬ lenPlain vchPayload hdr > 128)
    (hin : hdr + (lenPlain vchPayload hdr).toNat ≤ vchPayload.length) :
    readText C vchPayload hdr =
      .ok (some ((vchPayload.drop hdr).take (lenPlain vchPayload hdr).toNat)) := by
  have hlen : (lenPlain vchPayload hdr).toNat =
      ofLEBytes ((vchPayload.drop (hdr - 4)).take 4) := by
    rw [lenPlain, UInt32.toNat_ofNat', Nat.mod_eq_of_lt]
    show _ < 256 ^ 4
    exact (ofLEBytes_lt _).trans_le (Nat.pow_le_pow_right (by decide) (List.length_take_le 4 _))
  have hle : (lenPlain vchPayload hdr).toNat ≤ 128 := Nat.not_lt.mp hshort
  rw [readText, readAt, if_pos (by omega), ok_bind]
  dsimp only
  rw [← hlen, if_neg (by omega), readAt, if_pos hin]
  rfl

/-- **A payload with a short text** is parsed as it is read. -/
theorem parsePayload_copied {msg : MessageData}
    (hroom : room (lenPlain vchPayload (headerLength vchPayload) + 1).toNat = true)
    (hshort : ¬ lenPlain vchPayload (headerLength vchPayload) > 128)
    (hholds : Holds room vchPayload) :
    parsePayload B room C vchPayload msg = readPayload B C vchPayload msg := by
  have hin := hholds.text hroom
  have hheader := hholds.header
  rw [TextThere, if_neg hshort] at hin
  cases vchPayload with
  | nil => exact absurd hheader (by decide)
  | cons first rest =>
    have hfirst : readAt (first :: rest) 0 1 = .ok [first] := readAt_append [] [first] rest
    have hfour : 4 ≤ headerLength (first :: rest) := by
      rw [headerLength_cons]
      split <;> decide
    rw [parsePayload, readPayload, hfirst, ok_bind, ok_bind]
    dsimp only
    rw [← headerLength_cons first rest, storeText_copied hfour hroom hshort hin,
      readText_copied hfour hshort hin, ok_bind, ok_bind]
    dsimp only
    rw [List.dropLast_concat]
    rfl

/-- **Up to the payload** the two are one. -/
theorem secureMsgDecrypt_eq (msg : MessageData) :
    secureMsgDecrypt B node false address psmsg pPayload msg =
      match deciphered B node address psmsg pPayload with
      | .error rv => .ok (rv, msg)
      | .ok vchPayload => readPayload B C vchPayload { msg with timestamp := psmsg.timestamp } := by
  unfold secureMsgDecrypt deciphered
  by_cases hprotocol : psmsg.protocol ≠ 1
  · rw [if_pos hprotocol, decide_eq_true hprotocol]
    rfl
  rw [if_neg hprotocol, decide_eq_false hprotocol, rejectIf_false, ok_bind]
  cases ownKey B node address with
  | none => rfl
  | some keyDest =>
    dsimp only [required]
    rw [ok_bind]
    cases sharedSecret C psmsg.cpkR keyDest with
    | none => rfl
    | some vchP =>
      dsimp only
      rw [ok_bind]
      by_cases hmac : computeMac C vchP psmsg.timestamp pPayload ≠ psmsg.mac
      · rw [if_pos hmac, decide_eq_true hmac]
        rfl
      rw [if_neg hmac, decide_eq_false hmac, rejectIf_false, ok_bind]
      cases crypterDecrypt C (key_e C vchP) psmsg.iv pPayload <;> rfl

/-- **The two models of `SecureMsgDecrypt` agree** on messages whose text is there and is not
compressed. -/
theorem decryptInto_eq (msg : MessageData)
    (hshort : ∀ vchPayload, deciphered B node address psmsg pPayload = .ok vchPayload →
      Holds room vchPayload ∧ lenPlain vchPayload (headerLength vchPayload) ≤ 128 ∧
        room (lenPlain vchPayload (headerLength vchPayload) + 1).toNat = true) :
    decryptInto B room node address psmsg pPayload msg =
      secureMsgDecrypt B node false address psmsg pPayload msg := by
  rw [secureMsgDecrypt_eq, decryptInto]
  cases hdec : deciphered B node address psmsg pPayload with
  | error rv => rfl
  | ok vchPayload =>
    obtain ⟨hholds, hle, hroom⟩ := hshort vchPayload hdec
    exact parsePayload_copied B hroom (UInt32.not_lt.mpr hle) hholds

end Fantom.Smsg
