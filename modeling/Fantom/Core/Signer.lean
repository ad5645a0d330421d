/-
  Fantom.Core.Signer — `CZeroSendSigner`: signed text messages.  A signature is checked by
  recovering a public key from it and comparing key ids, so the verdict depends on the text only
  through its hash.
-/
import Fantom.Core.Primitives

namespace Fantom.Core

open List

/-- `CPubKey`: its serialized bytes. -/
abbrev CPubKey := List UInt8

/-- The third-party cryptography: the hash functions, and signing and key
recovery of OpenSSL.  A private key is an element of `CKey`. -/
structure Crypto extends Hashes where
  CKey : Type
  /-- `CKey::GetPubKey`. -/
  getPubKey : CKey → CPubKey
  /-- `CKey::SignCompact`: 65 bytes, or failure. -/
  signCompact : CKey → UInt256 → Option (List UInt8)
  /-- `CECKey::Recover` and `GetPubKey`: the key that made the 64 byte
  signature with this recovery id, in compressed form or not. -/
  recover : UInt256 → List UInt8 → (recid : UInt8) → (fComp : Bool) → Option CPubKey

/-- The bytes of a text; a character stands for a byte. -/
def textBytes (s : List Char) : List UInt8 := s.map fun c => UInt8.ofNat c.toNat

theorem textBytes_inj {s t : List Char} (hs : ∀ c ∈ s, c.toNat < 256)
    (ht : ∀ c ∈ t, c.toNat < 256) (h : textBytes s = textBytes t) : s = t := by
  induction s generalizing t with
  | nil =>
    cases t with
    | nil => rfl
    | cons d t => cases h
  | cons c s ih =>
    cases t with
    | nil => cases h
    | cons d t =>
      obtain ⟨hc, hst⟩ := cons.inj h
      have hc' := hs c mem_cons_self
      have hd' := ht d mem_cons_self
      have hnat := congrArg UInt8.toNat hc
      rw [UInt8.toNat_ofNat', UInt8.toNat_ofNat'] at hnat
      have heq : c.toNat = d.toNat := by omega
      rw [Char.toNat_inj.mp heq,
        ih (fun c h => hs c (mem_cons_of_mem _ h))
          (fun c h => ht c (mem_cons_of_mem _ h)) hst]

theorem ofNat_toNat_byte : ∀ n < 256, (Char.ofNat n).toNat = n := by decide +kernel

variable (bs : List UInt8)

def bytesText : List Char := bs.map fun b => Char.ofNat b.toNat

@[simp] theorem textBytes_bytesText : textBytes (bytesText bs) = bs := by
  rw [textBytes, bytesText, map_map]
  refine (map_congr_left fun b _ => ?_).trans (map_id bs)
  show UInt8.ofNat (Char.ofNat b.toNat).toNat = b
  rw [ofNat_toNat_byte _ b.toNat_lt, UInt8.ofNat_toNat]

def strMessageMagic : List Char := "Fantom Signed Message:\n".toList

variable (C : Crypto)

def messageHash (strMessage : List Char) : UInt256 :=
  C.hash (serializeBytes (textBytes strMessageMagic) ++ serializeBytes (textBytes strMessage))

def getID (pubkey : CPubKey) : UInt160 := C.hash160 pubkey

def recoverCompact (hash : UInt256) (vchSig : List UInt8) : Option CPubKey :=
  if vchSig.length ≠ 65 then none
  else
    let header := vchSig.headD 0 - 27
    C.recover hash vchSig.tail (header &&& 3) (header &&& 4 != 0)

def signMessage (strMessage : List Char) (key : C.CKey) : Option (List UInt8) :=
  C.signCompact key (messageHash C strMessage)

def verifyMessage (pubkey : CPubKey) (vchSig : List UInt8) (strMessage : List Char) : Bool :=
  match recoverCompact C (messageHash C strMessage) vchSig with
  | none => false
  | some pubkey2 => getID C pubkey2 == getID C pubkey

/-! ## An executable instance.

A scheme to evaluate the model with: hashes are polynomials in the bytes, and a
signature is the hash it signs followed by the key. -/

def polyHash : Nat := bs.foldl (fun h b => h * 257 + b.toNat + 1) 1

def sampleHashes : Hashes where
  hash bs := BitVec.ofNat 256 (polyHash bs)
  hash160 bs := BitVec.ofNat 160 (polyHash bs)
  velvetHash bs nNonce := BitVec.ofNat 256 (polyHash bs + nNonce.toNat)

def sampleCrypto : Crypto where
  toHashes := sampleHashes
  CKey := UInt256
  getPubKey key := leBytes 32 key.toNat
  signCompact key hash := some (27 :: leBytes 32 hash.toNat ++ leBytes 32 key.toNat)
  recover hash sig _ _ := if sig.take 32 = leBytes 32 hash.toNat then some (sig.drop 32) else none

-- a signature verifies under the key that made it, and under no other
example :
    (signMessage sampleCrypto ['h', 'i'] (5 : UInt256)).map
      (fun sig => (verifyMessage sampleCrypto (leBytes 32 5) sig ['h', 'i'],
        verifyMessage sampleCrypto (leBytes 32 6) sig ['h', 'i'])) = some (true, false) := by
  decide +kernel

def singleTextCrypto (text : List Char) : Crypto where
  hash bs :=
    if bs = serializeBytes (textBytes strMessageMagic) ++ serializeBytes (textBytes text) then 1
    else 0
  hash160 bs := BitVec.ofNat 160 (polyHash bs)
  velvetHash bs nNonce := BitVec.ofNat 256 (polyHash bs + nNonce.toNat)
  CKey := Unit
  getPubKey _ := 2 :: replicate 32 7
  signCompact _ hash := if hash = 1 then some (replicate 65 27) else none
  recover hash _ _ _ := if hash = 1 then some (2 :: replicate 32 7) else none

theorem singleTextCrypto_unforgeable {text s : List Char} {pubkey : CPubKey}
    {vchSig : List UInt8} (h : verifyMessage (singleTextCrypto text) pubkey vchSig s = true) :
    textBytes s = textBytes text := by
  by_contra hne
  have hbytes : ¬ serializeBytes (textBytes strMessageMagic) ++ serializeBytes (textBytes s) =
      serializeBytes (textBytes strMessageMagic) ++ serializeBytes (textBytes text) :=
    fun heq => hne (serializeBytes_inj (append_cancel_left heq))
  have hhash : messageHash (singleTextCrypto text) s = 0 := if_neg hbytes
  have hnone : recoverCompact (singleTextCrypto text) 0 vchSig = none := by
    unfold recoverCompact
    split
    · rfl
    · rfl
  rw [verifyMessage, hhash, hnone] at h
  cases h

end Fantom.Core
