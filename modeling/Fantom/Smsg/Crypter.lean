/-
  Fantom.Smsg.Crypter — How a payload is enciphered: AES in cipher-block chaining, from the iv of
  the header.

  * `crypterDecrypt_other` — an iv puts any sixteen bytes in place of the first sixteen.
-/
import Fantom.Core.Signer
import Fantom.Lib.BlockChaining
import Fantom.Smsg.SecureMessage

namespace Fantom.Smsg

open Core Lib

/-- A block of AES. -/
abbrev Block := Vector UInt8 16

/-- The cryptography of OpenSSL that messages need, and `lz4`. -/
structure SmsgCrypto extends Crypto where
  /-- `CECKey::SetPubKey`: the bytes are a point of the curve. -/
  setPubKey : CPubKey → Bool
  /-- `ECDH_compute_key` into 32 bytes. -/
  ECDH_compute_key : CPubKey → CKey → Option (Vector UInt8 32)
  SHA512 : List UInt8 → Vector UInt8 64
  hmacSha256 : HmacSha256
  /-- `EVP_aes_256_cbc`, a block. -/
  aesEncrypt : Vector UInt8 32 → Block → Block
  aesDecrypt : Vector UInt8 32 → Block → Block
  LZ4_compress : List UInt8 → List UInt8
  /-- `LZ4_decompress_safe` into a buffer of this size: what it leaves where it fills it. -/
  LZ4_decompress_safe : List UInt8 → Nat → Option (List UInt8)

/-- The two sides of a key exchange get one point, AES deciphers what it enciphered, and a text
that was compressed is decompressed; a signature has 65 bytes. -/
structure SmsgCrypto.Exact (C : SmsgCrypto) : Prop where
  setPubKey : ∀ k, C.setPubKey (C.getPubKey k) = true
  ecdh : ∀ k r, C.ECDH_compute_key (C.getPubKey k) r = C.ECDH_compute_key (C.getPubKey r) k
  aes : ∀ key b, C.aesDecrypt key (C.aesEncrypt key b) = b
  lz4 : ∀ bs, C.LZ4_decompress_safe (C.LZ4_compress bs) bs.length = some bs
  signature : ∀ k h sig, C.signCompact k h = some sig → sig.length = 65

/-! ## §1. Blocks. -/

def toBlocks (bs : List UInt8) : Option (List Block) :=
  match (readMany (readVector 16) (bs.length / 16)).run bs with
  | some (blocks, []) => some blocks
  | _ => none

variable (a b : Block)

def xorBlock : Block := Vector.zipWith (· ^^^ ·) a b

theorem xorBlock_xorBlock : xorBlock (xorBlock a b) b = a := by
  apply Vector.ext
  intro i hi
  rw [xorBlock, xorBlock, Vector.getElem_zipWith, Vector.getElem_zipWith, UInt8.xor_assoc,
    UInt8.xor_self, UInt8.xor_zero]

theorem xorBlock_cancel : xorBlock a (xorBlock a b) = b := by
  apply Vector.ext
  intro i hi
  rw [xorBlock, xorBlock, Vector.getElem_zipWith, Vector.getElem_zipWith, ← UInt8.xor_assoc,
    UInt8.xor_self, UInt8.zero_xor]

theorem length_blocks (blocks : List Block) :
    (blocks.flatMap Vector.toList).length = 16 * blocks.length := by
  induction blocks with
  | nil => rfl
  | cons b blocks ih =>
    rw [List.flatMap_cons, List.length_append, Vector.length_toList, ih, List.length_cons]
    omega

theorem toBlocks_blocks (blocks : List Block) :
    toBlocks (blocks.flatMap Vector.toList) = some blocks := by
  have hall : ∀ b ∈ blocks, True := fun _ _ => trivial
  have hread := (format_vector_bytes 16).reads_many hall []
  rw [List.append_nil, List.map_id] at hread
  have hlen : (blocks.flatMap Vector.toList).length / 16 = blocks.length := by
    rw [length_blocks]
    omega
  rw [toBlocks, hlen, hread]

theorem exists_blocks {bs : List UInt8} (h : bs.length % 16 = 0) :
    ∃ blocks : List Block, bs = blocks.flatMap Vector.toList := by
  obtain ⟨n, hn⟩ : ∃ n, bs.length = 16 * n := ⟨bs.length / 16, by omega⟩
  clear h
  -- induction on the number of blocks
  induction n generalizing bs with
  | zero =>
    obtain rfl := List.eq_nil_of_length_eq_zero hn
    exact ⟨[], rfl⟩
  | succ n ih =>
    have hrest : (bs.drop 16).length = 16 * n := by
      rw [List.length_drop]
      omega
    obtain ⟨blocks, hblocks⟩ := ih hrest
    have hfirst : (bs.take 16).length = 16 := by
      rw [List.length_take]
      omega
    refine ⟨⟨(bs.take 16).toArray, by simpa using hfirst⟩ :: blocks, ?_⟩
    rw [List.flatMap_cons, ← hblocks]
    exact (List.take_append_drop 16 bs).symm

/-! ## §2. The crypter. -/

variable (C : SmsgCrypto)

/-- `SecMsgCrypter::Encrypt`, with a key and an iv set. -/
def crypterEncrypt (chKey : Vector UInt8 32) (chIV : Block) (plain : List UInt8) :
    Option (List UInt8) := do
  let blocks ← toBlocks (pad 16 plain)
  return (chainEncrypt xorBlock (C.aesEncrypt chKey) chIV blocks).flatMap Vector.toList

/-- `SecMsgCrypter::Decrypt`, with a key and an iv set: at least one block, whole blocks, and a
padding. -/
def crypterDecrypt (chKey : Vector UInt8 32) (chIV : Block) (cipher : List UInt8) :
    Option (List UInt8) := do
  let blocks ← toBlocks cipher
  unpad 16 ((chainDecrypt xorBlock (C.aesDecrypt chKey) chIV blocks).flatMap Vector.toList)

variable {C}

variable {chKey : Vector UInt8 32} {chIV : Block} {plain cipher : List UInt8}

theorem crypterEncrypt_eq_some (h : crypterEncrypt C chKey chIV plain = some cipher) :
    ∃ blocks : List Block, pad 16 plain = blocks.flatMap Vector.toList ∧
      cipher = (chainEncrypt xorBlock (C.aesEncrypt chKey) chIV blocks).flatMap Vector.toList := by
  obtain ⟨blocks, hblocks⟩ := exists_blocks (pad_length (by omega : 0 < 16) plain)
  rw [crypterEncrypt, hblocks, toBlocks_blocks] at h
  exact ⟨blocks, hblocks, (Option.some.inj h).symm⟩

theorem crypterEncrypt_length (h : crypterEncrypt C chKey chIV plain = some cipher) :
    cipher.length = plain.length + (16 - plain.length % 16) := by
  obtain ⟨blocks, hblocks, rfl⟩ := crypterEncrypt_eq_some h
  have hlen := congrArg List.length hblocks
  rw [pad, List.length_append, List.length_replicate, length_blocks] at hlen
  rw [length_blocks, chainEncrypt_length, hlen]

/-- **What was enciphered is deciphered** with the same key and iv. -/
theorem crypterDecrypt_encrypt (hC : C.Exact)
    (h : crypterEncrypt C chKey chIV plain = some cipher) :
    crypterDecrypt C chKey chIV cipher = some plain := by
  obtain ⟨blocks, hblocks, rfl⟩ := crypterEncrypt_eq_some h
  rw [crypterDecrypt, toBlocks_blocks]
  show unpad 16 _ = _
  rw [chainDecrypt_chainEncrypt (hC.aes chKey) xorBlock_xorBlock, ← hblocks]
  exact unpad_pad (by omega) (by omega) plain

/-- **Another iv** puts any block in place of the first one, and leaves the rest of the padded
text. -/
theorem crypterDecrypt_other (hC : C.Exact) (h : crypterEncrypt C chKey chIV plain = some cipher)
    (target : Block) :
    ∃ chIV', crypterDecrypt C chKey chIV' cipher =
      unpad 16 (target.toList ++ (pad 16 plain).drop 16) := by
  obtain ⟨blocks, hblocks, rfl⟩ := crypterEncrypt_eq_some h
  cases blocks with
  | nil =>
    -- a padded text is not empty
    have hlen := congrArg List.length hblocks
    rw [pad, List.length_append, List.length_replicate, List.flatMap_nil, List.length_nil]
      at hlen
    omega
  | cons b blocks =>
    refine ⟨xorBlock (xorBlock b chIV) target, ?_⟩
    rw [crypterDecrypt, toBlocks_blocks]
    show unpad 16 _ = _
    rw [chainDecrypt_other (hC.aes chKey) xorBlock_xorBlock, xorBlock_cancel, hblocks,
      List.flatMap_cons, List.flatMap_cons, List.drop_left' b.length_toList]

end Fantom.Smsg
