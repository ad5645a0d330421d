/-
  Fantom.Lib.BlockChaining — Ciphers of blocks that are chained: before it is enciphered, each block
  is mixed with the cipher block before it, and the first one with a start value.

  * `chainEncrypt`, `chainDecrypt`, `chainDecrypt_chainEncrypt` — the chain, and back,
  * `chainDecrypt_other` — another start value changes the first block and no other,
  * `pad`, `unpad`, `unpad_pad` — texts of any length: each byte of the padding is its length.
-/
import Mathlib.Data.List.Basic
import Mathlib.Tactic.Common

namespace Fantom.Lib

open List

universe u

/-! ## §1. The chain. -/

section Chain

variable {B : Type u} (mix : B → B → B) (E D : B → B)

def chainEncrypt : B → List B → List B
  | _, [] => []
  | iv, b :: bs => E (mix b iv) :: chainEncrypt (E (mix b iv)) bs

def chainDecrypt : B → List B → List B
  | _, [] => []
  | iv, c :: cs => mix (D c) iv :: chainDecrypt c cs

variable {mix E D}

@[simp] theorem chainEncrypt_length (iv : B) (bs : List B) :
    (chainEncrypt mix E iv bs).length = bs.length := by
  induction bs generalizing iv with
  | nil => rfl
  | cons b bs ih => simp [chainEncrypt, ih]

theorem chainDecrypt_chainEncrypt (hD : ∀ b, D (E b) = b) (hmix : ∀ a b, mix (mix a b) b = a)
    (iv : B) (bs : List B) : chainDecrypt mix D iv (chainEncrypt mix E iv bs) = bs := by
  induction bs generalizing iv with
  | nil => rfl
  | cons b bs ih => rw [chainEncrypt, chainDecrypt, hD, hmix, ih]

/-- **Another start value** changes the first block, and leaves the rest. -/
theorem chainDecrypt_other (hD : ∀ b, D (E b) = b) (hmix : ∀ a b, mix (mix a b) b = a)
    (iv iv' : B) (b : B) (bs : List B) :
    chainDecrypt mix D iv' (chainEncrypt mix E iv (b :: bs)) = mix (mix b iv) iv' :: bs := by
  rw [chainEncrypt, chainDecrypt, hD, chainDecrypt_chainEncrypt hD hmix]

end Chain

/-! ## §2. The padding. -/

/-- As many bytes as the last block lacks, and a whole block where it lacks none; each byte is
their number. -/
def pad (n : Nat) (bs : List UInt8) : List UInt8 :=
  bs ++ replicate (n - bs.length % n) (UInt8.ofNat (n - bs.length % n))

/-- The bytes before the padding, or `none` where the last block has no padding. -/
def unpad (n : Nat) (bs : List UInt8) : Option (List UInt8) :=
  match bs.getLast? with
  | none => none
  | some last =>
    if 0 < last.toNat ∧ last.toNat ≤ n ∧
        bs.drop (bs.length - last.toNat) = replicate last.toNat last then
      some (bs.take (bs.length - last.toNat))
    else none

theorem pad_length {n : Nat} (hn : 0 < n) (bs : List UInt8) : (pad n bs).length % n = 0 := by
  have hlt : bs.length % n < n := Nat.mod_lt _ hn
  have hsplit := Nat.div_add_mod bs.length n
  have hlen : (pad n bs).length = n * (bs.length / n + 1) := by
    rw [pad, length_append, length_replicate, Nat.mul_add]
    omega
  rw [hlen, Nat.mul_mod_right]

theorem unpad_append {n k : Nat} (hk : 0 < k) (hkn : k ≤ n) (hn : n < 256) (bs : List UInt8) :
    unpad n (bs ++ replicate k (UInt8.ofNat k)) = some bs := by
  obtain ⟨j, rfl⟩ : ∃ j, k = j + 1 := ⟨k - 1, by omega⟩
  have hlast : (bs ++ replicate (j + 1) (UInt8.ofNat (j + 1))).getLast? =
      some (UInt8.ofNat (j + 1)) := by
    rw [replicate_succ', ← append_assoc, getLast?_concat]
  have hsize : UInt8.size = 256 := rfl
  have hnum : (UInt8.ofNat (j + 1)).toNat = j + 1 := UInt8.toNat_ofNat_of_lt (by omega)
  have hlen : (bs ++ replicate (j + 1) (UInt8.ofNat (j + 1))).length - (j + 1) =
      bs.length := by
    rw [length_append, length_replicate]
    omega
  rw [unpad, hlast]
  dsimp only
  rw [hnum, hlen, drop_left, take_left, if_pos ⟨hk, hkn, rfl⟩]

theorem unpad_pad {n : Nat} (hn : 0 < n) (hn' : n < 256) (bs : List UInt8) :
    unpad n (pad n bs) = some bs := by
  have hlt : bs.length % n < n := Nat.mod_lt _ hn
  exact unpad_append (by omega) (by omega) hn' bs

end Fantom.Lib
