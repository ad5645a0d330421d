/-
  Fantom.Core.Wire — The parts of the wire format: numbers, compact sizes and vectors, how they are
  read and how long they are.

  * `format_compactSize`, `format_bytes`, `format_vector` — what is written reads back, and nothing
    else is read.

  A stream is the bytes still to be read from it.
-/
import Fantom.Core.Transaction
import Fantom.Lib.Format

namespace Fantom.Core

open Lib List UInt32 Nat

/-! ## §1. Numbers. -/

/-- `READDATA` of a number of `w` bytes. -/
def readNumber (w : Nat) : Reader UInt8 Nat := ofLEBytes <$> readTake w

theorem format_number (w : Nat) : Format (leBytes w) (readNumber w) (· < 256 ^ w) id where
  reads n rest hn := by
    have htake := readTake_append (leBytes w n) rest
    rw [leBytes_length] at htake
    rw [readNumber, StateT.run_map, htake]
    change some (ofLEBytes (leBytes w n), rest) = _
    rw [ofLEBytes_leBytes hn]
    rfl
  takes bs n rest h := by
    rw [readNumber, StateT.run_map] at h
    obtain ⟨⟨xs, rest'⟩, hx, h⟩ := Option.map_eq_some_iff.mp h
    cases h
    obtain ⟨hbs, hlen⟩ := readTake_eq_some hx
    dsimp only
    rw [← hlen, leBytes_ofLEBytes]
    exact ⟨hbs, ofLEBytes_lt xs⟩

variable {α : Type} {w n : Nat} {write : α → List UInt8}

theorem format_ofNumber {toNat : α → Nat} {ofNat : Nat → α} (hlt : ∀ a, toNat a < 256 ^ w)
    (hleft : ∀ a, ofNat (toNat a) = a) (hright : ∀ n, n < 256 ^ w → toNat (ofNat n) = n) :
    Format (fun a => leBytes w (toNat a)) (ofNat <$> readNumber w) (fun _ => True) id where
  reads a rest _ := by
    rw [StateT.run_map, (format_number w).reads _ rest (hlt a)]
    change some (ofNat (toNat a), rest) = _
    rw [hleft]
    rfl
  takes bs a rest h := by
    rw [StateT.run_map] at h
    obtain ⟨⟨n, rest'⟩, hn, h⟩ := Option.map_eq_some_iff.mp h
    cases h
    obtain ⟨hbs, hlt'⟩ := (format_number w).takes bs n rest' hn
    dsimp only
    rw [hright n hlt']
    exact ⟨hbs, trivial⟩

/-- `unsigned int` -/
def readUInt32 : Reader UInt8 UInt32 := UInt32.ofNat <$> readNumber 4

/-- `int` -/
def readInt32 : Reader UInt8 Int32 := (fun n => (UInt32.ofNat n).toInt32) <$> readNumber 4

/-- `int64_t` -/
def readInt64 : Reader UInt8 Int64 := (fun n => (UInt64.ofNat n).toInt64) <$> readNumber 8

/-- `uint256::Unserialize` -/
def readUInt256 : Reader UInt8 UInt256 := BitVec.ofNat 256 <$> readNumber 32

theorem format_uint32 :
    Format (fun n : UInt32 => leBytes 4 n.toNat) readUInt32 (fun _ => True) id :=
  format_ofNumber toNat_lt (fun _ => UInt32.ofNat_toNat)
    fun _ hn => toNat_ofNat_of_lt hn

theorem format_int32 :
    Format (fun n : Int32 => leBytes 4 n.toUInt32.toNat) readInt32 (fun _ => True) id := by
  refine format_ofNumber (fun n => n.toUInt32.toNat_lt) (fun n => ?_) fun n hn => ?_
  · rw [UInt32.ofNat_toNat]
    rfl
  · exact toNat_ofNat_of_lt hn

theorem format_int64 :
    Format (fun n : Int64 => leBytes 8 n.toUInt64.toNat) readInt64 (fun _ => True) id := by
  refine format_ofNumber (fun n => n.toUInt64.toNat_lt) (fun n => ?_) fun n hn => ?_
  · rw [UInt64.ofNat_toNat]
    rfl
  · exact UInt64.toNat_ofNat_of_lt hn

theorem format_uint256 :
    Format (fun n : UInt256 => leBytes 32 n.toNat) readUInt256 (fun _ => True) id := by
  refine format_ofNumber (fun n => ?_) (fun n => ?_) fun n hn => ?_
  · have := n.isLt
    exact lt_of_lt_of_eq this (by decide)
  · exact BitVec.ofNat_toNat 256 n |>.trans (BitVec.setWidth_eq n)
  · exact (BitVec.toNat_ofNat n 256).trans (mod_eq_of_lt (lt_of_lt_of_eq hn (by decide)))

/-! ## §2. Compact sizes. -/

def MAX_SIZE : Nat := 0x02000000

/-- A size in `w` bytes behind its marker, at least as high as a shorter form cannot be. -/
def readLongSize (w least : Nat) : Reader UInt8 Nat := do
  let nSizeRet ← readNumber w
  if nSizeRet < least then failure else return nSizeRet

def readSizeBehind (chSize : Nat) : Reader UInt8 Nat :=
  if chSize < 253 then pure chSize
  else if chSize = 253 then readLongSize 2 253
  else if chSize = 254 then readLongSize 4 0x10000
  else readLongSize 8 0x100000000

/-- `ReadCompactSize`, which throws on a size in a form that is too long, and on one above
`MAX_SIZE`. -/
def readCompactSize : Reader UInt8 Nat := do
  let chSize ← readNumber 1
  let nSizeRet ← readSizeBehind chSize
  if nSizeRet > MAX_SIZE then failure else return nSizeRet

theorem readLongSize_append {least : Nat} (hlt : n < 256 ^ w) (hle : least ≤ n)
    (rest : List UInt8) : (readLongSize w least).run (leBytes w n ++ rest) = some (n, rest) := by
  unfold readLongSize
  rw [run_bind_of_eq ((format_number w).reads n rest hlt), id_eq, if_neg (not_lt.mpr hle)]
  rfl

theorem readLongSize_eq_some {least : Nat} {bs rest : List UInt8}
    (h : (readLongSize w least).run bs = some (n, rest)) :
    bs = leBytes w n ++ rest ∧ n < 256 ^ w ∧ least ≤ n := by
  obtain ⟨m, rest', hm, h⟩ := run_bind_eq_some.mp h
  split at h
  next => cases h
  next hle =>
    obtain ⟨rfl, rfl⟩ := run_pure_eq_some.mp h
    obtain ⟨hbs, hlt⟩ := (format_number w).takes bs m rest' hm
    exact ⟨hbs, hlt, not_lt.mp hle⟩

/-- `ReadCompactSize` up to its test of the size. -/
def readAnySize : Reader UInt8 Nat := do
  let chSize ← readNumber 1
  readSizeBehind chSize

theorem readCompactSize_eq : readCompactSize = do
    let nSizeRet ← readAnySize
    if nSizeRet > MAX_SIZE then failure else return nSizeRet := by
  unfold readCompactSize readAnySize
  rw [bind_assoc]

theorem readAnySize_append (chSize : Nat) {bs rest : List UInt8} (hch : chSize < 256)
    (h : (readSizeBehind chSize).run bs = some (n, rest)) :
    readAnySize.run (leBytes 1 chSize ++ bs) = some (n, rest) := by
  rw [readAnySize, run_bind_of_eq ((format_number 1).reads chSize bs (by omega)), id_eq, h]

theorem format_anySize : Format writeCompactSize readAnySize (· < 2 ^ 64) id where
  reads n rest hn := by
    unfold writeCompactSize
    split
    next hsmall =>
      refine readAnySize_append n (by omega) ?_
      rw [readSizeBehind, if_pos hsmall]
      rfl
    next hbig =>
      split
      next h16 =>
        refine readAnySize_append 253 (by decide) ?_
        exact readLongSize_append (by omega) (by omega) rest
      next h16 =>
        split
        next h32 =>
          refine readAnySize_append 254 (by decide) ?_
          exact readLongSize_append (by omega) (by omega) rest
        next h32 =>
          refine readAnySize_append 255 (by decide) ?_
          exact readLongSize_append (by omega) (by omega) rest
  takes bs n rest h := by
    obtain ⟨chSize, rest1, hmarker, hbehind⟩ := run_bind_eq_some.mp h
    obtain ⟨rfl, hbyte⟩ := (format_number 1).takes bs chSize rest1 hmarker
    unfold readSizeBehind at hbehind
    unfold writeCompactSize
    split at hbehind
    next hsmall =>
      obtain ⟨rfl, rfl⟩ := run_pure_eq_some.mp hbehind
      rw [if_pos hsmall]
      exact ⟨rfl, by omega⟩
    next hbig =>
      split at hbehind
      next h253 =>
        obtain ⟨rfl, hlt, hleast⟩ := readLongSize_eq_some hbehind
        rw [if_neg (by omega), if_pos (by omega), h253]
        exact ⟨rfl, by omega⟩
      next =>
        split at hbehind
        next h254 =>
          obtain ⟨rfl, hlt, hleast⟩ := readLongSize_eq_some hbehind
          rw [if_neg (by omega), if_neg (by omega), if_pos (by omega), h254]
          exact ⟨rfl, by omega⟩
        next =>
          obtain ⟨rfl, hlt, hleast⟩ := readLongSize_eq_some hbehind
          obtain rfl : chSize = 255 := by omega
          rw [if_neg (by omega), if_neg (by omega), if_neg (by omega)]
          exact ⟨rfl, by omega⟩

theorem format_compactSize : Format writeCompactSize readCompactSize (· ≤ MAX_SIZE) id where
  reads n rest hn := by
    have hmax : MAX_SIZE = 33554432 := rfl
    rw [readCompactSize_eq, run_bind_of_eq (format_anySize.reads n rest (by omega)), id_eq,
      if_neg (not_lt.mpr hn)]
    rfl
  takes bs n rest h := by
    rw [readCompactSize_eq] at h
    obtain ⟨m, rest', hsize, h⟩ := run_bind_eq_some.mp h
    split at h
    next => cases h
    next hle =>
      obtain ⟨rfl, rfl⟩ := run_pure_eq_some.mp h
      exact ⟨(format_anySize.takes bs m rest' hsize).1, not_lt.mp hle⟩

/-! ## §3. Vectors. -/

/-- The loop of `Unserialize` for bytes: blocks of at most 5000000. -/
def readBlocks : Nat → Nat → Reader UInt8 (List UInt8)
  | _, 0 => pure []
  | 0, _ + 1 => failure
  | fuel + 1, n + 1 => do
    let block ← readTake (min (n + 1) 5000000)
    let v ← readBlocks fuel (n + 1 - min (n + 1) 5000000)
    return block ++ v

/-- A vector of bytes; a block is not empty, so there are no more blocks than bytes. -/
def unserializeBytes : Reader UInt8 (List UInt8) := do
  let nSize ← readCompactSize
  readBlocks nSize nSize

def unserializeVector {α : Type} (r : Reader UInt8 α) : Reader UInt8 (List α) := do
  let nSize ← readCompactSize
  readMany r nSize

/-- **The blocks together** are the bytes at once. -/
theorem readBlocks_eq {fuel : Nat} (h : n ≤ fuel) (bs : List UInt8) :
    (readBlocks fuel n).run bs = (readTake n).run bs := by
  induction fuel generalizing n bs with
  | zero =>
    obtain rfl : n = 0 := by omega
    rfl
  | succ fuel ih =>
    cases n with
    | zero => rfl
    | succ n =>
      have hpositive : 0 < min (n + 1) 5000000 := by omega
      have hsum : min (n + 1) 5000000 + (n + 1 - min (n + 1) 5000000) = n + 1 := by omega
      have hrest (bs : List UInt8) : (readBlocks fuel (n + 1 - min (n + 1) 5000000)).run bs =
          (readTake (n + 1 - min (n + 1) 5000000)).run bs := ih (by omega) bs
      have htwo := readTake_add (min (n + 1) 5000000) (n + 1 - min (n + 1) 5000000) bs
      rw [hsum] at htwo
      rw [htwo, readBlocks, StateT.run_bind, StateT.run_bind]
      congr 1
      funext p
      rw [StateT.run_bind, StateT.run_bind, hrest]

theorem format_bytes :
    Format serializeBytes unserializeBytes (fun v => v.length ≤ MAX_SIZE) id where
  reads v rest hok := by
    unfold serializeBytes unserializeBytes
    rw [append_assoc, run_bind_of_eq (format_compactSize.reads v.length _ hok), id_eq,
      readBlocks_eq (le_refl _)]
    exact readTake_append v rest
  takes bs v rest h := by
    obtain ⟨nSize, rest', hsize, hblocks⟩ := run_bind_eq_some.mp h
    rw [readBlocks_eq (le_refl _)] at hblocks
    obtain ⟨rfl, hle⟩ := format_compactSize.takes bs nSize rest' hsize
    obtain ⟨rfl, rfl⟩ := readTake_eq_some hblocks
    exact ⟨(append_assoc ..).symm, hle⟩

theorem format_vector {read : Reader UInt8 α} {Ok : α → Prop} {norm : α → α}
    (f : Format write read Ok norm) :
    Format (serializeVector write) (unserializeVector read)
      (fun v => v.length ≤ MAX_SIZE ∧ ∀ x ∈ v, Ok x) (map norm) where
  reads v rest hok := by
    unfold serializeVector unserializeVector
    rw [append_assoc, run_bind_of_eq (format_compactSize.reads v.length _ hok.1), id_eq]
    exact f.reads_many hok.2 rest
  takes bs v rest h := by
    obtain ⟨nSize, rest', hsize, hmany⟩ := run_bind_eq_some.mp h
    obtain ⟨rfl, hle⟩ := format_compactSize.takes bs nSize rest' hsize
    obtain ⟨rfl, rfl, hall⟩ := f.takes_many hmany
    exact ⟨(append_assoc ..).symm, hle, hall⟩

/-! ### Vectors of any size that a `size_t` counts. -/

theorem prefixFree_bytes : PrefixFree serializeBytes (fun v => v.length < 2 ^ 64) id := by
  intro a b rest rest' ha hb h
  unfold serializeBytes at h
  rw [append_assoc, append_assoc] at h
  obtain ⟨hlen, h⟩ := format_anySize.prefixFree _ _ _ _ ha hb h
  exact append_inj h hlen

theorem prefixFree_vector {γ : Type} {Ok : α → Prop} {norm : α → γ} (f : PrefixFree write Ok norm) :
    PrefixFree (serializeVector write) (fun v => v.length < 2 ^ 64 ∧ ∀ x ∈ v, Ok x)
      (map norm) := by
  intro xs ys rest rest' hxs hys h
  unfold serializeVector at h
  rw [append_assoc, append_assoc] at h
  obtain ⟨hlen, h⟩ := format_anySize.prefixFree _ _ _ _ hxs.1 hys.1 h
  exact f.many hlen hxs.2 hys.2 h

/-! ## §4. Sizes. -/

/-- `GetSerializeSize` of a vector of bytes: the sum is made in 64 bits, and cut. -/
def sizeOfBytes (v : List UInt8) : UInt32 :=
  UInt32.ofNat (getSizeOfCompactSize v.length + v.length)

/-- `GetSerializeSize` of a vector of other elements: the sum wraps. -/
def sizeOfVector {α : Type} (size : α → UInt32) (v : List α) : UInt32 :=
  v.foldl (fun nSize x => nSize + size x) (UInt32.ofNat (getSizeOfCompactSize v.length))

theorem sizeOfBytes_eq (v : List UInt8) :
    sizeOfBytes v = UInt32.ofNat (serializeBytes v).length := by
  unfold sizeOfBytes serializeBytes
  rw [length_append, writeCompactSize_length]

theorem foldl_size_eq {size : α → UInt32} {v : List α}
    (h : ∀ x ∈ v, size x = UInt32.ofNat (write x).length) (n : Nat) :
    v.foldl (fun nSize x => nSize + size x) (UInt32.ofNat n) =
      UInt32.ofNat (n + (v.flatMap write).length) := by
  induction v generalizing n with
  | nil => rfl
  | cons x v ih =>
    have hhead := h x mem_cons_self
    have htail := ih fun y hy => h y (mem_cons_of_mem x hy)
    rw [foldl_cons, hhead, ← ofNat_add, htail, flatMap_cons,
      length_append, add_assoc]

theorem sizeOfVector_eq {size : α → UInt32} {v : List α}
    (h : ∀ x ∈ v, size x = UInt32.ofNat (write x).length) :
    sizeOfVector size v = UInt32.ofNat (serializeVector write v).length := by
  unfold sizeOfVector serializeVector
  rw [foldl_size_eq h, length_append, writeCompactSize_length]

end Fantom.Core
