/-
  Fantom.Core.Base58 — Bytes as text in base 58.

  * `decodeBase58_ends` — no assertion fails.

  A string is its bytes.  A pointer to characters points to the bytes up to the first zero, and the
  counts of leading ones and zeros are below `2^31`, as no string in memory is longer.
-/
import Fantom.Lib.Returns
import Fantom.Lib.Radix
import Mathlib.Data.List.DropRight

namespace Fantom.Core

open Lib List Radix Nat

/-! ## §1. Characters. -/

def pszBase58 : List UInt8 :=
  ['1', '2', '3', '4', '5', '6', '7', '8', '9', 'A', 'B', 'C', 'D', 'E', 'F', 'G', 'H', 'J', 'K',
    'L', 'M', 'N', 'P', 'Q', 'R', 'S', 'T', 'U', 'V', 'W', 'X', 'Y', 'Z', 'a', 'b', 'c', 'd', 'e',
    'f', 'g', 'h', 'i', 'j', 'k', 'm', 'n', 'o', 'p', 'q', 'r', 's', 't', 'u', 'v', 'w', 'x', 'y',
    'z'].map fun c => UInt8.ofNat c.toNat

def charOne : UInt8 := UInt8.ofNat '1'.toNat

/-- `pszBase58[d]` -/
def base58Char (d : UInt8) : UInt8 := pszBase58.getD d.toNat 0

/-- `isspace`, in the locale that a program starts with. -/
def isspace (c : UInt8) : Bool := c == 0x20 || (0x09 ≤ c && c ≤ 0x0d)

variable (str : List UInt8)

/-- `str.c_str()`, as it is read by a function that takes a pointer. -/
def cStr : List UInt8 := str.takeWhile (· != 0)

def trim : List UInt8 := (str.dropWhile isspace).rdropWhile isspace

/-! ## §2. Encoding. -/

/-- `while (pbegin != pend)`, with the buffer in base 58. -/
def encodeLoop : List UInt8 → List UInt8 → Except Abort (List UInt8)
  | [], b58 => .ok b58
  | b :: bs, b58 => do
    let r := Radix.mulAdd 58 256 b58 b.toNat
    rejectIf (r.2 ≠ 0) (.threw "carry == 0")
    encodeLoop bs r.1

variable (vch : List UInt8)

def encodeBase58 : Except Abort (List UInt8) := do
  let zeroes := (vch.takeWhile (· == 0)).length
  let vch := vch.dropWhile (· == 0)
  let b58 ← encodeLoop vch (replicate (vch.length * 138 / 100 + 1) 0)
  return replicate zeroes charOne ++ (b58.dropWhile (· == 0)).map base58Char

/-! ## §3. Decoding. -/

/-- `while (*psz && !isspace(*psz))`, with the buffer in base 256; what is left of the string, and
the buffer, or none where a character has no place in the alphabet. -/
def decodeLoop : List UInt8 → List UInt8 → Except Abort (Option (List UInt8 × List UInt8))
  | [], b256 => .ok (some ([], b256))
  | c :: psz, b256 =>
    if isspace c then .ok (some (c :: psz, b256))
    else
      match pszBase58.idxOf? c with
      | none => .ok none
      | some carry => do
        let r := Radix.mulAdd 256 58 b256 carry
        rejectIf (r.2 ≠ 0) (.threw "carry == 0")
        decodeLoop psz r.1

/-- `DecodeBase58(const char* psz, vch)`, with `none` for false. -/
def decodePsz (psz : List UInt8) : Except Abort (Option (List UInt8)) := do
  let psz := psz.dropWhile isspace
  let zeroes := (psz.takeWhile (· == charOne)).length
  let psz := psz.dropWhile (· == charOne)
  match ← decodeLoop psz (replicate (psz.length * 733 / 1000 + 1) 0) with
  | none => return none
  | some (psz, b256) =>
    if psz.dropWhile isspace ≠ [] then return none
    else return some (replicate zeroes 0 ++ b256.dropWhile (· == 0))

/-- `DecodeBase58(str, vchRet)` -/
def decodeBase58 : Except Abort (Option (List UInt8)) := decodePsz (cStr str)

/-! ## §4. The alphabet. -/

theorem forall_byte {p : UInt8 → Prop} (h : ∀ b : BitVec 8, p (UInt8.ofBitVec b)) (c : UInt8) :
    p c := h c.toBitVec

/-- The characters of the digits: each has its place, none is a space or ends a string, and the
first one alone is a one. -/
theorem alphabet_digit : ∀ d : UInt8, d.toNat < 58 →
    pszBase58.idxOf? (base58Char d) = some d.toNat ∧ isspace (base58Char d) = false ∧
      base58Char d ≠ 0 ∧ (base58Char d = charOne ↔ d = 0) :=
  forall_byte (by decide +kernel)

theorem idxOf_eq_some {c : UInt8} {k : Nat} (h : pszBase58.idxOf? c = some k) :
    k < 58 ∧ base58Char (UInt8.ofNat k) = c := by
  obtain ⟨hk, hc, _⟩ := findIdx?_eq_some_iff_getElem.mp h
  have hlt : k < 58 := hk
  have hnat : (UInt8.ofNat k).toNat = k := UInt8.toNat_ofNat_of_lt' (hlt.trans (by decide))
  refine ⟨hlt, ?_⟩
  rw [base58Char, hnat, getD_eq_getElem?_getD, getElem?_eq_getElem hk]
  exact eq_of_beq hc

/-! ## §5. The loops. -/

theorem encodeLoop_of_room {vch b58 : List UInt8} (hdigits : Radix.Digits 58 b58)
    (hroom : Radix.Room 58 256 b58 vch.length) :
    ∃ b58', encodeLoop vch b58 = .ok b58' ∧ Radix.Digits 58 b58' ∧
      Radix.value 58 b58' = Radix.value 58 b58 * 256 ^ vch.length + Radix.value 256 vch := by
  induction vch generalizing b58 with
  | nil => exact ⟨b58, rfl, hdigits, by simp⟩
  | cons b vch ih =>
    obtain ⟨hzero, hvalue, hroom⟩ := hroom.step (by decide) (by decide) b.toNat_lt
    obtain ⟨b58', hloop, hdigits', hvalue'⟩ :=
      ih (mulAdd_digits (by decide) (by decide) 256 b58 b.toNat) hroom
    refine ⟨b58', ?_, hdigits', ?_⟩
    · rw [encodeLoop, hzero]
      exact hloop
    · rw [hvalue', hvalue, value_cons, length_cons]
      ring

theorem decodeLoop_append {ds b256 : List UInt8} {k : Nat} (hds : Radix.Digits 58 ds)
    (hdigits : Radix.Digits 256 b256) (hroom : Radix.Room 256 58 b256 (ds.length + k))
    (rest : List UInt8) :
    ∃ b256', decodeLoop (ds.map base58Char ++ rest) b256 = decodeLoop rest b256' ∧
      Radix.Digits 256 b256' ∧
      Radix.value 256 b256' = Radix.value 256 b256 * 58 ^ ds.length + Radix.value 58 ds := by
  induction ds generalizing b256 with
  | nil => exact ⟨b256, rfl, hdigits, by simp⟩
  | cons d ds ih =>
    obtain ⟨hd, hds⟩ := digits_cons.mp hds
    obtain ⟨hplace, hspace, _, _⟩ := alphabet_digit d hd
    rw [length_cons, add_right_comm] at hroom
    obtain ⟨hzero, hvalue, hroom⟩ := hroom.step (by decide) (by decide) hd
    obtain ⟨b256', hloop, hdigits', hvalue'⟩ :=
      ih hds (mulAdd_digits (by decide) (by decide) 58 b256 d.toNat) hroom
    refine ⟨b256', ?_, hdigits', ?_⟩
    · rw [map_cons, cons_append, decodeLoop, hspace, if_neg (by decide), hplace]
      dsimp only
      rw [hzero]
      exact hloop
    · rw [hvalue', hvalue, value_cons, length_cons]
      ring

theorem exists_digits (psz : List UInt8) :
    ∃ ds rest, Radix.Digits 58 ds ∧ psz = ds.map base58Char ++ rest ∧
      ((∀ c ∈ rest.head?, isspace c = true) ∨
        ∃ c back, rest = c :: back ∧ isspace c = false ∧ pszBase58.idxOf? c = none) := by
  induction psz with
  | nil => exact ⟨[], [], forall_mem_nil _, rfl, .inl nofun⟩
  | cons c psz ih =>
    cases hspace : isspace c with
    | true =>
      refine ⟨[], c :: psz, forall_mem_nil _, rfl, .inl fun c' hc' => ?_⟩
      obtain rfl := Option.mem_some_iff.mp hc'
      exact hspace
    | false =>
      cases hplace : pszBase58.idxOf? c with
      | none =>
        exact ⟨[], c :: psz, forall_mem_nil _, rfl, .inr ⟨c, psz, rfl, hspace, hplace⟩⟩
      | some k =>
        obtain ⟨hk, hchar⟩ := idxOf_eq_some hplace
        obtain ⟨ds, rest, hds, rfl, hrest⟩ := ih
        have hk' : (UInt8.ofNat k).toNat = k := UInt8.toNat_ofNat_of_lt' (by
          have hsize : UInt8.size = 256 := rfl
          omega)
        refine ⟨UInt8.ofNat k :: ds, rest, digits_cons.mpr ⟨?_, hds⟩, ?_, hrest⟩
        · rw [hk']
          exact hk
        · rw [map_cons, hchar, cons_append]

/-! ## §6. What is computed. -/

variable (zeroes n : Nat)

/-- The text of `zeroes` zeros in front of the bytes of `n`. -/
def base58Text : List UInt8 :=
  replicate zeroes charOne ++ (Radix.digits 58 n).map base58Char

theorem takeWhile_eq_replicate {α : Type} [DecidableEq α] (a : α) (l : List α) :
    l.takeWhile (· == a) = replicate (l.takeWhile (· == a)).length a := by
  refine eq_replicate_of_mem fun b hb => ?_
  exact eq_of_beq (all_eq_true.mp all_takeWhile b hb)

theorem eq_zeros_append : vch =
    replicate (vch.takeWhile (· == 0)).length 0 ++ Radix.digits 256 (Radix.value 256 vch) := by
  rw [digits_value (by decide) (digits_bytes vch), ← takeWhile_eq_replicate]
  exact (takeWhile_append_dropWhile).symm

/-- **The encoder** ends, and its text is that of the number. -/
theorem encodeBase58_eq :
    encodeBase58 vch = .ok (base58Text (vch.takeWhile (· == 0)).length (Radix.value 256 vch)) := by
  unfold encodeBase58
  dsimp only
  have hroom := room_replicate (b := 58) (m := 256) (p := 138) (q := 100) (by decide)
    (by decide) (by decide +kernel) (Radix.dropZeros vch).length
  have hdigits : Radix.Digits 58
      (replicate ((Radix.dropZeros vch).length * 138 / 100 + 1) 0) := by
    intro d hd
    rw [eq_of_mem_replicate hd]
    decide
  obtain ⟨b58, hloop, hb58, hvalue⟩ := encodeLoop_of_room hdigits hroom
  rw [value_replicate_zero, zero_mul, zero_add, value_dropZeros] at hvalue
  unfold Radix.dropZeros at hloop
  rw [hloop, ok_bind]
  rw [base58Text, ← hvalue, digits_value (by decide) hb58]
  rfl

theorem takeWhile_replicate_append {α : Type} [DecidableEq α] {a : α} {l : List α}
    (h : l.head? ≠ some a) (n : Nat) :
    (replicate n a ++ l).takeWhile (· == a) = replicate n a ∧
      (replicate n a ++ l).dropWhile (· == a) = l := by
  have hl : l.takeWhile (· == a) = [] ∧ l.dropWhile (· == a) = l := by
    cases l with
    | nil => exact ⟨rfl, rfl⟩
    | cons b l =>
      have hb : ¬(b == a) = true := fun hb => h (congrArg some (eq_of_beq hb))
      exact ⟨takeWhile_cons_of_neg hb, dropWhile_cons_of_neg hb⟩
  have hall : ∀ b ∈ replicate n a, (b == a) = true := by
    intro b hb
    rw [eq_of_mem_replicate hb]
    exact beq_self_eq_true a
  rw [takeWhile_append_of_pos hall, dropWhile_append_of_pos hall, hl.1, hl.2,
    append_nil]
  exact ⟨rfl, rfl⟩

theorem decode_ratio : 58 ^ 1000 ≤ 256 ^ 733 :=
  have hdigits : 58 ^ 50 ≤ 2 ^ 293 := by decide +kernel
  pow_le_bytes hdigits 20 rfl (by decide)

/-- **The decoder** ends on a string of ones, digits and a rest. -/
theorem decodePsz_eq {psz ds rest : List UInt8} {zeroes : Nat}
    (h : psz.dropWhile isspace = replicate zeroes charOne ++ (ds.map base58Char ++ rest))
    (hhead : (ds.map base58Char ++ rest).head? ≠ some charOne) (hds : Radix.Digits 58 ds)
    (hrest : (∀ c ∈ rest.head?, isspace c = true) ∨
      ∃ c back, rest = c :: back ∧ isspace c = false ∧ pszBase58.idxOf? c = none) :
    decodePsz psz = .ok (if rest.dropWhile isspace = [] then
      some (replicate zeroes 0 ++ Radix.digits 256 (Radix.value 58 ds)) else none) := by
  obtain ⟨hones, htail⟩ := takeWhile_replicate_append hhead zeroes
  have hroom := room_replicate (b := 256) (m := 58) (p := 733) (q := 1000) (by decide)
    (by decide) decode_ratio (ds.map base58Char ++ rest).length
  have hdigits := digits_bytes
    (replicate ((ds.map base58Char ++ rest).length * 733 / 1000 + 1) 0)
  have hlen : (ds.map base58Char ++ rest).length = ds.length + rest.length := by
    rw [length_append, length_map]
  have hroom' : Radix.Room 256 58
      (replicate ((ds.map base58Char ++ rest).length * 733 / 1000 + 1) 0)
      (ds.length + rest.length) := by
    rw [← hlen]
    exact hroom
  obtain ⟨b256, hloop, hb256, hvalue⟩ := decodeLoop_append hds hdigits hroom' rest
  rw [value_replicate_zero, zero_mul, zero_add] at hvalue
  unfold decodePsz
  dsimp only
  rw [h, hones, htail, hloop, length_replicate, ← hvalue,
    digits_value (by decide) hb256]
  cases rest with
  | nil => rfl
  | cons c back =>
    rw [decodeLoop]
    rcases hrest with hspace | ⟨c', back', hcons, hspace, hplace⟩
    · rw [if_pos (hspace c rfl)]
      dsimp only [ok_bind]
      by_cases hback : (c :: back).dropWhile isspace = []
      · rw [if_pos hback, if_neg (not_not.mpr hback)]
        rfl
      · rw [if_neg hback, if_pos hback]
        rfl
    · obtain ⟨rfl, rfl⟩ := cons_eq_cons.mp hcons
      have hne : (c :: back).dropWhile isspace ≠ [] := by
        rw [dropWhile_cons_of_neg (by rw [hspace]; decide)]
        exact cons_ne_nil _ _
      rw [hspace, if_neg (by decide), hplace]
      exact (congrArg Except.ok (if_neg hne)).symm

theorem exists_shape (psz : List UInt8) :
    ∃ zeroes ds rest, psz.dropWhile isspace =
        replicate zeroes charOne ++ (ds.map base58Char ++ rest) ∧
      (ds.map base58Char ++ rest).head? ≠ some charOne ∧ Radix.Digits 58 ds ∧
      ((∀ c ∈ rest.head?, isspace c = true) ∨
        ∃ c back, rest = c :: back ∧ isspace c = false ∧ pszBase58.idxOf? c = none) := by
  let text := psz.dropWhile isspace
  obtain ⟨ds, rest, hds, htail, hrest⟩ := exists_digits (text.dropWhile (· == charOne))
  refine ⟨(text.takeWhile (· == charOne)).length, ds, rest, ?_, ?_, hds, hrest⟩
  · rw [← takeWhile_eq_replicate, ← htail]
    exact takeWhile_append_dropWhile.symm
  · rw [← htail]
    intro hhead
    have hnot := head?_dropWhile_not (· == charOne) text
    rw [hhead] at hnot
    exact absurd hnot (by decide)

/-! ## §7. What decodes. -/

theorem base58Text_mem {zeroes n : Nat} {c : UInt8} (hc : c ∈ base58Text zeroes n) :
    isspace c = false ∧ c ≠ 0 := by
  rcases mem_append.mp hc with hone | hdigit
  · rw [eq_of_mem_replicate hone]
    decide
  · obtain ⟨d, hd, rfl⟩ := mem_map.mp hdigit
    obtain ⟨_, hspace, hzero, _⟩ :=
      alphabet_digit d (digits_digits (by decide) (by decide) n d hd)
    exact ⟨hspace, hzero⟩

theorem rdropWhile_append {text rest : List UInt8} (htext : ∀ c ∈ text, isspace c = false)
    (hrest : ∀ c ∈ rest, isspace c = true) :
    (text ++ rest).rdropWhile isspace = text := by
  rw [rdropWhile, reverse_append,
    dropWhile_append_of_pos fun c hc => hrest c (mem_reverse.mp hc),
    ← reverse_inj, reverse_reverse]
  cases hrev : text.reverse with
  | nil => rfl
  | cons c back =>
    have hc : c ∈ text := mem_reverse.mp (hrev ▸ mem_cons_self)
    exact dropWhile_cons_of_neg (by rw [htext c hc]; decide)

theorem encodeBase58_digits :
    encodeBase58 (replicate zeroes 0 ++ Radix.digits 256 n) = .ok (base58Text zeroes n) := by
  have hhead := digits_head_ne (b := 256) (by decide) (by decide) n
  rw [encodeBase58_eq, (takeWhile_replicate_append hhead zeroes).1, length_replicate,
    value_append, value_replicate_zero, zero_mul, zero_add,
    value_digits (by decide) (by decide)]

theorem head_ne_charOne {ds rest : List UInt8} (hds : Radix.Digits 58 ds)
    (hfirst : ds.head? ≠ some 0) (hrest : ∀ c ∈ rest.head?, isspace c = true) :
    (ds.map base58Char ++ rest).head? ≠ some charOne := by
  intro hone
  cases ds with
  | nil => exact absurd (hrest charOne hone) (by decide)
  | cons d ds =>
    obtain ⟨_, _, _, hd⟩ := alphabet_digit d (digits_cons.mp hds).1
    exact hfirst (congrArg some (hd.mp (Option.some.inj hone)))

/-- **What decodes to bytes** is the text of the bytes, with spaces around it. -/
theorem decodePsz_eq_some_iff (psz vch : List UInt8) :
    decodePsz psz = .ok (some vch) ↔ encodeBase58 vch = .ok (trim psz) := by
  constructor
  · intro hdecode
    obtain ⟨zeroes, ds, rest, hshape, hhead, hds, hrest⟩ := exists_shape psz
    rw [decodePsz_eq hshape hhead hds hrest] at hdecode
    by_cases hback : rest.dropWhile isspace = []
    · rw [if_pos hback] at hdecode
      obtain rfl := Option.some.inj (Except.ok.inj hdecode)
      have hdigits : base58Text zeroes (Radix.value 58 ds) =
          replicate zeroes charOne ++ ds.map base58Char := by
        have hfirst : ds.head? ≠ some 0 := by
          intro hzero
          cases ds with
          | nil => cases hzero
          | cons d ds =>
            cases hzero
            have hone : base58Char 0 = charOne := by decide
            exact hhead (congrArg some hone)
        rw [base58Text, digits_value (by decide) hds, dropZeros_eq_self hfirst]
      rw [encodeBase58_digits]
      rw [trim, hshape, ← append_assoc, ← hdigits, rdropWhile_append
        (fun c hc => (base58Text_mem hc).1) (dropWhile_eq_nil_iff.mp hback)]
    · rw [if_neg hback] at hdecode
      cases hdecode
  · intro hencode
    rw [encodeBase58_eq] at hencode
    have htext := Except.ok.inj hencode
    let ds := Radix.digits 58 (Radix.value 256 vch)
    let rest := (psz.dropWhile isspace).rtakeWhile isspace
    have hshape : psz.dropWhile isspace =
        replicate (vch.takeWhile (· == 0)).length charOne ++ (ds.map base58Char ++ rest) := by
      rw [← append_assoc]
      exact (rdropWhile_append_rtakeWhile ..).symm.trans (congrArg (· ++ rest) htext.symm)
    have hrest : ∀ c ∈ rest, isspace c = true := fun c hc => mem_rtakeWhile_imp hc
    have hds := digits_digits (b := 58) (by decide) (by decide) (Radix.value 256 vch)
    have hspace : ∀ c ∈ rest.head?, isspace c = true :=
      fun c hc => hrest c (mem_of_mem_head? hc)
    have hhead := head_ne_charOne hds (digits_head_ne (by decide) (by decide) _) hspace
    rw [decodePsz_eq hshape hhead hds (.inl hspace),
      if_pos (dropWhile_eq_nil_iff.mpr hrest), value_digits (by decide) (by decide),
      ← eq_zeros_append]

theorem decodeBase58_ends : ∃ r, decodeBase58 str = .ok r := by
  obtain ⟨zeroes, ds, rest, hshape, hhead, hds, hrest⟩ := exists_shape (cStr str)
  exact ⟨_, decodePsz_eq hshape hhead hds hrest⟩

theorem decodeBase58_eq_some_iff (str vch : List UInt8) :
    decodeBase58 str = .ok (some vch) ↔ encodeBase58 vch = .ok (trim (cStr str)) :=
  decodePsz_eq_some_iff (cStr str) vch

theorem cStr_base58Text : cStr (base58Text zeroes n) = base58Text zeroes n :=
  takeWhile_eq_self_iff.mpr fun _ hc => bne_iff_ne.mpr (base58Text_mem hc).2

theorem trim_base58Text : trim (base58Text zeroes n) = base58Text zeroes n := by
  have hspace : (base58Text zeroes n).dropWhile isspace = base58Text zeroes n := by
    cases htext : base58Text zeroes n with
    | nil => rfl
    | cons c back =>
      have hc : c ∈ base58Text zeroes n := htext ▸ mem_cons_self
      exact dropWhile_cons_of_neg (by rw [(base58Text_mem hc).1]; decide)
  have htext : ∀ c ∈ base58Text zeroes n, isspace c = false := fun c hc => (base58Text_mem hc).1
  have hback := rdropWhile_append htext (forall_mem_nil (isspace · = true))
  rw [append_nil] at hback
  rw [trim, hspace, hback]

/-- **Bytes come back** from their text, which has no zero in it. -/
theorem encodeBase58_roundTrip :
    ∃ str, encodeBase58 vch = .ok str ∧ cStr str = str ∧ decodePsz str = .ok (some vch) := by
  refine ⟨_, encodeBase58_eq vch, cStr_base58Text _ _, ?_⟩
  rw [decodePsz_eq_some_iff, trim_base58Text]
  exact encodeBase58_eq vch

theorem decodeBase58_encodeBase58 :
    ∃ str, encodeBase58 vch = .ok str ∧ decodeBase58 str = .ok (some vch) := by
  obtain ⟨str, hencode, hcStr, hdecode⟩ := encodeBase58_roundTrip vch
  refine ⟨str, hencode, ?_⟩
  rw [decodeBase58, hcStr]
  exact hdecode

theorem encodeBase58_inj {vch vch' : List UInt8} (h : encodeBase58 vch = encodeBase58 vch') :
    vch = vch' := by
  obtain ⟨str, hencode, _, hdecode⟩ := encodeBase58_roundTrip vch
  obtain ⟨str', hencode', _, hdecode'⟩ := encodeBase58_roundTrip vch'
  obtain rfl := Except.ok.inj ((hencode.symm.trans h).trans hencode')
  exact Option.some.inj (Except.ok.inj (hdecode.symm.trans hdecode'))

/-- A zero ends the string early: the text of the bytes is a part of it only. -/
example : decodeBase58 [charOne, 0, charOne] = .ok (some [0]) ∧ encodeBase58 [0] = .ok [charOne] :=
  by decide +kernel

end Fantom.Core
