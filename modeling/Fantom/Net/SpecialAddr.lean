/-
  Fantom.Net.SpecialAddr — Addresses of hidden services as text: a prefix for the network, and ten
  bytes in base 32.

  * `special_roundTrip_iff` — which addresses and which texts come back.

  This is the build without native I2P.
-/
import Fantom.Net.NetAddr

namespace Fantom.Net

open Core List CNetAddr UInt8

/-! ## §1. Base 32. -/

/-- `pbase32[i]`: the letters, then the digits from two. -/
def pbase32 (i : Nat) : UInt8 := if i < 26 then ofNat (97 + i) else ofNat (24 + i)

variable (c : UInt8)

/-- `decode32_table`, where it is not -1: letters of either case, and digits. -/
def decode32 : Option Nat :=
  if 50 ≤ c.toNat ∧ c.toNat ≤ 55 then some (c.toNat - 24)
  else if 65 ≤ c.toNat ∧ c.toNat ≤ 90 then some (c.toNat - 65)
  else if 97 ≤ c.toNat ∧ c.toNat ≤ 122 then some (c.toNat - 97)
  else none

def nPadding : List Nat := [0, 6, 4, 3, 1]

/-- The loop of `EncodeBase32`, with `left` of the bits before. -/
def encodeLoop (mode left : Nat) : List UInt8 → List UInt8
  | [] => if mode = 0 then [] else pbase32 left :: replicate (nPadding.getD mode 0) 61
  | c :: rest =>
    let enc := c.toNat
    match mode with
    | 0 => pbase32 (enc >>> 3) :: encodeLoop 1 ((enc &&& 7) <<< 2) rest
    | 1 =>
      pbase32 (left ||| enc >>> 6) :: pbase32 ((enc >>> 1) &&& 31) ::
        encodeLoop 2 ((enc &&& 1) <<< 4) rest
    | 2 => pbase32 (left ||| enc >>> 4) :: encodeLoop 3 ((enc &&& 15) <<< 1) rest
    | 3 =>
      pbase32 (left ||| enc >>> 7) :: pbase32 ((enc >>> 2) &&& 31) ::
        encodeLoop 4 ((enc &&& 3) <<< 3) rest
    | _ => pbase32 (left ||| enc >>> 5) :: pbase32 (enc &&& 31) :: encodeLoop 0 left rest

def encodeBase32 (bs : List UInt8) : List UInt8 := encodeLoop 0 0 bs

/-- The loop of `DecodeBase32`.  It stops at a character that is none, as the zero behind the text
is. -/
def decodeLoop (mode left : Nat) : List UInt8 → List UInt8
  | [] => []
  | c :: p =>
    match decode32 c with
    | none => []
    | some dec =>
      match mode with
      | 0 => decodeLoop 1 dec p
      | 1 => ofNat (left <<< 3 ||| dec >>> 2) :: decodeLoop 2 (dec &&& 3) p
      | 2 => decodeLoop 3 (left <<< 5 ||| dec) p
      | 3 => ofNat (left <<< 1 ||| dec >>> 4) :: decodeLoop 4 (dec &&& 15) p
      | 4 => ofNat (left <<< 4 ||| dec >>> 1) :: decodeLoop 5 (dec &&& 1) p
      | 5 => decodeLoop 6 (left <<< 5 ||| dec) p
      | 6 => ofNat (left <<< 2 ||| dec >>> 3) :: decodeLoop 7 (dec &&& 7) p
      | _ => ofNat (left <<< 5 ||| dec) :: decodeLoop 0 left p

/-- `DecodeBase32(p)`, where it is not asked whether the text is valid. -/
def decodeBase32 (p : List UInt8) : List UInt8 := decodeLoop 0 0 p

/-! ## §2. Addresses. -/

def CNetAddr.ofBytes (bs : List UInt8) : CNetAddr := BitVec.ofNat 128 (ofLEBytes bs.reverse)

/-- `.onion` -/
def dotOnion : List UInt8 := [46, 111, 110, 105, 111, 110]

/-- `.oc.b32.i2p` -/
def dotI2P : List UInt8 := [46, 111, 99, 46, 98, 51, 50, 46, 105, 50, 112]

/-- `strName.substr(strName.size() - suffix.size(), suffix.size()) == suffix` -/
def endsIn (strName suffix : List UInt8) : Bool :=
  strName.drop (strName.length - suffix.length) == suffix

/-- The bytes behind a prefix that fills the rest. -/
def withPrefix (pch vchAddr : List UInt8) : Option CNetAddr :=
  if vchAddr.length ≠ 16 - pch.length then none else some (ofBytes (pch ++ vchAddr))

/-- `SetSpecial`, with the address where it returns true.  Both names get the prefix
`pchOnionCat`. -/
def setSpecial (strName : List UInt8) : Option CNetAddr :=
  if strName.length > 6 && endsIn strName dotOnion then
    withPrefix pchOnionCat (decodeBase32 (strName.take (strName.length - 6)))
  else if strName.length > 11 && endsIn strName dotI2P then
    withPrefix pchOnionCat (decodeBase32 (strName.take (strName.length - 11)))
  else none

/-- `ToStringIP`, with the text of the other addresses, which the system gives. -/
def toStringIP (other : CNetAddr → List UInt8) (ip : CNetAddr) : List UInt8 :=
  if ip.isTor then encodeBase32 (ip.bytes.drop 6) ++ dotOnion
  else if ip.isI2P then encodeBase32 (ip.bytes.drop 6) ++ dotI2P
  else other ip

/-! ## §3. Characters. -/

def lower : UInt8 := if 65 ≤ c.toNat ∧ c.toNat ≤ 90 then c + 32 else c

theorem decode32_pbase32 {i : Nat} (hi : i < 32) : decode32 (pbase32 i) = some i := by
  have hall : ∀ i < 32, decode32 (pbase32 i) = some i := by decide
  exact hall i hi

theorem pbase32_of_decode32 {c : UInt8} {i : Nat} (h : decode32 c = some i) :
    i < 32 ∧ pbase32 i = lower c := by
  have hall : ∀ n < 256, ∀ i, decode32 (ofNat n) = some i →
      i < 32 ∧ pbase32 i = lower (ofNat n) := by
    intro n hn i hi
    have hcheck : ∀ n < 256, ((decode32 (ofNat n)).all fun i =>
        decide (i < 32 ∧ pbase32 i = lower (ofNat n))) = true := by decide +kernel
    have := hcheck n hn
    rw [hi] at this
    exact of_decide_eq_true this
  have := hall c.toNat c.toNat_lt i
  rw [UInt8.ofNat_toNat] at this
  exact this h

/-! ## §4. Blocks. -/

def quintets (b₀ b₁ b₂ b₃ b₄ : Nat) : List Nat :=
  [b₀ / 8, b₀ % 8 * 4 + b₁ / 64, b₁ / 2 % 32, b₁ % 2 * 16 + b₂ / 16, b₂ % 16 * 2 + b₃ / 128,
    b₃ / 4 % 32, b₃ % 4 * 8 + b₄ / 32, b₄ % 32]

def octets (q₀ q₁ q₂ q₃ q₄ q₅ q₆ q₇ : Nat) : List Nat :=
  [q₀ * 8 + q₁ / 4, (q₁ % 4 * 32 + q₂) * 2 + q₃ / 16, q₃ % 16 * 16 + q₄ / 2,
    (q₄ % 2 * 32 + q₅) * 4 + q₆ / 8, q₆ % 8 * 32 + q₇]

theorem or_shift {a b i : Nat} (hb : b < 2 ^ i) : a <<< i ||| b = a * 2 ^ i + b := by
  rw [← Nat.shiftLeft_add_eq_or_of_lt hb, Nat.shiftLeft_eq]

variable (x : Nat)

theorem and_one : x &&& 1 = x % 2 := Nat.and_two_pow_sub_one_eq_mod x 1

theorem and_three : x &&& 3 = x % 4 := Nat.and_two_pow_sub_one_eq_mod x 2

theorem and_seven : x &&& 7 = x % 8 := Nat.and_two_pow_sub_one_eq_mod x 3

theorem and_fifteen : x &&& 15 = x % 16 := Nat.and_two_pow_sub_one_eq_mod x 4

theorem and_thirtyOne : x &&& 31 = x % 32 := Nat.and_two_pow_sub_one_eq_mod x 5

theorem encodeLoop_zero (left : Nat) (bs : List UInt8) :
    encodeLoop 0 left bs = encodeLoop 0 0 bs := by
  cases bs <;> rfl

theorem decodeLoop_zero (left : Nat) (p : List UInt8) :
    decodeLoop 0 left p = decodeLoop 0 0 p := by
  cases p <;> rfl

theorem encode_block (b₀ b₁ b₂ b₃ b₄ : UInt8) (rest : List UInt8) :
    encodeBase32 (b₀ :: b₁ :: b₂ :: b₃ :: b₄ :: rest) =
      (quintets b₀.toNat b₁.toNat b₂.toNat b₃.toNat b₄.toNat).map pbase32 ++
        encodeBase32 rest := by
  have h₁ := b₁.toNat_lt
  have h₂ := b₂.toNat_lt
  have h₃ := b₃.toNat_lt
  have h₄ := b₄.toNat_lt
  simp only [encodeBase32, encodeLoop, quintets, map_cons, map_nil, cons_append,
    nil_append, Nat.shiftRight_eq_div_pow]
  rw [encodeLoop_zero _ rest, or_shift (by omega), or_shift (by omega), or_shift (by omega),
    or_shift (by omega)]
  simp only [and_one, and_three, and_seven, and_fifteen, and_thirtyOne, Nat.reducePow]

theorem decode_block {c₀ c₁ c₂ c₃ c₄ c₅ c₆ c₇ : UInt8} {q₀ q₁ q₂ q₃ q₄ q₅ q₆ q₇ : Nat}
    (h₀ : decode32 c₀ = some q₀) (h₁ : decode32 c₁ = some q₁) (h₂ : decode32 c₂ = some q₂)
    (h₃ : decode32 c₃ = some q₃) (h₄ : decode32 c₄ = some q₄) (h₅ : decode32 c₅ = some q₅)
    (h₆ : decode32 c₆ = some q₆) (h₇ : decode32 c₇ = some q₇) (rest : List UInt8) :
    decodeBase32 (c₀ :: c₁ :: c₂ :: c₃ :: c₄ :: c₅ :: c₆ :: c₇ :: rest) =
      (octets q₀ q₁ q₂ q₃ q₄ q₅ q₆ q₇).map ofNat ++ decodeBase32 rest := by
  have l₁ := (pbase32_of_decode32 h₁).1
  have l₂ := (pbase32_of_decode32 h₂).1
  have l₃ := (pbase32_of_decode32 h₃).1
  have l₄ := (pbase32_of_decode32 h₄).1
  have l₅ := (pbase32_of_decode32 h₅).1
  have l₆ := (pbase32_of_decode32 h₆).1
  have l₇ := (pbase32_of_decode32 h₇).1
  simp only [decodeBase32, decodeLoop, h₀, h₁, h₂, h₃, h₄, h₅, h₆, h₇, octets, map_cons,
    map_nil, cons_append, nil_append, Nat.shiftRight_eq_div_pow]
  rw [decodeLoop_zero _ rest, or_shift (by omega), or_shift (by omega), or_shift (by omega),
    or_shift (by omega), or_shift (by omega), or_shift (by omega), or_shift (by omega)]
  simp only [and_one, and_three, and_seven, and_fifteen, Nat.reducePow]

theorem decode_quintets (b₀ b₁ b₂ b₃ b₄ : UInt8) (rest : List UInt8) :
    decodeBase32 ((quintets b₀.toNat b₁.toNat b₂.toNat b₃.toNat b₄.toNat).map pbase32 ++ rest) =
      b₀ :: b₁ :: b₂ :: b₃ :: b₄ :: decodeBase32 rest := by
  have h₀ := b₀.toNat_lt
  have h₁ := b₁.toNat_lt
  have h₂ := b₂.toNat_lt
  have h₃ := b₃.toNat_lt
  have h₄ := b₄.toNat_lt
  simp only [quintets, map_cons, map_nil, cons_append, nil_append]
  rw [decode_block (decode32_pbase32 (by omega)) (decode32_pbase32 (by omega))
    (decode32_pbase32 (by omega)) (decode32_pbase32 (by omega)) (decode32_pbase32 (by omega))
    (decode32_pbase32 (by omega)) (decode32_pbase32 (by omega)) (decode32_pbase32 (by omega))]
  have hoctets : octets (b₀.toNat / 8) (b₀.toNat % 8 * 4 + b₁.toNat / 64) (b₁.toNat / 2 % 32)
      (b₁.toNat % 2 * 16 + b₂.toNat / 16) (b₂.toNat % 16 * 2 + b₃.toNat / 128)
      (b₃.toNat / 4 % 32) (b₃.toNat % 4 * 8 + b₄.toNat / 32) (b₄.toNat % 32) =
      [b₀.toNat, b₁.toNat, b₂.toNat, b₃.toNat, b₄.toNat] := by
    simp only [octets, cons.injEq, and_true]
    omega
  rw [hoctets]
  simp only [map_cons, map_nil, UInt8.ofNat_toNat, cons_append, nil_append]

theorem encode_octets {q₀ q₁ q₂ q₃ q₄ q₅ q₆ q₇ : Nat} (h₀ : q₀ < 32) (h₁ : q₁ < 32) (h₂ : q₂ < 32)
    (h₃ : q₃ < 32) (h₄ : q₄ < 32) (h₅ : q₅ < 32) (h₆ : q₆ < 32) (h₇ : q₇ < 32)
    (rest : List UInt8) :
    encodeBase32 ((octets q₀ q₁ q₂ q₃ q₄ q₅ q₆ q₇).map ofNat ++ rest) =
      [q₀, q₁, q₂, q₃, q₄, q₅, q₆, q₇].map pbase32 ++ encodeBase32 rest := by
  have hsmall {x : Nat} (hx : x < 256) : (ofNat x).toNat = x := by
    rw [toNat_ofNat', Nat.mod_eq_of_lt hx]
  simp only [octets, map_cons, map_nil, cons_append, nil_append]
  rw [encode_block, hsmall (by omega), hsmall (by omega), hsmall (by omega), hsmall (by omega),
    hsmall (by omega)]
  have hquintets : quintets (q₀ * 8 + q₁ / 4) ((q₁ % 4 * 32 + q₂) * 2 + q₃ / 16)
      (q₃ % 16 * 16 + q₄ / 2) ((q₄ % 2 * 32 + q₅) * 4 + q₆ / 8) (q₆ % 8 * 32 + q₇) =
      [q₀, q₁, q₂, q₃, q₄, q₅, q₆, q₇] := by
    simp only [quintets, cons.injEq, and_true]
    omega
  rw [hquintets]
  rfl

/-! ## §5. Ten bytes, and sixteen characters. -/

theorem decode_encode {v : List UInt8} (hv : v.length = 10) :
    decodeBase32 (encodeBase32 v) = v := by
  match v, hv with
  | [b₀, b₁, b₂, b₃, b₄, b₅, b₆, b₇, b₈, b₉], _ =>
    rw [encode_block, encode_block, decode_quintets, decode_quintets]
    rfl

def isBase32 : Bool := (decode32 c).isSome

/-- The bits that `left` holds. -/
def pendingBits : List Nat := [0, 5, 2, 7, 4, 1, 6, 3]

theorem decodeLoop_length {p : List UInt8} (hp : ∀ c ∈ p, isBase32 c = true) {mode : Nat}
    (hmode : mode < 8) (left : Nat) :
    (decodeLoop mode left p).length = (5 * p.length + pendingBits.getD mode 0) / 8 := by
  induction p generalizing mode left with
  | nil =>
    have : ∀ mode < 8, pendingBits.getD mode 0 / 8 = 0 := by decide
    simpa [decodeLoop] using (this mode hmode).symm
  | cons c p ih =>
    obtain ⟨dec, hdec⟩ := Option.isSome_iff_exists.mp (hp c mem_cons_self)
    have ih {mode : Nat} (hmode : mode < 8) (left : Nat) :=
      ih (fun c hc => hp c (mem_cons_of_mem _ hc)) hmode left
    match mode, hmode with
    | 0, _ | 1, _ | 2, _ | 3, _ | 4, _ | 5, _ | 6, _ | 7, _ =>
      simp only [decodeLoop, hdec, length_cons]
      rw [ih (by decide)]
      simp only [pendingBits, getD_cons_zero, getD_cons_succ]
      omega

theorem decodeLoop_takeWhile (mode left : Nat) (p : List UInt8) :
    decodeLoop mode left p = decodeLoop mode left (p.takeWhile isBase32) := by
  induction p generalizing mode left with
  | nil => rfl
  | cons c p ih =>
    rw [takeWhile_cons]
    cases hdec : decode32 c with
    | none =>
      rw [if_neg (by rw [isBase32, hdec]; exact Bool.false_ne_true)]
      simp only [decodeLoop, hdec]
    | some dec =>
      rw [if_pos (by rw [isBase32, hdec]; rfl)]
      simp only [decodeLoop, hdec]
      split <;> rw [ih]

/-- **Eight characters come back** in lower case. -/
theorem encode_decode_block {pre : List UInt8} (hlen : pre.length = 8)
    (hpre : ∀ c ∈ pre, isBase32 c = true) (rest : List UInt8) :
    ∃ bs : List UInt8, decodeBase32 (pre ++ rest) = bs ++ decodeBase32 rest ∧ bs.length = 5 ∧
      ∀ more, encodeBase32 (bs ++ more) = pre.map lower ++ encodeBase32 more := by
  match pre, hlen with
  | [c₀, c₁, c₂, c₃, c₄, c₅, c₆, c₇], _ =>
    have hsome {c : UInt8} (hc : c ∈ [c₀, c₁, c₂, c₃, c₄, c₅, c₆, c₇]) :
        ∃ q, decode32 c = some q := Option.isSome_iff_exists.mp (hpre c hc)
    obtain ⟨q₀, h₀⟩ := hsome (c := c₀) (by simp)
    obtain ⟨q₁, h₁⟩ := hsome (c := c₁) (by simp)
    obtain ⟨q₂, h₂⟩ := hsome (c := c₂) (by simp)
    obtain ⟨q₃, h₃⟩ := hsome (c := c₃) (by simp)
    obtain ⟨q₄, h₄⟩ := hsome (c := c₄) (by simp)
    obtain ⟨q₅, h₅⟩ := hsome (c := c₅) (by simp)
    obtain ⟨q₆, h₆⟩ := hsome (c := c₆) (by simp)
    obtain ⟨q₇, h₇⟩ := hsome (c := c₇) (by simp)
    obtain ⟨l₀, e₀⟩ := pbase32_of_decode32 h₀
    obtain ⟨l₁, e₁⟩ := pbase32_of_decode32 h₁
    obtain ⟨l₂, e₂⟩ := pbase32_of_decode32 h₂
    obtain ⟨l₃, e₃⟩ := pbase32_of_decode32 h₃
    obtain ⟨l₄, e₄⟩ := pbase32_of_decode32 h₄
    obtain ⟨l₅, e₅⟩ := pbase32_of_decode32 h₅
    obtain ⟨l₆, e₆⟩ := pbase32_of_decode32 h₆
    obtain ⟨l₇, e₇⟩ := pbase32_of_decode32 h₇
    refine ⟨(octets q₀ q₁ q₂ q₃ q₄ q₅ q₆ q₇).map ofNat,
      decode_block h₀ h₁ h₂ h₃ h₄ h₅ h₆ h₇ rest, rfl, fun more => ?_⟩
    rw [encode_octets l₀ l₁ l₂ l₃ l₄ l₅ l₆ l₇]
    simp only [map_cons, map_nil, e₀, e₁, e₂, e₃, e₄, e₅, e₆, e₇]

variable {name strName : List UInt8}

/-- **What ten bytes are decoded from**: they come back as sixteen characters, and what stands
behind those in the name is lost. -/
theorem encode_decode (hten : (decodeBase32 name).length = 10) :
    ∃ pre rest, name = pre ++ rest ∧ pre.length = 16 ∧ (∀ c ∈ pre, isBase32 c = true) ∧
      encodeBase32 (decodeBase32 name) = pre.map lower := by
  have hall : ∀ c ∈ name.takeWhile isBase32, isBase32 c = true := fun c hc => by
    have := all_takeWhile (p := isBase32) (l := name)
    exact all_eq_true.mp this c hc
  have hstop : decodeBase32 name = decodeBase32 (name.takeWhile isBase32) :=
    decodeLoop_takeWhile 0 0 name
  have hname := takeWhile_append_dropWhile (p := isBase32) (l := name)
  generalize name.takeWhile isBase32 = valid at hall hstop hname
  rw [hstop] at hten ⊢
  have hlen : (5 * valid.length + 0) / 8 = 10 := by
    rw [← hten]
    exact (decodeLoop_length hall (show 0 < 8 by decide) 0).symm
  -- two blocks, and at most one character more
  have hsplit : valid = valid.take 8 ++ ((valid.drop 8).take 8 ++ valid.drop 16) := by
    rw [show valid.drop 16 = (valid.drop 8).drop 8 by rw [drop_drop],
      take_append_drop, take_append_drop]
  have hmem {c : UInt8} {l : List UInt8} (hl : l ⊆ valid) (hc : c ∈ l) : isBase32 c = true :=
    hall c (hl hc)
  have h₁ : (valid.take 8).length = 8 := by
    rw [length_take]
    omega
  have h₂ : ((valid.drop 8).take 8).length = 8 := by
    rw [length_take, length_drop]
    omega
  have hsub₁ : valid.take 8 ⊆ valid := take_subset 8 valid
  have hsub₂ : (valid.drop 8).take 8 ⊆ valid :=
    fun c hc => drop_subset 8 valid (take_subset 8 _ hc)
  obtain ⟨bs₁, hdec₁, _, henc₁⟩ := encode_decode_block h₁ (fun c hc => hmem hsub₁ hc)
    ((valid.drop 8).take 8 ++ valid.drop 16)
  obtain ⟨bs₂, hdec₂, _, henc₂⟩ := encode_decode_block h₂ (fun c hc => hmem hsub₂ hc)
    (valid.drop 16)
  have hmore : decodeBase32 (valid.drop 16) = [] := by
    refine eq_nil_of_length_eq_zero ?_
    rw [decodeBase32, decodeLoop_length (fun c hc => hall c (mem_of_mem_drop hc)) (by decide),
      length_drop]
    show (5 * (valid.length - 16) + 0) / 8 = 0
    omega
  refine ⟨valid.take 8 ++ (valid.drop 8).take 8, valid.drop 16 ++ name.dropWhile isBase32, ?_,
    ?_, ?_, ?_⟩
  · rw [append_assoc, ← append_assoc ((valid.drop 8).take 8),
      ← append_assoc (valid.take 8), ← hsplit, hname]
  · rw [length_append, h₁, h₂]
  · intro c hc
    obtain hc | hc := mem_append.mp hc
    · exact hmem hsub₁ hc
    · exact hmem hsub₂ hc
  · have hdec : decodeBase32 valid = bs₁ ++ (bs₂ ++ []) := by
      conv => lhs; rw [hsplit]
      rw [hdec₁, hdec₂, hmore]
    rw [hdec, henc₁, henc₂, map_append]
    exact congrArg _ (append_nil _)

/-! ## §6. Bytes of an address. -/

theorem leBytes_eq_map (w n : Nat) :
    leBytes w n = (range w).map fun i => ofNat (n >>> (8 * i)) := by
  induction w generalizing n with
  | zero => rfl
  | succ w ih =>
    rw [leBytes, ih, range_succ_eq_map, map_cons, map_map]
    refine congrArg₂ _ rfl (map_congr_left fun i _ => ?_)
    show ofNat ((n / 256) >>> (8 * i)) = ofNat (n >>> (8 * (i + 1)))
    rw [show n / 256 = n >>> 8 from (Nat.shiftRight_eq_div_pow n 8).symm, ← Nat.shiftRight_add,
      Nat.mul_succ, Nat.add_comm]

variable (ip : CNetAddr)

theorem bytes_eq : ip.bytes = (leBytes 16 ip.toNat).reverse := by
  rw [leBytes_eq_map]
  rfl

@[simp] theorem bytes_length : ip.bytes.length = 16 := by
  rw [bytes_eq, length_reverse, leBytes_length]

theorem bytes_ofBytes {bs : List UInt8} (h : bs.length = 16) : (ofBytes bs).bytes = bs := by
  have hlt : ofLEBytes bs.reverse < 2 ^ 128 := by
    have := ofLEBytes_lt bs.reverse
    rwa [length_reverse, h] at this
  rw [bytes_eq, ofBytes, BitVec.toNat_ofNat, Nat.mod_eq_of_lt hlt,
    show 16 = bs.reverse.length by rw [length_reverse, h], leBytes_ofLEBytes,
    reverse_reverse]

theorem ofBytes_bytes : ofBytes ip.bytes = ip := by
  rw [ofBytes, bytes_eq, reverse_reverse, ofLEBytes_leBytes ip.isLt]
  rw [BitVec.ofNat_toNat, BitVec.setWidth_eq]

/-! ## §7. Names. -/

theorem endsIn_append (name suffix : List UInt8) : endsIn (name ++ suffix) suffix = true := by
  rw [endsIn, length_append, Nat.add_sub_cancel, drop_left]
  exact beq_self_eq_true suffix

theorem endsIn_iff {suffix : List UInt8} :
    endsIn strName suffix = true ↔ ∃ name, strName = name ++ suffix := by
  constructor
  · intro h
    refine ⟨strName.take (strName.length - suffix.length), ?_⟩
    conv => lhs; rw [← take_append_drop (strName.length - suffix.length) strName]
    rw [eq_of_beq h]
  · rintro ⟨name, rfl⟩
    exact endsIn_append name suffix

theorem not_endsIn_both (h : endsIn strName dotOnion = true) :
    endsIn strName dotI2P = false := by
  obtain ⟨name, rfl⟩ := endsIn_iff.mp h
  refine Bool.eq_false_iff.mpr fun h' => ?_
  obtain ⟨name', heq⟩ := endsIn_iff.mp h'
  have := congrArg getLast? heq
  simp [dotOnion, dotI2P] at this

variable {other : CNetAddr → List UInt8} {ip : CNetAddr}

theorem isI2P_eq_false_of_isTor (h : ip.isTor = true) : ip.isI2P = false := by
  refine Bool.eq_false_iff.mpr fun h' => ?_
  have h₁ := isPrefixOf_iff_prefix.mp h
  have h₂ := isPrefixOf_iff_prefix.mp h'
  have := prefix_of_prefix_length_le h₁ h₂ (by decide)
  exact absurd this (by decide)

theorem withPrefix_onion {vchAddr : List UInt8}
    (h : withPrefix pchOnionCat vchAddr = some ip) :
    vchAddr.length = 10 ∧ ip.bytes = pchOnionCat ++ vchAddr := by
  unfold withPrefix at h
  split at h
  next => cases h
  next hlen =>
    have hlen : vchAddr.length = 10 := not_not.mp hlen
    refine ⟨hlen, ?_⟩
    rw [← Option.some.inj h]
    exact bytes_ofBytes (by rw [length_append, hlen]; rfl)

theorem isTor_of_bytes {vchAddr : List UInt8} (h : ip.bytes = pchOnionCat ++ vchAddr) :
    ip.isTor = true := by
  rw [isTor, startsWith, h]
  exact isPrefixOf_iff_prefix.mpr (prefix_append _ _)

theorem setSpecial_onion (hname : name ≠ []) :
    setSpecial (name ++ dotOnion) = withPrefix pchOnionCat (decodeBase32 name) := by
  have hlen : (name ++ dotOnion).length - 6 = name.length := by
    rw [length_append]
    exact Nat.add_sub_cancel _ 6
  have hpos := length_pos_of_ne_nil hname
  have hlong : (name ++ dotOnion).length > 6 := by omega
  rw [setSpecial, endsIn_append, hlen, take_left, if_pos (by rw [decide_eq_true hlong]; rfl)]

/-- **A name of I2P**: it gets the prefix of Tor as well. -/
theorem setSpecial_i2p (hname : name ≠ []) :
    setSpecial (name ++ dotI2P) = withPrefix pchOnionCat (decodeBase32 name) := by
  have hlen : (name ++ dotI2P).length - 11 = name.length := by
    rw [length_append]
    exact Nat.add_sub_cancel _ 11
  have hpos := length_pos_of_ne_nil hname
  have hlong : (name ++ dotI2P).length > 11 := by omega
  have hnot : endsIn (name ++ dotI2P) dotOnion = false := by
    refine Bool.eq_false_iff.mpr fun h => ?_
    exact absurd (endsIn_append name dotI2P) (by rw [not_endsIn_both h]; exact Bool.false_ne_true)
  rw [setSpecial, hnot, Bool.and_false, if_neg Bool.false_ne_true, endsIn_append, hlen, take_left,
    if_pos (by rw [decide_eq_true hlong]; rfl)]

theorem setSpecial_eq_some (h : setSpecial strName = some ip) :
    ∃ name suffix, strName = name ++ suffix ∧ (suffix = dotOnion ∨ suffix = dotI2P) ∧
      (decodeBase32 name).length = 10 ∧
      ip.bytes = pchOnionCat ++ decodeBase32 name := by
  have hfound {suffix : List UInt8} (hends : endsIn strName suffix = true)
      (hset : withPrefix pchOnionCat
        (decodeBase32 (strName.take (strName.length - suffix.length))) = some ip) :
      ∃ name, strName = name ++ suffix ∧ (decodeBase32 name).length = 10 ∧
        ip.bytes = pchOnionCat ++ decodeBase32 name := by
    obtain ⟨name, rfl⟩ := endsIn_iff.mp hends
    rw [length_append, Nat.add_sub_cancel, take_left] at hset
    exact ⟨name, rfl, withPrefix_onion hset⟩
  unfold setSpecial at h
  split at h
  next hcond =>
    obtain ⟨name, hname, hrest⟩ := hfound (Bool.and_eq_true_iff.mp hcond).2 h
    exact ⟨name, dotOnion, hname, .inl rfl, hrest⟩
  next =>
    split at h
    next hcond =>
      obtain ⟨name, hname, hrest⟩ := hfound (Bool.and_eq_true_iff.mp hcond).2 h
      exact ⟨name, dotI2P, hname, .inr rfl, hrest⟩
    next => cases h

/-! ## §8. Round trips. -/

/-- The text of the address is accepted, and sets its bytes. -/
def AddrReturns (other : CNetAddr → List UInt8) (ip : CNetAddr) : Prop :=
  setSpecial (toStringIP other ip) = some ip

/-- The text is accepted for an address of its own network only, and that is written as the same
text up to case. -/
def TextReturns (other : CNetAddr → List UInt8) (strName : List UInt8) : Prop :=
  ∀ ip, setSpecial strName = some ip →
    (ip.isTor = true ↔ endsIn strName dotOnion = true) ∧
    (ip.isI2P = true ↔ endsIn strName dotI2P = true) ∧
    (toStringIP other ip).map lower = strName.map lower

/-- Sixteen characters of the alphabet in front of `.onion`. -/
def OnionText (strName : List UInt8) : Prop :=
  ∃ name, strName = name ++ dotOnion ∧ name.length = 16 ∧ ∀ c ∈ name, isBase32 c = true

theorem lower_lower : lower (lower c) = lower c := by
  have hall : ∀ n < 256, lower (lower (ofNat n)) = lower (ofNat n) := by
    decide +kernel
  have := hall c.toNat c.toNat_lt
  rwa [UInt8.ofNat_toNat] at this

theorem bytes_drop (ip : CNetAddr) : (ip.bytes.drop 6).length = 10 := by
  rw [length_drop, bytes_length]

theorem encode_ne_nil {v : List UInt8} (hv : v.length = 10) : encodeBase32 v ≠ [] := by
  intro h
  have := decode_encode hv
  rw [h] at this
  rw [← this] at hv
  cases hv

theorem addrReturns_of_isTor (h : ip.isTor = true) : AddrReturns other ip := by
  have hten := bytes_drop ip
  unfold AddrReturns toStringIP
  rw [if_pos h, setSpecial_onion (encode_ne_nil hten), decode_encode hten, withPrefix,
    if_neg (by rw [hten]; decide)]
  obtain ⟨rest, hrest⟩ := isPrefixOf_iff_prefix.mp h
  rw [← hrest, show (pchOnionCat ++ rest).drop 6 = rest from rfl, hrest,
    ofBytes_bytes]

variable (other) in
/-- **An address of I2P comes back as one of Tor.** -/
theorem isTor_of_isI2P (h : ip.isI2P = true) :
    ∃ ip', setSpecial (toStringIP other ip) = some ip' ∧ ip'.isTor = true := by
  have hten := bytes_drop ip
  have hnot : ip.isTor = false := Bool.eq_false_iff.mpr fun htor =>
    absurd h (by rw [isI2P_eq_false_of_isTor htor]; exact Bool.false_ne_true)
  refine ⟨ofBytes (pchOnionCat ++ ip.bytes.drop 6), ?_, ?_⟩
  · rw [toStringIP, if_neg (by rw [hnot]; exact Bool.false_ne_true), if_pos h,
      setSpecial_i2p (encode_ne_nil hten), decode_encode hten, withPrefix,
      if_neg (by rw [hten]; decide)]
  · exact isTor_of_bytes (bytes_ofBytes (by rw [length_append, hten]; rfl))

variable (other) in
theorem toStringIP_of_bytes (hten : (decodeBase32 name).length = 10)
    (hbytes : ip.bytes = pchOnionCat ++ decodeBase32 name) :
    ∃ pre rest, name = pre ++ rest ∧ pre.length = 16 ∧ (∀ c ∈ pre, isBase32 c = true) ∧
      toStringIP other ip = pre.map lower ++ dotOnion := by
  obtain ⟨pre, rest, hname, hlen, hall, henc⟩ := encode_decode hten
  refine ⟨pre, rest, hname, hlen, hall, ?_⟩
  rw [toStringIP, if_pos (isTor_of_bytes hbytes), hbytes,
    show (pchOnionCat ++ decodeBase32 name).drop 6 = decodeBase32 name from rfl,
    henc]

theorem textReturns_iff (hset : (setSpecial strName).isSome = true) :
    TextReturns other strName ↔ OnionText strName := by
  obtain ⟨ip, hip⟩ := Option.isSome_iff_exists.mp hset
  obtain ⟨name, suffix, rfl, hsuffix, hten, hbytes⟩ := setSpecial_eq_some hip
  have htor := isTor_of_bytes hbytes
  obtain ⟨pre, rest, rfl, hlen, hall, htext⟩ := toStringIP_of_bytes other hten hbytes
  constructor
  · intro h
    obtain ⟨hiff, -, hsame⟩ := h ip hip
    obtain rfl : suffix = dotOnion := by
      obtain rfl | rfl := hsuffix
      · rfl
      · exact absurd (endsIn_append (pre ++ rest) dotI2P)
          (by rw [not_endsIn_both (hiff.mp htor)]; exact Bool.false_ne_true)
    -- nothing may stand behind the sixteen characters
    rw [htext] at hsame
    have hrest := congrArg length hsame
    simp only [length_map, length_append] at hrest
    obtain rfl : rest = [] := eq_nil_of_length_eq_zero (by omega)
    rw [append_nil]
    exact ⟨pre, rfl, hlen, hall⟩
  · rintro ⟨name', hname', hlen', _⟩ ip' hip'
    obtain rfl := Option.some.inj (hip.symm.trans hip')
    have hends : endsIn (pre ++ rest ++ suffix) dotOnion = true := by
      rw [hname']
      exact endsIn_append name' dotOnion
    have hnot := not_endsIn_both hends
    obtain rfl : suffix = dotOnion := by
      obtain rfl | rfl := hsuffix
      · rfl
      · rw [endsIn_append] at hnot
        cases hnot
    have hrest := congrArg length (append_cancel_right hname')
    rw [length_append] at hrest
    obtain rfl : rest = [] := eq_nil_of_length_eq_zero (by omega)
    refine ⟨⟨fun _ => hends, fun _ => htor⟩, ?_, ?_⟩
    · rw [isI2P_eq_false_of_isTor htor, hnot]
    · rw [htext, append_nil, map_append, map_append, map_map]
      congr 1
      exact map_congr_left fun c _ => lower_lower c

/-- **Which addresses of hidden services, and which texts that are accepted, come back**: the
addresses of Tor, and the names of Tor with sixteen characters. -/
theorem special_roundTrip_iff (other : CNetAddr → List UInt8) :
    (∀ ip : CNetAddr, ip.isTor = true ∨ ip.isI2P = true →
      (AddrReturns other ip ↔ ip.isTor = true)) ∧
    ∀ strName, (setSpecial strName).isSome = true →
      (TextReturns other strName ↔ OnionText strName) := by
  refine ⟨fun ip hip => ⟨fun h => ?_, addrReturns_of_isTor⟩, fun _ => textReturns_iff⟩
  obtain htor | hi2p := hip
  · exact htor
  · obtain ⟨ip', hset, htor⟩ := isTor_of_isI2P other hi2p
    rw [AddrReturns, hset] at h
    rwa [← Option.some.inj h]

def zeroOnion : CNetAddr := ofBytes (pchOnionCat ++ replicate 10 0)

def zeroGarlic : CNetAddr := ofBytes (pchGarliCat ++ replicate 10 0)

/-- `AbcdefghijklmP27`, letters of both cases and digits -/
def sampleName : List UInt8 :=
  [65, 98, 99, 100, 101, 102, 103, 104, 105, 106, 107, 108, 109, 80, 50, 55]

/-- An address of Tor comes back through its text, and a name through its address. -/
theorem special_roundTrip_iff_tor :
    AddrReturns (fun _ => []) (ofBytes (pchOnionCat ++
        [1, 35, 69, 103, 137, 171, 205, 239, 254, 220])) ∧
      TextReturns (fun _ => []) (sampleName ++ dotOnion) := by
  obtain ⟨haddr, htext⟩ := special_roundTrip_iff fun _ => []
  refine ⟨(haddr _ (.inl (by decide +kernel))).mpr (by decide +kernel), ?_⟩
  exact (htext _ (by decide +kernel)).mpr ⟨sampleName, rfl, rfl, by decide +kernel⟩

/-- The address of I2P does not come back; the name of I2P with sixteen letters is taken for one of
Tor; and a name of Tor with something behind its sixteen letters is written without that. -/
theorem special_mixUp :
    (zeroGarlic.isI2P = true ∧ ¬ AddrReturns (fun _ => []) zeroGarlic) ∧
      (∃ ip, setSpecial (replicate 16 97 ++ dotI2P) = some ip ∧ ip.isTor = true ∧
        ip.isI2P = false) ∧
      (setSpecial (replicate 16 97 ++ 33 :: dotOnion)).isSome = true ∧
      ¬ TextReturns (fun _ => []) (replicate 16 97 ++ 33 :: dotOnion) := by
  refine ⟨⟨by decide +kernel, ?_⟩, ⟨zeroOnion, by decide +kernel, by decide +kernel,
    by decide +kernel⟩, by decide +kernel, fun h => ?_⟩
  · unfold AddrReturns
    decide +kernel
  · have hset : setSpecial (replicate 16 97 ++ 33 :: dotOnion) = some zeroOnion := by
      decide +kernel
    have hlength := congrArg length (h zeroOnion hset).2.2
    exact absurd hlength (by decide +kernel)

end Fantom.Net
