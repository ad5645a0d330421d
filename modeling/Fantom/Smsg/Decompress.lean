/-
  Fantom.Smsg.Decompress — `LZ4_decompress_safe`, with every access to memory.

  * `returns_decompress` — the function does, if there is a byte to begin with.

  Words have 8 bytes, and pointers do not wrap.  The input is `source` from 0 on, the output `dest`;
  both ends are computed from the sizes that are given, which may be negative.
-/
import Fantom.Core.Primitives
import Fantom.Lib.Memory

namespace Fantom.Smsg

open Core Lib Memory Int

/-! ## §1. Lengths. -/

def MINMATCH : Int := 4
def COPYLENGTH : Int := 8
def LASTLITERALS : Int := 5
def MFLIMIT : Int := COPYLENGTH + MINMATCH
def ML_BITS : Nat := 4
def ML_MASK : Nat := 15

/-- `sizeof(size_t)` -/
def STEPSIZE : Nat := 8

variable (source : List UInt8)

/-- `*ip` -/
def loadByte (ip : Int) : Except Abort Nat := do
  let bs ← load source ip 1
  return (bs.headD 0).toNat

/-- The bytes that are added to a length, up to one below 255 or to `stop`, with the rounds that
are left. -/
def addLengths (source : List UInt8) (stop : Int) :
    (left : Nat) → (ip length : Int) → Except Abort (Int × Int)
  | 0, _, _ => .error .endless
  | left + 1, ip, length =>
    if ip < stop then do
      let s ← loadByte source ip
      if s = 255 then addLengths source stop left (ip + 1) (length + s)
      else .ok (ip + 1, length + s)
    else .ok (ip, length)

/-- A length: the four bits of the token, and the bytes behind it where all four are set. -/
def readLength (stop ip : Int) (bits : Nat) : Except Abort (Int × Int) :=
  if bits = ML_MASK then addLengths source stop ((stop - ip).toNat + 1) ip bits
  else .ok (ip, bits)

/-! ## §2. The loop. -/

/-- `ip`, `op` and the output. -/
structure LZ4State where
  ip : Int
  op : Int
  dest : List UInt8

/-- What is returned, and the output then. -/
abbrev LZ4Result := Int × List UInt8

/-- `_output_error` -/
def outputError (ip : Int) (dest : List UInt8) : LZ4Result := (-ip - 1, dest)

def dec32table (i : Nat) : Int := [4 - 0, 4 - 3, 4 - 2, 4 - 3, 4 - 0, 4 - 0, 4 - 0, 4 - 0].getD i 0

def dec64table (i : Nat) : Int := [0, 0, 0, -1, 0, 1, 2, 3].getD i 0

/-- The first 8 bytes of a match: a word at once, or, where it is nearer than that, bytes one by
one and the rest from where they repeat. -/
def copyStart (op ref : Int) (dest : List UInt8) : Except Abort (Copied UInt8) :=
  if op - ref < STEPSIZE then do
    let near := (op - ref).toNat
    let dest ← copy id 1 op ref dest
    let dest ← copy id 1 (op + 1) (ref + 1) dest
    let dest ← copy id 1 (op + 2) (ref + 2) dest
    let dest ← copy id 1 (op + 3) (ref + 3) dest
    let ref := ref + dec32table near
    let dest ← copy id 4 (op + 4) ref dest
    return ⟨op + STEPSIZE, ref - dec64table near, dest⟩
  else do
    let dest ← copy id STEPSIZE op ref dest
    return ⟨op + STEPSIZE, ref + STEPSIZE, dest⟩

/-- `do LZ4_COPY8(d, s) while (d < e)` -/
def wildCopy (obj : List UInt8 → List UInt8) (e d s : Int) (dest : List UInt8) :
    Except Abort (Copied UInt8) :=
  copyUntil obj STEPSIZE e ((e - d).toNat + 1) d s dest

/-- `LZ4_SECURECOPY` -/
def secureCopy (e : Int) (c : Copied UInt8) : Except Abort (Copied UInt8) :=
  if c.d < e then wildCopy id e c.d c.s c.mem else .ok c

/-- `while (op < cpy) *op++ = *ref++` -/
def copyBytes (cpy : Int) (c : Copied UInt8) : Except Abort (Copied UInt8) :=
  if c.d < cpy then copyUntil id 1 cpy ((cpy - c.d).toNat + 1) c.d c.s c.mem else .ok c

/-- The rest of a match, up to `cpy`: words, and single bytes near the end. -/
def copyMatch (oend ip cpy : Int) (start : Copied UInt8) :
    Except Abort (LZ4State ⊕ LZ4Result) :=
  if cpy > oend - COPYLENGTH - (STEPSIZE - 4) then
    if cpy > oend - LASTLITERALS then .ok (.inr (outputError ip start.mem))
    else do
      let words ← secureCopy (oend - COPYLENGTH) start
      let bytes ← copyBytes cpy words
      return .inl ⟨ip, cpy, bytes.mem⟩
  else do
    let words ← wildCopy id cpy start.d start.s start.mem
    return .inl ⟨ip, cpy, words.mem⟩

/-- The part of a turn behind its literals: where the match is, how long it is, and the match. -/
def matchTurn (iend oend ip op : Int) (token : Nat) (dest : List UInt8) :
    Except Abort (LZ4State ⊕ LZ4Result) := do
  let offset ← load source ip 2
  let ref := op - ofLEBytes offset
  let ip := ip + 2
  if ref < 0 then .ok (.inr (outputError ip dest))
  else do
    let (ip, length) ← readLength source (iend - (LASTLITERALS + 1)) ip (token % 2 ^ ML_BITS)
    let start ← copyStart op ref dest
    copyMatch oend ip (start.d + length - (STEPSIZE - 4)) start

/-- The last literals: they end where the input does. -/
def lastLiterals (iend oend ip op length : Int) (dest : List UInt8) :
    Except Abort (LZ4State ⊕ LZ4Result) :=
  if ip + length ≠ iend ∨ op + length > oend then .ok (.inr (outputError ip dest))
  else do
    let dest ← copy (fun _ => source) length.toNat op ip dest
    return .inr (op + length, dest)

/-- One turn of the loop of `LZ4_decompress_generic`. -/
def lz4Turn (iend oend : Int) (st : LZ4State) : Except Abort (LZ4State ⊕ LZ4Result) := do
  let token ← loadByte source st.ip
  let (ip, length) ← readLength source iend (st.ip + 1) (token / 2 ^ ML_BITS)
  let cpy := st.op + length
  if cpy > oend - MFLIMIT ∨ ip + length > iend - (2 + 1 + LASTLITERALS) then
    lastLiterals source iend oend ip st.op length st.dest
  else do
    let literals ← wildCopy (fun _ => source) cpy st.op ip st.dest
    matchTurn source iend oend (literals.s - (literals.d - cpy)) cpy token literals.mem

def lz4Loop (source : List UInt8) (iend oend : Int) :
    (left : Nat) → LZ4State → Except Abort LZ4Result
  | 0, _ => .error .endless
  | left + 1, st => do
    match ← lz4Turn source iend oend st with
    | .inl st => lz4Loop source iend oend left st
    | .inr result => .ok result

/-- `LZ4_decompress_safe`, whose sizes are numbers of type `int`: what it returns, and the
output.  Every turn but the last takes a byte of the input. -/
def LZ4_decompress_safe (source dest : List UInt8) (inputSize maxOutputSize : Int) :
    Except Abort LZ4Result :=
  if maxOutputSize = 0 then
    if inputSize = 1 then do
      let first ← loadByte source 0
      return (if first = 0 then 0 else -1, dest)
    else .ok (-1, dest)
  else lz4Loop source inputSize maxOutputSize (inputSize.toNat + 1) ⟨0, 0, dest⟩

/-! ## §3. Where the parts stay inside. -/

variable {source dest : List UInt8} {iend oend ip op ref : Int}

theorem returns_loadByte (hip : 0 ≤ ip) (hlt : ip < source.length) :
    Returns (loadByte source ip) fun _ => True :=
  (returns_load hip (by omega)).bind fun _ _ => .ok trivial

theorem returns_addLengths {stop length : Int} {left : Nat} (hstop : stop ≤ source.length)
    (hip : 0 ≤ ip) (hlen : 0 ≤ length) (hleft : (stop - ip).toNat < left) :
    Returns (addLengths source stop left ip length) fun r =>
      ip ≤ r.1 ∧ (r.1 ≤ ip ∨ r.1 ≤ stop) ∧ 0 ≤ r.2 := by
  -- induction on the rounds that are left
  induction left generalizing ip length with
  | zero => omega
  | succ left ih =>
    rw [addLengths]
    split
    next hmore =>
      refine (returns_loadByte hip (by omega)).bind fun s _ => ?_
      split
      next =>
        refine (ih (by omega) (by omega) (by omega)).mono ?_
        rintro r ⟨hfar, hnear, hlong⟩
        exact ⟨by omega, by omega, hlong⟩
      next => exact .ok ⟨by omega, by omega, by omega⟩
    next => exact .ok ⟨by omega, by omega, hlen⟩

theorem returns_readLength {stop : Int} (hstop : stop ≤ source.length) (hip : 0 ≤ ip)
    (bits : Nat) :
    Returns (readLength source stop ip bits) fun r =>
      ip ≤ r.1 ∧ (r.1 ≤ ip ∨ r.1 ≤ stop) ∧ 0 ≤ r.2 := by
  unfold readLength
  split
  · exact returns_addLengths hstop hip (by omega) (by omega)
  · exact .ok ⟨by omega, by omega, by omega⟩

theorem tables_near : ∀ near < 8, 0 ≤ dec32table near ∧ dec32table near ≤ 4 ∧
    dec64table near ≤ dec32table near ∧ -1 ≤ dec64table near := by
  decide

/-- **The first 8 bytes of a match** are written at `op`, and what is copied next is before
it. -/
theorem returns_copyStart (href : 0 ≤ ref) (hop : ref ≤ op) (hroom : op + 8 ≤ dest.length) :
    Returns (copyStart op ref dest) fun r =>
      r.mem.length = dest.length ∧ r.d = op + 8 ∧ ref ≤ r.s ∧ r.s < r.d := by
  have hword : (STEPSIZE : Int) = 8 := rfl
  unfold copyStart
  split
  next hnear =>
    obtain ⟨hlow, hhigh, hback, hleast⟩ := tables_near (op - ref).toNat (by omega)
    refine (returns_copy (N := dest.length) rfl href (by omega) (by omega) (by omega)).bind
      fun dest₁ h₁ => ?_
    refine (returns_copy (N := dest.length) h₁ (by omega) (by omega) (by omega) (by omega)).bind
      fun dest₂ h₂ => ?_
    refine (returns_copy (N := dest.length) (h₂.trans h₁) (by omega) (by omega) (by omega)
      (by omega)).bind fun dest₃ h₃ => ?_
    refine (returns_copy (N := dest.length) (h₃.trans (h₂.trans h₁)) (by omega) (by omega)
      (by omega) (by omega)).bind fun dest₄ h₄ => ?_
    refine (returns_copy (N := dest.length) (h₄.trans (h₃.trans (h₂.trans h₁))) (by omega)
      (by omega) (by omega) (by omega)).bind fun dest₅ h₅ => ?_
    have hsize := h₅.trans (h₄.trans (h₃.trans (h₂.trans h₁)))
    refine .ok ⟨hsize, rfl, ?_, ?_⟩
    · show ref ≤ ref + dec32table _ - dec64table _
      omega
    · show ref + dec32table _ - dec64table _ < op + STEPSIZE
      omega
  next hfar =>
    refine (returns_copy (N := dest.length) rfl href (by omega) (by omega) (by omega)).bind
      fun dest₁ h₁ => ?_
    refine .ok ⟨h₁, rfl, ?_, ?_⟩
    · show ref ≤ ref + STEPSIZE
      omega
    · show ref + STEPSIZE < op + STEPSIZE
      omega

theorem returns_wildCopy {obj : List UInt8 → List UInt8} {N : Nat} {e d s : Int}
    (hN : ∀ mem : List UInt8, mem.length = dest.length → (obj mem).length = N) (hs : 0 ≤ s)
    (hsn : s + 8 ≤ N) (hse : s + (e - d) + 7 ≤ N) (hd : 0 ≤ d) (hdn : d + 8 ≤ dest.length)
    (hde : e + 7 ≤ dest.length) :
    Returns (wildCopy obj e d s dest) fun r =>
      r.mem.length = dest.length ∧ r.s - r.d = s - d ∧ d ≤ r.d := by
  have hword : (STEPSIZE : Int) = 8 := rfl
  exact returns_copyUntil (by decide) hN (by omega) hs (by omega) (by omega) hd (by omega)
    (by omega)

/-- A match that is before `op`, and the room for it: what is copied next is before `op`, too. -/
structure Behind (c : Copied UInt8) : Prop where
  s_nonneg : 0 ≤ c.s
  s_lt : c.s < c.d

theorem returns_secureCopy {e : Int} {c : Copied UInt8} (hc : Behind c)
    (hroom : e + 8 ≤ c.mem.length) :
    Returns (secureCopy e c) fun r => r.mem.length = c.mem.length ∧ Behind r := by
  obtain ⟨hs, hlt⟩ := hc
  unfold secureCopy
  split
  next hmore =>
    refine (returns_wildCopy (fun mem hmem => hmem) hs (by omega) (by omega) (by omega) (by omega)
      (by omega)).mono ?_
    rintro r ⟨hlen, hsame, hfar⟩
    exact ⟨hlen, ⟨by omega, by omega⟩⟩
  next => exact .ok ⟨rfl, ⟨hs, hlt⟩⟩

theorem returns_copyBytes {cpy : Int} {c : Copied UInt8} (hc : Behind c)
    (hroom : cpy ≤ c.mem.length) :
    Returns (copyBytes cpy c) fun r => r.mem.length = c.mem.length := by
  obtain ⟨hs, hlt⟩ := hc
  unfold copyBytes
  split
  next hmore =>
    refine (returns_copyUntil (N := c.mem.length) (by omega) (fun mem hmem => hmem) (by omega) hs
      (by omega) (by omega) (by omega) (by omega) (by omega)).mono ?_
    rintro r ⟨hlen, -, -⟩
    exact hlen
  next => exact .ok rfl

/-- What a turn keeps: a token to read next, and an output of its size.  The loop is left with
another number than -1. -/
def TurnKeeps (iend ip : Int) (size : Nat) : LZ4State ⊕ LZ4Result → Prop
  | .inl st => ip ≤ st.ip ∧ st.ip < iend ∧ 0 ≤ st.op ∧ st.dest.length = size
  | .inr result => result.1 ≠ -1 ∧ result.2.length = size

theorem turnKeeps_error {ip' : Int} (hip : 0 < ip) :
    TurnKeeps iend ip' dest.length (.inr (outputError ip dest)) := by
  refine ⟨?_, rfl⟩
  show -ip - 1 ≠ -1
  omega

/-- **The rest of a match** is written before the end of the output. -/
theorem returns_copyMatch {cpy : Int} {start : Copied UInt8} (hip : 0 < ip) (hend : ip < iend)
    (hstart : Behind start) (hcpy : 0 ≤ cpy) (hshort : start.d ≤ cpy + 4)
    (hroom : oend ≤ start.mem.length) :
    Returns (copyMatch oend ip cpy start) (TurnKeeps iend ip start.mem.length) := by
  have hword : (STEPSIZE : Int) = 8 := rfl
  have hcopy : COPYLENGTH = 8 := rfl
  have hlast : LASTLITERALS = 5 := rfl
  obtain ⟨hs, hlt⟩ := hstart
  unfold copyMatch
  split
  next hnear =>
    split
    next => exact .ok (turnKeeps_error hip)
    next =>
      refine (returns_secureCopy ⟨hs, hlt⟩ (by omega)).bind ?_
      rintro words ⟨hwords, hbehind⟩
      refine (returns_copyBytes hbehind (by omega)).bind fun bytes hbytes => ?_
      exact .ok ⟨le_refl ip, hend, hcpy, hbytes.trans hwords⟩
  next hfar =>
    refine (returns_wildCopy (fun mem hmem => hmem) hs (by omega) (by omega) (by omega) (by omega)
      (by omega)).bind ?_
    rintro words ⟨hwords, -, -⟩
    exact .ok ⟨le_refl ip, hend, hcpy, hwords⟩

theorem TurnKeeps.mono {ip' : Int} {size : Nat} {r : LZ4State ⊕ LZ4Result}
    (h : TurnKeeps iend ip size r) (hip : ip' ≤ ip) : TurnKeeps iend ip' size r := by
  cases r with
  | inl st =>
    obtain ⟨hfar, hnear, hop, hsize⟩ := h
    exact ⟨by omega, hnear, hop, hsize⟩
  | inr result => exact h

/-- Eight bytes of the input are left where a match is read, and as much of the output as a word
and the last literals need. -/
theorem returns_matchTurn (token : Nat) (hip : 0 ≤ ip) (hin : ip + 8 ≤ iend)
    (hiend : iend ≤ source.length) (hop : 0 ≤ op) (hout : op + 12 ≤ oend)
    (hoend : oend ≤ dest.length) :
    Returns (matchTurn source iend oend ip op token dest) (TurnKeeps iend ip dest.length) := by
  have hword : (STEPSIZE : Int) = 8 := rfl
  have hlast : LASTLITERALS = 5 := rfl
  unfold matchTurn
  refine (returns_load hip (by omega)).bind fun offset _ => ?_
  dsimp only
  split
  next => exact .ok (turnKeeps_error (by omega))
  next hbefore =>
    refine (returns_readLength (by omega) (by omega) _).bind ?_
    rintro ⟨ip', length⟩ ⟨hfar, hnear, hlong⟩
    dsimp only at hfar hnear hlong ⊢
    refine (returns_copyStart (by omega) (by omega) (by omega)).bind ?_
    rintro start ⟨hmem, hd, href, hlt⟩
    have hbehind : Behind start := ⟨by omega, hlt⟩
    have hmatch : Returns (copyMatch oend ip' (start.d + length - (STEPSIZE - 4)) start)
        (TurnKeeps iend ip' start.mem.length) :=
      returns_copyMatch (by omega) (by omega) hbehind (by omega) (by omega) (by omega)
    rw [hmem] at hmatch
    exact hmatch.mono fun r hr => hr.mono (by omega)

theorem returns_lastLiterals {length : Int} (hip : 0 < ip) (hlen : 0 ≤ length)
    (hiend : iend ≤ source.length) (hop : 0 ≤ op) (hoend : oend ≤ dest.length) :
    Returns (lastLiterals source iend oend ip op length dest) (TurnKeeps iend ip dest.length) := by
  unfold lastLiterals
  split
  next => exact .ok (turnKeeps_error hip)
  next hfits =>
    rw [not_or, not_not] at hfits
    refine (returns_copy (N := source.length) rfl (by omega) (by omega) hop (by omega)).bind
      fun dest' hdest => ?_
    refine .ok ⟨?_, hdest⟩
    show op + length ≠ -1
    omega

/-- **A turn stays inside**, if there is a token to read. -/
theorem returns_lz4Turn {st : LZ4State} (hip : 0 ≤ st.ip) (htoken : st.ip < source.length)
    (hiend : iend ≤ source.length) (hop : 0 ≤ st.op) (hoend : oend ≤ st.dest.length) :
    Returns (lz4Turn source iend oend st) (TurnKeeps iend (st.ip + 1) st.dest.length) := by
  have hlimit : MFLIMIT = 12 := rfl
  have hlast : LASTLITERALS = 5 := rfl
  unfold lz4Turn
  refine (returns_loadByte hip htoken).bind fun token _ => ?_
  refine (returns_readLength hiend (by omega) _).bind ?_
  rintro ⟨ip, length⟩ ⟨hfar, hnear, hlong⟩
  dsimp only at hfar hnear hlong ⊢
  split
  next =>
    refine (returns_lastLiterals (by omega) hlong hiend hop hoend).mono fun r hr => ?_
    exact hr.mono hfar
  next hmore =>
    -- the literals end 8 bytes before the input does, and 12 before the output
    rw [not_or] at hmore
    refine (returns_wildCopy (fun _ _ => rfl) (by omega) (by omega) (by omega) hop (by omega)
      (by omega)).bind ?_
    rintro literals ⟨hmem, hsame, -⟩
    have hnext : literals.s - (literals.d - (st.op + length)) = ip + length := by omega
    rw [hnext]
    refine (returns_matchTurn token (by omega) (by omega) hiend (by omega) (by omega)
      (by omega)).mono fun r hr => ?_
    rw [hmem] at hr
    exact hr.mono (by omega)

/-! ## §4. The function. -/

theorem returns_lz4Loop {left : Nat} {st : LZ4State} (hip : 0 ≤ st.ip)
    (htoken : st.ip < source.length) (hiend : iend ≤ source.length) (hop : 0 ≤ st.op)
    (hoend : oend ≤ st.dest.length) (hleft : (iend - st.ip).toNat < left) :
    Returns (lz4Loop source iend oend left st) fun r =>
      r.1 ≠ -1 ∧ r.2.length = st.dest.length := by
  -- induction on the turns that are left
  induction left generalizing st with
  | zero => omega
  | succ left ih =>
    refine (returns_lz4Turn hip htoken hiend hop hoend).bind ?_
    rintro (next | result) hturn
    · obtain ⟨hfar, hnear, hop', hsize⟩ := hturn
      refine (ih (by omega) (by omega) hop' (by omega) (by omega)).mono ?_
      rintro r ⟨herr, hlen⟩
      exact ⟨herr, hlen.trans hsize⟩
    · exact .ok hturn

/-- **`LZ4_decompress_safe` stays inside** for every input with a byte, and for any output that is
not smaller than it is told.  Where it is told another size than 0 it does not return -1. -/
theorem returns_decompress {inputSize maxOutputSize : Int} (hsource : 0 < source.length)
    (hin : inputSize ≤ source.length) (hout : maxOutputSize ≤ dest.length) :
    Returns (LZ4_decompress_safe source dest inputSize maxOutputSize) fun r =>
      (maxOutputSize ≠ 0 → r.1 ≠ -1) ∧ r.2.length = dest.length := by
  unfold LZ4_decompress_safe
  split
  next hnone =>
    split
    next =>
      refine (returns_loadByte (le_refl 0) (by omega)).bind fun first _ => ?_
      exact .ok ⟨fun hne => absurd hnone hne, rfl⟩
    next => exact .ok ⟨fun hne => absurd hnone hne, rfl⟩
  next =>
    have hfirst : (0 : Int) < source.length := by omega
    have hleft : (inputSize - 0).toNat < inputSize.toNat + 1 := by omega
    have hloop : Returns (lz4Loop source inputSize maxOutputSize (inputSize.toNat + 1) ⟨0, 0, dest⟩)
        fun r => r.1 ≠ -1 ∧ r.2.length = dest.length :=
      returns_lz4Loop (le_refl 0) hfirst hin (le_refl 0) hout hleft
    exact hloop.mono fun r hr => ⟨fun _ => hr.1, hr.2⟩

theorem decompress_nil {inputSize maxOutputSize : Int} (h : maxOutputSize ≠ 0) :
    LZ4_decompress_safe [] dest inputSize maxOutputSize = .error .dangling := by
  rw [LZ4_decompress_safe, if_neg h]
  rfl

end Fantom.Smsg
