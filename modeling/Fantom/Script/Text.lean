/-
  Fantom.Script.Text — The texts of scripts, outpoints and inputs, as they go into signed messages.

  * `TextChar`, `toText_textChar` — the characters of a script's text.
-/
import Fantom.InstantX.Model
import Fantom.Script.Number

namespace Fantom.Script

open Core Lib InstantX List

/-! ## §1. Script elements. -/

/-- `HexStr`: two lower case digits a byte. -/
def hexStr (vch : List UInt8) : List Char :=
  vch.flatMap fun val => [Nat.digitChar (val.toNat / 16), Nat.digitChar (val.toNat % 16)]

/-- `ValueString`.  Four bytes spell less than `2^31`, so `getint` cuts nothing
off. -/
def valueString (vch : Valtype) : List Char :=
  if vch.length ≤ 4 then decimal (CBigNum.setvch vch) else hexStr vch

/-- The names of `OP_NOP .. OP_NOP10`, from opcode `0x61` on. -/
def opNames : List String :=
  ["OP_NOP", "OP_VER", "OP_IF", "OP_NOTIF", "OP_VERIF", "OP_VERNOTIF", "OP_ELSE", "OP_ENDIF",
    "OP_VERIFY", "OP_RETURN",
    "OP_TOALTSTACK", "OP_FROMALTSTACK", "OP_2DROP", "OP_2DUP", "OP_3DUP", "OP_2OVER", "OP_2ROT",
    "OP_2SWAP", "OP_IFDUP", "OP_DEPTH", "OP_DROP", "OP_DUP", "OP_NIP", "OP_OVER", "OP_PICK",
    "OP_ROLL", "OP_ROT", "OP_SWAP", "OP_TUCK",
    "OP_CAT", "OP_SUBSTR", "OP_LEFT", "OP_RIGHT", "OP_SIZE",
    "OP_INVERT", "OP_AND", "OP_OR", "OP_XOR", "OP_EQUAL", "OP_EQUALVERIFY", "OP_RESERVED1",
    "OP_RESERVED2",
    "OP_1ADD", "OP_1SUB", "OP_2MUL", "OP_2DIV", "OP_NEGATE", "OP_ABS", "OP_NOT", "OP_0NOTEQUAL",
    "OP_ADD", "OP_SUB", "OP_MUL", "OP_DIV", "OP_MOD", "OP_LSHIFT", "OP_RSHIFT", "OP_BOOLAND",
    "OP_BOOLOR", "OP_NUMEQUAL", "OP_NUMEQUALVERIFY", "OP_NUMNOTEQUAL", "OP_LESSTHAN",
    "OP_GREATERTHAN", "OP_LESSTHANOREQUAL", "OP_GREATERTHANOREQUAL", "OP_MIN", "OP_MAX",
    "OP_WITHIN",
    "OP_RIPEMD160", "OP_SHA1", "OP_SHA256", "OP_HASH160", "OP_HASH256", "OP_CODESEPARATOR",
    "OP_CHECKSIG", "OP_CHECKSIGVERIFY", "OP_CHECKMULTISIG", "OP_CHECKMULTISIGVERIFY",
    "OP_NOP1", "OP_NOP2", "OP_NOP3", "OP_NOP4", "OP_NOP5", "OP_NOP6", "OP_NOP7", "OP_NOP8",
    "OP_NOP9", "OP_NOP10"]

/-- `GetOpName`, on the opcodes above `OP_PUSHDATA4`. -/
def getOpName (opcode : UInt8) : List Char :=
  if opcode = 0x4f then ['-', '1']
  else if opcode = 0x50 then "OP_RESERVED".toList
  else if OP_1 ≤ opcode ∧ opcode ≤ OP_16 then decimal (opcode - 0x50).toNat
  else if opcode = OP_INVALIDOPCODE then "OP_INVALIDOPCODE".toList
  else ((opNames[opcode.toNat - 0x61]?).getD "OP_UNKNOWN").toList

-- the first and the last names of the parts of the table
example :
    ([0x61, 0x6a, 0x6b, 0x7d, 0x7e, 0x82, 0x83, 0x8a, 0x8b, 0xa5, 0xa6, 0xaf, 0xb0, 0xb9, 0xba].map
      getOpName) =
    (["OP_NOP", "OP_RETURN", "OP_TOALTSTACK", "OP_TUCK", "OP_CAT", "OP_SIZE", "OP_INVERT",
      "OP_RESERVED2", "OP_1ADD", "OP_WITHIN", "OP_RIPEMD160", "OP_CHECKMULTISIGVERIFY", "OP_NOP1",
      "OP_NOP10", "OP_UNKNOWN"].map String.toList) := by
  decide +kernel

/-! ## §2. `ToString`. -/

/-- The loop of `CScript::ToString`. -/
def toTextLoop : List Char → List GetOpResult → List Char
  | str, [] => str
  | str, r :: rs =>
    let str := if str.isEmpty then str else str ++ [' ']
    if !r.ok then str ++ "[error]".toList
    else
      toTextLoop (str ++ (if r.opcode ≤ OP_PUSHDATA4 then valueString r.data
        else getOpName r.opcode)) rs

/-- `CScript::ToString`. -/
def CScript.toText (script : CScript) : List Char := toTextLoop [] (CScript.ops script)

/-- `COutPoint::ToString`. -/
def COutPoint.toText (o : COutPoint) : List Char :=
  "COutPoint(".toList ++ (hexString o.hash).take 10 ++ ", ".toList ++ decimal o.n.toNat ++ [')']

/-- `CTxIn::ToString`. -/
def CTxIn.toText (txin : CTxIn) : List Char :=
  "CTxIn(".toList ++ COutPoint.toText txin.prevout ++
    (if txin.prevout.isNull then ", coinbase ".toList ++ hexStr txin.scriptSig
     else ", scriptSig=".toList ++ (CScript.toText txin.scriptSig).take 24) ++
    (if txin.nSequence ≠ 0xffffffff then ", nSequence=".toList ++ decimal txin.nSequence.toNat
     else []) ++ [')']

example :
    CTxIn.toText ⟨⟨0xab, 3⟩, [OP_1, 2, 0x10, 0x27, OP_CHECKSIG, 5, 1], [], 7⟩ =
      "CTxIn(COutPoint(0000000000, 3), scriptSig=1 10000 OP_CHECKSIG [err, nSequence=7)".toList := by
  decide +kernel

/-! ## §3. Their characters. -/

/-- A printed character of ASCII, and no closing parenthesis. -/
def TextChar (c : Char) : Prop := 32 ≤ c.toNat ∧ c.toNat < 128 ∧ c ≠ ')'

instance (c : Char) : Decidable (TextChar c) := by
  unfold TextChar
  infer_instance

/-- A text is decided by its own characters, not over the type of all of them. -/
instance (t : List Char) : Decidable (∀ c ∈ t, TextChar c) := decidableBAll _ t

theorem decimal_textChar (n : Int) : ∀ c ∈ decimal n, TextChar c := by
  have hdigits (m : Nat) : ∀ c ∈ Nat.toDigits 10 m, TextChar c := by
    intro c hc
    have hd := Nat.isDigit_of_mem_toDigits (by omega) (by omega) hc
    obtain ⟨h0, h9⟩ := Char.isDigit_iff_toNat.mp hd
    rw [show '0'.toNat = 48 from rfl] at h0
    rw [show '9'.toNat = 57 from rfl] at h9
    refine ⟨by omega, by omega, ?_⟩
    rintro rfl
    exact absurd h0 (by decide)
  cases n with
  | ofNat m => exact hdigits m
  | negSucc m =>
    intro c hc
    rcases mem_cons.mp hc with rfl | hc
    · decide
    · exact hdigits (m + 1) c hc

theorem digitChar_textChar : ∀ n < 16, TextChar (Nat.digitChar n) := by decide

theorem hexStr_textChar (vch : List UInt8) : ∀ c ∈ hexStr vch, TextChar c := by
  intro c hc
  obtain ⟨val, _, hval⟩ := mem_flatMap.mp hc
  have hlt := val.toNat_lt
  simp only [mem_cons, not_mem_nil, or_false] at hval
  rcases hval with rfl | rfl
  · exact digitChar_textChar _ (by omega)
  · exact digitChar_textChar _ (Nat.mod_lt _ (by omega))

theorem getOpName_textChar (opcode : UInt8) : ∀ c ∈ getOpName opcode, TextChar c := by
  have hnames : ∀ name ∈ "OP_UNKNOWN" :: opNames, ∀ c ∈ name.toList, TextChar c := by
    decide +kernel
  unfold getOpName
  split
  · decide
  split
  · decide
  split
  · exact decimal_textChar _
  split
  · decide
  · cases hname : opNames[opcode.toNat - 0x61]? with
    | none => exact hnames _ mem_cons_self
    | some name => exact hnames name (mem_cons_of_mem _ (mem_of_getElem? hname))

theorem toTextLoop_textChar (str : List Char) (rs : List GetOpResult)
    (h : ∀ c ∈ str, TextChar c) : ∀ c ∈ toTextLoop str rs, TextChar c := by
  induction rs generalizing str with
  | nil => exact h
  | cons r rs ih =>
    have hspaced : ∀ c ∈ if str.isEmpty then str else str ++ [' '], TextChar c := by
      split
      · exact h
      · exact forall_mem_append.mpr ⟨h, forall_mem_singleton.mpr (by decide)⟩
    have happend (more : List Char) (hmore : ∀ c ∈ more, TextChar c) :
        ∀ c ∈ (if str.isEmpty then str else str ++ [' ']) ++ more, TextChar c :=
      fun c hc => (mem_append.mp hc).elim (hspaced c) (hmore c)
    unfold toTextLoop
    dsimp only
    split
    · exact happend _ (by decide)
    · refine ih _ (happend _ ?_)
      split
      · unfold valueString
        split
        · exact decimal_textChar _
        · exact hexStr_textChar _
      · exact getOpName_textChar _

theorem toText_textChar (script : CScript) : ∀ c ∈ CScript.toText script, TextChar c :=
  toTextLoop_textChar [] _ (forall_mem_nil _)

theorem hexString_textChar (h : UInt256) : ∀ c ∈ hexString h, TextChar c := by
  intro c hc
  obtain ⟨i, _, rfl⟩ := mem_map.mp hc
  exact digitChar_textChar _ (Nat.mod_lt _ (by omega))

theorem hexString_length (h : UInt256) : (hexString h).length = 64 := by
  rw [hexString, length_map, length_reverse, length_range]

end Fantom.Script
