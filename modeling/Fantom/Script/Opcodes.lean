/-
  Fantom.Script.Opcodes — What the two script interpreters share: the operations an opcode stands
  for, the state of a run, the limits, and the truth value of a stack element.

  * `ScriptHashes` — the hash functions a script can call.

  Stacks are lists with the top first, and `vfExec` has its back first.
-/
import Fantom.Script.Number
import Fantom.Chain.ConnectBlock

namespace Fantom.Script

open Core Chain

/-! ## §1. Flags. -/

def SCRIPT_VERIFY_NONE : UInt32 := 0
def SCRIPT_VERIFY_P2SH : UInt32 := (1 : UInt32) <<< 0
def SCRIPT_VERIFY_DERSIG : UInt32 := (1 : UInt32) <<< 2
def SCRIPT_VERIFY_LOW_S : UInt32 := (1 : UInt32) <<< 3
def SCRIPT_VERIFY_SIGPUSHONLY : UInt32 := (1 : UInt32) <<< 5
def SCRIPT_VERIFY_MINIMALDATA : UInt32 := (1 : UInt32) <<< 6

/-- `flags & flag`, as a condition. -/
def hasFlag (flags flag : UInt32) : Bool := flags &&& flag != 0

/-! ## §2. Operations. -/

/-- The operations on one number. -/
inductive UnaryOp
  | OP_1ADD | OP_1SUB | OP_NEGATE | OP_ABS | OP_NOT | OP_0NOTEQUAL
deriving DecidableEq, Repr

/-- The operations on two numbers. -/
inductive BinaryOp
  | OP_ADD | OP_SUB | OP_BOOLAND | OP_BOOLOR | OP_NUMEQUAL | OP_NUMEQUALVERIFY
  | OP_NUMNOTEQUAL | OP_LESSTHAN | OP_GREATERTHAN | OP_LESSTHANOREQUAL
  | OP_GREATERTHANOREQUAL | OP_MIN | OP_MAX
deriving DecidableEq, Repr

/-- The operations that move the elements of the stack. -/
inductive StackOp
  | OP_2DROP | OP_2DUP | OP_3DUP | OP_2OVER | OP_2ROT | OP_2SWAP | OP_IFDUP | OP_DROP | OP_DUP
  | OP_NIP | OP_OVER | OP_ROT | OP_SWAP | OP_TUCK
deriving DecidableEq, Repr

inductive HashOp
  | OP_RIPEMD160 | OP_SHA1 | OP_SHA256 | OP_HASH160 | OP_HASH256
deriving DecidableEq, Repr

/-- The cases of `switch (opcode)`.  `OP_CHECKLOCKTIMEVERIFY` is `OP_NOP7`. -/
inductive Opcode
  /-- `OP_1NEGATE`, `OP_1 .. OP_16`, with the opcode itself. -/
  | number (opcode : UInt8)
  | OP_NOP
  | OP_CHECKLOCKTIMEVERIFY
  /-- `OP_NOP1 .. OP_NOP10` without `OP_NOP7`. -/
  | upgradableNop
  | OP_IF | OP_NOTIF | OP_ELSE | OP_ENDIF | OP_VERIFY | OP_RETURN
  | OP_TOALTSTACK | OP_FROMALTSTACK
  | stack (op : StackOp)
  | OP_DEPTH | OP_PICK | OP_ROLL | OP_SIZE | OP_EQUAL | OP_EQUALVERIFY
  | unary (op : UnaryOp)
  | binary (op : BinaryOp)
  | OP_WITHIN
  | hash (op : HashOp)
  | OP_CODESEPARATOR
  | OP_CHECKSIG | OP_CHECKSIGVERIFY | OP_CHECKMULTISIG | OP_CHECKMULTISIGVERIFY
  /-- `default`. -/
  | other
deriving DecidableEq, Repr

def OP_1NEGATE : UInt8 := 0x4f
def OP_IF : UInt8 := 0x63
def OP_ENDIF : UInt8 := 0x68
def OP_CODESEPARATOR : UInt8 := 0xab

/-- What a byte stands for. -/
def opcodeOf (opcode : UInt8) : Opcode :=
  match opcode.toNat with
  | 0x4f => .number opcode
  | 0x61 => .OP_NOP
  | 0x63 => .OP_IF
  | 0x64 => .OP_NOTIF
  | 0x67 => .OP_ELSE
  | 0x68 => .OP_ENDIF
  | 0x69 => .OP_VERIFY
  | 0x6a => .OP_RETURN
  | 0x6b => .OP_TOALTSTACK
  | 0x6c => .OP_FROMALTSTACK
  | 0x6d => .stack .OP_2DROP
  | 0x6e => .stack .OP_2DUP
  | 0x6f => .stack .OP_3DUP
  | 0x70 => .stack .OP_2OVER
  | 0x71 => .stack .OP_2ROT
  | 0x72 => .stack .OP_2SWAP
  | 0x73 => .stack .OP_IFDUP
  | 0x74 => .OP_DEPTH
  | 0x75 => .stack .OP_DROP
  | 0x76 => .stack .OP_DUP
  | 0x77 => .stack .OP_NIP
  | 0x78 => .stack .OP_OVER
  | 0x79 => .OP_PICK
  | 0x7a => .OP_ROLL
  | 0x7b => .stack .OP_ROT
  | 0x7c => .stack .OP_SWAP
  | 0x7d => .stack .OP_TUCK
  | 0x82 => .OP_SIZE
  | 0x87 => .OP_EQUAL
  | 0x88 => .OP_EQUALVERIFY
  | 0x8b => .unary .OP_1ADD
  | 0x8c => .unary .OP_1SUB
  | 0x8f => .unary .OP_NEGATE
  | 0x90 => .unary .OP_ABS
  | 0x91 => .unary .OP_NOT
  | 0x92 => .unary .OP_0NOTEQUAL
  | 0x93 => .binary .OP_ADD
  | 0x94 => .binary .OP_SUB
  | 0x9a => .binary .OP_BOOLAND
  | 0x9b => .binary .OP_BOOLOR
  | 0x9c => .binary .OP_NUMEQUAL
  | 0x9d => .binary .OP_NUMEQUALVERIFY
  | 0x9e => .binary .OP_NUMNOTEQUAL
  | 0x9f => .binary .OP_LESSTHAN
  | 0xa0 => .binary .OP_GREATERTHAN
  | 0xa1 => .binary .OP_LESSTHANOREQUAL
  | 0xa2 => .binary .OP_GREATERTHANOREQUAL
  | 0xa3 => .binary .OP_MIN
  | 0xa4 => .binary .OP_MAX
  | 0xa5 => .OP_WITHIN
  | 0xa6 => .hash .OP_RIPEMD160
  | 0xa7 => .hash .OP_SHA1
  | 0xa8 => .hash .OP_SHA256
  | 0xa9 => .hash .OP_HASH160
  | 0xaa => .hash .OP_HASH256
  | 0xab => .OP_CODESEPARATOR
  | 0xac => .OP_CHECKSIG
  | 0xad => .OP_CHECKSIGVERIFY
  | 0xae => .OP_CHECKMULTISIG
  | 0xaf => .OP_CHECKMULTISIGVERIFY
  | 0xb6 => .OP_CHECKLOCKTIMEVERIFY
  | n =>
    if 0x51 ≤ n ∧ n ≤ 0x60 then .number opcode
    else if 0xb0 ≤ n ∧ n ≤ 0xb9 then .upgradableNop
    else .other

/-- `(int)opcode - (int)(OP_1 - 1)` -/
def smallNumber (opcode : UInt8) : Int := (opcode.toNat : Int) - (OP_1.toNat - 1)

/-- The opcodes that fail a script also where they are not executed: `OP_CAT`,
`OP_SUBSTR`, `OP_LEFT`, `OP_RIGHT`, `OP_INVERT`, `OP_AND`, `OP_OR`, `OP_XOR`,
`OP_2MUL`, `OP_2DIV`, `OP_MUL`, `OP_DIV`, `OP_MOD`, `OP_LSHIFT`, `OP_RSHIFT`.
Their cases in the first interpreter are never reached. -/
def disabledOpcodes : List UInt8 :=
  [0x7e, 0x7f, 0x80, 0x81, 0x83, 0x84, 0x85, 0x86, 0x8d, 0x8e, 0x95, 0x96, 0x97, 0x98, 0x99]

/-! ## §3. The state of a run. -/

/-- The local variables of `EvalScript`.  `pbegincodehash` is the script from
there on. -/
structure EvalState where
  stack : List Valtype
  altstack : List Valtype
  vfExec : List Bool
  nOpCount : Nat
  pbegincodehash : CScript
deriving DecidableEq, Repr

/-- The state a run of `script` starts from. -/
def EvalState.start (stack : List Valtype) (script : CScript) : EvalState :=
  ⟨stack, [], [], 0, script⟩

/-- `!count(vfExec.begin(), vfExec.end(), false)` -/
def EvalState.fExec (s : EvalState) : Bool := s.vfExec.all id

/-- `(int)stack.size()` -/
def intSize (stack : List Valtype) : Int := (Int32.ofNat stack.length).toInt

def MAX_SCRIPT_SIZE : Nat := 10000
def MAX_SCRIPT_ELEMENT_SIZE : Nat := 520
def MAX_OPS : Nat := 201
def MAX_STACK : Nat := 1000

/-- `CastToBool`: false are zero and negative zero. -/
def castToBool : Valtype → Bool
  | [] => false
  | [b] => b != 0 && b != 0x80
  | b :: bs => b != 0 || castToBool bs

def vchFalse : Valtype := []
def vchTrue : Valtype := [1]

/-- `fSuccess ? vchTrue : vchFalse` -/
def vchBool (fSuccess : Bool) : Valtype := if fSuccess then vchTrue else vchFalse

/-! ## §4. Hashes of stack elements. -/

/-- The hash functions of an interpreter: those of OpenSSL in the first, the
classes of `crypto/` in the second. -/
structure ScriptHashes where
  ripemd160 : List UInt8 → UInt160
  sha1 : List UInt8 → UInt160
  sha256 : List UInt8 → UInt256
  hash160 : List UInt8 → UInt160
  hash256 : List UInt8 → UInt256

/-- What a hash operation puts in the place of `vch`. -/
def ScriptHashes.vchHash (H : ScriptHashes) (op : HashOp) (vch : Valtype) : Valtype :=
  match op with
  | .OP_RIPEMD160 => leBytes 20 (H.ripemd160 vch).toNat
  | .OP_SHA1 => leBytes 20 (H.sha1 vch).toNat
  | .OP_SHA256 => leBytes 32 (H.sha256 vch).toNat
  | .OP_HASH160 => leBytes 20 (H.hash160 vch).toNat
  | .OP_HASH256 => leBytes 32 (H.hash256 vch).toNat

theorem ScriptHashes.vchHash_length_le (H : ScriptHashes) (op : HashOp) (vch : Valtype) :
    (H.vchHash op vch).length ≤ 32 := by
  cases op <;> simp [vchHash]

end Fantom.Script
