/-
  Fantom.Script.Interpreter — The interpreter that Zerosend signatures are checked with:
  `EvalScript` over `CScriptNum`, with a `BaseSignatureChecker` and a `ScriptError` for every way to
  fail.

  * `execOpcode`, `execCheckSig`, `execCheckMultiSig`,
  * `evalInstruction`, `evalScript`.
-/
import Fantom.Script.Signature

namespace Fantom.Script

open Core Chain Lib

/-! ## §1. Errors and numbers. -/

/-- `ScriptError`, without `SCRIPT_ERR_OK`. -/
inductive ScriptError
  | UNKNOWN_ERROR | EVAL_FALSE | OP_RETURN
  | SCRIPT_SIZE | PUSH_SIZE | OP_COUNT | STACK_SIZE | SIG_COUNT | PUBKEY_COUNT
  | VERIFY | EQUALVERIFY | CHECKMULTISIGVERIFY | CHECKSIGVERIFY | NUMEQUALVERIFY
  | BAD_OPCODE | DISABLED_OPCODE | INVALID_STACK_OPERATION | INVALID_ALTSTACK_OPERATION
  | UNBALANCED_CONDITIONAL
  | SIG_HASHTYPE | SIG_DER | MINIMALDATA | SIG_PUSHONLY | SIG_HIGH_S | SIG_NULLDUMMY | PUBKEYTYPE
  | DISCOURAGE_UPGRADABLE_NOPS
deriving DecidableEq, Repr

/-- `CScriptNum(vch, fRequireMinimal)`; its exceptions end up as
`SCRIPT_ERR_UNKNOWN_ERROR`. -/
def scriptNum (vch : Valtype) (fRequireMinimal : Bool) : Except ScriptError CScriptNum :=
  required (CScriptNum.ofVch vch fRequireMinimal) .UNKNOWN_ERROR

def numBool (b : Bool) : CScriptNum := if b then 1 else 0

/-- An operand has four bytes, so the assertions of the operators hold. -/
def execUnary (op : UnaryOp) (bn : CScriptNum) : CScriptNum :=
  match op with
  | .OP_1ADD => bn + 1
  | .OP_1SUB => bn - 1
  | .OP_NEGATE => -bn
  | .OP_ABS => if bn < 0 then -bn else bn
  | .OP_NOT => numBool (bn == 0)
  | .OP_0NOTEQUAL => numBool (bn != 0)

/-- What a binary operation computes, in 64 bits. -/
def execBinary (op : BinaryOp) (bn1 bn2 : CScriptNum) : CScriptNum :=
  match op with
  | .OP_ADD => bn1 + bn2
  | .OP_SUB => bn1 - bn2
  | .OP_BOOLAND => numBool (bn1 != 0 && bn2 != 0)
  | .OP_BOOLOR => numBool (bn1 != 0 || bn2 != 0)
  | .OP_NUMEQUAL => numBool (bn1 == bn2)
  | .OP_NUMEQUALVERIFY => numBool (bn1 == bn2)
  | .OP_NUMNOTEQUAL => numBool (bn1 != bn2)
  | .OP_LESSTHAN => numBool (bn1 < bn2)
  | .OP_GREATERTHAN => numBool (bn1 > bn2)
  | .OP_LESSTHANOREQUAL => numBool (bn1 ≤ bn2)
  | .OP_GREATERTHANOREQUAL => numBool (bn1 ≥ bn2)
  | .OP_MIN => if bn1 < bn2 then bn1 else bn2
  | .OP_MAX => if bn1 > bn2 then bn1 else bn2

def checkMinimalPush (data : Valtype) (opcode : UInt8) : Bool :=
  match data with
  | [] => opcode == 0
  | [b] =>
    if 1 ≤ b ∧ b ≤ 16 then opcode == OP_1 + (b - 1)
    else if b = 0x81 then opcode == OP_1NEGATE
    else opcode == 1
  | data =>
    if data.length ≤ 75 then opcode.toNat == data.length
    else if data.length ≤ 255 then opcode == OP_PUSHDATA1
    else if data.length ≤ 65535 then opcode == OP_PUSHDATA2
    else true

/-! ## §2. The operations without signatures. -/

/-- The operations that move the elements of the stack. -/
def execStack (op : StackOp) (stack : List Valtype) : Except ScriptError (List Valtype) :=
  match op, stack with
  | .OP_2DROP, _ :: _ :: st => .ok st
  | .OP_2DUP, x2 :: x1 :: st => .ok (x2 :: x1 :: x2 :: x1 :: st)
  | .OP_3DUP, x3 :: x2 :: x1 :: st => .ok (x3 :: x2 :: x1 :: x3 :: x2 :: x1 :: st)
  | .OP_2OVER, x4 :: x3 :: x2 :: x1 :: st => .ok (x2 :: x1 :: x4 :: x3 :: x2 :: x1 :: st)
  | .OP_2ROT, x6 :: x5 :: x4 :: x3 :: x2 :: x1 :: st =>
    .ok (x2 :: x1 :: x6 :: x5 :: x4 :: x3 :: st)
  | .OP_2SWAP, x4 :: x3 :: x2 :: x1 :: st => .ok (x2 :: x1 :: x4 :: x3 :: st)
  | .OP_IFDUP, x :: st => .ok (if castToBool x then x :: x :: st else x :: st)
  | .OP_DROP, _ :: st => .ok st
  | .OP_DUP, x :: st => .ok (x :: x :: st)
  | .OP_NIP, x2 :: _ :: st => .ok (x2 :: st)
  | .OP_OVER, x2 :: x1 :: st => .ok (x1 :: x2 :: x1 :: st)
  | .OP_ROT, x3 :: x2 :: x1 :: st => .ok (x1 :: x3 :: x2 :: st)
  | .OP_SWAP, x2 :: x1 :: st => .ok (x1 :: x2 :: st)
  | .OP_TUCK, x2 :: x1 :: st => .ok (x2 :: x1 :: x2 :: st)
  | _, _ => .error .INVALID_STACK_OPERATION

/-- `OP_PICK`, and `OP_ROLL`, which takes the element out. -/
def execPick (fRequireMinimal fRoll : Bool) (stack : List Valtype) :
    Except ScriptError (List Valtype) :=
  match stack with
  | top :: x :: st => do
    let n := CScriptNum.getint (← scriptNum top fRequireMinimal)
    rejectIf (decide (n < 0) || decide (n ≥ intSize (x :: st))) .INVALID_STACK_OPERATION
    let vch ← required (x :: st)[n.toNat]? .UNKNOWN_ERROR
    return vch :: (if fRoll then (x :: st).eraseIdx n.toNat else x :: st)
  | _ => .error .INVALID_STACK_OPERATION

/-- The cases of the `switch` that read no signature.  `rest` is the script
behind the opcode. -/
def execOpcode (H : ScriptHashes) (flags : UInt32) (opcode : Opcode) (rest : CScript)
    (s : EvalState) : Except ScriptError EvalState :=
  let fRequireMinimal := hasFlag flags SCRIPT_VERIFY_MINIMALDATA
  match opcode with
  | .number opcode =>
    .ok { s with stack := CScriptNum.serialize (Int64.ofInt (smallNumber opcode)) :: s.stack }
  | .OP_NOP => .ok s
  | .OP_CHECKLOCKTIMEVERIFY | .upgradableNop =>
    if hasFlag flags SCRIPT_VERIFY_DISCOURAGE_UPGRADABLE_NOPS then
      .error .DISCOURAGE_UPGRADABLE_NOPS
    else .ok s
  | .OP_IF | .OP_NOTIF =>
    if s.fExec then
      match s.stack with
      | [] => .error .UNBALANCED_CONDITIONAL
      | vch :: st =>
        let fValue := if opcode = .OP_NOTIF then !castToBool vch else castToBool vch
        .ok { s with stack := st, vfExec := fValue :: s.vfExec }
    else .ok { s with vfExec := false :: s.vfExec }
  | .OP_ELSE =>
    match s.vfExec with
    | [] => .error .UNBALANCED_CONDITIONAL
    | fValue :: vfExec => .ok { s with vfExec := (!fValue) :: vfExec }
  | .OP_ENDIF =>
    match s.vfExec with
    | [] => .error .UNBALANCED_CONDITIONAL
    | _ :: vfExec => .ok { s with vfExec }
  | .OP_VERIFY =>
    match s.stack with
    | [] => .error .INVALID_STACK_OPERATION
    | vch :: st => if castToBool vch then .ok { s with stack := st } else .error .VERIFY
  | .OP_RETURN => .error .OP_RETURN
  | .OP_TOALTSTACK =>
    match s.stack with
    | [] => .error .INVALID_STACK_OPERATION
    | vch :: st => .ok { s with stack := st, altstack := vch :: s.altstack }
  | .OP_FROMALTSTACK =>
    match s.altstack with
    | [] => .error .INVALID_ALTSTACK_OPERATION
    | vch :: altstack => .ok { s with stack := vch :: s.stack, altstack }
  | .stack op => (execStack op s.stack).map fun stack => { s with stack }
  | .OP_DEPTH =>
    .ok { s with stack := CScriptNum.serialize (Int64.ofNat s.stack.length) :: s.stack }
  | .OP_PICK => (execPick fRequireMinimal false s.stack).map fun stack => { s with stack }
  | .OP_ROLL => (execPick fRequireMinimal true s.stack).map fun stack => { s with stack }
  | .OP_SIZE =>
    match s.stack with
    | [] => .error .INVALID_STACK_OPERATION
    | vch :: st =>
      .ok { s with stack := CScriptNum.serialize (Int64.ofNat vch.length) :: vch :: st }
  | .OP_EQUAL =>
    match s.stack with
    | vch2 :: vch1 :: st => .ok { s with stack := vchBool (vch1 == vch2) :: st }
    | _ => .error .INVALID_STACK_OPERATION
  | .OP_EQUALVERIFY =>
    match s.stack with
    | vch2 :: vch1 :: st =>
      if vch1 == vch2 then .ok { s with stack := st } else .error .EQUALVERIFY
    | _ => .error .INVALID_STACK_OPERATION
  | .unary op =>
    match s.stack with
    | [] => .error .INVALID_STACK_OPERATION
    | vch :: st => do
      let bn ← scriptNum vch fRequireMinimal
      return { s with stack := CScriptNum.serialize (execUnary op bn) :: st }
  | .binary op =>
    match s.stack with
    | vch2 :: vch1 :: st => do
      let bn1 ← scriptNum vch1 fRequireMinimal
      let bn2 ← scriptNum vch2 fRequireMinimal
      let top := CScriptNum.serialize (execBinary op bn1 bn2)
      if op = .OP_NUMEQUALVERIFY then
        if castToBool top then .ok { s with stack := st } else .error .NUMEQUALVERIFY
      else .ok { s with stack := top :: st }
    | _ => .error .INVALID_STACK_OPERATION
  | .OP_WITHIN =>
    match s.stack with
    | vch3 :: vch2 :: vch1 :: st => do
      let bn1 ← scriptNum vch1 fRequireMinimal
      let bn2 ← scriptNum vch2 fRequireMinimal
      let bn3 ← scriptNum vch3 fRequireMinimal
      return { s with stack := vchBool (bn2 ≤ bn1 && bn1 < bn3) :: st }
    | _ => .error .INVALID_STACK_OPERATION
  | .hash op =>
    match s.stack with
    | [] => .error .INVALID_STACK_OPERATION
    | vch :: st => .ok { s with stack := H.vchHash op vch :: st }
  | .OP_CODESEPARATOR => .ok { s with pbegincodehash := rest }
  | _ => .error .BAD_OPCODE

/-! ## §3. The operations with signatures. -/

/-- `CheckSig` of a signature checker. -/
abbrev SignatureChecker := Valtype → Valtype → CScript → Bool

def baseSignatureChecker : SignatureChecker := fun _ _ _ => false

/-- `IsLowDERSignature`. -/
def checkLowDERSignature (vchSig : Valtype) : Except ScriptError Unit := do
  rejectIf (!isDERSignature vchSig true) .SIG_DER
  rejectIf (!checkSignatureElement (sigElementS vchSig) true) .SIG_HIGH_S

def checkSignatureEncoding (vchSig : Valtype) (flags : UInt32) : Except ScriptError Unit := do
  rejectIf ((hasFlag flags SCRIPT_VERIFY_DERSIG || hasFlag flags SCRIPT_VERIFY_LOW_S ||
    hasFlag flags SCRIPT_VERIFY_STRICTENC) && !isDERSignature vchSig true) .SIG_DER
  if hasFlag flags SCRIPT_VERIFY_LOW_S then checkLowDERSignature vchSig
  rejectIf (hasFlag flags SCRIPT_VERIFY_STRICTENC && !isDefinedHashtypeSignature vchSig)
    .SIG_HASHTYPE

def checkPubKeyEncoding (vchPubKey : Valtype) (flags : UInt32) : Except ScriptError Unit :=
  rejectIf (hasFlag flags SCRIPT_VERIFY_STRICTENC && !isCompressedOrUncompressedPubKey vchPubKey)
    .PUBKEYTYPE

variable (H : ScriptHashes) (checker : SignatureChecker) (flags : UInt32)

def checkOne (vchSig vchPubKey : Valtype) (scriptCode : CScript) : Except ScriptError Bool := do
  checkSignatureEncoding vchSig flags
  checkPubKeyEncoding vchPubKey flags
  return checker vchSig vchPubKey scriptCode

variable (fVerify : Option ScriptError)

variable (s : EvalState)

/-- What a signature operation leaves; `fVerify` is the error of its verifying
kind. -/
def pushSuccess (st : List Valtype) (fSuccess : Bool) : Except ScriptError EvalState :=
  match fVerify with
  | none => .ok { s with stack := vchBool fSuccess :: st }
  | some e => if fSuccess then .ok { s with stack := st } else .error e

/-- `OP_CHECKSIG`, `OP_CHECKSIGVERIFY`. -/
def execCheckSig : Except ScriptError EvalState :=
  match s.stack with
  | vchPubKey :: vchSig :: st => do
    let scriptCode := CScript.findAndDelete s.pbegincodehash (CScript.push vchSig)
    let fSuccess ← checkOne checker flags vchSig vchPubKey scriptCode
    pushSuccess fVerify s st fSuccess
  | _ => .error .INVALID_STACK_OPERATION

/-- The loop of `OP_CHECKMULTISIG`. -/
def multiSigLoop (scriptCode : CScript) :
    List Valtype → List Valtype → Except ScriptError Bool
  | _, [] => .ok true
  | [], _ :: _ => .ok false
  | vchPubKey :: keys, vchSig :: sigs => do
    let fOk ← checkOne checker flags vchSig vchPubKey scriptCode
    if (if fOk then sigs else vchSig :: sigs).length > keys.length then return false
    multiSigLoop scriptCode keys (if fOk then sigs else vchSig :: sigs)

/-- A number of keys or signatures, within `0 .. nMax`. -/
def countArg (vch : Valtype) (nMax : Nat) (e : ScriptError) : Except ScriptError Nat := do
  let n := CScriptNum.getint (← scriptNum vch (hasFlag flags SCRIPT_VERIFY_MINIMALDATA))
  rejectIf (decide (n < 0) || decide (n > nMax)) e
  return n.toNat

/-- `OP_CHECKMULTISIG`, `OP_CHECKMULTISIGVERIFY`. -/
def execCheckMultiSig : Except ScriptError EvalState := do
  let stack := s.stack
  rejectIf (decide (intSize stack < 1)) .INVALID_STACK_OPERATION
  let nKeysCount ← countArg flags (← required stack[0]? .UNKNOWN_ERROR) 20 .PUBKEY_COUNT
  rejectIf (decide (s.nOpCount + nKeysCount > MAX_OPS)) .OP_COUNT
  rejectIf (decide (intSize stack < 2 + nKeysCount)) .INVALID_STACK_OPERATION
  let nSigsCount ←
    countArg flags (← required stack[1 + nKeysCount]? .UNKNOWN_ERROR) nKeysCount .SIG_COUNT
  rejectIf (decide (intSize stack < 3 + nKeysCount + nSigsCount)) .INVALID_STACK_OPERATION
  let sigs := (stack.drop (2 + nKeysCount)).take nSigsCount
  let scriptCode := sigs.foldl
    (fun scriptCode vchSig => CScript.findAndDelete scriptCode (CScript.push vchSig))
    s.pbegincodehash
  let fSuccess ← multiSigLoop checker flags scriptCode ((stack.drop 1).take nKeysCount) sigs
  let dummy ← required stack[2 + nKeysCount + nSigsCount]? .INVALID_STACK_OPERATION
  rejectIf (hasFlag flags SCRIPT_VERIFY_NULLDUMMY && !dummy.isEmpty) .SIG_NULLDUMMY
  pushSuccess fVerify { s with nOpCount := s.nOpCount + nKeysCount }
    (stack.drop (3 + nKeysCount + nSigsCount)) fSuccess

/-! ## §4. Running a script. -/

/-- The `switch`. -/
def exec (opcode : Opcode) (rest : CScript) (s : EvalState) : Except ScriptError EvalState :=
  match opcode with
  | .OP_CHECKSIG => execCheckSig checker flags none s
  | .OP_CHECKSIGVERIFY => execCheckSig checker flags (some .CHECKSIGVERIFY) s
  | .OP_CHECKMULTISIG => execCheckMultiSig checker flags none s
  | .OP_CHECKMULTISIGVERIFY => execCheckMultiSig checker flags (some .CHECKMULTISIGVERIFY) s
  | _ => execOpcode H flags opcode rest s

variable (r : GetOpResult)

/-- What an instruction does that is not disabled. -/
def dispatch (s : EvalState) : Except ScriptError EvalState :=
  if s.fExec ∧ r.opcode ≤ OP_PUSHDATA4 then do
    rejectIf (hasFlag flags SCRIPT_VERIFY_MINIMALDATA && !checkMinimalPush r.data r.opcode)
      .MINIMALDATA
    return { s with stack := r.data :: s.stack }
  else if s.fExec ∨ (OP_IF ≤ r.opcode ∧ r.opcode ≤ OP_ENDIF) then
    exec H checker flags (opcodeOf r.opcode) r.rest s
  else .ok s

/-- `++nOpCount`; `OP_RESERVED` does not count. -/
def countOp (s : EvalState) : EvalState :=
  if r.opcode > OP_16 then { s with nOpCount := s.nOpCount + 1 } else s

/-- The body of the loop of `EvalScript`. -/
def evalInstruction (s : EvalState) : Except ScriptError EvalState := do
  rejectIf (!r.ok) .BAD_OPCODE
  rejectIf (decide (r.data.length > MAX_SCRIPT_ELEMENT_SIZE)) .PUSH_SIZE
  rejectIf (decide (r.opcode > OP_16) && decide ((countOp r s).nOpCount > MAX_OPS)) .OP_COUNT
  rejectIf (decide (r.opcode ∈ disabledOpcodes)) .DISABLED_OPCODE
  let s ← dispatch H checker flags r (countOp r s)
  rejectIf (decide (s.stack.length + s.altstack.length > MAX_STACK)) .STACK_SIZE
  return s

/-- `EvalScript`: the final stack, or the error. -/
def evalScript (stack : List Valtype) (script : CScript) : Except ScriptError (List Valtype) := do
  rejectIf (decide (script.length > MAX_SCRIPT_SIZE)) .SCRIPT_SIZE
  let s ← (CScript.ops script).foldlM (fun s r => evalInstruction H checker flags r s)
    (.start stack script)
  rejectIf (!s.vfExec.isEmpty) .UNBALANCED_CONDITIONAL
  return s.stack

end Fantom.Script
