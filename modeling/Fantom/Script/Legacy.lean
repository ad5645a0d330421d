/-
  Fantom.Script.Legacy — The interpreter that blocks and the memory pool are checked with:
  `EvalScript` over `CBigNum`, and `VerifyScript` on top of it.

  * `Legacy.execOpcode` — the opcodes that check no signature,
  * `Legacy.execCheckSig`, `Legacy.execCheckMultiSig` — those that do,
  * `Legacy.evalInstruction`, `Legacy.evalScript`, `Legacy.verifyScript` — the loop and its callers.

  An exception inside the loop is caught and fails the script, like every `return false`.
-/
import Fantom.Script.Signature

namespace Fantom.Script.Legacy

open Core Chain Lib

/-! ## §1. Numbers. -/

def bnBool (b : Bool) : Int := if b then 1 else 0

/-- What a unary operation computes, unbounded. -/
def execUnary (op : UnaryOp) (bn : Int) : Int :=
  match op with
  | .OP_1ADD => bn + 1
  | .OP_1SUB => bn - 1
  | .OP_NEGATE => -bn
  | .OP_ABS => if bn < 0 then -bn else bn
  | .OP_NOT => bnBool (bn == 0)
  | .OP_0NOTEQUAL => bnBool (bn != 0)

/-- What a binary operation computes, unbounded. -/
def execBinary (op : BinaryOp) (bn1 bn2 : Int) : Int :=
  match op with
  | .OP_ADD => bn1 + bn2
  | .OP_SUB => bn1 - bn2
  | .OP_BOOLAND => bnBool (bn1 != 0 && bn2 != 0)
  | .OP_BOOLOR => bnBool (bn1 != 0 || bn2 != 0)
  | .OP_NUMEQUAL => bnBool (bn1 == bn2)
  | .OP_NUMEQUALVERIFY => bnBool (bn1 == bn2)
  | .OP_NUMNOTEQUAL => bnBool (bn1 != bn2)
  | .OP_LESSTHAN => bnBool (bn1 < bn2)
  | .OP_GREATERTHAN => bnBool (bn1 > bn2)
  | .OP_LESSTHANOREQUAL => bnBool (bn1 ≤ bn2)
  | .OP_GREATERTHANOREQUAL => bnBool (bn1 ≥ bn2)
  | .OP_MIN => if bn1 < bn2 then bn1 else bn2
  | .OP_MAX => if bn1 > bn2 then bn1 else bn2

def LOCKTIME_THRESHOLD : Int := 500000000

def checkLockTime (txTo : CTransaction) (nIn : Nat) (nLockTime : Int) : Bool :=
  let txLockTime : Int := txTo.nLockTime.toNat
  if !((txLockTime < LOCKTIME_THRESHOLD && nLockTime < LOCKTIME_THRESHOLD) ||
      (txLockTime ≥ LOCKTIME_THRESHOLD && nLockTime ≥ LOCKTIME_THRESHOLD)) then false
  else if nLockTime > txLockTime then false
  else
    match txTo.vin[nIn]? with
    | none => false
    | some txin => txin.nSequence != 0xffffffff

/-! ## §2. The operations without signatures. -/

/-- The operations that move the elements of the stack. -/
def execStack (op : StackOp) (stack : List Valtype) : Option (List Valtype) :=
  match op, stack with
  | .OP_2DROP, _ :: _ :: st => some st
  | .OP_2DUP, x2 :: x1 :: st => some (x2 :: x1 :: x2 :: x1 :: st)
  | .OP_3DUP, x3 :: x2 :: x1 :: st => some (x3 :: x2 :: x1 :: x3 :: x2 :: x1 :: st)
  | .OP_2OVER, x4 :: x3 :: x2 :: x1 :: st => some (x2 :: x1 :: x4 :: x3 :: x2 :: x1 :: st)
  | .OP_2ROT, x6 :: x5 :: x4 :: x3 :: x2 :: x1 :: st =>
    some (x2 :: x1 :: x6 :: x5 :: x4 :: x3 :: st)
  | .OP_2SWAP, x4 :: x3 :: x2 :: x1 :: st => some (x2 :: x1 :: x4 :: x3 :: st)
  | .OP_IFDUP, x :: st => some (if castToBool x then x :: x :: st else x :: st)
  | .OP_DROP, _ :: st => some st
  | .OP_DUP, x :: st => some (x :: x :: st)
  | .OP_NIP, x2 :: _ :: st => some (x2 :: st)
  | .OP_OVER, x2 :: x1 :: st => some (x1 :: x2 :: x1 :: st)
  | .OP_ROT, x3 :: x2 :: x1 :: st => some (x1 :: x3 :: x2 :: st)
  | .OP_SWAP, x2 :: x1 :: st => some (x1 :: x2 :: st)
  | .OP_TUCK, x2 :: x1 :: st => some (x2 :: x1 :: x2 :: st)
  | _, _ => none

/-- `OP_PICK`, and `OP_ROLL`, which takes the element out. -/
def execPick (fRoll : Bool) (stack : List Valtype) : Option (List Valtype) :=
  match stack with
  | top :: x :: st => do
    let n := CBigNum.getint (← castToBigNum top nDefaultMaxNumSize)
    if n < 0 ∨ n ≥ intSize (x :: st) then none
    let vch ← (x :: st)[n.toNat]?
    return vch :: (if fRoll then (x :: st).eraseIdx n.toNat else x :: st)
  | _ => none

/-- `OP_CHECKLOCKTIMEVERIFY`. -/
def execCheckLockTimeVerify (txTo : CTransaction) (nIn : Nat) (flags : UInt32)
    (s : EvalState) : Option EvalState :=
  if !hasFlag flags SCRIPT_VERIFY_CHECKLOCKTIMEVERIFY then
    if hasFlag flags SCRIPT_VERIFY_DISCOURAGE_UPGRADABLE_NOPS then none else some s
  else
    match s.stack with
    | [] => none
    | top :: _ => do
      let nLockTime ← castToBigNum top 5
      if nLockTime < 0 then none
      if !checkLockTime txTo nIn nLockTime then none
      return s

/-- The cases of the `switch` that read no signature.  `rest` is the script
behind the opcode. -/
def execOpcode (H : ScriptHashes) (txTo : CTransaction) (nIn : Nat) (flags : UInt32)
    (opcode : Opcode) (rest : CScript) (s : EvalState) : Option EvalState :=
  match opcode with
  | .number opcode => some { s with stack := CBigNum.getvch (smallNumber opcode) :: s.stack }
  | .OP_NOP => some s
  | .OP_CHECKLOCKTIMEVERIFY => execCheckLockTimeVerify txTo nIn flags s
  | .upgradableNop =>
    if hasFlag flags SCRIPT_VERIFY_DISCOURAGE_UPGRADABLE_NOPS then none else some s
  | .OP_IF | .OP_NOTIF =>
    if s.fExec then
      match s.stack with
      | [] => none
      | vch :: st =>
        let fValue := if opcode = .OP_NOTIF then !castToBool vch else castToBool vch
        some { s with stack := st, vfExec := fValue :: s.vfExec }
    else some { s with vfExec := false :: s.vfExec }
  | .OP_ELSE =>
    match s.vfExec with
    | [] => none
    | fValue :: vfExec => some { s with vfExec := (!fValue) :: vfExec }
  | .OP_ENDIF =>
    match s.vfExec with
    | [] => none
    | _ :: vfExec => some { s with vfExec }
  | .OP_VERIFY =>
    match s.stack with
    | [] => none
    | vch :: st => if castToBool vch then some { s with stack := st } else none
  | .OP_RETURN => none
  | .OP_TOALTSTACK =>
    match s.stack with
    | [] => none
    | vch :: st => some { s with stack := st, altstack := vch :: s.altstack }
  | .OP_FROMALTSTACK =>
    match s.altstack with
    | [] => none
    | vch :: altstack => some { s with stack := vch :: s.stack, altstack }
  | .stack op => (execStack op s.stack).map fun stack => { s with stack }
  | .OP_DEPTH => some { s with stack := CBigNum.getvch s.stack.length :: s.stack }
  | .OP_PICK => (execPick false s.stack).map fun stack => { s with stack }
  | .OP_ROLL => (execPick true s.stack).map fun stack => { s with stack }
  | .OP_SIZE =>
    match s.stack with
    | [] => none
    | vch :: st => some { s with stack := CBigNum.getvch vch.length :: vch :: st }
  | .OP_EQUAL =>
    match s.stack with
    | vch2 :: vch1 :: st => some { s with stack := vchBool (vch1 == vch2) :: st }
    | _ => none
  | .OP_EQUALVERIFY =>
    match s.stack with
    | vch2 :: vch1 :: st => if vch1 == vch2 then some { s with stack := st } else none
    | _ => none
  | .unary op =>
    match s.stack with
    | [] => none
    | vch :: st => do
      let bn ← castToBigNum vch nDefaultMaxNumSize
      return { s with stack := CBigNum.getvch (execUnary op bn) :: st }
  | .binary op =>
    match s.stack with
    | vch2 :: vch1 :: st => do
      let bn1 ← castToBigNum vch1 nDefaultMaxNumSize
      let bn2 ← castToBigNum vch2 nDefaultMaxNumSize
      let top := CBigNum.getvch (execBinary op bn1 bn2)
      if op = .OP_NUMEQUALVERIFY then
        if castToBool top then some { s with stack := st } else none
      else some { s with stack := top :: st }
    | _ => none
  | .OP_WITHIN =>
    match s.stack with
    | vch3 :: vch2 :: vch1 :: st => do
      let bn1 ← castToBigNum vch1 nDefaultMaxNumSize
      let bn2 ← castToBigNum vch2 nDefaultMaxNumSize
      let bn3 ← castToBigNum vch3 nDefaultMaxNumSize
      return { s with stack := vchBool (bn2 ≤ bn1 && bn1 < bn3) :: st }
    | _ => none
  | .hash op =>
    match s.stack with
    | [] => none
    | vch :: st => some { s with stack := H.vchHash op vch :: st }
  | .OP_CODESEPARATOR => some { s with pbegincodehash := rest }
  | _ => none

/-! ## §3. The operations with signatures. -/

def checkSignatureEncoding (vchSig : Valtype) (flags : UInt32) : Bool :=
  if hasFlag flags SCRIPT_VERIFY_ALLOW_EMPTY_SIG && vchSig.isEmpty then true
  else if !isLowDERSignature vchSig then false
  else if !hasFlag flags SCRIPT_VERIFY_FIX_HASHTYPE && !isDefinedHashtypeSignature vchSig then
    false
  else true

/-- `CheckSignatureEncoding(..) && CheckPubKeyEncoding(..)` -/
def checkEncodings (vchSig vchPubKey : Valtype) (flags : UInt32) : Bool :=
  checkSignatureEncoding vchSig flags && isCompressedOrUncompressedPubKey vchPubKey

variable (E : SigEnv) (txTo : CTransaction) (nIn : Nat) (nHashType : Int32) (flags : UInt32)

/-- One signature against one key: fails the script on a wrong encoding when
encodings are strict. -/
def checkOne (vchSig vchPubKey : Valtype) (scriptCode : CScript) :
    Cached (CSignatureCache E) Bool :=
  if hasFlag flags SCRIPT_VERIFY_STRICTENC && !checkEncodings vchSig vchPubKey flags then .fail
  else if checkEncodings vchSig vchPubKey flags then
    checkSig E vchSig vchPubKey scriptCode txTo nIn nHashType flags
  else .ok false

variable (fVerify : Bool)

variable (s : EvalState)

/-- What `OP_CHECKSIG` leaves, and `OP_CHECKSIGVERIFY`. -/
def pushSuccess (st : List Valtype) (fSuccess : Bool) : Cached (CSignatureCache E) EvalState :=
  if !fVerify then .ok { s with stack := vchBool fSuccess :: st }
  else if fSuccess then .ok { s with stack := st }
  else .fail

/-- `OP_CHECKSIG`, `OP_CHECKSIGVERIFY`. -/
def execCheckSig : Cached (CSignatureCache E) EvalState :=
  match s.stack with
  | vchPubKey :: vchSig :: st =>
    let scriptCode := CScript.findAndDelete s.pbegincodehash (CScript.push vchSig)
    (checkOne E txTo nIn nHashType flags vchSig vchPubKey scriptCode).bind
      (pushSuccess E fVerify s st)
  | _ => .fail

/-- The loop of `OP_CHECKMULTISIG`: the next signature against the next key, until
no signature or too few keys are left. -/
def multiSigLoop (scriptCode : CScript) :
    List Valtype → List Valtype → Cached (CSignatureCache E) Bool
  | _, [] => .ok true
  | [], _ :: _ => .ok false
  | vchPubKey :: keys, vchSig :: sigs =>
    (checkOne E txTo nIn nHashType flags vchSig vchPubKey scriptCode).bind fun fOk =>
      if (if fOk then sigs else vchSig :: sigs).length > keys.length then .ok false
      else multiSigLoop scriptCode keys (if fOk then sigs else vchSig :: sigs)

/-- The operands of `OP_CHECKMULTISIG`. -/
structure MultiSigArgs where
  nKeysCount : Nat
  keys : List Valtype
  sigs : List Valtype
  dummy : Valtype
  st : List Valtype

/-- `CastToBigNum(..).getint()`, within `0 .. nMax`. -/
def countArg (vch : Valtype) (nMax : Nat) : Option Nat := do
  let n := CBigNum.getint (← castToBigNum vch nDefaultMaxNumSize)
  if n < 0 ∨ n > nMax then none
  return n.toNat

variable (stack : List Valtype)

/-- The operands are read from the top: the number of keys, the keys, the number of
signatures, the signatures, and one element more. -/
def multiSigArgs (nOpCount : Nat) : Option MultiSigArgs := do
  if intSize stack < 1 then none
  let nKeysCount ← countArg (← stack[0]?) 20
  if nOpCount + nKeysCount > MAX_OPS then none
  if intSize stack < 2 + nKeysCount then none
  let nSigsCount ← countArg (← stack[1 + nKeysCount]?) nKeysCount
  if intSize stack < 3 + nKeysCount + nSigsCount then none
  let dummy ← stack[2 + nKeysCount + nSigsCount]?
  return {
    nKeysCount
    keys := (stack.drop 1).take nKeysCount
    sigs := (stack.drop (2 + nKeysCount)).take nSigsCount
    dummy
    st := stack.drop (3 + nKeysCount + nSigsCount) }

/-- `OP_CHECKMULTISIG`, `OP_CHECKMULTISIGVERIFY`. -/
def execCheckMultiSig : Cached (CSignatureCache E) EvalState :=
  (Cached.ofOption (multiSigArgs s.stack s.nOpCount)).bind fun args =>
    let scriptCode := args.sigs.foldl
      (fun scriptCode vchSig => CScript.findAndDelete scriptCode (CScript.push vchSig))
      s.pbegincodehash
    (multiSigLoop E txTo nIn nHashType flags scriptCode args.keys args.sigs).bind fun fSuccess =>
      if hasFlag flags SCRIPT_VERIFY_NULLDUMMY && !args.dummy.isEmpty then .fail
      else pushSuccess E fVerify { s with nOpCount := s.nOpCount + args.nKeysCount } args.st fSuccess

/-! ## §4. Running a script. -/

/-- The `switch`. -/
def exec (opcode : Opcode) (rest : CScript) (s : EvalState) :
    Cached (CSignatureCache E) EvalState :=
  match opcode with
  | .OP_CHECKSIG => execCheckSig E txTo nIn nHashType flags false s
  | .OP_CHECKSIGVERIFY => execCheckSig E txTo nIn nHashType flags true s
  | .OP_CHECKMULTISIG => execCheckMultiSig E txTo nIn nHashType flags false s
  | .OP_CHECKMULTISIGVERIFY => execCheckMultiSig E txTo nIn nHashType flags true s
  | _ => .ofOption (execOpcode E.scriptHashes txTo nIn flags opcode rest s)

variable (r : GetOpResult)

/-- What an instruction does that is not disabled: a push, an operation, or
nothing in a branch that is not taken. -/
def dispatch (s : EvalState) : Cached (CSignatureCache E) EvalState :=
  if s.fExec ∧ r.opcode ≤ OP_PUSHDATA4 then .ok { s with stack := r.data :: s.stack }
  else if s.fExec ∨ (OP_IF ≤ r.opcode ∧ r.opcode ≤ OP_ENDIF) then
    exec E txTo nIn nHashType flags (opcodeOf r.opcode) r.rest s
  else .ok s

/-- `++nOpCount` -/
def countOp (s : EvalState) : EvalState :=
  if r.opcode > OP_16 then { s with nOpCount := s.nOpCount + 1 } else s

/-- The body of the loop of `EvalScript`. -/
def evalInstruction (s : EvalState) : Cached (CSignatureCache E) EvalState :=
  if !r.ok then .fail
  else if r.data.length > MAX_SCRIPT_ELEMENT_SIZE then .fail
  else if r.opcode > OP_16 ∧ (countOp r s).nOpCount > MAX_OPS then .fail
  else if r.opcode ∈ disabledOpcodes then .fail
  else
    (dispatch E txTo nIn nHashType flags r (countOp r s)).bind fun s =>
      if s.stack.length + s.altstack.length > MAX_STACK then .fail else .ok s

def evalLoop : List GetOpResult → EvalState → Cached (CSignatureCache E) EvalState
  | [], s => .ok s
  | r :: rs, s => (evalInstruction E txTo nIn nHashType flags r s).bind (evalLoop rs)

/-- `EvalScript`: the final stack, if it returns true. -/
def evalScript (script : CScript) : Cached (CSignatureCache E) (List Valtype) :=
  if script.length > MAX_SCRIPT_SIZE then .fail
  else
    (evalLoop E txTo nIn nHashType flags (CScript.ops script) (.start stack script)).bind fun s =>
      if s.vfExec ≠ [] then .fail else .ok s.stack

/-- Whether the run of a script left true on top. -/
def topIsTrue : Cached (CSignatureCache E) Unit :=
  match stack with
  | [] => .fail
  | top :: _ => if castToBool top then .ok () else .fail

/-- `VerifyScript`, as a run that ends or fails.  The redeem script is the last
element that the first script left. -/
def verifyScriptRun (scriptSig scriptPubKey : CScript) : Cached (CSignatureCache E) Unit :=
  (evalScript E txTo nIn nHashType flags [] scriptSig).bind fun stackCopy =>
    (evalScript E txTo nIn nHashType flags stackCopy scriptPubKey).bind fun stack =>
      (topIsTrue E stack).bind fun _ =>
        if !CScript.isPayToScriptHash scriptPubKey then .ok ()
        else if !CScript.isPushOnly scriptSig then .fail
        else
          match stackCopy with
          | [] => .fail
          | pubKey2 :: stackCopy =>
            (evalScript E txTo nIn nHashType flags stackCopy pubKey2).bind (topIsTrue E)

def verifyScript (scriptSig scriptPubKey : CScript) (cache : CSignatureCache E) :
    Bool × CSignatureCache E :=
  let result := verifyScriptRun E txTo nIn nHashType flags scriptSig scriptPubKey cache
  (result.1.isSome, result.2)

end Fantom.Script.Legacy
