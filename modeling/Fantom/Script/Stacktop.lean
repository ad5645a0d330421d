/-
  Fantom.Script.Stacktop — `EvalScript` over `CBigNum` with its accesses to the stacks one by one:
  `stacktop(-i)`, `popstack`, and the iterators that it erases and inserts at.

  * `evalInstruction_eq` — no access is below the bottom, and what is computed is what
    `Legacy.evalInstruction` says.

  `return false` and an exception that the loop catches are `Stop.fails`.
-/
import Fantom.Lib.CheckedStack
import Fantom.Script.Legacy

namespace Fantom.Script.Stacktop

open Core Chain Lib Lib.CheckedStack List Option

/-! ## §1. The operations on the stack alone. -/

/-- `if (stack.size() < n) return false;` -/
def sizeAtLeast {α : Type} (n : Nat) (stack : List α) : Except Stop Unit :=
  rejectIf (stack.length < n) .fails

/-- `CastToBigNum`, whose exception is caught. -/
def castToBigNum (vch : Valtype) (nMaxNumSize : Nat) : Except Stop Int :=
  required (Script.castToBigNum vch nMaxNumSize) .fails

/-- The operations that move the elements of the stack. -/
def execStack (op : StackOp) (stack : List Valtype) : Except Stop (List Valtype) :=
  match op with
  | .OP_2DROP => do
    sizeAtLeast 2 stack
    let stack ← pop stack
    pop stack
  | .OP_2DUP => do
    sizeAtLeast 2 stack
    let vch1 ← top 2 stack
    let vch2 ← top 1 stack
    return vch2 :: vch1 :: stack
  | .OP_3DUP => do
    sizeAtLeast 3 stack
    let vch1 ← top 3 stack
    let vch2 ← top 2 stack
    let vch3 ← top 1 stack
    return vch3 :: vch2 :: vch1 :: stack
  | .OP_2OVER => do
    sizeAtLeast 4 stack
    let vch1 ← top 4 stack
    let vch2 ← top 3 stack
    return vch2 :: vch1 :: stack
  | .OP_2ROT => do
    sizeAtLeast 6 stack
    let vch1 ← top 6 stack
    let vch2 ← top 5 stack
    let stack ← eraseTop 6 2 stack
    return vch2 :: vch1 :: stack
  | .OP_2SWAP => do
    sizeAtLeast 4 stack
    let stack ← swapTop 4 2 stack
    swapTop 3 1 stack
  | .OP_IFDUP => do
    sizeAtLeast 1 stack
    let vch ← top 1 stack
    return if castToBool vch then vch :: stack else stack
  | .OP_DROP => do
    sizeAtLeast 1 stack
    pop stack
  | .OP_DUP => do
    sizeAtLeast 1 stack
    let vch ← top 1 stack
    return vch :: stack
  | .OP_NIP => do
    sizeAtLeast 2 stack
    eraseTop 2 1 stack
  | .OP_OVER => do
    sizeAtLeast 2 stack
    let vch ← top 2 stack
    return vch :: stack
  | .OP_ROT => do
    sizeAtLeast 3 stack
    let stack ← swapTop 3 2 stack
    swapTop 2 1 stack
  | .OP_SWAP => do
    sizeAtLeast 2 stack
    swapTop 2 1 stack
  | .OP_TUCK => do
    sizeAtLeast 2 stack
    let vch ← top 1 stack
    insertTop 2 vch stack

/-- `OP_PICK`, `OP_ROLL`. -/
def execPick (fRoll : Bool) (stack : List Valtype) : Except Stop (List Valtype) := do
  sizeAtLeast 2 stack
  let vchN ← top 1 stack
  let n := CBigNum.getint (← castToBigNum vchN nDefaultMaxNumSize)
  let stack ← pop stack
  rejectIf (n < 0 ∨ n ≥ intSize stack) .fails
  let vch ← top (n.toNat + 1) stack
  let stack ← if fRoll then eraseTop (n.toNat + 1) 1 stack else .ok stack
  return vch :: stack

@[simp] theorem sizeAtLeast_zero {α : Type} (stack : List α) : sizeAtLeast 0 stack = .ok () := by
  rw [sizeAtLeast, decide_eq_false (Nat.not_lt_zero _), rejectIf_false]

@[simp] theorem sizeAtLeast_nil {α : Type} (n : Nat) :
    sizeAtLeast (n + 1) ([] : List α) = .error .fails := by
  unfold sizeAtLeast
  rw [decide_eq_true (show ([] : List α).length < n + 1 from Nat.succ_pos n), rejectIf_true]

@[simp] theorem sizeAtLeast_cons {α : Type} (n : Nat) (a : α) (st : List α) :
    sizeAtLeast (n + 1) (a :: st) = sizeAtLeast n st := by
  unfold sizeAtLeast
  rw [length_cons]
  simp only [Nat.add_lt_add_iff_right]

theorem execStack_eq (op : StackOp) (stack : List Valtype) :
    execStack op stack = required (Legacy.execStack op stack) .fails := by
  have hsix (n : Nat) : ¬n + 1 + 1 + 1 + 1 + 1 + 1 < 6 := by omega
  -- six elements are as many as an operation looks at
  rcases stack with _ | ⟨x1, _ | ⟨x2, _ | ⟨x3, _ | ⟨x4, _ | ⟨x5, _ | ⟨x6, st⟩⟩⟩⟩⟩⟩ <;>
    cases op <;>
    simp [execStack, Legacy.execStack, required, top, swapTop, eraseTop, insertTop, bind,
      Except.bind, pure, Except.pure, pop, hsix]

theorem intSize_le (stack : List Valtype) : intSize stack ≤ stack.length := by
  rw [intSize, Int32.toInt_ofNat', Int.bmod_def]
  have hsize : (Int32.size : Int) = 4294967296 := rfl
  rw [hsize]
  split <;> omega

theorem castToBigNum_some {vch : Valtype} {n : Nat} {bn : Int}
    (h : Script.castToBigNum vch n = some bn) : castToBigNum vch n = .ok bn := by
  rw [castToBigNum, h]
  rfl

theorem castToBigNum_none {vch : Valtype} {n : Nat} (h : Script.castToBigNum vch n = none) :
    castToBigNum vch n = .error .fails := by
  rw [castToBigNum, h]
  rfl

theorem execPick_eq (fRoll : Bool) (stack : List Valtype) :
    execPick fRoll stack = required (Legacy.execPick fRoll stack) .fails := by
  rcases stack with _ | ⟨vchN, _ | ⟨x, st⟩⟩
  · rfl
  · rfl
  unfold execPick Legacy.execPick
  simp only [sizeAtLeast_cons, sizeAtLeast_zero, ok_bind, top_one, pop_cons]
  cases hn : Script.castToBigNum vchN nDefaultMaxNumSize with
  | none =>
    rw [castToBigNum_none hn]
    rfl
  | some bn =>
    rw [castToBigNum_some hn]
    simp only [ok_bind, bind_eq_bind, bind_some]
    by_cases hout : CBigNum.getint bn < 0 ∨ CBigNum.getint bn ≥ intSize (x :: st)
    · rw [decide_eq_true hout, if_pos hout]
      rfl
    · have hlt : (CBigNum.getint bn).toNat < (x :: st).length := by
        have hsize := intSize_le (x :: st)
        omega
      rw [decide_eq_false hout, if_neg hout, rejectIf_false, ok_bind, top_of_lt hlt,
        getElem?_eq_getElem hlt, ok_bind]
      cases fRoll with
      | true => rw [if_pos rfl, if_pos rfl, eraseTop_one hlt]; rfl
      | false => rfl

/-! ## §2. The other operations without signatures. -/

/-- `OP_CHECKLOCKTIMEVERIFY`. -/
def execCheckLockTimeVerify (txTo : CTransaction) (nIn : Nat) (flags : UInt32) (s : EvalState) :
    Except Stop EvalState :=
  if !hasFlag flags SCRIPT_VERIFY_CHECKLOCKTIMEVERIFY then do
    rejectIf (hasFlag flags SCRIPT_VERIFY_DISCOURAGE_UPGRADABLE_NOPS) .fails
    return s
  else do
    sizeAtLeast 1 s.stack
    let vch ← top 1 s.stack
    let nLockTime ← castToBigNum vch 5
    rejectIf (nLockTime < 0) .fails
    rejectIf (!Legacy.checkLockTime txTo nIn nLockTime) .fails
    return s

/-- The cases of the `switch` that read no signature. -/
def execOpcode (H : ScriptHashes) (txTo : CTransaction) (nIn : Nat) (flags : UInt32)
    (opcode : Opcode) (rest : CScript) (s : EvalState) : Except Stop EvalState :=
  match opcode with
  | .number opcode => return { s with stack := CBigNum.getvch (smallNumber opcode) :: s.stack }
  | .OP_NOP => return s
  | .OP_CHECKLOCKTIMEVERIFY => execCheckLockTimeVerify txTo nIn flags s
  | .upgradableNop => do
    rejectIf (hasFlag flags SCRIPT_VERIFY_DISCOURAGE_UPGRADABLE_NOPS) .fails
    return s
  | .OP_IF | .OP_NOTIF =>
    if s.fExec then do
      sizeAtLeast 1 s.stack
      let vch ← top 1 s.stack
      let fValue := if opcode = .OP_NOTIF then !castToBool vch else castToBool vch
      let stack ← pop s.stack
      return { s with stack, vfExec := fValue :: s.vfExec }
    else return { s with vfExec := false :: s.vfExec }
  | .OP_ELSE => do
    sizeAtLeast 1 s.vfExec
    let back ← top 1 s.vfExec
    let vfExec ← pop s.vfExec
    return { s with vfExec := (!back) :: vfExec }
  | .OP_ENDIF => do
    sizeAtLeast 1 s.vfExec
    let vfExec ← pop s.vfExec
    return { s with vfExec }
  | .OP_VERIFY => do
    sizeAtLeast 1 s.stack
    let vch ← top 1 s.stack
    rejectIf (!castToBool vch) .fails
    let stack ← pop s.stack
    return { s with stack }
  | .OP_RETURN => .error .fails
  | .OP_TOALTSTACK => do
    sizeAtLeast 1 s.stack
    let vch ← top 1 s.stack
    let stack ← pop s.stack
    return { s with stack, altstack := vch :: s.altstack }
  | .OP_FROMALTSTACK => do
    sizeAtLeast 1 s.altstack
    let vch ← top 1 s.altstack
    let altstack ← pop s.altstack
    return { s with stack := vch :: s.stack, altstack }
  | .stack op => do
    let stack ← execStack op s.stack
    return { s with stack }
  | .OP_DEPTH => return { s with stack := CBigNum.getvch s.stack.length :: s.stack }
  | .OP_PICK => do
    let stack ← execPick false s.stack
    return { s with stack }
  | .OP_ROLL => do
    let stack ← execPick true s.stack
    return { s with stack }
  | .OP_SIZE => do
    sizeAtLeast 1 s.stack
    let vch ← top 1 s.stack
    return { s with stack := CBigNum.getvch vch.length :: s.stack }
  | .OP_EQUAL | .OP_EQUALVERIFY => do
    sizeAtLeast 2 s.stack
    let vch1 ← top 2 s.stack
    let vch2 ← top 1 s.stack
    let fEqual := vch1 == vch2
    let stack ← pop s.stack
    let stack ← pop stack
    let stack := vchBool fEqual :: stack
    if opcode = .OP_EQUALVERIFY then
      rejectIf (!fEqual) .fails
      let stack ← pop stack
      return { s with stack }
    else return { s with stack }
  | .unary op => do
    sizeAtLeast 1 s.stack
    let vch ← top 1 s.stack
    let bn ← castToBigNum vch nDefaultMaxNumSize
    let stack ← pop s.stack
    return { s with stack := CBigNum.getvch (Legacy.execUnary op bn) :: stack }
  | .binary op => do
    sizeAtLeast 2 s.stack
    let vch1 ← top 2 s.stack
    let bn1 ← castToBigNum vch1 nDefaultMaxNumSize
    let vch2 ← top 1 s.stack
    let bn2 ← castToBigNum vch2 nDefaultMaxNumSize
    let stack ← pop s.stack
    let stack ← pop stack
    let stack := CBigNum.getvch (Legacy.execBinary op bn1 bn2) :: stack
    if op = .OP_NUMEQUALVERIFY then
      let vch ← top 1 stack
      rejectIf (!castToBool vch) .fails
      let stack ← pop stack
      return { s with stack }
    else return { s with stack }
  | .OP_WITHIN => do
    sizeAtLeast 3 s.stack
    let vch1 ← top 3 s.stack
    let bn1 ← castToBigNum vch1 nDefaultMaxNumSize
    let vch2 ← top 2 s.stack
    let bn2 ← castToBigNum vch2 nDefaultMaxNumSize
    let vch3 ← top 1 s.stack
    let bn3 ← castToBigNum vch3 nDefaultMaxNumSize
    let stack ← pop s.stack
    let stack ← pop stack
    let stack ← pop stack
    return { s with stack := vchBool (bn2 ≤ bn1 && bn1 < bn3) :: stack }
  | .hash op => do
    sizeAtLeast 1 s.stack
    let vch ← top 1 s.stack
    let stack ← pop s.stack
    return { s with stack := H.vchHash op vch :: stack }
  | .OP_CODESEPARATOR => return { s with pbegincodehash := rest }
  | _ => .error .fails

variable {txTo : CTransaction} {nIn : Nat} {flags : UInt32}

theorem execCheckLockTimeVerify_eq (s : EvalState) :
    execCheckLockTimeVerify txTo nIn flags s =
      required (Legacy.execCheckLockTimeVerify txTo nIn flags s) .fails := by
  unfold execCheckLockTimeVerify Legacy.execCheckLockTimeVerify
  by_cases hflag : (!hasFlag flags SCRIPT_VERIFY_CHECKLOCKTIMEVERIFY) = true
  · rw [if_pos hflag, if_pos hflag]
    cases hasFlag flags SCRIPT_VERIFY_DISCOURAGE_UPGRADABLE_NOPS <;> rfl
  rw [if_neg hflag, if_neg hflag]
  rcases s.stack with _ | ⟨vch, st⟩
  · rfl
  simp only [sizeAtLeast_cons, sizeAtLeast_zero, ok_bind, top_one]
  cases hn : Script.castToBigNum vch 5 with
  | none =>
    rw [castToBigNum_none hn]
    rfl
  | some nLockTime =>
    rw [castToBigNum_some hn]
    simp only [ok_bind, bind_eq_bind, bind_some]
    by_cases hneg : nLockTime < 0
    · rw [decide_eq_true hneg, if_pos hneg]
      rfl
    · rw [decide_eq_false hneg, if_neg hneg]
      cases hlock : Legacy.checkLockTime txTo nIn nLockTime <;> rfl

theorem required_map {α β : Type} (x : Option α) (f : α → β) :
    (required x .fails >>= fun a => pure (f a) : Except Stop β) = required (x.map f) .fails := by
  cases x <;> rfl

theorem castToBigNum_bind {α : Type} (vch : Valtype) (n : Nat) (f : Int → Except Stop α)
    (g : Int → Option α) (h : ∀ bn, f bn = required (g bn) .fails) :
    (castToBigNum vch n >>= f) = required (Script.castToBigNum vch n >>= g) .fails := by
  unfold castToBigNum
  cases Script.castToBigNum vch n with
  | none => rfl
  | some bn => exact h bn

/-- **No operation reaches below the bottom**: each makes its test before it reads, and what it
leaves is what the patterns of `Legacy.execOpcode` say. -/
theorem execOpcode_eq (H : ScriptHashes) (opcode : Opcode) (rest : CScript) (s : EvalState) :
    execOpcode H txTo nIn flags opcode rest s =
      required (Legacy.execOpcode H txTo nIn flags opcode rest s) .fails := by
  obtain ⟨stack, altstack, vfExec, nOpCount, pbegincodehash⟩ := s
  cases opcode with
  | OP_CHECKLOCKTIMEVERIFY => exact execCheckLockTimeVerify_eq _
  | upgradableNop =>
    unfold execOpcode Legacy.execOpcode
    cases hasFlag flags SCRIPT_VERIFY_DISCOURAGE_UPGRADABLE_NOPS <;> rfl
  | OP_IF =>
    unfold execOpcode Legacy.execOpcode
    dsimp only
    split
    · cases stack <;> rfl
    · rfl
  | OP_NOTIF =>
    unfold execOpcode Legacy.execOpcode
    dsimp only
    split
    · cases stack <;> rfl
    · rfl
  | OP_ELSE => cases vfExec <;> rfl
  | OP_ENDIF => cases vfExec <;> rfl
  | OP_VERIFY =>
    cases stack with
    | nil => rfl
    | cons vch st =>
      unfold execOpcode Legacy.execOpcode
      simp only [sizeAtLeast_cons, sizeAtLeast_zero, ok_bind, top_one, pop_cons]
      cases castToBool vch <;> rfl
  | OP_TOALTSTACK => cases stack <;> rfl
  | OP_FROMALTSTACK => cases altstack <;> rfl
  | stack op =>
    unfold execOpcode Legacy.execOpcode
    dsimp only
    rw [execStack_eq]
    exact required_map _ _
  | OP_PICK =>
    unfold execOpcode Legacy.execOpcode
    dsimp only
    rw [execPick_eq]
    exact required_map _ _
  | OP_ROLL =>
    unfold execOpcode Legacy.execOpcode
    dsimp only
    rw [execPick_eq]
    exact required_map _ _
  | OP_SIZE => cases stack <;> rfl
  | OP_EQUAL => rcases stack with _ | ⟨vch2, _ | ⟨vch1, st⟩⟩ <;> rfl
  | OP_EQUALVERIFY =>
    rcases stack with _ | ⟨vch2, _ | ⟨vch1, st⟩⟩
    · rfl
    · rfl
    · unfold execOpcode Legacy.execOpcode
      simp only [sizeAtLeast_cons, sizeAtLeast_zero, ok_bind, top_one, top_two, pop_cons]
      cases vch1 == vch2 <;> rfl
  | unary op =>
    cases stack with
    | nil => rfl
    | cons vch st =>
      unfold execOpcode Legacy.execOpcode
      simp only [sizeAtLeast_cons, sizeAtLeast_zero, ok_bind, top_one, pop_cons]
      exact castToBigNum_bind _ _ _ _ fun bn => rfl
  | binary op =>
    rcases stack with _ | ⟨vch2, _ | ⟨vch1, st⟩⟩
    · rfl
    · rfl
    · unfold execOpcode Legacy.execOpcode
      simp only [sizeAtLeast_cons, sizeAtLeast_zero, ok_bind, top_one, top_two, pop_cons]
      refine castToBigNum_bind _ _ _ _ fun bn1 => castToBigNum_bind _ _ _ _ fun bn2 => ?_
      split
      · cases castToBool (CBigNum.getvch (Legacy.execBinary op bn1 bn2)) <;> rfl
      · rfl
  | OP_WITHIN =>
    rcases stack with _ | ⟨vch3, _ | ⟨vch2, _ | ⟨vch1, st⟩⟩⟩
    · rfl
    · rfl
    · rfl
    · unfold execOpcode Legacy.execOpcode
      simp only [sizeAtLeast_cons, sizeAtLeast_zero, ok_bind, top_one, top_two, top_three, pop_cons]
      refine castToBigNum_bind _ _ _ _ fun bn1 => castToBigNum_bind _ _ _ _ fun bn2 => ?_
      exact castToBigNum_bind _ _ _ _ fun bn3 => rfl
  | hash op => cases stack <;> rfl
  | _ => rfl

/-! ## §3. The operations with signatures. -/

variable (E : SigEnv) (txTo : CTransaction) (nIn : Nat) (nHashType : Int32) (flags : UInt32)

variable (fVerify : Bool)

/-- What `OP_CHECKSIG` and `OP_CHECKMULTISIG` end with. -/
def pushSuccess (stack : List Valtype) (fSuccess : Bool) : Except Stop (List Valtype) := do
  let stack := vchBool fSuccess :: stack
  if fVerify then
    rejectIf (!fSuccess) .fails
    pop stack
  else return stack

/-- `OP_CHECKSIG`, `OP_CHECKSIGVERIFY`. -/
def execCheckSig (s : EvalState) : Run (CSignatureCache E) EvalState :=
  (Run.of do
    sizeAtLeast 2 s.stack
    let vchSig ← top 2 s.stack
    let vchPubKey ← top 1 s.stack
    return (vchSig, vchPubKey)).bind fun (vchSig, vchPubKey) =>
  let scriptCode := CScript.findAndDelete s.pbegincodehash (CScript.push vchSig)
  (guarded (Legacy.checkOne E txTo nIn nHashType flags vchSig vchPubKey scriptCode)).bind
    fun fSuccess => Run.of do
      let stack ← pop s.stack
      let stack ← pop stack
      let stack ← pushSuccess fVerify stack fSuccess
      return { s with stack }

/-- `CastToBigNum(..).getint()`, within `0 .. nMax`. -/
def countArg (vch : Valtype) (nMax : Nat) : Except Stop Nat := do
  let n := CBigNum.getint (← castToBigNum vch nDefaultMaxNumSize)
  rejectIf (n < 0 ∨ n > nMax) .fails
  return n.toNat

/-- The numbers that `OP_CHECKMULTISIG` reads: the depth of the first key is always two. -/
structure MultiSigDepths where
  nKeysCount : Nat
  isig : Nat
  nSigsCount : Nat

/-- The counts, and the tests of the size that they call for. -/
def multiSigDepths (stack : List Valtype) (nOpCount : Nat) : Except Stop MultiSigDepths := do
  rejectIf (intSize stack < 1) .fails
  let vchKeys ← top 1 stack
  let nKeysCount ← countArg vchKeys 20
  rejectIf (nOpCount + nKeysCount > MAX_OPS) .fails
  rejectIf (intSize stack < 2 + nKeysCount) .fails
  let vchSigs ← top (2 + nKeysCount) stack
  let nSigsCount ← countArg vchSigs nKeysCount
  rejectIf (intSize stack < 3 + nKeysCount + nSigsCount) .fails
  return ⟨nKeysCount, 3 + nKeysCount, nSigsCount⟩

/-- `for (int k = 0; k < nSigsCount; k++)`, with the depth of the next signature. -/
def dropSigs (stack : List Valtype) : Nat → Nat → CScript → Except Stop CScript
  | _, 0, scriptCode => return scriptCode
  | isig, nSigsCount + 1, scriptCode => do
    let vchSig ← top isig stack
    dropSigs stack (isig + 1) nSigsCount (CScript.findAndDelete scriptCode (CScript.push vchSig))

/-- `while (fSuccess && nSigsCount > 0)`.  A round without a key to read would go below what
`nKeysCount` allows. -/
def multiSigLoop (stack : List Valtype) (scriptCode : CScript) :
    (nKeysCount ikey isig nSigsCount : Nat) → Run (CSignatureCache E) Bool
  | _, _, _, 0 => .ok true
  | 0, _, _, _ + 1 => .of (.error .belowBottom)
  | nKeysCount + 1, ikey, isig, nSigsCount + 1 =>
    (Run.of do
      let vchSig ← top isig stack
      let vchPubKey ← top ikey stack
      return (vchSig, vchPubKey)).bind fun (vchSig, vchPubKey) =>
    (guarded (Legacy.checkOne E txTo nIn nHashType flags vchSig vchPubKey scriptCode)).bind
      fun fOk =>
        let isig := if fOk then isig + 1 else isig
        let nSigsCount := if fOk then nSigsCount else nSigsCount + 1
        if nSigsCount > nKeysCount then .ok false
        else multiSigLoop stack scriptCode nKeysCount (ikey + 1) isig nSigsCount

/-- `OP_CHECKMULTISIG`, `OP_CHECKMULTISIGVERIFY`. -/
def execCheckMultiSig (s : EvalState) : Run (CSignatureCache E) EvalState :=
  (Run.of do
    let d ← multiSigDepths s.stack s.nOpCount
    let scriptCode ← dropSigs s.stack d.isig d.nSigsCount s.pbegincodehash
    return (d, scriptCode)).bind fun (d, scriptCode) =>
  (multiSigLoop E txTo nIn nHashType flags s.stack scriptCode d.nKeysCount 2 d.isig
    d.nSigsCount).bind fun fSuccess => Run.of do
      let stack ← popMany (2 + d.nKeysCount + d.nSigsCount) s.stack
      sizeAtLeast 1 stack
      let dummy ← top 1 stack
      rejectIf (hasFlag flags SCRIPT_VERIFY_NULLDUMMY && !dummy.isEmpty) .fails
      let stack ← pop stack
      let stack ← pushSuccess fVerify stack fSuccess
      return { s with stack, nOpCount := s.nOpCount + d.nKeysCount }

variable {E txTo nIn nHashType flags}

theorem guarded_pushSuccess (s : EvalState) (st : List Valtype)
    (fSuccess : Bool) :
    guarded (Legacy.pushSuccess E fVerify s st fSuccess) = Run.of (do
      let stack ← pushSuccess fVerify st fSuccess
      return { s with stack }) := by
  cases fVerify <;> cases fSuccess <;> rfl

theorem execCheckSig_eq (s : EvalState) : execCheckSig E txTo nIn nHashType flags fVerify s =
    guarded (Legacy.execCheckSig E txTo nIn nHashType flags fVerify s) := by
  obtain ⟨stack, altstack, vfExec, nOpCount, pbegincodehash⟩ := s
  rcases stack with _ | ⟨vchPubKey, _ | ⟨vchSig, st⟩⟩
  · rfl
  · rfl
  · unfold execCheckSig Legacy.execCheckSig
    simp only [sizeAtLeast_cons, sizeAtLeast_zero, ok_bind, top_one, top_two, pop_cons]
    rw [show (pure (vchSig, vchPubKey) : Except Stop _) = .ok (vchSig, vchPubKey) from rfl,
      Run.of_ok_bind, guarded_bind]
    refine congrArg (Run.bind _) (funext fun fSuccess => ?_)
    rw [guarded_pushSuccess]

theorem countArg_eq (vch : Valtype) (nMax : Nat) :
    countArg vch nMax = required (Legacy.countArg vch nMax) .fails := by
  unfold countArg Legacy.countArg
  refine castToBigNum_bind _ _ _ _ fun bn => ?_
  dsimp only
  by_cases hout : CBigNum.getint bn < 0 ∨ CBigNum.getint bn > nMax
  · rw [decide_eq_true hout, if_pos hout]
    rfl
  · rw [decide_eq_false hout, if_neg hout]
    rfl

theorem countArg_le {vch : Valtype} {nMax n : Nat} (h : Legacy.countArg vch nMax = some n) :
    n ≤ nMax := by
  unfold Legacy.countArg at h
  cases hn : Script.castToBigNum vch nDefaultMaxNumSize with
  | none =>
    rw [hn] at h
    cases h
  | some bn =>
    rw [hn] at h
    simp only [bind_eq_bind, bind_some] at h
    split at h
    next => cases h
    next hin =>
      cases h
      omega

theorem multiSigDepths_cases (stack : List Valtype) (nOpCount : Nat) :
    (Legacy.multiSigArgs stack nOpCount = none ∧
      multiSigDepths stack nOpCount = .error .fails) ∨
    ∃ nKeysCount nSigsCount, ∃ h : 2 + nKeysCount + nSigsCount < stack.length,
      nSigsCount ≤ nKeysCount ∧
      multiSigDepths stack nOpCount = .ok ⟨nKeysCount, 3 + nKeysCount, nSigsCount⟩ ∧
      Legacy.multiSigArgs stack nOpCount = some {
        nKeysCount
        keys := (stack.drop 1).take nKeysCount
        sigs := (stack.drop (2 + nKeysCount)).take nSigsCount
        dummy := stack[2 + nKeysCount + nSigsCount]
        st := stack.drop (3 + nKeysCount + nSigsCount) } := by
  have hsize := intSize_le stack
  unfold multiSigDepths Legacy.multiSigArgs
  by_cases h1 : intSize stack < 1
  · exact .inl ⟨if_pos h1, by rw [decide_eq_true h1]; rfl⟩
  have hlen1 : 0 < stack.length := by omega
  rw [if_neg h1, decide_eq_false h1, rejectIf_false, ok_bind, top_of_lt hlen1,
    getElem?_eq_getElem hlen1, ok_bind, countArg_eq]
  simp only [bind_eq_bind, bind_some]
  cases hkeys : Legacy.countArg stack[0] 20 with
  | none => exact .inl ⟨rfl, rfl⟩
  | some nKeysCount =>
    simp only [bind_some, required, ok_bind]
    by_cases hops : nOpCount + nKeysCount > MAX_OPS
    · exact .inl ⟨if_pos hops, by rw [decide_eq_true hops]; rfl⟩
    rw [if_neg hops, decide_eq_false hops, rejectIf_false, ok_bind]
    by_cases h2 : intSize stack < 2 + nKeysCount
    · exact .inl ⟨if_pos h2, by rw [decide_eq_true h2]; rfl⟩
    have hlen2 : 1 + nKeysCount < stack.length := by omega
    have htop : top (2 + nKeysCount) stack = .ok stack[1 + nKeysCount] := by
      rw [show 2 + nKeysCount = 1 + nKeysCount + 1 by omega]
      exact top_of_lt hlen2
    rw [if_neg h2, decide_eq_false h2, rejectIf_false, ok_bind, htop,
      getElem?_eq_getElem hlen2, ok_bind, countArg_eq]
    simp only [bind_some]
    cases hsigs : Legacy.countArg stack[1 + nKeysCount] nKeysCount with
    | none => exact .inl ⟨rfl, rfl⟩
    | some nSigsCount =>
      simp only [bind_some, required, ok_bind]
      by_cases h3 : intSize stack < 3 + nKeysCount + nSigsCount
      · exact .inl ⟨if_pos h3, by rw [decide_eq_true h3]; rfl⟩
      have hlen3 : 2 + nKeysCount + nSigsCount < stack.length := by omega
      refine .inr ⟨nKeysCount, nSigsCount, hlen3, countArg_le hsigs, ?_, ?_⟩
      · rw [decide_eq_false h3]
        rfl
      · rw [if_neg h3, getElem?_eq_getElem hlen3]
        rfl

theorem dropSigs_eq {stack : List Valtype} {i n : Nat} (h : i + n ≤ stack.length)
    (scriptCode : CScript) :
    dropSigs stack (i + 1) n scriptCode = .ok (((stack.drop i).take n).foldl
      (fun scriptCode vchSig => CScript.findAndDelete scriptCode (CScript.push vchSig))
        scriptCode) := by
  induction n generalizing i scriptCode with
  | zero => rfl
  | succ n ih =>
    have hlt : i < stack.length := by omega
    rw [dropSigs, top_of_lt hlt, ok_bind, ih (by omega), drop_eq_getElem_cons hlt,
      take_succ_cons, foldl_cons]

theorem multiSigLoop_eq {stack : List Valtype} {a b nKeysCount nSigsCount : Nat}
    (hle : nSigsCount ≤ nKeysCount) (hkeys : a + nKeysCount ≤ stack.length)
    (hsigs : b + nSigsCount ≤ stack.length) (scriptCode : CScript) :
    multiSigLoop E txTo nIn nHashType flags stack scriptCode nKeysCount (a + 1) (b + 1)
        nSigsCount =
      guarded (Legacy.multiSigLoop E txTo nIn nHashType flags scriptCode
        ((stack.drop a).take nKeysCount) ((stack.drop b).take nSigsCount)) := by
  -- on the keys that are left
  induction nKeysCount generalizing a b nSigsCount with
  | zero =>
    obtain rfl : nSigsCount = 0 := by omega
    rw [multiSigLoop, take_zero, take_zero, Legacy.multiSigLoop]
    rfl
  | succ nKeysCount ih =>
    cases nSigsCount with
    | zero =>
      rw [multiSigLoop, take_zero, Legacy.multiSigLoop]
      rfl
    | succ nSigsCount =>
      have ha : a < stack.length := by omega
      have hb : b < stack.length := by omega
      have hrest : ((stack.drop (a + 1)).take nKeysCount).length = nKeysCount := by
        rw [length_take, length_drop]
        omega
      have htail : ((stack.drop (b + 1)).take nSigsCount).length = nSigsCount := by
        rw [length_take, length_drop]
        omega
      have hread : (do
          let vchSig ← top (b + 1) stack
          let vchPubKey ← top (a + 1) stack
          return (vchSig, vchPubKey)) = .ok (stack[b], stack[a]) := by
        rw [top_of_lt hb, top_of_lt ha]
        rfl
      rw [multiSigLoop, hread, Run.of_ok_bind, drop_eq_getElem_cons ha,
        drop_eq_getElem_cons hb, take_succ_cons, take_succ_cons,
        Legacy.multiSigLoop, guarded_bind]
      refine congrArg (Run.bind _) (funext fun fOk => ?_)
      dsimp only
      rw [guarded_ite, hrest]
      cases fOk with
      | true =>
        rw [if_pos rfl, if_pos rfl, if_pos rfl, htail]
        by_cases hmore : nSigsCount > nKeysCount
        · rw [if_pos hmore, if_pos hmore]
          rfl
        · rw [if_neg hmore, if_neg hmore]
          exact ih (by omega) (by omega) (by omega)
      | false =>
        rw [if_neg Bool.false_ne_true, if_neg Bool.false_ne_true, if_neg Bool.false_ne_true,
          length_cons, htail]
        by_cases hmore : nSigsCount + 1 > nKeysCount
        · rw [if_pos hmore, if_pos hmore]
          rfl
        · rw [if_neg hmore, if_neg hmore, ih (by omega) (by omega) hsigs,
            drop_eq_getElem_cons hb, take_succ_cons]

theorem execCheckMultiSig_eq (s : EvalState) :
    execCheckMultiSig E txTo nIn nHashType flags fVerify s =
    guarded (Legacy.execCheckMultiSig E txTo nIn nHashType flags fVerify s) := by
  unfold execCheckMultiSig Legacy.execCheckMultiSig
  rcases multiSigDepths_cases s.stack s.nOpCount with
    ⟨hargs, hdepths⟩ | ⟨nKeysCount, nSigsCount, hlt, hle, hdepths, hargs⟩
  · rw [hargs, hdepths]
    rfl
  have hsigs : dropSigs s.stack (3 + nKeysCount) nSigsCount s.pbegincodehash =
      .ok (((s.stack.drop (2 + nKeysCount)).take nSigsCount).foldl
        (fun scriptCode vchSig => CScript.findAndDelete scriptCode (CScript.push vchSig))
          s.pbegincodehash) := by
    rw [show 3 + nKeysCount = 2 + nKeysCount + 1 by omega]
    exact dropSigs_eq (by omega) _
  have hloop (scriptCode : CScript) :
      multiSigLoop E txTo nIn nHashType flags s.stack scriptCode nKeysCount 2 (3 + nKeysCount)
          nSigsCount =
        guarded (Legacy.multiSigLoop E txTo nIn nHashType flags scriptCode
          ((s.stack.drop 1).take nKeysCount)
          ((s.stack.drop (2 + nKeysCount)).take nSigsCount)) := by
    rw [show 3 + nKeysCount = 2 + nKeysCount + 1 by omega]
    exact multiSigLoop_eq hle (by omega) (by omega) scriptCode
  have hpops : popMany (2 + nKeysCount + nSigsCount) s.stack =
      .ok (s.stack[2 + nKeysCount + nSigsCount] ::
        s.stack.drop (3 + nKeysCount + nSigsCount)) := by
    rw [popMany_of_le hlt.le, drop_eq_getElem_cons hlt]
    rw [show 2 + nKeysCount + nSigsCount + 1 = 3 + nKeysCount + nSigsCount by omega]
  rw [hargs, hdepths, ok_bind, guarded_ofOption_bind]
  dsimp only
  rw [hsigs, ok_bind]
  show (multiSigLoop E txTo nIn nHashType flags s.stack _ nKeysCount 2 (3 + nKeysCount)
    nSigsCount).bind _ = guarded (Cached.bind _ _)
  rw [hloop, guarded_bind]
  refine congrArg (Run.bind _) (funext fun fSuccess => ?_)
  rw [guarded_ite, guarded_pushSuccess, hpops, ok_bind]
  simp only [sizeAtLeast_cons, sizeAtLeast_zero, ok_bind, top_one, pop_cons]
  cases hasFlag flags SCRIPT_VERIFY_NULLDUMMY &&
      !(s.stack[2 + nKeysCount + nSigsCount]).isEmpty with
  | true => rfl
  | false => rfl

/-! ## §4. One instruction, and all of them. -/

variable (E txTo nIn nHashType flags)

/-- The `switch`. -/
def exec (opcode : Opcode) (rest : CScript) (s : EvalState) :
    Run (CSignatureCache E) EvalState :=
  match opcode with
  | .OP_CHECKSIG => execCheckSig E txTo nIn nHashType flags false s
  | .OP_CHECKSIGVERIFY => execCheckSig E txTo nIn nHashType flags true s
  | .OP_CHECKMULTISIG => execCheckMultiSig E txTo nIn nHashType flags false s
  | .OP_CHECKMULTISIGVERIFY => execCheckMultiSig E txTo nIn nHashType flags true s
  | _ => .of (execOpcode E.scriptHashes txTo nIn flags opcode rest s)

/-- The body of the loop of `EvalScript`. -/
def evalInstruction (r : GetOpResult) (s : EvalState) : Run (CSignatureCache E) EvalState :=
  if !r.ok then .of (.error .fails)
  else if r.data.length > MAX_SCRIPT_ELEMENT_SIZE then .of (.error .fails)
  else if r.opcode > OP_16 ∧ (Legacy.countOp r s).nOpCount > MAX_OPS then .of (.error .fails)
  else if r.opcode ∈ disabledOpcodes then .of (.error .fails)
  else
    let s := Legacy.countOp r s
    (if s.fExec ∧ r.opcode ≤ OP_PUSHDATA4 then .ok { s with stack := r.data :: s.stack }
      else if s.fExec ∨ (OP_IF ≤ r.opcode ∧ r.opcode ≤ OP_ENDIF) then
        exec E txTo nIn nHashType flags (opcodeOf r.opcode) r.rest s
      else .ok s : Run (CSignatureCache E) EvalState).bind fun s =>
        if s.stack.length + s.altstack.length > MAX_STACK then .of (.error .fails) else .ok s

variable {E txTo nIn nHashType flags}

theorem exec_eq (opcode : Opcode) (rest : CScript) (s : EvalState) :
    exec E txTo nIn nHashType flags opcode rest s =
      guarded (Legacy.exec E txTo nIn nHashType flags opcode rest s) := by
  cases opcode with
  | OP_CHECKSIG => exact execCheckSig_eq false s
  | OP_CHECKSIGVERIFY => exact execCheckSig_eq true s
  | OP_CHECKMULTISIG => exact execCheckMultiSig_eq false s
  | OP_CHECKMULTISIGVERIFY => exact execCheckMultiSig_eq true s
  | _ => exact (congrArg Run.of (execOpcode_eq _ _ rest s)).trans (guarded_ofOption _).symm

/-- **An instruction stays above the bottom**, and does what `Legacy.evalInstruction` says. -/
theorem evalInstruction_eq (r : GetOpResult) (s : EvalState) :
    evalInstruction E txTo nIn nHashType flags r s =
      guarded (Legacy.evalInstruction E txTo nIn nHashType flags r s) := by
  unfold evalInstruction Legacy.evalInstruction Legacy.dispatch
  simp only [guarded_ite, guarded_bind, guarded_fail, guarded_ok, exec_eq]

end Fantom.Script.Stacktop
