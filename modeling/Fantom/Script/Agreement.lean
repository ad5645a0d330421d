/-
  Fantom.Script.Agreement — The two interpreters against each other, on scripts without signature
  operations.

  * `Agrees`, `agrees_execOpcode` — one operation in both,
  * `interpreters_agree` — a whole script.

  An operand has four bytes at most, so the 64 bits of `CScriptNum` hold every result of an
  operation on it.
-/
import Fantom.Script.Legacy
import Fantom.Script.Interpreter

namespace Fantom.Script

open Core Chain Lib List Option Int64

/-! ## §1. The length of a number. -/

theorem magnitudeBytes_length_le {fuel n k : Nat} (h : n < 256 ^ k) :
    (magnitudeBytes fuel n).length ≤ k := by
  induction fuel generalizing n k with
  | zero => exact Nat.zero_le k
  | succ fuel ih =>
    rw [magnitudeBytes]
    split
    next => exact Nat.zero_le k
    next hn =>
      cases k with
      | zero => omega
      | succ k =>
        rw [Nat.pow_succ] at h
        have := ih (n := n / 256) (k := k) (by omega)
        rw [length_cons]
        omega

theorem getvch_length_le {n : Int} {k : Nat} (h : n.natAbs < 256 ^ k) :
    (CBigNum.getvch n).length ≤ k + 1 := by
  have hbytes : (bytesOf n.natAbs).reverse.length ≤ k := by
    rw [length_reverse]
    exact magnitudeBytes_length_le h
  rw [CBigNum.getvch, length_reverse]
  unfold bn2mpi
  split
  next => exact Nat.zero_le _
  next b bs heq =>
    rw [heq, length_cons] at hbytes
    split
    · rw [length_cons, length_cons]
      omega
    · rw [length_cons]
      omega

/-- An element that a `vector<unsigned char>` can hold. -/
def Fits (vch : Valtype) : Prop := vch.length < 2 ^ 63

theorem fits_of_le {vch : Valtype} (h : vch.length ≤ 1000) : Fits vch := by
  unfold Fits
  omega

theorem fits_getvch {n : Int} (h : n.natAbs < 2 ^ 63) : Fits (CBigNum.getvch n) := by
  have hlen := getvch_length_le (n := n) (k := 8) (by omega)
  exact fits_of_le (by omega)

theorem fits_vchBool (b : Bool) : Fits (vchBool b) := by
  cases b <;> exact fits_of_le (by decide)

/-! ## §2. Numbers. -/

/-- `CastToBigNum` and `CScriptNum` on one element: both throw, or both read the
same number of four bytes. -/
theorem scriptNum_cases (vch : Valtype) :
    (scriptNum vch false = .error .UNKNOWN_ERROR ∧ castToBigNum vch nDefaultMaxNumSize = none) ∨
    ∃ n : CScriptNum, scriptNum vch false = .ok n ∧
      castToBigNum vch nDefaultMaxNumSize = some n.toInt ∧
      -2147483647 ≤ n.toInt ∧ n.toInt ≤ 2147483647 := by
  rw [castToBigNum_eq]
  unfold scriptNum CScriptNum.ofVch
  rw [show CScriptNum.nMaxNumSize = 4 from rfl, show nDefaultMaxNumSize = 4 from rfl]
  by_cases hlen : vch.length > 4
  · left
    rw [if_pos hlen, if_pos hlen]
    exact ⟨rfl, rfl⟩
  · right
    have hread := setVch_toInt (show vch.length ≤ 4 by omega)
    refine ⟨CScriptNum.setVch vch, ?_, ?_, ?_⟩
    · rw [if_neg hlen]
      rfl
    · rw [if_neg hlen, hread]
    · rw [hread]
      exact setvch_bound (by omega)

theorem numBool_toInt (b : Bool) : (numBool b).toInt = Legacy.bnBool b := by
  cases b <;> rfl

theorem beq_toInt (a b : CScriptNum) : (a == b) = (a.toInt == b.toInt) := by
  rw [Bool.eq_iff_iff, beq_iff_eq, beq_iff_eq, toInt_inj]

theorem toInt_add_small {a b : CScriptNum} (ha : -2147483647 ≤ a.toInt ∧ a.toInt ≤ 2147483647)
    (hb : -2147483647 ≤ b.toInt ∧ b.toInt ≤ 2147483647) :
    (a + b).toInt = a.toInt + b.toInt := by
  rw [toInt_add, Int.bmod_eq_of_le] <;> omega

theorem toInt_sub_small {a b : CScriptNum} (ha : -2147483647 ≤ a.toInt ∧ a.toInt ≤ 2147483647)
    (hb : -2147483647 ≤ b.toInt ∧ b.toInt ≤ 2147483647) :
    (a - b).toInt = a.toInt - b.toInt := by
  rw [toInt_sub, Int.bmod_eq_of_le] <;> omega

theorem toInt_neg_small {a : CScriptNum} (ha : -2147483647 ≤ a.toInt ∧ a.toInt ≤ 2147483647) :
    (-a).toInt = -a.toInt := by
  rw [toInt_neg, Int.bmod_eq_of_le] <;> omega

theorem execUnary_toInt (op : UnaryOp) {bn : CScriptNum}
    (h : -2147483647 ≤ bn.toInt ∧ bn.toInt ≤ 2147483647) :
    (execUnary op bn).toInt = Legacy.execUnary op bn.toInt := by
  have hone : -2147483647 ≤ (1 : CScriptNum).toInt ∧ (1 : CScriptNum).toInt ≤ 2147483647 := by
    decide
  cases op with
  | OP_1ADD => exact toInt_add_small h hone
  | OP_1SUB => exact toInt_sub_small h hone
  | OP_NEGATE => exact toInt_neg_small h
  | OP_ABS =>
    have hlt : bn < 0 ↔ bn.toInt < 0 := lt_iff_toInt_lt
    dsimp only [execUnary, Legacy.execUnary]
    simp only [hlt]
    split
    · exact toInt_neg_small h
    · rfl
  | OP_NOT => rw [execUnary, Legacy.execUnary, numBool_toInt, beq_toInt]; rfl
  | OP_0NOTEQUAL => rw [execUnary, Legacy.execUnary, numBool_toInt, bne, beq_toInt]; rfl

theorem execBinary_toInt (op : BinaryOp) {bn1 bn2 : CScriptNum}
    (h1 : -2147483647 ≤ bn1.toInt ∧ bn1.toInt ≤ 2147483647)
    (h2 : -2147483647 ≤ bn2.toInt ∧ bn2.toInt ≤ 2147483647) :
    (execBinary op bn1 bn2).toInt = Legacy.execBinary op bn1.toInt bn2.toInt := by
  have hlt : ∀ a b : CScriptNum, a < b ↔ a.toInt < b.toInt := fun a b => lt_iff_toInt_lt
  have hle : ∀ a b : CScriptNum, a ≤ b ↔ a.toInt ≤ b.toInt := fun a b => le_iff_toInt_le
  have hzero : (0 : CScriptNum).toInt = 0 := rfl
  cases op with
  | OP_ADD => exact toInt_add_small h1 h2
  | OP_SUB => exact toInt_sub_small h1 h2
  | OP_MIN =>
    dsimp only [execBinary, Legacy.execBinary]
    simp only [hlt]
    split <;> rfl
  | OP_MAX =>
    dsimp only [execBinary, Legacy.execBinary]
    simp only [gt_iff_lt, hlt]
    split <;> rfl
  | _ =>
    dsimp only [execBinary, Legacy.execBinary]
    rw [numBool_toInt]
    simp only [bne, beq_toInt, gt_iff_lt, ge_iff_le, hlt, hle, hzero]

theorem execUnary_bound (op : UnaryOp) {n : Int} (h : -2147483647 ≤ n ∧ n ≤ 2147483647) :
    (Legacy.execUnary op n).natAbs < 2 ^ 63 := by
  have hbool : ∀ b, (Legacy.bnBool b).natAbs < 2 ^ 63 := by decide
  cases op with
  | OP_NOT => exact hbool _
  | OP_0NOTEQUAL => exact hbool _
  | OP_ABS =>
    dsimp only [Legacy.execUnary]
    split <;> omega
  | _ =>
    dsimp only [Legacy.execUnary]
    omega

theorem execBinary_bound (op : BinaryOp) {n m : Int} (hn : -2147483647 ≤ n ∧ n ≤ 2147483647)
    (hm : -2147483647 ≤ m ∧ m ≤ 2147483647) : (Legacy.execBinary op n m).natAbs < 2 ^ 63 := by
  have hbool : ∀ b, (Legacy.bnBool b).natAbs < 2 ^ 63 := by decide
  cases op with
  | OP_ADD | OP_SUB =>
    dsimp only [Legacy.execBinary]
    omega
  | OP_MIN | OP_MAX =>
    dsimp only [Legacy.execBinary]
    split <;> omega
  | _ => exact hbool _

/-! ## §3. One operation. -/

/-- Every element is one that memory can hold. -/
structure Elements (s : EvalState) : Prop where
  stack : ∀ vch ∈ s.stack, Fits vch
  altstack : ∀ vch ∈ s.altstack, Fits vch

/-- Both interpreters fail, or both go on to the same state. -/
inductive Agrees : Option EvalState → Except ScriptError EvalState → Prop
  | fail (e : ScriptError) : Agrees none (.error e)
  | ok (s : EvalState) (h : Elements s) : Agrees (some s) (.ok s)

theorem Agrees.of_none {y : Except ScriptError EvalState} (h : Agrees none y) :
    ∃ e, y = .error e := by
  cases h with
  | fail e => exact ⟨e, rfl⟩

theorem Agrees.of_some {s : EvalState} {y : Except ScriptError EvalState}
    (h : Agrees (some s) y) : y = .ok s ∧ Elements s := by
  cases h with
  | ok _ hs => exact ⟨rfl, hs⟩

theorem Agrees.stack {s : EvalState} (h : Elements s) {stack : List Valtype}
    (hstack : ∀ vch ∈ stack, Fits vch) :
    Agrees (some { s with stack }) (.ok { s with stack }) :=
  .ok _ ⟨hstack, h.altstack⟩

/-- An operand: both throw, or both go on with the same number of four bytes. -/
theorem Agrees.operand (vch : Valtype) {f : Int → Option EvalState}
    {g : CScriptNum → Except ScriptError EvalState}
    (h : ∀ n : CScriptNum, -2147483647 ≤ n.toInt ∧ n.toInt ≤ 2147483647 →
      Agrees (f n.toInt) (g n)) :
    Agrees (castToBigNum vch nDefaultMaxNumSize >>= f) (scriptNum vch false >>= g) := by
  rcases scriptNum_cases vch with ⟨hnew, hold⟩ | ⟨n, hnew, hold, hn⟩
  · rw [hnew, hold]
    exact .fail _
  · rw [hnew, hold]
    exact h n hn

theorem Agrees.push {s : EvalState} (h : Elements s) {st : List Valtype} {vch : Valtype}
    (hvch : Fits vch) (hst : ∀ v ∈ st, v ∈ s.stack) :
    Agrees (some { s with stack := vch :: st }) (.ok { s with stack := vch :: st }) := by
  refine .stack h ?_
  intro v hv
  rcases mem_cons.mp hv with rfl | hv
  · exact hvch
  · exact h.stack v (hst v hv)

theorem Agrees.map {s : EvalState} (h : Elements s) {x : Option (List Valtype)}
    {y : Except ScriptError (List Valtype)} (hxy : y.toOption = x)
    (hx : ∀ stack, x = some stack → ∀ vch ∈ stack, vch ∈ s.stack) :
    Agrees (x.map fun stack => { s with stack }) (y.map fun stack => { s with stack }) := by
  subst hxy
  cases y with
  | error e => exact .fail e
  | ok stack => exact .stack h fun vch hvch => h.stack vch (hx stack rfl vch hvch)

theorem execStack_toOption (op : StackOp) (stack : List Valtype) :
    (execStack op stack).toOption = Legacy.execStack op stack := by
  rcases stack with _ | ⟨_, _ | ⟨_, _ | ⟨_, _ | ⟨_, _ | ⟨_, _ | ⟨_, _⟩⟩⟩⟩⟩⟩ <;>
    cases op <;> rfl

theorem execStack_mem {op : StackOp} {stack stack' : List Valtype}
    (h : Legacy.execStack op stack = some stack') : ∀ vch ∈ stack', vch ∈ stack := by
  unfold Legacy.execStack at h
  split at h
  case h_7 =>
    cases h
    intro vch hvch
    split at hvch <;> simpa using hvch
  case h_15 => cases h
  all_goals
    cases h
    intro vch hvch
    simp only [mem_cons] at hvch ⊢
    tauto

theorem execPick_toOption (fRoll : Bool) (stack : List Valtype) :
    (execPick false fRoll stack).toOption = Legacy.execPick fRoll stack := by
  rcases stack with _ | ⟨top, _ | ⟨x, st⟩⟩
  · rfl
  · rfl
  · dsimp only [execPick, Legacy.execPick]
    rcases scriptNum_cases top with ⟨hnew, hold⟩ | ⟨n, hnew, hold, _, _⟩
    · rw [hnew, hold]
      rfl
    · rw [hnew, hold, ok_bind, bind_eq_bind, bind_some, ← getint_eq]
      by_cases hrange : CScriptNum.getint n < 0 ∨ CScriptNum.getint n ≥ intSize (x :: st)
      · rw [if_pos hrange, ← Bool.decide_or, decide_eq_true hrange]
        rfl
      · rw [if_neg hrange, ← Bool.decide_or, decide_eq_false hrange]
        cases hget : (x :: st)[(CScriptNum.getint n).toNat]? with
        | none => rfl
        | some vch => rfl

theorem execPick_mem {fRoll : Bool} {stack stack' : List Valtype}
    (h : Legacy.execPick fRoll stack = some stack') : ∀ vch ∈ stack', vch ∈ stack := by
  rcases stack with _ | ⟨top, _ | ⟨x, st⟩⟩
  · cases h
  · cases h
  · dsimp only [Legacy.execPick] at h
    cases hn : castToBigNum top nDefaultMaxNumSize with
    | none =>
      rw [hn] at h
      cases h
    | some n =>
      rw [hn, bind_eq_bind, bind_some] at h
      split at h
      · cases h
      · cases hget : (x :: st)[(CBigNum.getint n).toNat]? with
        | none =>
          rw [hget] at h
          cases h
        | some vch =>
          rw [hget] at h
          cases h
          intro v hv
          rcases mem_cons.mp hv with rfl | hv
          · exact mem_cons_of_mem _ (mem_of_getElem? hget)
          · refine mem_cons_of_mem _ ?_
            split at hv
            · exact mem_of_mem_eraseIdx hv
            · exact hv

/-! ### One number, two numbers, three numbers. -/

variable {s : EvalState} {st : List Valtype}

theorem agrees_unary (h : Elements s) (H H' : ScriptHashes) (txTo : CTransaction) (nIn : Nat)
    {flags : UInt32} (hflags : hasFlag flags SCRIPT_VERIFY_MINIMALDATA = false) (op : UnaryOp)
    (rest : CScript) :
    Agrees (Legacy.execOpcode H txTo nIn flags (.unary op) rest s)
      (execOpcode H' flags (.unary op) rest s) := by
  dsimp only [Legacy.execOpcode, execOpcode]
  rw [hflags]
  cases hs : s.stack with
  | nil => exact .fail _
  | cons vch st =>
    refine .operand vch fun n hn => ?_
    rw [serialize_eq_getvch, execUnary_toInt op hn]
    refine .push h (fits_getvch (execUnary_bound op hn)) ?_
    intro v hv
    rw [hs]
    exact mem_cons_of_mem _ hv

theorem agrees_binaryResult (h : Elements s) (op : BinaryOp) {vch : Valtype} (hvch : Fits vch)
    (hst : ∀ v ∈ st, v ∈ s.stack) :
    Agrees
      (if op = .OP_NUMEQUALVERIFY then
        if castToBool vch then some { s with stack := st } else none
      else some { s with stack := vch :: st })
      (if op = .OP_NUMEQUALVERIFY then
        if castToBool vch then .ok { s with stack := st } else .error .NUMEQUALVERIFY
      else .ok { s with stack := vch :: st }) := by
  split
  · split
    · exact .stack h fun v hv => h.stack v (hst v hv)
    · exact .fail _
  · exact .push h hvch hst

theorem agrees_binary (h : Elements s) (H H' : ScriptHashes) (txTo : CTransaction) (nIn : Nat)
    {flags : UInt32} (hflags : hasFlag flags SCRIPT_VERIFY_MINIMALDATA = false) (op : BinaryOp)
    (rest : CScript) :
    Agrees (Legacy.execOpcode H txTo nIn flags (.binary op) rest s)
      (execOpcode H' flags (.binary op) rest s) := by
  dsimp only [Legacy.execOpcode, execOpcode]
  rw [hflags]
  rcases hs : s.stack with _ | ⟨vch2, _ | ⟨vch1, st⟩⟩
  · exact .fail _
  · exact .fail _
  · refine .operand vch1 fun n1 hn1 => .operand vch2 fun n2 hn2 => ?_
    rw [serialize_eq_getvch, execBinary_toInt op hn1 hn2]
    refine agrees_binaryResult h op (fits_getvch (execBinary_bound op hn1 hn2)) ?_
    intro v hv
    rw [hs]
    exact mem_cons_of_mem _ (mem_cons_of_mem _ hv)

theorem agrees_within (h : Elements s) (H H' : ScriptHashes) (txTo : CTransaction) (nIn : Nat)
    {flags : UInt32} (hflags : hasFlag flags SCRIPT_VERIFY_MINIMALDATA = false)
    (rest : CScript) :
    Agrees (Legacy.execOpcode H txTo nIn flags .OP_WITHIN rest s)
      (execOpcode H' flags .OP_WITHIN rest s) := by
  dsimp only [Legacy.execOpcode, execOpcode]
  rw [hflags]
  rcases hs : s.stack with _ | ⟨vch3, _ | ⟨vch2, _ | ⟨vch1, st⟩⟩⟩
  · exact .fail _
  · exact .fail _
  · exact .fail _
  · refine .operand vch1 fun n1 _ => .operand vch2 fun n2 _ => .operand vch3 fun n3 _ => ?_
    simp only [le_iff_toInt_le, lt_iff_toInt_lt]
    refine .push h (fits_vchBool _) ?_
    intro v hv
    rw [hs]
    exact mem_cons_of_mem _ (mem_cons_of_mem _ (mem_cons_of_mem _ hv))

/-! ### Every operation. -/

/-- The opcodes compared: no signature operation, and `OP_NOP7` only while no flag
gives it a meaning. -/
def sharedOpcode (flags : UInt32) (opcode : Opcode) : Bool :=
  match opcode with
  | .OP_CHECKSIG | .OP_CHECKSIGVERIFY | .OP_CHECKMULTISIG | .OP_CHECKMULTISIGVERIFY => false
  | .OP_CHECKLOCKTIMEVERIFY => !hasFlag flags SCRIPT_VERIFY_CHECKLOCKTIMEVERIFY
  | _ => true

theorem agrees_if (h : Elements s) (f : Valtype → Bool) :
    Agrees
      (if s.fExec then
        match s.stack with
        | [] => none
        | vch :: st => some { s with stack := st, vfExec := f vch :: s.vfExec }
      else some { s with vfExec := false :: s.vfExec })
      (if s.fExec then
        match s.stack with
        | [] => .error .UNBALANCED_CONDITIONAL
        | vch :: st => .ok { s with stack := st, vfExec := f vch :: s.vfExec }
      else .ok { s with vfExec := false :: s.vfExec }) := by
  by_cases hexec : s.fExec = true
  · rw [if_pos hexec, if_pos hexec]
    cases hs : s.stack with
    | nil => exact .fail _
    | cons vch st =>
      refine .ok _ ⟨?_, h.altstack⟩
      intro v hv
      refine h.stack v ?_
      rw [hs]
      exact mem_cons_of_mem _ hv
  · rw [if_neg hexec, if_neg hexec]
    exact .ok _ ⟨h.stack, h.altstack⟩

theorem toInt_ofNat_of_fits {n : Nat} (h : n < 2 ^ 63) : (Int64.ofNat n).toInt = n :=
  toInt_ofNat_of_lt h

theorem smallNumber_toInt (opcode : UInt8) :
    (Int64.ofInt (smallNumber opcode)).toInt = smallNumber opcode := by
  have hlt := opcode.toNat_lt
  have hone : OP_1.toNat = 81 := rfl
  rw [smallNumber, hone]
  exact toInt_ofInt_of_le (by omega) (by omega)

theorem agrees_execOpcode (h : Elements s) (hlen : s.stack.length < 2 ^ 63)
    {H H' : ScriptHashes} (hH : ∀ op vch, H'.vchHash op vch = H.vchHash op vch)
    (txTo : CTransaction) (nIn : Nat) {flags : UInt32}
    (hflags : hasFlag flags SCRIPT_VERIFY_MINIMALDATA = false) {opcode : Opcode}
    (hop : sharedOpcode flags opcode = true) (rest : CScript) :
    Agrees (Legacy.execOpcode H txTo nIn flags opcode rest s)
      (execOpcode H' flags opcode rest s) := by
  have hself : ∀ v ∈ s.stack, v ∈ s.stack := fun _ hv => hv
  cases opcode with
  | number opcode =>
    dsimp only [Legacy.execOpcode, execOpcode]
    rw [serialize_eq_getvch, smallNumber_toInt]
    refine .push h (fits_getvch ?_) hself
    have hlt := opcode.toNat_lt
    have hone : OP_1.toNat = 81 := rfl
    unfold smallNumber
    omega
  | OP_NOP => exact .ok s h
  | OP_CHECKLOCKTIMEVERIFY =>
    dsimp only [Legacy.execOpcode, Legacy.execCheckLockTimeVerify, execOpcode]
    rw [if_pos (show (!hasFlag flags SCRIPT_VERIFY_CHECKLOCKTIMEVERIFY) = true from hop)]
    split
    · exact .fail _
    · exact .ok s h
  | upgradableNop =>
    dsimp only [Legacy.execOpcode, execOpcode]
    split
    · exact .fail _
    · exact .ok s h
  | OP_IF => exact agrees_if h castToBool
  | OP_NOTIF => exact agrees_if h fun vch => !castToBool vch
  | OP_ELSE =>
    dsimp only [Legacy.execOpcode, execOpcode]
    cases s.vfExec with
    | nil => exact .fail _
    | cons fValue vfExec => exact .ok _ ⟨h.stack, h.altstack⟩
  | OP_ENDIF =>
    dsimp only [Legacy.execOpcode, execOpcode]
    cases s.vfExec with
    | nil => exact .fail _
    | cons fValue vfExec => exact .ok _ ⟨h.stack, h.altstack⟩
  | OP_VERIFY =>
    dsimp only [Legacy.execOpcode, execOpcode]
    cases hs : s.stack with
    | nil => exact .fail _
    | cons vch st =>
      dsimp only
      split
      · exact .stack h fun v hv => h.stack v (hs ▸ mem_cons_of_mem _ hv)
      · exact .fail _
  | OP_RETURN => exact .fail _
  | OP_TOALTSTACK =>
    dsimp only [Legacy.execOpcode, execOpcode]
    cases hs : s.stack with
    | nil => exact .fail _
    | cons vch st =>
      refine .ok _ ⟨fun v hv => h.stack v (hs ▸ mem_cons_of_mem _ hv), ?_⟩
      intro v hv
      rcases mem_cons.mp hv with rfl | hv
      · exact h.stack v (hs ▸ mem_cons_self)
      · exact h.altstack v hv
  | OP_FROMALTSTACK =>
    dsimp only [Legacy.execOpcode, execOpcode]
    cases hs : s.altstack with
    | nil => exact .fail _
    | cons vch altstack =>
      refine .ok _ ⟨?_, fun v hv => h.altstack v (hs ▸ mem_cons_of_mem _ hv)⟩
      intro v hv
      rcases mem_cons.mp hv with rfl | hv
      · exact h.altstack v (hs ▸ mem_cons_self)
      · exact h.stack v hv
  | stack op => exact .map h (execStack_toOption op s.stack) fun _ hst => execStack_mem hst
  | OP_DEPTH =>
    dsimp only [Legacy.execOpcode, execOpcode]
    rw [serialize_eq_getvch, toInt_ofNat_of_fits hlen]
    exact .push h (fits_getvch (by omega)) hself
  | OP_PICK =>
    dsimp only [Legacy.execOpcode, execOpcode]
    rw [hflags]
    exact .map h (execPick_toOption false s.stack) fun _ hst => execPick_mem hst
  | OP_ROLL =>
    dsimp only [Legacy.execOpcode, execOpcode]
    rw [hflags]
    exact .map h (execPick_toOption true s.stack) fun _ hst => execPick_mem hst
  | OP_SIZE =>
    dsimp only [Legacy.execOpcode, execOpcode]
    cases hs : s.stack with
    | nil => exact .fail _
    | cons vch st =>
      have hvch : vch.length < 2 ^ 63 := h.stack vch (hs ▸ mem_cons_self)
      dsimp only
      rw [serialize_eq_getvch, toInt_ofNat_of_fits hvch]
      exact .push h (fits_getvch (by omega)) (by rw [hs]; exact fun _ hv => hv)
  | OP_EQUAL =>
    dsimp only [Legacy.execOpcode, execOpcode]
    rcases hs : s.stack with _ | ⟨vch2, _ | ⟨vch1, st⟩⟩
    · exact .fail _
    · exact .fail _
    · refine .push h (fits_vchBool _) fun v hv => ?_
      rw [hs]
      exact mem_cons_of_mem _ (mem_cons_of_mem _ hv)
  | OP_EQUALVERIFY =>
    dsimp only [Legacy.execOpcode, execOpcode]
    rcases hs : s.stack with _ | ⟨vch2, _ | ⟨vch1, st⟩⟩
    · exact .fail _
    · exact .fail _
    · dsimp only
      split
      · refine .stack h fun v hv => h.stack v ?_
        rw [hs]
        exact mem_cons_of_mem _ (mem_cons_of_mem _ hv)
      · exact .fail _
  | unary op => exact agrees_unary h H H' txTo nIn hflags op rest
  | binary op => exact agrees_binary h H H' txTo nIn hflags op rest
  | OP_WITHIN => exact agrees_within h H H' txTo nIn hflags rest
  | hash op =>
    dsimp only [Legacy.execOpcode, execOpcode]
    cases hs : s.stack with
    | nil => exact .fail _
    | cons vch st =>
      dsimp only
      rw [hH]
      have hle := H.vchHash_length_le op vch
      refine .push h (fits_of_le (by omega)) fun v hv => ?_
      rw [hs]
      exact mem_cons_of_mem _ hv
  | OP_CODESEPARATOR => exact .ok _ ⟨h.stack, h.altstack⟩
  | other => exact .fail _
  | _ => cases hop

/-! ## §4. A run. -/

section

variable (E : SigEnv) {H' : ScriptHashes}
  (hH : ∀ op vch, H'.vchHash op vch = E.scriptHashes.vchHash op vch) (txTo : CTransaction)
  (nIn : Nat) (nHashType : Int32) (checker : SignatureChecker) {flags : UInt32}
  (hflags : hasFlag flags SCRIPT_VERIFY_MINIMALDATA = false)

include hH hflags in
theorem agrees_dispatch (h : Elements s) (hlen : s.stack.length < 2 ^ 63) {r : GetOpResult}
    (hop : sharedOpcode flags (opcodeOf r.opcode) = true)
    (hdata : ¬r.data.length > MAX_SCRIPT_ELEMENT_SIZE) (cache : CSignatureCache E) :
    Agrees (Legacy.dispatch E txTo nIn nHashType flags r s cache).1
      (dispatch H' checker flags r s) := by
  unfold Legacy.dispatch dispatch
  by_cases hpush : s.fExec = true ∧ r.opcode ≤ OP_PUSHDATA4
  · rw [if_pos hpush, if_pos hpush, hflags]
    have hmax : MAX_SCRIPT_ELEMENT_SIZE = 520 := rfl
    exact .push h (fits_of_le (by omega)) fun _ hv => hv
  · rw [if_neg hpush, if_neg hpush]
    by_cases hexec : s.fExec = true ∨ (OP_IF ≤ r.opcode ∧ r.opcode ≤ OP_ENDIF)
    · rw [if_pos hexec, if_pos hexec]
      have hagree := agrees_execOpcode h hlen hH txTo nIn hflags hop r.rest
      cases hcase : opcodeOf r.opcode with
      | OP_CHECKSIG | OP_CHECKSIGVERIFY | OP_CHECKMULTISIG | OP_CHECKMULTISIGVERIFY =>
        rw [hcase] at hop
        cases hop
      | _ =>
        rw [hcase] at hagree
        exact hagree
    · rw [if_neg hexec, if_neg hexec]
      exact .ok s h

variable (r : GetOpResult)

theorem countOp_eq (s : EvalState) : countOp r s = Legacy.countOp r s := rfl

theorem countOp_stack (s : EvalState) : (countOp r s).stack = s.stack := by
  unfold countOp
  split <;> rfl

theorem countOp_altstack (s : EvalState) : (countOp r s).altstack = s.altstack := by
  unfold countOp
  split <;> rfl

omit hH hflags in
theorem agrees_guard {p : Prop} [Decidable p] {b : Bool} (hb : b = decide p) (e : ScriptError)
    {x : Cached (CSignatureCache E) EvalState} {y : Except ScriptError EvalState}
    {cache : CSignatureCache E} (h : ¬p → Agrees (x cache).1 y) :
    Agrees ((if p then Cached.fail else x) cache).1 (do rejectIf b e; y) := by
  subst hb
  by_cases hp : p
  · rw [if_pos hp, decide_eq_true hp]
    exact .fail e
  · rw [if_neg hp, decide_eq_false hp]
    exact h hp

include hH hflags in
theorem agrees_evalInstruction (h : Elements s) (hlen : s.stack.length < 2 ^ 63)
    {r : GetOpResult} (hop : r.ok = true → sharedOpcode flags (opcodeOf r.opcode) = true)
    (cache : CSignatureCache E) :
    Agrees (Legacy.evalInstruction E txTo nIn nHashType flags r s cache).1
      (evalInstruction H' checker flags r s) := by
  have hcounted : Elements (countOp r s) := by
    refine ⟨?_, ?_⟩
    · rw [countOp_stack]
      exact h.stack
    · rw [countOp_altstack]
      exact h.altstack
  have hlen' : (countOp r s).stack.length < 2 ^ 63 := by
    rw [countOp_stack]
    exact hlen
  unfold Legacy.evalInstruction evalInstruction
  refine agrees_guard E (by simp) _ fun hok => ?_
  refine agrees_guard E rfl _ fun hdata => ?_
  refine agrees_guard E (by simp [countOp_eq]) _ fun _ => ?_
  refine agrees_guard E rfl _ fun _ => ?_
  rw [← countOp_eq]
  have hagree := agrees_dispatch E hH txTo nIn nHashType checker hflags hcounted hlen'
    (hop (by simpa using hok)) hdata cache
  cases hx : (Legacy.dispatch E txTo nIn nHashType flags r (countOp r s) cache).1 with
  | none =>
    rw [hx] at hagree
    obtain ⟨e, hy⟩ := hagree.of_none
    rw [Cached.bind_of_none hx, hy]
    exact .fail e
  | some s' =>
    rw [hx] at hagree
    obtain ⟨hy, hs'⟩ := hagree.of_some
    rw [Cached.bind_of_some hx, hy]
    exact agrees_guard E rfl _ fun _ => .ok s' hs'

theorem evalInstruction_eq_ok {s' : EvalState} {r : GetOpResult}
    (h : evalInstruction H' checker flags r s = .ok s') :
    r.ok = true ∧ s'.stack.length ≤ MAX_STACK := by
  simp only [evalInstruction, bind_eq_ok, rejectIf_eq_ok, pure_eq_ok] at h
  obtain ⟨_, hok, _, _, _, _, _, _, s'', _, _, hlimit, rfl⟩ := h
  have hle := of_decide_eq_false hlimit
  exact ⟨by simpa using hok, by omega⟩

include hH hflags in
/-- **The loop in both**, by induction over the instructions.  Neither gets past one that is
malformed. -/
theorem agrees_evalLoop {rs : List GetOpResult} (h : Elements s)
    (hlen : s.stack.length < 2 ^ 63)
    (hops : ∀ r ∈ rs.takeWhile GetOpResult.ok, sharedOpcode flags (opcodeOf r.opcode) = true)
    (cache : CSignatureCache E) :
    (Legacy.evalLoop E txTo nIn nHashType flags rs s cache).1 =
      (rs.foldlM (fun s r => evalInstruction H' checker flags r s) s).toOption := by
  induction rs generalizing s cache with
  | nil => rfl
  | cons r rs ih =>
    have hagree := agrees_evalInstruction E hH txTo nIn nHashType checker hflags h hlen
      (fun hok => hops r (takeWhile_cons_of_pos hok ▸ mem_cons_self)) cache
    rw [Legacy.evalLoop, foldlM_cons]
    cases hx : (Legacy.evalInstruction E txTo nIn nHashType flags r s cache).1 with
    | none =>
      rw [hx] at hagree
      obtain ⟨e, hy⟩ := hagree.of_none
      rw [Cached.bind_of_none hx, hy]
      rfl
    | some s' =>
      rw [hx] at hagree
      obtain ⟨hy, hs'⟩ := hagree.of_some
      obtain ⟨hok, hle⟩ := evalInstruction_eq_ok checker hy
      have hmax : MAX_STACK = 1000 := rfl
      rw [Cached.bind_of_some hx, hy, ok_bind]
      rw [takeWhile_cons_of_pos hok] at hops
      exact ih hs' (by omega) (fun r hr => hops r (mem_cons_of_mem _ hr)) _

end

def StackFits (stack : List Valtype) : Prop :=
  stack.length < 2 ^ 63 ∧ ∀ vch ∈ stack, Fits vch

/-- **The two interpreters agree** on every script without signature operations in front of the
first malformed instruction: both fail, or both succeed with the same final stack. -/
theorem interpreters_agree (E : SigEnv) {H' : ScriptHashes}
    (hH : ∀ op vch, H'.vchHash op vch = E.scriptHashes.vchHash op vch) (txTo : CTransaction)
    (nIn : Nat) (nHashType : Int32) (cache : CSignatureCache E) {flags : UInt32}
    (hflags : hasFlag flags SCRIPT_VERIFY_MINIMALDATA = false) {script : CScript}
    (hops : ∀ r ∈ (CScript.ops script).takeWhile GetOpResult.ok,
      sharedOpcode flags (opcodeOf r.opcode) = true)
    {stack : List Valtype} (hstack : StackFits stack) :
    (Legacy.evalScript E txTo nIn nHashType flags stack script cache).1 =
      (evalScript H' baseSignatureChecker flags stack script).toOption := by
  have hstart : Elements (.start stack script) := ⟨hstack.2, by simp [EvalState.start]⟩
  have hloop := agrees_evalLoop E hH txTo nIn nHashType baseSignatureChecker hflags hstart
    hstack.1 hops cache
  unfold Legacy.evalScript evalScript
  by_cases hsize : script.length > MAX_SCRIPT_SIZE
  · rw [if_pos hsize, decide_eq_true hsize]
    rfl
  · rw [if_neg hsize, decide_eq_false hsize, rejectIf_false, ok_bind]
    cases hy : (CScript.ops script).foldlM
        (fun s r => evalInstruction H' baseSignatureChecker flags r s)
        (.start stack script) with
    | error e =>
      rw [hy] at hloop
      rw [Cached.bind_of_none hloop]
      rfl
    | ok s =>
      rw [hy] at hloop
      rw [Cached.bind_of_some hloop, ok_bind]
      cases hexec : s.vfExec with
      | nil => rfl
      | cons fValue vfExec => rfl

/-- `OP_2 OP_3 OP_ADD OP_1 OP_PICK OP_SIZE OP_HASH160`, over an element that is there
before. -/
theorem interpreters_agree_sum :
    (Legacy.evalScript sampleSigEnv (CTransaction.null 0) 0 0 0 [[7]]
      [0x52, 0x53, 0x93, 0x51, 0x79, 0x82, 0xa9] .empty).1 =
    (evalScript sampleScriptHashes baseSignatureChecker 0 [[7]]
      [0x52, 0x53, 0x93, 0x51, 0x79, 0x82, 0xa9]).toOption :=
  interpreters_agree sampleSigEnv (fun _ _ => rfl) (CTransaction.null 0) 0 0 .empty (by decide)
    (by decide +kernel) ⟨by decide, by simp [Fits]⟩

end Fantom.Script
