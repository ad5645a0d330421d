/-
  Fantom.Script.Limits — The limits of a run of `EvalScript` over `CBigNum`, at every opcode
  boundary.

  * `evalScript_withinLimits` — every call returns, after an iteration for each opcode at most,
    within the limits and above the bottom of the stack all the way.
-/
import Fantom.Core.Decoding
import Fantom.Lib.WhileLoop
import Fantom.Script.Agreement
import Fantom.Script.SigOps
import Fantom.Script.Stacktop

namespace Fantom.Script

open Core Chain Lib Option Legacy Nat

/-! ## §1. The elements that are left. -/

/-- Every element has at most as many bytes as may be pushed. -/
def Short (stack : List Valtype) : Prop := ∀ vch ∈ stack, vch.length ≤ MAX_SCRIPT_ELEMENT_SIZE

/-- The limits between two instructions. -/
structure Limits (s : EvalState) : Prop where
  size : s.stack.length + s.altstack.length ≤ MAX_STACK
  nOpCount : s.nOpCount ≤ MAX_OPS
  stack : Short s.stack
  altstack : Short s.altstack

variable {stack stack' st : List Valtype} {vch : Valtype}

theorem short_cons : Short (vch :: st) ↔ vch.length ≤ MAX_SCRIPT_ELEMENT_SIZE ∧ Short st :=
  List.forall_mem_cons

theorem Short.of_mem (h : Short stack) (hmem : ∀ vch ∈ stack', vch ∈ stack) : Short stack' :=
  fun vch hvch => h vch (hmem vch hvch)

theorem vchBool_short (b : Bool) : (vchBool b).length ≤ MAX_SCRIPT_ELEMENT_SIZE := by
  cases b <;> decide

theorem getvch_short {n : Int} (h : n.natAbs < 2 ^ 63) :
    (CBigNum.getvch n).length ≤ MAX_SCRIPT_ELEMENT_SIZE := by
  have hlen := getvch_length_le (n := n) (k := 8) (by omega)
  exact hlen.trans (by decide)

theorem getvch_size_short {n : Nat} (h : n ≤ MAX_STACK) :
    (CBigNum.getvch n).length ≤ MAX_SCRIPT_ELEMENT_SIZE := by
  have hmax : MAX_STACK = 1000 := rfl
  exact getvch_short (by rw [Int.natAbs_natCast]; omega)

theorem smallNumber_short (opcode : UInt8) :
    (CBigNum.getvch (smallNumber opcode)).length ≤ MAX_SCRIPT_ELEMENT_SIZE := by
  have hlt := opcode.toNat_lt
  have hone : OP_1.toNat = 81 := rfl
  refine getvch_short ?_
  unfold smallNumber
  omega

theorem castToBigNum_bound {bn : Int} (h : castToBigNum vch nDefaultMaxNumSize = some bn) :
    -2147483647 ≤ bn ∧ bn ≤ 2147483647 := by
  rw [castToBigNum_eq] at h
  split at h
  next => cases h
  next hlen =>
    cases h
    exact setvch_bound (not_lt.mp hlen)

/-! ## §2. One operation. -/

/-- An operation counts itself before it runs, and leaves short elements. -/
structure Kept (s s' : EvalState) : Prop where
  nOpCount : s'.nOpCount = s.nOpCount
  stack : Short s'.stack
  altstack : Short s'.altstack

variable {s s' : EvalState}

theorem Kept.of_stack (haltstack : Short s.altstack) (hstack : Short stack) :
    Kept s { s with stack } := ⟨rfl, hstack, haltstack⟩

theorem Kept.push (haltstack : Short s.altstack) (hst : Short st)
    (hvch : vch.length ≤ MAX_SCRIPT_ELEMENT_SIZE) : Kept s { s with stack := vch :: st } :=
  .of_stack haltstack (short_cons.mpr ⟨hvch, hst⟩)

section Opcodes

variable {H : ScriptHashes} {txTo : CTransaction} {nIn : Nat} {flags : UInt32} {rest : CScript}

theorem execCheckLockTimeVerify_eq_self
    (h : Legacy.execCheckLockTimeVerify txTo nIn flags s = some s') : s' = s := by
  unfold Legacy.execCheckLockTimeVerify at h
  split at h
  · split at h
    · cases h
    · exact (Option.some.inj h).symm
  · cases hs : s.stack with
    | nil =>
      rw [hs] at h
      cases h
    | cons vch st =>
      rw [hs] at h
      obtain ⟨nLockTime, _, h⟩ := bind_eq_some_iff.mp h
      by_cases hneg : nLockTime < 0
      · rw [if_pos hneg] at h
        cases h
      · rw [if_neg hneg] at h
        cases hlock : Legacy.checkLockTime txTo nIn nLockTime with
        | false =>
          rw [hlock] at h
          cases h
        | true =>
          rw [hlock] at h
          exact (Option.some.inj h).symm

theorem kept_unary {op : UnaryOp}
    (h : Legacy.execOpcode H txTo nIn flags (.unary op) rest s = some s')
    (hstack : Short s.stack) (haltstack : Short s.altstack) : Kept s s' := by
  dsimp only [Legacy.execOpcode] at h
  cases hs : s.stack with
  | nil =>
    rw [hs] at h
    cases h
  | cons vch st =>
    rw [hs] at h hstack
    obtain ⟨bn, hbn, h⟩ := bind_eq_some_iff.mp h
    cases h
    exact .push haltstack (short_cons.mp hstack).2
      (getvch_short (execUnary_bound op (castToBigNum_bound hbn)))

theorem kept_binary {op : BinaryOp}
    (h : Legacy.execOpcode H txTo nIn flags (.binary op) rest s = some s')
    (hstack : Short s.stack) (haltstack : Short s.altstack) : Kept s s' := by
  dsimp only [Legacy.execOpcode] at h
  rcases hs : s.stack with _ | ⟨vch2, _ | ⟨vch1, st⟩⟩
  · rw [hs] at h
    cases h
  · rw [hs] at h
    cases h
  rw [hs] at h hstack
  have hst := (short_cons.mp (short_cons.mp hstack).2).2
  obtain ⟨bn1, hbn1, h⟩ := bind_eq_some_iff.mp h
  obtain ⟨bn2, hbn2, h⟩ := bind_eq_some_iff.mp h
  split at h
  · split at h
    · cases h
      exact .of_stack haltstack hst
    · cases h
  · cases h
    exact .push haltstack hst
      (getvch_short (execBinary_bound op (castToBigNum_bound hbn1) (castToBigNum_bound hbn2)))

theorem kept_within (h : Legacy.execOpcode H txTo nIn flags .OP_WITHIN rest s = some s')
    (hstack : Short s.stack) (haltstack : Short s.altstack) : Kept s s' := by
  dsimp only [Legacy.execOpcode] at h
  rcases hs : s.stack with _ | ⟨vch3, _ | ⟨vch2, _ | ⟨vch1, st⟩⟩⟩
  · rw [hs] at h
    cases h
  · rw [hs] at h
    cases h
  · rw [hs] at h
    cases h
  · rw [hs] at h hstack
    obtain ⟨bn1, _, h⟩ := bind_eq_some_iff.mp h
    obtain ⟨bn2, _, h⟩ := bind_eq_some_iff.mp h
    obtain ⟨bn3, _, h⟩ := bind_eq_some_iff.mp h
    cases h
    exact .push haltstack (short_cons.mp (short_cons.mp (short_cons.mp hstack).2).2).2
      (vchBool_short _)

theorem kept_if {f : Valtype → Bool}
    (h : (if s.fExec then
        match s.stack with
        | [] => none
        | vch :: st => some { s with stack := st, vfExec := f vch :: s.vfExec }
      else some { s with vfExec := false :: s.vfExec }) = some s')
    (hstack : Short s.stack) (haltstack : Short s.altstack) : Kept s s' := by
  split at h
  · cases hs : s.stack with
    | nil =>
      rw [hs] at h
      cases h
    | cons vch st =>
      rw [hs] at h hstack
      cases h
      exact ⟨rfl, (short_cons.mp hstack).2, haltstack⟩
  · cases h
    exact ⟨rfl, hstack, haltstack⟩

/-- **What an operation without signatures leaves.** -/
theorem kept_execOpcode {opcode : Opcode}
    (h : Legacy.execOpcode H txTo nIn flags opcode rest s = some s') (hstack : Short s.stack)
    (haltstack : Short s.altstack) (hlen : s.stack.length ≤ MAX_STACK) : Kept s s' := by
  cases opcode with
  | unary op => exact kept_unary h hstack haltstack
  | binary op => exact kept_binary h hstack haltstack
  | OP_WITHIN => exact kept_within h hstack haltstack
  | OP_IF => exact kept_if h hstack haltstack
  | OP_NOTIF => exact kept_if h hstack haltstack
  | number opcode =>
    cases h
    exact .push haltstack hstack (smallNumber_short opcode)
  | OP_NOP =>
    cases h
    exact ⟨rfl, hstack, haltstack⟩
  | OP_CHECKLOCKTIMEVERIFY =>
    obtain rfl := execCheckLockTimeVerify_eq_self h
    exact ⟨rfl, hstack, haltstack⟩
  | upgradableNop =>
    dsimp only [Legacy.execOpcode] at h
    split at h
    · cases h
    · cases h
      exact ⟨rfl, hstack, haltstack⟩
  | OP_ELSE | OP_ENDIF =>
    dsimp only [Legacy.execOpcode] at h
    split at h
    · cases h
    · cases h
      exact ⟨rfl, hstack, haltstack⟩
  | OP_VERIFY =>
    dsimp only [Legacy.execOpcode] at h
    split at h
    · cases h
    next vch st hs =>
      rw [hs] at hstack
      split at h
      · cases h
        exact .of_stack haltstack (short_cons.mp hstack).2
      · cases h
  | OP_TOALTSTACK =>
    dsimp only [Legacy.execOpcode] at h
    split at h
    · cases h
    next vch st hs =>
      rw [hs, short_cons] at hstack
      cases h
      exact ⟨rfl, hstack.2, short_cons.mpr ⟨hstack.1, haltstack⟩⟩
  | OP_FROMALTSTACK =>
    dsimp only [Legacy.execOpcode] at h
    split at h
    · cases h
    next vch altstack hs =>
      rw [hs, short_cons] at haltstack
      cases h
      exact ⟨rfl, short_cons.mpr ⟨haltstack.1, hstack⟩, haltstack.2⟩
  | stack op =>
    obtain ⟨stack', hstack', rfl⟩ := map_eq_some_iff.mp h
    exact .of_stack haltstack (hstack.of_mem (execStack_mem hstack'))
  | OP_PICK | OP_ROLL =>
    obtain ⟨stack', hstack', rfl⟩ := map_eq_some_iff.mp h
    exact .of_stack haltstack (hstack.of_mem (execPick_mem hstack'))
  | OP_DEPTH =>
    cases h
    exact .push haltstack hstack (getvch_size_short hlen)
  | OP_SIZE =>
    dsimp only [Legacy.execOpcode] at h
    split at h
    · cases h
    next vch st hs =>
      rw [hs] at hstack
      cases h
      have hvch : vch.length ≤ MAX_STACK := (short_cons.mp hstack).1.trans (by decide)
      exact .push haltstack hstack (getvch_size_short hvch)
  | OP_EQUAL =>
    dsimp only [Legacy.execOpcode] at h
    split at h
    next vch2 vch1 st hs =>
      rw [hs] at hstack
      cases h
      exact .push haltstack (short_cons.mp (short_cons.mp hstack).2).2 (vchBool_short _)
    · cases h
  | OP_EQUALVERIFY =>
    dsimp only [Legacy.execOpcode] at h
    split at h
    next vch2 vch1 st hs =>
      rw [hs] at hstack
      split at h
      · cases h
        exact .of_stack haltstack (short_cons.mp (short_cons.mp hstack).2).2
      · cases h
    · cases h
  | hash op =>
    dsimp only [Legacy.execOpcode] at h
    split at h
    · cases h
    next vch st hs =>
      rw [hs] at hstack
      cases h
      exact .push haltstack (short_cons.mp hstack).2
        ((H.vchHash_length_le op vch).trans (by decide))
  | OP_CODESEPARATOR =>
    cases h
    exact ⟨rfl, hstack, haltstack⟩
  | _ => cases h

end Opcodes

section Signatures

variable {E : SigEnv} {txTo : CTransaction} {nIn : Nat} {nHashType : Int32} {flags : UInt32}
  {cache : CSignatureCache E} {r : GetOpResult}

theorem kept_pushSuccess {fVerify fSuccess : Bool}
    (h : (Legacy.pushSuccess E fVerify s st fSuccess cache).1 = some s') (hst : Short st)
    (haltstack : Short s.altstack) : Kept s s' := by
  unfold Legacy.pushSuccess at h
  split at h
  · cases h
    exact .push haltstack hst (vchBool_short _)
  · split at h
    · cases h
      exact .of_stack haltstack hst
    · cases h

theorem kept_execCheckSig {fVerify : Bool}
    (h : (Legacy.execCheckSig E txTo nIn nHashType flags fVerify s cache).1 = some s')
    (hstack : Short s.stack) (haltstack : Short s.altstack) : Kept s s' := by
  unfold Legacy.execCheckSig at h
  rcases hs : s.stack with _ | ⟨vchPubKey, _ | ⟨vchSig, st⟩⟩
  · rw [hs] at h
    cases h
  · rw [hs] at h
    cases h
  · rw [hs] at h hstack
    obtain ⟨fSuccess, _, h⟩ := Cached.bind_fst_eq_some.mp h
    exact kept_pushSuccess h (short_cons.mp (short_cons.mp hstack).2).2 haltstack

/-- The number on top, which `OP_CHECKMULTISIG` takes for the number of keys. -/
def nKeysCount (stack : List Valtype) : Nat :=
  (stack.head?.bind fun vch => Legacy.countArg vch 20).getD 0

theorem multiSigArgs_limits {nOpCount : Nat} {args : Legacy.MultiSigArgs}
    (h : Legacy.multiSigArgs stack nOpCount = some args) :
    args.nKeysCount = nKeysCount stack ∧ nOpCount + args.nKeysCount ≤ MAX_OPS ∧
      ∀ vch ∈ args.st, vch ∈ stack := by
  obtain ⟨_, vch, hvch, hcount⟩ := multiSigArgs_nKeysCount h
  refine ⟨by rw [nKeysCount, hvch, bind_some, hcount, getD_some], ?_, ?_⟩
  · obtain ⟨st, rfl⟩ : ∃ st, stack = vch :: st := List.head?_eq_some_iff.mp hvch
    unfold Legacy.multiSigArgs at h
    split at h
    · cases h
    · rw [List.getElem?_cons_zero] at h
      dsimp only [bind_eq_bind, bind_some] at h
      rw [hcount, bind_some] at h
      split at h
      · cases h
      next hops => exact not_lt.mp hops
  · rcases Stacktop.multiSigDepths_cases stack nOpCount with
      ⟨hnone, _⟩ | ⟨nKeysCount, nSigsCount, _, _, _, hargs⟩
    · rw [hnone] at h
      cases h
    · rw [hargs] at h
      cases h
      exact fun vch hvch => List.mem_of_mem_drop hvch

theorem kept_execCheckMultiSig {fVerify : Bool}
    (h : (Legacy.execCheckMultiSig E txTo nIn nHashType flags fVerify s cache).1 = some s')
    (hstack : Short s.stack) (haltstack : Short s.altstack) :
    s.nOpCount + nKeysCount s.stack ≤ MAX_OPS ∧
      Kept { s with nOpCount := s.nOpCount + nKeysCount s.stack } s' := by
  unfold Legacy.execCheckMultiSig at h
  obtain ⟨args, hargs, h⟩ := Cached.bind_fst_eq_some.mp h
  obtain ⟨hkeys, hops, hmem⟩ := multiSigArgs_limits hargs
  obtain ⟨fSuccess, _, h⟩ := Cached.bind_fst_eq_some.mp h
  rw [hkeys] at h hops
  refine ⟨hops, ?_⟩
  split at h
  · cases h
  · exact kept_pushSuccess h (hstack.of_mem hmem) haltstack

/-! ## §3. One instruction. -/

/-- The keys that an instruction counts besides itself. -/
def keysCounted (r : GetOpResult) (s : EvalState) : Nat :=
  if s.fExec ∧ (r.opcode = OP_CHECKMULTISIG ∨ r.opcode = OP_CHECKMULTISIGVERIFY) then
    nKeysCount s.stack
  else 0

theorem pushes_multiSig : ∀ opcode : UInt8,
    opcode = OP_CHECKMULTISIG ∨ opcode = OP_CHECKMULTISIGVERIFY → ¬opcode ≤ OP_PUSHDATA4 :=
  forall_opcode (by decide +kernel)

theorem keysCounted_of_not {r : GetOpResult}
    (h : ¬(r.opcode = OP_CHECKMULTISIG ∨ r.opcode = OP_CHECKMULTISIGVERIFY)) (s : EvalState) :
    keysCounted r s = 0 := if_neg fun hr => h hr.2

theorem exec_limits
    (h : (Legacy.exec E txTo nIn nHashType flags (opcodeOf r.opcode) r.rest s cache).1 = some s')
    (hrun : s.fExec = true ∨ (OP_IF ≤ r.opcode ∧ r.opcode ≤ OP_ENDIF))
    (hops : s.nOpCount ≤ MAX_OPS) (hstack : Short s.stack) (haltstack : Short s.altstack)
    (hlen : s.stack.length ≤ MAX_STACK) :
    s.nOpCount + keysCounted r s ≤ MAX_OPS ∧
      Kept { s with nOpCount := s.nOpCount + keysCounted r s } s' := by
  have hcounted (hmulti : r.opcode = OP_CHECKMULTISIG ∨ r.opcode = OP_CHECKMULTISIGVERIFY) :
      keysCounted r s = nKeysCount s.stack :=
    if_pos ⟨hrun.resolve_right (checkMultiSig_ranges r.opcode hmulti).1, hmulti⟩
  -- an operation that is not one with many signatures counts no key
  have hplain (hne : opcodeOf r.opcode ≠ .OP_CHECKMULTISIG ∧
      opcodeOf r.opcode ≠ .OP_CHECKMULTISIGVERIFY) (hkept : Kept s s') :
      s.nOpCount + keysCounted r s ≤ MAX_OPS ∧
        Kept { s with nOpCount := s.nOpCount + keysCounted r s } s' := by
    have hzero : keysCounted r s = 0 := by
      refine keysCounted_of_not (fun hmulti => ?_) s
      rcases hmulti with hmulti | hmulti
      · exact hne.1 (hmulti ▸ rfl)
      · exact hne.2 (hmulti ▸ rfl)
    rw [hzero]
    exact ⟨hops, hkept⟩
  cases hop : opcodeOf r.opcode with
  | OP_CHECKMULTISIG =>
    rw [hop] at h
    rw [hcounted (opcodeOf_checkMultiSig _ (.inl hop))]
    exact kept_execCheckMultiSig h hstack haltstack
  | OP_CHECKMULTISIGVERIFY =>
    rw [hop] at h
    rw [hcounted (opcodeOf_checkMultiSig _ (.inr hop))]
    exact kept_execCheckMultiSig h hstack haltstack
  | OP_CHECKSIG | OP_CHECKSIGVERIFY =>
    rw [hop] at h
    exact hplain (by rw [hop]; exact ⟨nofun, nofun⟩) (kept_execCheckSig h hstack haltstack)
  | _ =>
    rw [hop] at h
    dsimp only [Legacy.exec, Cached.ofOption] at h
    exact hplain (by rw [hop]; exact ⟨nofun, nofun⟩)
      (kept_execOpcode h hstack haltstack hlen)

theorem dispatch_limits
    (h : (Legacy.dispatch E txTo nIn nHashType flags r s cache).1 = some s')
    (hdata : r.data.length ≤ MAX_SCRIPT_ELEMENT_SIZE) (hs : Limits s) :
    s.nOpCount + keysCounted r s ≤ MAX_OPS ∧
      Kept { s with nOpCount := s.nOpCount + keysCounted r s } s' := by
  have hlen : s.stack.length ≤ MAX_STACK := (le_add_right _ _).trans hs.size
  unfold Legacy.dispatch at h
  split at h
  next hpush =>
    cases h
    rw [keysCounted_of_not fun hmulti => pushes_multiSig r.opcode hmulti hpush.2]
    exact ⟨hs.nOpCount, .push hs.altstack hs.stack hdata⟩
  next =>
    split at h
    next hrun => exact exec_limits h hrun hs.nOpCount hs.stack hs.altstack hlen
    next hskip =>
      cases h
      have hzero : keysCounted r s = 0 := if_neg fun hr => hskip (.inl hr.1)
      rw [hzero]
      exact ⟨hs.nOpCount, rfl, hs.stack, hs.altstack⟩

theorem countOp_nOpCount (r : GetOpResult) (s : EvalState) :
    (Legacy.countOp r s).nOpCount = s.nOpCount + if r.opcode > OP_16 then 1 else 0 := by
  unfold Legacy.countOp
  split <;> rfl

theorem keysCounted_countOp (r : GetOpResult) (s : EvalState) :
    keysCounted r (Legacy.countOp r s) = keysCounted r s := by
  unfold keysCounted
  rw [countOp_fExec, Legacy.countOp_stack]

theorem limits_countOp (hs : Limits s)
    (h : ¬(r.opcode > OP_16 ∧ (Legacy.countOp r s).nOpCount > MAX_OPS)) :
    Limits (Legacy.countOp r s) := by
  refine ⟨?_, ?_, ?_, ?_⟩
  · rw [← countOp_eq, countOp_stack, countOp_altstack]
    exact hs.size
  · by_cases hop : r.opcode > OP_16
    · exact not_lt.mp fun hmax => h ⟨hop, hmax⟩
    · rw [countOp_nOpCount, if_neg hop]
      exact hs.nOpCount
  · rw [← countOp_eq, countOp_stack]
    exact hs.stack
  · rw [← countOp_eq, countOp_altstack]
    exact hs.altstack

/-- **One instruction stays within the limits**, and counts itself if it is no push, and its
keys. -/
theorem limits_evalInstruction
    (h : (Legacy.evalInstruction E txTo nIn nHashType flags r s cache).1 = some s')
    (hs : Limits s) :
    Limits s' ∧
      s'.nOpCount = s.nOpCount + (if r.opcode > OP_16 then 1 else 0) + keysCounted r s := by
  obtain ⟨_, hdata, hcount, _, hdispatch, hsize⟩ := evalInstruction_dispatch h
  obtain ⟨hops, hkept⟩ :=
    dispatch_limits hdispatch (not_lt.mp hdata) (limits_countOp hs hcount)
  have hcounted := hkept.nOpCount
  refine ⟨⟨not_lt.mp hsize, ?_, hkept.stack, hkept.altstack⟩, ?_⟩
  · rw [hcounted]
    exact hops
  · rw [hcounted, keysCounted_countOp, countOp_nOpCount]

end Signatures

/-! ## §4. The loop. -/

section Loop

variable (E : SigEnv) (txTo : CTransaction) (nIn : Nat) (nHashType : Int32) (flags : UInt32)

/-- What `EvalScript` returns, and the cache it leaves. -/
abbrev Outcome := Except Stop (List Valtype) × CSignatureCache E

/-- Where the loop of `EvalScript` is: the script from `pc` on, its variables, and the cache. -/
structure Frame where
  pc : CScript
  s : EvalState
  cache : CSignatureCache E

def evalTurn (f : Frame E) : Frame E ⊕ Outcome E :=
  if f.pc = [] then .inr (if f.s.vfExec ≠ [] then .error .fails else .ok f.s.stack, f.cache)
  else
    let r := getOp f.pc
    match Stacktop.evalInstruction E txTo nIn nHashType flags r f.s f.cache with
    | (.error e, cache) => .inr (.error e, cache)
    | (.ok s, cache) => .inl ⟨r.rest, s, cache⟩

def Frame.start (stack : List Valtype) (script : CScript) (cache : CSignatureCache E) : Frame E :=
  ⟨script, .start stack script, cache⟩

/-- `EvalScript`, if it returns within `n` rounds. -/
def evalScriptTurns (n : Nat) (stack : List Valtype) (script : CScript)
    (cache : CSignatureCache E) : Option (Outcome E) :=
  if script.length > MAX_SCRIPT_SIZE then some (.error .fails, cache)
  else WhileLoop.turns (evalTurn E txTo nIn nHashType flags) n (.start E stack script cache)

/-- The keys that the first `n` rounds count. -/
def countedKeys : Nat → Frame E → Nat
  | 0, _ => 0
  | n + 1, f => keysCounted (getOp f.pc) f.s +
      (evalTurn E txTo nIn nHashType flags f).elim (countedKeys n) fun _ => 0

/-- What the loop and the test behind it come to. -/
def finished (rs : List GetOpResult) (s : EvalState) : Cached (CSignatureCache E) (List Valtype) :=
  (Legacy.evalLoop E txTo nIn nHashType flags rs s).bind fun s =>
    if s.vfExec ≠ [] then .fail else .ok s.stack

variable {E txTo nIn nHashType flags} {f f' : Frame E}

theorem evalTurn_nil (s : EvalState) (cache : CSignatureCache E) :
    evalTurn E txTo nIn nHashType flags ⟨[], s, cache⟩ =
      .inr (if s.vfExec ≠ [] then .error .fails else .ok s.stack, cache) := rfl

theorem evalTurn_cases {b : UInt8} {pc : CScript} (hpc : f.pc = b :: pc) :
    ((Legacy.evalInstruction E txTo nIn nHashType flags (getOp f.pc) f.s f.cache).1 = none ∧
      evalTurn E txTo nIn nHashType flags f = .inr (.error .fails,
        (Legacy.evalInstruction E txTo nIn nHashType flags (getOp f.pc) f.s f.cache).2)) ∨
    ∃ s',
      (Legacy.evalInstruction E txTo nIn nHashType flags (getOp f.pc) f.s f.cache).1 = some s' ∧
      evalTurn E txTo nIn nHashType flags f = .inl ⟨(getOp f.pc).rest, s',
        (Legacy.evalInstruction E txTo nIn nHashType flags (getOp f.pc) f.s f.cache).2⟩ := by
  have hne : f.pc ≠ [] := by
    rw [hpc]
    exact List.cons_ne_nil b pc
  rw [evalTurn, if_neg hne]
  dsimp only
  rw [Stacktop.evalInstruction_eq]
  unfold CheckedStack.guarded
  rcases Legacy.evalInstruction E txTo nIn nHashType flags (getOp f.pc) f.s f.cache with
    ⟨_ | s', cache⟩
  · exact .inl ⟨rfl, rfl⟩
  · exact .inr ⟨s', rfl, rfl⟩

theorem finished_cons_none {r : GetOpResult} {rs : List GetOpResult} {s : EvalState}
    {cache : CSignatureCache E}
    (h : (Legacy.evalInstruction E txTo nIn nHashType flags r s cache).1 = none) :
    CheckedStack.guarded (finished E txTo nIn nHashType flags (r :: rs) s) cache =
      (.error .fails, (Legacy.evalInstruction E txTo nIn nHashType flags r s cache).2) := by
  unfold finished CheckedStack.guarded
  dsimp only [Legacy.evalLoop, Cached.bind]
  rcases hr : Legacy.evalInstruction E txTo nIn nHashType flags r s cache with ⟨_ | s', cache'⟩
  · rfl
  · rw [hr] at h
    cases h

theorem finished_cons_some {r : GetOpResult} {rs : List GetOpResult} {s s' : EvalState}
    {cache : CSignatureCache E}
    (h : (Legacy.evalInstruction E txTo nIn nHashType flags r s cache).1 = some s') :
    CheckedStack.guarded (finished E txTo nIn nHashType flags (r :: rs) s) cache =
      CheckedStack.guarded (finished E txTo nIn nHashType flags rs s')
        (Legacy.evalInstruction E txTo nIn nHashType flags r s cache).2 := by
  unfold finished CheckedStack.guarded
  dsimp only [Legacy.evalLoop, Cached.bind]
  rcases hr : Legacy.evalInstruction E txTo nIn nHashType flags r s cache with ⟨_ | a, cache'⟩
  · rw [hr] at h
    cases h
  · rw [hr] at h
    cases h
    rfl

/-- **The loop returns**, after a round for each opcode at most and one that finds the end. -/
theorem turns_evalTurn (f : Frame E) :
    WhileLoop.turns (evalTurn E txTo nIn nHashType flags) ((CScript.ops f.pc).length + 1) f =
      some (CheckedStack.guarded
        (finished E txTo nIn nHashType flags (CScript.ops f.pc) f.s) f.cache) := by
  obtain ⟨pc, s, cache⟩ := f
  -- on the opcodes that are left
  induction hops : CScript.ops pc generalizing pc s cache with
  | nil =>
    obtain rfl := ops_eq_nil.mp hops
    refine (WhileLoop.turns_succ_inr (evalTurn_nil s cache) _).trans ?_
    rw [finished, Legacy.evalLoop]
    dsimp only [CheckedStack.guarded, Cached.bind, Cached.ok]
    split <;> rfl
  | cons r rs ih =>
    obtain ⟨b, pc, rfl⟩ : ∃ b st, pc = b :: st := by
      cases pc with
      | nil => cases hops
      | cons b st => exact ⟨b, st, rfl⟩
    obtain ⟨rfl, hrest⟩ := ops_eq_cons hops
    rcases evalTurn_cases (E := E) (f := ⟨b :: pc, s, cache⟩) rfl with
      ⟨hnone, hturn⟩ | ⟨s', hsome, hturn⟩
    · refine (WhileLoop.turns_succ_inr hturn _).trans ?_
      rw [finished_cons_none hnone]
    · refine (WhileLoop.turns_succ_inl hturn _).trans ?_
      rw [List.length_cons, ih _ _ _ hrest, finished_cons_some hsome]

theorem limits_boundary {n : Nat} (hf : Limits f.s)
    (h : WhileLoop.boundary (evalTurn E txTo nIn nHashType flags) n f = some f') :
    Limits f'.s ∧ f'.s.nOpCount =
      f.s.nOpCount + ((CScript.ops f.pc).take n).countP (fun r => r.opcode > OP_16) +
        countedKeys E txTo nIn nHashType flags n f := by
  induction n generalizing f with
  | zero =>
    cases h
    exact ⟨hf, rfl⟩
  | succ n ih =>
    cases hpc : f.pc with
    | nil =>
      obtain ⟨pc, s, cache⟩ := f
      obtain rfl : pc = [] := hpc
      rw [WhileLoop.boundary_succ_inr (evalTurn_nil s cache)] at h
      cases h
    | cons b pc =>
      rcases evalTurn_cases (E := E) hpc with ⟨_, hturn⟩ | ⟨s', hsome, hturn⟩
      · rw [WhileLoop.boundary_succ_inr hturn] at h
        cases h
      · rw [WhileLoop.boundary_succ_inl hturn] at h
        obtain ⟨hs', hcount⟩ := limits_evalInstruction hsome hf
        obtain ⟨hf', htotal⟩ := ih hs' h
        refine ⟨hf', ?_⟩
        have hops : CScript.ops f.pc = getOp f.pc :: CScript.ops (getOp f.pc).rest := by
          rw [hpc]
          exact ops_cons b pc
        rw [htotal, countedKeys, hturn, ← hpc, hops, List.take_succ_cons, List.countP_cons,
          Sum.elim_inl, hcount]
        simp only [decide_eq_true_eq]
        omega

end Loop

/-- **The limits of a script**: from a stack within them every call of `EvalScript` returns, after
a round for each opcode of the script at most and one that finds the end, with what
`Legacy.evalScript` says and without an access below the bottom; and between any two rounds the
stacks, their elements and the operations counted are within the limits, where the operations
counted are the opcodes read so far that are no pushes, and the keys. -/
theorem evalScript_withinLimits (E : SigEnv) (txTo : CTransaction) (nIn : Nat)
    (nHashType : Int32) (flags : UInt32) {stack : List Valtype} (script : CScript)
    (cache : CSignatureCache E) (hlen : stack.length ≤ MAX_STACK) (hshort : Short stack) :
    (∃ out : Outcome E,
      evalScriptTurns E txTo nIn nHashType flags ((CScript.ops script).length + 1) stack script
        cache = some out ∧
      out.1 ≠ .error .belowBottom ∧
      (out.1.toOption, out.2) =
        Legacy.evalScript E txTo nIn nHashType flags stack script cache) ∧
    ∀ n f, WhileLoop.boundary (evalTurn E txTo nIn nHashType flags) n
        (.start E stack script cache) = some f →
      Limits f.s ∧ f.s.nOpCount =
        ((CScript.ops script).take n).countP (fun r => r.opcode > OP_16) +
          countedKeys E txTo nIn nHashType flags n (.start E stack script cache) := by
  refine ⟨?_, fun n f h => ?_⟩
  · unfold evalScriptTurns Legacy.evalScript
    split
    next => exact ⟨_, rfl, nofun, rfl⟩
    next =>
      exact ⟨_, turns_evalTurn (.start E stack script cache),
        CheckedStack.guarded_ne_belowBottom _ _, CheckedStack.guarded_toOption _ _⟩
  · have hstart : Limits (Frame.start E stack script cache).s :=
      ⟨hlen, zero_le _, hshort, nofun⟩
    obtain ⟨hlimits, hcount⟩ := limits_boundary hstart h
    refine ⟨hlimits, ?_⟩
    rw [hcount]
    exact congrArg (· + _) (zero_add _)

def twoElements : List Valtype := [[1], [2, 3]]

/-- `OP_TOALTSTACK OP_DUP OP_FROMALTSTACK`, three operations. -/
def overAltstack : CScript := [0x6b, 0x76, 0x6c]

theorem evalScript_withinLimits_altstack :
    (∃ out : Outcome sampleSigEnv,
      evalScriptTurns sampleSigEnv ⟨1, 1100, [], [], 0⟩ 0 0 0 4 twoElements overAltstack .empty =
        some out ∧
      out.1 ≠ .error .belowBottom ∧
      (out.1.toOption, out.2) =
        Legacy.evalScript sampleSigEnv ⟨1, 1100, [], [], 0⟩ 0 0 0 twoElements overAltstack .empty) ∧
    ∀ n f, WhileLoop.boundary (evalTurn sampleSigEnv ⟨1, 1100, [], [], 0⟩ 0 0 0) n
        (.start sampleSigEnv twoElements overAltstack .empty) = some f →
      Limits f.s ∧ f.s.nOpCount =
        ((CScript.ops overAltstack).take n).countP (fun r => r.opcode > OP_16) +
          countedKeys sampleSigEnv ⟨1, 1100, [], [], 0⟩ 0 0 0 n
            (.start sampleSigEnv twoElements overAltstack .empty) :=
  evalScript_withinLimits sampleSigEnv ⟨1, 1100, [], [], 0⟩ 0 0 0 overAltstack .empty
    (by decide) (by unfold Short; decide)

end Fantom.Script
