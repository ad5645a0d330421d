/-
  Fantom.Script.SigOps — The signature checks that a script costs, against the count of signature
  operations that blocks are limited by.

  * `getSigOpCount_bounds_calls` — a whole script, and the redeem script of `VerifyScript`.

  The count guesses the number of keys from the opcode before the operation. That opcode has pushed
  just this number, as nothing comes between the two.
-/
import Fantom.Script.Legacy
import Fantom.Script.SigCache

namespace Fantom.Script.Legacy

open Core Chain Lib List Option UInt32 Nat CScript

/-! ## §1. The calls of a run. -/

variable (E : SigEnv) (txTo : CTransaction) (nIn : Nat) (nHashType : Int32) (flags : UInt32)

/-- The calls after `x`, when it has a result. -/
def callsAfter {α : Type} (x : Cached (CSignatureCache E) α)
    (next : α → CSignatureCache E → List SigCall) (cache : CSignatureCache E) : List SigCall :=
  match x cache with
  | (none, _) => []
  | (some a, cache) => next a cache

variable (vchSig vchPubKey : Valtype)

variable (scriptCode : CScript)

/-- `CheckSignatureEncoding(..) && CheckPubKeyEncoding(..) && CheckSig(..)` -/
def checkOneCalls : List SigCall :=
  if checkEncodings vchSig vchPubKey flags then
    [⟨vchSig, vchPubKey, scriptCode, txTo, nIn, nHashType, flags⟩]
  else []

/-- The calls of `CheckSig` that the loop over keys and signatures makes. -/
def multiSigCalls (scriptCode : CScript) :
    List Valtype → List Valtype → CSignatureCache E → List SigCall
  | _, [], _ => []
  | [], _ :: _, _ => []
  | vchPubKey :: keys, vchSig :: sigs, cache =>
    checkOneCalls txTo nIn nHashType flags vchSig vchPubKey scriptCode ++
      callsAfter E (checkOne E txTo nIn nHashType flags vchSig vchPubKey scriptCode)
        (fun fOk cache =>
          if (if fOk then sigs else vchSig :: sigs).length > keys.length then []
          else multiSigCalls scriptCode keys (if fOk then sigs else vchSig :: sigs) cache)
        cache

def execCheckSigCalls (s : EvalState) : List SigCall :=
  match s.stack with
  | vchPubKey :: vchSig :: _ =>
    checkOneCalls txTo nIn nHashType flags vchSig vchPubKey
      (findAndDelete s.pbegincodehash (push vchSig))
  | _ => []

def execCheckMultiSigCalls (s : EvalState) (cache : CSignatureCache E) : List SigCall :=
  match multiSigArgs s.stack s.nOpCount with
  | none => []
  | some args =>
    let scriptCode := args.sigs.foldl
      (fun scriptCode vchSig => findAndDelete scriptCode (push vchSig))
      s.pbegincodehash
    multiSigCalls E txTo nIn nHashType flags scriptCode args.keys args.sigs cache

/-- Only the operations with signatures check any. -/
def execCalls (opcode : Opcode) (s : EvalState) (cache : CSignatureCache E) : List SigCall :=
  match opcode with
  | .OP_CHECKSIG | .OP_CHECKSIGVERIFY => execCheckSigCalls txTo nIn nHashType flags s
  | .OP_CHECKMULTISIG | .OP_CHECKMULTISIGVERIFY =>
    execCheckMultiSigCalls E txTo nIn nHashType flags s cache
  | _ => []

def dispatchCalls (r : GetOpResult) (s : EvalState) (cache : CSignatureCache E) :
    List SigCall :=
  if s.fExec ∧ r.opcode ≤ OP_PUSHDATA4 then []
  else if s.fExec ∨ (OP_IF ≤ r.opcode ∧ r.opcode ≤ OP_ENDIF) then
    execCalls E txTo nIn nHashType flags (opcodeOf r.opcode) s cache
  else []

def evalInstructionCalls (r : GetOpResult) (s : EvalState) (cache : CSignatureCache E) :
    List SigCall :=
  if !r.ok then []
  else if r.data.length > MAX_SCRIPT_ELEMENT_SIZE then []
  else if r.opcode > OP_16 ∧ (countOp r s).nOpCount > MAX_OPS then []
  else if r.opcode ∈ disabledOpcodes then []
  else dispatchCalls E txTo nIn nHashType flags r (countOp r s) cache

def evalLoopCalls : List GetOpResult → EvalState → CSignatureCache E → List SigCall
  | [], _, _ => []
  | r :: rs, s, cache =>
    evalInstructionCalls E txTo nIn nHashType flags r s cache ++
      callsAfter E (evalInstruction E txTo nIn nHashType flags r s) (evalLoopCalls rs) cache

variable (stack : List Valtype)

variable (script : CScript)

/-- The calls of `CheckSig` that `EvalScript` makes, in order. -/
def evalScriptCalls (cache : CSignatureCache E) : List SigCall :=
  if script.length > MAX_SCRIPT_SIZE then []
  else evalLoopCalls E txTo nIn nHashType flags (ops script) (.start stack script) cache

/-- The calls that `VerifyScript` makes on the redeem script. -/
def redeemCalls (scriptSig scriptPubKey : CScript) : CSignatureCache E → List SigCall :=
  callsAfter E (evalScript E txTo nIn nHashType flags [] scriptSig) fun stackCopy =>
    callsAfter E (evalScript E txTo nIn nHashType flags stackCopy scriptPubKey) fun stack =>
      callsAfter E (topIsTrue E stack) fun _ =>
        if !isPayToScriptHash scriptPubKey then fun _ => []
        else if !isPushOnly scriptSig then fun _ => []
        else
          match stackCopy with
          | [] => fun _ => []
          | pubKey2 :: stackCopy =>
            evalScriptCalls E txTo nIn nHashType flags stackCopy pubKey2

/-! ### What the calls do to the cache. -/

/-- The cache after `x` is the cache after these calls. -/
def Makes {α : Type} (x : Cached (CSignatureCache E) α)
    (calls : CSignatureCache E → List SigCall) : Prop :=
  ∀ cache, (x cache).2 = cacheAfter E cache (calls cache)

variable {E txTo nIn nHashType flags}

variable {α : Type} {x : Cached (CSignatureCache E) α} {cache : CSignatureCache E} {r : GetOpResult}
    {s s' : EvalState} {lastOpcode : UInt8}

theorem makes_nothing (h : ∀ cache, (x cache).2 = cache) : Makes E x fun _ => [] := h

theorem Makes.bind {β : Type} {y : α → Cached (CSignatureCache E) β}
    {calls : CSignatureCache E → List SigCall} {next : α → CSignatureCache E → List SigCall}
    (hx : Makes E x calls) (hy : ∀ a, Makes E (y a) (next a)) :
    Makes E (x.bind y) fun cache => calls cache ++ callsAfter E x next cache := by
  intro cache
  have hcache := hx cache
  unfold Cached.bind callsAfter
  unfold cacheAfter at hcache ⊢
  rw [run_append, ← hcache]
  rcases x cache with ⟨_ | a, cache'⟩
  · rfl
  · exact hy a cache'

theorem Makes.bind_quiet {β : Type} {y : α → Cached (CSignatureCache E) β}
    {calls : CSignatureCache E → List SigCall} (hx : Makes E x calls)
    (hy : ∀ a cache, (y a cache).2 = cache) : Makes E (x.bind y) calls := by
  intro cache
  have hcache := hx cache
  unfold Cached.bind
  rcases hxc : x cache with ⟨_ | a, cache'⟩
  · rw [hxc] at hcache
    exact hcache
  · rw [hxc] at hcache
    exact (hy a cache').trans hcache

theorem Makes.ite {p : Prop} [Decidable p] {y : Cached (CSignatureCache E) α}
    {calls calls' : CSignatureCache E → List SigCall} (hx : Makes E x calls)
    (hy : Makes E y calls') :
    Makes E (if p then x else y) fun cache => if p then calls cache else calls' cache := by
  intro cache
  dsimp only
  by_cases hp : p
  · rw [if_pos hp, if_pos hp]
    exact hx cache
  · rw [if_neg hp, if_neg hp]
    exact hy cache

theorem makes_checkOne :
    Makes E (checkOne E txTo nIn nHashType flags vchSig vchPubKey scriptCode) fun _ =>
    checkOneCalls txTo nIn nHashType flags vchSig vchPubKey scriptCode := by
  intro cache
  unfold checkOne checkOneCalls
  cases checkEncodings vchSig vchPubKey flags with
  | false => cases hasFlag flags SCRIPT_VERIFY_STRICTENC <;> rfl
  | true => cases hasFlag flags SCRIPT_VERIFY_STRICTENC <;> rfl

variable (fVerify : Bool)

theorem pushSuccess_snd (s : EvalState) (st : List Valtype) (fSuccess : Bool)
    (cache : CSignatureCache E) : (pushSuccess E fVerify s st fSuccess cache).2 = cache := by
  unfold pushSuccess
  cases fVerify
  · rfl
  · cases fSuccess <;> rfl

theorem makes_execCheckSig (s : EvalState) :
    Makes E (execCheckSig E txTo nIn nHashType flags fVerify s) fun _ =>
    execCheckSigCalls txTo nIn nHashType flags s := by
  unfold execCheckSig execCheckSigCalls
  rcases s.stack with _ | ⟨vchPubKey, _ | ⟨vchSig, st⟩⟩
  · exact makes_nothing fun _ => rfl
  · exact makes_nothing fun _ => rfl
  · exact (makes_checkOne _ _ _).bind_quiet (pushSuccess_snd fVerify s st)

theorem makes_multiSigLoop (keys sigs : List Valtype) :
    Makes E (multiSigLoop E txTo nIn nHashType flags scriptCode keys sigs)
    (multiSigCalls E txTo nIn nHashType flags scriptCode keys sigs) := by
  induction keys generalizing sigs with
  | nil => cases sigs <;> exact makes_nothing fun _ => rfl
  | cons vchPubKey keys ih =>
    cases sigs with
    | nil => exact makes_nothing fun _ => rfl
    | cons vchSig sigs =>
      refine (makes_checkOne vchSig vchPubKey scriptCode).bind fun fOk => ?_
      exact .ite (makes_nothing fun _ => rfl) (ih _)

theorem makes_execCheckMultiSig (s : EvalState) : Makes E (execCheckMultiSig E
    txTo nIn nHashType flags fVerify s) (execCheckMultiSigCalls E txTo nIn nHashType flags s) := by
  intro cache
  unfold execCheckMultiSig execCheckMultiSigCalls
  cases multiSigArgs s.stack s.nOpCount with
  | none => rfl
  | some args =>
    refine (makes_multiSigLoop _ args.keys args.sigs).bind_quiet (fun fSuccess cache => ?_) cache
    split
    · rfl
    · exact pushSuccess_snd _ _ _ _ _

theorem makes_exec (opcode : Opcode) (rest : CScript) (s : EvalState) :
    Makes E (exec E txTo nIn nHashType flags opcode rest s)
      (execCalls E txTo nIn nHashType flags opcode s) := by
  cases opcode with
  | OP_CHECKSIG => exact makes_execCheckSig false s
  | OP_CHECKSIGVERIFY => exact makes_execCheckSig true s
  | OP_CHECKMULTISIG => exact makes_execCheckMultiSig false s
  | OP_CHECKMULTISIGVERIFY => exact makes_execCheckMultiSig true s
  | _ => exact makes_nothing fun _ => rfl

theorem makes_evalInstruction (r : GetOpResult) (s : EvalState) :
    Makes E (evalInstruction E txTo nIn nHashType flags r s)
      (evalInstructionCalls E txTo nIn nHashType flags r s) := by
  unfold evalInstruction
  refine .ite (makes_nothing fun _ => rfl) (.ite (makes_nothing fun _ => rfl)
    (.ite (makes_nothing fun _ => rfl) (.ite (makes_nothing fun _ => rfl) ?_)))
  refine Makes.bind_quiet ?_ fun s cache => ?_
  · exact .ite (makes_nothing fun _ => rfl)
      (.ite (makes_exec _ _ _) (makes_nothing fun _ => rfl))
  · split <;> rfl

theorem makes_evalLoop (rs : List GetOpResult) (s : EvalState) :
    Makes E (evalLoop E txTo nIn nHashType flags rs s)
      (evalLoopCalls E txTo nIn nHashType flags rs s) := by
  induction rs generalizing s with
  | nil => exact makes_nothing fun _ => rfl
  | cons r rs ih => exact (makes_evalInstruction r s).bind ih

/-- **The calls are those of the run**: the run leaves the cache that they leave. -/
theorem makes_evalScript (stack : List Valtype) (script : CScript) :
    Makes E (evalScript E txTo nIn nHashType flags stack script)
      (evalScriptCalls E txTo nIn nHashType flags stack script) := by
  unfold evalScript
  refine .ite (makes_nothing fun _ => rfl) ((makes_evalLoop _ _).bind_quiet fun s cache => ?_)
  split <;> rfl

/-! ## §2. One instruction against its count. -/

theorem callsAfter_length {next : α → CSignatureCache E → List SigCall} {n : Nat}
    (h : ∀ a, (x cache).1 = some a → ∀ cache, (next a cache).length ≤ n) :
    (callsAfter E x next cache).length ≤ n := by
  unfold callsAfter
  rcases hx : x cache with ⟨_ | a, cache'⟩
  · exact zero_le n
  · exact h a (by rw [hx]) cache'

theorem checkOneCalls_length :
    (checkOneCalls txTo nIn nHashType flags vchSig vchPubKey scriptCode).length ≤ 1 := by
  unfold checkOneCalls
  split <;> simp

theorem execCheckSigCalls_length (s : EvalState) :
    (execCheckSigCalls txTo nIn nHashType flags s).length ≤ 1 := by
  unfold execCheckSigCalls
  split
  · exact checkOneCalls_length _ _ _
  · exact zero_le 1

theorem multiSigCalls_length (keys sigs : List Valtype) (cache : CSignatureCache E) :
    (multiSigCalls E txTo nIn nHashType flags scriptCode keys sigs cache).length ≤ keys.length := by
  induction keys generalizing sigs cache with
  | nil => cases sigs <;> exact le_refl 0
  | cons vchPubKey keys ih =>
    cases sigs with
    | nil => exact zero_le _
    | cons vchSig sigs =>
      unfold multiSigCalls
      have hfirst : (checkOneCalls txTo nIn nHashType flags vchSig vchPubKey
          scriptCode).length ≤ 1 := checkOneCalls_length vchSig vchPubKey scriptCode
      have hrest : (callsAfter E
          (checkOne E txTo nIn nHashType flags vchSig vchPubKey scriptCode)
          (fun fOk cache => if (if fOk then sigs else vchSig :: sigs).length > keys.length then []
            else multiSigCalls E txTo nIn nHashType flags scriptCode keys
              (if fOk then sigs else vchSig :: sigs) cache) cache).length ≤ keys.length := by
        refine callsAfter_length fun fOk _ cache => ?_
        by_cases hfew : (if fOk then sigs else vchSig :: sigs).length > keys.length
        · rw [if_pos hfew]
          exact zero_le _
        · rw [if_neg hfew]
          exact ih _ cache
      rw [length_append, length_cons]
      omega

theorem multiSigArgs_nKeysCount {stack : List Valtype} {nOpCount : Nat} {args : MultiSigArgs}
    (h : multiSigArgs stack nOpCount = some args) :
    args.keys.length ≤ args.nKeysCount ∧
      ∃ vch, stack.head? = some vch ∧ countArg vch 20 = some args.nKeysCount := by
  unfold multiSigArgs at h
  split at h
  · cases h
  cases stack with
  | nil => cases h
  | cons vch st =>
    cases hn : countArg vch 20 with
    | none =>
      rw [getElem?_cons_zero] at h
      dsimp only [bind_eq_bind, bind_some] at h
      rw [hn] at h
      cases h
    | some n =>
      rw [getElem?_cons_zero] at h
      dsimp only [bind_eq_bind, bind_some] at h
      rw [hn] at h
      dsimp only [bind_some] at h
      split at h
      · cases h
      split at h
      · cases h
      obtain ⟨vchSigs, _, h⟩ := bind_eq_some_iff.mp h
      obtain ⟨nSigsCount, _, h⟩ := bind_eq_some_iff.mp h
      split at h
      · cases h
      obtain ⟨dummy, _, h⟩ := bind_eq_some_iff.mp h
      cases h
      exact ⟨length_take_le _ _, vch, rfl, hn⟩

theorem countArg_le {vch : Valtype} {nMax n : Nat} (h : countArg vch nMax = some n) :
    n ≤ nMax := by
  unfold countArg at h
  obtain ⟨bn, _, h⟩ := bind_eq_some_iff.mp h
  dsimp only at h
  split at h
  · cases h
  next hrange =>
    cases h
    omega

/-! ### The opcode before. -/

theorem forall_opcode {p : UInt8 → Prop} (h : ∀ b : BitVec 8, p (UInt8.ofBitVec b))
    (opcode : UInt8) : p opcode := h opcode.toBitVec

theorem opcode_table : ∀ opcode : UInt8,
    (OP_1 ≤ opcode ∧ opcode ≤ OP_16 →
      opcodeOf opcode = .number opcode ∧
        countArg (CBigNum.getvch (smallNumber opcode)) 20 = some (opcode.toNat - 80)) ∧
    (opcodeOf opcode = .OP_CHECKSIG ∨ opcodeOf opcode = .OP_CHECKSIGVERIFY →
      opcode = OP_CHECKSIG ∨ opcode = OP_CHECKSIGVERIFY) ∧
    (opcodeOf opcode = .OP_CHECKMULTISIG ∨ opcodeOf opcode = .OP_CHECKMULTISIGVERIFY →
      opcode = OP_CHECKMULTISIG ∨ opcode = OP_CHECKMULTISIGVERIFY) :=
  forall_opcode (by decide +kernel)

variable (opcode : UInt8)

theorem opcodeOf_number (h : OP_1 ≤ opcode ∧ opcode ≤ OP_16) :
    opcodeOf opcode = .number opcode := ((opcode_table opcode).1 h).1

theorem opcodeOf_checkSig : opcodeOf opcode = .OP_CHECKSIG ∨ opcodeOf opcode = .OP_CHECKSIGVERIFY →
    opcode = OP_CHECKSIG ∨ opcode = OP_CHECKSIGVERIFY := (opcode_table opcode).2.1

theorem opcodeOf_checkMultiSig :
    opcodeOf opcode = .OP_CHECKMULTISIG ∨ opcodeOf opcode = .OP_CHECKMULTISIGVERIFY →
      opcode = OP_CHECKMULTISIG ∨ opcode = OP_CHECKMULTISIGVERIFY := (opcode_table opcode).2.2

theorem countArg_smallNumber (h : OP_1 ≤ opcode ∧ opcode ≤ OP_16) :
    countArg (CBigNum.getvch (smallNumber opcode)) 20 = some (opcode.toNat - 80) :=
  ((opcode_table opcode).1 h).2

/-- Where operations are executed, `OP_1 .. OP_16` as the opcode before has left its
number on top. -/
def TopIsNumber (lastOpcode : UInt8) (s : EvalState) : Prop :=
  OP_1 ≤ lastOpcode ∧ lastOpcode ≤ OP_16 → s.fExec = true →
    s.stack.head? = some (CBigNum.getvch (smallNumber lastOpcode))

theorem topIsNumber_start : TopIsNumber OP_INVALIDOPCODE (.start stack script) := by
  intro hlast
  exact absurd hlast.2 (by decide)

theorem countOp_stack (r : GetOpResult) (s : EvalState) : (countOp r s).stack = s.stack := by
  unfold countOp
  split <;> rfl

theorem countOp_fExec (r : GetOpResult) (s : EvalState) : (countOp r s).fExec = s.fExec := by
  unfold countOp
  split <;> rfl

theorem evalInstruction_dispatch
    (h : (evalInstruction E txTo nIn nHashType flags r s cache).1 = some s') :
    r.ok = true ∧ ¬r.data.length > MAX_SCRIPT_ELEMENT_SIZE ∧
      ¬(r.opcode > OP_16 ∧ (countOp r s).nOpCount > MAX_OPS) ∧ r.opcode ∉ disabledOpcodes ∧
      (dispatch E txTo nIn nHashType flags r (countOp r s) cache).1 = some s' ∧
      ¬s'.stack.length + s'.altstack.length > MAX_STACK := by
  unfold evalInstruction at h
  split at h
  · cases h
  next hok =>
    split at h
    · cases h
    next hdata =>
      split at h
      · cases h
      next hcount =>
        split at h
        · cases h
        next hdisabled =>
          obtain ⟨a, ha, hb⟩ := Cached.bind_fst_eq_some.mp h
          split at hb
          · cases hb
          next hsize =>
            cases hb
            exact ⟨by simpa using hok, hdata, hcount, hdisabled, ha, hsize⟩

theorem dispatch_number (hnumber : opcodeOf r.opcode = .number r.opcode)
    (hhigh : ¬r.opcode ≤ OP_PUSHDATA4) (hbranch : ¬(OP_IF ≤ r.opcode ∧ r.opcode ≤ OP_ENDIF))
    (s : EvalState) (cache : CSignatureCache E) :
    (dispatch E txTo nIn nHashType flags r s cache).1 =
      some (if s.fExec then
        { s with stack := CBigNum.getvch (smallNumber r.opcode) :: s.stack } else s) := by
  rw [dispatch, if_neg fun h => hhigh h.2, hnumber]
  by_cases hexec : s.fExec = true
  · rw [if_pos (.inl hexec), if_pos hexec]
    rfl
  · rw [if_neg (not_or.mpr ⟨hexec, hbranch⟩), if_neg hexec]
    rfl

theorem number_ranges : ∀ opcode : UInt8,
    OP_1 ≤ opcode ∧ opcode ≤ OP_16 →
      ¬opcode ≤ OP_PUSHDATA4 ∧ ¬(OP_IF ≤ opcode ∧ opcode ≤ OP_ENDIF) :=
  forall_opcode (by decide +kernel)

theorem topIsNumber_step (h : (evalInstruction E txTo nIn nHashType flags r s cache).1 = some s') :
    TopIsNumber r.opcode s' := by
  intro hlast hexec
  obtain ⟨_, _, _, _, hdispatch, _⟩ := evalInstruction_dispatch h
  obtain ⟨hhigh, hbranch⟩ := number_ranges r.opcode hlast
  rw [dispatch_number (opcodeOf_number r.opcode hlast) hhigh hbranch] at hdispatch
  cases hdispatch
  by_cases hs : (countOp r s).fExec = true
  · rw [if_pos hs]
    rfl
  · rw [if_neg hs] at hexec
    exact absurd hexec hs

theorem checkMultiSig_ranges : ∀ opcode : UInt8,
    opcode = OP_CHECKMULTISIG ∨ opcode = OP_CHECKMULTISIGVERIFY →
      ¬(OP_IF ≤ opcode ∧ opcode ≤ OP_ENDIF) ∧
        opcode ≠ OP_CHECKSIG ∧ opcode ≠ OP_CHECKSIGVERIFY :=
  forall_opcode (by decide +kernel)

theorem opSigOpCount_checkSig {opcode : UInt8}
    (h : opcode = OP_CHECKSIG ∨ opcode = OP_CHECKSIGVERIFY) (lastOpcode : UInt8) :
    (opSigOpCount true lastOpcode opcode).toNat = 1 := by
  rw [opSigOpCount, if_pos h]
  rfl

theorem opSigOpCount_checkMultiSig {opcode : UInt8}
    (h : opcode = OP_CHECKMULTISIG ∨ opcode = OP_CHECKMULTISIGVERIFY) (lastOpcode : UInt8) :
    (opSigOpCount true lastOpcode opcode).toNat =
      if OP_1 ≤ lastOpcode ∧ lastOpcode ≤ OP_16 then lastOpcode.toNat - 80 else 20 := by
  obtain ⟨_, hsig, hsigverify⟩ := checkMultiSig_ranges opcode h
  rw [opSigOpCount, if_neg (not_or.mpr ⟨hsig, hsigverify⟩), if_pos h]
  by_cases hlast : OP_1 ≤ lastOpcode ∧ lastOpcode ≤ OP_16
  · rw [if_pos hlast, if_pos ⟨rfl, hlast⟩, decodeOP_N_toNat hlast.1]
  · rw [if_neg hlast, if_neg fun h => hlast h.2]
    rfl

/-- The calls of `OP_CHECKMULTISIG`: a key each, and the number of keys is the one that
the opcode before has pushed. -/
theorem execCheckMultiSigCalls_length (htop : TopIsNumber lastOpcode s) (hexec : s.fExec = true)
    (cache : CSignatureCache E) :
    (execCheckMultiSigCalls E txTo nIn nHashType flags s cache).length ≤
      if OP_1 ≤ lastOpcode ∧ lastOpcode ≤ OP_16 then lastOpcode.toNat - 80 else 20 := by
  unfold execCheckMultiSigCalls
  cases hargs : multiSigArgs s.stack s.nOpCount with
  | none => exact zero_le _
  | some args =>
    obtain ⟨hkeys, vch, hvch, hcount⟩ := multiSigArgs_nKeysCount hargs
    refine (multiSigCalls_length _ args.keys args.sigs cache).trans (hkeys.trans ?_)
    by_cases hlast : OP_1 ≤ lastOpcode ∧ lastOpcode ≤ OP_16
    · rw [if_pos hlast]
      obtain rfl := Option.some.inj (hvch.symm.trans (htop hlast hexec))
      rw [countArg_smallNumber lastOpcode hlast] at hcount
      exact (Option.some.inj hcount).ge
    · rw [if_neg hlast]
      exact countArg_le hcount

theorem topIsNumber_countOp (r : GetOpResult) (htop : TopIsNumber lastOpcode s) :
    TopIsNumber lastOpcode (countOp r s) := by
  rw [TopIsNumber, countOp_stack, countOp_fExec]
  exact htop

theorem execCalls_length {opcode : UInt8} (htop : TopIsNumber lastOpcode s)
    (hrun : s.fExec = true ∨ (OP_IF ≤ opcode ∧ opcode ≤ OP_ENDIF)) (cache : CSignatureCache E) :
    (execCalls E txTo nIn nHashType flags (opcodeOf opcode) s cache).length ≤
      (opSigOpCount true lastOpcode opcode).toNat := by
  have hone (hop : opcodeOf opcode = .OP_CHECKSIG ∨ opcodeOf opcode = .OP_CHECKSIGVERIFY) :
      (execCheckSigCalls txTo nIn nHashType flags s).length ≤
        (opSigOpCount true lastOpcode opcode).toNat := by
    rw [opSigOpCount_checkSig (opcodeOf_checkSig opcode hop)]
    exact execCheckSigCalls_length s
  have hkeys (hop : opcodeOf opcode = .OP_CHECKMULTISIG ∨
      opcodeOf opcode = .OP_CHECKMULTISIGVERIFY) :
      (execCheckMultiSigCalls E txTo nIn nHashType flags s cache).length ≤
        (opSigOpCount true lastOpcode opcode).toNat := by
    have hopcode := opcodeOf_checkMultiSig opcode hop
    -- no operation with signatures runs in a branch that is not taken
    have hexec : s.fExec = true := hrun.resolve_right (checkMultiSig_ranges opcode hopcode).1
    rw [opSigOpCount_checkMultiSig hopcode]
    exact execCheckMultiSigCalls_length htop hexec cache
  unfold execCalls
  split
  next hop => exact hone (.inl hop)
  next hop => exact hone (.inr hop)
  next hop => exact hkeys (.inl hop)
  next hop => exact hkeys (.inr hop)
  next => exact zero_le _

/-- **One instruction makes no more calls than it counts for.** -/
theorem evalInstructionCalls_length (htop : TopIsNumber lastOpcode s) (cache : CSignatureCache E) :
    (evalInstructionCalls E txTo nIn nHashType flags r s cache).length ≤
      if r.ok then (opSigOpCount true lastOpcode r.opcode).toNat else 0 := by
  unfold evalInstructionCalls
  cases hok : r.ok with
  | false => exact le_refl 0
  | true =>
    rw [if_neg (by decide), if_pos rfl]
    split
    · exact zero_le _
    split
    · exact zero_le _
    split
    · exact zero_le _
    unfold dispatchCalls
    split
    · exact zero_le _
    split
    next hrun => exact execCalls_length (topIsNumber_countOp r htop) hrun cache
    · exact zero_le _

/-! ## §3. A script against its count. -/

theorem evalLoopCalls_length {rs : List GetOpResult} (htop : TopIsNumber lastOpcode s)
    (hlen : 20 * rs.length < 2 ^ 32) (cache : CSignatureCache E) :
    (evalLoopCalls E txTo nIn nHashType flags rs s cache).length ≤
      (sigOpCountLoop true lastOpcode rs).toNat := by
  induction rs generalizing lastOpcode s cache with
  | nil => exact le_refl 0
  | cons r rs ih =>
    have hfirst : (evalInstructionCalls E txTo nIn nHashType flags r s cache).length ≤
        if r.ok then (opSigOpCount true lastOpcode r.opcode).toNat else 0 :=
      evalInstructionCalls_length htop cache
    rw [evalLoopCalls, length_append]
    cases hok : r.ok with
    | false =>
      rw [hok, if_neg (by decide)] at hfirst
      have hrest : (callsAfter E (evalInstruction E txTo nIn nHashType flags r s)
          (evalLoopCalls E txTo nIn nHashType flags rs) cache).length ≤ 0 := by
        refine callsAfter_length fun s' hs' => ?_
        rw [(evalInstruction_dispatch hs').1] at hok
        cases hok
      omega
    | true =>
      rw [hok, if_pos rfl] at hfirst
      rw [sigOpCountLoop_cons_toNat hok hlen]
      rw [length_cons] at hlen
      have hrest : (callsAfter E (evalInstruction E txTo nIn nHashType flags r s)
          (evalLoopCalls E txTo nIn nHashType flags rs) cache).length ≤
          (sigOpCountLoop true r.opcode rs).toNat :=
        callsAfter_length fun s' hs' => ih (topIsNumber_step hs') (by omega)
      exact Nat.add_le_add hfirst hrest

theorem evalScriptCalls_length (cache : CSignatureCache E) :
    (evalScriptCalls E txTo nIn nHashType flags stack script cache).length ≤
    (getSigOpCount script true).toNat := by
  unfold evalScriptCalls
  split
  · exact zero_le _
  next hsize =>
    have hops := ops_length_le script
    refine evalLoopCalls_length (topIsNumber_start stack script) ?_ cache
    unfold MAX_SCRIPT_SIZE at hsize
    omega

theorem getSigOpCount_accurate_le {script : CScript} (hlen : 20 * script.length < 2 ^ 32) :
    (getSigOpCount script true).toNat ≤ (getSigOpCount script false).toNat :=
  sigOpCountLoop_accurate_le
    (lt_of_le_of_lt (mul_le_mul_left 20 (ops_length_le script)) hlen)

/-! ## §4. The redeem script. -/

/-- The elements that `OP_1NEGATE` and `OP_1 .. OP_16` push. -/
def IsSmallNumber (vch : Valtype) : Prop :=
  ∃ opcode : UInt8, opcodeOf opcode = .number opcode ∧
    vch = CBigNum.getvch (smallNumber opcode)

theorem getSigOpCount_smallNumber : ∀ opcode : UInt8, opcodeOf opcode = .number opcode →
    getSigOpCount (CBigNum.getvch (smallNumber opcode)) true = 0 :=
  forall_opcode (by decide +kernel)

/-- The top of the stack is the last data that was pushed, or a number. -/
def TopIsPush (data : Valtype) (s : EvalState) : Prop :=
  ∀ vch, s.stack.head? = some vch → vch = data ∨ IsSmallNumber vch

theorem push_cases : ∀ opcode : UInt8, opcode ≤ OP_16 →
    opcode ≤ OP_PUSHDATA4 ∨ opcodeOf opcode = .number opcode ∨ opcodeOf opcode = .other :=
  forall_opcode (by decide +kernel)

theorem push_ranges : ∀ opcode : UInt8, opcode ≤ OP_16 →
    ¬opcode > OP_16 ∧ ¬(OP_IF ≤ opcode ∧ opcode ≤ OP_ENDIF) :=
  forall_opcode (by decide +kernel)

theorem dispatch_push (hpush : r.opcode ≤ OP_16) (hexec : s.vfExec = [])
    (h : (dispatch E txTo nIn nHashType flags r s cache).1 = some s') :
    s'.vfExec = [] ∧ TopIsPush r.data s' := by
  have hrun : s.fExec = true := by
    rw [EvalState.fExec, hexec]
    rfl
  unfold dispatch at h
  by_cases hdata : r.opcode ≤ OP_PUSHDATA4
  · rw [if_pos ⟨hrun, hdata⟩] at h
    cases h
    refine ⟨hexec, fun vch hvch => .inl ?_⟩
    exact (Option.some.inj hvch).symm
  · rw [if_neg fun h => hdata h.2, if_pos (.inl hrun)] at h
    rcases (push_cases r.opcode hpush).resolve_left hdata with hnumber | hother
    · rw [hnumber] at h
      cases h
      refine ⟨hexec, fun vch hvch => .inr ⟨r.opcode, hnumber, ?_⟩⟩
      exact (Option.some.inj hvch).symm
    · rw [hother] at h
      cases h

theorem evalLoop_lastPush {rs : List GetOpResult} {data : Valtype}
    (hpush : ∀ r ∈ rs, r.opcode ≤ OP_16) (hexec : s.vfExec = []) (htop : TopIsPush data s)
    (h : (evalLoop E txTo nIn nHashType flags rs s cache).1 = some s') :
    ∃ subscript, lastPush data rs = some subscript ∧ TopIsPush subscript s' := by
  induction rs generalizing s data cache with
  | nil =>
    cases h
    exact ⟨data, rfl, htop⟩
  | cons r rs ih =>
    obtain ⟨a, ha, hrest⟩ := Cached.bind_fst_eq_some.mp h
    obtain ⟨hok, _, _, _, hdispatch, _⟩ := evalInstruction_dispatch ha
    have hle := hpush r mem_cons_self
    have hhigh := (push_ranges r.opcode hle).1
    have hcount : countOp r s = s := if_neg hhigh
    rw [hcount] at hdispatch
    obtain ⟨hexec', htop'⟩ := dispatch_push hle hexec hdispatch
    obtain ⟨subscript, hlast, hend⟩ :=
      ih (fun r hr => hpush r (mem_cons_of_mem _ hr)) hexec' htop' hrest
    refine ⟨subscript, ?_, hend⟩
    rw [lastPush, if_neg (by simp [hok, hhigh])]
    exact hlast

theorem evalScript_lastPush {scriptSig : CScript} {stack : List Valtype}
    (hpush : isPushOnly scriptSig = true)
    (h : (evalScript E txTo nIn nHashType flags [] scriptSig cache).1 = some stack) :
    ∃ subscript, lastPush [] (ops scriptSig) = some subscript ∧
      ∀ vch, stack.head? = some vch → vch = subscript ∨ IsSmallNumber vch := by
  unfold evalScript at h
  split at h
  · cases h
  obtain ⟨s, hs, h⟩ := Cached.bind_fst_eq_some.mp h
  split at h
  · cases h
  cases h
  have hstart : TopIsPush [] (.start [] scriptSig) := by
    intro vch hvch
    cases hvch
  refine evalLoop_lastPush (fun r hr => ?_) rfl hstart hs
  have hr := all_eq_true.mp hpush r hr
  rw [Bool.and_eq_true, decide_eq_true_eq] at hr
  exact hr.2

/-- **The redeem script makes no more calls than the output counts for.** -/
theorem redeemCalls_length (scriptSig scriptPubKey : CScript) (cache : CSignatureCache E) :
    (redeemCalls E txTo nIn nHashType flags scriptSig scriptPubKey cache).length ≤
      (getSigOpCountP2SH scriptPubKey scriptSig).toNat := by
  unfold redeemCalls
  refine callsAfter_length fun stackCopy hcopy _ => ?_
  refine callsAfter_length fun _ _ _ => callsAfter_length fun _ _ cache => ?_
  split
  · exact zero_le _
  next hp2sh =>
    split
    · exact zero_le _
    next hpush =>
      rw [Bool.not_eq_true', Bool.not_eq_false] at hp2sh hpush
      obtain ⟨subscript, hlast, htop⟩ := evalScript_lastPush hpush hcopy
      cases stackCopy with
      | nil => exact zero_le _
      | cons pubKey2 stackCopy =>
        refine (evalScriptCalls_length stackCopy pubKey2 cache).trans ?_
        rw [getSigOpCountP2SH, hp2sh, if_neg (by decide), hlast]
        rcases htop pubKey2 rfl with rfl | ⟨opcode, hnumber, rfl⟩
        · exact le_refl _
        · rw [getSigOpCount_smallNumber opcode hnumber]
          exact zero_le _

/-- **The count bounds the work**: a run of a script makes no more calls of `CheckSig`
than either count, and the accurate count is the smaller one as long as the 32 bits of
the other do not overflow.  `VerifyScript` makes no more of them on the redeem script of a
push-only `scriptSig` than the output counts. -/
theorem getSigOpCount_bounds_calls (E : SigEnv) (txTo : CTransaction) (nIn : Nat)
    (nHashType : Int32) (flags : UInt32) (cache : CSignatureCache E) :
    (∀ (stack : List Valtype) (script : CScript),
      (evalScriptCalls E txTo nIn nHashType flags stack script cache).length ≤
          (getSigOpCount script true).toNat ∧
        (evalScriptCalls E txTo nIn nHashType flags stack script cache).length ≤
          (getSigOpCount script false).toNat ∧
        (20 * script.length < 2 ^ 32 →
          getSigOpCount script true ≤ getSigOpCount script false)) ∧
    ∀ scriptSig scriptPubKey : CScript,
      (redeemCalls E txTo nIn nHashType flags scriptSig scriptPubKey cache).length ≤
        (getSigOpCountP2SH scriptPubKey scriptSig).toNat := by
  refine ⟨fun stack script => ⟨evalScriptCalls_length stack script cache, ?_, fun hlen => ?_⟩,
    fun scriptSig scriptPubKey => redeemCalls_length scriptSig scriptPubKey cache⟩
  · by_cases hsize : script.length > MAX_SCRIPT_SIZE
    · rw [evalScriptCalls, if_pos hsize]
      exact zero_le _
    · refine (evalScriptCalls_length stack script cache).trans (getSigOpCount_accurate_le ?_)
      unfold MAX_SCRIPT_SIZE at hsize
      omega
  · exact le_iff_toNat_le.mpr (getSigOpCount_accurate_le hlen)

-- `OP_1 OP_CHECKMULTISIG`
theorem getSigOpCount_bounds_calls_sample :
    20 * [OP_1, OP_CHECKMULTISIG].length < 2 ^ 32 ∧
      getSigOpCount [OP_1, OP_CHECKMULTISIG] true ≤
        getSigOpCount [OP_1, OP_CHECKMULTISIG] false :=
  ⟨by decide, ((getSigOpCount_bounds_calls sampleSigEnv ⟨1, 1100, [], [], 0⟩ 0 1 0 .empty).1 []
    [OP_1, OP_CHECKMULTISIG]).2.2 (by decide)⟩

/-! ### Scripts of many operations. -/

def manyMultiSigs : Nat → CScript
  | 0 => []
  | n + 1 => OP_1 :: OP_CHECKMULTISIG :: manyMultiSigs n

theorem manyMultiSigs_length (n : Nat) : (manyMultiSigs n).length = 2 * n := by
  induction n with
  | zero => rfl
  | succ n ih => rw [manyMultiSigs, length_cons, length_cons, ih, mul_succ]

theorem sigOpCountLoop_manyMultiSigs (fAccurate : Bool) (lastOpcode : UInt8) (n : Nat) :
    sigOpCountLoop fAccurate lastOpcode (opsFrom (2 * n) (manyMultiSigs n)) =
      UInt32.ofNat ((if fAccurate then 1 else 20) * n) := by
  induction n generalizing lastOpcode with
  | zero => rfl
  | succ n ih =>
    have hloop : sigOpCountLoop fAccurate lastOpcode
        (opsFrom (2 * (n + 1)) (manyMultiSigs (n + 1))) =
          opSigOpCount fAccurate lastOpcode OP_1 +
            (opSigOpCount fAccurate OP_1 OP_CHECKMULTISIG +
              sigOpCountLoop fAccurate OP_CHECKMULTISIG
                (opsFrom (2 * n) (manyMultiSigs n))) := rfl
    have hfirst : opSigOpCount fAccurate lastOpcode OP_1 = 0 := rfl
    have hsecond : opSigOpCount fAccurate OP_1 OP_CHECKMULTISIG =
        UInt32.ofNat (if fAccurate then 1 else 20) := by cases fAccurate <;> rfl
    rw [hloop, ih, hfirst, hsecond, zero_add, ← ofNat_add, mul_succ,
      add_comm]

theorem getSigOpCount_manyMultiSigs (fAccurate : Bool) (n : Nat) :
    getSigOpCount (manyMultiSigs n) fAccurate =
      UInt32.ofNat ((if fAccurate then 1 else 20) * n) := by
  unfold getSigOpCount ops
  rw [manyMultiSigs_length]
  exact sigOpCountLoop_manyMultiSigs _ _ n

/-- A count without the number of keys goes around where the accurate one does not. -/
theorem getSigOpCount_overflow :
    ¬getSigOpCount (manyMultiSigs 214748365) true ≤
      getSigOpCount (manyMultiSigs 214748365) false := by
  rw [getSigOpCount_manyMultiSigs, getSigOpCount_manyMultiSigs]
  decide

end Fantom.Script.Legacy
