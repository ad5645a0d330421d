/-
  Fantom.Pool.Standard — The standardness of the inputs of a transaction.

  * `inputs_standard_iff` — when the verdict stands for all inputs.

  The loop returns as soon as a redeem script of no known form has few enough signature operations;
  the inputs after it are not looked at.
-/
import Fantom.Script.Standard
import Fantom.Script.Relay
import Fantom.Lib.Returns

namespace Fantom.Pool

open Core Chain Lib Script

/-! ## §1. `AreInputsStandard`. -/

def MAX_P2SH_SIGOPS : UInt32 := 15

/-- How one round of the loop ends. -/
inductive InputOutcome
  | next
  | ret (result : Bool)
deriving DecidableEq, Repr

/-- The end of a round, once the stack that `scriptSig` leaves is known. -/
def stackOutcome (whichType : TxnOutType) (nArgsExpected : Int) (stack : List Valtype) :
    InputOutcome :=
  if whichType = .TX_SCRIPTHASH then
    match stack with
    | [] => .ret false
    | subscript :: _ =>
      match solver subscript with
      | some (whichType2, vSolutions2) =>
        let tmpExpected := scriptSigArgsExpected whichType2 vSolutions2
        if whichType2 = .TX_SCRIPTHASH then .ret false
        else if tmpExpected < 0 then .ret false
        else if (stack.length : Int) ≠ nArgsExpected + tmpExpected then .ret false
        else .next
      | none => .ret (CScript.getSigOpCount subscript true ≤ MAX_P2SH_SIGOPS)
  else if (stack.length : Int) ≠ nArgsExpected then .ret false
  else .next

variable (E : SigEnv) (tx : CTransaction) (mapInputs : MapPrevTx) (txin : CTxIn) (i : Nat)

/-- One turn of the loop of `AreInputsStandard`. -/
def checkInput (prevScript : CScript) : Cached (CSignatureCache E) InputOutcome :=
  match solver prevScript with
  | none => .ok (.ret false)
  | some (whichType, vSolutions) =>
    let nArgsExpected := scriptSigArgsExpected whichType vSolutions
    if nArgsExpected < 0 then .ok (.ret false)
    else
      (Cached.attempt (Legacy.evalScript E tx i 0 SCRIPT_VERIFY_NONE [] txin.scriptSig)).bind
        fun result =>
          match result with
          | none => .ok (.ret false)
          | some stack => .ok (stackOutcome whichType nArgsExpected stack)

/-- The loop, from the inputs that are left.  A failure is the exception of
`GetOutputFor`. -/
def inputsLoop : List (CTxIn × Nat) → Cached (CSignatureCache E) Bool
  | [] => .ok true
  | (txin, i) :: rest =>
    (Cached.ofOption (getOutputFor mapInputs txin)).bind fun prev =>
      (checkInput E tx txin i prev.scriptPubKey).bind fun outcome =>
        match outcome with
        | .next => inputsLoop rest
        | .ret result => .ok result

def areInputsStandard : Cached (CSignatureCache E) Bool :=
  if tx.isCoinBase then .ok true else inputsLoop E tx mapInputs tx.vin.zipIdx

/-! ## §2. One input alone. -/

/-- The stack that a `scriptSig` leaves opens a script hash: its last element is a
script of a known form other than a script hash and takes all of the stack, or has
few signature operations. -/
def redeemStandard (stack : List Valtype) : Bool :=
  match stack with
  | [] => false
  | subscript :: _ =>
    match solver subscript with
    | some (whichType2, vSolutions2) =>
      whichType2 ≠ .TX_SCRIPTHASH && 0 ≤ scriptSigArgsExpected whichType2 vSolutions2 &&
        (stack.length : Int) == 1 + scriptSigArgsExpected whichType2 vSolutions2
    | none => CScript.getSigOpCount subscript true ≤ MAX_P2SH_SIGOPS

/-- The stack that `scriptSig` leaves, if it evaluates. -/
def scriptSigStack : Option (List Valtype) :=
  (Legacy.evalScript E tx i 0 SCRIPT_VERIFY_NONE [] txin.scriptSig .empty).1

/-- **The rule for one input alone**: the output it spends is of a known form that
takes arguments, its `scriptSig` evaluates, and leaves what the form takes. -/
def inputStandard : Bool :=
  match getOutputFor mapInputs txin with
  | none => false
  | some prev =>
    match solver prev.scriptPubKey, scriptSigStack E tx txin i with
    | some (whichType, vSolutions), some stack =>
      0 ≤ scriptSigArgsExpected whichType vSolutions &&
        if whichType = .TX_SCRIPTHASH then redeemStandard stack
        else (stack.length : Int) == scriptSigArgsExpected whichType vSolutions
    | _, _ => false

/-- An input that opens a script hash with a redeem script of no known form. -/
def opensUnknown : Bool :=
  match getOutputFor mapInputs txin, scriptSigStack E tx txin i with
  | some prev, some (subscript :: _) =>
    CScript.isPayToScriptHash prev.scriptPubKey && (solver subscript).isNone
  | _, _ => false

/-! ## §3. One round. -/

variable {E tx mapInputs}

theorem evalScript_cache (cache : CSignatureCache E) :
    (Legacy.evalScript E tx i 0 SCRIPT_VERIFY_NONE [] txin.scriptSig cache).1 =
    scriptSigStack E tx txin i :=
  (Legacy.covers_evalScript E tx i 0 (.refl SCRIPT_VERIFY_NONE) [] txin.scriptSig).fst_eq cache
    .empty

theorem stackOutcome_known {subscript : CScript} {stack : List Valtype}
    {whichType2 : TxnOutType} {vSolutions2 : List Valtype}
    (h : solver subscript = some (whichType2, vSolutions2)) :
    stackOutcome .TX_SCRIPTHASH 1 (subscript :: stack) =
      if redeemStandard (subscript :: stack) then .next else .ret false := by
  simp only [stackOutcome, redeemStandard, h, ↓reduceIte]
  by_cases htype : whichType2 = .TX_SCRIPTHASH
  · simp [htype]
  · by_cases hargs : scriptSigArgsExpected whichType2 vSolutions2 < 0
    · simp [htype, hargs, Int.not_le.mpr hargs]
    · by_cases hlen : ((subscript :: stack).length : Int) =
          1 + scriptSigArgsExpected whichType2 vSolutions2
      · rw [if_neg htype, if_neg hargs, if_neg (not_not.mpr hlen), beq_iff_eq.mpr hlen]
        simp [htype, Int.not_lt.mp hargs]
      · rw [if_neg htype, if_neg hargs, if_pos hlen, beq_eq_false_iff_ne.mpr hlen,
          Bool.and_false]
        rfl

theorem stackOutcome_unknown {subscript : CScript} {stack : List Valtype}
    (h : solver subscript = none) :
    stackOutcome .TX_SCRIPTHASH 1 (subscript :: stack) =
      .ret (redeemStandard (subscript :: stack)) := by
  simp only [stackOutcome, redeemStandard, h, ↓reduceIte]

/-- How a round ends: with false on an input that breaks the rule, with true on one
whose redeem script is of no known form. -/
def inputOutcome (E : SigEnv) (tx : CTransaction) (mapInputs : MapPrevTx) (txin : CTxIn)
    (i : Nat) : InputOutcome :=
  if !inputStandard E tx mapInputs txin i then .ret false
  else if opensUnknown E tx mapInputs txin i then .ret true
  else .next

theorem checkInput_fst {txin : CTxIn} {prev : CTxOut} (hprev : getOutputFor mapInputs txin =
    some prev) (cache : CSignatureCache E) : (checkInput E tx txin i prev.scriptPubKey cache).1 =
    some (inputOutcome E tx mapInputs txin i) := by
  cases hsolver : solver prev.scriptPubKey with
  | none =>
    simp only [checkInput, inputOutcome, inputStandard, hprev, hsolver]
    rfl
  | some found =>
    obtain ⟨whichType, vSolutions⟩ := found
    have htype := solver_eq_scriptHash hsolver
    by_cases hargs : scriptSigArgsExpected whichType vSolutions < 0
    · have hstd : inputStandard E tx mapInputs txin i = false := by
        cases hstack : scriptSigStack E tx txin i <;>
          simp only [inputStandard, hprev, hsolver, hstack,
            decide_eq_false (Int.not_le.mpr hargs), Bool.false_and]
      simp only [checkInput, inputOutcome, hsolver, hstd, if_pos hargs]
      rfl
    · have hattempt : (Cached.attempt (Legacy.evalScript E tx i 0 SCRIPT_VERIFY_NONE []
          txin.scriptSig) cache).1 = some (scriptSigStack E tx txin i) :=
        congrArg some (evalScript_cache txin i cache)
      simp only [checkInput, inputOutcome, hsolver, if_neg hargs]
      rw [Cached.bind_of_some hattempt]
      cases hstack : scriptSigStack E tx txin i with
      | none =>
        simp only [inputStandard, hprev, hsolver, hstack]
        rfl
      | some stack =>
        simp only [inputStandard, opensUnknown, hprev, hsolver, hstack,
          decide_eq_true (Int.not_lt.mp hargs), Bool.true_and]
        by_cases hp2sh : whichType = .TX_SCRIPTHASH
        · have hargs' : scriptSigArgsExpected .TX_SCRIPTHASH vSolutions = 1 := rfl
          cases stack with
          | nil =>
            rw [hp2sh]
            rfl
          | cons subscript st =>
            cases hredeem : solver subscript with
            | none =>
              simp only [Cached.ok, hargs', hp2sh, htype.mp hp2sh, hredeem,
                stackOutcome_unknown hredeem, ↓reduceIte]
              cases redeemStandard (subscript :: st) <;> rfl
            | some found =>
              simp only [Cached.ok, hargs', hp2sh, htype.mp hp2sh, hredeem,
                stackOutcome_known hredeem, ↓reduceIte]
              cases redeemStandard (subscript :: st) <;> rfl
        · have hne : CScript.isPayToScriptHash prev.scriptPubKey = false := by
            rw [Bool.eq_false_iff]
            exact fun h => hp2sh (htype.mpr h)
          simp only [Cached.ok, stackOutcome, if_neg hp2sh]
          by_cases hlen : (stack.length : Int) = scriptSigArgsExpected whichType vSolutions
          · rw [if_neg (not_not.mpr hlen), beq_iff_eq.mpr hlen]
            cases stack with
            | nil => rfl
            | cons subscript st =>
              simp only [hne, Bool.false_and]
              rfl
          · rw [if_pos hlen, beq_eq_false_iff_ne.mpr hlen]
            rfl

/-! ## §4. All rounds. -/

/-- The loop returns true exactly when every input up to the first one with an
unknown redeem script passes. -/
theorem inputsLoop_eq_true (l : List (CTxIn × Nat)) (cache : CSignatureCache E) :
    (inputsLoop E tx mapInputs l cache).1 = some true ↔
      EarlyReturn.Passes (fun p => inputStandard E tx mapInputs p.1 p.2 = true)
        (fun p => opensUnknown E tx mapInputs p.1 p.2 = true) l := by
  induction l generalizing cache with
  | nil => simp [inputsLoop, Cached.ok, EarlyReturn.Passes]
  | cons p l ih =>
    obtain ⟨txin, i⟩ := p
    unfold inputsLoop EarlyReturn.Passes
    dsimp only
    cases hprev : getOutputFor mapInputs txin with
    | none =>
      rw [Cached.bind_of_none rfl]
      simp [inputStandard, hprev]
    | some prev =>
      rw [Cached.bind_of_some (a := prev) rfl,
        Cached.bind_of_some (checkInput_fst i hprev _), inputOutcome]
      by_cases hstd : inputStandard E tx mapInputs txin i = true
      · by_cases hopen : opensUnknown E tx mapInputs txin i = true
        · simp [hstd, hopen, Cached.ok]
        · simp [hstd, hopen, ih]
      · simp [hstd, Cached.ok]

/-- Nothing that breaks the rule stands behind the first input that ends the loop; a
coinbase, which is not looked at, follows it. -/
structure NothingSkipped (E : SigEnv) (tx : CTransaction) (mapInputs : MapPrevTx) : Prop where
  coinbase : tx.isCoinBase = true →
    ∀ p ∈ tx.vin.zipIdx, inputStandard E tx mapInputs p.1 p.2 = true
  behind : ∀ before p after, tx.vin.zipIdx = before ++ p :: after →
    (∀ q ∈ before, inputStandard E tx mapInputs q.1 q.2 = true) →
    inputStandard E tx mapInputs p.1 p.2 = true →
    opensUnknown E tx mapInputs p.1 p.2 = true →
    ∀ q ∈ after, inputStandard E tx mapInputs q.1 q.2 = true

/-- **The verdict stands for every input** exactly when the loop skips none that
breaks the rule. -/
theorem inputs_standard_iff (E : SigEnv) (tx : CTransaction) (mapInputs : MapPrevTx)
    (cache : CSignatureCache E) :
    ((areInputsStandard E tx mapInputs cache).1 = some true →
      ∀ p ∈ tx.vin.zipIdx, inputStandard E tx mapInputs p.1 p.2 = true) ↔
    NothingSkipped E tx mapInputs := by
  unfold areInputsStandard
  by_cases hcoin : tx.isCoinBase = true
  · rw [if_pos hcoin]
    constructor
    · intro h
      refine ⟨fun _ => h rfl, ?_⟩
      intro before p after hsplit _ _ _ q hq
      refine h rfl q ?_
      rw [hsplit]
      exact List.mem_append_right _ (List.mem_cons_of_mem _ hq)
    · intro h _
      exact h.coinbase hcoin
  · rw [if_neg hcoin, inputsLoop_eq_true, EarlyReturn.passes_all_iff]
    constructor
    · intro h
      exact ⟨fun hc => absurd hc hcoin, h⟩
    · intro h
      exact h.behind

/-! ## §5. An input behind a redeem script of no known form. -/

def mixedFrom : CTransaction :=
  ⟨1, 1000, [], [⟨5, 0, OP_HASH160 :: 20 ::
    leBytes 20 (sampleScriptHashes.hash160 [OP_1]).toNat ++ [OP_EQUAL]⟩, ⟨5, 0, [OP_1]⟩], 0⟩

def mixedInputs : MapPrevTx :=
  (∅ : MapPrevTx).insert (mixedFrom.getHash sampleHashes) (.fresh .null 2, mixedFrom)

def mixedIns : List CTxIn :=
  [⟨⟨mixedFrom.getHash sampleHashes, 0⟩, CScript.push [OP_1], [], 0⟩,
    ⟨⟨mixedFrom.getHash sampleHashes, 1⟩, [], [], 0⟩]

/-- In this order the second input is not looked at, in the other it is. -/
theorem second_input_skipped :
    ¬((areInputsStandard sampleSigEnv ⟨1, 1100, mixedIns, [], 0⟩ mixedInputs .empty).1 =
        some true →
      ∀ p ∈ mixedIns.zipIdx,
        inputStandard sampleSigEnv ⟨1, 1100, mixedIns, [], 0⟩ mixedInputs p.1 p.2 = true) ∧
    (areInputsStandard sampleSigEnv ⟨1, 1100, mixedIns.reverse, [], 0⟩ mixedInputs .empty).1 =
      some false := by
  decide +kernel

end Fantom.Pool
