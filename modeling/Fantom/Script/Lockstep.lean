/-
  Fantom.Script.Lockstep — Both interpreters on the scripts that keys can sign for, under the
  standard flags and with signatures of the node's own making.

  * `Both` — the two computations give the same result, a known one.

  The first interpreter wants the low one of the two signatures that are valid together, which the
  second does not ask for; that is the one a key makes.
-/
import Fantom.Lib.Scan
import Fantom.Script.Agreement
import Fantom.Script.Pushes
import Fantom.Script.Sign
import Fantom.Script.SigOps
import Fantom.Script.Templates

namespace Fantom.Script

open Core Chain Lib List CScript

/-! ## §1. Two computations with one result. -/

/-- Whatever the cache, both computations give `res`; `none` is failure. -/
structure Both {σ α : Type} (x : Cached σ α) (y : Except ScriptError α) (res : Option α) :
    Prop where
  first : ∀ cache, (x cache).1 = res
  second : y.toOption = res

section

variable {σ α β : Type}

theorem both_ok (a : α) : Both (.ok a : Cached σ α) (.ok a) (some a) := ⟨fun _ => rfl, rfl⟩

theorem both_fail (e : ScriptError) : Both (.fail : Cached σ α) (.error e) none :=
  ⟨fun _ => rfl, rfl⟩

theorem Both.bind {x : Cached σ α} {y : Except ScriptError α} {f : α → Cached σ β}
    {g : α → Except ScriptError β} {res : Option α} {k : α → Option β} (h : Both x y res)
    (hk : ∀ a, res = some a → Both (f a) (g a) (k a)) : Both (x.bind f) (y >>= g) (res.bind k) := by
  cases res with
  | none =>
    refine ⟨fun cache => Cached.bind_of_none (h.first cache), ?_⟩
    cases y with
    | error e => rfl
    | ok a => cases h.second
  | some a =>
    have hnext := hk a rfl
    refine ⟨fun cache => ?_, ?_⟩
    · rw [Cached.bind_of_some (h.first cache)]
      exact hnext.first _
    · cases y with
      | error e => cases h.second
      | ok a' =>
        obtain rfl := Option.some.inj h.second
        exact hnext.second

theorem both_ite {p : Prop} [Decidable p] {x x' : Cached σ α} {y y' : Except ScriptError α}
    {res res' : Option α} (h : Both x y res) (h' : Both x' y' res') :
    Both (if p then x else x') (if p then y else y') (if p then res else res') := by
  split
  · exact h
  · exact h'

theorem both_pass {p : Prop} [Decidable p] {b : Bool} {e : ScriptError} {x : Cached σ α}
    {y : Except ScriptError α} {res : Option α} (hp : ¬p) (hb : b = false) (h : Both x y res) :
    Both (if p then .fail else x) (do rejectIf b e; y) res := by
  rw [if_neg hp, hb]
  exact h

end

/-! ## §2. Signatures. -/

/-- A signature as a key makes it: strict DER with the low second number, and
`SIGHASH_ALL` behind it. -/
structure MadeByKey (vchSig : Valtype) : Prop where
  low : isLowDERSignature vchSig = true
  hashType : vchSig.getLast? = some SIGHASH_ALL

/-- `SIGHASH_ALL`, as an `int`. -/
def sighashAll : Int32 := Int32.ofNat SIGHASH_ALL.toNat

variable {vchSig vch : Valtype} {res : Option EvalState}

section

variable (E : SigEnv) (txTo : CTransaction) (nIn : Nat)

/-- Whether a signature is one of `scriptCode` by a key. -/
def signed (scriptCode : CScript) (vchPubKey vchSig : Valtype) : Bool :=
  E.verify vchPubKey (signatureHash E.H scriptCode txTo nIn sighashAll) vchSig.dropLast

theorem pubKeyIsValid_of_form {vchPubKey : Valtype}
    (h : isCompressedOrUncompressedPubKey vchPubKey = true) : pubKeyIsValid vchPubKey = true := by
  unfold isCompressedOrUncompressedPubKey at h
  cases vchPubKey with
  | nil => cases h
  | cons chHeader vch =>
    have hhead : byteAt (chHeader :: vch) 0 = chHeader := rfl
    have hvalid (hlen : pubKeyLen chHeader = (chHeader :: vch).length) :
        pubKeyIsValid (chHeader :: vch) = true := by
      change (pubKeyLen chHeader != 0 && pubKeyLen chHeader == (chHeader :: vch).length) = true
      rw [hlen]
      simp
    rw [hhead] at h
    split at h
    next => cases h
    next =>
      split at h
      next h4 =>
        rw [beq_iff_eq] at h
        exact hvalid (h ▸ h4 ▸ rfl)
      next =>
        split at h
        next h23 =>
          rw [beq_iff_eq] at h
          refine hvalid (h ▸ ?_)
          rcases h23 with rfl | rfl <;> rfl
        next => cases h

theorem isDERSignature_of_low (h : isLowDERSignature vchSig = true) :
    isDERSignature vchSig true = true :=
  (Bool.and_eq_true _ _ ▸ h).1

theorem isDefinedHashtypeSignature_all (h : vchSig.getLast? = some SIGHASH_ALL) :
    isDefinedHashtypeSignature vchSig = true := by
  rw [isDefinedHashtypeSignature, h]
  rfl

variable {nHashType : Int32} (hType : nHashType = 0 ∨ nHashType = sighashAll)

include hType in
theorem both_checkSig {vchPubKey : Valtype} (hsig : MadeByKey vchSig)
    (hkey : isCompressedOrUncompressedPubKey vchPubKey = true) (scriptCode : CScript)
    (flags : UInt32) :
    Both (checkSig E vchSig vchPubKey scriptCode txTo nIn nHashType flags)
      (.ok (signatureChecker E txTo nIn vchSig vchPubKey scriptCode))
      (some (signed E txTo nIn scriptCode vchPubKey vchSig)) := by
  have hvalid := pubKeyIsValid_of_form hkey
  have hback : Int32.ofNat SIGHASH_ALL.toNat = sighashAll := rfl
  refine ⟨fun cache => ?_, ?_⟩
  · have htype : ¬(nHashType ≠ 0 ∧ nHashType ≠ sighashAll) := by
      rcases hType with h | h <;> simp [h]
    rw [checkSig, hvalid, hsig.hashType]
    rw [if_neg (show ¬(!true) = true by decide)]
    dsimp only
    rw [hback, if_neg htype, Cached.ask_fst]
    rfl
  · rw [signatureChecker, hvalid, hsig.hashType]
    rfl

include hType in
/-- **One signature against one key**: both fail on a key of another form. -/
theorem both_checkOne (hsig : MadeByKey vchSig) (vchPubKey : Valtype) (scriptCode : CScript) :
    Both (Legacy.checkOne E txTo nIn nHashType STANDARD_SCRIPT_VERIFY_FLAGS vchSig vchPubKey
        scriptCode)
      (checkOne (signatureChecker E txTo nIn) STANDARD_SCRIPT_VERIFY_FLAGS vchSig vchPubKey
        scriptCode)
      (if isCompressedOrUncompressedPubKey vchPubKey then
        some (signed E txTo nIn scriptCode vchPubKey vchSig) else none) := by
  have hstrict : hasFlag STANDARD_SCRIPT_VERIFY_FLAGS SCRIPT_VERIFY_STRICTENC = true := by decide
  have hder := isDERSignature_of_low hsig.low
  have hdefined := isDefinedHashtypeSignature_all hsig.hashType
  have hfirst : Legacy.checkEncodings vchSig vchPubKey STANDARD_SCRIPT_VERIFY_FLAGS =
      isCompressedOrUncompressedPubKey vchPubKey := by
    unfold Legacy.checkEncodings Legacy.checkSignatureEncoding
    rw [hsig.low, hdefined, show hasFlag STANDARD_SCRIPT_VERIFY_FLAGS SCRIPT_VERIFY_ALLOW_EMPTY_SIG
      = false by decide]
    simp
  have hsecond : checkSignatureEncoding vchSig STANDARD_SCRIPT_VERIFY_FLAGS = .ok () := by
    rw [checkSignatureEncoding, hder, hdefined]
    rfl
  unfold Legacy.checkOne checkOne checkPubKeyEncoding
  rw [hfirst, hsecond, hstrict, ok_bind]
  cases hkey : isCompressedOrUncompressedPubKey vchPubKey with
  | false => exact both_fail _
  | true => exact both_checkSig E txTo nIn hType hsig hkey scriptCode _

include hType in
/-- **The loop of `OP_CHECKMULTISIG`** in both is one scan. -/
theorem both_multiSigLoop (scriptCode : CScript) (keys : List Valtype) {sigs : List Valtype}
    (hsigs : ∀ vchSig ∈ sigs, MadeByKey vchSig) :
    Both (Legacy.multiSigLoop E txTo nIn nHashType STANDARD_SCRIPT_VERIFY_FLAGS scriptCode keys sigs)
      (multiSigLoop (signatureChecker E txTo nIn) STANDARD_SCRIPT_VERIFY_FLAGS scriptCode keys sigs)
      (scan isCompressedOrUncompressedPubKey (signed E txTo nIn scriptCode) keys sigs) := by
  induction keys generalizing sigs with
  | nil =>
    cases sigs with
    | nil => exact both_ok true
    | cons vchSig sigs => exact both_ok false
  | cons vchPubKey keys ih =>
    cases sigs with
    | nil => exact both_ok true
    | cons vchSig sigs =>
      have hone := both_checkOne E txTo nIn hType (hsigs vchSig mem_cons_self) vchPubKey
        scriptCode
      have hleft (fOk : Bool) : ∀ v ∈ leftOver fOk vchSig sigs, MadeByKey v := fun v hv =>
        hsigs v ((leftOver_suffix fOk vchSig sigs).mem hv)
      rw [Legacy.multiSigLoop, multiSigLoop, scan_cons_eq_bind]
      refine hone.bind fun fOk _ => ?_
      exact both_ite (both_ok false) (ih (hleft fOk))

/-! ## §3. One instruction. -/

/-- The state of a run outside of any branch, with nothing put aside. -/
def running (stack : List Valtype) (nOpCount : Nat) (code : CScript) : EvalState :=
  ⟨stack, [], [], nOpCount, code⟩

/-- One round of both loops. -/
abbrev BothStep (nHashType : Int32) (r : GetOpResult) (s : EvalState) (res : Option EvalState) :
    Prop :=
  Both (Legacy.evalInstruction E txTo nIn nHashType STANDARD_SCRIPT_VERIFY_FLAGS r s)
    (evalInstruction E.scriptHashes (signatureChecker E txTo nIn) STANDARD_SCRIPT_VERIFY_FLAGS r s)
    res

variable {E txTo nIn}
variable {r : GetOpResult} {stack : List Valtype} {nOpCount : Nat} {code : CScript}

theorem bothStep_of_dispatch {s : EvalState} (hok : r.ok = true)
    (hdata : r.data.length ≤ MAX_SCRIPT_ELEMENT_SIZE)
    (hcount : (Legacy.countOp r s).nOpCount ≤ MAX_OPS) (hdisabled : r.opcode ∉ disabledOpcodes) (h :
    Both (Legacy.dispatch E txTo nIn nHashType STANDARD_SCRIPT_VERIFY_FLAGS r (Legacy.countOp r s))
    (dispatch E.scriptHashes (signatureChecker E txTo nIn) STANDARD_SCRIPT_VERIFY_FLAGS r
    (Legacy.countOp r s)) res)
    (hstack : ∀ s', res = some s' → s'.stack.length + s'.altstack.length ≤ MAX_STACK) :
    BothStep E txTo nIn nHashType r s res := by
  unfold BothStep Legacy.evalInstruction evalInstruction
  refine both_pass (by rw [hok]; decide) (by rw [hok]; rfl) ?_
  refine both_pass (Nat.not_lt.mpr hdata) (decide_eq_false (Nat.not_lt.mpr hdata)) ?_
  refine both_pass (fun h => absurd h.2 (Nat.not_lt.mpr hcount)) ?_ ?_
  · rw [countOp_eq, decide_eq_false (Nat.not_lt.mpr hcount), Bool.and_false]
  refine both_pass hdisabled (decide_eq_false hdisabled) ?_
  rw [← Option.bind_fun_some res]
  refine h.bind fun s' hs' => ?_
  have hle := Nat.not_lt.mpr (hstack s' hs')
  exact both_pass hle (decide_eq_false hle) (both_ok s')

theorem countOp_running (h : nOpCount < MAX_OPS) :
    (Legacy.countOp r (running stack nOpCount code)).nOpCount ≤ MAX_OPS := by
  unfold Legacy.countOp
  split
  · exact h
  · exact Nat.le_of_lt h

theorem countOp_of_le (h : r.opcode ≤ OP_16) (s : EvalState) : Legacy.countOp r s = s :=
  if_neg (UInt8.not_lt.mpr h)

theorem countOp_of_gt (h : OP_16 < r.opcode) :
    Legacy.countOp r (running stack nOpCount code) = running stack (nOpCount + 1) code :=
  if_pos h

theorem push_not_disabled : ∀ opcode : UInt8, opcode ≤ OP_PUSHDATA4 → opcode ∉ disabledOpcodes :=
  Legacy.forall_opcode (by decide +kernel)

theorem number_not_disabled : ∀ opcode : UInt8,
    OP_1 ≤ opcode ∧ opcode ≤ OP_16 → opcode ∉ disabledOpcodes :=
  Legacy.forall_opcode (by decide +kernel)

theorem both_push {data : Valtype} (h : IsPush data r) (hdata : data.length ≤ MAX_SCRIPT_ELEMENT_SIZE)
    (hstack : stack.length < MAX_STACK) (hcount : nOpCount < MAX_OPS) :
    BothStep E txTo nIn nHashType r (running stack nOpCount code)
      (some (running (data :: stack) nOpCount code)) := by
  have hle : r.opcode ≤ OP_16 := UInt8.le_trans h.opcode_le (by decide)
  obtain rfl := h.data_eq
  refine bothStep_of_dispatch h.ok hdata (countOp_running hcount)
    (push_not_disabled r.opcode h.opcode_le) ?_ ?_
  · rw [countOp_of_le hle]
    unfold Legacy.dispatch dispatch
    rw [if_pos ⟨rfl, h.opcode_le⟩, if_pos ⟨rfl, h.opcode_le⟩]
    exact both_ok _
  · rintro s' hs'
    cases hs'
    exact hstack

theorem both_op {opcode : UInt8} (h : IsOp opcode r) (hhigh : OP_16 < opcode)
    (hdisabled : opcode ∉ disabledOpcodes) (hcount : nOpCount < MAX_OPS) (hexec : Both (Legacy.exec
    E txTo nIn nHashType STANDARD_SCRIPT_VERIFY_FLAGS (opcodeOf opcode) r.rest (running stack
    (nOpCount + 1) code)) (exec E.scriptHashes (signatureChecker E txTo nIn)
    STANDARD_SCRIPT_VERIFY_FLAGS (opcodeOf opcode) r.rest (running stack (nOpCount + 1) code)) res)
    (hstack : ∀ s', res = some s' → s'.stack.length + s'.altstack.length ≤ MAX_STACK) :
    BothStep E txTo nIn nHashType r (running stack nOpCount code) res := by
  obtain rfl := h.opcode_eq
  have hnot : ¬r.opcode ≤ OP_PUSHDATA4 := fun hle =>
    absurd (UInt8.lt_of_lt_of_le hhigh hle) (by decide)
  refine bothStep_of_dispatch h.ok ?_ (countOp_running hcount) hdisabled ?_ hstack
  · rw [h.data_eq]
    exact Nat.zero_le _
  · rw [countOp_of_gt hhigh]
    unfold Legacy.dispatch dispatch
    rw [if_neg fun h => hnot h.2, if_pos (.inl rfl), if_neg fun h => hnot h.2, if_pos (.inl rfl)]
    exact hexec

theorem both_number {n : UInt8} (h : IsNumber n r) (hstack : stack.length < MAX_STACK)
    (hcount : nOpCount < MAX_OPS) :
    BothStep E txTo nIn nHashType r (running stack nOpCount code)
      (some (running (CBigNum.getvch (smallNumber r.opcode) :: stack) nOpCount code)) := by
  obtain ⟨hpush, hbranch⟩ := Legacy.number_ranges r.opcode h.range
  refine bothStep_of_dispatch h.ok ?_ (countOp_running hcount)
    (number_not_disabled r.opcode h.range) ?_ ?_
  · rw [h.data_eq]
    exact Nat.zero_le _
  · rw [countOp_of_le h.range.2]
    unfold Legacy.dispatch dispatch
    rw [if_neg fun hd => hpush hd.2, if_pos (.inl rfl), if_neg fun hd => hpush hd.2,
      if_pos (.inl rfl), Legacy.opcodeOf_number r.opcode h.range]
    dsimp only [Legacy.exec, exec, Legacy.execOpcode, execOpcode]
    rw [serialize_eq_getvch, smallNumber_toInt]
    exact both_ok _
  · rintro s' hs'
    cases hs'
    exact hstack

theorem both_dup (h : IsOp OP_DUP r) (hstack : stack.length + 1 < MAX_STACK)
    (hcount : nOpCount < MAX_OPS) :
    BothStep E txTo nIn nHashType r (running (vch :: stack) nOpCount code)
      (some (running (vch :: vch :: stack) (nOpCount + 1) code)) := by
  refine both_op h (by decide) (by decide) hcount (both_ok _) ?_
  rintro s' hs'
  cases hs'
  exact hstack

theorem both_hash160 (h : IsOp OP_HASH160 r) (hstack : stack.length < MAX_STACK)
    (hcount : nOpCount < MAX_OPS) :
    BothStep E txTo nIn nHashType r (running (vch :: stack) nOpCount code)
      (some (running (E.scriptHashes.vchHash .OP_HASH160 vch :: stack) (nOpCount + 1) code)) := by
  refine both_op h (by decide) (by decide) hcount (both_ok _) ?_
  rintro s' hs'
  cases hs'
  exact hstack

theorem both_equal {vch1 vch2 : Valtype} (h : IsOp OP_EQUAL r) (hstack : stack.length < MAX_STACK)
    (hcount : nOpCount < MAX_OPS) :
    BothStep E txTo nIn nHashType r (running (vch2 :: vch1 :: stack) nOpCount code)
      (some (running (vchBool (vch1 == vch2) :: stack) (nOpCount + 1) code)) := by
  refine both_op h (by decide) (by decide) hcount (both_ok _) ?_
  rintro s' hs'
  cases hs'
  exact hstack

theorem both_equalVerify {vch1 vch2 : Valtype} (h : IsOp OP_EQUALVERIFY r)
    (hstack : stack.length ≤ MAX_STACK) (hcount : nOpCount < MAX_OPS) :
    BothStep E txTo nIn nHashType r (running (vch2 :: vch1 :: stack) nOpCount code)
      (if vch1 = vch2 then some (running stack (nOpCount + 1) code) else none) := by
  refine both_op h (by decide) (by decide) hcount ?_ ?_
  · have hboth : Both
        (Cached.ofOption (σ := CSignatureCache E)
          (if (vch1 == vch2) = true then some (running stack (nOpCount + 1) code) else none))
        (if (vch1 == vch2) = true then .ok (running stack (nOpCount + 1) code)
          else .error .EQUALVERIFY)
        (if vch1 = vch2 then some (running stack (nOpCount + 1) code) else none) := by
      by_cases heq : vch1 = vch2
      · rw [if_pos (beq_iff_eq.mpr heq), if_pos (beq_iff_eq.mpr heq), if_pos heq]
        exact both_ok _
      · rw [if_neg (mt beq_iff_eq.mp heq), if_neg (mt beq_iff_eq.mp heq), if_neg heq]
        exact both_fail _
    exact hboth
  · intro s' hs'
    split at hs'
    · cases hs'
      exact hstack
    · cases hs'

include hType in
theorem both_opCheckSig {vchPubKey : Valtype} (h : IsOp OP_CHECKSIG r) (hsig : MadeByKey vchSig)
    (hstack : stack.length < MAX_STACK) (hcount : nOpCount < MAX_OPS) :
    BothStep E txTo nIn nHashType r (running (vchPubKey :: vchSig :: stack) nOpCount code)
      (if isCompressedOrUncompressedPubKey vchPubKey then
        some (running (vchBool (signed E txTo nIn
          (findAndDelete code (push vchSig)) vchPubKey vchSig) :: stack)
          (nOpCount + 1) code) else none) := by
  refine both_op h (by decide) (by decide) hcount ?_ ?_
  · have hone := both_checkOne E txTo nIn hType hsig vchPubKey
      (findAndDelete code (push vchSig))
    have hall := hone.bind (f := Legacy.pushSuccess E false
      (running (vchPubKey :: vchSig :: stack) (nOpCount + 1) code) stack)
      (g := pushSuccess none (running (vchPubKey :: vchSig :: stack) (nOpCount + 1) code) stack)
      (k := fun b => some (running (vchBool b :: stack) (nOpCount + 1) code))
      fun b _ => both_ok _
    cases hkey : isCompressedOrUncompressedPubKey vchPubKey with
    | false =>
      rw [hkey] at hall
      exact hall
    | true =>
      rw [hkey] at hall
      exact hall
  · intro s' hs'
    split at hs'
    · cases hs'
      exact hstack
    · cases hs'

/-! ### `OP_CHECKMULTISIG`. -/

theorem both_countArg (vch : Valtype) (nMax : Nat) (e : ScriptError) :
    (countArg STANDARD_SCRIPT_VERIFY_FLAGS vch nMax e).toOption = Legacy.countArg vch nMax := by
  unfold countArg Legacy.countArg
  rw [show hasFlag STANDARD_SCRIPT_VERIFY_FLAGS SCRIPT_VERIFY_MINIMALDATA = false by decide]
  rcases scriptNum_cases vch with ⟨hnew, hold⟩ | ⟨n, hnew, hold, _, _⟩
  · rw [hnew, hold]
    rfl
  · rw [hnew, hold, ok_bind, Option.bind_eq_bind, Option.bind_some, ← getint_eq]
    dsimp only
    by_cases hrange : CScriptNum.getint n < 0 ∨ CScriptNum.getint n > nMax
    · rw [if_pos hrange, ← Bool.decide_or, decide_eq_true hrange]
      rfl
    · rw [if_neg hrange, ← Bool.decide_or, decide_eq_false hrange]
      rfl

theorem countArg_eq_ok {nMax n : Nat} (h : Legacy.countArg vch nMax = some n) (e : ScriptError) :
    countArg STANDARD_SCRIPT_VERIFY_FLAGS vch nMax e = .ok n := by
  have hboth := both_countArg vch nMax e
  rw [h] at hboth
  cases hy : countArg STANDARD_SCRIPT_VERIFY_FLAGS vch nMax e with
  | error e' =>
    rw [hy] at hboth
    cases hboth
  | ok n' =>
    rw [hy] at hboth
    rw [Option.some.inj hboth]

theorem intSize_eq {l : List Valtype} (h : l.length ≤ MAX_STACK) : intSize l = l.length := by
  have hmax : MAX_STACK = 1000 := rfl
  rw [intSize, Int32.toInt_ofNat_of_lt]
  omega

/-- What `OP_CHECKMULTISIG` finds on the stack: the numbers of keys and signatures, the
keys, the signatures, and the element more. -/
structure MultiSigStack (vn vm : Valtype) (keys sigs : List Valtype) (nOpCount : Nat) : Prop where
  nKeys : Legacy.countArg vn 20 = some keys.length
  nSigs : Legacy.countArg vm keys.length = some sigs.length
  nOps : nOpCount + keys.length ≤ MAX_OPS

section

variable {vn vm dummy : Valtype} {keys sigs : List Valtype} (flags : UInt32)

def multiSigStack (vn vm dummy : Valtype) (keys sigs : List Valtype) (st : List Valtype) :
    List Valtype :=
  vn :: (keys ++ vm :: (sigs ++ dummy :: st))

variable (hargs : MultiSigStack vn vm keys sigs nOpCount)
  (hlen : (multiSigStack vn vm dummy keys sigs stack).length ≤ MAX_STACK)

theorem multiSigStack_parts (vn vm dummy : Valtype) (keys sigs st : List Valtype) :
    (multiSigStack vn vm dummy keys sigs st).length = 3 + keys.length + sigs.length + st.length ∧
    (multiSigStack vn vm dummy keys sigs st)[0]? = some vn ∧
    (multiSigStack vn vm dummy keys sigs st)[1 + keys.length]? = some vm ∧
    (multiSigStack vn vm dummy keys sigs st)[2 + keys.length + sigs.length]? = some dummy ∧
    ((multiSigStack vn vm dummy keys sigs st).drop 1).take keys.length = keys ∧
    ((multiSigStack vn vm dummy keys sigs st).drop (2 + keys.length)).take sigs.length = sigs ∧
    (multiSigStack vn vm dummy keys sigs st).drop (3 + keys.length + sigs.length) = st := by
  -- the stack, cut before each of the operands
  have hkeys : multiSigStack vn vm dummy keys sigs st =
      (vn :: keys) ++ (vm :: (sigs ++ dummy :: st)) := rfl
  have hsigs : multiSigStack vn vm dummy keys sigs st =
      (vn :: (keys ++ [vm])) ++ (sigs ++ dummy :: st) := by
    simp [multiSigStack]
  have hdummy : multiSigStack vn vm dummy keys sigs st =
      (vn :: (keys ++ vm :: sigs)) ++ dummy :: st := by
    simp [multiSigStack]
  have hst : multiSigStack vn vm dummy keys sigs st =
      (vn :: (keys ++ vm :: (sigs ++ [dummy]))) ++ st := by
    simp [multiSigStack]
  refine ⟨?_, rfl, ?_, ?_, ?_, ?_, ?_⟩
  · simp only [multiSigStack, length_cons, length_append]
    omega
  · rw [hkeys, getElem?_append_right (by rw [length_cons]; omega)]
    simp only [length_cons, Nat.add_comm, Nat.sub_self]
    rfl
  · rw [hdummy, getElem?_append_right
      (by simp only [length_cons, length_append]; omega)]
    simp [show 2 + keys.length + sigs.length - (keys.length + (sigs.length + 1) + 1) = 0 by omega]
  · rw [multiSigStack, drop_one, tail_cons, take_left]
  · rw [hsigs, drop_left' (by simp; omega), take_left]
  · rw [hst, drop_left' (by simp; omega)]

include hargs hlen in
theorem multiSigArgs_eq :
    Legacy.multiSigArgs (multiSigStack vn vm dummy keys sigs stack) nOpCount =
      some ⟨keys.length, keys, sigs, dummy, stack⟩ := by
  obtain ⟨hsize, h0, h1, h2, hkeys, hsigs, hst⟩ :=
    multiSigStack_parts vn vm dummy keys sigs stack
  have hint := intSize_eq hlen
  rw [Legacy.multiSigArgs, hint, hsize, h0]
  simp only [Option.bind_eq_bind, Option.bind_some, hargs.nKeys]
  rw [if_neg (by omega), if_neg (Nat.not_lt.mpr hargs.nOps), if_neg (by omega), h1, Option.bind_some,
    hargs.nSigs, Option.bind_some, if_neg (by omega), h2, Option.bind_some, hkeys, hsigs, hst]
  rfl

include hargs hlen in
theorem execCheckMultiSig_eq (checker : SignatureChecker) (hdummy : dummy = []) :
    execCheckMultiSig checker STANDARD_SCRIPT_VERIFY_FLAGS none
        (running (multiSigStack vn vm dummy keys sigs stack) nOpCount code) = (do
      let fSuccess ← multiSigLoop checker STANDARD_SCRIPT_VERIFY_FLAGS
        (sigs.foldl (fun scriptCode vchSig =>
          findAndDelete scriptCode (push vchSig)) code) keys sigs
      .ok (running (vchBool fSuccess :: stack) (nOpCount + keys.length) code)) := by
  obtain ⟨hsize, h0, h1, h2, hkeys, hsigs, hst⟩ :=
    multiSigStack_parts vn vm dummy keys sigs stack
  have hint := intSize_eq hlen
  unfold execCheckMultiSig running
  dsimp only
  rw [hint, hsize, h0, decide_eq_false (by omega), rejectIf_false, ok_bind]
  rw [show required (some vn) ScriptError.UNKNOWN_ERROR = .ok vn from rfl, ok_bind,
    countArg_eq_ok hargs.nKeys, ok_bind]
  rw [decide_eq_false (Nat.not_lt.mpr hargs.nOps), rejectIf_false, ok_bind,
    decide_eq_false (by omega), rejectIf_false, ok_bind, h1]
  rw [show required (some vm) ScriptError.UNKNOWN_ERROR = .ok vm from rfl, ok_bind,
    countArg_eq_ok hargs.nSigs, ok_bind, decide_eq_false (by omega), rejectIf_false, ok_bind,
    hkeys, hsigs, h2, hst, hdummy]
  rfl

end

include hType in
/-- **`OP_CHECKMULTISIG`**, over an empty element, is one scan. -/
theorem both_opCheckMultiSig {vn vm : Valtype} {keys sigs : List Valtype}
    (h : IsOp OP_CHECKMULTISIG r) (hargs : MultiSigStack vn vm keys sigs (nOpCount + 1))
    (hlen : (multiSigStack vn vm [] keys sigs stack).length ≤ MAX_STACK)
    (hsigs : ∀ vchSig ∈ sigs, MadeByKey vchSig) :
    BothStep E txTo nIn nHashType r
      (running (multiSigStack vn vm [] keys sigs stack) nOpCount code)
      ((scan isCompressedOrUncompressedPubKey (signed E txTo nIn
        (sigs.foldl (fun scriptCode vchSig =>
          findAndDelete scriptCode (push vchSig)) code)) keys sigs).map fun b =>
        running (vchBool b :: stack) (nOpCount + 1 + keys.length) code) := by
  have hcount : nOpCount < MAX_OPS := by
    have := hargs.nOps
    omega
  have hlength := (multiSigStack_parts vn vm [] keys sigs stack).1
  refine both_op h (by decide) (by decide) hcount ?_ ?_
  · have hloop := both_multiSigLoop E txTo nIn hType
      (sigs.foldl (fun scriptCode vchSig =>
        findAndDelete scriptCode (push vchSig)) code) keys hsigs
    rw [Option.map_eq_bind]
    have hall := hloop.bind
      (f := fun fSuccess => if hasFlag STANDARD_SCRIPT_VERIFY_FLAGS SCRIPT_VERIFY_NULLDUMMY &&
        !([] : Valtype).isEmpty then .fail else
          Legacy.pushSuccess E false (running (multiSigStack vn vm [] keys sigs stack)
            (nOpCount + 1 + keys.length) code) stack fSuccess)
      (g := fun fSuccess =>
        .ok (running (vchBool fSuccess :: stack) (nOpCount + 1 + keys.length) code))
      (k := fun b => some (running (vchBool b :: stack) (nOpCount + 1 + keys.length) code))
      fun b _ => both_ok _
    refine ⟨fun cache => (Eq.trans ?_ (hall.first cache)), ?_⟩
    · have hrun : Legacy.exec E txTo nIn nHashType STANDARD_SCRIPT_VERIFY_FLAGS
          (opcodeOf OP_CHECKMULTISIG) r.rest
          (running (multiSigStack vn vm [] keys sigs stack) (nOpCount + 1) code) =
          Legacy.execCheckMultiSig E txTo nIn nHashType STANDARD_SCRIPT_VERIFY_FLAGS false
            (running (multiSigStack vn vm [] keys sigs stack) (nOpCount + 1) code) := rfl
      rw [hrun, Legacy.execCheckMultiSig]
      rw [show (running (multiSigStack vn vm [] keys sigs stack) (nOpCount + 1) code).stack =
        multiSigStack vn vm [] keys sigs stack from rfl, show (running (multiSigStack vn vm [] keys
        sigs stack) (nOpCount + 1) code).nOpCount = nOpCount + 1 from rfl, multiSigArgs_eq hargs hlen]
      rfl
    · refine Eq.trans ?_ hall.second
      have hrun : exec E.scriptHashes (signatureChecker E txTo nIn) STANDARD_SCRIPT_VERIFY_FLAGS
          (opcodeOf OP_CHECKMULTISIG) r.rest
          (running (multiSigStack vn vm [] keys sigs stack) (nOpCount + 1) code) =
          execCheckMultiSig (signatureChecker E txTo nIn) STANDARD_SCRIPT_VERIFY_FLAGS none
            (running (multiSigStack vn vm [] keys sigs stack) (nOpCount + 1) code) := rfl
      rw [hrun, execCheckMultiSig_eq hargs hlen _ rfl]
  · intro s' hs'
    obtain ⟨b, _, rfl⟩ := Option.map_eq_some_iff.mp hs'
    change (vchBool b :: stack).length + 0 ≤ MAX_STACK
    rw [length_cons]
    omega

/-! ## §4. A script. -/

/-- Both loops. -/
abbrev BothLoop (E : SigEnv) (txTo : CTransaction) (nIn : Nat) (nHashType : Int32)
    (rs : List GetOpResult) (s : EvalState) (res : Option EvalState) : Prop :=
  Both (Legacy.evalLoop E txTo nIn nHashType STANDARD_SCRIPT_VERIFY_FLAGS rs s)
    (rs.foldlM (fun s r => evalInstruction E.scriptHashes (signatureChecker E txTo nIn)
      STANDARD_SCRIPT_VERIFY_FLAGS r s) s) res

/-- Both runs of a script. -/
abbrev BothScript (E : SigEnv) (txTo : CTransaction) (nIn : Nat) (nHashType : Int32)
    (stack : List Valtype) (script : CScript) (res : Option (List Valtype)) : Prop :=
  Both (Legacy.evalScript E txTo nIn nHashType STANDARD_SCRIPT_VERIFY_FLAGS stack script)
    (evalScript E.scriptHashes (signatureChecker E txTo nIn) STANDARD_SCRIPT_VERIFY_FLAGS stack
      script) res

variable {rs : List GetOpResult} {s : EvalState}

theorem bothLoop_cons {s' : EvalState} (h : BothStep E txTo nIn nHashType r s (some s'))
    (hrest : BothLoop E txTo nIn nHashType rs s' res) :
    BothLoop E txTo nIn nHashType (r :: rs) s res := by
  have hall := h.bind (k := fun _ => res) fun a ha => Option.some.inj ha ▸ hrest
  rw [BothLoop, Legacy.evalLoop, foldlM_cons]
  exact hall

theorem bothLoop_none (h : BothStep E txTo nIn nHashType r s none) :
    BothLoop E txTo nIn nHashType (r :: rs) s none := by
  have hall := h.bind (β := EvalState)
    (f := Legacy.evalLoop E txTo nIn nHashType STANDARD_SCRIPT_VERIFY_FLAGS rs)
    (g := fun s => rs.foldlM (fun s r => evalInstruction E.scriptHashes
      (signatureChecker E txTo nIn) STANDARD_SCRIPT_VERIFY_FLAGS r s) s)
    (k := fun _ => none) nofun
  rw [BothLoop, Legacy.evalLoop, foldlM_cons]
  exact hall

theorem bothLoop_last (h : BothStep E txTo nIn nHashType r s res) :
    BothLoop E txTo nIn nHashType [r] s res := by
  have hall := h.bind (f := .ok) (g := .ok) (k := some) fun a _ => both_ok a
  rw [Option.bind_fun_some] at hall
  rw [BothLoop, Legacy.evalLoop, foldlM_cons]
  exact hall

theorem bothLoop_pushes {kops : List GetOpResult}
    (hkops : ∀ k ∈ kops, IsPush k.data k ∧ k.data.length ≤ MAX_SCRIPT_ELEMENT_SIZE)
    (hstack : kops.length + stack.length ≤ MAX_STACK) (hcount : nOpCount < MAX_OPS) (hrest :
    BothLoop E txTo nIn nHashType rs (running ((kops.map GetOpResult.data).reverse ++ stack)
    nOpCount code) res) :
    BothLoop E txTo nIn nHashType (kops ++ rs) (running stack nOpCount code) res := by
  induction kops generalizing stack with
  | nil => exact hrest
  | cons k kops ih =>
    obtain ⟨hpush, hlen⟩ := hkops k mem_cons_self
    rw [length_cons] at hstack
    rw [cons_append]
    refine bothLoop_cons (both_push hpush hlen (by omega) hcount)
      (ih (fun k' hk' => hkops k' (mem_cons_of_mem k hk')) ?_ ?_)
    · rw [length_cons]
      omega
    · rw [map_cons, reverse_cons, append_assoc, singleton_append] at hrest
      exact hrest

theorem bothScript_of_loop {script : CScript} (hsize : script.length ≤ MAX_SCRIPT_SIZE)
    (h : BothLoop E txTo nIn nHashType (ops script) (running stack 0 script) res)
    (hexec : ∀ s', res = some s' → s'.vfExec = []) :
    BothScript E txTo nIn nHashType stack script (res.map EvalState.stack) := by
  unfold BothScript Legacy.evalScript evalScript
  refine both_pass (Nat.not_lt.mpr hsize) (decide_eq_false (Nat.not_lt.mpr hsize)) ?_
  rw [Option.map_eq_bind]
  refine h.bind fun s' hs' => ?_
  have hnil := hexec s' hs'
  exact both_pass (by rw [hnil]; simp) (by rw [hnil]; rfl) (both_ok s'.stack)

/-- **A script of pushes** leaves what it pushed. -/
theorem both_pushes {bs : List Valtype} (hbs : ∀ b ∈ bs, b.length ≤ MAX_SCRIPT_ELEMENT_SIZE)
    (hcount : bs.length ≤ MAX_STACK) (hsize : (pushes bs).length ≤ MAX_SCRIPT_SIZE) :
    BothScript E txTo nIn nHashType [] (pushes bs) (some bs.reverse) := by
  have hmax : MAX_SCRIPT_ELEMENT_SIZE = 520 := rfl
  obtain ⟨hops, hdata⟩ := ops_pushes fun b hb => by
    have := hbs b hb
    omega
  have hlength : (ops (pushes bs)).length = bs.length := by
    rw [← length_map, hdata]
  have hloop : BothLoop E txTo nIn nHashType (ops (pushes bs) ++ [])
      (running [] 0 (pushes bs)) (some (running bs.reverse 0 (pushes bs))) := by
    refine bothLoop_pushes ?_ ?_ (by decide) ?_
    · intro k hk
      refine ⟨⟨(hops k hk).1, (hops k hk).2, rfl⟩, hbs k.data ?_⟩
      rw [← hdata]
      exact mem_map_of_mem hk
    · rw [hlength]
      exact hcount
    · rw [hdata, append_nil]
      exact both_ok _
  rw [append_nil] at hloop
  refine bothScript_of_loop hsize hloop ?_
  intro s' hs'
  cases hs'
  rfl

/-! ### The forms. -/

variable {script : CScript} {out : List Valtype}

include hType in
variable (E txTo nIn) in
theorem both_pubKey (h : solver script = some (.TX_PUBKEY, out))
    (hsize : script.length ≤ MAX_SCRIPT_SIZE) (hsig : MadeByKey vchSig) :
    ∃ key, out = [key] ∧ BothScript E txTo nIn nHashType [vchSig] script
      (if isCompressedOrUncompressedPubKey key then
        some [vchBool (signed E txTo nIn
          (findAndDelete script (push vchSig)) key vchSig)] else none) := by
  obtain ⟨r, rc, hops, rfl, hpush, hkey, hcheck⟩ := ops_of_pubKey h
  have hlen : r.data.length ≤ MAX_SCRIPT_ELEMENT_SIZE := isPubKeySize_le hkey
  refine ⟨r.data, rfl, ?_⟩
  have hloop : BothLoop E txTo nIn nHashType (ops script) (running [vchSig] 0 script)
      (if isCompressedOrUncompressedPubKey r.data then
        some (running [vchBool (signed E txTo nIn
          (findAndDelete script (push vchSig)) r.data vchSig)] 1 script)
        else none) := by
    rw [hops]
    exact bothLoop_cons (both_push hpush hlen (by simp [MAX_STACK]) (by decide))
      (bothLoop_last (both_opCheckSig hType hcheck hsig (by decide) (by decide)))
  have hall := bothScript_of_loop hsize hloop (by
    intro s' hs'
    split at hs'
    · cases hs'
      rfl
    · cases hs')
  rw [apply_ite (Option.map EvalState.stack)] at hall
  exact hall

include hType in
variable (E txTo nIn) in
/-- **`OP_DUP OP_HASH160 <hash> OP_EQUALVERIFY OP_CHECKSIG`** on a key and a signature. -/
theorem both_pubKeyHash (h : solver script = some (.TX_PUBKEYHASH, out))
    (hsize : script.length ≤ MAX_SCRIPT_SIZE) (hsig : MadeByKey vchSig) (vch : Valtype) :
    ∃ hash, out = [hash] ∧ BothScript E txTo nIn nHashType [vch, vchSig] script
      (if E.scriptHashes.vchHash .OP_HASH160 vch = hash then
        (if isCompressedOrUncompressedPubKey vch then
          some [vchBool (signed E txTo nIn
            (findAndDelete script (push vchSig)) vch vchSig)] else none)
        else none) := by
  obtain ⟨r1, r2, r, r4, rc, hops, rfl, hdup, hhash, hpush, hlen, heq, hcheck⟩ :=
    ops_of_pubKeyHash h
  refine ⟨r.data, rfl, ?_⟩
  have hmax : MAX_SCRIPT_ELEMENT_SIZE = 520 := rfl
  have hloop : BothLoop E txTo nIn nHashType (ops script) (running [vch, vchSig] 0 script)
      (if E.scriptHashes.vchHash .OP_HASH160 vch = r.data then
        (if isCompressedOrUncompressedPubKey vch then
          some (running [vchBool (signed E txTo nIn
            (findAndDelete script (push vchSig)) vch vchSig)] 4 script) else none)
        else none) := by
    rw [hops]
    refine bothLoop_cons (both_dup hdup (by simp [MAX_STACK]) (by decide)) ?_
    refine bothLoop_cons (both_hash160 hhash (by simp [MAX_STACK]) (by decide)) ?_
    refine bothLoop_cons (both_push hpush (by omega) (by simp [MAX_STACK]) (by decide)) ?_
    have hverify : BothStep E txTo nIn nHashType r4 (running [r.data,
        E.scriptHashes.vchHash .OP_HASH160 vch, vch, vchSig] 2 script) _ :=
      both_equalVerify heq (by simp [MAX_STACK]) (by decide)
    by_cases hsame : E.scriptHashes.vchHash .OP_HASH160 vch = r.data
    · rw [if_pos hsame] at hverify ⊢
      exact bothLoop_cons hverify
        (bothLoop_last (both_opCheckSig hType hcheck hsig (by decide) (by decide)))
    · rw [if_neg hsame] at hverify ⊢
      exact bothLoop_none hverify
  have hall := bothScript_of_loop hsize hloop (by
    intro s' hs'
    split at hs'
    · split at hs'
      · cases hs'
        rfl
      · cases hs'
    · cases hs')
  rw [apply_ite (Option.map EvalState.stack), apply_ite (Option.map EvalState.stack)] at hall
  exact hall

theorem countArg_of_le {n nMax : Nat} (h : Legacy.countArg vch 20 = some n) (hle : n ≤ nMax) :
    Legacy.countArg vch nMax = some n := by
  unfold Legacy.countArg at h ⊢
  obtain ⟨bn, hbn, h⟩ := Option.bind_eq_some_iff.mp h
  dsimp only at h
  split at h
  · cases h
  next hrange =>
    cases h
    rw [hbn, Option.bind_eq_bind, Option.bind_some, if_neg (by omega)]
    rfl

theorem countArg_number {n : UInt8} (h : IsNumber n r) :
    Legacy.countArg (CBigNum.getvch (smallNumber r.opcode)) 20 = some n.toNat := by
  rw [Legacy.countArg_smallNumber r.opcode h.range, h.toNat_eq]

include hType in
/-- **`OP_m <key> … <key> OP_n OP_CHECKMULTISIG`** on as many signatures as it asks for, and
an empty element below them. -/
theorem both_multiSig (f : MultiSigOps script out) (hsize : script.length ≤ MAX_SCRIPT_SIZE)
    {sigs : List Valtype} (hsigs : ∀ vchSig ∈ sigs, MadeByKey vchSig)
    (hcount : sigs.length = f.m.toNat) :
    BothScript E txTo nIn nHashType (sigs ++ [[]]) script
      ((scan isCompressedOrUncompressedPubKey (signed E txTo nIn
        (sigs.foldl (fun scriptCode vchSig =>
          findAndDelete scriptCode (push vchSig)) script))
        (f.kops.map GetOpResult.data).reverse sigs).map fun b => [vchBool b]) := by
  have hkeys : (f.kops.map GetOpResult.data).reverse.length = f.n.toNat := by
    rw [length_reverse, length_map, f.n_count]
  have hn : f.n.toNat ≤ 16 := by
    have hhigh := UInt8.le_iff_toNat_le.mp f.n_op.range.2
    have h16 : OP_16.toNat = 96 := rfl
    rw [f.n_op.toNat_eq]
    omega
  have hle := f.m_le
  have hstack : MAX_STACK = 1000 := rfl
  have hops : MAX_OPS = 201 := rfl
  have hcountm : f.kops.length ≤ 16 := by
    rw [← f.n_count]
    exact hn
  have hargs : MultiSigStack (CBigNum.getvch (smallNumber f.rn.opcode))
      (CBigNum.getvch (smallNumber f.rm.opcode)) (f.kops.map GetOpResult.data).reverse sigs 1 := by
    refine ⟨?_, ?_, ?_⟩
    · rw [countArg_number f.n_op, hkeys]
    · rw [countArg_of_le (countArg_number f.m_op) (by rw [hkeys]; exact hle), hcount]
    · rw [hkeys]
      omega
  have hlen := (multiSigStack_parts (CBigNum.getvch (smallNumber f.rn.opcode))
    (CBigNum.getvch (smallNumber f.rm.opcode)) [] (f.kops.map GetOpResult.data).reverse sigs []).1
  rw [hkeys, hcount] at hlen
  have hloop : BothLoop E txTo nIn nHashType (ops script)
      (running (sigs ++ [[]]) 0 script)
      ((scan isCompressedOrUncompressedPubKey (signed E txTo nIn
        (sigs.foldl (fun scriptCode vchSig =>
          findAndDelete scriptCode (push vchSig)) script))
        (f.kops.map GetOpResult.data).reverse sigs).map fun b =>
          running [vchBool b] (1 + (f.kops.map GetOpResult.data).reverse.length) script) := by
    rw [f.ops_eq]
    have hsigsLen : (sigs ++ [([] : Valtype)]).length = f.m.toNat + 1 := by
      rw [length_append, hcount]
      rfl
    refine bothLoop_cons (both_number f.m_op (by rw [hsigsLen]; omega) (by decide)) ?_
    refine bothLoop_pushes (fun k hk => ⟨(f.keys k hk).1, isPubKeySize_le (f.keys k hk).2⟩) ?_
      (by decide) ?_
    · rw [length_cons, hsigsLen]
      omega
    refine bothLoop_cons (both_number f.n_op ?_ (by decide)) ?_
    · rw [length_append, hkeys, length_cons, hsigsLen]
      omega
    exact bothLoop_last (both_opCheckMultiSig hType f.check hargs (by rw [hlen, length_nil]; omega)
      hsigs)
  have hall := bothScript_of_loop hsize hloop (by
    intro s' hs'
    obtain ⟨b, _, rfl⟩ := Option.map_eq_some_iff.mp hs'
    rfl)
  rw [Option.map_map] at hall
  exact hall

theorem both_scriptHash (h : isPayToScriptHash script = true)
    (hstack : stack.length + 1 < MAX_STACK) :
    BothScript E txTo nIn nHashType (vch :: stack) script
      (some (vchBool (E.scriptHashes.vchHash .OP_HASH160 vch == (script.drop 2).take 20) ::
        stack)) := by
  obtain ⟨r1, r, r3, hops, hhash, hpush, hequal, hlen⟩ := ops_of_scriptHash h
  have hmax : MAX_SCRIPT_ELEMENT_SIZE = 520 := rfl
  have hsize : MAX_SCRIPT_SIZE = 10000 := rfl
  have hdata : ((script.drop 2).take 20).length ≤ MAX_SCRIPT_ELEMENT_SIZE := by
    rw [length_take]
    omega
  have hloop : BothLoop E txTo nIn nHashType (ops script) (running (vch :: stack) 0 script)
      (some (running (vchBool (E.scriptHashes.vchHash .OP_HASH160 vch == (script.drop 2).take 20) ::
        stack) 2 script)) := by
    rw [hops]
    refine bothLoop_cons (both_hash160 hhash (by omega) (by decide)) ?_
    refine bothLoop_cons (both_push hpush hdata hstack (by decide)) ?_
    exact bothLoop_last (both_equal hequal (by omega) (by decide))
  refine bothScript_of_loop (by omega) hloop ?_
  intro s' hs'
  cases hs'
  rfl

end

end Fantom.Script
