/-
  Fantom.Script.Relay — What a script that passes under some flags does under weaker ones.

  * `relay_stricter_than_blocks` — the flags of the memory pool against the flags of `ConnectBlock`.

  Under strict encodings a signature that the run gets past is well encoded, so both runs check the
  same signatures and push the same truth values; that is what makes the comparison survive a script
  that negates a result.
-/
import Fantom.Script.Legacy

namespace Fantom.Script.Legacy

open Core Chain Lib Lib.Cached Bool

/-! ## §1. Weaker flags. -/

/-- `g` asks for less than `f`.  Weaker encodings are allowed only where `f` fails
a script on a wrong one. -/
structure Relaxes (f g : UInt32) : Prop where
  lockTime : hasFlag g SCRIPT_VERIFY_CHECKLOCKTIMEVERIFY =
    hasFlag f SCRIPT_VERIFY_CHECKLOCKTIMEVERIFY
  nops : hasFlag g SCRIPT_VERIFY_DISCOURAGE_UPGRADABLE_NOPS = true →
    hasFlag f SCRIPT_VERIFY_DISCOURAGE_UPGRADABLE_NOPS = true
  nullDummy : hasFlag g SCRIPT_VERIFY_NULLDUMMY = true → hasFlag f SCRIPT_VERIFY_NULLDUMMY = true
  strict : hasFlag g SCRIPT_VERIFY_STRICTENC = true → hasFlag f SCRIPT_VERIFY_STRICTENC = true
  encodings : (hasFlag f SCRIPT_VERIFY_STRICTENC = true ∧
      ∀ vchSig vchPubKey, checkEncodings vchSig vchPubKey f = true →
        checkEncodings vchSig vchPubKey g = true) ∨
    ∀ vchSig vchPubKey, checkEncodings vchSig vchPubKey g = checkEncodings vchSig vchPubKey f

theorem Relaxes.refl (f : UInt32) : Relaxes f f :=
  ⟨rfl, id, id, id, .inr fun _ _ => rfl⟩

theorem checkEncodings_mono {f g : UInt32}
    (hempty : hasFlag f SCRIPT_VERIFY_ALLOW_EMPTY_SIG = true →
      hasFlag g SCRIPT_VERIFY_ALLOW_EMPTY_SIG = true)
    (hhashtype : hasFlag f SCRIPT_VERIFY_FIX_HASHTYPE = true →
      hasFlag g SCRIPT_VERIFY_FIX_HASHTYPE = true)
    {vchSig vchPubKey : Valtype} (h : checkEncodings vchSig vchPubKey f = true) :
    checkEncodings vchSig vchPubKey g = true := by
  unfold checkEncodings checkSignatureEncoding at h ⊢
  rw [and_eq_true] at h ⊢
  refine ⟨?_, h.2⟩
  have hsig := h.1
  by_cases hg : (hasFlag g SCRIPT_VERIFY_ALLOW_EMPTY_SIG && vchSig.isEmpty) = true
  · rw [if_pos hg]
  · have hf : ¬(hasFlag f SCRIPT_VERIFY_ALLOW_EMPTY_SIG && vchSig.isEmpty) = true := by
      intro hf
      rw [and_eq_true] at hf hg
      exact hg ⟨hempty hf.1, hf.2⟩
    rw [if_neg hf] at hsig
    rw [if_neg hg]
    by_cases hlow : (!isLowDERSignature vchSig) = true
    · rw [if_pos hlow] at hsig
      cases hsig
    · rw [if_neg hlow] at hsig ⊢
      by_cases htype : (!hasFlag g SCRIPT_VERIFY_FIX_HASHTYPE &&
          !isDefinedHashtypeSignature vchSig) = true
      · rw [and_eq_true, not_eq_true'] at htype
        have hff : hasFlag f SCRIPT_VERIFY_FIX_HASHTYPE = false := by
          rw [eq_false_iff]
          intro hff
          rw [hhashtype hff] at htype
          cases htype.1
        rw [hff, htype.2] at hsig
        cases hsig
      · rw [if_neg htype]

/-- **The flags of `ConnectBlock` ask for less than those of the memory pool.** -/
theorem relaxes_connectFlags : Relaxes STANDARD_SCRIPT_VERIFY_FLAGS connectFlags where
  lockTime := by decide
  nops := by decide
  nullDummy := by decide
  strict := by decide
  encodings := .inl ⟨by decide, fun _ _ => checkEncodings_mono (by decide) (by decide)⟩

/-! ## §2. One operation. -/

variable (E : SigEnv) (txTo : CTransaction) (nIn : Nat) (nHashType : Int32) {f g : UInt32}

theorem execOpcode_relaxes (hfg : Relaxes f g) (H : ScriptHashes) (opcode : Opcode)
    (rest : CScript) (s s' : EvalState)
    (h : execOpcode H txTo nIn f opcode rest s = some s') :
    execOpcode H txTo nIn g opcode rest s = some s' := by
  cases opcode with
  | OP_CHECKLOCKTIMEVERIFY =>
    dsimp only [execOpcode, execCheckLockTimeVerify] at h ⊢
    rw [hfg.lockTime]
    split at h
    next hoff =>
      rw [if_pos hoff]
      split at h
      next => cases h
      next hf => rw [if_neg fun hg => hf (hfg.nops hg), h]
    next hon => rw [if_neg hon, h]
  | upgradableNop =>
    dsimp only [execOpcode] at h ⊢
    split at h
    next => cases h
    next hf => rw [if_neg fun hg => hf (hfg.nops hg), h]
  | _ => exact h

theorem covers_checkOne (hfg : Relaxes f g) (vchSig vchPubKey : Valtype)
    (scriptCode : CScript) :
    Covers (checkOne E txTo nIn nHashType f vchSig vchPubKey scriptCode)
      (checkOne E txTo nIn nHashType g vchSig vchPubKey scriptCode) := by
  unfold checkOne
  rcases hfg.encodings with ⟨hstrict, hmono⟩ | heq
  · -- past the strict test of `f` the encodings are right under both flags
    rw [hstrict]
    by_cases henc : checkEncodings vchSig vchPubKey f = true
    · rw [henc, hmono _ _ henc]
      simpa using covers_checkSig E vchSig vchPubKey scriptCode txTo nIn nHashType f g
    · rw [not_eq_true] at henc
      rw [henc]
      exact covers_fail _
  · rw [heq]
    refine covers_guard ?_ ?_
    · intro hg
      rw [and_eq_true] at hg ⊢
      exact ⟨hfg.strict hg.1, hg.2⟩
    · exact covers_ite (covers_checkSig E vchSig vchPubKey scriptCode txTo nIn nHashType f g)
        (covers_ok false)

theorem covers_pushSuccess (fVerify : Bool) (s : EvalState) (st : List Valtype)
    (fSuccess : Bool) :
    Covers (pushSuccess E fVerify s st fSuccess) (pushSuccess E fVerify s st fSuccess) := by
  unfold pushSuccess
  exact covers_ite (covers_ok _) (covers_ite (covers_ok _) (covers_fail _))

theorem covers_execCheckSig (hfg : Relaxes f g) (fVerify : Bool) (s : EvalState) :
    Covers (execCheckSig E txTo nIn nHashType f fVerify s)
      (execCheckSig E txTo nIn nHashType g fVerify s) := by
  unfold execCheckSig
  split
  · exact covers_bind (covers_checkOne E txTo nIn nHashType hfg _ _ _)
      (covers_pushSuccess E fVerify s _)
  · exact covers_fail _

theorem covers_multiSigLoop (hfg : Relaxes f g) (scriptCode : CScript)
    (keys sigs : List Valtype) :
    Covers (multiSigLoop E txTo nIn nHashType f scriptCode keys sigs)
      (multiSigLoop E txTo nIn nHashType g scriptCode keys sigs) := by
  induction keys generalizing sigs with
  | nil =>
    cases sigs with
    | nil => exact covers_ok true
    | cons vchSig sigs => exact covers_ok false
  | cons vchPubKey keys ih =>
    cases sigs with
    | nil => exact covers_ok true
    | cons vchSig sigs =>
      unfold multiSigLoop
      refine covers_bind (covers_checkOne E txTo nIn nHashType hfg _ _ _) ?_
      intro fOk
      exact covers_ite (covers_ok false) (ih _)

theorem covers_execCheckMultiSig (hfg : Relaxes f g) (fVerify : Bool) (s : EvalState) :
    Covers (execCheckMultiSig E txTo nIn nHashType f fVerify s)
      (execCheckMultiSig E txTo nIn nHashType g fVerify s) := by
  unfold execCheckMultiSig
  refine covers_bind (covers_ofOption fun _ h => h) ?_
  intro args
  refine covers_bind (covers_multiSigLoop E txTo nIn nHashType hfg _ _ _) ?_
  intro fSuccess
  refine covers_guard ?_ (covers_pushSuccess E fVerify _ _ _)
  intro hg
  rw [and_eq_true] at hg ⊢
  exact ⟨hfg.nullDummy hg.1, hg.2⟩

theorem covers_exec (hfg : Relaxes f g) (opcode : Opcode) (rest : CScript) (s : EvalState) :
    Covers (exec E txTo nIn nHashType f opcode rest s)
      (exec E txTo nIn nHashType g opcode rest s) := by
  cases opcode with
  | OP_CHECKSIG => exact covers_execCheckSig E txTo nIn nHashType hfg false s
  | OP_CHECKSIGVERIFY => exact covers_execCheckSig E txTo nIn nHashType hfg true s
  | OP_CHECKMULTISIG => exact covers_execCheckMultiSig E txTo nIn nHashType hfg false s
  | OP_CHECKMULTISIGVERIFY => exact covers_execCheckMultiSig E txTo nIn nHashType hfg true s
  | _ => exact covers_ofOption (execOpcode_relaxes txTo nIn hfg E.scriptHashes _ rest s)

/-! ## §3. A run. -/

theorem covers_evalInstruction (hfg : Relaxes f g) (r : GetOpResult) (s : EvalState) :
    Covers (evalInstruction E txTo nIn nHashType f r s)
      (evalInstruction E txTo nIn nHashType g r s) := by
  unfold evalInstruction
  refine covers_guard id (covers_guard id (covers_guard id (covers_guard id ?_)))
  refine covers_bind ?_ fun _ => covers_guard id (covers_ok _)
  exact covers_ite (covers_ok _)
    (covers_ite (covers_exec E txTo nIn nHashType hfg _ _ _) (covers_ok _))

theorem covers_evalLoop (hfg : Relaxes f g) (rs : List GetOpResult) (s : EvalState) :
    Covers (evalLoop E txTo nIn nHashType f rs s) (evalLoop E txTo nIn nHashType g rs s) := by
  induction rs generalizing s with
  | nil => exact covers_ok s
  | cons r rs ih => exact covers_bind (covers_evalInstruction E txTo nIn nHashType hfg r s) ih

theorem covers_evalScript (hfg : Relaxes f g) (stack : List Valtype) (script : CScript) :
    Covers (evalScript E txTo nIn nHashType f stack script)
      (evalScript E txTo nIn nHashType g stack script) := by
  unfold evalScript
  refine covers_guard id ?_
  exact covers_bind (covers_evalLoop E txTo nIn nHashType hfg _ _)
    fun _ => covers_guard id (covers_ok _)

theorem covers_topIsTrue (stack : List Valtype) :
    Covers (topIsTrue E stack) (topIsTrue E stack) := by
  cases stack with
  | nil => exact covers_fail _
  | cons top st =>
    exact covers_ite (covers_ok ()) (covers_fail _)

theorem covers_verifyScriptRun (hfg : Relaxes f g) (scriptSig scriptPubKey : CScript) :
    Covers (verifyScriptRun E txTo nIn nHashType f scriptSig scriptPubKey)
      (verifyScriptRun E txTo nIn nHashType g scriptSig scriptPubKey) := by
  unfold verifyScriptRun
  refine covers_bind (covers_evalScript E txTo nIn nHashType hfg _ _) ?_
  intro stackCopy
  refine covers_bind (covers_evalScript E txTo nIn nHashType hfg _ _) ?_
  intro stack
  refine covers_bind (covers_topIsTrue E stack) ?_
  intro _
  refine covers_ite (covers_ok ()) (covers_guard id ?_)
  cases stackCopy with
  | nil => exact covers_fail _
  | cons pubKey2 stackCopy =>
    exact covers_bind (covers_evalScript E txTo nIn nHashType hfg _ _) (covers_topIsTrue E)

theorem verifyScript_relaxes (hfg : Relaxes f g) {scriptSig scriptPubKey : CScript}
    {cache : CSignatureCache E} (cache' : CSignatureCache E)
    (h : (verifyScript E txTo nIn nHashType f scriptSig scriptPubKey cache).1 = true) :
    (verifyScript E txTo nIn nHashType g scriptSig scriptPubKey cache').1 = true := by
  obtain ⟨u, hu⟩ := Option.isSome_iff_exists.mp h
  exact Option.isSome_iff_exists.mpr
    ⟨u, covers_verifyScriptRun E txTo nIn nHashType hfg scriptSig scriptPubKey cache cache' u hu⟩

/-! ## §4. The memory pool against blocks. -/

/-- **What the memory pool admits never fails a block by its scripts**: a script
that passes under the flags of `AcceptToMemoryPool` passes under those of
`ConnectBlock`, and so does the signature check of an input. -/
theorem relay_stricter_than_blocks :
    (∀ (scriptSig scriptPubKey : CScript) (txTo : CTransaction) (nIn : Nat) (nHashType : Int32)
        (cache cache' : CSignatureCache E),
      (verifyScript E txTo nIn nHashType STANDARD_SCRIPT_VERIFY_FLAGS scriptSig scriptPubKey
        cache).1 = true →
      (verifyScript E txTo nIn nHashType connectFlags scriptSig scriptPubKey cache').1 = true) ∧
    ∀ (env : ChainEnv) (cache : CSignatureCache E),
      (∀ scriptSig scriptPubKey txTo nIn flags,
        env.verifyScript scriptSig scriptPubKey txTo nIn flags =
          (verifyScript E txTo nIn 0 flags scriptSig scriptPubKey cache).1) →
      ∀ (txFrom txTo : CTransaction) (txin : CTxIn) (nIn : Nat),
        verifySignature env txFrom txTo txin nIn STANDARD_SCRIPT_VERIFY_FLAGS = true →
        verifySignature env txFrom txTo txin nIn connectFlags = true := by
  refine ⟨?_, ?_⟩
  · intro scriptSig scriptPubKey txTo nIn nHashType cache cache' h
    exact verifyScript_relaxes E txTo nIn nHashType relaxes_connectFlags cache' h
  · intro env cache henv txFrom txTo txin nIn h
    unfold verifySignature at h ⊢
    cases hout : txFrom.vout[txin.prevout.n.toNat]? with
    | none =>
      rw [hout] at h
      cases h
    | some txout =>
      rw [hout] at h
      dsimp only at h ⊢
      split at h
      next => cases h
      next hhash =>
        rw [if_neg hhash, henv]
        rw [henv] at h
        exact verifyScript_relaxes E txTo nIn 0 relaxes_connectFlags cache h

def scriptEnv : ChainEnv :=
  { sampleChainEnv [] with
    verifyScript := fun scriptSig scriptPubKey txTo nIn flags =>
      (verifyScript sampleSigEnv txTo nIn 0 flags scriptSig scriptPubKey .empty).1 }

/-- The key of the redeem script, and an operation that checks its signature. -/
def redeemScript : CScript := CScript.push (2 :: List.replicate 32 7) ++ [OP_CHECKSIG]

def redeemSig : CScript :=
  CScript.push [0x30, 6, 2, 1, 5, 2, 1, 18, SIGHASH_ALL] ++ CScript.push redeemScript

def redeemFrom : CTransaction :=
  ⟨1, 1000, [], [⟨5, 0, OP_HASH160 :: 20 ::
    leBytes 20 (sampleScriptHashes.hash160 redeemScript).toNat ++ [OP_EQUAL]⟩], 0⟩

def redeemIn : CTxIn := ⟨⟨redeemFrom.getHash scriptEnv.H, 0⟩, redeemSig, [], 0⟩

def redeemTo : CTransaction := ⟨1, 1100, [redeemIn], [], 0⟩

theorem relay_stricter_than_blocks_redeem :
    (verifyScript sampleSigEnv redeemTo 0 0 connectFlags redeemSig
      (redeemFrom.vout.map CTxOut.scriptPubKey).flatten .empty).1 = true ∧
    verifySignature scriptEnv redeemFrom redeemTo redeemIn 0 connectFlags = true :=
  ⟨(relay_stricter_than_blocks sampleSigEnv).1 _ _ _ _ _ .empty .empty (by decide +kernel),
    (relay_stricter_than_blocks sampleSigEnv).2 scriptEnv .empty (fun _ _ _ _ _ => rfl) _ _ _ _
      (by decide +kernel)⟩

end Fantom.Script.Legacy
