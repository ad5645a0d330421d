/-
  Fantom.Script.SignedInputs — What the node signs against what blocks accept.

  * `signSignature_verifies` — when a signed input passes `VerifyScript` of blocks.

  The test that `SignSignature` ends with runs the output script, but no redeem script: the standard
  flags are without the one that asks for it.
-/
import Fantom.Script.SignedForm
import Fantom.Script.Relay

namespace Fantom.Script

open Core Chain Lib List Bool Legacy UInt8 Nat CScript

variable {S : SignEnv} {keystore : CKeyStore S} (hS : SignsWell S)
variable {txTo : CTransaction} {nIn : Nat} {nHashType : Int32}
  (hType : nHashType = 0 ∨ nHashType = sighashAll)

/-! ## §1. Both kinds of `VerifyScript`. -/

section

variable {E : SigEnv} {scriptSig scriptPubKey redeem : CScript} {st st' : List Valtype}
  {res : Option (List Valtype)}

theorem topIsTrue_first (stack : List Valtype) (cache : CSignatureCache E) :
    ((Legacy.topIsTrue E stack cache).1).isSome = endsTrue (some stack) := by
  cases stack with
  | nil => rfl
  | cons top st =>
    unfold Legacy.topIsTrue endsTrue
    dsimp only
    cases castToBool top <;> rfl

theorem topIsTrue_second (stack : List Valtype) :
    (topIsTrue stack).isOk = endsTrue (some stack) := by
  cases stack with
  | nil => rfl
  | cons top st =>
    unfold topIsTrue endsTrue
    dsimp only
    cases castToBool top <;> rfl

theorem isSome_bind_topIsTrue {x : Cached (CSignatureCache E) (List Valtype)}
    (h : ∀ cache, (x cache).1 = res) (cache : CSignatureCache E) :
    ((x.bind (Legacy.topIsTrue E) cache).1).isSome = endsTrue res := by
  cases res with
  | none => rw [Cached.bind_of_none (h cache)]; rfl
  | some stack => rw [Cached.bind_of_some (h cache), topIsTrue_first]

theorem verifyScript_second
    (hsig : BothScript E txTo nIn nHashType [] scriptSig (some st))
    (hpub : BothScript E txTo nIn nHashType st scriptPubKey res) :
    (verifyScript E.scriptHashes (signatureChecker E txTo nIn) STANDARD_SCRIPT_VERIFY_FLAGS
      scriptSig scriptPubKey).isOk = endsTrue res := by
  have hpush : hasFlag STANDARD_SCRIPT_VERIFY_FLAGS SCRIPT_VERIFY_SIGPUSHONLY = false := by decide
  have hp2sh : hasFlag STANDARD_SCRIPT_VERIFY_FLAGS SCRIPT_VERIFY_P2SH = false := by decide
  have hsecond := hsig.second
  have hsecond' := hpub.second
  rw [verifyScript, hpush, hp2sh, Bool.false_and, rejectIf_false, ok_bind]
  cases hy : evalScript E.scriptHashes (signatureChecker E txTo nIn) STANDARD_SCRIPT_VERIFY_FLAGS
      [] scriptSig with
  | error e =>
    rw [hy] at hsecond
    cases hsecond
  | ok stack =>
    rw [hy] at hsecond
    obtain rfl := Option.some.inj hsecond
    rw [ok_bind]
    cases hy' : evalScript E.scriptHashes (signatureChecker E txTo nIn)
        STANDARD_SCRIPT_VERIFY_FLAGS stack scriptPubKey with
    | error e =>
      rw [hy'] at hsecond'
      rw [← hsecond']
      rfl
    | ok stack' =>
      rw [hy'] at hsecond'
      rw [← hsecond', ok_bind]
      change _ = endsTrue (some stack')
      rw [← topIsTrue_second]
      cases topIsTrue stack' <;> rfl

theorem verifyScript_first
    (hsig : BothScript E txTo nIn nHashType [] scriptSig (some st))
    (hpub : BothScript E txTo nIn nHashType st scriptPubKey res)
    (hp2sh : isPayToScriptHash scriptPubKey = false) (cache : CSignatureCache E) :
    (Legacy.verifyScript E txTo nIn nHashType STANDARD_SCRIPT_VERIFY_FLAGS scriptSig scriptPubKey
      cache).1 = endsTrue res := by
  unfold Legacy.verifyScript Legacy.verifyScriptRun
  dsimp only
  rw [Cached.bind_of_some (hsig.first cache), hp2sh]
  cases res with
  | none => rw [Cached.bind_of_none (hpub.first _)]; rfl
  | some stack =>
    rw [Cached.bind_of_some (hpub.first _), ← topIsTrue_first stack cache]
    unfold Cached.bind Legacy.topIsTrue
    cases stack with
    | nil => rfl
    | cons top rest =>
      dsimp only
      cases castToBool top <;> rfl

theorem verifyScript_first_scriptHash
    (hsig : BothScript E txTo nIn nHashType [] scriptSig (some (redeem :: st)))
    (hpub : BothScript E txTo nIn nHashType (redeem :: st) scriptPubKey (some (vchTrue :: st')))
    (hp2sh : isPayToScriptHash scriptPubKey = true)
    (hpush : isPushOnly scriptSig = true)
    (hredeem : BothScript E txTo nIn nHashType st redeem res) (cache : CSignatureCache E) :
    (Legacy.verifyScript E txTo nIn nHashType STANDARD_SCRIPT_VERIFY_FLAGS scriptSig scriptPubKey
      cache).1 = endsTrue res := by
  unfold Legacy.verifyScript Legacy.verifyScriptRun
  dsimp only
  rw [Cached.bind_of_some (hsig.first cache), Cached.bind_of_some (hpub.first _),
    Cached.bind_of_some (a := ()) rfl, hp2sh, hpush]
  exact isSome_bind_topIsTrue hredeem.first _

theorem evalScript_limits {H : ScriptHashes} {checker : SignatureChecker} {flags : UInt32}
    {stack stack' : List Valtype} (hrun : evalScript H checker flags stack script = .ok stack') :
    script.length ≤ MAX_SCRIPT_SIZE ∧
      ∀ r ∈ ops script, r.data.length ≤ MAX_SCRIPT_ELEMENT_SIZE := by
  have hloop (rs : List GetOpResult) (s s' : EvalState)
      (hrun : rs.foldlM (fun s r => evalInstruction H checker flags r s) s = .ok s') :
      ∀ r ∈ rs, r.data.length ≤ MAX_SCRIPT_ELEMENT_SIZE := by
    induction rs generalizing s with
    | nil => exact nofun
    | cons r rs ih =>
      rw [foldlM_cons, bind_eq_ok] at hrun
      obtain ⟨s1, hone, hrest⟩ := hrun
      intro r' hr'
      rcases mem_cons.mp hr' with rfl | hr'
      · simp only [evalInstruction, bind_eq_ok, rejectIf_eq_ok] at hone
        obtain ⟨_, _, _, hdata, _⟩ := hone
        exact Nat.le_of_not_lt (of_decide_eq_false hdata)
      · exact ih s1 hrest r' hr'
  simp only [evalScript, bind_eq_ok, rejectIf_eq_ok] at hrun
  obtain ⟨_, hsize, s', hs', _⟩ := hrun
  exact ⟨Nat.le_of_not_lt (of_decide_eq_false hsize), hloop _ _ _ hs'⟩

theorem verifyScript_limits {H : ScriptHashes} {checker : SignatureChecker} {flags : UInt32}
    (h : (verifyScript H checker flags scriptSig scriptPubKey).isOk = true) :
    (scriptSig.length ≤ MAX_SCRIPT_SIZE ∧
      ∀ r ∈ ops scriptSig, r.data.length ≤ MAX_SCRIPT_ELEMENT_SIZE) ∧
      scriptPubKey.length ≤ MAX_SCRIPT_SIZE := by
  cases hrun : verifyScript H checker flags scriptSig scriptPubKey with
  | error e =>
    rw [hrun] at h
    cases h
  | ok u =>
    simp only [verifyScript, bind_eq_ok, rejectIf_eq_ok] at hrun
    obtain ⟨_, _, stackCopy, hsig, stack, hpub, _⟩ := hrun
    exact ⟨evalScript_limits hsig, (evalScript_limits hpub).1⟩

end

/-! ## §2. A signed input. -/

theorem signatureHash_setScriptSig (H : Hashes) (scriptCode : CScript) (txTo : CTransaction)
    (nIn n : Nat) (scriptSig : CScript) (t : Int32) :
    signatureHash H scriptCode (setScriptSig txTo n scriptSig) nIn t =
      signatureHash H scriptCode txTo nIn t := by
  refine signatureHash_scripts H scriptCode txTo _ nIn t (ext_getElem ?_ fun i h1 h2 => ?_)
  · rw [length_map, length_map, length_modify]
  · simp only [getElem_map, getElem_modify]
    split <;> rfl

theorem setScriptSig_getElem {txTo : CTransaction} {nIn : Nat} {scriptSig : CScript} {txin : CTxIn}
    (h : (setScriptSig txTo nIn scriptSig).vin[nIn]? = some txin) : txin.scriptSig = scriptSig := by
  rw [setScriptSig, getElem?_modify_eq] at h
  obtain ⟨txin0, _, rfl⟩ := Option.map_eq_some_iff.mp h
  rfl

/-- **What is signed verifies**: whenever `SignSignature` says yes with `SIGHASH_ALL`, its
`scriptSig` passes the `VerifyScript` of blocks, under the standard flags with
`SCRIPT_VERIFY_P2SH`, for any hash type or for this one. -/
def SignedInputVerifies (S : SignEnv) (keystore : CKeyStore S) (fromPubKey : CScript)
    (txTo : CTransaction) (nIn : Nat) (rng : S.Rng) : Prop :=
  ∀ txTo' txin, signSignature S keystore sighashAll fromPubKey txTo nIn rng = some (true, txTo') →
    txTo'.vin[nIn]? = some txin →
    ∀ nHashType, (nHashType = 0 ∨ nHashType = sighashAll) → ∀ cache,
      (Legacy.verifyScript S.toSigEnv txTo' nIn nHashType
        (SCRIPT_VERIFY_P2SH ||| STANDARD_SCRIPT_VERIFY_FLAGS) txin.scriptSig fromPubKey cache).1 =
        true

def scriptHashOf (fromPubKey : CScript) : Valtype := (fromPubKey.drop 2).take 20

/-- The redeem script that the store has for an output, if one that the output can be spent
with. -/
def Redeems (S : SignEnv) (keystore : CKeyStore S) (fromPubKey redeem : CScript) : Prop :=
  isPayToScriptHash fromPubKey = true ∧
    keystore.getCScript (uint160 (scriptHashOf fromPubKey)) = some redeem ∧
    redeem.length ≤ MAX_SCRIPT_ELEMENT_SIZE ∧
    S.scriptHashes.vchHash .OP_HASH160 redeem = scriptHashOf fromPubKey

/-- The keys of the redeem script are those that sign for it, and it holds no signature of
itself. -/
def RedeemSigned (S : SignEnv) (keystore : CKeyStore S) (fromPubKey : CScript)
    (txTo : CTransaction) (nIn : Nat) : Prop :=
  nIn < txTo.vin.length → ∀ redeem, Redeems S keystore fromPubKey redeem →
    RedeemFits S keystore redeem ∧
      ¬HoldsSignature S keystore redeem (signatureHash S.H redeem txTo nIn sighashAll)

theorem relaxes_p2sh :
    Legacy.Relaxes STANDARD_SCRIPT_VERIFY_FLAGS
      (SCRIPT_VERIFY_P2SH ||| STANDARD_SCRIPT_VERIFY_FLAGS) where
  lockTime := by decide
  nops := by decide
  nullDummy := by decide
  strict := by decide
  encodings := .inl ⟨by decide, fun _ _ => checkEncodings_mono (by decide) (by decide)⟩

theorem relaxes_noP2sh :
    Legacy.Relaxes (SCRIPT_VERIFY_P2SH ||| STANDARD_SCRIPT_VERIFY_FLAGS)
      STANDARD_SCRIPT_VERIFY_FLAGS where
  lockTime := by decide
  nops := by decide
  nullDummy := by decide
  strict := by decide
  encodings := .inl ⟨by decide, fun _ _ => checkEncodings_mono (by decide) (by decide)⟩

theorem length_push_le {b : Valtype} (h : b.length ≤ MAX_SCRIPT_ELEMENT_SIZE) :
    (push b).length ≤ MAX_SCRIPT_ELEMENT_SIZE + 3 := by
  have hmax : MAX_SCRIPT_ELEMENT_SIZE = 520 := rfl
  unfold push
  split
  · rw [length_cons]
    omega
  · split
    · simp
      omega
    · rw [if_pos (by omega)]
      simp
      omega

theorem length_pushes_le {bs : List Valtype} (h : ∀ b ∈ bs, b.length ≤ MAX_SCRIPT_ELEMENT_SIZE) :
    (pushes bs).length ≤ bs.length * (MAX_SCRIPT_ELEMENT_SIZE + 3) := by
  induction bs with
  | nil => exact zero_le _
  | cons b bs ih =>
    have hb := length_push_le (h b mem_cons_self)
    have hbs := ih fun c hc => h c (mem_cons_of_mem b hc)
    rw [show pushes (b :: bs) = push b ++ pushes bs from rfl, length_append,
      length_cons, succ_mul]
    omega

theorem both_scriptSig {bs : List Valtype} (hshort : ∀ b ∈ bs, b.length ≤ MAX_SCRIPT_ELEMENT_SIZE)
    (hfew : bs.length ≤ 18) :
    BothScript S.toSigEnv txTo nIn nHashType [] (pushes bs) (some bs.reverse) := by
  have hmax : MAX_SCRIPT_ELEMENT_SIZE = 520 := rfl
  have hsize : MAX_SCRIPT_SIZE = 10000 := rfl
  have hstack : MAX_STACK = 1000 := rfl
  have hlen := length_pushes_le hshort
  rw [hmax] at hlen
  exact both_pushes hshort (by omega) (by omega)

section

variable {hash : UInt256} {rng : S.Rng} {fromPubKey redeem : CScript} {bs : List Valtype}
  {txTo' : CTransaction}

theorem solver_of_ok {script : CScript} {t : Int32}
    (hok : (signSolver S keystore hash t script rng).ok = true) :
    ∃ out, solver script = some ((signSolver S keystore hash t script rng).whichType, out) := by
  unfold signSolver at hok ⊢
  cases hsolver : solver script with
  | none =>
    rw [hsolver] at hok
    cases hok
  | some p =>
    obtain ⟨whichType, out⟩ := p
    refine ⟨out, ?_⟩
    cases whichType with
    | TX_PUBKEYHASH =>
      dsimp only
      split <;> rfl
    | TX_SCRIPTHASH =>
      dsimp only
      split <;> rfl
    | _ => rfl

/-- **`SignSignature` for an output that is not pay-to-script-hash.** -/
theorem signSignature_form (hp2sh : isPayToScriptHash fromPubKey = false)
    (h : signSignature S keystore sighashAll fromPubKey txTo nIn rng = some (true, txTo')) :
    let solved := signSolver S keystore (signatureHash S.H fromPubKey txTo nIn sighashAll)
      sighashAll fromPubKey rng
    solved.ok = true ∧ solved.whichType ≠ .TX_SCRIPTHASH ∧
      txTo' = setScriptSig txTo nIn solved.s.scriptSigRet ∧
      testSolution S fromPubKey txTo' nIn solved.s.scriptSigRet = true := by
  unfold signSignature at h
  split at h
  next =>
    dsimp only at h ⊢
    split at h
    · cases h
    next hok =>
      rw [not_eq_true', not_eq_false] at hok
      obtain ⟨out, hsolver⟩ := solver_of_ok hok
      have hne := mt (solver_eq_scriptHash hsolver).mp (by rw [hp2sh]; exact false_ne_true)
      rw [if_neg hne] at h
      obtain ⟨htest, rfl⟩ := Prod.mk.inj (Option.some.inj h)
      exact ⟨hok, hne, rfl, htest⟩
  next => cases h

theorem signSolver_scriptHash (hp2sh : isPayToScriptHash fromPubKey = true)
    (hash : UInt256) (rng : S.Rng) :
    signSolver S keystore hash sighashAll fromPubKey rng =
      match keystore.getCScript (uint160 (scriptHashOf fromPubKey)) with
      | none => ⟨false, .TX_SCRIPTHASH, ⟨[], rng⟩⟩
      | some script => ⟨true, .TX_SCRIPTHASH, ⟨script, rng⟩⟩ := by
  have hsolver : solver fromPubKey = some (.TX_SCRIPTHASH, [scriptHashOf fromPubKey]) := by
    rw [solver, if_pos hp2sh]
    rfl
  rw [signSolver, hsolver]
  rfl

/-- **`SignSignature` for a pay-to-script-hash output** whose redeem script the store has. -/
theorem signSignature_scriptHash (hp2sh : isPayToScriptHash fromPubKey = true)
    (hredeem : keystore.getCScript (uint160 (scriptHashOf fromPubKey)) = some redeem)
    (hin : nIn < txTo.vin.length) (rng : S.Rng) :
    signSignature S keystore sighashAll fromPubKey txTo nIn rng =
      let sub := signSolver S keystore (signatureHash S.H redeem txTo nIn sighashAll)
        sighashAll redeem rng
      let scriptSig := sub.s.scriptSigRet ++ push redeem
      let txTo' := setScriptSig (setScriptSig txTo nIn redeem) nIn scriptSig
      some (sub.ok && sub.whichType != .TX_SCRIPTHASH &&
        testSolution S fromPubKey txTo' nIn scriptSig, txTo') := by
  rw [signSignature, if_pos hin]
  dsimp only
  rw [signSolver_scriptHash hp2sh, hredeem]
  dsimp only
  rw [if_neg (by decide), if_pos rfl, signatureHash_setScriptSig]
  cases (signSolver S keystore (signatureHash S.H redeem txTo nIn sighashAll) sighashAll redeem
    rng).ok && (signSolver S keystore (signatureHash S.H redeem txTo nIn sighashAll) sighashAll
      redeem rng).whichType != .TX_SCRIPTHASH with
  | false => rfl
  | true => rfl

theorem signSignature_noScript (hp2sh : isPayToScriptHash fromPubKey = true)
    (hredeem : keystore.getCScript (uint160 (scriptHashOf fromPubKey)) = none) :
    signSignature S keystore sighashAll fromPubKey txTo nIn rng ≠ some (true, txTo') := by
  unfold signSignature
  split
  next =>
    dsimp only
    rw [signSolver_scriptHash hp2sh, hredeem]
    dsimp only
    rw [if_pos (by decide)]
    exact fun h => absurd (Prod.mk.inj (Option.some.inj h)).1 false_ne_true
  next => exact nofun

/-! ### The verdicts on it. -/

/-- **An output that is not pay-to-script-hash**: both interpreters give one verdict. -/
theorem verdicts_form (f : SignedForm S keystore txTo nIn nHashType hash fromPubKey bs)
    (hp2sh : isPayToScriptHash fromPubKey = false)
    (htest : testSolution S fromPubKey txTo nIn (pushes bs) = true)
    (cache : CSignatureCache S.toSigEnv) :
    (Legacy.verifyScript S.toSigEnv txTo nIn nHashType STANDARD_SCRIPT_VERIFY_FLAGS (pushes bs)
      fromPubKey cache).1 = true := by
  have hsize := (verifyScript_limits htest).2
  have hsig : BothScript S.toSigEnv txTo nIn nHashType [] (pushes bs) (some bs.reverse) :=
    both_scriptSig f.short (le_succ_of_le f.few)
  rw [verifyScript_first hsig (f.both hsize) hp2sh, ← verifyScript_second hsig (f.both hsize)]
  exact htest

theorem both_scriptSig_redeem (f : SignedForm S keystore txTo nIn nHashType hash redeem bs)
    (hredeem : redeem.length ≤ MAX_SCRIPT_ELEMENT_SIZE) :
    BothScript S.toSigEnv txTo nIn nHashType [] (pushes (bs ++ [redeem]))
      (some (redeem :: bs.reverse)) := by
  have hsig : BothScript S.toSigEnv txTo nIn nHashType [] (pushes (bs ++ [redeem]))
      (some (bs ++ [redeem]).reverse) := by
    refine both_scriptSig (forall_mem_append.mpr ⟨f.short, forall_mem_singleton.mpr hredeem⟩) ?_
    have hfew := f.few
    rw [length_append, length_singleton]
    omega
  rw [reverse_append, reverse_singleton, singleton_append] at hsig
  exact hsig

theorem both_redeemHash (f : SignedForm S keystore txTo nIn nHashType hash redeem bs)
    (hp2sh : isPayToScriptHash fromPubKey = true) :
    BothScript S.toSigEnv txTo nIn nHashType (redeem :: bs.reverse) fromPubKey
      (some (vchBool (S.scriptHashes.vchHash .OP_HASH160 redeem == scriptHashOf fromPubKey) ::
        bs.reverse)) := by
  have hfew := f.few
  have hstack : MAX_STACK = 1000 := rfl
  exact both_scriptHash hp2sh (by rw [length_reverse]; omega)

/-- **A pay-to-script-hash output**: the second interpreter compares the hash. -/
theorem testSolution_scriptHash (f : SignedForm S keystore txTo nIn nHashType hash redeem bs)
    (hredeem : redeem.length ≤ MAX_SCRIPT_ELEMENT_SIZE)
    (hp2sh : isPayToScriptHash fromPubKey = true) :
    testSolution S fromPubKey txTo nIn (pushes (bs ++ [redeem])) = true ↔
      S.scriptHashes.vchHash .OP_HASH160 redeem = scriptHashOf fromPubKey := by
  rw [testSolution,
    verifyScript_second (both_scriptSig_redeem f hredeem) (both_redeemHash f hp2sh)]
  dsimp only [endsTrue]
  rw [castToBool_vchBool, beq_iff_eq]

theorem verdict_scriptHash (f : SignedForm S keystore txTo nIn nHashType hash redeem bs)
    (hredeem : redeem.length ≤ MAX_SCRIPT_ELEMENT_SIZE)
    (hp2sh : isPayToScriptHash fromPubKey = true)
    (hhash : S.scriptHashes.vchHash .OP_HASH160 redeem = scriptHashOf fromPubKey)
    (hholds : ¬HoldsSignature S keystore redeem hash) (cache : CSignatureCache S.toSigEnv) :
    (Legacy.verifyScript S.toSigEnv txTo nIn nHashType STANDARD_SCRIPT_VERIFY_FLAGS
      (pushes (bs ++ [redeem])) fromPubKey cache).1 = endsTrue f.result := by
  have helement : MAX_SCRIPT_ELEMENT_SIZE = 520 := rfl
  have hscript : MAX_SCRIPT_SIZE = 10000 := rfl
  have hpub := both_redeemHash f hp2sh
  rw [hhash, beq_self_eq_true] at hpub
  have hpush : isPushOnly (pushes (bs ++ [redeem])) = true := by
    refine isPushOnly_pushes fun b hb => ?_
    rcases mem_append.mp hb with hb | hb
    · have := f.short b hb
      omega
    · obtain rfl := mem_singleton.mp hb
      omega
  exact verifyScript_first_scriptHash (both_scriptSig_redeem f hredeem) hpub hp2sh hpush
    (f.bothScript (by omega) hholds) cache

/-! ### The theorem. -/

/-- A redeem script of the output holds no signature of itself, and the signatures that are
pushed for it tell the keys apart. -/
def Unambiguous (S : SignEnv) (keystore : CKeyStore S) (fromPubKey : CScript)
    (txTo : CTransaction) (nIn : Nat) (rng : S.Rng) : Prop :=
  ∀ redeem, Redeems S keystore fromPubKey redeem →
    let hash := signatureHash S.H redeem txTo nIn sighashAll
    ¬HoldsSignature S keystore redeem hash ∧
      ∀ txTo' txin, signSignature S keystore sighashAll fromPubKey txTo nIn rng =
          some (true, txTo') → txTo'.vin[nIn]? = some txin →
        TellsKeysApart S keystore redeem hash
          ((ops txin.scriptSig).map GetOpResult.data)

/-- What a signed pay-to-script-hash input was signed with: a redeem script of the output, in
a `scriptSig` that ends with it. -/
structure SignedWith (S : SignEnv) (keystore : CKeyStore S) (fromPubKey : CScript)
    (txTo : CTransaction) (nIn : Nat) (nHashType : Int32) (txTo' : CTransaction)
    (redeem : CScript) (bs : List Valtype) where
  redeems : Redeems S keystore fromPubKey redeem
  script_eq : txTo' = setScriptSig (setScriptSig txTo nIn redeem) nIn (pushes (bs ++ [redeem]))
  form : SignedForm S keystore txTo' nIn nHashType (signatureHash S.H redeem txTo nIn sighashAll)
    redeem bs

theorem SignedWith.hash_eq
    (w : SignedWith S keystore fromPubKey txTo nIn nHashType txTo' redeem bs) :
    signatureHash S.H redeem txTo nIn sighashAll =
      signatureHash S.H redeem txTo' nIn sighashAll := by
  rw [w.script_eq, signatureHash_setScriptSig, signatureHash_setScriptSig]

theorem SignedWith.scriptSig_eq
    (w : SignedWith S keystore fromPubKey txTo nIn nHashType txTo' redeem bs) {txin : CTxIn}
    (h : txTo'.vin[nIn]? = some txin) : txin.scriptSig = pushes (bs ++ [redeem]) := by
  rw [w.script_eq] at h
  exact setScriptSig_getElem h

theorem SignedWith.short (w : SignedWith S keystore fromPubKey txTo nIn nHashType txTo' redeem bs) :
    ∀ b ∈ bs ++ [redeem], b.length < 2 ^ 32 := by
  have hmax : MAX_SCRIPT_ELEMENT_SIZE = 520 := rfl
  intro b hb
  rcases mem_append.mp hb with hb | hb
  · have := w.form.short b hb
    omega
  · obtain rfl := mem_singleton.mp hb
    have := w.redeems.2.2.1
    omega

/-- **The verdict of blocks** on it is that on the redeem script. -/
theorem SignedWith.verdict (w : SignedWith S keystore fromPubKey txTo nIn nHashType txTo' redeem bs)
    (hholds : ¬HoldsSignature S keystore redeem (signatureHash S.H redeem txTo nIn sighashAll))
    {txin : CTxIn} (h : txTo'.vin[nIn]? = some txin) (cache : CSignatureCache S.toSigEnv) :
    (Legacy.verifyScript S.toSigEnv txTo' nIn nHashType
      (SCRIPT_VERIFY_P2SH ||| STANDARD_SCRIPT_VERIFY_FLAGS) txin.scriptSig fromPubKey cache).1 =
        true ↔ endsTrue w.form.result = true := by
  obtain ⟨hp2sh, _, hshort, hhash⟩ := w.redeems
  rw [w.scriptSig_eq h, ← verdict_scriptHash w.form hshort hp2sh hhash hholds cache]
  exact ⟨verifyScript_relaxes S.toSigEnv txTo' nIn nHashType relaxes_noP2sh cache,
    verifyScript_relaxes S.toSigEnv txTo' nIn nHashType relaxes_p2sh cache⟩

include hS in
/-- **A signed pay-to-script-hash input** was signed with a redeem script of the output. -/
theorem exists_signedWith (hp2sh : isPayToScriptHash fromPubKey = true)
    (hin : nIn < txTo.vin.length)
    (h : signSignature S keystore sighashAll fromPubKey txTo nIn rng = some (true, txTo'))
    (hType : nHashType = 0 ∨ nHashType = sighashAll) :
    ∃ redeem bs,
      Nonempty (SignedWith S keystore fromPubKey txTo nIn nHashType txTo' redeem bs) := by
  cases hget : keystore.getCScript (uint160 (scriptHashOf fromPubKey)) with
  | none => exact absurd h (signSignature_noScript hp2sh hget)
  | some redeem =>
    rw [signSignature_scriptHash hp2sh hget hin] at h
    dsimp only at h
    obtain ⟨hall, heq⟩ := Prod.mk.inj (Option.some.inj h)
    rw [heq, and_eq_true, and_eq_true, bne_iff_ne] at hall
    obtain ⟨⟨hok, hne⟩, htest⟩ := hall
    obtain ⟨out, hsolver⟩ := solver_of_ok hok
    obtain ⟨bs, hscript, ⟨f⟩⟩ :=
      signSolver_ok hS txTo' nIn hType hsolver hne hok
    rw [hscript, ← pushes_singleton, ← pushes_append] at heq htest
    -- the redeem script is among the elements that the test let pass
    obtain ⟨hlen, hdata⟩ := (verifyScript_limits htest).1
    have hmax : MAX_SCRIPT_SIZE = 10000 := rfl
    have hpushes : ∀ b ∈ bs ++ [redeem], b.length < 2 ^ 32 := by
      intro b hb
      have := length_le_pushes hb
      omega
    have hshort : redeem.length ≤ MAX_SCRIPT_ELEMENT_SIZE := by
      have hmem : redeem ∈ (ops (pushes (bs ++ [redeem]))).map GetOpResult.data := by
        rw [(ops_pushes hpushes).2]
        exact mem_append_right _ mem_cons_self
      obtain ⟨r, hr, hreq⟩ := mem_map.mp hmem
      exact hreq ▸ hdata r hr
    exact ⟨redeem, bs, ⟨{
      redeems := ⟨hp2sh, hget, hshort, (testSolution_scriptHash f hshort hp2sh).mp htest⟩
      script_eq := heq.symm
      form := f }⟩⟩

theorem lt_of_signSignature
    (h : signSignature S keystore sighashAll fromPubKey txTo nIn rng = some (true, txTo')) :
    nIn < txTo.vin.length := by
  unfold signSignature at h
  split at h
  next hin => exact hin
  next => cases h

include hS in
theorem verifies_form (hp2sh : isPayToScriptHash fromPubKey = false) :
    SignedInputVerifies S keystore fromPubKey txTo nIn rng := by
  intro txTo' txin h htxin nHashType hType cache
  obtain ⟨hok, hne, heq, htest⟩ := signSignature_form hp2sh h
  obtain ⟨out, hsolver⟩ := solver_of_ok hok
  obtain ⟨bs, hscript, ⟨f⟩⟩ := signSolver_ok hS txTo' nIn hType hsolver hne hok
  rw [hscript] at heq htest
  have hpass := verdicts_form f hp2sh htest cache
  rw [heq] at htxin
  rw [setScriptSig_getElem htxin]
  exact verifyScript_relaxes S.toSigEnv txTo' nIn nHashType relaxes_p2sh cache hpass

include hS in
theorem signSignature_of_not_fits (hin : nIn < txTo.vin.length)
    (hredeems : Redeems S keystore fromPubKey redeem) (h : ¬RedeemFits S keystore redeem)
    (rng : S.Rng) :
    ∃ txTo' txin, signSignature S keystore sighashAll fromPubKey txTo nIn rng =
      some (Bool.true, txTo') ∧ txTo'.vin[nIn]? = some txin := by
  obtain ⟨hp2sh, hget, hshort, hhash⟩ := hredeems
  obtain ⟨hok, hne⟩ :=
    signSolver_of_not_fits hS (signatureHash S.H redeem txTo nIn sighashAll) rng h
  obtain ⟨out, hsolver⟩ := solver_of_ok hok
  have hType : (0 : Int32) = 0 ∨ (0 : Int32) = sighashAll := .inl rfl
  rw [signSignature_scriptHash hp2sh hget hin]
  dsimp only
  rw [hok, Bool.true_and, bne_iff_ne.mpr hne, Bool.true_and]
  generalize hsigned : setScriptSig (setScriptSig txTo nIn redeem) nIn _ = signed
  obtain ⟨bs, hscript, ⟨f⟩⟩ := signSolver_ok hS signed nIn hType hsolver hne hok
  have htest := (testSolution_scriptHash f hshort hp2sh).mpr hhash
  rw [pushes_append, pushes_singleton, ← hscript] at htest
  have hlen : nIn < signed.vin.length := by
    rw [← hsigned]
    simpa [setScriptSig] using hin
  rw [htest]
  exact ⟨signed, signed.vin[nIn], rfl, getElem?_eq_getElem hlen⟩

include hS in
/-- **What the node signs against what blocks accept**: a signed input passes when the redeem
script of its output fits, and only then where signatures tell keys apart. -/
theorem signSignature_verifies (fromPubKey : CScript) (txTo : CTransaction) (nIn : Nat)
    (rng : S.Rng) :
    (RedeemSigned S keystore fromPubKey txTo nIn →
      SignedInputVerifies S keystore fromPubKey txTo nIn rng) ∧
    (Unambiguous S keystore fromPubKey txTo nIn rng →
      (SignedInputVerifies S keystore fromPubKey txTo nIn rng ↔
        RedeemSigned S keystore fromPubKey txTo nIn)) := by
  have hif (hredeem : RedeemSigned S keystore fromPubKey txTo nIn) :
      SignedInputVerifies S keystore fromPubKey txTo nIn rng := by
    cases hp2sh : isPayToScriptHash fromPubKey with
    | false => exact verifies_form hS hp2sh
    | true =>
      intro txTo' txin h htxin nHashType hType cache
      have hin := lt_of_signSignature h
      obtain ⟨redeem, bs, ⟨w⟩⟩ := exists_signedWith hS hp2sh hin h hType
      obtain ⟨hfits, hholds⟩ := hredeem hin redeem w.redeems
      exact (w.verdict hholds htxin cache).mpr (w.form.endsTrue_of_fits w.hash_eq hfits)
  refine ⟨hif, fun hunambiguous => ⟨fun hverifies hin redeem hredeems => ?_, hif⟩⟩
  obtain ⟨hholds, hapart⟩ := hunambiguous redeem hredeems
  refine ⟨?_, hholds⟩
  by_contra hfits
  have hType : (0 : Int32) = 0 ∨ (0 : Int32) = sighashAll := .inl rfl
  obtain ⟨txTo', txin, hsign, htxin⟩ := signSignature_of_not_fits hS hin hredeems hfits rng
  obtain ⟨redeem', bs, ⟨w⟩⟩ :=
    exists_signedWith hS hredeems.1 hin hsign hType
  obtain rfl : redeem' = redeem :=
    Option.some.inj (w.redeems.2.1.symm.trans hredeems.2.1)
  have hpass := hverifies txTo' txin hsign htxin 0 (.inl rfl) .empty
  have htrue := (w.verdict hholds htxin .empty).mp hpass
  refine hfits (w.form.fits_of_endsTrue w.hash_eq ?_ htrue)
  intro b hb
  refine hapart txTo' txin hsign htxin b ?_
  rw [w.scriptSig_eq htxin, (ops_pushes w.short).2]
  exact mem_append_left _ hb

end

/-! ## §3. An executable instance. -/

def samplePubKey (key : UInt8) : CPubKey := 2 :: replicate 32 key

def sampleSig (key : UInt8) (hash : UInt256) : List UInt8 :=
  [0x30, 6, 2, 1, key, 2, 1, UInt8.ofNat (hash.toNat % 100 + 1)]

def sampleSignEnv : SignEnv where
  toSigEnv := { sampleSigEnv with
    verify := fun vchPubKey hash sig =>
      byteAt sig 4 < 0x80 && vchPubKey == samplePubKey (byteAt sig 4) &&
        sig == sampleSig (byteAt sig 4) hash }
  CKey := UInt8
  Rng := Unit
  isValid key := key < 0x80
  getPubKey := samplePubKey
  ecdsaSign key hash rng := (some (sampleSig key hash), rng)

theorem sampleSig_strict {r s : UInt8} (hr : r < 0x80) (hs : s < 0x80) (hpos : 0 < s) :
    isLowDERSignature [0x30, 6, 2, 1, r, 2, 1, s, SIGHASH_ALL] = true := by
  have hbit : ∀ b : UInt8, b < 0x80 → b &&& 0x80 = 0 := forall_opcode (by decide +kernel)
  have hmax : 128 ≤ maxModHalfOrder := by decide
  have h0 : (0 : UInt8).toNat = 0 := rfl
  have h80 : (0x80 : UInt8).toNat = 128 := rfl
  have hle : ofLEBytes [s] = s.toNat := by simp [ofLEBytes]
  rw [lt_iff_toNat_lt] at hpos
  have hlt := lt_iff_toNat_lt.mp hs
  unfold isLowDERSignature isDERSignature isDERInteger checkSignatureElement sigElementS
  simp [byteAt, hbit r hr, hbit s hs, hle]
  omega

theorem sampleSign {key : UInt8} {hash : UInt256} {rng : Unit} {vchSig : Valtype}
    (h : (sampleSignEnv.sign key hash rng).1 = some vchSig) :
    key < 0x80 ∧ sampleSig key hash = vchSig := by
  unfold SignEnv.sign at h
  split at h
  next => cases h
  next hvalid =>
    rw [not_eq_true', not_eq_false] at hvalid
    exact ⟨of_decide_eq_true hvalid, Option.some.inj h⟩

theorem sampleSignEnv_signsWell : SignsWell sampleSignEnv where
  signs key hash rng hvalid := by
    rw [SignEnv.sign, hvalid]
    rfl
  strict := by
    intro (key : UInt8) hash rng vchSig h
    obtain ⟨hkey, rfl⟩ := sampleSign h
    refine sampleSig_strict hkey ?_ ?_
    · rw [lt_iff_toNat_lt, toNat_ofNat']
      have h80 : (0x80 : UInt8).toNat = 128 := rfl
      omega
    · rw [lt_iff_toNat_lt, toNat_ofNat']
      have h0 : (0 : UInt8).toNat = 0 := rfl
      omega
  verifies := by
    intro (key : UInt8) hash rng vchSig h
    obtain ⟨hkey, rfl⟩ := sampleSign h
    change (decide (key < 0x80) && samplePubKey key == samplePubKey key &&
      sampleSig key hash == sampleSig key hash) = true
    rw [decide_eq_true hkey, beq_self_eq_true, beq_self_eq_true]
    rfl

theorem sampleSignEnv_tellsKeysApart (keystore : CKeyStore sampleSignEnv) (script : CScript)
    (hash : UInt256) (bs : List Valtype) :
    TellsKeysApart sampleSignEnv keystore script hash bs := by
  intro b _ k k' _ _ hk hk'
  change (decide (byteAt b.dropLast 4 < 0x80) && k == samplePubKey (byteAt b.dropLast 4) && _) =
    true at hk
  change (decide (byteAt b.dropLast 4 < 0x80) && k' == samplePubKey (byteAt b.dropLast 4) && _) =
    true at hk'
  rw [and_eq_true, and_eq_true, beq_iff_eq] at hk hk'
  rw [hk.1.2, hk'.1.2]

variable (redeem : CScript)

def sampleStore : CKeyStore sampleSignEnv where
  getKey address :=
    if address = sampleScriptHashes.hash160 (samplePubKey 5) then some (5 : UInt8) else none
  getPubKey address :=
    if address = sampleScriptHashes.hash160 (samplePubKey 5) then some (samplePubKey 5) else none
  getCScript address := if address = sampleScriptHashes.hash160 redeem then some redeem else none

def payToScriptHash : CScript :=
  OP_HASH160 :: 20 :: sampleScriptHashes.vchHash .OP_HASH160 redeem ++ [OP_EQUAL]

def oneOf (keys : List Valtype) : CScript :=
  OP_1 :: pushes keys ++ [OP_1 + UInt8.ofNat (keys.length - 1), OP_CHECKMULTISIG]

def spendingTx : CTransaction := ⟨1, 1000, [⟨⟨7, 0⟩, [], [], 0⟩], [], 0⟩

def hybridKey : Valtype := 6 :: replicate 64 9

def signedSpend : Option (Bool × CTransaction) :=
  signSignature sampleSignEnv (sampleStore redeem) sighashAll (payToScriptHash redeem) spendingTx
    0 ()

def signedPasses : Option (Bool × List Bool) :=
  (signedSpend redeem).map fun p => (p.1, p.2.vin.map fun txin =>
    (Legacy.verifyScript sampleSignEnv.toSigEnv p.2 0 0
      (SCRIPT_VERIFY_P2SH ||| STANDARD_SCRIPT_VERIFY_FLAGS) txin.scriptSig (payToScriptHash redeem)
      .empty).1)

/-- **A signed input that blocks refuse**: the last key of the redeem script is of a third
form, and the test of `SignSignature` does not run that script. -/
theorem signed_and_refused :
    SignsWell sampleSignEnv ∧
      ¬SignedInputVerifies sampleSignEnv (sampleStore (oneOf [samplePubKey 5, hybridKey]))
        (payToScriptHash (oneOf [samplePubKey 5, hybridKey])) spendingTx 0 () := by
  refine ⟨sampleSignEnv_signsWell, fun hverifies => ?_⟩
  have hrun : signedPasses (oneOf [samplePubKey 5, hybridKey]) = some (true, [false]) := by
    decide +kernel
  obtain ⟨⟨_, txTo'⟩, hsign, hpair⟩ := Option.map_eq_some_iff.mp hrun
  obtain ⟨rfl, hvin⟩ := Prod.mk.inj hpair
  obtain ⟨txin, _, hvin, hfail, hrest⟩ := map_eq_cons_iff.mp hvin
  have htxin : txTo'.vin[0]? = some txin := by
    rw [hvin]
    rfl
  rw [hverifies txTo' txin hsign htxin 0 (.inl rfl) .empty] at hfail
  cases hfail

theorem sampleStore_redeem {redeem redeem' : CScript} {address : UInt160}
    (h : (sampleStore redeem).getCScript address = some redeem') : redeem' = redeem := by
  dsimp only [sampleStore] at h
  split at h
  · exact (Option.some.inj h).symm
  · cases h

theorem redeemFits_multiSig {script : CScript} {out : List Valtype}
    (h : solver script = some (.TX_MULTISIG, out)) :
    RedeemFits S keystore script ↔
      (((ownKeys S keystore (multiSigKeys out)).take (firstByte out.head?).toNat).length =
          (firstByte out.head?).toNat →
        KeysMatch (multiSigKeys out).reverse
          ((ownKeys S keystore (multiSigKeys out)).take (firstByte out.head?).toNat).reverse) := by
  rw [RedeemFits, h]

theorem holdsNo_signature {S : SignEnv} {keystore : CKeyStore S} {script : CScript}
    (hash : UInt256)
    (h : ∀ r ∈ ops script, isDERSignature r.data true = false) :
    ¬HoldsSignature S keystore script hash := by
  rintro ⟨r, hr, hder, _⟩
  rw [h r hr] at hder
  cases hder

/-- The same keys in both orders: the hybrid key is read first, or not at all. -/
theorem signSignature_verifies_sample :
    SignedInputVerifies sampleSignEnv (sampleStore (oneOf [hybridKey, samplePubKey 5]))
        (payToScriptHash (oneOf [hybridKey, samplePubKey 5])) spendingTx 0 () ∧
      ¬SignedInputVerifies sampleSignEnv (sampleStore (oneOf [samplePubKey 5, hybridKey]))
        (payToScriptHash (oneOf [samplePubKey 5, hybridKey])) spendingTx 0 () := by
  have hfirst : solver (oneOf [hybridKey, samplePubKey 5]) =
      some (.TX_MULTISIG, [[1], hybridKey, samplePubKey 5, [2]]) := by decide +kernel
  have hlast : solver (oneOf [samplePubKey 5, hybridKey]) =
      some (.TX_MULTISIG, [[1], samplePubKey 5, hybridKey, [2]]) := by decide +kernel
  refine ⟨(signSignature_verifies sampleSignEnv_signsWell _ _ _ _).1 ?_, fun hverifies => ?_⟩
  · intro _ redeem hredeems
    obtain rfl := sampleStore_redeem hredeems.2.1
    refine ⟨(redeemFits_multiSig hfirst).mpr ?_, holdsNo_signature _ (by decide +kernel)⟩
    decide +kernel
  · have hredeems : Redeems sampleSignEnv (sampleStore (oneOf [samplePubKey 5, hybridKey]))
        (payToScriptHash (oneOf [samplePubKey 5, hybridKey]))
        (oneOf [samplePubKey 5, hybridKey]) := by
      unfold Redeems
      decide +kernel
    have hunambiguous : Unambiguous sampleSignEnv
        (sampleStore (oneOf [samplePubKey 5, hybridKey]))
        (payToScriptHash (oneOf [samplePubKey 5, hybridKey])) spendingTx 0 () := by
      intro redeem hredeems
      obtain rfl := sampleStore_redeem hredeems.2.1
      exact ⟨holdsNo_signature _ (by decide +kernel),
        fun _ _ _ _ => sampleSignEnv_tellsKeysApart _ _ _ _⟩
    have hsigned :=
      ((signSignature_verifies sampleSignEnv_signsWell _ _ _ _).2 hunambiguous).mp hverifies
    have hfits := (redeemFits_multiSig hlast).mp (hsigned (by decide) _ hredeems).1
    revert hfits
    decide +kernel

end Fantom.Script
