/-
  Fantom.Script.Sign — Signing an input: `SignSignature`.

  * `sign1`, `signN`, `signSolver` — the signatures that a form of script asks for,
  * `signSignature`.
-/
import Fantom.Script.Standard
import Fantom.Script.Interpreter

namespace Fantom.Script

open Core Chain Lib

/-! ## §1. `VerifyScript` of the second interpreter. -/

/-- `SignatureChecker::CheckSig` for input `nIn` of `txTo`. -/
def signatureChecker (E : SigEnv) (txTo : CTransaction) (nIn : Nat) : SignatureChecker :=
  fun vchSig vchPubKey scriptCode =>
    if !pubKeyIsValid vchPubKey then false
    else
      match vchSig.getLast? with
      | none => false
      | some back =>
        E.verify vchPubKey
          (signatureHash E.H scriptCode txTo nIn (Int32.ofNat back.toNat)) vchSig.dropLast

theorem signatureChecker_scripts (E : SigEnv) (txTo : CTransaction) (vin : List CTxIn) (nIn : Nat)
    (h : vin.map forgetScripts = txTo.vin.map forgetScripts) :
    signatureChecker E { txTo with vin } nIn = signatureChecker E txTo nIn := by
  funext vchSig vchPubKey scriptCode
  unfold signatureChecker
  cases vchSig.getLast? with
  | none => rfl
  | some back =>
    dsimp only
    rw [signatureHash_scripts E.H scriptCode txTo vin nIn _ h]

/-- Whether the run of a script left true on top. -/
def topIsTrue (stack : List Valtype) : Except ScriptError Unit :=
  match stack with
  | [] => .error .EVAL_FALSE
  | top :: _ => rejectIf (!castToBool top) .EVAL_FALSE

/-- `VerifyScript`.  The redeem script is run under `SCRIPT_VERIFY_P2SH` only. -/
def verifyScript (H : ScriptHashes) (checker : SignatureChecker) (flags : UInt32)
    (scriptSig scriptPubKey : CScript) : Except ScriptError Unit := do
  rejectIf (hasFlag flags SCRIPT_VERIFY_SIGPUSHONLY && !CScript.isPushOnly scriptSig) .SIG_PUSHONLY
  let stackCopy ← evalScript H checker flags [] scriptSig
  let stack ← evalScript H checker flags stackCopy scriptPubKey
  topIsTrue stack
  if hasFlag flags SCRIPT_VERIFY_P2SH && CScript.isPayToScriptHash scriptPubKey then
    rejectIf (!CScript.isPushOnly scriptSig) .SIG_PUSHONLY
    match stackCopy with
    | [] => .error .UNKNOWN_ERROR
    | pubKey2 :: stackCopy =>
      let stack ← evalScript H checker flags stackCopy pubKey2
      topIsTrue stack
  else return ()

/-! ## §2. Keys. -/

/-- The private keys: whether one is valid, its public key, and OpenSSL's signing,
which draws from a source of random numbers and may fail. -/
structure SignEnv extends SigEnv where
  CKey : Type
  Rng : Type
  /-- `CKey::IsValid`. -/
  isValid : CKey → Bool
  /-- `CKey::GetPubKey`. -/
  getPubKey : CKey → CPubKey
  /-- `CECKey::Sign`. -/
  ecdsaSign : CKey → UInt256 → Rng → Option (List UInt8) × Rng

variable (S : SignEnv)

def SignEnv.sign (key : S.CKey) (hash : UInt256) (rng : S.Rng) : Option (List UInt8) × S.Rng :=
  if !S.isValid key then (none, rng) else S.ecdsaSign key hash rng

/-- `CPubKey(vch)`, as the bytes it holds: none if `vch` is no key by its header. -/
def CPubKey.ofVch (vch : Valtype) : CPubKey := if pubKeyIsValid vch then vch else []

def SignEnv.getID (pubkey : CPubKey) : UInt160 := S.scriptHashes.hash160 pubkey

/-- `uint160(vch)`. -/
def uint160 (vch : Valtype) : UInt160 :=
  if vch.length = 20 then BitVec.ofNat 160 (ofLEBytes vch) else 0

/-- What signing asks of a `CKeyStore`. -/
structure CKeyStore where
  getKey : UInt160 → Option S.CKey
  getPubKey : UInt160 → Option CPubKey
  getCScript : UInt160 → Option CScript

/-! ## §3. Signatures. -/

/-- The script that is signed into, and the random numbers to come. -/
structure SignState where
  scriptSigRet : CScript
  rng : S.Rng

variable (keystore : CKeyStore S) (hash : UInt256) (nHashType : Int32)

/-- `Sign1` -/
def sign1 (address : UInt160) (s : SignState S) : Bool × SignState S :=
  match keystore.getKey address with
  | none => (false, s)
  | some key =>
    match S.sign key hash s.rng with
    | (none, rng) => (false, { s with rng })
    | (some vchSig, rng) =>
      (true, ⟨s.scriptSigRet ++ CScript.push (vchSig ++ [nHashType.toUInt32.toUInt8]), rng⟩)

/-- The loop of `SignN`. -/
def signNLoop (nRequired : Nat) : List Valtype → Nat → SignState S → Nat × SignState S
  | [], nSigned, s => (nSigned, s)
  | pubkey :: pubkeys, nSigned, s =>
    if nSigned < nRequired then
      let (fOk, s) := sign1 S keystore hash nHashType (S.getID (CPubKey.ofVch pubkey)) s
      signNLoop nRequired pubkeys (if fOk then nSigned + 1 else nSigned) s
    else (nSigned, s)

/-- The public keys in the solutions of `TX_MULTISIG`, between the two numbers. -/
def multiSigKeys (multisigdata : List Valtype) : List Valtype := (multisigdata.drop 1).dropLast

def signN (multisigdata : List Valtype) (s : SignState S) : Bool × SignState S :=
  let nRequired := (firstByte multisigdata.head?).toNat
  let (nSigned, s) := signNLoop S keystore hash nHashType nRequired (multiSigKeys multisigdata) 0 s
  (nSigned == nRequired, s)

/-- `CScript() << key`. -/
def CScript.pushPubKey (key : CPubKey) : CScript := UInt8.ofNat key.length :: key

/-- What `Solver` with a key store returns. -/
structure SolverResult where
  ok : Bool
  whichType : TxnOutType
  s : SignState S

/-- `Solver` with a key store.  For `TX_SCRIPTHASH` the redeem script takes the place
of the signatures. -/
def signSolver (scriptPubKey : CScript) (rng : S.Rng) : SolverResult S :=
  let cleared : SignState S := ⟨[], rng⟩
  match solver scriptPubKey with
  | none => ⟨false, .TX_NONSTANDARD, cleared⟩
  | some (whichType, vSolutions) =>
    let front := vSolutions.headD []
    match whichType with
    | .TX_NONSTANDARD | .TX_NULL_DATA => ⟨false, whichType, cleared⟩
    | .TX_PUBKEY =>
      let (fOk, s) :=
        sign1 S keystore hash nHashType (S.getID (CPubKey.ofVch front)) cleared
      ⟨fOk, whichType, s⟩
    | .TX_PUBKEYHASH =>
      let keyID := uint160 front
      let (fOk, s) := sign1 S keystore hash nHashType keyID cleared
      if !fOk then ⟨false, whichType, s⟩
      else
        let vch := CPubKey.ofVch ((keystore.getPubKey keyID).getD [])
        ⟨true, whichType, { s with scriptSigRet := s.scriptSigRet ++ CScript.pushPubKey vch }⟩
    | .TX_SCRIPTHASH =>
      match keystore.getCScript (uint160 front) with
      | none => ⟨false, whichType, cleared⟩
      | some script => ⟨true, whichType, { cleared with scriptSigRet := script }⟩
    | .TX_MULTISIG =>
      -- the element more that `OP_CHECKMULTISIG` takes
      let (fOk, s) :=
        signN S keystore hash nHashType vSolutions { cleared with scriptSigRet := [0] }
      ⟨fOk, whichType, s⟩

/-! ## §4. `SignSignature`. -/

/-- `txTo.vin[nIn].scriptSig = scriptSig` -/
def setScriptSig (txTo : CTransaction) (nIn : Nat) (scriptSig : CScript) : CTransaction :=
  { txTo with vin := txTo.vin.modify nIn fun txin => { txin with scriptSig } }

variable (fromPubKey : CScript)

/-- `VerifyScript(txin.scriptSig, fromPubKey, STANDARD_SCRIPT_VERIFY_FLAGS,
SignatureChecker(txTo, nIn))` -/
def testSolution (txTo : CTransaction) (nIn : Nat) (scriptSig : CScript) : Bool :=
  (verifyScript S.scriptHashes (signatureChecker S.toSigEnv txTo nIn) STANDARD_SCRIPT_VERIFY_FLAGS
    scriptSig fromPubKey).isOk

/-- `SignSignature`: its verdict and the transaction as it leaves it, or `none` where
the assertion on `nIn` fails. -/
def signSignature (txTo : CTransaction) (nIn : Nat) (rng : S.Rng) : Option (Bool × CTransaction) :=
  if nIn < txTo.vin.length then
    let hash := signatureHash S.H fromPubKey txTo nIn nHashType
    let solved := signSolver S keystore hash nHashType fromPubKey rng
    let txTo := setScriptSig txTo nIn solved.s.scriptSigRet
    if !solved.ok then some (false, txTo)
    else if solved.whichType = .TX_SCRIPTHASH then
      let subscript := solved.s.scriptSigRet
      let hash2 := signatureHash S.H subscript txTo nIn nHashType
      let sub := signSolver S keystore hash2 nHashType subscript solved.s.rng
      let fSolved := sub.ok && sub.whichType != .TX_SCRIPTHASH
      let scriptSig := sub.s.scriptSigRet ++ CScript.push subscript
      let txTo := setScriptSig txTo nIn scriptSig
      if !fSolved then some (false, txTo)
      else some (testSolution S fromPubKey txTo nIn scriptSig, txTo)
    else some (testSolution S fromPubKey txTo nIn solved.s.scriptSigRet, txTo)
  else none

/-- **An input of the transaction** is signed or not, and nothing else is changed. -/
theorem signSignature_of_lt {txTo : CTransaction}
    {nIn : Nat} (rng : S.Rng) (h : nIn < txTo.vin.length) :
    ∃ fSigned scriptSig, signSignature S keystore nHashType fromPubKey txTo nIn rng =
    some (fSigned, setScriptSig txTo nIn scriptSig) := by
  have htwice (a b : CScript) :
      setScriptSig (setScriptSig txTo nIn a) nIn b = setScriptSig txTo nIn b := by
    simp [setScriptSig, List.modify_modify_eq, Function.comp_def]
  rw [signSignature, if_pos h]
  dsimp only
  split
  next => exact ⟨_, _, rfl⟩
  next =>
    split
    next =>
      rw [htwice]
      split
      next => exact ⟨_, _, rfl⟩
      next => exact ⟨_, _, rfl⟩
    next => exact ⟨_, _, rfl⟩

end Fantom.Script
