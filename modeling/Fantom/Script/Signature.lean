/-
  Fantom.Script.Signature — Signatures inside scripts: their encodings, the hash they sign, and the
  check with its cache of signatures found valid.

  * `CScript.findAndDelete`, `signatureHash`,
  * `CSignatureCache`, `checkSig`.
-/
import Fantom.Script.Opcodes
import Fantom.Lib.Cached

namespace Fantom.Script

open Core Chain Lib List

/-! ## §1. Encodings. -/

/-- `vch[i]`, which the callers know to be there. -/
def byteAt (vch : Valtype) (i : Nat) : UInt8 := vch.getD i 0

def isCompressedOrUncompressedPubKey (vchPubKey : Valtype) : Bool :=
  if vchPubKey.length < 33 then false
  else if byteAt vchPubKey 0 = 0x04 then vchPubKey.length == 65
  else if byteAt vchPubKey 0 = 0x02 ∨ byteAt vchPubKey 0 = 0x03 then vchPubKey.length == 33
  else false

variable (vchSig : Valtype)

/-- One of the two numbers of a signature, `nLen` bytes from `pos` on: behind its
type byte, not empty, not negative and without excess zeros. -/
def isDERInteger (pos nLen : Nat) : Bool :=
  byteAt vchSig (pos - 2) == 0x02 && nLen != 0 && byteAt vchSig pos &&& 0x80 == 0 &&
    !(1 < nLen && byteAt vchSig pos == 0 && byteAt vchSig (pos + 1) &&& 0x80 == 0)

/-- `IsDERSignature` -/
def isDERSignature (haveHashType : Bool) : Bool :=
  let nLenR := (byteAt vchSig 3).toNat
  let nLenS := (byteAt vchSig (5 + nLenR)).toNat
  if vchSig.length < 9 then false
  else if vchSig.length > 73 then false
  else if byteAt vchSig 0 ≠ 0x30 then false
  else if (byteAt vchSig 1).toNat ≠ vchSig.length - (if haveHashType then 3 else 2) then false
  else if 5 + nLenR ≥ vchSig.length then false
  else if nLenR + nLenS + (if haveHashType then 7 else 6) ≠ vchSig.length then false
  else isDERInteger vchSig 4 nLenR && isDERInteger vchSig (6 + nLenR) nLenS

/-- `vchMaxModHalfOrder`: half of the order of the generator of the curve. -/
def maxModHalfOrder : Nat :=
  0x7fffffffffffffffffffffffffffffff5d576e7357a4501ddfe92f46681b20a0

/-- `vchMaxModOrder`. -/
def maxModOrder : Nat :=
  0xfffffffffffffffffffffffffffffffebaaedce6af48a03bbfd25e8cd0364140

/-- `CheckSignatureElement`: `CompareBigEndian` compares the numbers. -/
def checkSignatureElement (vch : List UInt8) (half : Bool) : Bool :=
  0 < ofLEBytes vch.reverse &&
    ofLEBytes vch.reverse ≤ (if half then maxModHalfOrder else maxModOrder)

def sigElementS : List UInt8 :=
  let nLenR := (byteAt vchSig 3).toNat
  (vchSig.drop (6 + nLenR)).take (byteAt vchSig (5 + nLenR)).toNat

def isLowDERSignature : Bool :=
  isDERSignature vchSig true && checkSignatureElement (sigElementS vchSig) true

def SIGHASH_ALL : UInt8 := 1
def SIGHASH_NONE : UInt8 := 2
def SIGHASH_SINGLE : UInt8 := 3
def SIGHASH_ANYONECANPAY : UInt8 := 0x80

def isDefinedHashtypeSignature : Bool :=
  match vchSig.getLast? with
  | none => false
  | some back =>
    let nHashType := back &&& ~~~SIGHASH_ANYONECANPAY
    !(nHashType < SIGHASH_ALL || nHashType > SIGHASH_SINGLE)

/-! ## §2. Scripts as data. -/

/-- `CScript() << b`: the shortest push of `b`. -/
def CScript.push (b : Valtype) : CScript :=
  if b.length < OP_PUSHDATA1.toNat then UInt8.ofNat b.length :: b
  else if b.length ≤ 0xff then OP_PUSHDATA1 :: leBytes 1 b.length ++ b
  else if b.length ≤ 0xffff then OP_PUSHDATA2 :: leBytes 2 b.length ++ b
  else OP_PUSHDATA4 :: leBytes 4 b.length ++ b

/-- The inner loop of `FindAndDelete`: `b` is erased while the script goes on
with it. -/
def eraseFront (b : CScript) : Nat → CScript → CScript
  | 0, pc => pc
  | fuel + 1, pc => if b.isPrefixOf pc then eraseFront b fuel (pc.drop b.length) else pc

/-- The outer loop: instruction after instruction, and what does not parse stays
as it is. -/
def findAndDeleteLoop (b : CScript) : Nat → CScript → CScript
  | 0, pc => pc
  | fuel + 1, pc =>
    let pc := eraseFront b pc.length pc
    let r := getOp pc
    if r.ok then pc.take (pc.length - r.rest.length) ++ findAndDeleteLoop b fuel r.rest
    else pc

/-- `FindAndDelete`; an instruction has a byte at least, so as many rounds as
bytes are enough. -/
def CScript.findAndDelete (script b : CScript) : CScript :=
  if b.isEmpty then script else findAndDeleteLoop b (script.length + 1) script

def CScript.isPushOnly (script : CScript) : Bool :=
  (CScript.ops script).all fun r => r.ok && r.opcode ≤ OP_16

/-! ## §3. The hash that is signed. -/

/-- `CTxOut::SetNull`. -/
def CTxOut.null : CTxOut := ⟨-1, -10, []⟩

/-- The inputs other than `nIn` are left to the others to update. -/
def releaseOthers (vin : List CTxIn) (nIn : Nat) : List CTxIn :=
  vin.zipIdx.map fun p => if p.2 = nIn then p.1 else { p.1 with nSequence := 0 }

/-- The outputs and sequence numbers that a hash type signs, or `none` where
`SIGHASH_SINGLE` has no output to sign. -/
def signedParts (txTmp : CTransaction) (nIn : Nat) (nHashType : Int32) : Option CTransaction :=
  if nHashType &&& 0x1f = Int32.ofNat SIGHASH_NONE.toNat then
    some { txTmp with vout := [], vin := releaseOthers txTmp.vin nIn }
  else if nHashType &&& 0x1f = Int32.ofNat SIGHASH_SINGLE.toNat then
    if nIn ≥ txTmp.vout.length then none
    else some { txTmp with
      vout := replicate nIn CTxOut.null ++ (txTmp.vout.drop nIn).take 1
      vin := releaseOthers txTmp.vin nIn }
  else some txTmp

/-- The inputs with their scripts blanked, apart from the signed one, which has `scriptCode`. -/
def blankScripts (vin : List CTxIn) (nIn : Nat) (scriptCode : CScript) : List CTxIn :=
  vin.zipIdx.map fun p => { p.1 with scriptSig := if p.2 = nIn then scriptCode else [] }

/-- What `SignatureHash` hashes, or `none` where it returns one instead. -/
def signatureHashBytes (scriptCode : CScript) (txTo : CTransaction) (nIn : Nat)
    (nHashType : Int32) : Option (List UInt8) :=
  if nIn ≥ txTo.vin.length then none
  else
    let scriptCode := CScript.findAndDelete scriptCode [OP_CODESEPARATOR]
    let vin := blankScripts txTo.vin nIn scriptCode
    (signedParts { txTo with vin } nIn nHashType).map fun txTmp =>
      let vin := if nHashType &&& 0x80 ≠ 0 then (txTmp.vin.drop nIn).take 1 else txTmp.vin
      { txTmp with vin }.serialize ++ leBytes 4 nHashType.toUInt32.toNat

/-- `SignatureHash`; its failures give the hash one. -/
def signatureHash (H : Hashes) (scriptCode : CScript) (txTo : CTransaction) (nIn : Nat)
    (nHashType : Int32) : UInt256 :=
  (signatureHashBytes scriptCode txTo nIn nHashType).elim 1 H.hash

def forgetScripts (txin : CTxIn) : CTxIn := { txin with scriptSig := [], prevPubKey := [] }

def sentInput (txin : CTxIn) : CTxIn := { txin with prevPubKey := [] }

theorem serialize_sentInput (tx : CTransaction) :
    { tx with vin := tx.vin.map sentInput }.serialize = tx.serialize := by
  unfold CTransaction.serialize serializeVector
  dsimp only
  rw [length_map, flatMap_map]
  rfl

theorem signedParts_sentInput (tx : CTransaction) (nIn : Nat) (nHashType : Int32) :
    signedParts { tx with vin := tx.vin.map sentInput } nIn nHashType =
      (signedParts tx nIn nHashType).map fun txTmp =>
        { txTmp with vin := txTmp.vin.map sentInput } := by
  have hrelease : releaseOthers (tx.vin.map sentInput) nIn =
      (releaseOthers tx.vin nIn).map sentInput := by
    unfold releaseOthers
    rw [zipIdx_map, map_map, map_map]
    refine map_congr_left fun p _ => ?_
    dsimp only [Function.comp_apply, Prod.map, id]
    split <;> rfl
  unfold signedParts
  split
  next =>
    rw [Option.map_some]
    dsimp only
    rw [hrelease]
  next =>
    split
    next =>
      dsimp only
      split
      next => rfl
      next =>
        rw [Option.map_some]
        dsimp only
        rw [hrelease]
    next => rfl

theorem serialize_of_sentInput {x y : CTransaction}
    (h : { x with vin := x.vin.map sentInput } = { y with vin := y.vin.map sentInput })
    (f : List CTxIn → List CTxIn) (hf : ∀ vin, (f vin).map sentInput = f (vin.map sentInput)) :
    { x with vin := f x.vin }.serialize = { y with vin := f y.vin }.serialize := by
  have hsent (x : CTransaction) : { x with vin := f x.vin }.serialize =
      { x with vin := f (x.vin.map sentInput) }.serialize := by
    rw [← hf]
    exact (serialize_sentInput { x with vin := f x.vin }).symm
  rw [hsent x, hsent y]
  exact congrArg (fun x : CTransaction => { x with vin := f x.vin }.serialize) h

/-- **The hash to sign** looks at no script of the inputs. -/
theorem signatureHash_scripts (H : Hashes) (scriptCode : CScript) (txTo : CTransaction)
    (vin : List CTxIn) (nIn : Nat) (nHashType : Int32)
    (h : vin.map forgetScripts = txTo.vin.map forgetScripts) :
    signatureHash H scriptCode { txTo with vin } nIn nHashType =
      signatureHash H scriptCode txTo nIn nHashType := by
  have hlength : vin.length = txTo.vin.length := by
    rw [← length_map forgetScripts, h, length_map]
  -- the scripts are overwritten, and what is left of an input is what is sent
  have hsent (vin : List CTxIn) (code : CScript) : (blankScripts vin nIn code).map sentInput =
      blankScripts (vin.map forgetScripts) nIn code := by
    unfold blankScripts
    rw [zipIdx_map, map_map, map_map]
    rfl
  unfold signatureHash signatureHashBytes
  dsimp only
  rw [hlength]
  split
  next => rfl
  next =>
    have hsame (code : CScript) :
        (signedParts { txTo with vin := blankScripts vin nIn code } nIn nHashType).map
            (fun txTmp => { txTmp with vin := txTmp.vin.map sentInput }) =
        (signedParts { txTo with vin := blankScripts txTo.vin nIn code } nIn nHashType).map
            (fun txTmp => { txTmp with vin := txTmp.vin.map sentInput }) := by
      rw [← signedParts_sentInput, ← signedParts_sentInput]
      dsimp only
      rw [hsent, hsent, h]
    replace hsame := hsame (CScript.findAndDelete scriptCode [OP_CODESEPARATOR])
    cases hx : signedParts _ nIn nHashType with
    | none =>
      rw [hx] at hsame
      rw [Option.map_eq_none_iff.mp hsame.symm]
    | some x =>
      rw [hx, Option.map_some] at hsame
      obtain ⟨y, hy, hxy⟩ := Option.map_eq_some_iff.mp hsame.symm
      have hchosen (vin : List CTxIn) :
          (if nHashType &&& 0x80 ≠ 0 then (vin.drop nIn).take 1 else vin).map sentInput =
            if nHashType &&& 0x80 ≠ 0 then ((vin.map sentInput).drop nIn).take 1
            else vin.map sentInput := by
        split
        · rw [map_take, map_drop]
        · rfl
      rw [hy, Option.map_some, Option.map_some, serialize_of_sentInput hxy.symm
        (fun vin => if nHashType &&& 0x80 ≠ 0 then (vin.drop nIn).take 1 else vin) hchosen]

/-! ## §4. Checking a signature. -/

/-- `CPubKey::GetLen`. -/
def pubKeyLen (chHeader : UInt8) : Nat :=
  if chHeader = 2 ∨ chHeader = 3 then 33
  else if chHeader = 4 ∨ chHeader = 6 ∨ chHeader = 7 then 65
  else 0

/-- Whether `CPubKey(vch)` is valid; then it holds the bytes of `vch`. -/
def pubKeyIsValid (vch : Valtype) : Bool :=
  match vch with
  | [] => false
  | chHeader :: _ => pubKeyLen chHeader != 0 && pubKeyLen chHeader == vch.length

/-- What the first interpreter rests on: the hashes of the node, those of its
script operations, and OpenSSL's `CPubKey::Verify` on a valid key, with the
eviction of its signature cache and whether `-maxsigcachesize` allows one. -/
structure SigEnv where
  H : Hashes
  scriptHashes : ScriptHashes
  verify : CPubKey → UInt256 → List UInt8 → Bool
  evictor : Cached.Evictor (UInt256 × List UInt8 × CPubKey)
  fCacheAllowed : Bool

variable (E : SigEnv)

/-- What a cache entry says: the signature is one of the hash by the key. -/
def SigEnv.validSig (k : UInt256 × List UInt8 × CPubKey) : Bool := E.verify k.2.2 k.1 k.2.1

abbrev CSignatureCache := Cached.VerifiedSet E.validSig

/-- `CheckSig` of the first interpreter. -/
def checkSig (vchSig vchPubKey : Valtype) (scriptCode : CScript) (txTo : CTransaction)
    (nIn : Nat) (nHashType : Int32) (flags : UInt32) : Cached (CSignatureCache E) Bool :=
  if !pubKeyIsValid vchPubKey then .ok false
  else
    match vchSig.getLast? with
    | none => .ok false
    | some back =>
      let backType := Int32.ofNat back.toNat
      if nHashType ≠ 0 ∧ nHashType ≠ backType then .ok false
      else
        Cached.ask E.evictor (E.fCacheAllowed && !hasFlag flags SCRIPT_VERIFY_NOCACHE)
          (signatureHash E.H scriptCode txTo nIn backType, vchSig.dropLast, vchPubKey)

theorem covers_checkSig (vchSig vchPubKey : Valtype) (scriptCode : CScript)
    (txTo : CTransaction) (nIn : Nat) (nHashType : Int32) (f g : UInt32) :
    Cached.Covers (checkSig E vchSig vchPubKey scriptCode txTo nIn nHashType f)
      (checkSig E vchSig vchPubKey scriptCode txTo nIn nHashType g) := by
  unfold checkSig
  split
  · exact Cached.covers_ok false
  · cases vchSig.getLast? with
    | none => exact Cached.covers_ok false
    | some back =>
      dsimp only
      split
      · exact Cached.covers_ok false
      · exact Cached.covers_ask _ _ _ _

/-! ## An executable instance. -/

def sampleScriptHashes : ScriptHashes where
  ripemd160 bs := BitVec.ofNat 160 (polyHash bs)
  sha1 bs := BitVec.ofNat 160 (polyHash bs + 1)
  sha256 bs := BitVec.ofNat 256 (polyHash bs + 2)
  hash160 bs := BitVec.ofNat 160 (polyHash bs + 3)
  hash256 bs := BitVec.ofNat 256 (polyHash bs + 4)

def sampleSigEnv : SigEnv where
  H := sampleHashes
  scriptHashes := sampleScriptHashes
  verify _ hash sig := sig.getLast? == some (UInt8.ofNat hash.toNat)
  evictor := ⟨fun _ l => l.take 9, fun _ l => take_subset 9 l⟩
  fCacheAllowed := true

-- both occurrences of the pattern go, also the one that the first leaves behind
example : CScript.findAndDelete [0x51, 0xab, 0xab, 0x52] [OP_CODESEPARATOR] = [0x51, 0x52] := by
  decide

end Fantom.Script
