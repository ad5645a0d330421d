/-
  Fantom.Script.Standard — The standard forms of an output script.

  * `scriptSigArgsExpected`, `isStandard`,
  * `CScript.hasCanonicalPushes`.

  A template is a script too, with opcodes that occur in no real script in the place of data.
-/
import Fantom.Script.Signature

namespace Fantom.Script

open Core

/-! ## §1. Templates. -/

inductive TxnOutType
  | TX_NONSTANDARD | TX_PUBKEY | TX_PUBKEYHASH | TX_SCRIPTHASH | TX_MULTISIG | TX_NULL_DATA
deriving DecidableEq, Repr

def OP_RETURN : UInt8 := 0x6a
def OP_SMALLDATA : UInt8 := 0xf9
def OP_SMALLINTEGER : UInt8 := 0xfa
def OP_PUBKEYS : UInt8 := 0xfb
def OP_PUBKEYHASH : UInt8 := 0xfd
def OP_PUBKEY : UInt8 := 0xfe

def MAX_OP_RETURN_RELAY : Nat := 40

/-- `mTemplates`, in the order of the multimap. -/
def mTemplates : List (TxnOutType × CScript) :=
  [(.TX_PUBKEY, [OP_PUBKEY, OP_CHECKSIG]),
    (.TX_PUBKEYHASH, [OP_DUP, OP_HASH160, OP_PUBKEYHASH, OP_EQUALVERIFY, OP_CHECKSIG]),
    (.TX_MULTISIG, [OP_SMALLINTEGER, OP_PUBKEYS, OP_SMALLINTEGER, OP_CHECKMULTISIG]),
    (.TX_NULL_DATA, [OP_RETURN, OP_SMALLDATA]),
    (.TX_NULL_DATA, [OP_RETURN])]

/-! ## §2. `Solver`. -/

def isPubKeySize (vch : Valtype) : Bool := 33 ≤ vch.length && vch.length ≤ 120

/-- The loop of `OP_PUBKEYS`: keys are collected up to the first instruction that
pushes none, which stays the current one. -/
def takePubKeys : Nat → GetOpResult → List Valtype → GetOpResult × List Valtype
  | 0, r1, vSolutions => (r1, vSolutions)
  | fuel + 1, r1, vSolutions =>
    if isPubKeySize r1.data then
      let next := getOp r1.rest
      if next.ok then takePubKeys fuel next (vSolutions ++ [r1.data])
      else (next, vSolutions ++ [r1.data])
    else (r1, vSolutions)

/-- `DecodeOP_N` of a small integer, if the opcode is one. -/
def smallInteger (opcode : UInt8) : Option UInt8 :=
  if opcode = 0 then some 0
  else if OP_1 ≤ opcode ∧ opcode ≤ OP_16 then some (opcode - (OP_1 - 1))
  else none

/-- One instruction against one of the template: the solutions with what it adds. -/
def matchOp (r1 r2 : GetOpResult) (vSolutions : List Valtype) : Option (List Valtype) :=
  if r2.opcode = OP_PUBKEY then
    if isPubKeySize r1.data then some (vSolutions ++ [r1.data]) else none
  else if r2.opcode = OP_PUBKEYHASH then
    if r1.data.length = 20 then some (vSolutions ++ [r1.data]) else none
  else if r2.opcode = OP_SMALLINTEGER then
    (smallInteger r1.opcode).map fun n => vSolutions ++ [[n]]
  else if r2.opcode = OP_SMALLDATA then
    if r1.data.length > MAX_OP_RETURN_RELAY then none else some vSolutions
  else if r1.opcode ≠ r2.opcode ∨ r1.data ≠ r2.data then none
  else some vSolutions

/-- The comparison of a script with a template.  A round reads an instruction of
the template, so as many rounds as its bytes, and one to notice the end, are
enough. -/
def matchTemplate : Nat → CScript → CScript → List Valtype → Option (List Valtype)
  | 0, _, _, _ => none
  | fuel + 1, pc1, pc2, vSolutions =>
    if pc1.isEmpty && pc2.isEmpty then some vSolutions
    else
      let r1 := getOp pc1
      let r2 := getOp pc2
      if !r1.ok || !r2.ok then none
      else if r2.opcode = OP_PUBKEYS then
        let (r1, vSolutions) := takePubKeys pc1.length r1 vSolutions
        let r2 := getOp r2.rest
        if !r2.ok then none
        else (matchOp r1 r2 vSolutions).bind (matchTemplate fuel r1.rest r2.rest)
      else (matchOp r1 r2 vSolutions).bind (matchTemplate fuel r1.rest r2.rest)

/-- `vSolutions.front()[0]`, `vSolutions.back()[0]`. -/
def firstByte (vch : Option Valtype) : UInt8 := (vch.getD []).headD 0

/-- The additional checks for `TX_MULTISIG`. -/
def multiSigCounts (vSolutions : List Valtype) : Bool :=
  let m := firstByte vSolutions.head?
  let n := firstByte vSolutions.getLast?
  !(m < 1 || n < 1 || m > n || vSolutions.length - 2 != n.toNat)

/-- `Solver`: the form of a script with its data, if it has one. -/
def solver (scriptPubKey : CScript) : Option (TxnOutType × List Valtype) :=
  if CScript.isPayToScriptHash scriptPubKey then
    some (.TX_SCRIPTHASH, [(scriptPubKey.drop 2).take 20])
  else
    match mTemplates.findSome? fun tplate =>
        (matchTemplate (tplate.2.length + 1) scriptPubKey tplate.2 []).map (tplate.1, ·) with
    | none => none
    | some (typeRet, vSolutions) =>
      if typeRet = .TX_MULTISIG ∧ !multiSigCounts vSolutions then none
      else some (typeRet, vSolutions)

theorem solver_eq_scriptHash {scriptPubKey : CScript} {t : TxnOutType}
    {vSolutions : List Valtype} (h : solver scriptPubKey = some (t, vSolutions)) :
    t = .TX_SCRIPTHASH ↔ CScript.isPayToScriptHash scriptPubKey = true := by
  unfold solver at h
  split at h
  next hp2sh =>
    cases h
    simp [hp2sh]
  next hp2sh =>
    split at h
    next => cases h
    next typeRet found hfind =>
      obtain ⟨tplate, hmem, hmatch⟩ := List.exists_of_findSome?_eq_some hfind
      obtain ⟨_, _, hpair⟩ := Option.map_eq_some_iff.mp hmatch
      have htype : ∀ tplate ∈ mTemplates, tplate.1 ≠ .TX_SCRIPTHASH := by decide
      have hne : typeRet ≠ .TX_SCRIPTHASH := by
        rw [← (Prod.mk.inj hpair).1]
        exact htype tplate hmem
      split at h
      next => cases h
      next =>
        cases h
        simp [hne, hp2sh]

/-- `ScriptSigArgsExpected` -/
def scriptSigArgsExpected (t : TxnOutType) (vSolutions : List Valtype) : Int :=
  match t with
  | .TX_NONSTANDARD | .TX_NULL_DATA => -1
  | .TX_PUBKEY => 1
  | .TX_PUBKEYHASH => 2
  | .TX_MULTISIG =>
    match vSolutions with
    | (m :: _) :: _ => m.toNat + 1
    | _ => -1
  | .TX_SCRIPTHASH => 1

/-- `IsStandard`, with the form of the script. -/
def isStandard (scriptPubKey : CScript) : Option TxnOutType :=
  match solver scriptPubKey with
  | none => none
  | some (whichType, vSolutions) =>
    if whichType = .TX_MULTISIG then
      let m := firstByte vSolutions.head?
      let n := firstByte vSolutions.getLast?
      if n < 1 || n > 3 then none
      else if m < 1 || m > n then none
      else some whichType
    else if whichType = .TX_NONSTANDARD then none
    else some whichType

-- one key of two, then a script that pushes more than a template can hold
example : solver (OP_1 :: CScript.push (List.replicate 33 2) ++
      CScript.push (List.replicate 33 3) ++ [0x52, OP_CHECKMULTISIG]) =
    some (.TX_MULTISIG, [[1], List.replicate 33 2, List.replicate 33 3, [2]]) := by
  decide +kernel

example : solver (OP_RETURN :: CScript.push (List.replicate 41 7)) = none := by
  decide +kernel

/-! ## §3. Canonical pushes. -/

def isCanonicalPush (r : GetOpResult) : Bool :=
  let size := r.data.length
  !(r.opcode < OP_PUSHDATA1 && r.opcode > 0 && (size == 1 && r.data.headD 0 ≤ 16)) &&
    !(r.opcode == OP_PUSHDATA1 && size < OP_PUSHDATA1.toNat) &&
    !(r.opcode == OP_PUSHDATA2 && size ≤ 0xff) &&
    !(r.opcode == OP_PUSHDATA4 && size ≤ 0xffff)

def CScript.hasCanonicalPushes (script : CScript) : Bool :=
  (CScript.ops script).all fun r => r.ok && (r.opcode > OP_16 || isCanonicalPush r)

end Fantom.Script
