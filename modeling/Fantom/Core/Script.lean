/-
  Fantom.Core.Script — The parts of `script.h` and `script.cpp` that block connection reads without
  running a script: instruction decoding, signature operation counts, the pay-to-script-hash
  pattern, the normal payment pattern, and the address ids of an output script.

  A loop `while (pc < end()) { script.GetOp(pc, opcode, data); ... }` is a recursion over
  `script.ops`, the successive results of `GetOp`.
-/
import Fantom.Core.Primitives

namespace Fantom.Core

/-! ## §1. Opcodes. -/

def OP_PUSHDATA1 : UInt8 := 0x4c
def OP_PUSHDATA2 : UInt8 := 0x4d
def OP_PUSHDATA4 : UInt8 := 0x4e
def OP_1 : UInt8 := 0x51
def OP_16 : UInt8 := 0x60
def OP_DUP : UInt8 := 0x76
def OP_EQUAL : UInt8 := 0x87
def OP_EQUALVERIFY : UInt8 := 0x88
def OP_HASH160 : UInt8 := 0xa9
def OP_CHECKSIG : UInt8 := 0xac
def OP_CHECKSIGVERIFY : UInt8 := 0xad
def OP_CHECKMULTISIG : UInt8 := 0xae
def OP_CHECKMULTISIGVERIFY : UInt8 := 0xaf
def OP_INVALIDOPCODE : UInt8 := 0xff

/-! ## §2. Decoding. -/

/-- What one call of `GetOp` returns: the opcode, the pushed data, the verdict,
and the bytes from the new `pc` on. -/
structure GetOpResult where
  opcode : UInt8
  data : List UInt8
  ok : Bool
  rest : List UInt8
deriving DecidableEq, Repr

/-- `GetOp` that fails leaves `OP_INVALIDOPCODE`, no data, and `pc` where the
read stopped. -/
def GetOpResult.fail (rest : List UInt8) : GetOpResult := ⟨OP_INVALIDOPCODE, [], false, rest⟩

/-- The immediate operand of `nSize` bytes. -/
def getOperand (opcode : UInt8) (nSize : Nat) (pc : List UInt8) : GetOpResult :=
  if pc.length < nSize then .fail pc
  else ⟨opcode, pc.take nSize, true, pc.drop nSize⟩

/-- `CScript::GetOp2`. -/
def getOp : List UInt8 → GetOpResult
  | [] => .fail []
  | opcode :: pc =>
    if opcode ≤ OP_PUSHDATA4 then
      if opcode < OP_PUSHDATA1 then getOperand opcode opcode.toNat pc
      else if opcode = OP_PUSHDATA1 then
        match pc with
        | [] => .fail []
        | nSize :: pc => getOperand opcode nSize.toNat pc
      else if opcode = OP_PUSHDATA2 then
        if pc.length < 2 then .fail pc
        else getOperand opcode (ofLEBytes (pc.take 2)) (pc.drop 2)
      else
        if pc.length < 4 then .fail pc
        else getOperand opcode (ofLEBytes (pc.take 4)) (pc.drop 4)
    else ⟨opcode, [], true, pc⟩

/-- The results of `GetOp` from `pc` to the end; a call always reads at least
the opcode, so `fuel = pc.length` calls are enough. -/
def opsFrom : Nat → List UInt8 → List GetOpResult
  | 0, _ => []
  | _ + 1, [] => []
  | fuel + 1, b :: pc =>
    let r := getOp (b :: pc)
    r :: opsFrom fuel r.rest

variable (script : CScript)

/-- The results of `GetOp` over a whole script. -/
def CScript.ops : List GetOpResult := opsFrom script.length script

/-! ## §3. Signature operations. -/

/-- `CScript::DecodeOP_N` on `OP_1 .. OP_16`. -/
def decodeOP_N (opcode : UInt8) : UInt32 := opcode.toUInt32 - (OP_1.toUInt32 - 1)

variable (fAccurate : Bool)

/-- What one opcode behind another adds to `GetSigOpCount(fAccurate)`. -/
def opSigOpCount (lastOpcode opcode : UInt8) : UInt32 :=
  if opcode = OP_CHECKSIG ∨ opcode = OP_CHECKSIGVERIFY then 1
  else if opcode = OP_CHECKMULTISIG ∨ opcode = OP_CHECKMULTISIGVERIFY then
    if fAccurate ∧ OP_1 ≤ lastOpcode ∧ lastOpcode ≤ OP_16 then decodeOP_N lastOpcode else 20
  else 0

/-- The loop of `GetSigOpCount(fAccurate)`. -/
def sigOpCountLoop : UInt8 → List GetOpResult → UInt32
  | _, [] => 0
  | lastOpcode, r :: rs =>
    if !r.ok then 0 else opSigOpCount fAccurate lastOpcode r.opcode + sigOpCountLoop r.opcode rs

/-- `CScript::GetSigOpCount(bool)`. -/
def CScript.getSigOpCount : UInt32 :=
  sigOpCountLoop fAccurate OP_INVALIDOPCODE script.ops

def CScript.isPayToScriptHash : Bool :=
  script.length == 23 && script[0]? == some OP_HASH160 && script[1]? == some 0x14 &&
    script[22]? == some OP_EQUAL

/-- The last data a `scriptSig` pushes; nothing when it does not parse or has
an operation other than a push. -/
def lastPush : List UInt8 → List GetOpResult → Option (List UInt8)
  | data, [] => some data
  | _, r :: rs => if !r.ok || r.opcode > OP_16 then none else lastPush r.data rs

/-- `CScript::GetSigOpCount(const CScript& scriptSig)`. -/
def CScript.getSigOpCountP2SH (script scriptSig : CScript) : UInt32 :=
  if !CScript.isPayToScriptHash script then CScript.getSigOpCount script true
  else
    match lastPush [] (CScript.ops scriptSig) with
    | none => 0
    | some subscript => CScript.getSigOpCount subscript true

/-! ### Bounds. -/

theorem opsFrom_length_le (fuel : Nat) (pc : List UInt8) : (opsFrom fuel pc).length ≤ fuel := by
  induction fuel generalizing pc with
  | zero => simp [opsFrom]
  | succ fuel ih =>
    cases pc with
    | nil => simp [opsFrom]
    | cons b pc =>
      rw [opsFrom, List.length_cons]
      exact Nat.succ_le_succ (ih _)

theorem uint32_add_le {a b : UInt32} {m n : Nat} (ha : a.toNat ≤ m) (hb : b.toNat ≤ n) :
    (a + b).toNat ≤ m + n := by
  rw [UInt32.toNat_add]
  exact (Nat.mod_le _ _).trans (Nat.add_le_add ha hb)

variable (lastOpcode opcode : UInt8)

theorem sigOpCountLoop_cons (lastOpcode : UInt8) (r : GetOpResult)
    (rs : List GetOpResult) :
    sigOpCountLoop fAccurate lastOpcode (r :: rs) =
      if !r.ok then 0
      else opSigOpCount fAccurate lastOpcode r.opcode + sigOpCountLoop fAccurate r.opcode rs := rfl

theorem decodeOP_N_toNat {opcode : UInt8} (h : OP_1 ≤ opcode) :
    (decodeOP_N opcode).toNat = opcode.toNat - 80 := by
  have hle : 81 ≤ opcode.toNat := UInt8.le_iff_toNat_le.mp h
  have h80 : OP_1.toUInt32 - 1 = 80 := rfl
  rw [decodeOP_N, h80, UInt32.toNat_sub_of_le, UInt8.toNat_toUInt32]
  · rfl
  · rw [UInt32.le_iff_toNat_le, UInt8.toNat_toUInt32]
    exact (by omega : 80 ≤ opcode.toNat)

theorem opSigOpCount_le : (opSigOpCount fAccurate lastOpcode opcode).toNat ≤
    (opSigOpCount false lastOpcode opcode).toNat := by
  unfold opSigOpCount
  split
  · exact Nat.le_refl _
  · split
    · split
      next hlast =>
        have hhigh : lastOpcode.toNat ≤ 96 := UInt8.le_iff_toNat_le.mp hlast.2.2
        rw [decodeOP_N_toNat hlast.2.1, if_neg (by simp)]
        have h20 : (20 : UInt32).toNat = 20 := rfl
        omega
      next => rw [if_neg (by simp)]
    · exact Nat.le_refl _

theorem opSigOpCount_le_twenty : (opSigOpCount fAccurate lastOpcode opcode).toNat ≤ 20 := by
  refine (opSigOpCount_le fAccurate lastOpcode opcode).trans ?_
  unfold opSigOpCount
  split
  · decide
  · rw [if_neg (by simp : ¬(false = true ∧ OP_1 ≤ lastOpcode ∧ lastOpcode ≤ OP_16))]
    split <;> decide

theorem sigOpCountLoop_le (lastOpcode : UInt8) (rs : List GetOpResult) :
    (sigOpCountLoop fAccurate lastOpcode rs).toNat ≤ 20 * rs.length := by
  induction rs generalizing lastOpcode with
  | nil => exact Nat.le_refl _
  | cons r rs ih =>
    rw [sigOpCountLoop_cons]
    split
    · exact Nat.zero_le _
    · rw [List.length_cons, Nat.mul_add, Nat.add_comm (20 * rs.length)]
      exact uint32_add_le (opSigOpCount_le_twenty fAccurate lastOpcode r.opcode) (ih r.opcode)

theorem ops_length_le : (CScript.ops script).length ≤ script.length :=
  opsFrom_length_le _ _

theorem getSigOpCount_le : (CScript.getSigOpCount script fAccurate).toNat ≤ 20 * script.length :=
  (sigOpCountLoop_le _ _ _).trans (Nat.mul_le_mul_left 20 (ops_length_le script))

theorem sigOpCountLoop_cons_toNat {fAccurate : Bool} {lastOpcode : UInt8} {r : GetOpResult}
    {rs : List GetOpResult} (hok : r.ok = true) (hlen : 20 * (r :: rs).length < 2 ^ 32) :
    (sigOpCountLoop fAccurate lastOpcode (r :: rs)).toNat =
      (opSigOpCount fAccurate lastOpcode r.opcode).toNat +
        (sigOpCountLoop fAccurate r.opcode rs).toNat := by
  have hop := opSigOpCount_le_twenty fAccurate lastOpcode r.opcode
  have hrest := sigOpCountLoop_le fAccurate r.opcode rs
  rw [List.length_cons] at hlen
  rw [sigOpCountLoop_cons, if_neg (by rw [hok]; decide), UInt32.toNat_add, Nat.mod_eq_of_lt]
  omega

theorem sigOpCountLoop_accurate_le {lastOpcode : UInt8} {rs : List GetOpResult}
    (hlen : 20 * rs.length < 2 ^ 32) :
    (sigOpCountLoop true lastOpcode rs).toNat ≤ (sigOpCountLoop false lastOpcode rs).toNat := by
  induction rs generalizing lastOpcode with
  | nil => exact Nat.le_refl _
  | cons r rs ih =>
    cases hok : r.ok with
    | false =>
      rw [sigOpCountLoop_cons, sigOpCountLoop_cons, if_pos (by rw [hok]; rfl),
        if_pos (by rw [hok]; rfl)]
    | true =>
      rw [sigOpCountLoop_cons_toNat hok hlen, sigOpCountLoop_cons_toNat hok hlen]
      rw [List.length_cons] at hlen
      exact Nat.add_le_add (opSigOpCount_le true lastOpcode r.opcode) (ih (by omega))

-- a two-of-two redeem script pushed last, and the pay-to-script-hash output it opens
example :
    CScript.getSigOpCountP2SH (OP_HASH160 :: 0x14 :: List.replicate 20 7 ++ [OP_EQUAL])
      [0x05, 0x52, 1, 9, 0x52, OP_CHECKMULTISIG] = 2 := by decide

/-! ## §4. Output patterns. -/

/-- The loop of `IsNormalPaymentScript`, at instruction number `i`. -/
def normalPaymentLoop : Nat → List GetOpResult → Bool
  | _, [] => true
  | i, r :: rs =>
    if i = 0 ∧ r.opcode ≠ OP_DUP then false
    else if i = 1 ∧ r.opcode ≠ OP_HASH160 then false
    else if i = 3 ∧ r.opcode ≠ OP_EQUALVERIFY then false
    else if i = 4 ∧ r.opcode ≠ OP_CHECKSIG then false
    else if i = 5 then false
    else normalPaymentLoop (i + 1) rs

def CScript.isNormalPaymentScript : Bool :=
  script.length == 25 && normalPaymentLoop 0 script.ops

/-- The address ids of the data pushes of a script, in order. -/
def pushedAddrIds (H : Hashes) (script : CScript) : List UInt160 :=
  script.ops.filterMap fun r =>
    if r.opcode ≤ OP_PUSHDATA4 ∧ 8 ≤ r.data.length then
      some (if r.data.length ≤ 20 then BitVec.ofNat 160 (ofLEBytes r.data)
        else H.hash160 r.data)
    else none

/-- `BuildAddrIndex`: the ids of the data pushes, or of the script itself when
it has none.  It never returns false. -/
def buildAddrIndex (H : Hashes) (script : CScript) : List UInt160 :=
  match pushedAddrIds H script with
  | [] => [H.hash160 script]
  | ids => ids

end Fantom.Core
