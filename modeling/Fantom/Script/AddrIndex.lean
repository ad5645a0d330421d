/-
  Fantom.Script.AddrIndex — The address index, and the destination of a script.

  * `extractDestination_mem_iff` — when the destination is among the ids.

  A push that is no key by its header still makes a script one that pays to a key.
-/
import Fantom.Lib.WhileLoop
import Fantom.Script.Sign
import Fantom.Script.Templates

namespace Fantom.Script

open Core Lib List Nat

variable (H : Hashes)

/-! ## §1. `ExtractDestination`. -/

/-- `CTxDestination`, as far as `ExtractDestination` gives one. -/
inductive CTxDestination
  | CKeyID (id : UInt160)
  | CScriptID (id : UInt160)
deriving DecidableEq, Repr

def CTxDestination.value : CTxDestination → UInt160
  | CKeyID id => id
  | CScriptID id => id

/-- `ExtractDestination` -/
def extractDestination (scriptPubKey : CScript) : Option CTxDestination :=
  match solver scriptPubKey with
  | none => none
  | some (whichType, vSolutions) =>
    if whichType = .TX_PUBKEY then
      some (.CKeyID (H.hash160 (CPubKey.ofVch (vSolutions.headD []))))
    else if whichType = .TX_PUBKEYHASH then some (.CKeyID (uint160 (vSolutions.headD [])))
    else if whichType = .TX_SCRIPTHASH then some (.CScriptID (uint160 (vSolutions.headD [])))
    else none

/-! ## §2. `BuildAddrIndex`. -/

variable (script : CScript)

/-- `n` bytes are read at `pc`; none past the end. -/
def readAt (pc n : Nat) : Option (List UInt8) :=
  if pc + n ≤ script.length then some ((script.drop pc).take n) else none

/-- What `GetOp2` returns, and where it leaves `pc`. -/
structure GetOp2Result where
  opcodeRet : UInt8
  vchRet : List UInt8
  fRet : Bool
  pc : Nat
deriving DecidableEq, Repr

def GetOp2Result.fail (pc : Nat) : GetOp2Result := ⟨OP_INVALIDOPCODE, [], false, pc⟩

variable (opcode : UInt8)

/-- The immediate operand; what is left is counted in an `unsigned int`. -/
def operandAt (nSize pc : Nat) : Option GetOp2Result :=
  if script.length < pc ∨ (script.length - pc) % 2 ^ 32 < nSize then some (.fail pc)
  else do
    let vchRet ← readAt script pc nSize
    return ⟨opcode, vchRet, true, pc + nSize⟩

/-- An operand behind a size of `w` bytes. -/
def sizedOperandAt (w pc : Nat) : Option GetOp2Result :=
  if script.length - pc < w then some (.fail pc)
  else do
    let nSize ← readAt script pc w
    operandAt script opcode (ofLEBytes nSize) (pc + w)

def instructionAt (pc : Nat) : Option GetOp2Result :=
  if opcode ≤ OP_PUSHDATA4 then
    if opcode < OP_PUSHDATA1 then operandAt script opcode opcode.toNat pc
    else if opcode = OP_PUSHDATA1 then sizedOperandAt script opcode 1 pc
    else if opcode = OP_PUSHDATA2 then sizedOperandAt script opcode 2 pc
    else sizedOperandAt script opcode 4 pc
  else some ⟨opcode, [], true, pc⟩

/-- `CScript::GetOp2`; none where it reads past the end. -/
def getOp2 (pc : Nat) : Option GetOp2Result :=
  if script.length ≤ pc then some (.fail pc)
  else (readAt script pc 1).bind fun opcode => instructionAt script (opcode.headD 0) (pc + 1)

/-- The variables of the loop. -/
structure AddrIndexState where
  pc : Nat
  addrIds : List UInt160
  fHaveData : Bool

def addrIdOf (data : List UInt8) : UInt160 :=
  if data.length ≤ 20 then BitVec.ofNat 160 (ofLEBytes data) else H.hash160 data

/-- `while (pc < pend)`, one turn; what follows it adds the script itself where it has no data
element.  The loop is left with none where a byte past the end is read. -/
def addrIndexTurn (s : AddrIndexState) : AddrIndexState ⊕ Option (List UInt160) :=
  if s.pc < script.length then
    match getOp2 script s.pc with
    | none => .inr none
    | some r =>
      if r.opcodeRet ≤ OP_PUSHDATA4 ∧ 8 ≤ r.vchRet.length then
        .inl ⟨r.pc, s.addrIds ++ [addrIdOf H r.vchRet], true⟩
      else .inl { s with pc := r.pc }
  else .inr (some (if s.fHaveData then s.addrIds else s.addrIds ++ [H.hash160 script]))

/-- `BuildAddrIndex(script, addrIds)` comes to an end, with these ids, or with none where it reads a
byte past the end. -/
def BuildsAddrIndex (addrIds : Option (List UInt160)) : Prop :=
  WhileLoop.Ends (addrIndexTurn H script) ⟨0, [], false⟩ addrIds

/-! ## §3. One instruction. -/

variable {H} {script : CScript}

/-- The result, with the bytes that are left in place of their address. -/
def GetOp2Result.at (r : GetOp2Result) (script : CScript) : GetOpResult :=
  ⟨r.opcodeRet, r.vchRet, r.fRet, script.drop r.pc⟩

/-- What there is to say about a read from `pc` on: it stays within the script, and it is the one
that is made on the bytes that are left, in a script whose length fits an `unsigned int`. -/
def ReadsAs (script : CScript) (pc : Nat) (read : Option GetOp2Result) (expected : GetOpResult) :
    Prop :=
  ∃ r, read = some r ∧ pc ≤ r.pc ∧ r.pc ≤ script.length ∧
    (script.length < 2 ^ 32 → r.at script = expected)

theorem readAt_eq {pc n : Nat} (h : pc + n ≤ script.length) :
    readAt script pc n = some ((script.drop pc).take n) :=
  if_pos h

theorem operandAt_reads (nSize : Nat) {pc : Nat} (hpc : pc ≤ script.length) : ReadsAs script pc
    (operandAt script opcode nSize pc) (getOperand opcode nSize (script.drop pc)) := by
  have hmod : (script.length - pc) % 2 ^ 32 ≤ script.length - pc := mod_le _ _
  unfold operandAt getOperand
  rw [length_drop]
  by_cases hshort : script.length < pc ∨ (script.length - pc) % 2 ^ 32 < nSize
  · rw [if_pos hshort]
    refine ⟨_, rfl, le_refl _, hpc, ?_⟩
    intro hfits
    rw [mod_eq_of_lt (by omega)] at hshort
    rw [if_pos (by omega)]
    rfl
  · rw [if_neg hshort, readAt_eq (by omega)]
    refine ⟨_, rfl, le_add_right _ _, ?_, ?_⟩
    · show pc + nSize ≤ script.length
      omega
    · intro hfits
      rw [mod_eq_of_lt (by omega)] at hshort
      rw [if_neg (by omega), drop_drop]
      rfl

theorem sizedOperandAt_reads (w : Nat) {pc : Nat} (hpc : pc ≤ script.length) :
    ReadsAs script pc (sizedOperandAt script opcode w pc)
      (if (script.drop pc).length < w then .fail (script.drop pc)
        else getOperand opcode (ofLEBytes ((script.drop pc).take w)) ((script.drop pc).drop w)) := by
  rw [sizedOperandAt, length_drop]
  by_cases hshort : script.length - pc < w
  · rw [if_pos hshort, if_pos hshort]
    exact ⟨_, rfl, le_refl _, hpc, fun _ => rfl⟩
  · rw [if_neg hshort, if_neg hshort, readAt_eq (by omega), drop_drop]
    obtain ⟨r, hr, hge, hle, hat⟩ := operandAt_reads opcode (ofLEBytes ((script.drop pc).take w))
      (show pc + w ≤ script.length by omega)
    exact ⟨r, hr, by omega, hle, hat⟩

/-- **One instruction** is read within the script, and takes at least its opcode. -/
theorem getOp2_spec {pc : Nat} (hpc : pc < script.length) :
    ReadsAs script (pc + 1) (getOp2 script pc) (getOp (script.drop pc)) := by
  obtain ⟨opcode, hdrop⟩ : ∃ opcode, script.drop pc = opcode :: script.drop (pc + 1) :=
    ⟨_, drop_eq_getElem_cons hpc⟩
  have hopcode : readAt script pc 1 = some [opcode] := by
    rw [readAt_eq (by omega), hdrop]
    rfl
  rw [hdrop]
  unfold getOp2 getOp
  rw [if_neg (by omega), hopcode]
  show ReadsAs script (pc + 1) (instructionAt script opcode (pc + 1)) _
  unfold instructionAt
  dsimp only
  by_cases hpush : opcode ≤ OP_PUSHDATA4
  · rw [if_pos hpush, if_pos hpush]
    by_cases hdirect : opcode < OP_PUSHDATA1
    · rw [if_pos hdirect, if_pos hdirect]
      exact operandAt_reads opcode opcode.toNat hpc
    rw [if_neg hdirect, if_neg hdirect]
    by_cases hdata1 : opcode = OP_PUSHDATA1
    · rw [if_pos hdata1, if_pos hdata1]
      have hsized : ReadsAs script (pc + 1) (sizedOperandAt script opcode 1 (pc + 1)) _ :=
        sizedOperandAt_reads opcode 1 hpc
      -- the one byte of the size is there, or not
      cases hrest : script.drop (pc + 1) with
      | nil =>
        rw [hrest] at hsized
        exact hsized
      | cons nSize rest =>
        have hsize : ofLEBytes ((nSize :: rest).take 1) = nSize.toNat := by
          show nSize.toNat + 256 * 0 = _
          rfl
        rw [hrest, if_neg (by simp), hsize] at hsized
        exact hsized
    rw [if_neg hdata1, if_neg hdata1]
    by_cases hdata2 : opcode = OP_PUSHDATA2
    · rw [if_pos hdata2, if_pos hdata2]
      exact sizedOperandAt_reads opcode 2 hpc
    · rw [if_neg hdata2, if_neg hdata2]
      exact sizedOperandAt_reads opcode 4 hpc
  · rw [if_neg hpush, if_neg hpush]
    exact ⟨_, rfl, le_refl _, hpc, fun _ => rfl⟩

/-! ## §4. The loop. -/

/-- **The loop ends within the script**, whatever its bytes are. -/
theorem buildAddrIndex_ends (script : CScript) :
    ∃ addrIds, BuildsAddrIndex H script (some addrIds) := by
  have hend : ∃ r, BuildsAddrIndex H script r ∧ r.isSome = true := by
    apply WhileLoop.ends_of_measure (I := fun s => s.pc ≤ script.length)
      (fun s => script.length - s.pc)
    · intro s s' _ hturn
      unfold addrIndexTurn at hturn
      split at hturn
      next hlt =>
        obtain ⟨r, hr, hge, hle, _⟩ := getOp2_spec hlt
        rw [hr] at hturn
        dsimp only at hturn
        split at hturn
        next =>
          cases hturn
          exact ⟨hle, by show script.length - r.pc < _; omega⟩
        next =>
          cases hturn
          exact ⟨hle, by show script.length - r.pc < _; omega⟩
      next => exact nomatch hturn
    · intro s out _ hturn
      unfold addrIndexTurn at hturn
      split at hturn
      next hlt =>
        -- an instruction is read, and the loop goes on
        obtain ⟨r, hr, _⟩ := getOp2_spec hlt
        rw [hr] at hturn
        dsimp only at hturn
        split at hturn <;> exact nomatch hturn
      next =>
        cases hturn
        rfl
    · exact zero_le _
  obtain ⟨r, hr, hsome⟩ := hend
  obtain ⟨addrIds, rfl⟩ := Option.isSome_iff_exists.mp hsome
  exact ⟨addrIds, hr⟩

/-- The id of an instruction, if it is a data element. -/
def opAddrId (H : Hashes) (r : GetOpResult) : Option UInt160 :=
  if r.opcode ≤ OP_PUSHDATA4 ∧ 8 ≤ r.data.length then some (addrIdOf H r.data) else none

theorem pushedAddrIds_eq (script : CScript) :
    pushedAddrIds H script = (CScript.ops script).filterMap (opAddrId H) := rfl

/-- The ids after the loop: the script itself where there is no data element. -/
def finalAddrIds (H : Hashes) (script : CScript) (addrIds : List UInt160) (fHaveData : Bool) :
    List UInt160 :=
  if fHaveData then addrIds else addrIds ++ [H.hash160 script]

theorem addrIndexTurn_ends (hfits : script.length < 2 ^ 32) {pc : Nat} (hpc : pc ≤ script.length)
    (addrIds : List UInt160) (fHaveData : Bool) :
    WhileLoop.Ends (addrIndexTurn H script) ⟨pc, addrIds, fHaveData⟩
      (some (finalAddrIds H script
        (addrIds ++ (CScript.ops (script.drop pc)).filterMap (opAddrId H))
        (fHaveData || !((CScript.ops (script.drop pc)).filterMap (opAddrId H)).isEmpty))) := by
  -- on what is left of the script
  induction hleft : script.length - pc using Nat.strongRecOn generalizing pc addrIds fHaveData with
  | ind left ih =>
    by_cases hlt : pc < script.length
    · obtain ⟨r, hr, hge, hle, hat⟩ := getOp2_spec hlt
      have hop : getOp (script.drop pc) = r.at script := (hat hfits).symm
      have hops :
          CScript.ops (script.drop pc) = r.at script :: CScript.ops (script.drop r.pc) := by
        obtain ⟨opcode, hdrop⟩ : ∃ opcode, script.drop pc = opcode :: script.drop (pc + 1) :=
          ⟨_, drop_eq_getElem_cons hlt⟩
        rw [hdrop] at hop ⊢
        rw [ops_cons, hop]
        rfl
      have hrest := ih (script.length - r.pc) (by omega) hle
      rw [hops, filterMap_cons]
      by_cases hdata : r.opcodeRet ≤ OP_PUSHDATA4 ∧ 8 ≤ r.vchRet.length
      · have hid : opAddrId H (r.at script) = some (addrIdOf H r.vchRet) := if_pos hdata
        have hturn : addrIndexTurn H script ⟨pc, addrIds, fHaveData⟩ =
            .inl ⟨r.pc, addrIds ++ [addrIdOf H r.vchRet], true⟩ := by
          rw [addrIndexTurn, if_pos hlt, hr]
          exact if_pos hdata
        rw [hid, WhileLoop.ends_inl_iff hturn]
        simpa using hrest (addrIds ++ [addrIdOf H r.vchRet]) true rfl
      · have hid : opAddrId H (r.at script) = none := if_neg hdata
        have hturn : addrIndexTurn H script ⟨pc, addrIds, fHaveData⟩ =
            .inl ⟨r.pc, addrIds, fHaveData⟩ := by
          rw [addrIndexTurn, if_pos hlt, hr]
          exact if_neg hdata
        rw [hid, WhileLoop.ends_inl_iff hturn]
        exact hrest addrIds fHaveData rfl
    · have hnil : script.drop pc = [] := drop_eq_nil_of_le (by omega)
      rw [hnil]
      show WhileLoop.Ends _ _ (some (finalAddrIds H script (addrIds ++ []) (fHaveData || false)))
      rw [append_nil, Bool.or_false]
      have hturn : addrIndexTurn H script ⟨pc, addrIds, fHaveData⟩ =
          .inr (some (finalAddrIds H script addrIds fHaveData)) := if_neg hlt
      exact (WhileLoop.ends_inr_iff hturn).mpr rfl

/-- **`BuildAddrIndex`**: the ids of the data elements, or that of the script. -/
theorem buildsAddrIndex_iff (hfits : script.length < 2 ^ 32) (addrIds : Option (List UInt160)) :
    BuildsAddrIndex H script addrIds ↔ addrIds = some (buildAddrIndex H script) := by
  have hends := addrIndexTurn_ends (H := H) hfits (zero_le script.length) [] false
  have hfinal : finalAddrIds H script
      ([] ++ (CScript.ops (script.drop 0)).filterMap (opAddrId H))
      (false || !((CScript.ops (script.drop 0)).filterMap (opAddrId H)).isEmpty) =
        buildAddrIndex H script := by
    unfold buildAddrIndex finalAddrIds
    rw [pushedAddrIds_eq, drop_zero, nil_append]
    cases (CScript.ops script).filterMap (opAddrId H) <;> rfl
  rw [hfinal] at hends
  constructor
  · intro h
    exact h.unique hends
  · intro h
    exact h ▸ hends

/-! ## §5. Destinations. -/

/-- A script that pays to a key by its form, and what it pushes for the key. -/
def PaysToPubKey (script : CScript) (vch : Valtype) : Prop :=
  solver script = some (.TX_PUBKEY, [vch])

/-- A key that the script pays to is one by its header, or has the id of no key at all. -/
def KeyIsOne (H : Hashes) (script : CScript) : Prop :=
  ∀ vch, PaysToPubKey script vch → pubKeyIsValid vch = true ∨ H.hash160 vch = H.hash160 []

theorem mem_buildAddrIndex_of_push {r : GetOpResult} (hr : r ∈ CScript.ops script)
    (hpush : IsPush r.data r) (hlen : 8 ≤ r.data.length) :
    addrIdOf H r.data ∈ buildAddrIndex H script := by
  have hmem : addrIdOf H r.data ∈ pushedAddrIds H script := by
    rw [pushedAddrIds_eq, mem_filterMap]
    exact ⟨r, hr, if_pos ⟨hpush.opcode_le, hlen⟩⟩
  unfold buildAddrIndex
  cases hids : pushedAddrIds H script with
  | nil =>
    rw [hids] at hmem
    exact nomatch hmem
  | cons id ids =>
    rw [hids] at hmem
    exact hmem

theorem buildAddrIndex_of_pubKey {vch : Valtype} (h : PaysToPubKey script vch) :
    buildAddrIndex H script = [H.hash160 vch] ∧ script.length < 2 ^ 32 := by
  obtain ⟨r, rc, hops, hout, hpush, hsize, hcheck⟩ := ops_of_pubKey h
  obtain rfl : vch = r.data := (cons.inj hout).1
  have hlen : 33 ≤ r.data.length ∧ r.data.length ≤ 120 := by
    rw [isPubKeySize, Bool.and_eq_true, decide_eq_true_eq, decide_eq_true_eq] at hsize
    exact hsize
  constructor
  · have hkey : opAddrId H r = some (H.hash160 r.data) := by
      have hid : addrIdOf H r.data = H.hash160 r.data := if_neg (by omega)
      rw [← hid]
      exact if_pos ⟨hpush.opcode_le, by omega⟩
    have hplain : opAddrId H rc = none := by
      apply if_neg
      rw [hcheck.data_eq]
      simp
    rw [buildAddrIndex, pushedAddrIds_eq, hops, filterMap_cons, hkey, filterMap_cons, hplain]
    rfl
  · have hbytes := length_le_ops script
    rw [hops] at hbytes
    simp only [map_cons, map_nil, sum_cons, sum_nil, hcheck.data_eq,
      length_nil] at hbytes
    omega

theorem addrIdOf_hash {data : Valtype} (h : data.length = 20) : addrIdOf H data = uint160 data := by
  unfold addrIdOf uint160
  rw [if_pos (by omega), if_pos h]

theorem mem_buildAddrIndex_of_pubKeyHash {vch : Valtype}
    (h : solver script = some (.TX_PUBKEYHASH, [vch])) :
    uint160 vch ∈ buildAddrIndex H script ∧ script.length < 2 ^ 32 := by
  obtain ⟨r1, r2, r, r4, rc, hops, hout, hdup, hhash, hpush, hlen, heq, hcheck⟩ :=
    ops_of_pubKeyHash h
  obtain rfl : vch = r.data := (cons.inj hout).1
  constructor
  · rw [← addrIdOf_hash hlen]
    apply mem_buildAddrIndex_of_push _ hpush (by omega)
    rw [hops]
    simp
  · have hbytes := length_le_ops script
    rw [hops] at hbytes
    simp only [map_cons, map_nil, sum_cons, sum_nil, hdup.data_eq,
      hhash.data_eq, heq.data_eq, hcheck.data_eq, length_nil] at hbytes
    omega

theorem mem_buildAddrIndex_of_scriptHash (h : CScript.isPayToScriptHash script = true) :
    uint160 ((script.drop 2).take 20) ∈ buildAddrIndex H script ∧ script.length < 2 ^ 32 := by
  obtain ⟨r1, r, r3, hops, hhash, hpush, heq, hlen⟩ := ops_of_scriptHash h
  have hdata : ((script.drop 2).take 20).length = 20 := by
    rw [length_take, length_drop]
    omega
  refine ⟨?_, by omega⟩
  rw [← addrIdOf_hash hdata, ← hpush.data_eq]
  have hlen20 : r.data.length = 20 := by rw [hpush.data_eq, hdata]
  apply mem_buildAddrIndex_of_push _ ⟨hpush.ok, hpush.opcode_le, rfl⟩ (by omega)
  rw [hops]
  simp

/-- **The address index and the destination.**  `BuildAddrIndex` comes to an end on every byte
string, with ids that are settled by it, and reads no byte past its end.  The destination of a
script is among the ids exactly when the script does not pay to a key that is none by its header,
hash values that agree by chance apart. -/
theorem extractDestination_mem_iff (H : Hashes) (script : CScript) :
    ∃ addrIds, (∀ r, BuildsAddrIndex H script r ↔ r = some addrIds) ∧
      ((∀ d, extractDestination H script = some d → d.value ∈ addrIds) ↔ KeyIsOne H script) := by
  obtain ⟨addrIds, hends⟩ := buildAddrIndex_ends (H := H) script
  refine ⟨addrIds, ?_, ?_⟩
  · intro r
    constructor
    · intro hr
      exact hr.unique hends
    · intro hr
      exact hr ▸ hends
  have hids : script.length < 2 ^ 32 → addrIds = buildAddrIndex H script := by
    intro hfits
    exact Option.some.inj ((buildsAddrIndex_iff hfits _).mp hends)
  -- a script that does not pay to a key has no key to be one
  have hother : ∀ t out, solver script = some (t, out) → t ≠ .TX_PUBKEY → KeyIsOne H script := by
    intro t out hsolver hne vch hpays
    rw [PaysToPubKey, hsolver] at hpays
    exact absurd (Prod.mk.inj (Option.some.inj hpays)).1 hne
  have hvalue : ∀ d, extractDestination H script = some d →
      ((∀ d', extractDestination H script = some d' → d'.value ∈ addrIds) ↔ d.value ∈ addrIds) := by
    intro d hd
    constructor
    · intro h
      exact h d hd
    · intro h d' hd'
      rw [hd] at hd'
      exact Option.some.inj hd' ▸ h
  cases hsolver : solver script with
  | none =>
    have hnone : extractDestination H script = none := by rw [extractDestination, hsolver]
    constructor
    · intro _ vch hpays
      rw [PaysToPubKey, hsolver] at hpays
      exact nomatch hpays
    · intro _ d hd
      rw [hnone] at hd
      exact nomatch hd
  | some found =>
    obtain ⟨t, out⟩ := found
    have hnone : extractDestination H script = none → t ≠ .TX_PUBKEY →
        ((∀ d, extractDestination H script = some d → d.value ∈ addrIds) ↔
          KeyIsOne H script) := by
      intro hnone hne
      refine ⟨fun _ => hother t out hsolver hne, ?_⟩
      intro _ d hd
      rw [hnone] at hd
      exact nomatch hd
    have hextract : extractDestination H script =
        if t = .TX_PUBKEY then some (.CKeyID (H.hash160 (CPubKey.ofVch (out.headD []))))
        else if t = .TX_PUBKEYHASH then some (.CKeyID (uint160 (out.headD [])))
        else if t = .TX_SCRIPTHASH then some (.CScriptID (uint160 (out.headD [])))
        else none := by
      rw [extractDestination, hsolver]
    cases t with
    | TX_PUBKEY =>
      obtain ⟨r, _, _, rfl, _⟩ := ops_of_pubKey hsolver
      obtain ⟨hbuild, hfits⟩ := buildAddrIndex_of_pubKey (H := H) hsolver
      rw [hvalue _ hextract, hids hfits, hbuild, mem_singleton]
      show H.hash160 (CPubKey.ofVch r.data) = H.hash160 r.data ↔ KeyIsOne H script
      unfold CPubKey.ofVch
      by_cases hvalid : pubKeyIsValid r.data = true
      · rw [if_pos hvalid]
        refine ⟨fun _ vch hpays => .inl ?_, fun _ => rfl⟩
        rw [PaysToPubKey, hsolver] at hpays
        obtain rfl := (cons.inj (Prod.mk.inj (Option.some.inj hpays)).2).1
        exact hvalid
      · rw [if_neg hvalid]
        constructor
        · intro hhash vch hpays
          rw [PaysToPubKey, hsolver] at hpays
          obtain rfl := (cons.inj (Prod.mk.inj (Option.some.inj hpays)).2).1
          exact .inr hhash.symm
        · intro hone
          cases hone r.data hsolver with
          | inl hkey => exact absurd hkey hvalid
          | inr hhash => exact hhash.symm
    | TX_PUBKEYHASH =>
      obtain ⟨_, _, r, _, _, _, rfl, _⟩ := ops_of_pubKeyHash hsolver
      obtain ⟨hmem, hfits⟩ := mem_buildAddrIndex_of_pubKeyHash (H := H) hsolver
      rw [hvalue _ hextract, hids hfits]
      exact ⟨fun _ => hother _ _ hsolver (by decide), fun _ => hmem⟩
    | TX_SCRIPTHASH =>
      have hp2sh := (solver_eq_scriptHash hsolver).mp rfl
      have hout : out = [(script.drop 2).take 20] := by
        rw [solver, if_pos hp2sh] at hsolver
        exact (Prod.mk.inj (Option.some.inj hsolver)).2.symm
      subst hout
      obtain ⟨hmem, hfits⟩ := mem_buildAddrIndex_of_scriptHash (H := H) hp2sh
      rw [hvalue _ hextract, hids hfits]
      exact ⟨fun _ => hother _ _ hsolver (by decide), fun _ => hmem⟩
    | TX_NONSTANDARD => exact hnone hextract (by decide)
    | TX_MULTISIG => exact hnone hextract (by decide)
    | TX_NULL_DATA => exact hnone hextract (by decide)

def zeroKeyHashes : Hashes where
  hash _ := 0
  hash160 bs :=
    if bs = [] then 0xcb9f3b7c6fb1cf2c13a40637c189bdd066a272b4
    else 0xeffea2ffac8eed29b1b4ee5184a7556237c6cf29
  velvetHash _ _ := 0

def zeroKeyScript : CScript := 0x21 :: replicate 33 0 ++ [OP_CHECKSIG]

/-- **A payment that is missed**: the destination is the id of no key at all, the index has that of
the zeros. -/
theorem zeroKeyScript_not_indexed :
    extractDestination zeroKeyHashes zeroKeyScript =
        some (.CKeyID 0xcb9f3b7c6fb1cf2c13a40637c189bdd066a272b4) ∧
      BuildsAddrIndex zeroKeyHashes zeroKeyScript
        (some [0xeffea2ffac8eed29b1b4ee5184a7556237c6cf29]) ∧
      (0xcb9f3b7c6fb1cf2c13a40637c189bdd066a272b4 : UInt160) ∉
        [(0xeffea2ffac8eed29b1b4ee5184a7556237c6cf29 : UInt160)] := by
  refine ⟨by decide +kernel, ?_, by decide +kernel⟩
  rw [buildsAddrIndex_iff (by decide +kernel)]
  decide +kernel

end Fantom.Script
