/-
  Fantom.Script.Templates — The instructions of a script that `Solver` recognizes.

  * `ops_of_pubKey`, `ops_of_pubKeyHash`, `ops_of_multiSig` — the forms that keys can sign for, as
    their instructions with the solutions in them.
-/
import Fantom.Core.Decoding
import Fantom.Script.Standard

namespace Fantom.Script

open Core List Option

/-! ## §1. One round. -/

variable {script pc1 pc2 : CScript} {vSolutions out : List Valtype} {fuel : Nat} {op2 : UInt8}

/-- An instruction that is an opcode alone. -/
structure IsOp (opcode : UInt8) (r : GetOpResult) : Prop where
  ok : r.ok = true
  opcode_eq : r.opcode = opcode
  data_eq : r.data = []

/-- A push of `data`. -/
structure IsPush (data : Valtype) (r : GetOpResult) : Prop where
  ok : r.ok = true
  opcode_le : r.opcode ≤ OP_PUSHDATA4
  data_eq : r.data = data

/-- `OP_n`, for a number from one on. -/
structure IsNumber (n : UInt8) (r : GetOpResult) : Prop where
  ok : r.ok = true
  range : OP_1 ≤ r.opcode ∧ r.opcode ≤ OP_16
  toNat_eq : n.toNat = r.opcode.toNat - 80
  data_eq : r.data = []

theorem isNumber_of_smallInteger {pc : CScript} {n : UInt8} (hok : (getOp pc).ok = true)
    (h : smallInteger (getOp pc).opcode = some n) (hpos : 1 ≤ n) : IsNumber n (getOp pc) := by
  unfold smallInteger at h
  split at h
  next =>
    cases h
    exact absurd hpos (by decide)
  next =>
    split at h
    next hrange =>
      cases h
      refine ⟨hok, hrange, ?_, ?_⟩
      · have hlow : OP_1.toNat ≤ (getOp pc).opcode.toNat := UInt8.le_iff_toNat_le.mp hrange.1
        have hone : OP_1.toNat = 81 := rfl
        have hsub : (OP_1 - 1).toNat = 80 := rfl
        rw [UInt8.toNat_sub_of_le, hsub]
        rw [UInt8.le_iff_toNat_le, hsub]
        omega
      · by_contra hdata
        have hpush := (getOp_data hdata).2
        exact absurd (UInt8.le_trans hrange.1 hpush) (by decide)
    next => cases h

theorem matchTemplate_nil (h : matchTemplate fuel pc1 [] vSolutions = some out) :
    pc1 = [] ∧ out = vSolutions := by
  cases fuel with
  | zero => cases h
  | succ fuel =>
    unfold matchTemplate at h
    cases pc1 with
    | nil => exact ⟨rfl, (Option.some.inj h).symm⟩
    | cons opcode pc1 =>
      rw [if_neg (by simp)] at h
      dsimp only at h
      rw [if_pos (by rw [show getOp [] = GetOpResult.fail [] from rfl]; simp [GetOpResult.fail])]
        at h
      cases h

theorem matchTemplate_cons_eq (hop : ¬op2 ≤ OP_PUSHDATA4) (hkeys : op2 ≠ OP_PUBKEYS)
    (hok : (getOp pc1).ok = true) :
    matchTemplate (fuel + 1) pc1 (op2 :: pc2) vSolutions =
      (matchOp (getOp pc1) ⟨op2, [], true, pc2⟩ vSolutions).bind
        (matchTemplate fuel (getOp pc1).rest pc2) := by
  rw [matchTemplate, if_neg (by simp)]
  dsimp only
  rw [getOp_plain hop, if_neg (by rw [hok]; simp), if_neg hkeys]

theorem matchTemplate_ok
    (h : matchTemplate (fuel + 1) pc1 (op2 :: pc2) vSolutions = some out) :
    (getOp pc1).ok = true := by
  by_contra hfail
  rw [matchTemplate, if_neg (by simp)] at h
  dsimp only at h
  rw [if_pos (by rw [Bool.not_eq_true] at hfail; rw [hfail]; rfl)] at h
  cases h

theorem matchTemplate_cons (hop : ¬op2 ≤ OP_PUSHDATA4) (hkeys : op2 ≠ OP_PUBKEYS)
    (h : matchTemplate (fuel + 1) pc1 (op2 :: pc2) vSolutions = some out) :
    (getOp pc1).ok = true ∧
      ∃ vSolutions', matchOp (getOp pc1) ⟨op2, [], true, pc2⟩ vSolutions = some vSolutions' ∧
        matchTemplate fuel (getOp pc1).rest pc2 vSolutions' = some out := by
  have hok := matchTemplate_ok h
  rw [matchTemplate_cons_eq hop hkeys hok] at h
  exact ⟨hok, bind_eq_some_iff.mp h⟩

theorem matchTemplate_pubKeys_eq (hop : ¬op2 ≤ OP_PUSHDATA4) (hok : (getOp pc1).ok = true) :
    matchTemplate (fuel + 1) pc1 (OP_PUBKEYS :: op2 :: pc2) vSolutions =
      let (r, keys) := takePubKeys pc1.length (getOp pc1) vSolutions
      (matchOp r ⟨op2, [], true, pc2⟩ keys).bind (matchTemplate fuel r.rest pc2) := by
  rw [matchTemplate, if_neg (by simp)]
  dsimp only
  rw [getOp_plain (show ¬OP_PUBKEYS ≤ OP_PUSHDATA4 by decide), getOp_plain hop,
    if_neg (by rw [hok]; simp), if_pos rfl, if_neg (by simp)]

theorem matchTemplate_pubKeys (hop : ¬op2 ≤ OP_PUSHDATA4)
    (h : matchTemplate (fuel + 1) pc1 (OP_PUBKEYS :: op2 :: pc2) vSolutions = some out) :
    (getOp pc1).ok = true ∧
      ∃ r keys vSolutions', takePubKeys pc1.length (getOp pc1) vSolutions = (r, keys) ∧
        matchOp r ⟨op2, [], true, pc2⟩ keys = some vSolutions' ∧
        matchTemplate fuel r.rest pc2 vSolutions' = some out := by
  have hok := matchTemplate_ok h
  rw [matchTemplate_pubKeys_eq hop hok] at h
  obtain ⟨vSolutions', hmatch, hrest⟩ := bind_eq_some_iff.mp h
  exact ⟨hok, _, _, vSolutions', rfl, hmatch, hrest⟩

variable {r : GetOpResult} {rest : CScript}

theorem matchOp_pubKey (h : matchOp r ⟨OP_PUBKEY, [], true, rest⟩ vSolutions = some out) :
    isPubKeySize r.data = true ∧ out = vSolutions ++ [r.data] := by
  rw [matchOp, if_pos rfl] at h
  split at h
  next hsize => exact ⟨hsize, (Option.some.inj h).symm⟩
  next => cases h

theorem matchOp_pubKeyHash (h : matchOp r ⟨OP_PUBKEYHASH, [], true, rest⟩ vSolutions = some out) :
    r.data.length = 20 ∧ out = vSolutions ++ [r.data] := by
  rw [matchOp, if_neg (show OP_PUBKEYHASH ≠ OP_PUBKEY by decide), if_pos rfl] at h
  split at h
  next hsize => exact ⟨hsize, (Option.some.inj h).symm⟩
  next => cases h

theorem matchOp_smallInteger
    (h : matchOp r ⟨OP_SMALLINTEGER, [], true, rest⟩ vSolutions = some out) :
    ∃ n, smallInteger r.opcode = some n ∧ out = vSolutions ++ [[n]] := by
  rw [matchOp, if_neg (show OP_SMALLINTEGER ≠ OP_PUBKEY by decide),
    if_neg (show OP_SMALLINTEGER ≠ OP_PUBKEYHASH by decide), if_pos rfl] at h
  obtain ⟨n, hn, hout⟩ := map_eq_some_iff.mp h
  exact ⟨n, hn, hout.symm⟩

theorem matchOp_smallData (h : matchOp r ⟨OP_SMALLDATA, [], true, rest⟩ vSolutions = some out) :
    r.data.length ≤ MAX_OP_RETURN_RELAY ∧ out = vSolutions := by
  rw [matchOp, if_neg (show OP_SMALLDATA ≠ OP_PUBKEY by decide),
    if_neg (show OP_SMALLDATA ≠ OP_PUBKEYHASH by decide),
    if_neg (show OP_SMALLDATA ≠ OP_SMALLINTEGER by decide), if_pos rfl] at h
  split at h
  next => cases h
  next hsize => exact ⟨Nat.not_lt.mp hsize, (Option.some.inj h).symm⟩

theorem matchOp_literal (hop : op2 < OP_SMALLDATA)
    (h : matchOp r ⟨op2, [], true, rest⟩ vSolutions = some out) :
    r.opcode = op2 ∧ r.data = [] ∧ out = vSolutions := by
  have hne {opcode : UInt8} (hle : OP_SMALLDATA ≤ opcode) : op2 ≠ opcode := by
    rintro rfl
    exact UInt8.not_le.mpr hop hle
  rw [matchOp, if_neg (hne (by decide)), if_neg (hne (by decide)), if_neg (hne (by decide)),
    if_neg (hne (by decide))] at h
  split at h
  next => cases h
  next heq =>
    rw [not_or, not_not, not_not] at heq
    exact ⟨heq.1, heq.2, (Option.some.inj h).symm⟩

/-! ## §2. The keys of a template. -/

theorem isPubKeySize_ne_nil {data : Valtype} (h : isPubKeySize data = true) : data ≠ [] := by
  rintro rfl
  cases h

theorem isPubKeySize_le {data : Valtype} (h : isPubKeySize data = true) :
    data.length ≤ MAX_SCRIPT_ELEMENT_SIZE := by
  have hmax : MAX_SCRIPT_ELEMENT_SIZE = 520 := rfl
  rw [isPubKeySize, Bool.and_eq_true, decide_eq_true_eq, decide_eq_true_eq] at h
  omega

theorem takePubKeys_spec {fuel : Nat} {pc : CScript} (hpc : (getOp pc).ok = true)
    {keys : List Valtype} (h : takePubKeys fuel (getOp pc) vSolutions = (r, keys)) :
    ∃ kops : List GetOpResult,
      keys = vSolutions ++ kops.map GetOpResult.data ∧
      (∀ k ∈ kops, IsPush k.data k ∧ isPubKeySize k.data = true) ∧
      (∃ pc', r = getOp pc') ∧
      (r.ok = true → CScript.ops pc = kops ++ r :: CScript.ops r.rest) := by
  induction fuel generalizing pc vSolutions with
  | zero =>
    cases h
    exact ⟨[], by simp, by simp, ⟨pc, rfl⟩, fun hok => ops_of_ok hok⟩
  | succ fuel ih =>
    unfold takePubKeys at h
    split at h
    next hsize =>
      have hdata := getOp_data (isPubKeySize_ne_nil hsize)
      have hkey : IsPush (getOp pc).data (getOp pc) ∧ isPubKeySize (getOp pc).data = true :=
        ⟨⟨hdata.1, hdata.2, rfl⟩, hsize⟩
      dsimp only at h
      split at h
      next hnext =>
        obtain ⟨kops, hkeys, hall, hr, hops⟩ := ih hnext h
        refine ⟨getOp pc :: kops, ?_, ?_, hr, fun hok => ?_⟩
        · rw [hkeys, map_cons, append_assoc, singleton_append]
        · intro k hk
          rcases mem_cons.mp hk with rfl | hk
          · exact hkey
          · exact hall k hk
        · rw [ops_of_ok hpc, hops hok, cons_append]
      next hnext =>
        cases h
        refine ⟨[getOp pc], rfl, ?_, ⟨_, rfl⟩, fun hok => absurd hok hnext⟩
        intro k hk
        rw [mem_singleton.mp hk]
        exact hkey
    next =>
      cases h
      exact ⟨[], by simp, by simp, ⟨pc, rfl⟩, fun hok => ops_of_ok hok⟩

/-! ## §3. The forms. -/

theorem solver_template {t : TxnOutType} (ht : t ≠ .TX_SCRIPTHASH)
    (h : solver script = some (t, out)) :
    ∃ tplate, (t, tplate) ∈ mTemplates ∧
      matchTemplate (tplate.length + 1) script tplate [] = some out ∧
      (t = .TX_MULTISIG → multiSigCounts out = true) := by
  unfold solver at h
  split at h
  next => exact absurd (Prod.mk.inj (Option.some.inj h)).1.symm ht
  next =>
    split at h
    next => cases h
    next typeRet found hfind =>
      obtain ⟨tplate, hmem, hmatch⟩ := exists_of_findSome?_eq_some hfind
      obtain ⟨sols, hsols, hpair⟩ := map_eq_some_iff.mp hmatch
      cases hpair
      split at h
      next => cases h
      next hcounts =>
        cases h
        refine ⟨tplate.2, hmem, hsols, fun hmulti => ?_⟩
        rw [not_and, Bool.not_eq_true', Bool.not_eq_false] at hcounts
        exact hcounts hmulti

theorem ops_of_literal (hop : ¬op2 ≤ OP_PUSHDATA4) (hlow : op2 < OP_SMALLDATA)
    (h : matchTemplate (fuel + 1) pc1 (op2 :: pc2) vSolutions = some out) :
    IsOp op2 (getOp pc1) ∧ CScript.ops pc1 = getOp pc1 :: CScript.ops (getOp pc1).rest ∧
      matchTemplate fuel (getOp pc1).rest pc2 vSolutions = some out := by
  have hkeys : op2 ≠ OP_PUBKEYS := by
    rintro rfl
    exact absurd hlow (by decide)
  obtain ⟨hok, vSolutions', hmatch, hrest⟩ := matchTemplate_cons hop hkeys h
  obtain ⟨hopcode, hdata, rfl⟩ := matchOp_literal hlow hmatch
  exact ⟨⟨hok, hopcode, hdata⟩, ops_of_ok hok, hrest⟩

theorem ops_of_last (hop : ¬op2 ≤ OP_PUSHDATA4) (hlow : op2 < OP_SMALLDATA)
    (h : matchTemplate (fuel + 1) pc1 [op2] vSolutions = some out) :
    IsOp op2 (getOp pc1) ∧ CScript.ops pc1 = [getOp pc1] ∧ out = vSolutions := by
  obtain ⟨hisop, hops, hrest⟩ := ops_of_literal hop hlow h
  obtain ⟨hnil, hout⟩ := matchTemplate_nil hrest
  refine ⟨hisop, ?_, hout⟩
  rw [hops, hnil]
  rfl

theorem ops_of_pubKey (h : solver script = some (.TX_PUBKEY, out)) :
    ∃ r rc, CScript.ops script = [r, rc] ∧ out = [r.data] ∧ IsPush r.data r ∧
      isPubKeySize r.data = true ∧ IsOp OP_CHECKSIG rc := by
  obtain ⟨tplate, hmem, hmatch, _⟩ := solver_template (by decide) h
  obtain rfl : tplate = [OP_PUBKEY, OP_CHECKSIG] := by simpa [mTemplates] using hmem
  obtain ⟨hok, sols, hkey, hrest⟩ := matchTemplate_cons (by decide) (by decide) hmatch
  obtain ⟨hsize, rfl⟩ := matchOp_pubKey hkey
  obtain ⟨hcheck, hlast, rfl⟩ := ops_of_last (by decide) (by decide) hrest
  have hdata := getOp_data (isPubKeySize_ne_nil hsize)
  refine ⟨_, _, ?_, rfl, ⟨hok, hdata.2, rfl⟩, hsize, hcheck⟩
  rw [ops_of_ok hok, hlast]

theorem ops_of_pubKeyHash (h : solver script = some (.TX_PUBKEYHASH, out)) :
    ∃ r1 r2 r r4 rc, CScript.ops script = [r1, r2, r, r4, rc] ∧ out = [r.data] ∧
      IsOp OP_DUP r1 ∧ IsOp OP_HASH160 r2 ∧ IsPush r.data r ∧ r.data.length = 20 ∧
      IsOp OP_EQUALVERIFY r4 ∧ IsOp OP_CHECKSIG rc := by
  obtain ⟨tplate, hmem, hmatch, _⟩ := solver_template (by decide) h
  obtain rfl : tplate = [OP_DUP, OP_HASH160, OP_PUBKEYHASH, OP_EQUALVERIFY, OP_CHECKSIG] := by
    simpa [mTemplates] using hmem
  obtain ⟨hdup, hops1, hmatch⟩ := ops_of_literal (by decide) (by decide) hmatch
  obtain ⟨hhash, hops2, hmatch⟩ := ops_of_literal (by decide) (by decide) hmatch
  obtain ⟨hok, sols, hkey, hmatch⟩ := matchTemplate_cons (by decide) (by decide) hmatch
  obtain ⟨hlen, rfl⟩ := matchOp_pubKeyHash hkey
  obtain ⟨heq, hops4, hmatch⟩ := ops_of_literal (by decide) (by decide) hmatch
  obtain ⟨hcheck, hlast, rfl⟩ := ops_of_last (by decide) (by decide) hmatch
  have hdata := getOp_data (ne_nil_of_length_pos (by omega : 0 < (getOp
    (getOp (getOp script).rest).rest).data.length))
  refine ⟨_, _, _, _, _, ?_, rfl, hdup, hhash, ⟨hok, hdata.2, rfl⟩, hlen, heq, hcheck⟩
  rw [hops1, hops2, ops_of_ok hok, hops4, hlast]

/-- `OP_m <key> … <key> OP_n OP_CHECKMULTISIG`, as its instructions. -/
structure MultiSigOps (script : CScript) (out : List Valtype) where
  rm : GetOpResult
  kops : List GetOpResult
  rn : GetOpResult
  rc : GetOpResult
  m : UInt8
  n : UInt8
  ops_eq : CScript.ops script = rm :: (kops ++ [rn, rc])
  out_eq : out = [m] :: (kops.map GetOpResult.data ++ [[n]])
  m_op : IsNumber m rm
  n_op : IsNumber n rn
  keys : ∀ k ∈ kops, IsPush k.data k ∧ isPubKeySize k.data = true
  check : IsOp OP_CHECKMULTISIG rc
  m_pos : 0 < m.toNat
  m_le : m.toNat ≤ n.toNat
  n_count : n.toNat = kops.length

theorem ops_of_multiSig (h : solver script = some (.TX_MULTISIG, out)) :
    Nonempty (MultiSigOps script out) := by
  obtain ⟨tplate, hmem, hmatch, hcounts⟩ := solver_template (by decide) h
  obtain rfl : tplate = [OP_SMALLINTEGER, OP_PUBKEYS, OP_SMALLINTEGER, OP_CHECKMULTISIG] := by
    simpa [mTemplates] using hmem
  obtain ⟨hok, sols, hnum, hmatch⟩ := matchTemplate_cons (by decide) (by decide) hmatch
  obtain ⟨m, hm, rfl⟩ := matchOp_smallInteger hnum
  obtain ⟨hok', r, keys, sols, htake, hnum, hmatch⟩ := matchTemplate_pubKeys (by decide) hmatch
  obtain ⟨n, hn, rfl⟩ := matchOp_smallInteger hnum
  obtain ⟨hcheck, hlastop, rfl⟩ := ops_of_last (by decide) (by decide) hmatch
  obtain ⟨kops, rfl, hkeys, ⟨pc, rfl⟩, hops⟩ := takePubKeys_spec hok' htake
  -- a read that failed leaves an opcode that is no number
  have hrok : (getOp pc).ok = true := by
    by_contra hfail
    rw [getOp_fail_opcode (Bool.eq_false_iff.mpr hfail)] at hn
    cases hn
  have hcounts := hcounts rfl
  have hlast : ([] ++ [[m]] ++ kops.map GetOpResult.data ++ [[n]]).getLast? = some [n] :=
    List.getLast?_concat
  have hlen : ([] ++ [[m]] ++ kops.map GetOpResult.data ++ [[n]]).length - 2 = kops.length := by
    simp
  unfold multiSigCounts firstByte at hcounts
  rw [hlast, hlen] at hcounts
  simp only [nil_append, cons_append, List.head?_cons, getD_some,
    headD_cons, Bool.not_eq_true', Bool.or_eq_false_iff, bne_eq_false_iff_eq] at hcounts
  obtain ⟨⟨⟨hm0, hn0⟩, hmn⟩, hcount⟩ := hcounts
  have hm1 : 1 ≤ m := UInt8.not_lt.mp (of_decide_eq_false hm0)
  have hn1 : 1 ≤ n := UInt8.not_lt.mp (of_decide_eq_false hn0)
  exact ⟨{
    rm := getOp script, kops, rn := getOp pc, rc := getOp (getOp pc).rest, m, n
    ops_eq := by rw [ops_of_ok hok, hops hrok, hlastop]
    out_eq := by simp
    m_op := isNumber_of_smallInteger hok hm hm1
    n_op := isNumber_of_smallInteger hrok hn hn1
    keys := hkeys
    check := hcheck
    m_pos := UInt8.le_iff_toNat_le.mp hm1
    m_le := UInt8.le_iff_toNat_le.mp (UInt8.not_lt.mp (of_decide_eq_false hmn))
    n_count := hcount.symm }⟩

theorem bytes_of_scriptHash (h : CScript.isPayToScriptHash script = true) :
    ∃ hash, hash.length = 20 ∧ script = OP_HASH160 :: 0x14 :: (hash ++ [OP_EQUAL]) := by
  simp only [CScript.isPayToScriptHash, Bool.and_eq_true, beq_iff_eq] at h
  obtain ⟨⟨⟨hlen, h0⟩, h1⟩, h22⟩ := h
  obtain ⟨b0, b1, rest, rfl⟩ : ∃ b0 b1 rest, script = b0 :: b1 :: rest := by
    rcases script with _ | ⟨b0, _ | ⟨b1, rest⟩⟩
    · cases hlen
    · cases hlen
    · exact ⟨b0, b1, rest, rfl⟩
  obtain rfl : b0 = OP_HASH160 := Option.some.inj h0
  obtain rfl : b1 = 0x14 := Option.some.inj h1
  have hrest : rest.length = 21 := by simpa using hlen
  have hlast : rest.drop 20 = [OP_EQUAL] := by
    have hget : rest[20]? = some OP_EQUAL := h22
    obtain ⟨hlt, hget⟩ := List.getElem?_eq_some_iff.mp hget
    rw [drop_eq_getElem_cons hlt, hget, drop_of_length_le (by omega)]
  refine ⟨rest.take 20, by rw [length_take]; omega, ?_⟩
  rw [← hlast, take_append_drop]

theorem scriptHash_bytes {hash : Valtype} (hlen : hash.length = 20) :
    ((OP_HASH160 :: 0x14 :: (hash ++ [OP_EQUAL])).drop 2).take 20 = hash := by
  show (hash ++ [OP_EQUAL]).take 20 = hash
  rw [← hlen, take_left]

theorem ops_of_scriptHash (h : CScript.isPayToScriptHash script = true) :
    ∃ r1 r r3, CScript.ops script = [r1, r, r3] ∧ IsOp OP_HASH160 r1 ∧
      IsPush ((script.drop 2).take 20) r ∧ IsOp OP_EQUAL r3 ∧ script.length = 23 := by
  obtain ⟨hash, hlen, rfl⟩ := bytes_of_scriptHash h
  rw [scriptHash_bytes hlen]
  have hread1 : getOp (OP_HASH160 :: 0x14 :: (hash ++ [OP_EQUAL])) =
      ⟨OP_HASH160, [], true, 0x14 :: (hash ++ [OP_EQUAL])⟩ := getOp_plain (by decide) _
  have hread2 : getOp (0x14 :: (hash ++ [OP_EQUAL])) = ⟨0x14, hash, true, [OP_EQUAL]⟩ := by
    change getOperand 0x14 20 (hash ++ [OP_EQUAL]) = _
    rw [← hlen]
    exact getOperand_append 0x14 hash [OP_EQUAL]
  have hread3 : getOp [OP_EQUAL] = ⟨OP_EQUAL, [], true, []⟩ := getOp_plain (by decide) _
  refine ⟨⟨OP_HASH160, [], true, 0x14 :: (hash ++ [OP_EQUAL])⟩, ⟨0x14, hash, true, [OP_EQUAL]⟩,
    ⟨OP_EQUAL, [], true, []⟩, ?_, ⟨rfl, rfl, rfl⟩,
    ⟨rfl, show (0x14 : UInt8) ≤ OP_PUSHDATA4 by decide, rfl⟩, ⟨rfl, rfl, rfl⟩, by simp [hlen]⟩
  rw [ops_of_ok (by rw [hread1]), hread1, ops_of_ok (by rw [hread2]), hread2,
    ops_of_ok (by rw [hread3]), hread3]
  rfl

end Fantom.Script
