/-
  Fantom.Script.Forms — The scripts that `Solver` recognizes, as grammar.

  `Form` writes each form down as bytes: what is pushed may be pushed in any encoding, but for the
  hash of a script, and a count is the one opcode of its number.

  * `solver_eq_some_iff` — no other script is, but for the opcodes that `OP_SMALLDATA` lets pass
    without a push.
-/
import Fantom.Script.Templates

namespace Fantom.Script

open Core List Option

/-! ## §1. The grammar. -/

def opNumber (n : UInt8) : UInt8 := OP_1 - 1 + n

/-- The forms, with the solutions of each. -/
inductive Form : CScript → TxnOutType → List Valtype → Prop
  | pubKey {key p} (hsize : isPubKeySize key = true) (hp : PushOf key p) :
      Form (p ++ [OP_CHECKSIG]) .TX_PUBKEY [key]
  | pubKeyHash {hash p} (hsize : hash.length = 20) (hp : PushOf hash p) :
      Form (OP_DUP :: OP_HASH160 :: (p ++ [OP_EQUALVERIFY, OP_CHECKSIG])) .TX_PUBKEYHASH [hash]
  | scriptHash {hash} (hsize : hash.length = 20) :
      Form (OP_HASH160 :: 0x14 :: (hash ++ [OP_EQUAL])) .TX_SCRIPTHASH [hash]
  | multiSig {m n keys ps} (hps : List.Forall₂ PushOf keys ps)
      (hsize : ∀ key ∈ keys, isPubKeySize key = true) (hm : 1 ≤ m) (hmn : m ≤ n) (hn : n ≤ 16)
      (hcount : keys.length = n.toNat) :
      Form (opNumber m :: (ps.flatten ++ [opNumber n, OP_CHECKMULTISIG])) .TX_MULTISIG
        ([m] :: (keys ++ [[n]]))
  | nullData : Form [OP_RETURN] .TX_NULL_DATA []
  | nullDataPush {data p} (hsize : data.length ≤ MAX_OP_RETURN_RELAY) (hp : PushOf data p) :
      Form (OP_RETURN :: p) .TX_NULL_DATA []

/-- `OP_RETURN` and one more opcode, which pushes nothing. -/
def IsBareReturn (script : CScript) : Prop :=
  ∃ opcode, ¬opcode ≤ OP_PUSHDATA4 ∧ script = [OP_RETURN, opcode]

variable {n : UInt8} {t : TxnOutType} {p : CScript} {keys ps : List Valtype}

theorem opNumber_toNat (h : n ≤ 16) : (opNumber n).toNat = 80 + n.toNat := by
  have hn : n.toNat ≤ 16 := UInt8.le_iff_toNat_le.mp h
  rw [opNumber, UInt8.toNat_add]
  exact Nat.mod_eq_of_lt (by have h80 : (OP_1 - 1).toNat = 80 := rfl; omega)

/-! ## §2. Scripts from their instructions. -/

variable {script : CScript} {r : GetOpResult} {rs : List GetOpResult} {out : List Valtype}

theorem bytes_of_isOp {opcode : UInt8} (hop : ¬opcode ≤ OP_PUSHDATA4) (hr : IsOp opcode r)
    (h : CScript.ops script = r :: rs) : script = opcode :: r.rest ∧ CScript.ops r.rest = rs := by
  obtain ⟨rfl, hrest⟩ := ops_eq_cons h
  have hbytes := bytes_of_plain hr.ok (by rwa [hr.opcode_eq])
  rw [hr.opcode_eq] at hbytes
  exact ⟨hbytes, hrest⟩

theorem bytes_of_isPush {data : Valtype} (hr : IsPush data r)
    (h : CScript.ops script = r :: rs) :
    ∃ p, PushOf data p ∧ script = p ++ r.rest ∧ CScript.ops r.rest = rs := by
  obtain ⟨rfl, hrest⟩ := ops_eq_cons h
  obtain ⟨p, hp, hbytes⟩ := bytes_of_push hr.ok hr.opcode_le
  rw [hr.data_eq] at hp
  exact ⟨p, hp, hbytes, hrest⟩

theorem IsNumber.le (hr : IsNumber n r) : n ≤ 16 := by
  have hhigh : r.opcode.toNat ≤ 96 := UInt8.le_iff_toNat_le.mp hr.range.2
  have htoNat := hr.toNat_eq
  exact UInt8.le_iff_toNat_le.mpr (show n.toNat ≤ 16 by omega)

theorem IsNumber.isOp (hr : IsNumber n r) : IsOp (opNumber n) r := by
  refine ⟨hr.ok, ?_, hr.data_eq⟩
  have hlow : 81 ≤ r.opcode.toNat := UInt8.le_iff_toNat_le.mp hr.range.1
  have htoNat := hr.toNat_eq
  apply UInt8.toNat_inj.mp
  rw [opNumber_toNat hr.le]
  omega

theorem not_push_opNumber (h : n ≤ 16) : ¬opNumber n ≤ OP_PUSHDATA4 := by
  have hdata4 : OP_PUSHDATA4.toNat = 78 := rfl
  rw [UInt8.le_iff_toNat_le, opNumber_toNat h]
  omega

theorem bytes_of_keys {kops : List GetOpResult}
    (hkeys : ∀ k ∈ kops, IsPush k.data k ∧ isPubKeySize k.data = true)
    (h : CScript.ops script = kops ++ rs) :
    ∃ ps rest, List.Forall₂ PushOf (kops.map GetOpResult.data) ps ∧
      script = ps.flatten ++ rest ∧ CScript.ops rest = rs := by
  induction kops generalizing script with
  | nil => exact ⟨[], script, .nil, rfl, h⟩
  | cons k kops ih =>
    obtain ⟨p, hp, hbytes, hrest⟩ := bytes_of_isPush (hkeys k mem_cons_self).1 h
    obtain ⟨ps, rest, hps, hflat, hops⟩ :=
      ih (fun k hk => hkeys k (mem_cons_of_mem _ hk)) hrest
    refine ⟨p :: ps, rest, .cons hp hps, ?_, hops⟩
    rw [hbytes, hflat, flatten_cons, append_assoc]

/-! ## §3. What is recognized has the form. -/

theorem form_of_pubKey (h : solver script = some (.TX_PUBKEY, out)) :
    Form script .TX_PUBKEY out := by
  obtain ⟨r, rc, hops, rfl, hpush, hsize, hcheck⟩ := ops_of_pubKey h
  obtain ⟨p, hp, hscript, hops⟩ := bytes_of_isPush hpush hops
  obtain ⟨hrest, hend⟩ := bytes_of_isOp (by decide) hcheck hops
  rw [hscript, hrest, ops_eq_nil.mp hend]
  exact .pubKey hsize hp

theorem form_of_pubKeyHash (h : solver script = some (.TX_PUBKEYHASH, out)) :
    Form script .TX_PUBKEYHASH out := by
  obtain ⟨r1, r2, r, r4, rc, hops, rfl, hdup, hhash, hpush, hsize, heq, hcheck⟩ :=
    ops_of_pubKeyHash h
  obtain ⟨hscript, hops⟩ := bytes_of_isOp (by decide) hdup hops
  obtain ⟨hrest1, hops⟩ := bytes_of_isOp (by decide) hhash hops
  obtain ⟨p, hp, hrest2, hops⟩ := bytes_of_isPush hpush hops
  obtain ⟨hrest3, hops⟩ := bytes_of_isOp (by decide) heq hops
  obtain ⟨hrest4, hend⟩ := bytes_of_isOp (by decide) hcheck hops
  rw [hscript, hrest1, hrest2, hrest3, hrest4, ops_eq_nil.mp hend]
  exact .pubKeyHash hsize hp

theorem form_of_multiSig (h : solver script = some (.TX_MULTISIG, out)) :
    Form script .TX_MULTISIG out := by
  obtain ⟨rm, kops, rn, rc, m, n, hops, hout, hm, hn, hkeys, hcheck, hpos, hle, hcount⟩ :=
    ops_of_multiSig h
  obtain ⟨hscript, hops⟩ := bytes_of_isOp (not_push_opNumber hm.le) hm.isOp hops
  obtain ⟨ps, rest, hps, hflat, hops⟩ := bytes_of_keys hkeys hops
  obtain ⟨hrest, hops⟩ := bytes_of_isOp (not_push_opNumber hn.le) hn.isOp hops
  obtain ⟨hlast, hend⟩ := bytes_of_isOp (by decide) hcheck hops
  rw [hout, hscript, hflat, hrest, hlast, ops_eq_nil.mp hend]
  have hsize : ∀ key ∈ kops.map GetOpResult.data, isPubKeySize key = true := by
    intro key hkey
    obtain ⟨k, hk, rfl⟩ := mem_map.mp hkey
    exact (hkeys k hk).2
  exact .multiSig hps hsize (UInt8.le_iff_toNat_le.mpr hpos) (UInt8.le_iff_toNat_le.mpr hle)
    hn.le (by rw [length_map, hcount])

theorem form_of_scriptHash (h : CScript.isPayToScriptHash script = true) :
    Form script .TX_SCRIPTHASH [(script.drop 2).take 20] := by
  obtain ⟨hash, hlen, rfl⟩ := bytes_of_scriptHash h
  rw [scriptHash_bytes hlen]
  exact .scriptHash hlen

theorem form_of_nullData (hbare : ¬IsBareReturn script)
    (h : solver script = some (.TX_NULL_DATA, out)) : Form script .TX_NULL_DATA out := by
  obtain ⟨tplate, hmem, hmatch, _⟩ := solver_template (by decide) h
  have htplate : tplate = [OP_RETURN, OP_SMALLDATA] ∨ tplate = [OP_RETURN] := by
    simpa [mTemplates] using hmem
  rcases htplate with rfl | rfl
  · obtain ⟨hreturn, hops, hmatch⟩ := ops_of_literal (by decide) (by decide) hmatch
    obtain ⟨hscript, _⟩ := bytes_of_isOp (by decide) hreturn hops
    obtain ⟨hok, sols, hsmall, hmatch⟩ := matchTemplate_cons (by decide) (by decide) hmatch
    obtain ⟨hsize, rfl⟩ := matchOp_smallData hsmall
    obtain ⟨hend, rfl⟩ := matchTemplate_nil hmatch
    rw [hscript] at hbare ⊢
    by_cases hpush : (getOp (getOp script).rest).opcode ≤ OP_PUSHDATA4
    · obtain ⟨p, hp, hbytes⟩ := bytes_of_push hok hpush
      rw [hbytes, hend, append_nil]
      exact .nullDataPush hsize hp
    · have hbytes := bytes_of_plain hok hpush
      rw [hbytes, hend] at hbare
      exact absurd ⟨_, hpush, rfl⟩ hbare
  · obtain ⟨hreturn, hops, rfl⟩ := ops_of_last (by decide) (by decide) hmatch
    obtain ⟨hscript, hend⟩ := bytes_of_isOp (by decide) hreturn hops
    rw [hscript, ops_eq_nil.mp hend]
    exact .nullData

theorem Form.of_solver (hbare : ¬IsBareReturn script) (h : solver script = some (t, out)) :
    Form script t out := by
  cases t with
  | TX_NONSTANDARD =>
    obtain ⟨tplate, hmem, _⟩ := solver_template (by decide) h
    simp [mTemplates] at hmem
  | TX_PUBKEY => exact form_of_pubKey h
  | TX_PUBKEYHASH => exact form_of_pubKeyHash h
  | TX_SCRIPTHASH =>
    have hp2sh := (solver_eq_scriptHash h).mp rfl
    have hout : solver script = some (.TX_SCRIPTHASH, [(script.drop 2).take 20]) := if_pos hp2sh
    rw [hout] at h
    cases h
    exact form_of_scriptHash hp2sh
  | TX_MULTISIG => exact form_of_multiSig h
  | TX_NULL_DATA => exact form_of_nullData hbare h

/-! ## §4. What has the form is recognized. -/

section Match

variable {fuel : Nat} {opcode op2 : UInt8} {rest pc2 : CScript} {vSolutions : List Valtype}

theorem matchTemplate_literal (hop : ¬op2 ≤ OP_PUSHDATA4) (hlow : op2 < OP_SMALLDATA) :
    matchTemplate (fuel + 1) (op2 :: rest) (op2 :: pc2) vSolutions =
      matchTemplate fuel rest pc2 vSolutions := by
  have hne {opcode : UInt8} (hle : OP_SMALLDATA ≤ opcode) : op2 ≠ opcode := by
    rintro rfl
    exact UInt8.not_le.mpr hlow hle
  have hget := getOp_plain hop rest
  rw [matchTemplate_cons_eq hop (hne (by decide)) (by rw [hget]), hget]
  rw [matchOp, if_neg (hne (by decide)), if_neg (hne (by decide)), if_neg (hne (by decide)),
    if_neg (hne (by decide)), if_neg (by simp)]
  rfl

theorem matchTemplate_literal_ne (hopcode : ¬opcode ≤ OP_PUSHDATA4) (hop : ¬op2 ≤ OP_PUSHDATA4)
    (hlow : op2 < OP_SMALLDATA) (hne : opcode ≠ op2) :
    matchTemplate (fuel + 1) (opcode :: rest) (op2 :: pc2) vSolutions = none := by
  rw [eq_none_iff_forall_ne_some]
  intro out h
  have hopcode_eq := (ops_of_literal hop hlow h).1.opcode_eq
  rw [getOp_plain hopcode] at hopcode_eq
  exact hne hopcode_eq

theorem matchTemplate_pubKey_ne (hopcode : ¬opcode ≤ OP_PUSHDATA4) :
    matchTemplate (fuel + 1) (opcode :: rest) (OP_PUBKEY :: pc2) vSolutions = none := by
  have hget := getOp_plain hopcode rest
  rw [matchTemplate_cons_eq (by decide) (by decide) (by rw [hget]), hget]
  rfl

theorem matchTemplate_pubKey {key : CScript} (hp : PushOf key p) (hsize : isPubKeySize key = true) :
    matchTemplate (fuel + 1) (p ++ rest) (OP_PUBKEY :: pc2) vSolutions =
      matchTemplate fuel rest pc2 (vSolutions ++ [key]) := by
  obtain ⟨opcode, _, _, _, hget⟩ := hp.getOp_append rest
  rw [matchTemplate_cons_eq (by decide) (by decide) (by rw [hget]), hget]
  rw [matchOp, if_pos rfl, if_pos hsize]
  rfl

theorem matchTemplate_pubKeyHash {hash : CScript} (hp : PushOf hash p) (hsize : hash.length = 20) :
    matchTemplate (fuel + 1) (p ++ rest) (OP_PUBKEYHASH :: pc2) vSolutions =
      matchTemplate fuel rest pc2 (vSolutions ++ [hash]) := by
  obtain ⟨opcode, _, _, _, hget⟩ := hp.getOp_append rest
  rw [matchTemplate_cons_eq (by decide) (by decide) (by rw [hget]), hget]
  rw [matchOp, if_neg (show OP_PUBKEYHASH ≠ OP_PUBKEY by decide), if_pos rfl, if_pos hsize]
  rfl

theorem matchTemplate_smallData {data : CScript} (hp : PushOf data p)
    (hsize : data.length ≤ MAX_OP_RETURN_RELAY) :
    matchTemplate (fuel + 1) (p ++ rest) (OP_SMALLDATA :: pc2) vSolutions =
      matchTemplate fuel rest pc2 vSolutions := by
  obtain ⟨opcode, _, _, _, hget⟩ := hp.getOp_append rest
  rw [matchTemplate_cons_eq (by decide) (by decide) (by rw [hget]), hget]
  rw [matchOp, if_neg (show OP_SMALLDATA ≠ OP_PUBKEY by decide),
    if_neg (show OP_SMALLDATA ≠ OP_PUBKEYHASH by decide),
    if_neg (show OP_SMALLDATA ≠ OP_SMALLINTEGER by decide), if_pos rfl,
    if_neg (Nat.not_lt.mpr hsize)]
  rfl

theorem matchOp_smallInteger_eq {r : GetOpResult} :
    matchOp r ⟨OP_SMALLINTEGER, [], true, rest⟩ vSolutions =
      (smallInteger r.opcode).map fun n => vSolutions ++ [[n]] := by
  rw [matchOp, if_neg (show OP_SMALLINTEGER ≠ OP_PUBKEY by decide),
    if_neg (show OP_SMALLINTEGER ≠ OP_PUBKEYHASH by decide), if_pos rfl]

theorem matchTemplate_smallInteger_ne (hopcode : ¬opcode ≤ OP_PUSHDATA4)
    (hnumber : smallInteger opcode = none) :
    matchTemplate (fuel + 1) (opcode :: rest) (OP_SMALLINTEGER :: pc2) vSolutions = none := by
  have hget := getOp_plain hopcode rest
  rw [matchTemplate_cons_eq (by decide) (by decide) (by rw [hget]), hget, matchOp_smallInteger_eq,
    hnumber]
  rfl

theorem smallInteger_opNumber (hpos : 1 ≤ n) (hn : n ≤ 16) :
    smallInteger (opNumber n) = some n := by
  have htoNat := opNumber_toNat hn
  have hpos1 : 1 ≤ n.toNat := UInt8.le_iff_toNat_le.mp hpos
  have hle16 : n.toNat ≤ 16 := UInt8.le_iff_toNat_le.mp hn
  have hne : opNumber n ≠ 0 := by
    intro hzero
    rw [hzero] at htoNat
    have hnat : (0 : UInt8).toNat = 0 := rfl
    omega
  have hrange : OP_1 ≤ opNumber n ∧ opNumber n ≤ OP_16 := by
    have hone : OP_1.toNat = 81 := rfl
    have hsixteen : OP_16.toNat = 96 := rfl
    rw [UInt8.le_iff_toNat_le, UInt8.le_iff_toNat_le]
    omega
  rw [smallInteger, if_neg hne, if_pos hrange]
  show some (OP_1 - 1 + n - (OP_1 - 1)) = some n
  rw [UInt8.add_comm, UInt8.add_sub_cancel]

theorem matchTemplate_smallInteger (hpos : 1 ≤ n) (hn : n ≤ 16) :
    matchTemplate (fuel + 1) (opNumber n :: rest) (OP_SMALLINTEGER :: pc2) vSolutions =
      matchTemplate fuel rest pc2 (vSolutions ++ [[n]]) := by
  have hget := getOp_plain (not_push_opNumber hn) rest
  rw [matchTemplate_cons_eq (by decide) (by decide) (by rw [hget]), hget, matchOp_smallInteger_eq,
    smallInteger_opNumber hpos hn]
  rfl

theorem takePubKeys_pushes (hps : List.Forall₂ PushOf keys ps)
    (hsize : ∀ key ∈ keys, isPubKeySize key = true) (hok : (getOp rest).ok = true)
    (hstop : isPubKeySize (getOp rest).data = false) (hfuel : keys.length ≤ fuel) :
    takePubKeys fuel (getOp (ps.flatten ++ rest)) vSolutions =
      (getOp rest, vSolutions ++ keys) := by
  induction hps generalizing fuel vSolutions with
  | nil =>
    rw [flatten_nil, nil_append, append_nil]
    cases fuel with
    | zero => rfl
    | succ fuel => rw [takePubKeys, if_neg (by rw [hstop]; decide)]
  | @cons key p keys ps hp hps ih =>
    cases fuel with
    | zero => cases hfuel
    | succ fuel =>
      obtain ⟨opcode, _, _, _, hget⟩ := hp.getOp_append (ps.flatten ++ rest)
      have hrest : takePubKeys fuel (getOp (ps.flatten ++ rest)) (vSolutions ++ [key]) =
          (getOp rest, vSolutions ++ [key] ++ keys) :=
        ih (fun k hk => hsize k (mem_cons_of_mem _ hk)) (Nat.le_of_succ_le_succ hfuel)
      -- what follows a key can be read, be it a key or the end of the keys
      have hnext : (getOp (ps.flatten ++ rest)).ok = true := by
        cases hps with
        | nil => exact hok
        | @cons key' p' keys' ps' hp' hps' =>
          obtain ⟨_, _, _, _, hget'⟩ := hp'.getOp_append (ps'.flatten ++ rest)
          rw [flatten_cons, append_assoc, hget']
      rw [flatten_cons, append_assoc, hget, takePubKeys,
        if_pos (hsize key mem_cons_self)]
      dsimp only
      rw [if_pos hnext, hrest, append_assoc, singleton_append]

end Match

theorem length_le_of_pushes (hps : List.Forall₂ PushOf keys ps) :
    keys.length ≤ ps.flatten.length := by
  induction hps with
  | nil => exact Nat.le_refl _
  | @cons key p keys ps hp _ ih =>
    obtain ⟨opcode, front, _, rfl, _⟩ := hp.getOp_append []
    rw [flatten_cons, length_append, length_cons, length_cons]
    omega

theorem solver_of_match {tplate : CScript} {back : List (TxnOutType × CScript)}
    (front : List (TxnOutType × CScript)) (hp2sh : CScript.isPayToScriptHash script = false)
    (htemplates : mTemplates = front ++ (t, tplate) :: back)
    (hfront : ∀ e ∈ front, matchTemplate (e.2.length + 1) script e.2 [] = none)
    (hmatch : matchTemplate (tplate.length + 1) script tplate [] = some out)
    (hcounts : t = .TX_MULTISIG → multiSigCounts out = true) : solver script = some (t, out) := by
  have hnone : (front.findSome? fun e =>
      (matchTemplate (e.2.length + 1) script e.2 []).map (e.1, ·)) = none := by
    rw [findSome?_eq_none_iff]
    intro e he
    rw [hfront e he]
    rfl
  rw [solver, if_neg (by rw [hp2sh]; simp), htemplates, findSome?_append, hnone, none_or,
    findSome?_cons, hmatch]
  show (if t = .TX_MULTISIG ∧ !multiSigCounts out then none else some (t, out)) = _
  rw [if_neg]
  rintro ⟨ht, hfail⟩
  rw [hcounts ht] at hfail
  cases hfail

theorem isPayToScriptHash_ne {opcode : UInt8} {rest : CScript} (h : opcode ≠ OP_HASH160) :
    CScript.isPayToScriptHash (opcode :: rest) = false := by
  rw [Bool.eq_false_iff]
  intro hp2sh
  obtain ⟨_, _, hbytes⟩ := bytes_of_scriptHash hp2sh
  exact h (cons_eq_cons.mp hbytes).1

theorem multiSigCounts_eq {m : UInt8} (hm : 1 ≤ m) (hmn : m ≤ n) (hcount : keys.length = n.toNat) :
    multiSigCounts ([m] :: (keys ++ [[n]])) = true := by
  have hlast : ([m] :: (keys ++ [[n]])).getLast? = some [n] := by
    rw [← cons_append]
    exact getLast?_concat
  have hlen : ([m] :: (keys ++ [[n]])).length - 2 = keys.length := by simp
  have hn : 1 ≤ n := UInt8.le_trans hm hmn
  unfold multiSigCounts firstByte
  rw [hlast, hlen, hcount]
  simp [UInt8.not_lt.mpr hm, UInt8.not_lt.mpr hn, UInt8.not_lt.mpr hmn]

theorem matchTemplate_multiSig {m : UInt8} (hps : List.Forall₂ PushOf keys ps)
    (hsize : ∀ key ∈ keys, isPubKeySize key = true) (hm : 1 ≤ m) (hmn : m ≤ n) (hn : n ≤ 16)
    (hcount : keys.length = n.toNat) :
    matchTemplate 5 (opNumber m :: (ps.flatten ++ [opNumber n, OP_CHECKMULTISIG]))
      [OP_SMALLINTEGER, OP_PUBKEYS, OP_SMALLINTEGER, OP_CHECKMULTISIG] [] =
        some ([m] :: (keys ++ [[n]])) := by
  have hnumber := not_push_opNumber hn
  have hget := getOp_plain hnumber [OP_CHECKMULTISIG]
  have hfuel : keys.length ≤ (ps.flatten ++ [opNumber n, OP_CHECKMULTISIG]).length := by
    rw [length_append]
    exact (length_le_of_pushes hps).trans (Nat.le_add_right _ _)
  have htake : takePubKeys (ps.flatten ++ [opNumber n, OP_CHECKMULTISIG]).length
      (getOp (ps.flatten ++ [opNumber n, OP_CHECKMULTISIG])) [[m]] =
        (getOp [opNumber n, OP_CHECKMULTISIG], [[m]] ++ keys) :=
    takePubKeys_pushes hps hsize (by rw [hget]) (by rw [hget]; rfl) hfuel
  -- there is a key, as the count of them is not zero
  have hok : (getOp (ps.flatten ++ [opNumber n, OP_CHECKMULTISIG])).ok = true := by
    cases hps with
    | nil =>
      have hpos : 1 ≤ n.toNat := UInt8.le_iff_toNat_le.mp (UInt8.le_trans hm hmn)
      rw [← hcount] at hpos
      cases hpos
    | @cons key p keys ps hp _ =>
      obtain ⟨_, _, _, _, hkey⟩ := hp.getOp_append (ps.flatten ++ [opNumber n, OP_CHECKMULTISIG])
      rw [flatten_cons, append_assoc, hkey]
  rw [matchTemplate_smallInteger hm (UInt8.le_trans hmn hn), nil_append,
    matchTemplate_pubKeys_eq (by decide) hok, htake, hget]
  dsimp only
  rw [matchOp_smallInteger_eq, smallInteger_opNumber (UInt8.le_trans hm hmn) hn, map_some,
    bind_some, matchTemplate_literal (by decide) (by decide)]
  rfl

theorem matchTemplate_return_ne {rest : CScript} {e : TxnOutType × CScript}
    (he : e ∈ mTemplates.take 3) :
    matchTemplate (e.2.length + 1) (OP_RETURN :: rest) e.2 [] = none := by
  have hcases : e = (.TX_PUBKEY, [OP_PUBKEY, OP_CHECKSIG]) ∨
      e = (.TX_PUBKEYHASH, [OP_DUP, OP_HASH160, OP_PUBKEYHASH, OP_EQUALVERIFY, OP_CHECKSIG]) ∨
      e = (.TX_MULTISIG, [OP_SMALLINTEGER, OP_PUBKEYS, OP_SMALLINTEGER, OP_CHECKMULTISIG]) := by
    simpa [mTemplates] using he
  rcases hcases with rfl | rfl | rfl
  · exact matchTemplate_pubKey_ne (by decide)
  · exact matchTemplate_literal_ne (by decide) (by decide) (by decide) (by decide)
  · exact matchTemplate_smallInteger_ne (by decide) (by decide)

/-- **A script of a form is recognized**, with what the form pushes. -/
theorem Form.solver_eq (h : Form script t out) : solver script = some (t, out) := by
  cases h with
  | @pubKey key p hsize hp =>
    obtain ⟨opcode, bytes, hle, rfl, _⟩ := hp.getOp_append []
    have hne : opcode ≠ OP_HASH160 := by
      rintro rfl
      exact absurd hle (by decide)
    refine solver_of_match [] (isPayToScriptHash_ne hne) rfl (by simp) ?_
      (fun h => absurd h (by decide))
    show matchTemplate 3 _ _ _ = _
    rw [matchTemplate_pubKey hp hsize, matchTemplate_literal (by decide) (by decide)]
    rfl
  | @pubKeyHash hash p hsize hp =>
    refine solver_of_match (mTemplates.take 1) (isPayToScriptHash_ne (by decide)) rfl ?_ ?_
      (fun h => absurd h (by decide))
    · intro e he
      rw [mem_singleton.mp he]
      exact matchTemplate_pubKey_ne (by decide)
    · show matchTemplate 6 _ _ _ = _
      rw [matchTemplate_literal (by decide) (by decide),
        matchTemplate_literal (by decide) (by decide), matchTemplate_pubKeyHash hp hsize,
        matchTemplate_literal (by decide) (by decide),
        matchTemplate_literal (by decide) (by decide)]
      rfl
  | @scriptHash hash hsize =>
    have hp2sh : CScript.isPayToScriptHash (OP_HASH160 :: 0x14 :: (hash ++ [OP_EQUAL])) = true := by
      unfold CScript.isPayToScriptHash
      simp [hsize]
    rw [solver, if_pos hp2sh, scriptHash_bytes hsize]
  | @multiSig m n keys ps hps hsize hm hmn hn hcount =>
    have hm16 := UInt8.le_trans hmn hn
    have hnumber := not_push_opNumber hm16
    have hop {opcode : UInt8} (h : 97 ≤ opcode.toNat) : opNumber m ≠ opcode := by
      rintro rfl
      have hle : m.toNat ≤ 16 := UInt8.le_iff_toNat_le.mp hm16
      rw [opNumber_toNat hm16] at h
      omega
    refine solver_of_match (mTemplates.take 2) (isPayToScriptHash_ne (hop (by decide))) rfl ?_
      (matchTemplate_multiSig hps hsize hm hmn hn hcount)
      fun _ => multiSigCounts_eq hm hmn hcount
    intro e he
    have hcases : e = (.TX_PUBKEY, [OP_PUBKEY, OP_CHECKSIG]) ∨
        e = (.TX_PUBKEYHASH,
          [OP_DUP, OP_HASH160, OP_PUBKEYHASH, OP_EQUALVERIFY, OP_CHECKSIG]) := by
      simpa [mTemplates] using he
    rcases hcases with rfl | rfl
    · exact matchTemplate_pubKey_ne hnumber
    · exact matchTemplate_literal_ne hnumber (by decide) (by decide) (hop (by decide))
  | nullData => decide
  | @nullDataPush data p hsize hp =>
    refine solver_of_match (mTemplates.take 3) (isPayToScriptHash_ne (by decide)) rfl
      (fun e he => matchTemplate_return_ne he) ?_ (fun h => absurd h (by decide))
    show matchTemplate 3 _ _ _ = _
    rw [matchTemplate_literal (by decide) (by decide), ← append_nil p,
      matchTemplate_smallData hp hsize]
    rfl

/-! ## §5. `Solver` and its forms. -/

/-- **`Solver` recognizes its forms and no other script**, with what they push, but for
null data, whose push it does not return.  A lone opcode behind `OP_RETURN` is left open. -/
theorem solver_eq_some_iff (hbare : ¬IsBareReturn script) :
    (∀ t vSolutions, solver script = some (t, vSolutions) ↔ Form script t vSolutions) ∧
      (solver script = none ↔ ∀ t vSolutions, ¬Form script t vSolutions) := by
  refine ⟨fun t vSolutions => ⟨Form.of_solver hbare, Form.solver_eq⟩, ?_, ?_⟩
  · intro hnone t vSolutions hform
    rw [hform.solver_eq] at hnone
    cases hnone
  · intro hall
    rw [eq_none_iff_forall_ne_some]
    rintro ⟨t, vSolutions⟩ hsome
    exact hall t vSolutions (Form.of_solver hbare hsome)

/-- What a pay-to-pubkey-hash script with a pushed hash is recognized as. -/
theorem solver_eq_some_iff_pubKeyHash :
    ¬IsBareReturn (OP_DUP :: OP_HASH160 :: (CScript.push (replicate 20 7) ++
        [OP_EQUALVERIFY, OP_CHECKSIG])) ∧
      (solver (OP_DUP :: OP_HASH160 :: (CScript.push (replicate 20 7) ++
          [OP_EQUALVERIFY, OP_CHECKSIG])) = some (.TX_PUBKEYHASH, [replicate 20 7]) ↔
        Form (OP_DUP :: OP_HASH160 :: (CScript.push (replicate 20 7) ++
          [OP_EQUALVERIFY, OP_CHECKSIG])) .TX_PUBKEYHASH [replicate 20 7]) := by
  have hbare : ¬IsBareReturn (OP_DUP :: OP_HASH160 :: (CScript.push (replicate 20 7) ++
      [OP_EQUALVERIFY, OP_CHECKSIG])) := by
    rintro ⟨opcode, _, hscript⟩
    exact absurd (cons_eq_cons.mp hscript).1 (by decide)
  exact ⟨hbare, (solver_eq_some_iff hbare).1 _ _⟩

/-- The seven that this script pushes is not among its solutions. -/
theorem solver_nullData_push :
    PushOf [7] [1, 7] ∧ solver [OP_RETURN, 1, 7] = some (.TX_NULL_DATA, []) ∧
      solver [OP_RETURN, 1, 7] ≠ some (.TX_NULL_DATA, [[7]]) :=
  ⟨.direct (by decide) rfl, by decide, by decide⟩

end Fantom.Script
