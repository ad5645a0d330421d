/-
  Fantom.Script.NormalPayment — What `IsNormalPaymentScript` takes for a payment to the hash of a
  key.

  * `LooksNormal` — a size of 25 bytes, with two opcodes, one push and what may follow,
  * `normalPayment_exact_iff` — the scripts on which it is wrong.

  The loop compares an opcode at each position but the third, and ends where the bytes do: a longer
  push leaves no room for the last two opcodes, and nobody misses them.
-/
import Fantom.Core.Decoding

namespace Fantom.Script

open Core List

/-! ## §1. What is meant, and what is looked at. -/

/-- `OP_DUP OP_HASH160 <20 bytes> OP_EQUALVERIFY OP_CHECKSIG` -/
def IsPubKeyHashScript (script : CScript) : Prop :=
  ∃ hash : List UInt8, hash.length = 20 ∧
    script = OP_DUP :: OP_HASH160 :: 0x14 :: (hash ++ [OP_EQUALVERIFY, OP_CHECKSIG])

/-- A script of the size of a payment that pushes `data` and ends with `tail`. -/
structure LooksNormal (script : CScript) (data : List UInt8) (tail : CScript) : Prop where
  size : script.length = 25
  bytes : ∃ p, PushOf data p ∧ script = OP_DUP :: OP_HASH160 :: (p ++ tail)
  tail : tail <+: [OP_EQUALVERIFY, OP_CHECKSIG]

variable {script pc tail : CScript} {data : List UInt8} {opcode : UInt8}

theorem tail_cases (h : tail <+: [OP_EQUALVERIFY, OP_CHECKSIG]) :
    tail = [] ∨ tail = [OP_EQUALVERIFY] ∨ tail = [OP_EQUALVERIFY, OP_CHECKSIG] := by
  rw [← mem_inits] at h
  simpa using h

theorem bytes_of_opcode (hop : ¬opcode ≤ OP_PUSHDATA4) (hvalid : opcode ≠ OP_INVALIDOPCODE)
    (h : (getOp pc).opcode = opcode) : pc = opcode :: (getOp pc).rest := by
  have hok : (getOp pc).ok = true := by
    by_contra hfail
    rw [getOp_fail_opcode (Bool.eq_false_iff.mpr hfail)] at h
    exact hvalid h.symm
  have hbytes := bytes_of_plain hok (by rwa [h])
  rwa [h] at hbytes

theorem length_of_opcode (h : pc = opcode :: (getOp pc).rest) :
    pc.length = (getOp pc).rest.length + 1 := by
  conv_lhs => rw [h]
  exact length_cons

/-! ## §2. The loop. -/

theorem normalPaymentLoop_cons {i : Nat} {r : GetOpResult} {rs : List GetOpResult} :
    normalPaymentLoop i (r :: rs) = true ↔
      (i = 0 → r.opcode = OP_DUP) ∧ (i = 1 → r.opcode = OP_HASH160) ∧
      (i = 3 → r.opcode = OP_EQUALVERIFY) ∧ (i = 4 → r.opcode = OP_CHECKSIG) ∧ i ≠ 5 ∧
        normalPaymentLoop (i + 1) rs = true := by
  rw [normalPaymentLoop]
  split_ifs with h0 h1 h3 h4 h5 <;> simp_all

theorem tail_of_loop (h : normalPaymentLoop 3 (CScript.ops pc) = true) :
    pc <+: [OP_EQUALVERIFY, OP_CHECKSIG] := by
  cases pc with
  | nil => exact nil_prefix
  | cons b pc =>
    rw [ops_cons, normalPaymentLoop_cons] at h
    obtain ⟨_, _, hequal, _, _, h⟩ := h
    have hbytes := bytes_of_opcode (by decide) (by decide) (hequal rfl)
    rw [hbytes]
    refine (cons_prefix_cons).mpr ⟨rfl, ?_⟩
    cases hrest : (getOp (b :: pc)).rest with
    | nil => exact nil_prefix
    | cons c rest =>
      rw [hrest, ops_cons, normalPaymentLoop_cons] at h
      obtain ⟨_, _, _, hcheck, _, h⟩ := h
      have hbytes := bytes_of_opcode (by decide) (by decide) (hcheck rfl)
      rw [hbytes]
      refine (cons_prefix_cons).mpr ⟨rfl, ?_⟩
      -- a sixth instruction is refused
      cases hend : (getOp (c :: rest)).rest with
      | nil => exact nil_prefix
      | cons d rest' =>
        rw [hend, ops_cons, normalPaymentLoop_cons] at h
        exact absurd rfl h.2.2.2.2.1

theorem loop_of_tail (h : tail <+: [OP_EQUALVERIFY, OP_CHECKSIG]) :
    normalPaymentLoop 3 (CScript.ops tail) = true := by
  rcases tail_cases h with rfl | rfl | rfl <;> decide

/-- **What `IsNormalPaymentScript` looks at**: the size, the first two opcodes, and that
the bytes behind one push are the beginning of the end. -/
theorem isNormalPaymentScript_iff :
    CScript.isNormalPaymentScript script = true ↔ ∃ data tail, LooksNormal script data tail := by
  constructor
  · intro h
    rw [CScript.isNormalPaymentScript, Bool.and_eq_true, beq_iff_eq] at h
    obtain ⟨hsize, hloop⟩ := h
    obtain ⟨b0, pc0, rfl⟩ := exists_cons_of_length_pos (by omega : 0 < script.length)
    rw [ops_cons, normalPaymentLoop_cons] at hloop
    obtain ⟨hdup, _, _, _, _, hloop⟩ := hloop
    have hbytes0 := bytes_of_opcode (by decide) (by decide) (hdup rfl)
    have hsize1 : (getOp (b0 :: pc0)).rest.length = 24 := by
      have hlen := length_of_opcode hbytes0
      omega
    obtain ⟨b1, pc1, hpc1⟩ := exists_cons_of_length_pos
      (by omega : 0 < (getOp (b0 :: pc0)).rest.length)
    rw [hpc1] at hloop hbytes0 hsize1
    rw [ops_cons, normalPaymentLoop_cons] at hloop
    obtain ⟨_, hhash, _, _, _, hloop⟩ := hloop
    have hbytes1 := bytes_of_opcode (by decide) (by decide) (hhash rfl)
    have hsize2 : (getOp (b1 :: pc1)).rest.length = 23 := by
      have hlen := length_of_opcode hbytes1
      omega
    obtain ⟨b2, pc2, hpc2⟩ := exists_cons_of_length_pos
      (by omega : 0 < (getOp (b1 :: pc1)).rest.length)
    rw [hpc2] at hloop hbytes1 hsize2
    rw [ops_cons, normalPaymentLoop_cons] at hloop
    obtain ⟨_, _, _, _, _, hloop⟩ := hloop
    have htail := tail_of_loop hloop
    -- at most two bytes are behind the third instruction, so it has data
    have hdata : (getOp (b2 :: pc2)).data ≠ [] := by
      intro hnil
      have hread := length_le_getOp (b2 :: pc2)
      have hshort := htail.length_le
      rw [hnil] at hread
      simp only [length_nil, length_cons] at hread hshort hsize2
      omega
    obtain ⟨hok, hpush⟩ := getOp_data hdata
    obtain ⟨p, hp, hbytes2⟩ := bytes_of_push hok hpush
    exact ⟨_, _, hsize, ⟨p, hp, by rw [hbytes0, hbytes1, ← hbytes2]⟩, htail⟩
  · rintro ⟨data, tail, hsize, ⟨p, hp, rfl⟩, htail⟩
    obtain ⟨opcode, _, hle, _, hget⟩ := hp.getOp_append tail
    have hdup : getOp (OP_DUP :: OP_HASH160 :: (p ++ tail)) =
        ⟨OP_DUP, [], true, OP_HASH160 :: (p ++ tail)⟩ := getOp_plain (by decide) _
    have hhash : getOp (OP_HASH160 :: (p ++ tail)) = ⟨OP_HASH160, [], true, p ++ tail⟩ :=
      getOp_plain (by decide) _
    rw [CScript.isNormalPaymentScript, Bool.and_eq_true, beq_iff_eq]
    refine ⟨hsize, ?_⟩
    rw [ops_cons, hdup, normalPaymentLoop_cons]
    refine ⟨fun _ => rfl, nofun, nofun, nofun, nofun, ?_⟩
    dsimp only
    rw [ops_cons, hhash, normalPaymentLoop_cons]
    refine ⟨nofun, fun _ => rfl, nofun, nofun, nofun, ?_⟩
    dsimp only
    rw [ops_of_ok (by rw [hget]), hget, normalPaymentLoop_cons]
    exact ⟨nofun, nofun, nofun, nofun, nofun, loop_of_tail htail⟩

/-! ## §3. Payments and what looks like one. -/

theorem pushOf_twenty {p : CScript} (hp : PushOf data p) (hsize : p.length = 21)
    (hdata : data.length = 20) : p = 0x14 :: data := by
  cases hp with
  | @direct opcode hop hlen =>
    rw [hdata] at hlen
    rw [UInt8.toNat_inj.mp (show opcode.toNat = (0x14 : UInt8).toNat from hlen)]
  | pushData1 _ =>
    simp only [length_cons] at hsize
    omega
  | pushData2 hlen _ =>
    simp only [length_cons, length_append] at hsize
    omega
  | pushData4 hlen _ =>
    simp only [length_cons, length_append] at hsize
    omega

theorem LooksNormal.isPubKeyHashScript (h : LooksNormal script data tail)
    (hdata : data.length = 20) (htail : tail = [OP_EQUALVERIFY, OP_CHECKSIG]) :
    IsPubKeyHashScript script := by
  obtain ⟨hsize, ⟨p, hp, rfl⟩, _⟩ := h
  subst htail
  have hlen : p.length = 21 := by
    simp only [length_cons, length_append, length_nil] at hsize
    omega
  exact ⟨data, hdata, by rw [pushOf_twenty hp hlen hdata, cons_append]⟩

theorem IsPubKeyHashScript.looksNormal (h : IsPubKeyHashScript script) :
    ∃ data, LooksNormal script data [OP_EQUALVERIFY, OP_CHECKSIG] := by
  obtain ⟨hash, hlen, rfl⟩ := h
  refine ⟨hash, by simp [hlen], ⟨0x14 :: hash, .direct (by decide) hlen.symm, rfl⟩, ?_⟩
  exact prefix_refl _

theorem IsPubKeyHashScript.unique (h : IsPubKeyHashScript script)
    (hlooks : LooksNormal script data tail) :
    data.length = 20 ∧ tail = [OP_EQUALVERIFY, OP_CHECKSIG] := by
  obtain ⟨hash, hlen, rfl⟩ := h
  obtain ⟨_, ⟨p, hp, hbytes⟩, _⟩ := hlooks
  have hsame : 0x14 :: (hash ++ [OP_EQUALVERIFY, OP_CHECKSIG]) = p ++ tail :=
    (cons_eq_cons.mp (cons_eq_cons.mp hbytes).2).2
  have hhash : PushOf hash (0x14 :: hash) := .direct (by decide) hlen.symm
  obtain ⟨_, _, _, _, hget⟩ := hp.getOp_append tail
  obtain ⟨_, _, _, _, hget'⟩ := hhash.getOp_append [OP_EQUALVERIFY, OP_CHECKSIG]
  rw [cons_append, hsame, hget] at hget'
  obtain ⟨_, hdata, _, htail⟩ := GetOpResult.mk.inj hget'
  exact ⟨by rw [hdata, hlen], htail⟩

/-- A script that is taken for a payment although it pushes another number of bytes, or ends
before the signature is checked. -/
def IsMistaken (script : CScript) : Prop :=
  ∃ data tail, LooksNormal script data tail ∧
    (data.length ≠ 20 ∨ tail ≠ [OP_EQUALVERIFY, OP_CHECKSIG])

/-- **`IsNormalPaymentScript` recognizes the payments to the hash of a key, but for the scripts
of 25 bytes whose push has another length or is followed by less than the pattern.** -/
theorem normalPayment_exact_iff (script : CScript) :
    (CScript.isNormalPaymentScript script = true ↔ IsPubKeyHashScript script) ↔
      ¬IsMistaken script := by
  constructor
  · rintro hexact ⟨data, tail, hlooks, hwrong⟩
    have hpay := hexact.mp (isNormalPaymentScript_iff.mpr ⟨data, tail, hlooks⟩)
    obtain ⟨hdata, htail⟩ := hpay.unique hlooks
    exact hwrong.elim (fun hne => hne hdata) fun hne => hne htail
  · intro hright
    constructor
    · intro hnormal
      obtain ⟨data, tail, hlooks⟩ := isNormalPaymentScript_iff.mp hnormal
      by_contra hpay
      refine hright ⟨data, tail, hlooks, ?_⟩
      by_contra hwrong
      rw [not_or, not_not, not_not] at hwrong
      exact hpay (hlooks.isPubKeyHashScript hwrong.1 hwrong.2)
    · intro hpay
      obtain ⟨data, hlooks⟩ := hpay.looksNormal
      exact isNormalPaymentScript_iff.mpr ⟨data, _, hlooks⟩

/-- Twenty-two bytes are pushed, and no signature is asked for. -/
theorem normalPayment_unguarded :
    CScript.isNormalPaymentScript (OP_DUP :: OP_HASH160 :: 0x16 :: replicate 22 7) = true ∧
      ¬IsPubKeyHashScript (OP_DUP :: OP_HASH160 :: 0x16 :: replicate 22 7) := by
  refine ⟨by decide, ?_⟩
  rintro ⟨hash, _, hbytes⟩
  exact absurd (cons_eq_cons.mp (cons_eq_cons.mp
    (cons_eq_cons.mp hbytes).2).2).1 (by decide)

end Fantom.Script
