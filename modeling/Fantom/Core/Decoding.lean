/-
  Fantom.Core.Decoding — What `GetOp` reads of a script.

  * `PushOf`, `bytes_of_push` — the bytes that push data, in each of the encodings.
-/
import Fantom.Core.Script

namespace Fantom.Core

open List UInt8 Nat

/-! ## §1. One instruction. -/

variable (opcode : UInt8)

theorem getOperand_length_le (nSize : Nat) (pc : List UInt8) :
    (getOperand opcode nSize pc).data.length ≤ pc.length ∧
    (getOperand opcode nSize pc).rest.length ≤ pc.length := by
  unfold getOperand
  split
  · exact ⟨zero_le _, le_refl _⟩
  · rw [length_take, length_drop]
    omega

theorem getOperand_suffix (nSize : Nat) (pc : List UInt8) :
    (getOperand opcode nSize pc).rest <:+ pc := by
  unfold getOperand
  split
  · exact suffix_refl pc
  · exact drop_suffix nSize pc

variable (pc : List UInt8)

/-- The cases of `GetOp`: it fails, it reads an operand behind the opcode and its
length, or there is none to read. -/
theorem getOp_cases : (∃ k ≤ 4, getOp (opcode :: pc) = .fail (pc.drop k)) ∨ (opcode ≤ OP_PUSHDATA4 ∧
    ∃ nSize, ∃ k ≤ 4, getOp (opcode :: pc) = getOperand opcode nSize (pc.drop k)) ∨
    getOp (opcode :: pc) = ⟨opcode, [], true, pc⟩ := by
  unfold getOp
  dsimp only
  split
  next hpush =>
    split
    next => exact .inr (.inl ⟨hpush, opcode.toNat, 0, by omega, rfl⟩)
    next =>
      split
      next =>
        cases pc with
        | nil => exact .inl ⟨0, by omega, rfl⟩
        | cons nSize pc => exact .inr (.inl ⟨hpush, nSize.toNat, 1, by omega, rfl⟩)
      next =>
        split
        · split
          · exact .inl ⟨0, by omega, rfl⟩
          · exact .inr (.inl ⟨hpush, _, 2, by omega, rfl⟩)
        · split
          · exact .inl ⟨0, by omega, rfl⟩
          · exact .inr (.inl ⟨hpush, _, 4, by omega, rfl⟩)
  next => exact .inr (.inr rfl)

theorem getOp_suffix : (getOp (opcode :: pc)).rest <:+ pc := by
  rcases getOp_cases opcode pc with ⟨k, hk, h⟩ | ⟨_, nSize, k, hk, h⟩ | h
  · rw [h]
    exact drop_suffix k pc
  · rw [h]
    exact (getOperand_suffix opcode nSize (pc.drop k)).trans (drop_suffix k pc)
  · rw [h]

theorem getOp_length_le :
    (getOp pc).data.length ≤ pc.length ∧ (getOp pc).rest.length ≤ pc.length := by
  cases pc with
  | nil => exact ⟨le_refl _, le_refl _⟩
  | cons opcode pc =>
    refine ⟨?_, ?_⟩
    · rcases getOp_cases opcode pc with ⟨k, hk, h⟩ | ⟨_, nSize, k, hk, h⟩ | h
      · rw [h]
        exact zero_le _
      · rw [h]
        have hle := (getOperand_length_le opcode nSize (pc.drop k)).1
        rw [length_drop] at hle
        rw [length_cons]
        omega
      · rw [h]
        exact zero_le _
    · have hle := (getOp_suffix opcode pc).length_le
      rw [length_cons]
      omega

theorem length_le_getOp : pc.length ≤ (getOp pc).rest.length + ((getOp pc).data.length + 5) := by
  cases pc with
  | nil => exact zero_le _
  | cons opcode pc =>
    rw [length_cons]
    rcases getOp_cases opcode pc with ⟨k, hk, h⟩ | ⟨_, nSize, k, hk, h⟩ | h
    · rw [h]
      show pc.length + 1 ≤ (pc.drop k).length + (0 + 5)
      rw [length_drop]
      omega
    · rw [h]
      unfold getOperand
      split
      next =>
        show pc.length + 1 ≤ (pc.drop k).length + (0 + 5)
        rw [length_drop]
        omega
      next =>
        show pc.length + 1 ≤ ((pc.drop k).drop nSize).length + (((pc.drop k).take nSize).length + 5)
        rw [length_drop, length_take, length_drop]
        omega
    · rw [h]
      show pc.length + 1 ≤ pc.length + (0 + 5)
      omega

variable {pc : List UInt8}

theorem getOp_data (h : (getOp pc).data ≠ []) :
    (getOp pc).ok = true ∧ (getOp pc).opcode ≤ OP_PUSHDATA4 := by
  cases pc with
  | nil => exact absurd rfl h
  | cons opcode pc =>
    rcases getOp_cases opcode pc with ⟨k, hk, heq⟩ | ⟨hpush, nSize, k, hk, heq⟩ | heq
    · rw [heq] at h
      exact absurd rfl h
    · rw [heq] at h ⊢
      unfold getOperand at h ⊢
      split
      next hshort =>
        rw [if_pos hshort] at h
        exact absurd rfl h
      next => exact ⟨rfl, hpush⟩
    · rw [heq] at h
      exact absurd rfl h

theorem getOp_fail_opcode (h : (getOp pc).ok = false) :
    (getOp pc).opcode = OP_INVALIDOPCODE := by
  cases pc with
  | nil => rfl
  | cons opcode pc =>
    rcases getOp_cases opcode pc with ⟨k, hk, heq⟩ | ⟨_, nSize, k, hk, heq⟩ | heq
    · rw [heq]
      rfl
    · rw [heq] at h ⊢
      unfold getOperand at h ⊢
      split
      next => rfl
      next hlong =>
        rw [if_neg hlong] at h
        cases h
    · rw [heq] at h
      cases h

theorem getOp_plain {opcode : UInt8} (h : ¬opcode ≤ OP_PUSHDATA4) (pc : List UInt8) :
    getOp (opcode :: pc) = ⟨opcode, [], true, pc⟩ := by
  unfold getOp
  exact if_neg h

theorem bytes_of_plain (hok : (getOp pc).ok = true) (h : ¬(getOp pc).opcode ≤ OP_PUSHDATA4) : pc =
    (getOp pc).opcode :: (getOp pc).rest := by
  cases pc with
  | nil => cases hok
  | cons opcode pc =>
    by_cases hop : opcode ≤ OP_PUSHDATA4
    · rcases getOp_cases opcode pc with ⟨k, _, heq⟩ | ⟨_, nSize, k, _, heq⟩ | heq
      · rw [heq] at hok
        cases hok
      · rw [heq] at hok h
        unfold getOperand at hok h
        split at hok
        next => cases hok
        next hlong =>
          rw [if_neg hlong] at h
          exact absurd hop h
      · rw [heq] at h
        exact absurd hop h
    · rw [getOp_plain hop]

/-! ## §2. The encodings of a push. -/

theorem getOperand_append (b rest : List UInt8) :
    getOperand opcode b.length (b ++ rest) = ⟨opcode, b, true, rest⟩ := by
  rw [getOperand, if_neg (by rw [length_append]; omega), take_left, drop_left]

theorem getOperand_bytes {opcode : UInt8} {nSize : Nat}
    (hok : (getOperand opcode nSize pc).ok = true) :
    (getOperand opcode nSize pc).data.length = nSize ∧
      pc = (getOperand opcode nSize pc).data ++ (getOperand opcode nSize pc).rest := by
  unfold getOperand at hok ⊢
  split at hok
  next => cases hok
  next hlong =>
    rw [if_neg hlong]
    refine ⟨?_, (take_append_drop nSize pc).symm⟩
    show (pc.take nSize).length = nSize
    rw [length_take]
    omega

theorem getOp_direct {opcode : UInt8} (h : opcode < OP_PUSHDATA1) (pc : List UInt8) :
    getOp (opcode :: pc) = getOperand opcode opcode.toNat pc := by
  have hle : opcode ≤ OP_PUSHDATA4 := UInt8.le_trans (UInt8.le_of_lt h) (by decide)
  exact (if_pos hle).trans (if_pos h)

theorem getOp_pushData1 (nSize : UInt8) (pc : List UInt8) :
    getOp (OP_PUSHDATA1 :: nSize :: pc) = getOperand OP_PUSHDATA1 nSize.toNat pc := rfl

theorem getOp_pushData2 {nSize : List UInt8} (h : nSize.length = 2) (pc : List UInt8) :
    getOp (OP_PUSHDATA2 :: (nSize ++ pc)) = getOperand OP_PUSHDATA2 (ofLEBytes nSize) pc := by
  have hlong : ¬(nSize ++ pc).length < 2 := by
    rw [length_append]
    omega
  have hget : getOp (OP_PUSHDATA2 :: (nSize ++ pc)) = getOperand OP_PUSHDATA2
      (ofLEBytes ((nSize ++ pc).take 2)) ((nSize ++ pc).drop 2) := if_neg hlong
  rw [hget, take_left' h, drop_left' h]

theorem getOp_pushData4 {nSize : List UInt8} (h : nSize.length = 4) (pc : List UInt8) :
    getOp (OP_PUSHDATA4 :: (nSize ++ pc)) = getOperand OP_PUSHDATA4 (ofLEBytes nSize) pc := by
  have hlong : ¬(nSize ++ pc).length < 4 := by
    rw [length_append]
    omega
  have hget : getOp (OP_PUSHDATA4 :: (nSize ++ pc)) = getOperand OP_PUSHDATA4
      (ofLEBytes ((nSize ++ pc).take 4)) ((nSize ++ pc).drop 4) := if_neg hlong
  rw [hget, take_left' h, drop_left' h]

theorem exists_eq_append {k : Nat} (h : ¬pc.length < k) :
    ∃ nSize rest, nSize.length = k ∧ pc = nSize ++ rest := by
  refine ⟨pc.take k, pc.drop k, ?_, (take_append_drop k pc).symm⟩
  rw [length_take]
  omega

/-- The bytes that push `data`: the size is in the opcode, or in one, two or four bytes
behind it. -/
inductive PushOf (data : List UInt8) : CScript → Prop
  | direct {opcode : UInt8} (hopcode : opcode < OP_PUSHDATA1)
      (hsize : opcode.toNat = data.length) : PushOf data (opcode :: data)
  | pushData1 {nSize : UInt8} (hsize : nSize.toNat = data.length) :
      PushOf data (OP_PUSHDATA1 :: nSize :: data)
  | pushData2 {nSize : List UInt8} (hlen : nSize.length = 2)
      (hsize : ofLEBytes nSize = data.length) : PushOf data (OP_PUSHDATA2 :: (nSize ++ data))
  | pushData4 {nSize : List UInt8} (hlen : nSize.length = 4)
      (hsize : ofLEBytes nSize = data.length) : PushOf data (OP_PUSHDATA4 :: (nSize ++ data))

theorem PushOf.getOp_append {data : List UInt8} {bytes : CScript} (h : PushOf data bytes)
    (rest : CScript) :
    ∃ opcode front, opcode ≤ OP_PUSHDATA4 ∧ bytes = opcode :: front ∧
      getOp (bytes ++ rest) = ⟨opcode, data, true, rest⟩ := by
  cases h with
  | @direct opcode hopcode hsize =>
    have hle : opcode ≤ OP_PUSHDATA4 := UInt8.le_trans (UInt8.le_of_lt hopcode) (by decide)
    refine ⟨opcode, data, hle, rfl, ?_⟩
    rw [cons_append, getOp_direct hopcode, hsize]
    exact getOperand_append opcode data rest
  | @pushData1 nSize hsize =>
    refine ⟨OP_PUSHDATA1, nSize :: data, by decide, rfl, ?_⟩
    rw [cons_append, cons_append, getOp_pushData1, hsize]
    exact getOperand_append OP_PUSHDATA1 data rest
  | @pushData2 nSize hlen hsize =>
    refine ⟨OP_PUSHDATA2, nSize ++ data, by decide, rfl, ?_⟩
    rw [cons_append, append_assoc, getOp_pushData2 hlen, hsize]
    exact getOperand_append OP_PUSHDATA2 data rest
  | @pushData4 nSize hlen hsize =>
    refine ⟨OP_PUSHDATA4, nSize ++ data, by decide, rfl, ?_⟩
    rw [cons_append, append_assoc, getOp_pushData4 hlen, hsize]
    exact getOperand_append OP_PUSHDATA4 data rest

/-- **What `GetOp` read as a push is one**, in one of the encodings. -/
theorem bytes_of_push (hok : (getOp pc).ok = true) (h : (getOp pc).opcode ≤ OP_PUSHDATA4) :
    ∃ bytes, PushOf (getOp pc).data bytes ∧ pc = bytes ++ (getOp pc).rest := by
  cases pc with
  | nil => cases hok
  | cons opcode pc =>
    by_cases hop : opcode ≤ OP_PUSHDATA4
    swap
    · rw [getOp_plain hop] at h
      exact absurd h hop
    by_cases hdirect : opcode < OP_PUSHDATA1
    · rw [getOp_direct hdirect] at hok ⊢
      obtain ⟨hsize, hpc⟩ := getOperand_bytes hok
      refine ⟨_, .direct hdirect hsize.symm, ?_⟩
      rw [cons_append, ← hpc]
    by_cases hone : opcode = OP_PUSHDATA1
    · subst hone
      cases pc with
      | nil => cases hok
      | cons nSize pc =>
        rw [getOp_pushData1] at hok ⊢
        obtain ⟨hsize, hpc⟩ := getOperand_bytes hok
        refine ⟨_, .pushData1 hsize.symm, ?_⟩
        rw [cons_append, cons_append, ← hpc]
    by_cases htwo : opcode = OP_PUSHDATA2
    · subst htwo
      by_cases hshort : pc.length < 2
      · have hfail : getOp (OP_PUSHDATA2 :: pc) = .fail pc := if_pos hshort
        rw [hfail] at hok
        cases hok
      · obtain ⟨nSize, rest, hlen, rfl⟩ := exists_eq_append hshort
        rw [getOp_pushData2 hlen] at hok ⊢
        obtain ⟨hsize, hpc⟩ := getOperand_bytes hok
        refine ⟨_, .pushData2 hlen hsize.symm, ?_⟩
        rw [cons_append, append_assoc, ← hpc]
    -- the opcode that is left
    obtain rfl : opcode = OP_PUSHDATA4 := by
      have hnot1 : ¬opcode.toNat < 76 := fun hlt => hdirect (lt_iff_toNat_lt.mpr hlt)
      have hle4 : opcode.toNat ≤ 78 := le_iff_toNat_le.mp hop
      have hne1 : opcode.toNat ≠ 76 := fun heq => hone (UInt8.toNat_inj.mp heq)
      have hne2 : opcode.toNat ≠ 77 := fun heq => htwo (UInt8.toNat_inj.mp heq)
      exact UInt8.toNat_inj.mp (show opcode.toNat = 78 by omega)
    by_cases hshort : pc.length < 4
    · have hfail : getOp (OP_PUSHDATA4 :: pc) = .fail pc := if_pos hshort
      rw [hfail] at hok
      cases hok
    · obtain ⟨nSize, rest, hlen, rfl⟩ := exists_eq_append hshort
      rw [getOp_pushData4 hlen] at hok ⊢
      obtain ⟨hsize, hpc⟩ := getOperand_bytes hok
      refine ⟨_, .pushData4 hlen hsize.symm, ?_⟩
      rw [cons_append, append_assoc, ← hpc]

/-! ## §3. All of a script. -/

theorem data_length_le {fuel : Nat} {r : GetOpResult} (h : r ∈ opsFrom fuel pc) :
    r.data.length ≤ pc.length := by
  induction fuel generalizing pc with
  | zero => cases h
  | succ fuel ih =>
    cases pc with
    | nil => cases h
    | cons b pc =>
      have hop := getOp_length_le (b :: pc)
      rw [opsFrom] at h
      rcases mem_cons.mp h with rfl | hrest
      · exact hop.1
      · exact (ih hrest).trans hop.2

theorem opsFrom_eq_ops {fuel : Nat} (h : pc.length ≤ fuel) :
    opsFrom fuel pc = CScript.ops pc := by
  suffices hall : ∀ n fuel pc, pc.length ≤ n → n ≤ fuel → opsFrom fuel pc = opsFrom n pc from
    hall pc.length fuel pc (le_refl _) h
  intro n
  induction n with
  | zero =>
    intro fuel pc hpc _
    obtain rfl := length_eq_zero_iff.mp (le_zero.mp hpc)
    cases fuel <;> rfl
  | succ n ih =>
    intro fuel pc hpc hfuel
    obtain ⟨fuel, rfl⟩ : ∃ k, fuel = k + 1 := ⟨fuel - 1, by omega⟩
    cases pc with
    | nil => rfl
    | cons b pc =>
      have hrest := (getOp_suffix b pc).length_le
      rw [length_cons] at hpc
      dsimp only [opsFrom]
      rw [ih fuel _ (by omega) (by omega)]

theorem ops_cons (b : UInt8) (pc : List UInt8) :
    CScript.ops (b :: pc) = getOp (b :: pc) :: CScript.ops (getOp (b :: pc)).rest := by
  rw [← opsFrom_eq_ops (getOp_suffix b pc).length_le]
  rfl

theorem length_le_ops (script : CScript) :
    script.length ≤ ((CScript.ops script).map fun r => r.data.length + 5).sum := by
  -- on the bytes that are left
  induction hlen : script.length using Nat.strongRecOn generalizing script with
  | ind n ih =>
    cases script with
    | nil =>
      rw [← hlen]
      exact zero_le _
    | cons b pc =>
      have hop := length_le_getOp (b :: pc)
      have hrest := ih (getOp (b :: pc)).rest.length
        (by have hle := (getOp_suffix b pc).length_le; rw [length_cons] at hlen; omega) _ rfl
      rw [ops_cons, map_cons, sum_cons]
      omega

theorem ops_of_ok (h : (getOp pc).ok = true) :
    CScript.ops pc = getOp pc :: CScript.ops (getOp pc).rest := by
  cases pc with
  | nil => cases h
  | cons b pc => exact ops_cons b pc

theorem ops_eq_nil : CScript.ops pc = [] ↔ pc = [] := by
  cases pc with
  | nil => exact ⟨fun _ => rfl, fun _ => rfl⟩
  | cons b pc =>
    rw [ops_cons]
    exact ⟨fun h => absurd h (cons_ne_nil _ _), fun h => absurd h (cons_ne_nil _ _)⟩

theorem ops_eq_cons {r : GetOpResult} {rs : List GetOpResult} (h : CScript.ops pc = r :: rs) : r =
    getOp pc ∧ CScript.ops r.rest = rs := by
  cases pc with
  | nil => cases h
  | cons b pc =>
    rw [ops_cons] at h
    obtain ⟨rfl, hrest⟩ := cons_eq_cons.mp h
    exact ⟨rfl, hrest⟩

end Fantom.Core
