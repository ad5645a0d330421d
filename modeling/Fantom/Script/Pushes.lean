/-
  Fantom.Script.Pushes — Scripts that only push, as signing writes them, and what the push of a
  signature does to the script it is checked against.

  * `findAndDelete_eq_self` — a script that holds no such push is not changed.
-/
import Fantom.Core.Decoding
import Fantom.Script.Signature

namespace Fantom.Script

open Core List CScript

/-! ## §1. One push. -/

variable {b : Valtype} {bs : List Valtype} {pc script : CScript}

theorem pushOf_push (hb : b.length < 2 ^ 32) : PushOf b (push b) := by
  have hto (h : b.length < 256) : (UInt8.ofNat b.length).toNat = b.length := by
    rw [UInt8.toNat_ofNat']
    omega
  have hdata1 : OP_PUSHDATA1.toNat = 76 := rfl
  unfold push
  split
  next hlen =>
    have hsize := hto (by omega)
    exact .direct (UInt8.lt_iff_toNat_lt.mpr (by rw [hsize]; exact hlen)) hsize
  next =>
    split
    next hlen => exact .pushData1 (hto (by omega))
    next =>
      split
      next hlen => exact .pushData2 (leBytes_length 2 b.length) (ofLEBytes_leBytes (by omega))
      next => exact .pushData4 (leBytes_length 4 b.length) (ofLEBytes_leBytes (by omega))

theorem getOp_push (hb : b.length < 2 ^ 32) (rest : CScript) :
    ∃ opcode, opcode ≤ OP_PUSHDATA4 ∧
      getOp (push b ++ rest) = ⟨opcode, b, true, rest⟩ := by
  obtain ⟨opcode, _, hle, _, hget⟩ := (pushOf_push hb).getOp_append rest
  exact ⟨opcode, hle, hget⟩

theorem length_le_push (b : Valtype) : b.length ≤ (push b).length := by
  unfold push
  split
  · rw [length_cons]
    omega
  · split
    · rw [length_append]
      omega
    · split <;>
      · rw [length_append]
        omega

/-! ## §2. Many pushes. -/

/-- `CScript() << bs[0] << bs[1] << …` -/
def pushes (bs : List Valtype) : CScript := (bs.map push).flatten

@[simp] theorem pushes_nil : pushes [] = [] := rfl

@[simp] theorem pushes_append (bs cs : List Valtype) :
    pushes (bs ++ cs) = pushes bs ++ pushes cs := by
  rw [pushes, map_append, flatten_append, pushes, pushes]

theorem pushes_singleton (b : Valtype) : pushes [b] = push b := by
  rw [pushes, map_singleton, flatten_singleton]

theorem length_le_pushes (hb : b ∈ bs) :
    b.length ≤ (pushes bs).length := by
  have hmem : push b ∈ bs.map push := mem_map_of_mem hb
  exact (length_le_push b).trans (List.Sublist.length_le (sublist_flatten_of_mem hmem))

theorem ops_pushes (hbs : ∀ b ∈ bs, b.length < 2 ^ 32) :
    (∀ r ∈ ops (pushes bs), r.ok = true ∧ r.opcode ≤ OP_PUSHDATA4) ∧
      (ops (pushes bs)).map GetOpResult.data = bs := by
  induction bs with
  | nil => exact ⟨by simp [ops, opsFrom], rfl⟩
  | cons b bs ih =>
    obtain ⟨hrest, hdata⟩ := ih fun c hc => hbs c (mem_cons_of_mem b hc)
    obtain ⟨opcode, hle, hget⟩ := getOp_push (hbs b mem_cons_self) (pushes bs)
    have hops : ops (pushes (b :: bs)) =
        ⟨opcode, b, true, pushes bs⟩ :: ops (pushes bs) := by
      rw [pushes, map_cons, flatten_cons, ← pushes]
      rw [ops_of_ok (by rw [hget]), hget]
    rw [hops]
    refine ⟨?_, ?_⟩
    · intro r hr
      rcases mem_cons.mp hr with rfl | hr
      · exact ⟨rfl, hle⟩
      · exact hrest r hr
    · rw [map_cons, hdata]

theorem isPushOnly_pushes (hbs : ∀ b ∈ bs, b.length < 2 ^ 32) :
    isPushOnly (pushes bs) = true := by
  refine all_eq_true.mpr fun r hr => ?_
  obtain ⟨hok, hle⟩ := (ops_pushes hbs).1 r hr
  rw [hok, Bool.true_and, decide_eq_true_eq]
  exact UInt8.le_trans hle (by decide)

/-! ## §3. `FindAndDelete`. -/

theorem eraseFront_eq_self {b : CScript} (h : ¬b <+: pc) (fuel : Nat) :
    eraseFront b fuel pc = pc := by
  cases fuel with
  | zero => rfl
  | succ fuel =>
    rw [eraseFront, if_neg]
    rwa [ isPrefixOf_iff_prefix]

theorem not_startsWith_push (hb : b.length < 2 ^ 32) (h : ∀ r ∈ ops pc, r.data ≠ b) :
    ¬push b <+: pc := by
  rintro ⟨rest, rfl⟩
  obtain ⟨opcode, _, hget⟩ := getOp_push hb rest
  have hops := ops_of_ok (show (getOp (push b ++ rest)).ok = true by rw [hget])
  refine h (getOp (push b ++ rest)) ?_ (by rw [hget])
  rw [hops]
  exact mem_cons_self

theorem findAndDeleteLoop_eq_self {b : CScript} {P : CScript → Prop}
    (hstart : ∀ pc, P pc → ¬b <+: pc)
    (hnext : ∀ pc, P pc → (getOp pc).ok = true → P (getOp pc).rest) (fuel : Nat) (h : P pc) :
    findAndDeleteLoop b fuel pc = pc := by
  induction fuel generalizing pc with
  | zero => rfl
  | succ fuel ih =>
    rw [findAndDeleteLoop, eraseFront_eq_self (hstart pc h)]
    split
    next hok =>
      have hsuffix : (getOp pc).rest <:+ pc := by
        cases pc with
        | nil => cases hok
        | cons opcode pc => exact (getOp_suffix opcode pc).trans (suffix_cons opcode pc)
      obtain ⟨front, hfront⟩ := hsuffix
      have hlen : pc.length - (getOp pc).rest.length = front.length := by
        have := congrArg length hfront
        rw [length_append] at this
        omega
      rw [ih (hnext pc h hok), hlen]
      calc pc.take front.length ++ (getOp pc).rest
          = (front ++ (getOp pc).rest).take front.length ++ (getOp pc).rest := by rw [hfront]
        _ = pc := by rw [take_left, hfront]
    next => rfl

/-- **Nothing to delete**: a script none of whose instructions pushes `b`. -/
theorem findAndDelete_eq_self (hb : b.length < 2 ^ 32) (h : ∀ r ∈ ops script, r.data ≠ b) :
    findAndDelete script (push b) = script := by
  unfold findAndDelete
  split
  · rfl
  · refine findAndDeleteLoop_eq_self (fun pc hpc => not_startsWith_push hb hpc)
      (fun pc hpc hok r hr => hpc r ?_) _ h
    rw [ops_of_ok hok]
    exact mem_cons_of_mem _ hr

/-- No instruction up to the first that cannot be read is `OP_CODESEPARATOR`. -/
def CScript.NoCodeSeparator (script : CScript) : Prop :=
  ∀ r ∈ (ops script).takeWhile (·.ok), r.opcode ≠ OP_CODESEPARATOR

instance (script : CScript) : Decidable (CScript.NoCodeSeparator script) :=
  inferInstanceAs
    (Decidable (∀ r ∈ (ops script).takeWhile (·.ok), r.opcode ≠ OP_CODESEPARATOR))

/-- **A script without separators** is signed as it is. -/
theorem findAndDelete_separator_eq_self (h : CScript.NoCodeSeparator script) :
    findAndDelete script [OP_CODESEPARATOR] = script := by
  rw [findAndDelete, if_neg (by decide)]
  refine findAndDeleteLoop_eq_self (P := CScript.NoCodeSeparator) ?_ ?_ _ h
  · rintro pc hpc ⟨rest, rfl⟩
    have hget : getOp ([OP_CODESEPARATOR] ++ rest) = ⟨OP_CODESEPARATOR, [], true, rest⟩ := rfl
    have hok : (getOp ([OP_CODESEPARATOR] ++ rest)).ok = true := by rw [hget]
    refine hpc (getOp ([OP_CODESEPARATOR] ++ rest)) ?_ (by rw [hget])
    rw [ops_of_ok hok, takeWhile_cons_of_pos hok]
    exact mem_cons_self
  · intro pc hpc hok r hr
    refine hpc r ?_
    rw [ops_of_ok hok, takeWhile_cons_of_pos hok]
    exact mem_cons_of_mem _ hr

theorem foldl_findAndDelete_eq_self {sigs : List Valtype}
    (hsigs : ∀ b ∈ sigs, b.length < 2 ^ 32 ∧ ∀ r ∈ ops script, r.data ≠ b) :
    sigs.foldl (fun scriptCode vchSig => findAndDelete scriptCode (push vchSig))
      script = script := by
  induction sigs with
  | nil => rfl
  | cons b sigs ih =>
    obtain ⟨hb, hops⟩ := hsigs b mem_cons_self
    rw [foldl_cons, findAndDelete_eq_self hb hops]
    exact ih fun c hc => hsigs c (mem_cons_of_mem b hc)

end Fantom.Script
