/-
  Fantom.Script.FindAndDelete — `FindAndDelete` as it edits a script: it erases under the iterator
  that it reads instructions with, and counts.

  * `Instruction`, `instructions`, `malformedTail` — a script cut at its instructions,
  * `findAndDelete_exact` — exactly the instructions that it is called for are deleted.
-/
import Fantom.Lib.WhileLoop
import Fantom.Script.Pushes

namespace Fantom.Script

open Core Lib List

/-! ## §1. Instructions. -/

def Instruction (b : CScript) : Prop := (getOp b).ok = true ∧ (getOp b).rest = []

instance (b : CScript) : Decidable (Instruction b) :=
  inferInstanceAs (Decidable ((getOp b).ok = true ∧ (getOp b).rest = []))

variable {pc c script : CScript}

theorem getOp_stable (hok : (getOp pc).ok = true) :
    ∃ b, b ≠ [] ∧ pc = b ++ (getOp pc).rest ∧
      ∀ rest, getOp (b ++ rest) = ⟨(getOp pc).opcode, (getOp pc).data, true, rest⟩ := by
  by_cases hpush : (getOp pc).opcode ≤ OP_PUSHDATA4
  · obtain ⟨b, hpushes, hpc⟩ := bytes_of_push hok hpush
    obtain ⟨opcode, front, -, hb, hget⟩ := hpushes.getOp_append (getOp pc).rest
    refine ⟨b, by rw [hb]; exact cons_ne_nil _ _, hpc, fun rest => ?_⟩
    obtain ⟨opcode', front', -, hb', hget'⟩ := hpushes.getOp_append rest
    -- the opcode is the first byte, behind which the rest does not matter
    have hsame : opcode' = opcode := (cons.inj (hb'.symm.trans hb)).1
    rw [← hpc] at hget
    have hopcode : (getOp pc).opcode = opcode := by rw [hget]
    rw [hget', hsame, hopcode]
  · have hpc := bytes_of_plain hok hpush
    refine ⟨[(getOp pc).opcode], cons_ne_nil _ _, hpc, fun rest => ?_⟩
    have hplain : (getOp pc).data = [] := by
      by_contra hdata
      exact hpush (getOp_data hdata).2
    rw [singleton_append, getOp_plain hpush, hplain]

theorem Instruction.getOp_append {b : CScript} (hb : Instruction b) (rest : CScript) :
    getOp (b ++ rest) = ⟨(getOp b).opcode, (getOp b).data, true, rest⟩ := by
  obtain ⟨c, -, hbytes, hget⟩ := getOp_stable hb.1
  rw [hb.2, append_nil] at hbytes
  rw [← hbytes] at hget
  exact hget rest

theorem Instruction.ne_nil {b : CScript} (hb : Instruction b) : b ≠ [] := by
  intro h
  subst h
  cases hb.1

theorem exists_instruction (hok : (getOp pc).ok = true) :
    ∃ b, Instruction b ∧ pc = b ++ (getOp pc).rest := by
  obtain ⟨b, -, hpc, hget⟩ := getOp_stable hok
  have hself := hget []
  rw [append_nil] at hself
  exact ⟨b, ⟨by rw [hself], by rw [hself]⟩, hpc⟩

theorem Instruction.eq_of_append {b rest rest' : CScript} (hb : Instruction b) (hc : Instruction c)
    (h : b ++ rest = c ++ rest') : b = c ∧ rest = rest' := by
  have hget := hb.getOp_append rest
  rw [h, hc.getOp_append rest'] at hget
  have hrest : rest' = rest := congrArg GetOpResult.rest hget
  subst hrest
  exact ⟨append_cancel_right h, rfl⟩

theorem length_rest_lt (hok : (getOp pc).ok = true) :
    (getOp pc).rest.length < pc.length := by
  obtain ⟨b, hne, hpc, -⟩ := getOp_stable hok
  have hlen := congrArg length hpc
  have hpos := length_pos_iff.mpr hne
  rw [length_append] at hlen
  omega

/-- The instructions of a script, up to where one cannot be read. -/
def instructions (script : CScript) : List CScript :=
  if h : (getOp script).ok = true then
    have := length_rest_lt h
    script.take (script.length - (getOp script).rest.length) :: instructions (getOp script).rest
  else []
termination_by script.length

/-- The bytes behind the last instruction that can be read. -/
def malformedTail (script : CScript) : CScript :=
  if h : (getOp script).ok = true then
    have := length_rest_lt h
    malformedTail (getOp script).rest
  else script
termination_by script.length

@[simp] theorem instructions_append {b : CScript} (hb : Instruction b) (rest : CScript) :
    instructions (b ++ rest) = b :: instructions rest := by
  have hget := hb.getOp_append rest
  rw [instructions, dif_pos (by rw [hget])]
  simp only [hget, length_append, Nat.add_sub_cancel, take_left]

@[simp] theorem malformedTail_append {b : CScript} (hb : Instruction b) (rest : CScript) :
    malformedTail (b ++ rest) = malformedTail rest := by
  have hget := hb.getOp_append rest
  rw [malformedTail, dif_pos (by rw [hget])]
  simp only [hget]

theorem instructions_of_malformed (h : (getOp script).ok = false) :
    instructions script = [] := by
  rw [instructions, dif_neg (by rw [h]; decide)]

theorem malformedTail_of_malformed (h : (getOp script).ok = false) :
    malformedTail script = script := by
  rw [malformedTail, dif_neg (by rw [h]; decide)]

/-- The rule for what is true of scripts: of one that cannot be read, and, with a script, of one
with an instruction more in front. -/
theorem script_induction {P : CScript → Prop}
    (malformed : ∀ script, (getOp script).ok = false → P script)
    (instruction : ∀ b script, Instruction b → P script → P (b ++ script)) (script : CScript) :
    P script := by
  induction hn : script.length using Nat.strongRecOn generalizing script with
  | ind n ih =>
    cases hok : (getOp script).ok with
    | false => exact malformed script hok
    | true =>
      obtain ⟨b, hb, hscript⟩ := exists_instruction hok
      rw [hscript]
      exact instruction b _ hb (ih _ (hn ▸ length_rest_lt hok) _ rfl)

theorem instruction_of_mem {b : CScript} (h : b ∈ instructions script) : Instruction b := by
  induction script using script_induction with
  | malformed script hfail =>
    rw [instructions_of_malformed hfail] at h
    cases h
  | instruction c script hc ih =>
    rw [instructions_append hc] at h
    rcases mem_cons.mp h with rfl | h
    · exact hc
    · exact ih h

theorem malformedTail_fails (script : CScript) : (getOp (malformedTail script)).ok = false := by
  induction script using script_induction with
  | malformed script h => rwa [malformedTail_of_malformed h]
  | instruction b script hb ih => rwa [malformedTail_append hb]

theorem instructions_of_flatten {bs : List CScript} {tail : CScript}
    (hbs : ∀ b ∈ bs, Instruction b) (htail : (getOp tail).ok = false) :
    instructions (bs.flatten ++ tail) = bs ∧ malformedTail (bs.flatten ++ tail) = tail := by
  induction bs with
  | nil => exact ⟨instructions_of_malformed htail, malformedTail_of_malformed htail⟩
  | cons b bs ih =>
    have hb := hbs b mem_cons_self
    obtain ⟨hcut, hend⟩ := ih fun c hc => hbs c (mem_cons_of_mem b hc)
    rw [flatten_cons, append_assoc, instructions_append hb, malformedTail_append hb,
      hcut, hend]
    exact ⟨rfl, rfl⟩

/-! ## §2. The loops. -/

/-- The script as it is now, where the iterator stands in it, and how often was deleted. -/
structure Deletion where
  script : CScript
  pc : Nat
  nFound : Nat

/-- One turn: `b` is erased in front of the iterator, which stays, or an instruction is read. -/
def deleteTurn (b : CScript) (s : Deletion) : Deletion ⊕ (Nat × CScript) :=
  let ahead := s.script.drop s.pc
  if b.isPrefixOf ahead then
    -- `erase(pc, pc + b.size())`
    .inl { s with
      script := s.script.take s.pc ++ ahead.drop b.length
      nFound := s.nFound + 1 }
  else
    let r := getOp ahead
    if r.ok then .inl { s with pc := s.script.length - r.rest.length }
    else .inr (s.nFound, s.script)

/-- `FindAndDelete` returns, with the number and with what is left of the script. -/
def FindsAndDeletes (script b : CScript) (r : Nat × CScript) : Prop :=
  if b.isEmpty then r = (0, script) else WhileLoop.Ends (deleteTurn b) ⟨script, 0, 0⟩ r

/-- The instructions other than `b`, and what cannot be read. -/
def kept (b script : CScript) : CScript :=
  ((instructions script).filter (· ≠ b)).flatten ++ malformedTail script

theorem kept_append_self {b : CScript} (hb : Instruction b) (script : CScript) :
    kept b (b ++ script) = kept b script := by
  rw [kept, instructions_append hb, malformedTail_append hb, filter_cons_of_neg (by simp)]
  rfl

theorem kept_append_other {b : CScript} (hc : Instruction c) (hne : c ≠ b) (script : CScript) :
    kept b (c ++ script) = c ++ kept b script := by
  rw [kept, instructions_append hc, malformedTail_append hc,
    filter_cons_of_pos (by simpa using hne), flatten_cons, append_assoc]
  rfl

theorem kept_of_malformed {b : CScript} (h : (getOp script).ok = false) :
    kept b script = script := by
  rw [kept, instructions_of_malformed h, malformedTail_of_malformed h]
  rfl

theorem not_prefix_of_malformed {b : CScript} (hb : Instruction b) (h : (getOp script).ok = false) :
    ¬ b <+: script := by
  rintro ⟨rest, rfl⟩
  rw [hb.getOp_append rest] at h
  cases h

theorem not_prefix_of_ne {b : CScript} (hb : Instruction b) (hc : Instruction c) (hne : c ≠ b)
    (rest : CScript) : ¬ b <+: c ++ rest := by
  rintro ⟨rest', h⟩
  exact hne (hb.eq_of_append hc h).1.symm

section Turns

variable {b front ahead : CScript} {n : Nat}

theorem deleteTurn_erases : deleteTurn b ⟨front ++ (b ++ ahead), front.length, n⟩ =
    .inl ⟨front ++ ahead, front.length, n + 1⟩ := by
  have hprefix : b.isPrefixOf (b ++ ahead) = true :=
    isPrefixOf_iff_prefix.mpr (prefix_append b ahead)
  simp only [deleteTurn, drop_left, hprefix, if_true, take_left]

theorem deleteTurn_reads (hb : Instruction b) (hc : Instruction c) (hne : c ≠ b) :
    deleteTurn b ⟨front ++ (c ++ ahead), front.length, n⟩ =
      .inl ⟨front ++ c ++ ahead, (front ++ c).length, n⟩ := by
  have hprefix : ¬ b.isPrefixOf (c ++ ahead) = true := fun h =>
    not_prefix_of_ne hb hc hne ahead ( isPrefixOf_iff_prefix.mp h)
  simp only [deleteTurn, drop_left, if_neg hprefix, hc.getOp_append, if_true]
  -- the iterator stands as far from the end as what is left to read is long
  have hpc : (front ++ (c ++ ahead)).length - ahead.length = (front ++ c).length := by
    simp only [length_append]
    omega
  rw [hpc, append_assoc]

theorem deleteTurn_stops (hb : Instruction b) (h : (getOp ahead).ok = false) :
    deleteTurn b ⟨front ++ ahead, front.length, n⟩ = .inr (n, front ++ ahead) := by
  have hprefix : ¬ b.isPrefixOf ahead = true := fun h' =>
    not_prefix_of_malformed hb h ( isPrefixOf_iff_prefix.mp h')
  simp only [deleteTurn, drop_left, if_neg hprefix, h]
  rfl

end Turns

/-- **The loops end**: of what is ahead of the iterator they leave what is not `b`, and count the
rest. -/
theorem ends_deleteTurn {b : CScript} (hb : Instruction b) (ahead : CScript) :
    ∀ front n, WhileLoop.Ends (deleteTurn b) ⟨front ++ ahead, front.length, n⟩
      (n + (instructions ahead).count b, front ++ kept b ahead) := by
  induction ahead using script_induction with
  | malformed ahead h =>
    intro front n
    rw [WhileLoop.ends_inr_iff (deleteTurn_stops hb h), instructions_of_malformed h,
      kept_of_malformed h]
    rfl
  | instruction c ahead hc ih =>
    intro front n
    by_cases hne : c = b
    · subst hne
      rw [WhileLoop.ends_inl_iff deleteTurn_erases, instructions_append hc, kept_append_self hc,
        count_cons_self]
      have hrest := ih front (n + 1)
      rwa [show n + 1 + (instructions ahead).count c = n + ((instructions ahead).count c + 1) by
        omega] at hrest
    · rw [WhileLoop.ends_inl_iff (deleteTurn_reads hb hc hne), instructions_append hc,
        kept_append_other hc hne, count_cons_of_ne hne, ← append_assoc]
      exact ih (front ++ c) n

/-! ## §3. The interpreters' version. -/

theorem eraseFront_spec {b : CScript} (hb : Instruction b) (fuel : Nat) (hfuel : pc.length ≤ fuel) :
    kept b (eraseFront b fuel pc) = kept b pc ∧ ¬ b <+: eraseFront b fuel pc ∧
      (eraseFront b fuel pc).length ≤ pc.length := by
  have hpos := length_pos_iff.mpr hb.ne_nil
  induction fuel generalizing pc with
  | zero =>
    obtain rfl := length_eq_zero_iff.mp (Nat.le_zero.mp hfuel)
    exact ⟨rfl, fun h => hb.ne_nil (prefix_nil.mp h), Nat.le_refl _⟩
  | succ fuel ih =>
    rw [eraseFront]
    split
    next hprefix =>
      obtain ⟨rest, rfl⟩ := isPrefixOf_iff_prefix.mp hprefix
      rw [length_append] at hfuel
      rw [drop_left]
      obtain ⟨hkept, hfront, hlen⟩ := ih (show rest.length ≤ fuel by omega)
      refine ⟨by rw [hkept, kept_append_self hb], hfront, ?_⟩
      rw [length_append]
      omega
    next hprefix =>
      exact ⟨rfl, fun h => hprefix ( isPrefixOf_iff_prefix.mpr h), Nat.le_refl _⟩

theorem findAndDeleteLoop_eq {b : CScript} (hb : Instruction b) (fuel : Nat)
    (hfuel : pc.length < fuel) : findAndDeleteLoop b fuel pc = kept b pc := by
  induction fuel generalizing pc with
  | zero => omega
  | succ fuel ih =>
    obtain ⟨hkept, hfront, hlen⟩ := eraseFront_spec hb pc.length (Nat.le_refl _)
    rw [findAndDeleteLoop, ← hkept]
    generalize eraseFront b pc.length pc = front at hfront hlen
    cases hok : (getOp front).ok with
    | false =>
      rw [kept_of_malformed hok]
      exact if_neg (by decide)
    | true =>
      obtain ⟨c, hc, hbytes⟩ := exists_instruction hok
      have hlt := length_rest_lt hok
      have hne : c ≠ b := by
        intro h
        apply hfront
        rw [hbytes, h]
        exact prefix_append b _
      rw [if_pos rfl, ih (show (getOp front).rest.length < fuel by omega)]
      generalize (getOp front).rest = rest at hbytes
      rw [hbytes, kept_append_other hc hne, length_append, Nat.add_sub_cancel,
        take_left]

/-- **What the interpreters sign for** is the script with the instructions deleted. -/
theorem findAndDelete_eq_kept {b : CScript} (hb : Instruction b) (script : CScript) :
    CScript.findAndDelete script b = kept b script := by
  have hne : ¬ b.isEmpty = true := fun h => hb.ne_nil (isEmpty_iff.mp h)
  rw [CScript.findAndDelete, if_neg hne]
  exact findAndDeleteLoop_eq hb _ (Nat.lt_succ_self _)

/-! ## §4. What `FindAndDelete` does. -/

theorem findsAndDeletes_kept {b : CScript} (hb : Instruction b) (script : CScript) :
    FindsAndDeletes script b ((instructions script).count b, kept b script) := by
  have hends := ends_deleteTurn hb script [] 0
  rw [Nat.zero_add] at hends
  have hne : ¬ b.isEmpty = true := fun h => hb.ne_nil (isEmpty_iff.mp h)
  rw [FindsAndDeletes, if_neg hne]
  exact hends

theorem FindsAndDeletes.unique {b : CScript} {r r' : Nat × CScript} (h : FindsAndDeletes script b r)
    (h' : FindsAndDeletes script b r') : r = r' := by
  unfold FindsAndDeletes at h h'
  split at h
  next hempty =>
    rw [if_pos hempty] at h'
    exact h.trans h'.symm
  next hne =>
    rw [if_neg hne] at h'
    exact h.unique h'

theorem instructions_kept (b script : CScript) :
    instructions (kept b script) = (instructions script).filter (· ≠ b) ∧
      malformedTail (kept b script) = malformedTail script :=
  instructions_of_flatten (fun _ hc => instruction_of_mem (mem_of_mem_filter hc))
    (malformedTail_fails script)

end Fantom.Script
