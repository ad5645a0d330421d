/-
  Fantom.Blanknode.Removal — One blanknode is taken off the list by its input.

  * `remove_exact_iff` — when the call returns with that entry gone and all others as they were.

  The loop advances its iterator nowhere.
-/
import Fantom.Blanknode.Registry
import Fantom.Lib.WhileLoop

namespace Fantom.Blanknode

open Core Lib

namespace CBlanknodeRegistry

/-! ## §1. `CBlanknodeMan::Remove`. -/

/-- `while (it != vBlanknodes.end())`, one turn with `it` at a place.  `now i` is the time at which
the erasure copies the entry that stood at place `i`. -/
def removeTurn (now : Nat → Int64) (vin : CTxIn) :
    CBlanknodeRegistry × Nat → (CBlanknodeRegistry × Nat) ⊕ CBlanknodeRegistry
  | (man, it) =>
    match man.vBlanknodes.elems[it]? with
    | none => .inr man
    | some sn =>
      if sn.vin.eqv vin then
        -- `break`
        .inr { man with
          vBlanknodes := man.vBlanknodes.erase (fun i => CBlanknodeEntry.assign (now i)) it }
      else
        -- no `++it`
        .inl (man, it)

/-- `Remove(vin)` returns and leaves `man'`. -/
def Removes (now : Nat → Int64) (vin : CTxIn) (man man' : CBlanknodeRegistry) : Prop :=
  WhileLoop.Ends (removeTurn now vin) (man, 0) man'

/-- The list without its first entry for `vin`, and everything else as it was. -/
def WithoutFirst (vin : CTxIn) (man man' : CBlanknodeRegistry) : Prop :=
  man'.vBlanknodes.elems = man.vBlanknodes.elems.eraseP (fun sn => sn.vin.eqv vin) ∧
    man'.mAskedUsForBlanknodeList = man.mAskedUsForBlanknodeList ∧
    man'.mWeAskedForBlanknodeList = man.mWeAskedForBlanknodeList ∧
    man'.mWeAskedForBlanknodeListEntry = man.mWeAskedForBlanknodeListEntry

variable {now : Nat → Int64} {vin : CTxIn} {man man' : CBlanknodeRegistry}

/-! ## §2. The first entry decides. -/

theorem removes_of_nil (h : man.vBlanknodes.elems = []) :
    Removes now vin man man' ↔ man = man' := by
  have hturn : removeTurn now vin (man, 0) = .inr man := by simp [removeTurn, h]
  exact WhileLoop.ends_inr_iff hturn

theorem removes_of_first {sn : CBlanknodeEntry} {rest : List CBlanknodeEntry}
    (h : man.vBlanknodes.elems = sn :: rest) (hsn : sn.vin.eqv vin = true) :
    Removes now vin man man' ↔
      { man with
        vBlanknodes := man.vBlanknodes.erase (fun i => CBlanknodeEntry.assign (now i)) 0 } =
          man' := by
  have hturn : removeTurn now vin (man, 0) = .inr { man with
      vBlanknodes := man.vBlanknodes.erase (fun i => CBlanknodeEntry.assign (now i)) 0 } := by
    simp [removeTurn, h, hsn]
  exact WhileLoop.ends_inr_iff hturn

/-- **Any other first entry holds the loop for ever.** -/
theorem not_removes_of_other {sn : CBlanknodeEntry} {rest : List CBlanknodeEntry}
    (h : man.vBlanknodes.elems = sn :: rest) (hsn : sn.vin.eqv vin = false) :
    ¬ Removes now vin man man' := by
  have hturn : removeTurn now vin (man, 0) = .inl (man, 0) := by simp [removeTurn, h, hsn]
  exact WhileLoop.not_ends_of_stuck hturn

theorem erase_first_iff {sn : CBlanknodeEntry} {rest : List CBlanknodeEntry}
    (h : man.vBlanknodes.elems = sn :: rest) :
    (man.vBlanknodes.erase (fun i => CBlanknodeEntry.assign (now i)) 0).elems = rest ↔
      ∀ i behind, rest[i]? = some behind → behind.nLastPaid = now (i + 1) := by
  have hkept : StdVector.eraseFrom (fun i => CBlanknodeEntry.assign (now i)) 0 0 (sn :: rest) =
      rest ↔ _ :=
    StdVector.eraseFrom_append_iff (fun i => BlanknodeFields.copyFrom (now i))
      (fun _ _ _ => rfl) [] sn rest
  simp only [CBlanknodeEntry.copyFrom_eq_self_iff, List.length_nil, Nat.zero_add,
    Nat.add_comm 1] at hkept
  rw [← h] at hkept
  exact hkept

/-! ## §3. When exactly the one entry is removed. -/

/-- **Removing a blanknode.**  `Remove(vin)` returns, with the first entry for `vin` gone from the
list and all else as it was, exactly where the list is empty, or its first entry is the one for
`vin` and each entry behind it was last paid at the time at which it is moved. -/
theorem remove_exact_iff (now : Nat → Int64) (vin : CTxIn) (man : CBlanknodeRegistry) :
    (∃ man', Removes now vin man man' ∧ WithoutFirst vin man man') ↔
      man.vBlanknodes.elems = [] ∨
        ∃ sn rest, man.vBlanknodes.elems = sn :: rest ∧ sn.vin.eqv vin = true ∧
          ∀ i behind, rest[i]? = some behind → behind.nLastPaid = now (i + 1) := by
  cases hl : man.vBlanknodes.elems with
  | nil =>
    refine iff_of_true ⟨man, (removes_of_nil hl).mpr rfl, ?_, rfl, rfl, rfl⟩ (.inl rfl)
    rw [hl]
    rfl
  | cons sn rest =>
    cases hsn : sn.vin.eqv vin with
    | false =>
      constructor
      · intro ⟨man', hman', _⟩
        exact absurd hman' (not_removes_of_other hl hsn)
      · intro hcond
        obtain hnil | ⟨sn', rest', hcons, heqv, -⟩ := hcond
        · exact nomatch hnil
        · cases hcons
          exact absurd heqv (by simp [hsn])
    | true =>
      have herase : man.vBlanknodes.elems.eraseP (fun sn => sn.vin.eqv vin) = rest := by
        simp [hl, hsn]
      constructor
      · intro ⟨man', hman', hkept, _⟩
        refine .inr ⟨sn, rest, rfl, hsn, ?_⟩
        rw [← (removes_of_first hl hsn).mp hman', herase] at hkept
        exact (erase_first_iff hl).mp hkept
      · intro hcond
        obtain hnil | ⟨sn', rest', hcons, -, hpaid⟩ := hcond
        · exact nomatch hnil
        · cases hcons
          refine ⟨_, (removes_of_first hl hsn).mpr rfl, ?_, rfl, rfl, rfl⟩
          rw [herase]
          exact (erase_first_iff hl).mpr hpaid

/-- The second of the sample's blanknodes is to be removed: the call does not come back. -/
theorem remove_second_hangs :
    ¬ ∃ man', Removes (fun _ => 100) (sampleEntry 1 .BLANKNODE_REMOVE 0).vin sampleRegistry man' ∧
      WithoutFirst (sampleEntry 1 .BLANKNODE_REMOVE 0).vin sampleRegistry man' := by
  have hfirst : (sampleEntry 0 .BLANKNODE_ENABLED 50).vin.eqv
      (sampleEntry 1 .BLANKNODE_REMOVE 0).vin = false := by decide
  intro ⟨man', hman', _⟩
  exact not_removes_of_other rfl hfirst hman'

end CBlanknodeRegistry

end Fantom.Blanknode
