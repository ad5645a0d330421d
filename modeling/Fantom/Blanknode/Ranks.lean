/-
  Fantom.Blanknode.Ranks — The three readers of the ranking: by input, by rank, and all at once.

  * `ranks_consistent_iff` — the readers agree, and the first one answers by outpoint exactly for
    inputs that are spelled alike.

  `GetBlanknodeRank` compares whole inputs, `Find` compares outpoints.
-/
import Fantom.InstantX.Model
import Fantom.Lib.Sorting

namespace Fantom.Blanknode

open Core Lib List Bool

variable (H : Hashes) (man : CBlanknodeMan)
  (sortScoresSN : List (UInt32 × CBlanknode) → List (UInt32 × CBlanknode))

/-! ## §1. All ranks at once. -/

/-- The low 32 bits of `CalculateScore(1, nBlockHeight)`. -/
def CBlanknode.score32 (nBlockHeight : Int32) (sn : CBlanknode) : UInt32 :=
  UInt32.ofNat (sn.calculateScore H man nBlockHeight).toNat

/-- `GetBlanknodeRanks`, with the order `std::sort` gives to pairs with blanknodes. -/
def CBlanknodeMan.getBlanknodeRanks (nBlockHeight minProtocol : Int32) : List (Nat × CBlanknode) :=
  match man.getBlockHash nBlockHeight with
  | none => []
  | some _ =>
    let vecBlanknodeScores := sortScoresSN <| man.vBlanknodes.filterMap fun sn =>
      if sn.protocolVersion < minProtocol then none
      else if !sn.enabled then none
      else some (sn.score32 H man nBlockHeight, sn)
    vecBlanknodeScores.zipIdx.map fun s => (s.2 + 1, s.1.2)

/-! ## §2. One sorted list. -/

/-- What the three loops rely on: the block is known, all blanknodes are enabled, no two
have one outpoint or one score, and the sorts sort. -/
structure Rankable (nBlockHeight : Int32) : Prop where
  hash : (man.getBlockHash nBlockHeight).isSome = true
  enabled : ∀ sn ∈ man.vBlanknodes, sn.enabled = true
  prevouts : (man.vBlanknodes.map fun sn => sn.vin.prevout).Nodup
  scores : (man.vBlanknodes.map (CBlanknode.score32 H man nBlockHeight)).Nodup
  sort : SortsDescending man.sortScores
  sortSN : SortsDescending sortScoresSN

def CBlanknodeMan.ranked (minProtocol : Int32) : List CBlanknode :=
  man.vBlanknodes.filter fun sn => !decide (sn.protocolVersion < minProtocol)

def CBlanknodeMan.ranking (nBlockHeight minProtocol : Int32) : List (UInt32 × CBlanknode) :=
  sortScoresSN ((man.ranked minProtocol).map fun sn => (sn.score32 H man nBlockHeight, sn))

variable {H man sortScoresSN} {nBlockHeight minProtocol : Int32}

theorem filterMap_ranked {γ : Type} (hen : ∀ sn ∈ man.vBlanknodes, sn.enabled = true)
    (fOnlyActive : Bool) (f : CBlanknode → γ) :
    (man.vBlanknodes.filterMap fun sn =>
      if sn.protocolVersion < minProtocol then none
      else if fOnlyActive && !sn.enabled then none
      else some (f sn)) = (man.ranked minProtocol).map f := by
  rw [CBlanknodeMan.ranked, ← filterMap_eq_map, filterMap_filter]
  apply filterMap_congr
  intro sn hsn
  rw [hen sn hsn, Bool.not_true, Bool.and_false]
  by_cases hfloor : sn.protocolVersion < minProtocol
  · simp [hfloor]
  · simp [hfloor]

variable (h : Rankable H man sortScoresSN nBlockHeight)
include h

theorem Rankable.keys (minProtocol : Int32) :
    (((man.ranked minProtocol).map fun sn => (sn.score32 H man nBlockHeight, sn)).map
      Prod.fst).Nodup := by
  rw [map_map]
  exact h.scores.sublist (filter_sublist.map _)

variable (fOnlyActive : Bool)

/-- **Two of the loops walk along the ranking**, over the inputs alone. -/
theorem Rankable.scores_eq : man.scores H nBlockHeight minProtocol fOnlyActive =
    (man.ranking H sortScoresSN nBlockHeight minProtocol).map (Prod.map id CBlanknode.vin) := by
  unfold CBlanknodeMan.scores CBlanknodeMan.ranking
  rw [← sort_map_eq h.sortSN h.sort CBlanknode.vin (h.keys minProtocol), map_map]
  exact congrArg man.sortScores
    (filterMap_ranked h.enabled fOnlyActive fun sn => (sn.score32 H man nBlockHeight, sn.vin))

/-- **The third one walks along the ranking itself.** -/
theorem Rankable.ranks_eq :
    man.getBlanknodeRanks H sortScoresSN nBlockHeight minProtocol =
      (man.ranking H sortScoresSN nBlockHeight minProtocol).zipIdx.map
        fun s => (s.2 + 1, s.1.2) := by
  obtain ⟨hash, hhash⟩ := Option.isSome_iff_exists.mp h.hash
  unfold CBlanknodeMan.getBlanknodeRanks CBlanknodeMan.ranking
  rw [hhash]
  dsimp only
  rw [← filterMap_ranked h.enabled true fun sn => (sn.score32 H man nBlockHeight, sn)]
  simp only [Bool.true_and]

theorem Rankable.mem_ranking {s : UInt32 × CBlanknode} :
    s ∈ man.ranking H sortScoresSN nBlockHeight minProtocol ↔
      s.2 ∈ man.ranked minProtocol ∧ s.1 = s.2.score32 H man nBlockHeight := by
  rw [CBlanknodeMan.ranking, (h.sortSN.perm _).mem_iff, mem_map]
  constructor
  · rintro ⟨sn, hsn, rfl⟩
    exact ⟨hsn, rfl⟩
  · rintro ⟨hsn, hscore⟩
    exact ⟨s.2, hsn, by rw [← hscore]⟩

variable {sn : CBlanknode}

theorem Rankable.eq_of_prevout {sn' : CBlanknode} (hsn : sn ∈ man.vBlanknodes)
    (hsn' : sn' ∈ man.vBlanknodes) (hprevout : sn.vin.prevout = sn'.vin.prevout) : sn = sn' :=
  inj_on_of_nodup_map h.prevouts hsn hsn' hprevout

/-! ## §3. The three readers. -/

/-- The blanknode at a place of the ranking, from 0 on. -/
def RankedAt (H : Hashes) (man : CBlanknodeMan)
    (sortScoresSN : List (UInt32 × CBlanknode) → List (UInt32 × CBlanknode))
    (nBlockHeight minProtocol : Int32) (i : Nat) (sn : CBlanknode) : Prop :=
  ((man.ranking H sortScoresSN nBlockHeight minProtocol)[i]?).map Prod.snd = some sn

theorem Rankable.mem_of_rankedAt {i : Nat}
    (hat : RankedAt H man sortScoresSN nBlockHeight minProtocol i sn) :
    sn ∈ man.ranked minProtocol := by
  obtain ⟨s, hs, rfl⟩ := Option.map_eq_some_iff.mp hat
  exact (h.mem_ranking.mp (mem_of_getElem? hs)).1

theorem Rankable.rankedAt_inj {i j : Nat}
    (hi : RankedAt H man sortScoresSN nBlockHeight minProtocol i sn)
    (hj : RankedAt H man sortScoresSN nBlockHeight minProtocol j sn) : i = j := by
  obtain ⟨s, hs, rfl⟩ := Option.map_eq_some_iff.mp hi
  obtain ⟨t, ht, hst⟩ := Option.map_eq_some_iff.mp hj
  -- the scores are those of the same blanknode
  have hkey : s = t := Prod.ext
    ((h.mem_ranking.mp (mem_of_getElem? hs)).2.trans
      (hst ▸ (h.mem_ranking.mp (mem_of_getElem? ht)).2.symm)) hst.symm
  have hnodup : (man.ranking H sortScoresSN nBlockHeight minProtocol).Nodup :=
    ((h.sortSN.perm _).nodup_iff).mpr (List.Nodup.of_map Prod.fst (h.keys minProtocol))
  subst hkey
  exact (List.getElem?_inj (List.getElem?_eq_some_iff.mp hs).1 hnodup).mp (hs.trans ht.symm)

theorem Rankable.mem_getBlanknodeRanks_iff {r : Nat} :
    (r, sn) ∈ man.getBlanknodeRanks H sortScoresSN nBlockHeight minProtocol ↔
      ∃ i, r = i + 1 ∧ RankedAt H man sortScoresSN nBlockHeight minProtocol i sn := by
  rw [h.ranks_eq, mem_map]
  constructor
  · rintro ⟨⟨s, i⟩, hmem, heq⟩
    cases heq
    exact ⟨i, rfl, by rw [RankedAt, mk_mem_zipIdx_iff_getElem?.mp hmem]; rfl⟩
  · rintro ⟨i, rfl, hat⟩
    obtain ⟨s, hs, rfl⟩ := Option.map_eq_some_iff.mp hat
    exact ⟨(s, i), mk_mem_zipIdx_iff_getElem?.mpr hs, rfl⟩

theorem Rankable.getBlanknodeByRank_iff {fOnlyActive : Bool} {r : Nat} :
    man.getBlanknodeByRank H r nBlockHeight minProtocol fOnlyActive = some sn ↔
      ∃ i, r = i + 1 ∧ RankedAt H man sortScoresSN nBlockHeight minProtocol i sn := by
  cases r with
  | zero =>
    constructor
    · intro hnone
      cases hnone
    · rintro ⟨i, hzero, -⟩
      cases hzero
  | succ i =>
    have hfind : man.getBlanknodeByRank H (i + 1) nBlockHeight minProtocol fOnlyActive =
        ((man.ranking H sortScoresSN nBlockHeight minProtocol)[i]?).map Prod.snd := by
      show ((man.scores H nBlockHeight minProtocol fOnlyActive)[i]?).bind _ = _
      rw [h.scores_eq, List.getElem?_map]
      cases hs : (man.ranking H sortScoresSN nBlockHeight minProtocol)[i]? with
      | none => rfl
      | some s =>
        -- `Find` comes back with the blanknode whose outpoint it is given
        have hmem := (h.mem_ranking.mp (mem_of_getElem? hs)).1
        have hlist : s.2 ∈ man.vBlanknodes := mem_of_mem_filter hmem
        show man.find s.2.vin = some s.2
        unfold CBlanknodeMan.find
        cases hf : man.vBlanknodes.find? (fun sn => sn.vin.prevout == s.2.vin.prevout) with
        | none =>
          have := List.find?_eq_none.mp hf s.2 hlist
          exact absurd (beq_self_eq_true _) this
        | some sn =>
          have heq := List.find?_some hf
          rw [h.eq_of_prevout (mem_of_find?_eq_some hf) hlist (beq_iff_eq.mp heq)]
    rw [hfind]
    constructor
    · intro hat
      exact ⟨i, rfl, hat⟩
    · rintro ⟨j, hj, hat⟩
      obtain rfl := Nat.succ.inj hj
      exact hat

omit h in
theorem prevout_of_eqv {a b : CTxIn} (hab : a.eqv b = true) : a.prevout = b.prevout := by
  rw [CTxIn.eqv, and_eq_true, and_eq_true] at hab
  exact beq_iff_eq.mp hab.1.1

omit h in
theorem eqv_self (a : CTxIn) : a.eqv a = true := by
  rw [CTxIn.eqv, beq_self_eq_true, beq_self_eq_true, beq_self_eq_true]
  rfl

theorem Rankable.getBlanknodeRank_eq (vin : CTxIn) :
    man.getBlanknodeRank H vin nBlockHeight minProtocol fOnlyActive =
      match (man.ranking H sortScoresSN nBlockHeight minProtocol).findIdx?
        (fun s => s.2.vin.eqv vin) with
      | some i => (i : Int) + 1
      | none => -1 := by
  obtain ⟨hash, hhash⟩ := Option.isSome_iff_exists.mp h.hash
  rw [CBlanknodeMan.getBlanknodeRank, hhash, h.scores_eq, List.findIdx?_map]
  rfl

/-- **The rank of an input** that a ranked blanknode has. -/
theorem Rankable.getBlanknodeRank_of_eqv {vin : CTxIn} {i : Nat}
    (hat : RankedAt H man sortScoresSN nBlockHeight minProtocol i sn) (heqv : sn.vin.eqv vin =
    true) : man.getBlanknodeRank H vin nBlockHeight minProtocol fOnlyActive = i + 1 := by
  have hidx : (man.ranking H sortScoresSN nBlockHeight minProtocol).findIdx?
      (fun s => s.2.vin.eqv vin) = some i := by
    obtain ⟨s, hs, rfl⟩ := Option.map_eq_some_iff.mp hat
    cases hj : (man.ranking H sortScoresSN nBlockHeight minProtocol).findIdx?
        (fun s => s.2.vin.eqv vin) with
    | none =>
      have := List.findIdx?_eq_none_iff.mp hj s (mem_of_getElem? hs)
      rw [heqv] at this
      cases this
    | some j =>
      -- whatever is found first has the same outpoint, so it is the same blanknode
      obtain ⟨hjlt, hjeqv, -⟩ := List.findIdx?_eq_some_iff_getElem.mp hj
      have hjat : RankedAt H man sortScoresSN nBlockHeight minProtocol j
          (man.ranking H sortScoresSN nBlockHeight minProtocol)[j].2 := by
        rw [RankedAt, List.getElem?_eq_getElem hjlt]
        rfl
      have hsame := h.eq_of_prevout (mem_of_mem_filter (h.mem_of_rankedAt hjat))
        (mem_of_mem_filter (h.mem_of_rankedAt hat))
        ((prevout_of_eqv hjeqv).trans (prevout_of_eqv heqv).symm)
      rw [hsame] at hjat
      rw [h.rankedAt_inj hjat hat]
  rw [h.getBlanknodeRank_eq, hidx]

theorem Rankable.getBlanknodeRank_of_ne {vin : CTxIn}
    (hne : ∀ sn ∈ man.ranked minProtocol, sn.vin.eqv vin = false) :
    man.getBlanknodeRank H vin nBlockHeight minProtocol fOnlyActive = -1 := by
  have hidx : (man.ranking H sortScoresSN nBlockHeight minProtocol).findIdx?
      (fun s => s.2.vin.eqv vin) = none := by
    rw [List.findIdx?_eq_none_iff]
    intro s hs
    exact hne s.2 (h.mem_ranking.mp hs).1
  rw [h.getBlanknodeRank_eq, hidx]

/-! ## §4. Consistency. -/

omit h

/-- The three readers tell one story of the blanknodes in the list. -/
structure RanksConsistent (H : Hashes) (man : CBlanknodeMan)
    (sortScoresSN : List (UInt32 × CBlanknode) → List (UInt32 × CBlanknode))
    (nBlockHeight minProtocol : Int32) (fOnlyActive : Bool) : Prop where
  byRank : ∀ sn ∈ man.vBlanknodes, ∀ r : Nat,
    man.getBlanknodeRank H sn.vin nBlockHeight minProtocol fOnlyActive = r ↔
      man.getBlanknodeByRank H r nBlockHeight minProtocol fOnlyActive = some sn
  ranks : ∀ sn ∈ man.vBlanknodes, ∀ r : Nat,
    man.getBlanknodeByRank H r nBlockHeight minProtocol fOnlyActive = some sn ↔
      (r, sn) ∈ man.getBlanknodeRanks H sortScoresSN nBlockHeight minProtocol
  numbered : (man.getBlanknodeRanks H sortScoresSN nBlockHeight minProtocol).map Prod.fst =
    List.range' 1 (man.ranked minProtocol).length
  ordered : (man.getBlanknodeRanks H sortScoresSN nBlockHeight minProtocol).Pairwise fun a b =>
    b.2.score32 H man nBlockHeight < a.2.score32 H man nBlockHeight

/-- Two inputs that spend one outpoint get one answer. -/
def SameAnswer (H : Hashes) (man : CBlanknodeMan) (nBlockHeight minProtocol : Int32)
    (fOnlyActive : Bool) (vin vin' : CTxIn) : Prop :=
  vin.prevout = vin'.prevout →
    man.getBlanknodeRank H vin nBlockHeight minProtocol fOnlyActive =
      man.getBlanknodeRank H vin' nBlockHeight minProtocol fOnlyActive

/-- If they spend the outpoint of a ranked blanknode, both equal its input or both differ
from it, in the script or the sequence number. -/
def SpelledAlike (man : CBlanknodeMan) (minProtocol : Int32) (vin vin' : CTxIn) : Prop :=
  vin.prevout = vin'.prevout → ∀ sn ∈ man.ranked minProtocol, sn.vin.prevout = vin.prevout →
    sn.vin.eqv vin = sn.vin.eqv vin'

theorem Rankable.exists_rankedAt (h : Rankable H man sortScoresSN nBlockHeight)
    (hsn : sn ∈ man.ranked minProtocol) :
    ∃ i, RankedAt H man sortScoresSN nBlockHeight minProtocol i sn := by
  have hmem : (sn.score32 H man nBlockHeight, sn) ∈
      man.ranking H sortScoresSN nBlockHeight minProtocol := h.mem_ranking.mpr ⟨hsn, rfl⟩
  obtain ⟨i, hi⟩ := List.getElem?_of_mem hmem
  exact ⟨i, by rw [RankedAt, hi]; rfl⟩

theorem Rankable.getBlanknodeRank_iff (h : Rankable H man sortScoresSN nBlockHeight)
    {fOnlyActive : Bool} (hsn : sn ∈ man.vBlanknodes) {r : Nat} :
    man.getBlanknodeRank H sn.vin nBlockHeight minProtocol fOnlyActive = r ↔
      ∃ i, r = i + 1 ∧ RankedAt H man sortScoresSN nBlockHeight minProtocol i sn := by
  by_cases hranked : sn ∈ man.ranked minProtocol
  · obtain ⟨i, hat⟩ := h.exists_rankedAt hranked
    rw [h.getBlanknodeRank_of_eqv fOnlyActive hat (eqv_self sn.vin)]
    constructor
    · intro hr
      exact ⟨i, by omega, hat⟩
    · rintro ⟨j, rfl, hat'⟩
      rw [h.rankedAt_inj hat hat']
      rfl
  · have hne : ∀ sn' ∈ man.ranked minProtocol, sn'.vin.eqv sn.vin = false := by
      intro sn' hsn'
      rw [eq_false_iff]
      intro heqv
      have hsame := h.eq_of_prevout (mem_of_mem_filter hsn') hsn (prevout_of_eqv heqv)
      exact hranked (hsame ▸ hsn')
    rw [h.getBlanknodeRank_of_ne fOnlyActive hne]
    constructor
    · intro hr
      omega
    · rintro ⟨i, -, hat⟩
      exact absurd (h.mem_of_rankedAt hat) hranked

theorem Rankable.ranksConsistent (h : Rankable H man sortScoresSN nBlockHeight)
    (fOnlyActive : Bool) :
    RanksConsistent H man sortScoresSN nBlockHeight minProtocol fOnlyActive where
  byRank sn hsn r := (h.getBlanknodeRank_iff hsn).trans h.getBlanknodeByRank_iff.symm
  ranks sn _ r := h.getBlanknodeByRank_iff.trans h.mem_getBlanknodeRanks_iff.symm
  numbered := by
    have hlength : (man.ranking H sortScoresSN nBlockHeight minProtocol).length =
        (man.ranked minProtocol).length := by
      rw [CBlanknodeMan.ranking, (h.sortSN.perm _).length_eq, length_map]
    rw [h.ranks_eq, map_map, ← hlength]
    apply ext_getElem
    · simp
    · intro i hi hi'
      simp
      omega
  ordered := by
    have hstrict : (man.ranking H sortScoresSN nBlockHeight minProtocol).Pairwise
        fun a b => b.1 ≤ a.1 ∧ a.1 ≠ b.1 := h.sortSN.strict (h.keys minProtocol)
    rw [h.ranks_eq, pairwise_map]
    have hzip : (man.ranking H sortScoresSN nBlockHeight minProtocol).zipIdx.Pairwise
        fun a b => b.1.1 ≤ a.1.1 ∧ a.1.1 ≠ b.1.1 := by
      rw [← zipIdx_map_fst 0 (man.ranking H sortScoresSN nBlockHeight minProtocol)]
        at hstrict
      exact pairwise_map.mp hstrict
    refine hzip.imp_of_mem ?_
    intro a b ha hb hab
    -- the keys of the ranking are the scores
    have hkey : ∀ s ∈ (man.ranking H sortScoresSN nBlockHeight minProtocol).zipIdx,
        s.1.1 = s.1.2.score32 H man nBlockHeight := by
      intro s hs
      exact (h.mem_ranking.mp (mem_of_getElem? (mem_zipIdx_iff_getElem?.mp hs))).2
    show b.1.2.score32 H man nBlockHeight < a.1.2.score32 H man nBlockHeight
    rw [← hkey a ha, ← hkey b hb]
    exact UInt32.lt_of_le_of_ne hab.1 (Ne.symm hab.2)

/-- **One outpoint gets one rank exactly for inputs that are spelled alike.** -/
theorem Rankable.sameAnswer_iff (h : Rankable H man sortScoresSN nBlockHeight)
    (fOnlyActive : Bool) (vin vin' : CTxIn) :
    SameAnswer H man nBlockHeight minProtocol fOnlyActive vin vin' ↔
      SpelledAlike man minProtocol vin vin' := by
  -- a ranked blanknode with the outpoint decides both answers
  have hother : ∀ {sn : CBlanknode} {a : CTxIn}, sn ∈ man.ranked minProtocol →
      sn.vin.prevout = a.prevout → sn.vin.eqv a = false →
      ∀ sn' ∈ man.ranked minProtocol, sn'.vin.eqv a = false := by
    intro sn a hsn hprevout hne sn' hsn'
    rw [eq_false_iff]
    intro heqv
    have hsame := h.eq_of_prevout (mem_of_mem_filter hsn') (mem_of_mem_filter hsn)
      ((prevout_of_eqv heqv).trans hprevout.symm)
    rw [hsame, hne] at heqv
    cases heqv
  have hrank : ∀ {sn : CBlanknode} {i : Nat} {a : CTxIn}, sn ∈ man.ranked minProtocol →
      RankedAt H man sortScoresSN nBlockHeight minProtocol i sn → sn.vin.prevout = a.prevout →
      man.getBlanknodeRank H a nBlockHeight minProtocol fOnlyActive =
        if sn.vin.eqv a then (i : Int) + 1 else -1 := by
    intro sn i a hsn hat hprevout
    cases heqv : sn.vin.eqv a with
    | true => exact h.getBlanknodeRank_of_eqv fOnlyActive hat heqv
    | false => exact h.getBlanknodeRank_of_ne fOnlyActive (hother hsn hprevout heqv)
  constructor
  · intro hsame hvin sn hsn hprevout
    obtain ⟨i, hat⟩ := h.exists_rankedAt hsn
    have heq := hsame hvin
    rw [hrank hsn hat hprevout, hrank hsn hat (hprevout.trans hvin)] at heq
    cases ha : sn.vin.eqv vin <;> cases hb : sn.vin.eqv vin' <;> simp [ha, hb] at heq ⊢ <;> omega
  · intro halike hvin
    by_cases hex : ∃ sn ∈ man.ranked minProtocol, sn.vin.prevout = vin.prevout
    · obtain ⟨sn, hsn, hprevout⟩ := hex
      obtain ⟨i, hat⟩ := h.exists_rankedAt hsn
      rw [hrank hsn hat hprevout, hrank hsn hat (hprevout.trans hvin),
        halike hvin sn hsn hprevout]
    · have hnone : ∀ a : CTxIn, a.prevout = vin.prevout →
          ∀ sn ∈ man.ranked minProtocol, sn.vin.eqv a = false := by
        intro a ha sn hsn
        rw [eq_false_iff]
        intro heqv
        exact hex ⟨sn, hsn, (prevout_of_eqv heqv).trans ha⟩
      rw [h.getBlanknodeRank_of_ne fOnlyActive (hnone vin rfl),
        h.getBlanknodeRank_of_ne fOnlyActive (hnone vin' hvin.symm)]

/-- **The ranks are consistent, for two inputs, exactly when these are spelled alike.** -/
theorem ranks_consistent_iff (H : Hashes) (man : CBlanknodeMan)
    (sortScoresSN : List (UInt32 × CBlanknode) → List (UInt32 × CBlanknode))
    (nBlockHeight minProtocol : Int32) (fOnlyActive : Bool) (vin vin' : CTxIn)
    (h : Rankable H man sortScoresSN nBlockHeight) :
    RanksConsistent H man sortScoresSN nBlockHeight minProtocol fOnlyActive ∧
        SameAnswer H man nBlockHeight minProtocol fOnlyActive vin vin' ↔
      SpelledAlike man minProtocol vin vin' := by
  rw [h.sameAnswer_iff]
  exact and_iff_right (h.ranksConsistent fOnlyActive)

/-! ## §5. Twenty blanknodes. -/

open InstantX

def sampleRankedMan : CBlanknodeMan := { sampleBlanknodes with sortScores := sortByKey }

theorem rankable_sample : Rankable sampleHashes sampleRankedMan sortByKey 100 where
  hash := rfl
  enabled sn hsn :=
    all_eq_true.mp (show sampleRankedMan.vBlanknodes.all CBlanknode.enabled = true by
      decide +kernel) sn hsn
  prevouts := by decide +kernel
  scores := by decide +kernel
  sort := sortsDescending_sortByKey
  sortSN := sortsDescending_sortByKey

def sampleRespelled (key : Nat) : CTxIn := { sampleVin key with nSequence := 0 }

/-- Twenty blanknodes, and one of them asked for with the script that its output has. -/
theorem sample_ranks_consistent :
    RanksConsistent sampleHashes sampleRankedMan sortByKey 100 MIN_INSTANTX_PROTO_VERSION true ∧
      SameAnswer sampleHashes sampleRankedMan 100 MIN_INSTANTX_PROTO_VERSION true (sampleVin 3)
        { sampleVin 3 with prevPubKey := [OP_1] } :=
  (ranks_consistent_iff sampleHashes sampleRankedMan sortByKey 100 MIN_INSTANTX_PROTO_VERSION true
    _ _ rankable_sample).mpr fun _ _ _ _ => rfl

/-- The outpoint of a ranked blanknode is unknown under another sequence number, although
`Find` knows it. -/
theorem respelled_input_unknown :
    Rankable sampleHashes sampleRankedMan sortByKey 100 ∧
      (sampleVin 3).prevout = (sampleRespelled 3).prevout ∧
      (sampleRankedMan.find (sampleRespelled 3)).isSome = true ∧
      sampleRankedMan.getBlanknodeRank sampleHashes (sampleRespelled 3) 100
        MIN_INSTANTX_PROTO_VERSION true = -1 ∧
      ¬ SameAnswer sampleHashes sampleRankedMan 100 MIN_INSTANTX_PROTO_VERSION true (sampleVin 3)
        (sampleRespelled 3) := by
  have hunknown : ∀ sn ∈ sampleRankedMan.ranked MIN_INSTANTX_PROTO_VERSION,
      sn.vin.eqv (sampleRespelled 3) = false := by
    intro sn hsn
    have hall : (sampleRankedMan.ranked MIN_INSTANTX_PROTO_VERSION).all
        (fun sn => !sn.vin.eqv (sampleRespelled 3)) = true := by decide +kernel
    simpa using all_eq_true.mp hall sn hsn
  refine ⟨rankable_sample, rfl, by decide +kernel,
    rankable_sample.getBlanknodeRank_of_ne true hunknown, fun h => ?_⟩
  have hspelled := (rankable_sample.sameAnswer_iff true _ _).mp h rfl
    ⟨sampleVin 3, leBytes 32 3, MIN_INSTANTX_PROTO_VERSION, true⟩ (by decide +kernel) rfl
  exact absurd hspelled (by decide)

end Fantom.Blanknode
