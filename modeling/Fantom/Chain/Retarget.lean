/-
  Fantom.Chain.Retarget — The target of the next block.

  * `getLastBlockIndex`, `retarget`, `getNextTargetRequired` — the code,
  * `getNextTargetRequired_bounds` — the same of every chain.

  The first two blocks of a type have the limit for their target, whatever is below them.
-/
import Fantom.Core.Compact

namespace Fantom.Chain

open Core Lib Int

/-! ## §1. `GetNextTargetRequired`. -/

/-- `CBigNum(~uint256(0) >> 20)` -/
def bnProofOfStakeLimit : Int := (2 ^ 256 - 1) / 2 ^ 20

variable (fProofOfStake : Bool)

/-- `GetProofOfStakeLimit(nHeight)` for a height, `Params().ProofOfWorkLimit()` otherwise. -/
def targetLimit : Int :=
  if fProofOfStake then bnProofOfStakeLimit else bnProofOfWorkLimit

/-- `GetLastBlockIndex`: the last block of a type, or the root. -/
def getLastBlockIndex (fProofOfStake : Bool) : IndexPtr → IndexPtr
  | [] => []
  | [pindex] => [pindex]
  | pindex :: pprev :: rest =>
    if pindex.isProofOfStake != fProofOfStake then getLastBlockIndex fProofOfStake (pprev :: rest)
    else pindex :: pprev :: rest

def nTargetSpacing : Int := 28

def nInterval : Int := 10

def clampSpacing (nActualSpacing : Int) : Int :=
  if nActualSpacing < 0 then nTargetSpacing
  else if fProofOfStake = true ∧ nActualSpacing > nTargetSpacing * 10 then nTargetSpacing * 10
  else nActualSpacing

/-- The end of `GetNextTargetRequired`, from the bits of one block and its distance from the one
before it. -/
def retarget (nBits : UInt32) (nActualSpacing : Int) : UInt32 :=
  let nActualSpacing := clampSpacing fProofOfStake nActualSpacing
  let bnNew := setCompact nBits * ((nInterval - 1) * nTargetSpacing + nActualSpacing +
    nActualSpacing)
  let bnNew := bnNew.tdiv ((nInterval + 1) * nTargetSpacing)
  let bnNew := if bnNew ≤ 0 ∨ bnNew > targetLimit fProofOfStake then targetLimit fProofOfStake
    else bnNew
  getCompact bnNew

/-- `GetNextTargetRequired`; none where a null pointer is followed. -/
def getNextTargetRequired (pindexLast : IndexPtr) (fProofOfStake : Bool) : Option UInt32 :=
  let limit := getCompact (targetLimit fProofOfStake)
  match pindexLast with
  | [] =>
    -- `pindexLast->nHeight` stands before the test for null
    if fProofOfStake then none else some limit
  | _ =>
    match getLastBlockIndex fProofOfStake pindexLast with
    | [] => none
    | [_] => some limit
    | pindexPrev :: pprev =>
      match getLastBlockIndex fProofOfStake pprev with
      | [] => none
      | [_] => some limit
      | pindexPrevPrev :: _ =>
        some (retarget fProofOfStake pindexPrev.nBits
          (pindexPrev.getBlockTime - pindexPrevPrev.getBlockTime))

/-! ## §2. One retargeting, as numbers. -/

def limitNat : Nat := (2 ^ 256 - 1) / 2 ^ (if fProofOfStake then 20 else 12)

theorem targetLimit_eq : targetLimit fProofOfStake = (limitNat fProofOfStake : Nat) := by
  cases fProofOfStake <;> decide +kernel

theorem limitNat_pos : 0 < limitNat fProofOfStake := by
  cases fProofOfStake <;> decide +kernel

theorem mpiSize_limitNat : mpiSize (limitNat fProofOfStake) ≤ 255 := by
  cases fProofOfStake <;> decide +kernel

theorem mpiSize_of_le_limit {fProofOfStake : Bool} {n : Nat} (h : n ≤ limitNat fProofOfStake) :
    mpiSize n ≤ 255 :=
  Nat.le_trans (mpiScale.size_mono h) (mpiSize_limitNat fProofOfStake)

/-- At most ten times the intended spacing counts for proof of stake. -/
def countedSpacing (spacing : Nat) : Nat :=
  if fProofOfStake then min spacing 280 else spacing

def movedTarget (t spacing : Nat) : Nat :=
  t * (252 + 2 * countedSpacing fProofOfStake spacing) / 308

/-- The new target, before it is written in its compact form. -/
def newTarget (t spacing : Nat) : Nat :=
  if movedTarget fProofOfStake t spacing = 0 ∨
      limitNat fProofOfStake < movedTarget fProofOfStake t spacing then limitNat fProofOfStake
  else movedTarget fProofOfStake t spacing

/-- **One retargeting.**  A negative spacing counts as 28 seconds. -/
theorem retarget_eq {fProofOfStake : Bool} {nBits : UInt32} {t : Nat} (h : setCompact nBits = t)
    (nActualSpacing : Int) :
    retarget fProofOfStake nBits nActualSpacing =
      getCompact (newTarget fProofOfStake t
        (if nActualSpacing < 0 then 28 else nActualSpacing.toNat) : Nat) := by
  -- the spacing that is used, and the factor it makes
  have hclamp : clampSpacing fProofOfStake nActualSpacing =
      (countedSpacing fProofOfStake
        (if nActualSpacing < 0 then 28 else nActualSpacing.toNat) : Nat) := by
    unfold clampSpacing countedSpacing nTargetSpacing
    by_cases hneg : nActualSpacing < 0
    · rw [if_pos hneg, if_pos hneg]
      cases fProofOfStake <;> rfl
    · rw [if_neg hneg, if_neg hneg]
      cases fProofOfStake with
      | false =>
        simp only [Bool.false_eq_true, false_and, if_false]
        omega
      | true =>
        simp only [true_and, if_true]
        split <;> omega
  have hfactor : ∀ k : Nat, (nInterval - 1) * nTargetSpacing + (k : Int) + k =
      (252 + 2 * k : Nat) := by
    intro k
    unfold nInterval nTargetSpacing
    omega
  have hdiv : (nInterval + 1) * nTargetSpacing = (308 : Nat) := rfl
  unfold retarget newTarget movedTarget
  rw [h, hclamp]
  dsimp only
  rw [hfactor, hdiv, targetLimit_eq, ← natCast_mul, ← ofNat_tdiv]
  congr 1
  generalize t * _ / 308 = n
  by_cases hout : n = 0 ∨ limitNat fProofOfStake < n
  · rw [if_pos hout, if_pos (by omega)]
  · rw [if_neg hout, if_neg (by omega)]

/-! ## §3. What one retargeting does to a target. -/

variable {fProofOfStake : Bool} {t spacing spacing' : Nat}

theorem newTarget_pos (fProofOfStake : Bool) (t spacing : Nat) :
    0 < newTarget fProofOfStake t spacing := by
  have hlimit := limitNat_pos fProofOfStake
  unfold newTarget
  split <;> omega

theorem newTarget_le_limit (fProofOfStake : Bool) (t spacing : Nat) :
    newTarget fProofOfStake t spacing ≤ limitNat fProofOfStake := by
  unfold newTarget
  split <;> omega

theorem movedTarget_mono (fProofOfStake : Bool) (t : Nat) (h : spacing ≤ spacing') :
    movedTarget fProofOfStake t spacing ≤ movedTarget fProofOfStake t spacing' := by
  have hcounted : countedSpacing fProofOfStake spacing ≤ countedSpacing fProofOfStake spacing' := by
    unfold countedSpacing
    split <;> omega
  apply Nat.div_le_div_right
  apply Nat.mul_le_mul_left
  omega

theorem newTarget_eq_min (h : 0 < t * 252 / 308) (spacing : Nat) :
    newTarget fProofOfStake t spacing =
      min (movedTarget fProofOfStake t spacing) (limitNat fProofOfStake) := by
  have hzero : movedTarget fProofOfStake t 0 = t * 252 / 308 := by
    cases fProofOfStake <;> rfl
  have hmono := movedTarget_mono fProofOfStake t (Nat.zero_le spacing)
  unfold newTarget
  split <;> omega

theorem newTarget_mono (h : 0 < t * 252 / 308) (hle : spacing ≤ spacing') :
    newTarget fProofOfStake t spacing ≤ newTarget fProofOfStake t spacing' := by
  have hmono := movedTarget_mono fProofOfStake t hle
  rw [newTarget_eq_min h, newTarget_eq_min h]
  omega

theorem newTarget_intended (hpos : 0 < t) (hle : t ≤ limitNat fProofOfStake) :
    newTarget fProofOfStake t 28 = t := by
  have hsame : movedTarget fProofOfStake t 28 = t := by
    have hcounted : countedSpacing fProofOfStake 28 = 28 := by cases fProofOfStake <;> rfl
    rw [movedTarget, hcounted]
    exact Nat.mul_div_cancel t (by omega)
  rw [newTarget, hsame, if_neg (by omega)]

theorem newTarget_stake_le (h : 0 < t * 252 / 308) (spacing : Nat) :
    newTarget true t spacing ≤ t * 812 / 308 := by
  have hmost : movedTarget true t spacing ≤ t * 812 / 308 := by
    apply Nat.div_le_div_right
    apply Nat.mul_le_mul_left
    show 252 + 2 * min spacing 280 ≤ 812
    omega
  rw [newTarget_eq_min h]
  omega

theorem setCompact_of_le_limit {n : Nat} (h : n ≤ limitNat fProofOfStake) :
    setCompact (getCompact n) = (mpiScale.round n : Nat) :=
  setCompact_getCompact (mpiSize_of_le_limit h)

/-! ## §4. Chains. -/

/-- Two chains whose blocks differ in their times alone, as far as targets go. -/
def SameButTimes (chain chain' : IndexPtr) : Prop :=
  List.Forall₂ (fun pindex pindex' => pindex.nFlags = pindex'.nFlags ∧
    pindex.nBits = pindex'.nBits) chain chain'

/-- `nActualSpacing`, where it is computed: the time between the last block of a type and the
one before it. -/
def actualSpacing (fProofOfStake : Bool) (pindexLast : IndexPtr) : Option Int :=
  match getLastBlockIndex fProofOfStake pindexLast with
  | pindexPrev :: pprev =>
    (getLastBlockIndex fProofOfStake pprev).head?.map fun pindexPrevPrev =>
      pindexPrev.getBlockTime - pindexPrevPrev.getBlockTime
  | [] => none

/-- Two blocks of the type stand above the root, or the root is none of the last two. -/
def PastSecond (fProofOfStake : Bool) (pindexLast : IndexPtr) : Prop :=
  ∃ pindexPrev pprev pindexPrevPrev below rest,
    getLastBlockIndex fProofOfStake pindexLast = pindexPrev :: pprev ∧
    getLastBlockIndex fProofOfStake pprev = pindexPrevPrev :: below :: rest

/-- Each block carries the bits that were required of it, as `AcceptBlock` checks. -/
def CarriesRequired (chain : IndexPtr) : Prop :=
  ∀ pindex below, pindex :: below <:+ chain →
    getNextTargetRequired below pindex.isProofOfStake = some pindex.nBits

theorem getLastBlockIndex_suffix (fProofOfStake : Bool) (chain : IndexPtr) :
    getLastBlockIndex fProofOfStake chain <:+ chain := by
  fun_induction getLastBlockIndex fProofOfStake chain with
  | case1 => exact List.suffix_rfl
  | case2 pindex => exact List.suffix_rfl
  | case3 pindex pprev rest h ih => exact ih.trans (List.suffix_cons _ _)
  | case4 pindex pprev rest h => exact List.suffix_rfl

variable {chain chain' pprev : IndexPtr} {pindexPrev : StakeIndexData}

theorem getLastBlockIndex_ne_nil (fProofOfStake : Bool) (h : chain ≠ []) :
    getLastBlockIndex fProofOfStake chain ≠ [] := by
  fun_induction getLastBlockIndex fProofOfStake chain with
  | case1 => exact h
  | case2 pindex => exact h
  | case3 pindex pprev rest hother ih => exact ih (by simp)
  | case4 pindex pprev rest hsame => exact h

theorem SameButTimes.getLastBlockIndex (h : SameButTimes chain chain') (fProofOfStake : Bool) :
    SameButTimes (Chain.getLastBlockIndex fProofOfStake chain)
      (Chain.getLastBlockIndex fProofOfStake chain') := by
  induction h with
  | nil => exact .nil
  | @cons pindex pindex' below below' hhead hbelow ih =>
    have htype : pindex.isProofOfStake = pindex'.isProofOfStake := by
      unfold StakeIndexData.isProofOfStake
      rw [hhead.1]
    cases hbelow with
    | nil => exact .cons hhead .nil
    | @cons pprev pprev' rest rest' hprev hrest =>
      rw [Chain.getLastBlockIndex, Chain.getLastBlockIndex, htype]
      split
      · exact ih
      · exact .cons hhead (.cons hprev hrest)

theorem getNextTargetRequired_cases
    (h : getLastBlockIndex fProofOfStake chain = pindexPrev :: pprev) :
    (getNextTargetRequired chain fProofOfStake = some (getCompact (targetLimit fProofOfStake)) ∧
      ¬ PastSecond fProofOfStake chain) ∨
    ∃ nActualSpacing, actualSpacing fProofOfStake chain = some nActualSpacing ∧
      getNextTargetRequired chain fProofOfStake =
        some (retarget fProofOfStake pindexPrev.nBits nActualSpacing) ∧
      PastSecond fProofOfStake chain := by
  cases chain with
  | nil => exact nomatch h
  | cons pindexLast rest =>
    unfold getNextTargetRequired actualSpacing PastSecond
    dsimp only
    rw [h]
    cases pprev with
    | nil =>
      refine .inl ⟨rfl, ?_⟩
      intro ⟨pindexPrev', pprev', pindexPrevPrev, below, rest', hprev, hprevprev⟩
      cases hprev
      exact nomatch hprevprev
    | cons parent pprev =>
      have hne := getLastBlockIndex_ne_nil fProofOfStake (List.cons_ne_nil parent pprev)
      dsimp only
      cases hprevprev : getLastBlockIndex fProofOfStake (parent :: pprev) with
      | nil => exact absurd hprevprev hne
      | cons pindexPrevPrev below =>
        cases below with
        | nil =>
          refine .inl ⟨rfl, ?_⟩
          intro ⟨pindexPrev', pprev', pindexPrevPrev', below, rest', hprev, hbelow⟩
          cases hprev
          rw [hprevprev] at hbelow
          exact nomatch hbelow
        | cons next below =>
          exact .inr ⟨_, rfl, rfl, pindexPrev, parent :: pprev, pindexPrevPrev, next, below,
            rfl, hprevprev⟩

/-- Of a chain whose blocks carry what was required of them, the first two blocks of a type carry
the limit. -/
theorem CarriesRequired.limit (hchain : CarriesRequired chain)
    (h : getLastBlockIndex fProofOfStake chain = pindexPrev :: pprev)
    (htype : pindexPrev.isProofOfStake = fProofOfStake)
    (hearly : ¬ PastSecond fProofOfStake chain) :
    pindexPrev.nBits = getCompact (targetLimit fProofOfStake) := by
  have hsuffix : pindexPrev :: pprev <:+ chain := by
    rw [← h]
    exact getLastBlockIndex_suffix fProofOfStake chain
  have hbits := hchain pindexPrev pprev hsuffix
  rw [htype] at hbits
  cases pprev with
  | nil =>
    -- the root was made for `pindexLast == NULL`
    unfold getNextTargetRequired at hbits
    cases fProofOfStake with
    | false => exact (Option.some.inj hbits).symm
    | true => exact nomatch hbits
  | cons parent below =>
    have hne := getLastBlockIndex_ne_nil fProofOfStake (List.cons_ne_nil parent below)
    cases hprevprev : getLastBlockIndex fProofOfStake (parent :: below) with
    | nil => exact absurd hprevprev hne
    | cons pindexPrevPrev rest =>
      cases rest with
      | nil =>
        unfold getNextTargetRequired at hbits
        dsimp only at hbits
        rw [hprevprev] at hbits
        exact (Option.some.inj hbits).symm
      | cons next rest =>
        exact absurd ⟨pindexPrev, parent :: below, pindexPrevPrev, next, rest, h, hprevprev⟩
          hearly

theorem SameButTimes.pastSecond (h : SameButTimes chain chain')
    (hpast : PastSecond fProofOfStake chain) : PastSecond fProofOfStake chain' := by
  obtain ⟨pindexPrev, pprev, pindexPrevPrev, below, rest, hprev, hprevprev⟩ := hpast
  have hlast := h.getLastBlockIndex fProofOfStake
  rw [hprev] at hlast
  cases hprev' : Chain.getLastBlockIndex fProofOfStake chain' with
  | nil =>
    rw [hprev'] at hlast
    exact nomatch hlast
  | cons pindexPrev' pprev' =>
    rw [hprev'] at hlast
    cases hlast with
    | cons hhead htail =>
      have hsecond := SameButTimes.getLastBlockIndex htail fProofOfStake
      rw [hprevprev] at hsecond
      generalize hprevprev' : Chain.getLastBlockIndex fProofOfStake pprev' = two at hsecond
      cases hsecond with
      | cons _ hbelow =>
        cases hbelow with
        | cons _ _ => exact ⟨_, _, _, _, _, hprev', hprevprev'⟩

theorem SameButTimes.symm (h : SameButTimes chain chain') :
    SameButTimes chain' chain := by
  induction h with
  | nil => exact .nil
  | cons hhead _ ih => exact .cons ⟨hhead.1.symm, hhead.2.symm⟩ ih

theorem setCompact_limit (fProofOfStake : Bool) :
    setCompact (getCompact (targetLimit fProofOfStake)) =
      (mpiScale.round (limitNat fProofOfStake) : Nat) := by
  rw [targetLimit_eq]
  exact setCompact_of_le_limit (Nat.le_refl _)

theorem setCompact_bounds {n : Nat} (hpos : 0 < n) (hle : n ≤ limitNat fProofOfStake) :
    0 < setCompact (getCompact n) ∧ setCompact (getCompact n) ≤ targetLimit fProofOfStake := by
  have hround := mpiScale.round_pos hpos
  have hround' := mpiScale.round_le n
  rw [setCompact_of_le_limit hle, targetLimit_eq]
  omega

/-- What is claimed of the bits required above a chain, where the last block of the type has the
target `T`. -/
structure RetargetBounds (fProofOfStake : Bool) (chain : IndexPtr) (T : Int) (nBits : UInt32) :
    Prop where
  pos : 0 < setCompact nBits
  le_limit : setCompact nBits ≤ targetLimit fProofOfStake
  /-- A longer spacing never requires a smaller target. -/
  mono : ∀ chain' nActualSpacing nActualSpacing', SameButTimes chain chain' →
    actualSpacing fProofOfStake chain = some nActualSpacing →
    actualSpacing fProofOfStake chain' = some nActualSpacing' →
    0 ≤ nActualSpacing → nActualSpacing ≤ nActualSpacing' →
    ∃ nBits', getNextTargetRequired chain' fProofOfStake = some nBits' ∧
      setCompact nBits ≤ setCompact nBits'
  /-- The intended spacing leaves the target as it is. -/
  intended : PastSecond fProofOfStake chain ∨ CarriesRequired chain →
    actualSpacing fProofOfStake chain = some 28 → nBits = getCompact T ∧ setCompact nBits = T
  stake_le : PastSecond fProofOfStake chain ∨ CarriesRequired chain →
    fProofOfStake = true → setCompact nBits ≤ T * (252 + 560) / 308

theorem SameButTimes.last (h : SameButTimes chain chain')
    (hprev : Chain.getLastBlockIndex fProofOfStake chain = pindexPrev :: pprev) :
    ∃ pindexPrev' pprev', Chain.getLastBlockIndex fProofOfStake chain' = pindexPrev' :: pprev' ∧
      pindexPrev.nBits = pindexPrev'.nBits := by
  have hlast := h.getLastBlockIndex fProofOfStake
  rw [hprev] at hlast
  generalize hprev' : Chain.getLastBlockIndex fProofOfStake chain' = last at hlast
  cases hlast with
  | cons hhead _ => exact ⟨_, _, rfl, hhead.2⟩

theorem retargetBounds_limit {t : Nat}
    (hprev : getLastBlockIndex fProofOfStake chain = pindexPrev :: pprev)
    (htype : pindexPrev.isProofOfStake = fProofOfStake) (ht : setCompact pindexPrev.nBits = t)
    (hnot : ¬ PastSecond fProofOfStake chain) :
    RetargetBounds fProofOfStake chain t (getCompact (targetLimit fProofOfStake)) := by
  have hbounds := setCompact_bounds (limitNat_pos fProofOfStake) (Nat.le_refl _)
  rw [← targetLimit_eq] at hbounds
  -- the last block of the type carries the limit itself
  have hcompact : PastSecond fProofOfStake chain ∨ CarriesRequired chain →
      getCompact (targetLimit fProofOfStake) = getCompact (t : Nat) := by
    intro hchain
    have hsame := (hchain.resolve_left hnot).limit hprev htype hnot
    rw [hsame, setCompact_limit] at ht
    have hround : mpiScale.round (limitNat fProofOfStake) = t := by omega
    rw [← hround, targetLimit_eq, getCompact_round (mpiSize_limitNat fProofOfStake)]
  refine ⟨hbounds.1, hbounds.2, ?_, ?_, ?_⟩
  · -- the other chain has no more blocks of the type
    intro chain' s s' hsame _ _ _ _
    obtain ⟨pindexPrev', pprev', hprev', _⟩ := hsame.last hprev
    cases getNextTargetRequired_cases hprev' with
    | inl hearly' => exact ⟨_, hearly'.1, le_refl _⟩
    | inr hpast' =>
      obtain ⟨_, _, _, hpast'⟩ := hpast'
      exact absurd (hsame.symm.pastSecond hpast') hnot
  · intro hchain _
    rw [hcompact hchain]
    exact ⟨rfl, setCompact_getCompact_self ht⟩
  · intro hchain _
    rw [hcompact hchain, setCompact_getCompact_self ht]
    omega

theorem retargetBounds_retarget {t : Nat} {spacing : Int}
    (hprev : getLastBlockIndex fProofOfStake chain = pindexPrev :: pprev)
    (ht : setCompact pindexPrev.nBits = t) (hpos : 0 < t) (hle : t ≤ limitNat fProofOfStake)
    (hfloor : 0 < t * 252 / 308) (hspacing : actualSpacing fProofOfStake chain = some spacing) :
    RetargetBounds fProofOfStake chain t (retarget fProofOfStake pindexPrev.nBits spacing) := by
  have hnewle := newTarget_le_limit fProofOfStake t (if spacing < 0 then 28 else spacing.toNat)
  have hbounds := setCompact_bounds (newTarget_pos _ _ _) hnewle
  rw [retarget_eq ht]
  refine ⟨hbounds.1, hbounds.2, ?_, ?_, ?_⟩
  · intro chain' s s' hsame hs hs' hnonneg hgrow
    have heq : spacing = s := Option.some.inj (hspacing.symm.trans hs)
    subst heq
    obtain ⟨pindexPrev', pprev', hprev', hbits⟩ := hsame.last hprev
    rw [setCompact_of_le_limit hnewle]
    cases getNextTargetRequired_cases hprev' with
    | inl hearly' =>
      -- the limit is not exceeded
      refine ⟨_, hearly'.1, ?_⟩
      rw [setCompact_limit]
      exact ofNat_le.mpr (mpiScale.round_mono hnewle)
    | inr hpast' =>
      obtain ⟨spacing', hspacing', hbits', _⟩ := hpast'
      have heq' : spacing' = s' := Option.some.inj (hspacing'.symm.trans hs')
      subst heq'
      rw [← hbits, retarget_eq ht] at hbits'
      refine ⟨_, hbits', ?_⟩
      rw [setCompact_of_le_limit (newTarget_le_limit fProofOfStake t _)]
      apply ofNat_le.mpr
      apply mpiScale.round_mono
      apply newTarget_mono hfloor
      rw [if_neg (by omega), if_neg (by omega)]
      omega
  · intro _ h28
    have heq : spacing = 28 := Option.some.inj (hspacing.symm.trans h28)
    subst heq
    have hsame : newTarget fProofOfStake t (if (28 : Int) < 0 then 28 else (28 : Int).toNat) = t :=
      newTarget_intended hpos hle
    rw [hsame]
    exact ⟨rfl, setCompact_getCompact_self ht⟩
  · intro _ hstake
    subst hstake
    have hround := mpiScale.round_le
      (newTarget true t (if spacing < 0 then 28 else spacing.toNat))
    have hmost := newTarget_stake_le hfloor (if spacing < 0 then 28 else spacing.toNat)
    rw [setCompact_of_le_limit hnewle]
    omega

/-- **Retargeting.**  Where the last block of a type has a target `T` up to the limit that does not
vanish at spacing zero, the bits required of the next one stand for a target up to the limit, which
does not decrease when the spacing grows.  Past the second block of the type, and in every chain
whose blocks carry the bits required of them, the target stays at a spacing of 28 seconds, and that
of proof of stake grows by no more than 812 in 308. -/
theorem getNextTargetRequired_bounds {chain pprev : IndexPtr} {pindexPrev : StakeIndexData}
    {T : Int} (hprev : getLastBlockIndex fProofOfStake chain = pindexPrev :: pprev)
    (htype : pindexPrev.isProofOfStake = fProofOfStake) (hT : setCompact pindexPrev.nBits = T)
    (hpos : 0 < T) (hlimit : T ≤ targetLimit fProofOfStake) (hfloor : 0 < T * 252 / 308) :
    ∃ nBits, getNextTargetRequired chain fProofOfStake = some nBits ∧
      RetargetBounds fProofOfStake chain T nBits := by
  obtain ⟨t, rfl⟩ := eq_ofNat_of_zero_le (le_of_lt hpos)
  have hle : t ≤ limitNat fProofOfStake := by
    rw [targetLimit_eq] at hlimit
    omega
  cases getNextTargetRequired_cases hprev with
  | inl hearly =>
    obtain ⟨hbits, hnot⟩ := hearly
    exact ⟨_, hbits, retargetBounds_limit hprev htype hT hnot⟩
  | inr hpast =>
    obtain ⟨spacing, hspacing, hbits, _⟩ := hpast
    exact ⟨_, hbits, retargetBounds_retarget hprev hT (by omega) hle (by omega) hspacing⟩

def sampleStakeBlock (nTime : UInt32) : StakeIndexData :=
  ⟨⟨BitVec.ofNat 256 nTime.toNat, .first, 0, 2, 0, nTime, 0x1d00ffff, 0⟩, 1, 0, 0⟩

def sampleStakeChain : IndexPtr :=
  [sampleStakeBlock 1128, sampleStakeBlock 1100, sampleStakeBlock 1060,
    { sampleStakeBlock 1000 with nFlags := 0 }]

/-- At 28 seconds the target stays. -/
theorem getNextTargetRequired_sample :
    ∃ nBits, getNextTargetRequired sampleStakeChain true = some nBits ∧
      setCompact nBits = setCompact 0x1d00ffff := by
  have hpast : PastSecond true sampleStakeChain := ⟨_, _, _, _, _, rfl, rfl⟩
  have hlast : getLastBlockIndex true sampleStakeChain = sampleStakeChain := rfl
  obtain ⟨nBits, hbits, hbounds⟩ := getNextTargetRequired_bounds hlast rfl rfl
    (by decide +kernel) (by decide +kernel) (by decide +kernel)
  exact ⟨nBits, hbits, (hbounds.intended (.inl hpast) rfl).2⟩

/-- **The second block of a type** has the limit for its target, whatever the first one has: a
target of proof of stake can grow by more than 812 in 308, and the intended spacing does not keep
it.  `AcceptBlock` takes no first block with such a target. -/
theorem second_block_at_limit :
    ¬ ∀ (chain pprev : IndexPtr) (pindexPrev : StakeIndexData) (nBits : UInt32) (T : Int),
      getLastBlockIndex true chain = pindexPrev :: pprev → pindexPrev.isProofOfStake = true →
      setCompact pindexPrev.nBits = T → 0 < T → T ≤ targetLimit true → 0 < T * 252 / 308 →
      getNextTargetRequired chain true = some nBits →
      (actualSpacing true chain = some 28 → nBits = getCompact T) ∧
        setCompact nBits ≤ T * (252 + 560) / 308 := by
  intro h
  have hbound := h [sampleStakeBlock 1028, { sampleStakeBlock 1000 with nFlags := 0 }]
    [{ sampleStakeBlock 1000 with nFlags := 0 }] (sampleStakeBlock 1028) 0x1e0fffff _ rfl rfl rfl
    (by decide +kernel) (by decide +kernel) (by decide +kernel) (by decide +kernel)
  exact absurd hbound.2 (by decide +kernel)

end Fantom.Chain
