/-
  Fantom.Chain.StakeModifier — The next stake modifier.

  * `Rounds.step`, `rounds_all` — one round, and all of them,
  * `computeNextStakeModifier_exact` — the same of every chain.

  A round that has no candidate up to its stop takes the earliest one that is left.
-/
import Fantom.Core.Signer
import Fantom.Core.BlockIndex
import Fantom.Lib.Draw

namespace Fantom.Chain

open Core Lib List Option

/-! ## §1. `ComputeNextStakeModifier`. -/

/-- A `CBlockIndex*` that is not null: the block, and its `pprev`. -/
structure BlockPtr where
  block : StakeIndexData
  pprev : IndexPtr
deriving DecidableEq

namespace BlockPtr

def getBlockHash (pindex : BlockPtr) : UInt256 := pindex.block.hash

def getBlockTime (pindex : BlockPtr) : Int := pindex.block.getBlockTime

def item (pindex : BlockPtr) : Int × UInt256 := (pindex.getBlockTime, pindex.getBlockHash)

end BlockPtr

def nModifierInterval : Int := 600

def MODIFIER_INTERVAL_RATIO : Int := 3

/-- `GetLastStakeModifier`; none where it returns false. -/
def getLastStakeModifier : IndexPtr → Option (UInt64 × Int)
  | [] => none
  | [pindex] =>
    if pindex.generatedStakeModifier then some (pindex.nStakeModifier, pindex.getBlockTime)
    else none
  | pindex :: pprev :: rest =>
    if !pindex.generatedStakeModifier then getLastStakeModifier (pprev :: rest)
    else some (pindex.nStakeModifier, pindex.getBlockTime)

/-- `GetStakeModifierSelectionIntervalSection` -/
def selectionIntervalSection (nSection : Nat) : Int :=
  (nModifierInterval * 63).tdiv (63 + (63 - nSection) * ( MODIFIER_INTERVAL_RATIO - 1))

/-- `GetStakeModifierSelectionInterval` -/
def selectionInterval : Int := ((range 64).map selectionIntervalSection).sum

/-- The candidates, from the last block down to the first one that is too old. -/
def candidateBlocks (nSelectionIntervalStart : Int) : IndexPtr → List BlockPtr
  | [] => []
  | pindex :: pprev =>
    if pindex.getBlockTime ≥ nSelectionIntervalStart then
      ⟨pindex, pprev⟩ :: candidateBlocks nSelectionIntervalStart pprev
    else []

/-- `operator<=` of the pairs. -/
def itemLe (a b : Int × UInt256) : Bool := decide (a.1 < b.1) || decide (a.1 = b.1 ∧ a.2 ≤ b.2)

/-- `reverse` and `sort` of `vSortedByTimestamp`. -/
def sortByTimestamp (v : List (Int × UInt256)) : List (Int × UInt256) := v.reverse.mergeSort itemLe

variable (H : Hashes) (mapBlockIndex : StdMap UInt256 BlockPtr)

/-- The selection hash, smaller for a block of proof of stake. -/
def hashSelection (nStakeModifierPrev : UInt64) (pindex : BlockPtr) : UInt256 :=
  let hashSelection := H.hash
    (leBytes 32 pindex.block.hashProof.toNat ++ leBytes 8 nStakeModifierPrev.toNat)
  if pindex.block.isProofOfStake then hashSelection >>> 32 else hashSelection

/-- The loop of `SelectBlockFromCandidates`, with `hashBest` and `pindexSelected` once `fSelected`
is set; none where it returns false. -/
def selectBlockFromCandidates (mapSelectedBlocks : StdMap UInt256 BlockPtr)
    (nSelectionIntervalStop : Int) (nStakeModifierPrev : UInt64) :
    Option (UInt256 × BlockPtr) → List (Int × UInt256) → Option BlockPtr
  | selected, [] => selected.map Prod.snd
  | selected, item :: rest =>
    match mapBlockIndex[item.2]? with
    | none => none
    | some pindex =>
      if selected.isSome ∧ pindex.getBlockTime > nSelectionIntervalStop then
        selected.map Prod.snd
      else if mapSelectedBlocks.contains pindex.getBlockHash then
        selectBlockFromCandidates mapSelectedBlocks nSelectionIntervalStop nStakeModifierPrev
          selected rest
      else
        let hash := hashSelection H nStakeModifierPrev pindex
        match selected with
        | some (hashBest, _) =>
          selectBlockFromCandidates mapSelectedBlocks nSelectionIntervalStop
            nStakeModifierPrev (if hash < hashBest then some (hash, pindex) else selected) rest
        | none =>
          selectBlockFromCandidates mapSelectedBlocks nSelectionIntervalStop
            nStakeModifierPrev (some (hash, pindex)) rest

/-- The variables of the rounds. -/
structure Rounds where
  nStakeModifierNew : UInt64
  nSelectionIntervalStop : Int
  mapSelectedBlocks : StdMap UInt256 BlockPtr

/-- The block of a round is selected: its bit is written, and it is taken from the candidates. -/
def Rounds.select (s : Rounds) (nRound : Nat) (pindex : BlockPtr) : Rounds where
  nStakeModifierNew := s.nStakeModifierNew |||
    (pindex.block.getStakeEntropyBit.toUInt64 <<< UInt64.ofNat nRound)
  nSelectionIntervalStop := s.nSelectionIntervalStop + selectionIntervalSection nRound
  mapSelectedBlocks := StdMap.insertNew s.mapSelectedBlocks pindex.getBlockHash pindex

def selectRound (nStakeModifier : UInt64) (vSortedByTimestamp : List (Int × UInt256)) (s : Rounds)
    (nRound : Nat) : Option Rounds :=
  (selectBlockFromCandidates H mapBlockIndex s.mapSelectedBlocks
    (s.nSelectionIntervalStop + selectionIntervalSection nRound) nStakeModifier none
    vSortedByTimestamp).map (s.select nRound)

def selectRounds (nStakeModifier : UInt64) (nSelectionIntervalStart : Int)
    (vSortedByTimestamp : List (Int × UInt256)) : Option Rounds :=
  (range (min 64 vSortedByTimestamp.length)).foldlM
    (selectRound H mapBlockIndex nStakeModifier vSortedByTimestamp)
    ⟨0, nSelectionIntervalStart, ∅⟩

/-- `nSelectionIntervalStart` for a block of this time. -/
def selectionIntervalStart (nTime : Int) : Int :=
  nTime.tdiv nModifierInterval * nModifierInterval - selectionInterval

/-- `ComputeNextStakeModifier`, with `nStakeModifier` and `fGeneratedStakeModifier`; none where it
returns false. -/
def computeNextStakeModifier (pindexPrev : IndexPtr) : Option (UInt64 × Bool) :=
  match pindexPrev with
  | [] => some (0, true)
  | pindex :: _ => do
    let (nStakeModifier, nModifierTime) ← getLastStakeModifier pindexPrev
    if nModifierTime.tdiv nModifierInterval ≥ pindex.getBlockTime.tdiv nModifierInterval then
      return (nStakeModifier, false)
    let nSelectionIntervalStart := selectionIntervalStart pindex.getBlockTime
    let v := sortByTimestamp ((candidateBlocks nSelectionIntervalStart pindexPrev).map
      BlockPtr.item)
    let s ← selectRounds H mapBlockIndex nStakeModifier nSelectionIntervalStart v
    return (s.nStakeModifierNew, true)

/-! ## §2. What is to be selected. -/

/-- Every block of the chain is in `mapBlockIndex`. -/
def Indexed (pindexPrev : IndexPtr) : Prop :=
  ∀ pindex pprev, (pindex :: pprev) <:+ pindexPrev →
    mapBlockIndex[pindex.hash]? = some ⟨pindex, pprev⟩

def stopOfRound (nSelectionIntervalStart : Int) (nRound : Nat) : Int :=
  nSelectionIntervalStart + ((range (nRound + 1)).map selectionIntervalSection).sum

def Earlier (a b : BlockPtr) : Prop :=
  a.getBlockTime < b.getBlockTime ∨
    a.getBlockTime = b.getBlockTime ∧ a.getBlockHash ≤ b.getBlockHash

/-- The blocks that the rounds have to select from the candidates, and the modifier that they
make. -/
structure Selects (nStakeModifierPrev : UInt64) (nSelectionIntervalStart : Int)
    (candidates picked : List BlockPtr) (nStakeModifier : UInt64) : Prop where
  length : picked.length = min 64 candidates.length
  nodup : picked.Nodup
  subset : picked ⊆ candidates
  least : ∀ r p, picked[r]? = some p → ∀ c ∈ candidates, c ∉ picked.take r →
    c.getBlockTime ≤ stopOfRound nSelectionIntervalStart r →
    p.getBlockTime ≤ stopOfRound nSelectionIntervalStart r ∧
      hashSelection H nStakeModifierPrev p ≤ hashSelection H nStakeModifierPrev c
  earliest : ∀ r p, picked[r]? = some p →
    (∀ c ∈ candidates, c ∉ picked.take r → stopOfRound nSelectionIntervalStart r < c.getBlockTime) →
    ∀ c ∈ candidates, c ∉ picked.take r → Earlier p c
  bit : ∀ r p, picked[r]? = some p →
    nStakeModifier.toNat.testBit r = (p.block.getStakeEntropyBit == 1)
  above : ∀ r, picked.length ≤ r → nStakeModifier.toNat.testBit r = false

/-! ## §3. The candidates. -/

theorem getLastStakeModifier_eq (pindex : IndexPtr) :
    getLastStakeModifier pindex =
      (pindex.find? (·.generatedStakeModifier)).map fun b => (b.nStakeModifier, b.getBlockTime) := by
  induction pindex with
  | nil => rfl
  | cons b rest ih =>
    rw [find?_cons]
    cases rest with
    | nil =>
      rw [getLastStakeModifier]
      cases b.generatedStakeModifier <;> rfl
    | cons pprev rest =>
      rw [getLastStakeModifier, ih]
      cases b.generatedStakeModifier <;> rfl

theorem getLastStakeModifier_of_genesis {pindex : IndexPtr} (hne : pindex ≠ [])
    (h : ∀ root, pindex.getLast? = some root → root.generatedStakeModifier = true) :
    ∃ r, getLastStakeModifier pindex = some r := by
  rw [getLastStakeModifier_eq]
  have hroot := h _ (getLast?_eq_some_getLast hne)
  cases hfind : pindex.find? (·.generatedStakeModifier) with
  | some b => exact ⟨_, rfl⟩
  | none =>
    -- the genesis block would have been found
    have hnone := find?_eq_none.mp hfind _ (getLast_mem hne)
    exact absurd hroot hnone

variable {H mapBlockIndex} {nSelectionIntervalStart : Int} {pindexPrev : IndexPtr}

theorem suffix_of_mem_candidateBlocks {c : BlockPtr}
    (h : c ∈ candidateBlocks nSelectionIntervalStart pindexPrev) :
    (c.block :: c.pprev) <:+ pindexPrev := by
  induction pindexPrev with
  | nil => exact nomatch h
  | cons b pprev ih =>
    rw [candidateBlocks] at h
    split at h
    next =>
      cases mem_cons.mp h with
      | inl heq => exact heq ▸ suffix_refl _
      | inr hmem => exact (ih hmem).trans (suffix_cons b pprev)
    next => exact nomatch h

theorem Indexed.lookup (hindexed : Indexed mapBlockIndex pindexPrev) {c : BlockPtr}
    (h : c ∈ candidateBlocks nSelectionIntervalStart pindexPrev) :
    mapBlockIndex[c.getBlockHash]? = some c :=
  hindexed c.block c.pprev (suffix_of_mem_candidateBlocks h)

theorem candidateBlocks_nodup : (candidateBlocks nSelectionIntervalStart pindexPrev).Nodup := by
  induction pindexPrev with
  | nil => exact nodup_nil
  | cons b pprev ih =>
    rw [candidateBlocks]
    split
    next =>
      refine nodup_cons.mpr ⟨?_, ih⟩
      intro hmem
      have hlength : (b :: pprev).length ≤ pprev.length :=
        (suffix_of_mem_candidateBlocks hmem).length_le
      rw [length_cons] at hlength
      omega
    next => exact nodup_nil

variable (candidates : List BlockPtr)

def sortedCandidates : List BlockPtr :=
  candidates.reverse.mergeSort fun a b => itemLe a.item b.item

theorem itemLe_iff (a b : BlockPtr) : itemLe a.item b.item = true ↔ Earlier a b := by
  show (decide (a.getBlockTime < b.getBlockTime) || decide (a.getBlockTime = b.getBlockTime ∧
    a.getBlockHash ≤ b.getBlockHash)) = true ↔ _
  rw [Bool.or_eq_true, decide_eq_true_iff, decide_eq_true_iff]
  rfl

theorem sortByTimestamp_eq : sortByTimestamp (candidates.map BlockPtr.item) =
    (sortedCandidates candidates).map BlockPtr.item := by
  unfold sortByTimestamp sortedCandidates
  rw [← map_reverse]
  exact (map_mergeSort (s := itemLe) (f := BlockPtr.item) fun _ _ _ _ => rfl).symm

theorem sortedCandidates_perm : (sortedCandidates candidates).Perm candidates :=
  (mergeSort_perm _ _).trans (reverse_perm candidates)

theorem sortedCandidates_sorted : (sortedCandidates candidates).Pairwise Earlier := by
  have htrans : ∀ a b c : BlockPtr, itemLe a.item b.item = true → itemLe b.item c.item = true →
      itemLe a.item c.item = true := by
    intro a b c hab hbc
    rw [itemLe_iff] at hab hbc ⊢
    simp only [Earlier, BitVec.le_def] at *
    omega
  have htotal : ∀ a b : BlockPtr, (itemLe a.item b.item || itemLe b.item a.item) = true := by
    intro a b
    rw [Bool.or_eq_true, itemLe_iff, itemLe_iff]
    simp only [Earlier, BitVec.le_def]
    omega
  exact (pairwise_mergeSort htrans htotal candidates.reverse).imp
    fun h => (itemLe_iff _ _).mp h

/-! ## §4. One call of `SelectBlockFromCandidates`. -/

theorem selectBlockFromCandidates_eq (mapSelectedBlocks : StdMap UInt256 BlockPtr) (stop : Int)
    (nStakeModifierPrev : UInt64) {l : List BlockPtr}
    (hl : ∀ c ∈ l, mapBlockIndex[c.getBlockHash]? = some c) (selected : Option BlockPtr) :
    selectBlockFromCandidates H mapBlockIndex mapSelectedBlocks stop nStakeModifierPrev
        (selected.map fun b => (hashSelection H nStakeModifierPrev b, b)) (l.map BlockPtr.item) =
      Draw.scan BlockPtr.getBlockTime (fun c => (hashSelection H nStakeModifierPrev c).toNat)
        (fun c => mapSelectedBlocks.contains c.getBlockHash) stop selected l := by
  induction l generalizing selected with
  | nil => cases selected <;> rfl
  | cons a l ih =>
    have hrest := ih fun c hc => hl c (mem_cons_of_mem a hc)
    have hlookup : mapBlockIndex[a.item.2]? = some a := hl a mem_cons_self
    rw [map_cons, selectBlockFromCandidates, hlookup]
    dsimp only
    cases selected with
    | none =>
      rw [Draw.scan]
      simp only [map_none, isSome_none, Bool.false_eq_true, false_and, if_false]
      split
      · exact hrest none
      · exact hrest (some a)
    | some b =>
      rw [Draw.scan]
      simp only [map_some, isSome_some, true_and, gt_iff_lt]
      split
      · rfl
      split
      · exact hrest (some b)
      by_cases hlt : hashSelection H nStakeModifierPrev a < hashSelection H nStakeModifierPrev b
      · rw [if_pos hlt, if_pos (BitVec.lt_def.mp hlt)]
        exact hrest (some a)
      · rw [if_neg hlt, if_neg fun h => hlt (BitVec.lt_def.mpr h)]
        exact hrest (some b)

/-! ## §5. The rounds. -/

/-- The variables of the rounds when these blocks are selected. -/
structure Rounds.After (nStakeModifierPrev : UInt64) (nSelectionIntervalStart : Int)
    (l picked : List BlockPtr) (s : Rounds) : Prop where
  draws : Draw.Draws BlockPtr.getBlockTime
    (fun c => (hashSelection H nStakeModifierPrev c).toNat) Earlier
    (stopOfRound nSelectionIntervalStart) l picked
  stop : s.nSelectionIntervalStop =
    nSelectionIntervalStart + ((range picked.length).map selectionIntervalSection).sum
  selected : ∀ (hash : UInt256) (p : BlockPtr),
    s.mapSelectedBlocks[hash]? = some p ↔ p ∈ picked ∧ p.getBlockHash = hash
  bits : ∀ r, s.nStakeModifierNew.toNat.testBit r =
    (picked[r]?).any fun p => p.block.getStakeEntropyBit == 1

theorem getStakeEntropyBit_le (b : StakeIndexData) : b.getStakeEntropyBit.toNat ≤ 1 := by
  unfold StakeIndexData.getStakeEntropyBit StakeIndexData.BLOCK_STAKE_ENTROPY
  rw [UInt32.toNat_shiftRight, UInt32.toNat_and]
  show (b.nFlags.toNat &&& 2) >>> 1 ≤ 1
  have hle : b.nFlags.toNat &&& 2 ≤ 2 := Nat.and_le_right
  rw [Nat.shiftRight_eq_div_pow]
  omega

theorem testBit_setBit (n : UInt64) (b : StakeIndexData) {k : Nat} (hk : k < 64) (r : Nat) :
    (n ||| (b.getStakeEntropyBit.toUInt64 <<< UInt64.ofNat k)).toNat.testBit r =
      (n.toNat.testBit r || (decide (k = r) && b.getStakeEntropyBit == 1)) := by
  have hle := getStakeEntropyBit_le b
  rw [UInt64.toNat_or, Nat.testBit_or]
  congr 1
  have hshift : (UInt64.ofNat k).toNat % 64 = k := by
    rw [UInt64.toNat_ofNat']
    omega
  rw [UInt64.toNat_shiftLeft, hshift, UInt32.toNat_toUInt64]
  have hbit : b.getStakeEntropyBit = 0 ∨ b.getStakeEntropyBit = 1 := by
    rw [← UInt32.toNat_inj, ← UInt32.toNat_inj]
    show _ = 0 ∨ _ = 1
    omega
  cases hbit with
  | inl hzero =>
    rw [hzero]
    show (0 <<< k % 2 ^ 64).testBit r = (decide (k = r) && false)
    rw [Nat.zero_shiftLeft, Nat.zero_mod, Nat.zero_testBit, Bool.and_false]
  | inr hone =>
    rw [hone]
    show (1 <<< k % 2 ^ 64).testBit r = (decide (k = r) && true)
    rw [Nat.one_shiftLeft, Nat.mod_eq_of_lt (Nat.pow_lt_pow_right (by decide) hk),
      Nat.testBit_two_pow, Bool.and_true]

theorem stopOfRound_eq (nSelectionIntervalStart : Int) (k : Nat) :
    nSelectionIntervalStart + ((range k).map selectionIntervalSection).sum +
      selectionIntervalSection k = stopOfRound nSelectionIntervalStart k := by
  rw [stopOfRound, range_succ, map_append, sum_append]
  simp only [map_cons, map_nil, sum_cons, sum_nil]
  omega

variable {nStakeModifierPrev : UInt64} {l picked : List BlockPtr} {s : Rounds}

theorem Rounds.After.taken_iff (hl : ∀ c ∈ l, mapBlockIndex[c.getBlockHash]? = some c)
    (h : s.After (H := H) nStakeModifierPrev nSelectionIntervalStart l picked) {c : BlockPtr}
    (hc : c ∈ l) : s.mapSelectedBlocks.contains c.getBlockHash = true ↔ c ∈ picked := by
  rw [StdMap.contains_iff]
  constructor
  · intro ⟨p, hp⟩
    obtain ⟨hpicked, hhash⟩ := (h.selected _ _).mp hp
    -- the index has one block of a hash
    have hlookup := hl p (h.draws.subset hpicked)
    rw [hhash, hl c hc] at hlookup
    exact Option.some.inj hlookup ▸ hpicked
  · intro hpicked
    exact ⟨c, (h.selected _ _).mpr ⟨hpicked, rfl⟩⟩

theorem Rounds.After.select (h : s.After (H := H) nStakeModifierPrev nSelectionIntervalStart l picked)
    (hround : picked.length < 64) {p : BlockPtr}
    (hdrawn : Draw.Drawn BlockPtr.getBlockTime
      (fun c => (hashSelection H nStakeModifierPrev c).toNat) Earlier
      (stopOfRound nSelectionIntervalStart picked.length) l picked p)
    (hnew : s.mapSelectedBlocks[p.getBlockHash]? = none) :
    (s.select picked.length p).After (H := H) nStakeModifierPrev nSelectionIntervalStart l
      (picked ++ [p]) where
  draws := .snoc h.draws hdrawn
  stop := by
    rw [length_append, length_singleton]
    show s.nSelectionIntervalStop + _ = stopOfRound nSelectionIntervalStart picked.length
    rw [h.stop, stopOfRound_eq]
  selected hash q := by
    show (StdMap.insertNew s.mapSelectedBlocks p.getBlockHash p)[hash]? = some q ↔ _
    rw [StdMap.get_insertNew, mem_append, mem_singleton]
    by_cases hhash : p.getBlockHash = hash
    · subst hhash
      rw [if_pos rfl, hnew, none_or, Option.some.injEq]
      constructor
      · intro heq
        exact ⟨.inr heq.symm, by rw [heq]⟩
      · intro ⟨hq, hqhash⟩
        cases hq with
        | inl hpicked =>
          -- its hash would have been taken
          have htaken := (h.selected _ q).mpr ⟨hpicked, hqhash⟩
          rw [hnew] at htaken
          exact nomatch htaken
        | inr heq => exact heq.symm
    · rw [if_neg hhash, h.selected]
      constructor
      · intro ⟨hq, hqhash⟩
        exact ⟨.inl hq, hqhash⟩
      · intro ⟨hq, hqhash⟩
        cases hq with
        | inl hpicked => exact ⟨hpicked, hqhash⟩
        | inr heq => exact absurd (heq ▸ hqhash) hhash
  bits r := by
    show (s.nStakeModifierNew ||| _).toNat.testBit r = _
    rw [testBit_setBit _ _ hround, h.bits]
    by_cases hlt : r < picked.length
    · rw [getElem?_append_left hlt, decide_eq_false (by omega), Bool.false_and, Bool.or_false]
    · rw [getElem?_eq_none (by omega), any_none, Bool.false_or]
      by_cases heq : picked.length = r
      · rw [← heq, getElem?_concat_length, decide_eq_true rfl, Bool.true_and]
        rfl
      · rw [getElem?_eq_none (by rw [length_append, length_singleton]; omega),
          decide_eq_false heq, Bool.false_and]
        rfl

/-- **One round**, as long as a candidate is left. -/
theorem Rounds.After.step (hl : ∀ c ∈ l, mapBlockIndex[c.getBlockHash]? = some c)
    (hnodup : l.Nodup) (hsorted : l.Pairwise Earlier)
    (h : s.After (H := H) nStakeModifierPrev nSelectionIntervalStart l picked)
    (hlt : picked.length < l.length) (hround : picked.length < 64) :
    ∃ p s', selectRound H mapBlockIndex nStakeModifierPrev (l.map BlockPtr.item) s picked.length =
        some s' ∧
      s'.After (H := H) nStakeModifierPrev nSelectionIntervalStart l (picked ++ [p]) := by
  have hbefore : ∀ a b, Earlier a b → a.getBlockTime ≤ b.getBlockTime := by
    intro a b hab
    unfold Earlier at hab
    omega
  obtain ⟨p, hp, hdrawn⟩ := Draw.scan_drawn
    (fun c => (hashSelection H nStakeModifierPrev c).toNat)
    (stopOfRound nSelectionIntervalStart picked.length) hbefore hsorted
    (fun c hc => h.taken_iff hl hc) (Draw.exists_fresh hnodup hlt)
  have hselect := selectBlockFromCandidates_eq (H := H) s.mapSelectedBlocks
    (stopOfRound nSelectionIntervalStart picked.length) nStakeModifierPrev hl none
  rw [hp, map_none] at hselect
  have hnew : s.mapSelectedBlocks[p.getBlockHash]? = none := by
    rw [← StdMap.contains_eq_false_iff, ← Bool.not_eq_true, h.taken_iff hl hdrawn.mem]
    exact hdrawn.fresh
  refine ⟨p, s.select picked.length p, ?_, h.select hround hdrawn hnew⟩
  rw [selectRound, h.stop, stopOfRound_eq, hselect]
  rfl

/-- **The rounds**: as many as are wanted of those that there are candidates for. -/
theorem Rounds.all (hl : ∀ c ∈ l, mapBlockIndex[c.getBlockHash]? = some c)
    (hnodup : l.Nodup) (hsorted : l.Pairwise Earlier) {k : Nat} (hk : k ≤ min 64 l.length) :
    ∃ picked s, (range k).foldlM
        (selectRound H mapBlockIndex nStakeModifierPrev (l.map BlockPtr.item))
        ⟨0, nSelectionIntervalStart, ∅⟩ = some s ∧ picked.length = k ∧
      s.After (H := H) nStakeModifierPrev nSelectionIntervalStart l picked := by
  induction k with
  | zero =>
    refine ⟨[], _, rfl, rfl, .nil, ?_, ?_, ?_⟩
    · show nSelectionIntervalStart = nSelectionIntervalStart + 0
      omega
    · intro hash p
      rw [StdMap.get_empty]
      constructor
      · exact fun h => nomatch h
      · exact fun h => nomatch h.1
    · intro r
      show (0 : Nat).testBit r = _
      rw [Nat.zero_testBit]
      rfl
  | succ k ih =>
    obtain ⟨picked, s, hs, hlength, hafter⟩ := ih (by omega)
    obtain ⟨p, s', hs', hafter'⟩ := hafter.step hl hnodup hsorted (by omega) (by omega)
    refine ⟨picked ++ [p], s', ?_, by rw [length_append, hlength]; rfl, hafter'⟩
    rw [range_succ, foldlM_append, hs]
    show (foldlM _ s [k]) = some s'
    rw [foldlM_cons, ← hlength, hs']
    rfl

theorem Rounds.After.selects {candidates : List BlockPtr} (hperm : l.Perm candidates)
    (h : s.After (H := H) nStakeModifierPrev nSelectionIntervalStart l picked)
    (hlength : picked.length = min 64 l.length) :
    Selects H nStakeModifierPrev nSelectionIntervalStart candidates picked s.nStakeModifierNew where
  length := by rw [hlength, hperm.length_eq]
  nodup := h.draws.nodup
  subset _ hp := hperm.mem_iff.mp (h.draws.subset hp)
  least r p hr c hc hfresh hstop := by
    obtain ⟨hpstop, hle⟩ := (h.draws.round hr).least c (hperm.mem_iff.mpr hc) hfresh hstop
    exact ⟨hpstop, BitVec.le_def.mpr hle⟩
  earliest r p hr hnone c hc hfresh := by
    have hfirst := (h.draws.round hr).first
      (fun d hd => hnone d (hperm.mem_iff.mp hd)) c (hperm.mem_iff.mpr hc) hfresh
    cases hfirst with
    | inl heq => exact heq ▸ .inr ⟨rfl, BitVec.le_refl _⟩
    | inr hbefore => exact hbefore
  bit r p hr := by rw [h.bits, hr, any_some]
  above r hr := by rw [h.bits, getElem?_eq_none hr, any_none]

/-! ## §6. Every chain. -/

theorem selectRounds_exact (hindexed : Indexed mapBlockIndex pindexPrev)
    (nStakeModifierPrev : UInt64) (nSelectionIntervalStart : Int) :
    ∃ s picked, selectRounds H mapBlockIndex nStakeModifierPrev nSelectionIntervalStart
        (sortByTimestamp ((candidateBlocks nSelectionIntervalStart pindexPrev).map BlockPtr.item)) =
          some s ∧
      (∀ (hash : UInt256) (p : BlockPtr),
        s.mapSelectedBlocks[hash]? = some p ↔ p ∈ picked ∧ p.getBlockHash = hash) ∧
      Selects H nStakeModifierPrev nSelectionIntervalStart
        (candidateBlocks nSelectionIntervalStart pindexPrev) picked s.nStakeModifierNew := by
  have hperm := sortedCandidates_perm (candidateBlocks nSelectionIntervalStart pindexPrev)
  have hl : ∀ c ∈ sortedCandidates (candidateBlocks nSelectionIntervalStart pindexPrev),
      mapBlockIndex[c.getBlockHash]? = some c :=
    fun c hc => hindexed.lookup (hperm.mem_iff.mp hc)
  obtain ⟨picked, s, hs, hlength, hafter⟩ := Rounds.all (H := H) hl
    (hperm.nodup_iff.mpr candidateBlocks_nodup) (sortedCandidates_sorted _) (Nat.le_refl _)
  refine ⟨s, picked, ?_, hafter.selected, hafter.selects hperm hlength⟩
  rw [selectRounds, sortByTimestamp_eq, length_map]
  exact hs

theorem computeNextStakeModifier_eq {pindex : StakeIndexData} {pprev : IndexPtr}
    {nStakeModifierPrev : UInt64} {nModifierTime : Int} (hprev : pindexPrev = pindex :: pprev)
    (hlast : getLastStakeModifier pindexPrev = some (nStakeModifierPrev, nModifierTime)) :
    computeNextStakeModifier H mapBlockIndex pindexPrev =
      if nModifierTime.tdiv nModifierInterval ≥ pindex.getBlockTime.tdiv nModifierInterval then
        some (nStakeModifierPrev, false)
      else (selectRounds H mapBlockIndex nStakeModifierPrev
        (selectionIntervalStart pindex.getBlockTime) (sortByTimestamp
          ((candidateBlocks (selectionIntervalStart pindex.getBlockTime) pindexPrev).map
            BlockPtr.item))).bind fun s => some (s.nStakeModifierNew, true) := by
  rw [hprev] at hlast ⊢
  rw [computeNextStakeModifier, hlast]
  rfl

/-- **The next stake modifier.**  With the genesis block's modifier generated, and every block of
the chain indexed, `ComputeNextStakeModifier` returns true.  A modifier that it generates on a block
comes from its 64 rounds, or from as many as there are candidates; the blocks they select differ,
and each is the one of its round: with the least selection hash of those up to the stop that are
left, or the earliest one left where there are none.  The bits of the modifier are the entropy bits
of these blocks in order, with zeros above. -/
theorem computeNextStakeModifier_exact (hindexed : Indexed mapBlockIndex pindexPrev)
    (hgenesis : ∀ root, pindexPrev.getLast? = some root → root.generatedStakeModifier = true) :
    ∃ nStakeModifier fGeneratedStakeModifier,
      computeNextStakeModifier H mapBlockIndex pindexPrev =
        some (nStakeModifier, fGeneratedStakeModifier) ∧
      (fGeneratedStakeModifier = true → pindexPrev = [] ∧ nStakeModifier = 0 ∨
        ∃ pindex pprev nStakeModifierPrev nModifierTime s picked,
          pindexPrev = pindex :: pprev ∧
          getLastStakeModifier pindexPrev = some (nStakeModifierPrev, nModifierTime) ∧
          selectRounds H mapBlockIndex nStakeModifierPrev
            (selectionIntervalStart pindex.getBlockTime) (sortByTimestamp
              ((candidateBlocks (selectionIntervalStart pindex.getBlockTime) pindexPrev).map
                BlockPtr.item)) = some s ∧
          nStakeModifier = s.nStakeModifierNew ∧
          (∀ (hash : UInt256) (p : BlockPtr),
            s.mapSelectedBlocks[hash]? = some p ↔ p ∈ picked ∧ p.getBlockHash = hash) ∧
          Selects H nStakeModifierPrev (selectionIntervalStart pindex.getBlockTime)
            (candidateBlocks (selectionIntervalStart pindex.getBlockTime) pindexPrev) picked
            nStakeModifier) := by
  cases hprev : pindexPrev with
  | nil => exact ⟨0, true, rfl, fun _ => .inl ⟨rfl, rfl⟩⟩
  | cons pindex pprev =>
    rw [← hprev]
    have hne : pindexPrev ≠ [] := by
      rw [hprev]
      exact cons_ne_nil pindex pprev
    obtain ⟨⟨nStakeModifierPrev, nModifierTime⟩, hlast⟩ :=
      getLastStakeModifier_of_genesis hne hgenesis
    rw [computeNextStakeModifier_eq hprev hlast]
    by_cases hearly : nModifierTime.tdiv nModifierInterval ≥
        pindex.getBlockTime.tdiv nModifierInterval
    · rw [if_pos hearly]
      exact ⟨_, _, rfl, fun h => nomatch h⟩
    rw [if_neg hearly]
    obtain ⟨s, picked, hs, hselected, hselects⟩ := selectRounds_exact (H := H) hindexed
      nStakeModifierPrev (selectionIntervalStart pindex.getBlockTime)
    rw [hs]
    exact ⟨_, _, rfl, fun _ => .inr ⟨pindex, pprev, nStakeModifierPrev, nModifierTime, s, picked,
      hprev, hlast, hs, rfl, hselected, hselects⟩⟩

def sampleModifierBlock (n : Nat) (nFlags nTime : UInt32) : StakeIndexData :=
  ⟨⟨BitVec.ofNat 256 n, .first, 0, 1, 0, nTime, 0, 0⟩, nFlags, 5, BitVec.ofNat 256 n⟩

def sampleModifierChain : IndexPtr :=
  [sampleModifierBlock 3 2 700, sampleModifierBlock 2 1 700, sampleModifierBlock 1 6 0]

def sampleModifierIndex : StdMap UInt256 BlockPtr :=
  ((((∅ : StdMap UInt256 BlockPtr).insert 1 ⟨sampleModifierBlock 1 6 0, []⟩).insert 2
    ⟨sampleModifierBlock 2 1 700, [sampleModifierBlock 1 6 0]⟩).insert 3
    ⟨sampleModifierBlock 3 2 700, [sampleModifierBlock 2 1 700, sampleModifierBlock 1 6 0]⟩)

theorem indexed_sampleModifierChain : Indexed sampleModifierIndex sampleModifierChain := by
  intro pindex pprev hsuffix
  rw [sampleModifierChain, suffix_cons_iff, suffix_cons_iff, suffix_cons_iff,
    suffix_nil] at hsuffix
  rcases hsuffix with heq | heq | heq | heq
  · obtain ⟨rfl, rfl⟩ := cons.inj heq
    decide +kernel
  · obtain ⟨rfl, rfl⟩ := cons.inj heq
    decide +kernel
  · obtain ⟨rfl, rfl⟩ := cons.inj heq
    decide +kernel
  · exact nomatch heq

/-- There an interval begins, and all three blocks are candidates. -/
theorem computeNextStakeModifier_sampleModifierChain :
    ∃ nStakeModifier picked,
      computeNextStakeModifier sampleHashes sampleModifierIndex sampleModifierChain =
        some (nStakeModifier, true) ∧
      Selects sampleHashes 5 (selectionIntervalStart 700) (candidateBlocks (selectionIntervalStart 700)
        sampleModifierChain) picked nStakeModifier ∧ picked.length = 3 := by
  have hlast : getLastStakeModifier sampleModifierChain = some (5, 0) := by decide +kernel
  obtain ⟨nStakeModifier, fGenerated, hcompute, hgenerated⟩ :=
    computeNextStakeModifier_exact (H := sampleHashes) indexed_sampleModifierChain (by decide +kernel)
  have hnew : fGenerated = true := by
    have hchain :
        sampleModifierChain = sampleModifierBlock 3 2 700 :: sampleModifierChain.tail := rfl
    rw [computeNextStakeModifier_eq hchain hlast, if_neg (by decide +kernel)] at hcompute
    obtain ⟨_, _, heq⟩ := bind_eq_some_iff.mp hcompute
    exact (congrArg Prod.snd (Option.some.inj heq)).symm
  subst hnew
  rcases hgenerated rfl with ⟨hnull, _⟩ | ⟨pindex, pprev, prev, time, s, picked, hchain, hprev, _,
    hmodifier, _, hselects⟩
  · exact nomatch hnull
  · obtain ⟨rfl, rfl⟩ := cons.inj hchain
    rw [hlast] at hprev
    cases hprev
    refine ⟨nStakeModifier, picked, hcompute, hselects, ?_⟩
    rw [hselects.length]
    decide +kernel

end Fantom.Chain
