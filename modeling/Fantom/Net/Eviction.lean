/-
  Fantom.Net.Eviction — Which entry of a full tried bucket gives way: `SelectTried` shuffles up to
  four entries to the front and remembers the least recently tried of them, at the place that it
  came from.

  * `Oldest` — the entry that is remembered,
  * `selectTried_evicts_iff` — when that place holds an entry that was least recently tried.
-/
import Fantom.Lib.Sorting
import Fantom.Net.Check

namespace Fantom.Net

open Core Lib Lib.Shuffle Nat

namespace CAddrMan

variable (s : CAddrMan) (rnd : Nat → Nat) (vTried : List Int)

/-! ## §1. What is drawn. -/

/-- `nPos` in turn `i`. -/
def triedPlace (i : Nat) : Nat := getRandInt (rnd i) (vTried.length - i) + i

def inspectCount : Nat := min ADDRMAN_TRIED_ENTRIES_INSPECT_ON_EVICT vTried.length

def inspected : List Int :=
  (List.range (inspectCount vTried)).filterMap (drawn (triedPlace rnd vTried) vTried)

/-- `mapInfo[nId].nLastSuccess` -/
def lastSuccess (nId : Int) : Int := ((s.field CAddrInfo.nLastSuccess nId).getD 0).toInt

/-- Of the first `m` entries that are drawn, turn `j` draws the first that is least recently
tried. -/
structure Oldest (m j : Nat) (nId : Int) : Prop where
  lt : j < m
  drawn : drawn (triedPlace rnd vTried) vTried j = some nId
  least : ∀ i < m, ∀ n, Shuffle.drawn (triedPlace rnd vTried) vTried i = some n →
    s.lastSuccess nId ≤ s.lastSuccess n
  first : ∀ i < j, ∀ n, Shuffle.drawn (triedPlace rnd vTried) vTried i = some n →
    s.lastSuccess nId < s.lastSuccess n

/-- **The entry that is chosen is evicted**: the bucket is permuted, and the place that is returned
holds an entry, of those that were inspected, that was least recently tried. -/
def EvictsOldest : Prop :=
  ∃ vTried' nPos nId, s.selectTried rnd vTried = .ok (vTried', nPos) ∧ vTried'.Perm vTried ∧
    triedAt vTried' nPos = .ok nId ∧ nId ∈ inspected rnd vTried ∧
    ∀ n ∈ inspected rnd vTried, s.lastSuccess nId ≤ s.lastSuccess n

/-! ## §2. The loop. -/

variable {s rnd vTried} {m : Nat}

theorem triedPlace_bounds {i : Nat} (hi : i < vTried.length) :
    i ≤ triedPlace rnd vTried i ∧ triedPlace rnd vTried i < vTried.length := by
  have := getRandInt_lt (rnd i) (show 0 < vTried.length - i by omega)
  unfold triedPlace
  omega

variable (rnd) in
theorem drawn_eq (hm : m < vTried.length) :
    ∃ nTemp ∈ vTried, drawn (triedPlace rnd vTried) vTried m = some nTemp :=
  drawn_eq_some (triedPlace_bounds hm).2

theorem selectTriedAt_eq (hm : m < vTried.length) {nTemp : Int}
    (htemp : drawn (triedPlace rnd vTried) vTried m = some nTemp) (nOldest nOldestPos : Int) :
    s.selectTriedAt rnd (after (triedPlace rnd vTried) vTried m, nOldest, nOldestPos) m =
      if nOldest = -1 then
        .ok (after (triedPlace rnd vTried) vTried (m + 1), nTemp, triedPlace rnd vTried m)
      else (do
        let info ← s.infoAt nTemp
        let infoOldest ← s.infoAt nOldest
        if info.nLastSuccess < infoOldest.nLastSuccess then
          .ok (after (triedPlace rnd vTried) vTried (m + 1), nTemp, triedPlace rnd vTried m)
        else .ok (after (triedPlace rnd vTried) vTried (m + 1), nOldest, nOldestPos)) := by
  have hplace : getRandInt (rnd m) ((after (triedPlace rnd vTried) vTried m).length - m) + m =
      triedPlace rnd vTried m := by rw [length_after, triedPlace]
  have hlt : m < (after (triedPlace rnd vTried) vTried m).length := by
    rw [length_after]
    exact hm
  rw [drawn] at htemp
  simp only [selectTriedAt, hplace]
  rw [after, swap, htemp, List.getElem?_eq_getElem hlt]

theorem lastSuccess_eq {nId : Int} {info : CAddrInfo} (h : s.mapInfo[nId]? = some info) :
    s.lastSuccess nId = info.nLastSuccess.toInt := by
  rw [lastSuccess, field, h]
  rfl

variable (rnd) in
/-- **The loop** remembers the first entry that was least recently tried, with the place that it
came from. -/
theorem selectTried_loop (hmem : ∀ n ∈ vTried, 0 ≤ n ∧ n ∈ s.mapInfo) (hm : m < vTried.length) :
    ∃ j nId, s.Oldest rnd vTried (m + 1) j nId ∧
      (List.range (m + 1)).foldlM (s.selectTriedAt rnd) (vTried, -1, -1) =
        .ok (after (triedPlace rnd vTried) vTried (m + 1), nId, triedPlace rnd vTried j) := by
  induction m with
  | zero =>
    obtain ⟨nTemp, _, htemp⟩ := drawn_eq rnd hm
    refine ⟨0, nTemp, ⟨one_pos, htemp, ?_, fun i hi => absurd hi (not_lt_zero i)⟩, ?_⟩
    · intro i hi n hn
      obtain rfl := lt_one_iff.mp hi
      rw [htemp] at hn
      rw [Option.some.inj hn]
    · have hturn := selectTriedAt_eq (s := s) hm htemp (-1) (-1)
      rw [if_pos rfl] at hturn
      rw [List.range_one, List.foldlM_cons]
      exact bind_eq_ok.mpr ⟨_, hturn, rfl⟩
  | succ m ih =>
    obtain ⟨j, nOldest, hold, hloop⟩ := ih (by omega)
    obtain ⟨nTemp, htempMem, htemp⟩ := drawn_eq rnd hm
    have holdMem : nOldest ∈ vTried :=
      (after_perm _ _ _).mem_iff.mp (List.mem_of_getElem? hold.drawn)
    obtain ⟨info, hinfo⟩ := mem_mapInfo_iff.mp (hmem nTemp htempMem).2
    obtain ⟨infoOldest, hinfoOldest⟩ := mem_mapInfo_iff.mp (hmem nOldest holdMem).2
    have hturn := selectTriedAt_eq (s := s) hm htemp nOldest (triedPlace rnd vTried j)
    rw [if_neg (by have := (hmem nOldest holdMem).1; omega), infoAt_eq hinfo, ok_bind,
      infoAt_eq hinfoOldest, ok_bind] at hturn
    -- the loop with this turn behind it
    have hrun : (List.range (m + 1 + 1)).foldlM (s.selectTriedAt rnd) (vTried, -1, -1) =
        s.selectTriedAt rnd (after (triedPlace rnd vTried) vTried (m + 1), nOldest,
          ((triedPlace rnd vTried j : Nat) : Int)) (m + 1) := by
      rw [List.range_succ, List.foldlM_append, hloop]
      exact bind_pure (m := Except Abort) _
    rw [hrun, hturn]
    have hlast := lastSuccess_eq hinfo
    have hlastOld := lastSuccess_eq hinfoOldest
    by_cases hlt : info.nLastSuccess < infoOldest.nLastSuccess
    · rw [if_pos hlt]
      have hlt := Int64.lt_iff_toInt_lt.mp hlt
      refine ⟨m + 1, nTemp, ⟨lt_succ_self _, htemp, ?_, ?_⟩, rfl⟩
      · intro i hi n hn
        obtain rfl | hne := eq_or_ne i (m + 1)
        · rw [htemp] at hn
          rw [Option.some.inj hn]
        · have := hold.least i (by omega) n hn
          omega
      · intro i hi n hn
        have := hold.least i hi n hn
        omega
    · rw [if_neg hlt]
      have hle := Int64.lt_iff_toInt_lt.not.mp hlt
      refine ⟨j, nOldest, ⟨lt_succ_of_lt hold.lt, hold.drawn, ?_, hold.first⟩, rfl⟩
      intro i hi n hn
      obtain rfl | hne := eq_or_ne i (m + 1)
      · rw [htemp] at hn
        rw [← Option.some.inj hn]
        omega
      · exact hold.least i (by omega) n hn

variable (rnd) in
/-- **`SelectTried`** returns the place that the oldest entry came from. -/
theorem selectTried_eq (hne : vTried ≠ []) (hmem : ∀ n ∈ vTried, 0 ≤ n ∧ n ∈ s.mapInfo) :
    ∃ j nId, s.Oldest rnd vTried (inspectCount vTried) j nId ∧ s.selectTried rnd vTried =
      .ok (after (triedPlace rnd vTried) vTried (inspectCount vTried), triedPlace rnd vTried j) := by
  have hpos := List.length_pos_of_ne_nil hne
  have hcount : inspectCount vTried = inspectCount vTried - 1 + 1 := by
    unfold inspectCount ADDRMAN_TRIED_ENTRIES_INSPECT_ON_EVICT
    omega
  have hlt : inspectCount vTried - 1 < vTried.length := by
    unfold inspectCount at hcount ⊢
    omega
  obtain ⟨j, nId, hold, hloop⟩ := selectTried_loop rnd hmem hlt
  rw [← hcount] at hold hloop
  refine ⟨j, nId, hold, ?_⟩
  rw [selectTried, ← inspectCount, hloop]
  rfl

/-! ## §3. What is at the place that is returned. -/

theorem inspectCount_le : inspectCount vTried ≤ vTried.length := min_le_right _ _

theorem getElem?_inspected {i : Nat} (hi : i < inspectCount vTried) :
    (after (triedPlace rnd vTried) vTried (inspectCount vTried))[i]? =
      drawn (triedPlace rnd vTried) vTried i :=
  getElem?_after (fun _ hj => triedPlace_bounds (lt_of_lt_of_le hj inspectCount_le)) hi

theorem mem_inspected {nId : Int} : nId ∈ inspected rnd vTried ↔
    ∃ i < inspectCount vTried, drawn (triedPlace rnd vTried) vTried i = some nId := by
  simp only [inspected, List.mem_filterMap, List.mem_range]

/-- The place holds one of the inspected entries that was least recently tried. -/
def KeepsPlace (s : CAddrMan) (rnd : Nat → Nat) (vTried : List Int) : Prop :=
  ∀ j nId, s.Oldest rnd vTried (inspectCount vTried) j nId →
    triedPlace rnd vTried j < inspectCount vTried ∧
    ∀ n, drawn (triedPlace rnd vTried) vTried (triedPlace rnd vTried j) = some n →
      s.lastSuccess n = s.lastSuccess nId

theorem Oldest.unique {m j j' : Nat} {nId nId' : Int} (h : s.Oldest rnd vTried m j nId)
    (h' : s.Oldest rnd vTried m j' nId') : j = j' := by
  obtain hlt | heq | hgt := lt_trichotomy j j'
  · have := h'.first j hlt nId h.drawn
    have := h.least j' h'.lt nId' h'.drawn
    omega
  · exact heq
  · have := h.first j' hgt nId' h'.drawn
    have := h'.least j h.lt nId h.drawn
    omega

/-- **`SelectTried` evicts the entry that it chose exactly where the place that it remembers is
still that of an inspected entry that was tried no later**: the entry was drawn where it already
stood, or another inspected one with the same time stands where it was drawn. -/
theorem selectTried_evicts_iff (hne : vTried ≠ []) (hnodup : vTried.Nodup)
    (hmem : ∀ n ∈ vTried, 0 ≤ n ∧ n ∈ s.mapInfo) :
    s.EvictsOldest rnd vTried ↔ KeepsPlace s rnd vTried := by
  obtain ⟨j, nOldest, hold, hselect⟩ := selectTried_eq rnd hne hmem
  have hj : triedPlace rnd vTried j < vTried.length :=
    (triedPlace_bounds (lt_of_lt_of_le hold.lt inspectCount_le)).2
  have hlen : triedPlace rnd vTried j <
      (after (triedPlace rnd vTried) vTried (inspectCount vTried)).length := by
    rw [length_after]
    exact hj
  have hperm := after_perm (triedPlace rnd vTried) vTried (inspectCount vTried)
  constructor
  · rintro ⟨vTried', nPos, nId, heq, _, hat, hins, hleast⟩ j' nOldest' hold'
    obtain rfl := hold'.unique hold
    rw [hselect] at heq
    cases heq
    obtain ⟨i, hi, hdrawn⟩ := mem_inspected.mp hins
    -- the entry is at two places, so they are one
    have hplace : triedPlace rnd vTried j' = i := by
      refine (List.getElem?_inj hlen (hperm.nodup_iff.mpr hnodup)).mp ?_
      rw [getElem?_inspected hi, hdrawn]
      rw [triedAt, if_neg (by omega), Int.toNat_natCast] at hat
      split at hat
      next nId' hget => rw [hget, Except.ok.inj hat]
      next => cases hat
    rw [hplace]
    refine ⟨hi, fun n hn => ?_⟩
    rw [hdrawn] at hn
    cases hn
    have h₁ := hleast nOldest' (mem_inspected.mpr ⟨j', hold'.lt, hold'.drawn⟩)
    have h₂ := hold'.least i hi nId hdrawn
    omega
  · intro hkeeps
    obtain ⟨hlt, hlast⟩ := hkeeps j nOldest hold
    obtain ⟨n, _, hn⟩ := drawn_eq rnd (lt_of_lt_of_le hlt inspectCount_le)
    refine ⟨_, _, n, hselect, hperm, ?_, mem_inspected.mpr ⟨_, hlt, hn⟩, fun m hm => ?_⟩
    · rw [triedAt, if_neg (by omega), Int.toNat_natCast, getElem?_inspected hlt, hn]
    · obtain ⟨i, hi, hdrawn⟩ := mem_inspected.mp hm
      rw [hlast n hn]
      exact hold.least i hi m hdrawn

/-! ## §4. A full bucket. -/

/-- 64 entries, of which one was tried longer ago than the others. -/
def fullTable (nOldest : Nat) : CAddrMan :=
  { empty [] with
    mapInfo := (List.range 64).foldl (fun mapInfo (i : Nat) => mapInfo.insert (i : Int)
      { CAddrInfo.create ⟨⟨0, 0⟩, 0, 0, 0⟩ 0 with nLastSuccess := if i = nOldest then 1 else 2 }) ∅ }

def fullBucket : List Int := (List.range 64).map Int.ofNat

def lastFirst : Nat → Nat
  | 0 => 63
  | _ + 1 => 0

/-- Where each turn draws the entry at its own place, the oldest of these is evicted. -/
theorem selectTried_evicts_iff_inPlace : (fullTable 2).EvictsOldest (fun _ => 0) fullBucket := by
  refine (selectTried_evicts_iff (by decide) (by decide +kernel) (by decide +kernel)).mpr ?_
  intro j nId hold
  have hplaces : ∀ j < 4, triedPlace (fun _ => 0) fullBucket j = j := by decide
  rw [hplaces j hold.lt]
  refine ⟨hold.lt, fun n hn => ?_⟩
  rw [hold.drawn] at hn
  cases hn
  rfl

/-- The last entry is the one that is chosen, and the first one is evicted. -/
theorem selectTried_evicts_another : ¬ (fullTable 63).EvictsOldest lastFirst fullBucket := by
  rintro ⟨vTried', nPos, nId, hselect, -, hat, hins, -⟩
  have hresult : (fullTable 63).selectTried lastFirst fullBucket =
      .ok ((fullBucket.set 63 0).set 0 63, 63) := by decide +kernel
  rw [hresult] at hselect
  cases hselect
  have hfirst : triedAt ((fullBucket.set 63 0).set 0 63) 63 = .ok 0 := by decide +kernel
  rw [hfirst] at hat
  cases hat
  have hinspected : inspected lastFirst fullBucket = [63, 1, 2, 3] := by decide +kernel
  rw [hinspected] at hins
  exact absurd hins (by decide)

end CAddrMan

end Fantom.Net
