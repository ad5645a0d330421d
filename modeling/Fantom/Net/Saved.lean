/-
  Fantom.Net.Saved — Which tables of peers survive saving, and which files make a sound table.

  * `fileOf` — the file of a table, `serialize_eq` — it is what `Serialize` writes,
  * `peers_saved_iff` — the table that is read is the one that was written.
-/
import Fantom.Net.Calls
import Fantom.Net.Loading

namespace Fantom.Net

open Core Lib List Std.ExtTreeSet

namespace CAddrMan

variable {H : Hashes} {s : CAddrMan}

/-! ## §1. What is written. -/

def newItems (s : CAddrMan) : List (Int × CAddrInfo) :=
  s.mapInfo.toList.filter fun item => !item.2.fInTried

def triedItems (s : CAddrMan) : List (Int × CAddrInfo) :=
  s.mapInfo.toList.filter fun item => item.2.fInTried

def newIndex (s : CAddrMan) (nId : Int) : Int := ((s.newItems.map Prod.fst).idxOf nId : Nat)

def fileOf (s : CAddrMan) : PeerFile where
  nKey := s.nKey
  new := s.newItems.map fun item => item.2.stored
  tried := s.triedItems.map fun item => item.2.stored
  buckets := (List.finRange ADDRMAN_NEW_BUCKET_COUNT).map fun b =>
    (s.vvNew b).toList.map s.newIndex

/-- **The first loop** of `Serialize`, where `nNew` is right. -/
theorem writeNew_eq {nNew : Int} (items : List (Int × CAddrInfo)) :
    ∀ (nIds : Nat) (mapUnkIds : StdMap Int Int),
      nNew = ((nIds + items.countP fun item => item.2.nRefCount ≠ 0 : Nat) : Int) →
      (items.map Prod.fst).Nodup →
      (writeNew nNew items nIds mapUnkIds).1 =
          (items.filter fun item => item.2.nRefCount ≠ 0).map (fun item => .info item.2.stored) ∧
        (∀ a, a ∉ items.map Prod.fst →
          (writeNew nNew items nIds mapUnkIds).2[a]? = mapUnkIds[a]?) ∧
        ∀ i a, ((items.filter fun item => item.2.nRefCount ≠ 0).map Prod.fst)[i]? = some a →
          (writeNew nNew items nIds mapUnkIds).2[a]? = some ((nIds + i : Nat) : Int) := by
  induction items with
  | nil =>
    intro nIds mapUnkIds _ _
    exact ⟨rfl, fun _ _ => rfl, fun i a h => by simp at h⟩
  | cons item rest ih =>
    intro nIds mapUnkIds hnNew hnodup
    obtain ⟨nId, info⟩ := item
    rw [map_cons, nodup_cons] at hnodup
    obtain ⟨hfst, hnodup⟩ := hnodup
    rw [writeNew]
    by_cases hstop : (nIds : Int) = nNew
    · -- no new entry is left
      have hzero : ((nId, info) :: rest).countP (fun item => item.2.nRefCount ≠ 0) = 0 := by
        omega
      have hnil : ((nId, info) :: rest).filter (fun item => item.2.nRefCount ≠ 0) = [] := by
        rw [countP_eq_length_filter] at hzero
        exact length_eq_zero_iff.mp hzero
      rw [if_pos hstop, hnil]
      exact ⟨rfl, fun _ _ => rfl, fun i a h => by simp at h⟩
    · rw [if_neg hstop]
      simp only
      by_cases hnew : info.nRefCount ≠ 0
      · have hcount : nNew = ((nIds + 1 +
            rest.countP fun item => item.2.nRefCount ≠ 0 : Nat) : Int) := by
          rw [hnNew, countP_cons_of_pos (by simpa using hnew)]
          omega
        obtain ⟨h₁, h₂, h₃⟩ := ih _ (mapUnkIds.insert nId nIds) hcount hnodup
        rw [if_pos hnew, filter_cons_of_pos (by simpa using hnew)]
        refine ⟨by rw [h₁, map_cons], ?_, ?_⟩
        · intro a ha
          rw [map_cons, mem_cons, not_or] at ha
          exact (h₂ a ha.2).trans (StdMap.get_insert_ne _ _ (Ne.symm ha.1))
        · intro i a ha
          cases i with
          | zero =>
            rw [map_cons, List.getElem?_cons_zero] at ha
            cases ha
            exact (h₂ _ hfst).trans (StdMap.get_insert_self _ _ _)
          | succ i =>
            rw [map_cons, List.getElem?_cons_succ] at ha
            rw [h₃ i a ha]
            congr 2
            omega
      · have hcount : nNew = ((nIds +
            rest.countP fun item => item.2.nRefCount ≠ 0 : Nat) : Int) := by
          rw [hnNew, countP_cons_of_neg (by simpa using hnew)]
        obtain ⟨h₁, h₂, h₃⟩ := ih _ (mapUnkIds.insert nId nIds) hcount hnodup
        rw [if_neg hnew, filter_cons_of_neg (by simpa using hnew)]
        refine ⟨h₁, ?_, h₃⟩
        intro a ha
        rw [map_cons, mem_cons, not_or] at ha
        exact (h₂ a ha.2).trans (StdMap.get_insert_ne _ _ (Ne.symm ha.1))

/-- **The second loop** of `Serialize`, where `nTried` is right. -/
theorem writeTried_eq {nTried : Int} (items : List (Int × CAddrInfo)) :
    ∀ (nIds : Nat), nTried = ((nIds + items.countP fun item => item.2.fInTried : Nat) : Int) →
      writeTried nTried items nIds =
        (items.filter fun item => item.2.fInTried).map fun item => .info item.2.stored := by
  induction items with
  | nil => exact fun _ _ => rfl
  | cons item rest ih =>
    intro nIds hnTried
    obtain ⟨nId, info⟩ := item
    rw [writeTried]
    by_cases hstop : (nIds : Int) = nTried
    · have hzero : ((nId, info) :: rest).countP (fun item => item.2.fInTried) = 0 := by omega
      rw [countP_eq_length_filter] at hzero
      rw [if_pos hstop, length_eq_zero_iff.mp hzero]
      rfl
    · rw [if_neg hstop]
      by_cases htried : info.fInTried = true
      · have hcount : nTried = ((nIds + 1 +
            rest.countP fun item => item.2.fInTried : Nat) : Int) := by
          rw [hnTried, countP_cons, if_pos htried]
          omega
        rw [if_pos htried, filter_cons, if_pos htried, map_cons, ih _ hcount]
      · have hcount : nTried = ((nIds +
            rest.countP fun item => item.2.fInTried : Nat) : Int) := by
          rw [hnTried, countP_cons, if_neg htried, Nat.add_zero]
        rw [if_neg htried, filter_cons, if_neg htried, ih _ hcount]

theorem mem_toList_iff {item : Int × CAddrInfo} :
    item ∈ s.mapInfo.toList ↔ s.mapInfo[item.1]? = some item.2 :=
  Std.ExtTreeMap.mem_toList_iff_getElem?_eq_some

theorem nodup_ids : (s.mapInfo.toList.map Prod.fst).Nodup := by
  rw [Std.ExtTreeMap.map_fst_toList_eq_keys]
  exact Std.ExtTreeMap.nodup_keys

variable {nId : Int} {info : CAddrInfo} {f : PeerFile} {d : StoredInfo}

theorem Check.nRefCount_ne_zero (h : Check s) (hinfo : s.mapInfo[nId]? = some info) :
    info.nRefCount ≠ 0 ↔ info.fInTried = false := by
  have hentry := h.entry nId info hinfo
  by_cases htried : info.fInTried = true
  · have hzero := (hentry.tried htried).2
    simp [hzero, htried]
  · have hfalse : info.fInTried = false := by simpa using htried
    have hpos := (hentry.new hfalse).1
    exact iff_of_true (by omega) hfalse

/-- **What `Serialize` writes** of a sound table. -/
theorem serialize_eq (h : Check s) : s.serialize = s.fileOf.words := by
  have hnew : ∀ item ∈ s.mapInfo.toList,
      decide (item.2.nRefCount ≠ 0) = !item.2.fInTried := by
    intro item hitem
    have := h.nRefCount_ne_zero (mem_toList_iff.mp hitem)
    by_cases htried : item.2.fInTried = true
    · rw [htried] at this ⊢
      simpa using this
    · rw [Bool.not_eq_true] at htried
      rw [htried] at this ⊢
      simpa using this
  have hfilter : (s.mapInfo.toList.filter fun item => item.2.nRefCount ≠ 0) = s.newItems :=
    filter_congr hnew
  have hcount : s.nNew = ((0 +
      s.mapInfo.toList.countP fun item => item.2.nRefCount ≠ 0 : Nat) : Int) := by
    rw [h.nNew, Nat.zero_add, countP_eq_length_filter, countP_eq_length_filter, hfilter]
    rfl
  obtain ⟨h₁, -, h₃⟩ := writeNew_eq s.mapInfo.toList 0 ∅ hcount nodup_ids
  have hcountTried : s.nTried = ((0 +
      s.mapInfo.toList.countP fun item => item.2.fInTried : Nat) : Int) := by
    rw [h.nTried, Nat.zero_add]
  have htried := writeTried_eq s.mapInfo.toList 0 hcountTried
  rw [hfilter] at h₁ h₃
  -- the numbers of the new entries
  have hindex : ∀ b, ∀ nId ∈ s.vvNew b,
      ((writeNew s.nNew s.mapInfo.toList 0 ∅).2[nId]?).getD 0 = s.newIndex nId := by
    intro b nId hin
    obtain ⟨info, hinfo, hf⟩ := h.inNew b nId hin
    have hmem : nId ∈ s.newItems.map Prod.fst := by
      refine mem_map.mpr ⟨(nId, info), ?_, rfl⟩
      rw [newItems, mem_filter, mem_toList_iff]
      exact ⟨hinfo, by simp [hf]⟩
    have hlt := idxOf_lt_length_iff.mpr hmem
    have hget : (s.newItems.map Prod.fst)[(s.newItems.map Prod.fst).idxOf nId]? = some nId := by
      rw [List.getElem?_eq_getElem hlt, getElem_idxOf]
    rw [h₃ _ nId hget, Option.getD_some, Nat.zero_add]
    rfl
  have hbuckets : ((List.finRange ADDRMAN_NEW_BUCKET_COUNT).flatMap fun b =>
      writeBucket (writeNew s.nNew s.mapInfo.toList 0 ∅).2 (s.vvNew b)) =
        s.fileOf.buckets.flatMap fun v => .int v.length :: v.map .int := by
    rw [fileOf, flatMap_map]
    refine flatMap_congr fun b _ => ?_
    rw [writeBucket, length_map, length_toList, map_map]
    congr 1
    refine map_congr_left fun nId hin => ?_
    rw [hindex b nId (mem_toList.mp hin)]
    rfl
  have hlenNew : s.nNew = (s.fileOf.new.length : Int) := by
    rw [h.nNew, fileOf, length_map, newItems, countP_eq_length_filter]
  have hlenTried : s.nTried = (s.fileOf.tried.length : Int) := by
    rw [h.nTried, fileOf, length_map, triedItems, countP_eq_length_filter]
  have hlen : s.fileOf.buckets.length = ADDRMAN_NEW_BUCKET_COUNT := by
    rw [fileOf, length_map, length_finRange]
  rw [serialize, PeerFile.words, h₁, htried, hbuckets, hlenNew, hlenTried, hlen]
  rw [fileOf, map_map, map_map]
  rfl

/-! ## §2. What is read. -/

def keptOf (H : Hashes) (f : PeerFile) : List StoredInfo := f.tried.foldl (keepTried H f.nKey) []

theorem unserialize_words (hf : f.WellFormed) :
    ∃ s : CAddrMan, Loading H f.nKey f.new (keptOf H f) s ∧
      InOwnBuckets H f.nKey f.buckets.length f.new s.vvNew ∧ s.nNew = f.new.length ∧
      s.nTried = (keptOf H f).length ∧
      unserialize H f.words = (List.range f.buckets.length).foldlM (readBucket f.buckets.length)
        (s, f.buckets.flatMap fun v => .int v.length :: v.map .int) >>= fun r => .ok r.1 := by
  have hown : InOwnBuckets H f.nKey f.buckets.length []
      (empty f.nKey).vvNew := by
    intro b n
    rw [nth_nil]
    exact iff_of_false not_mem_empty fun h => Option.some_ne_none _ h.2.symm
  have hnodup := hf.nodup
  rw [map_append] at hnodup
  have hstart : Loading H f.nKey [] [] { empty f.nKey with
      nNew := f.new.length, nTried := f.tried.length } := loading_empty _ _ _
  have hnew := hstart.allNew
    (f.tried.map .info ++ f.buckets.flatMap fun v => .int v.length :: v.map .int)
    f.new hown (by rw [nil_append]; exact (nodup_append.mp hnodup).1)
  obtain ⟨⟨s₁, ws₁⟩, hs₁, hws₁, h₁, hnNew₁, hnTried₁, hown₁⟩ := hnew
  simp only [nil_append] at hws₁ h₁ hnNew₁ hnTried₁ hown₁
  subst hws₁
  -- the ids go on after the new entries
  have hid : (Int32.ofInt f.new.length).toInt = f.new.length := by
    have hcount := hf.count
    rw [length_append] at hcount
    exact Int32.toInt_ofInt_of_le (by omega) (by omega)
  have h₁' : Loading H f.nKey f.new [] { s₁ with
      nIdCount := Int32.ofInt f.new.length } :=
    ⟨h₁.nKey, h₁.mapInfo, h₁.mapAddr, h₁.vRandom, h₁.vvTried, h₁.inNew⟩
  have htried := h₁'.allTried (f.buckets.flatMap fun v => .int v.length :: v.map .int) f.tried 0 0
    (by rw [append_nil]; exact hf.nodup) (by rw [append_nil]; exact hf.count)
    (by rw [append_nil]; exact hid)
  obtain ⟨⟨s₂, nLost, ws₂⟩, hs₂, hws₂, h₂, hnNew₂, hnTried₂, hvvNew₂, hlost⟩ := htried
  simp only at hws₂ h₂ hnNew₂ hnTried₂ hvvNew₂ hlost
  subst hws₂
  refine ⟨{ s₂ with nTried := s₂.nTried - nLost },
    ⟨h₂.nKey, h₂.mapInfo, h₂.mapAddr, h₂.vRandom, h₂.vvTried, h₂.inNew⟩, ?_, ?_, ?_, ?_⟩
  · show InOwnBuckets H f.nKey f.buckets.length f.new s₂.vvNew
    rw [hvvNew₂]
    exact hown₁
  · exact hnNew₂.trans hnNew₁
  · show s₂.nTried - nLost = ((keptOf H f).length : Int)
    rw [hnTried₂]
    show s₁.nTried - nLost = ((keptOf H f).length : Int)
    rw [hnTried₁]
    have hkept : (keptOf H f).length + nLost = f.tried.length := by
      rw [length_nil, Nat.zero_add, Nat.add_zero] at hlost
      exact hlost
    show (f.tried.length : Int) - nLost = _
    omega
  · rw [length_nil] at hs₁
    simp only [unserialize, PeerFile.words, cons_append, nil_append, append_assoc,
      readVersion, readKey, readInt, ok_bind, Int.toNat_natCast]
    rw [range_eq_range', hs₁, ok_bind]
    simp only
    rw [range_eq_range', hs₂, ok_bind]

theorem unserialize_other (hf : f.WellFormed) (hother : f.buckets.length ≠ ADDRMAN_NEW_BUCKET_COUNT)
    (hle : f.buckets.length ≤ ADDRMAN_NEW_BUCKET_COUNT) :
    Returns (unserialize H f.words) fun s =>
      Loading H f.nKey f.new (keptOf H f) s ∧
        InOwnBuckets H f.nKey f.buckets.length f.new s.vvNew ∧ s.nNew = f.new.length ∧
        s.nTried = (keptOf H f).length := by
  obtain ⟨s, h, hown, hnNew, hnTried, heq⟩ := unserialize_words (H := H) hf
  have hU : (f.buckets.length : Int) ≠ ADDRMAN_NEW_BUCKET_COUNT := fun heq => hother (by omega)
  have hskip := h.skipBuckets hU hf.buckets [] (b := 0) (by omega)
  rw [append_nil, ← range_eq_range'] at hskip
  rw [heq, hskip, ok_bind]
  exact .ok ⟨h, hown, hnNew, hnTried⟩

theorem unserialize_larger (hf : f.WellFormed) (hlt : ADDRMAN_NEW_BUCKET_COUNT < f.buckets.length)
    (P : CAddrMan → Prop) :
    ¬ Returns (unserialize H f.words) P := by
  obtain ⟨s, -, -, -, -, heq⟩ := unserialize_words (H := H) hf
  rw [heq]
  intro hreturns
  obtain ⟨r, hr, -⟩ := hreturns.of_bind
  have hloop : Returns ((List.range f.buckets.length).foldlM (readBucket f.buckets.length)
      (s, f.buckets.flatMap fun v => .int v.length :: v.map .int)) fun _ => True :=
    ⟨r, hr, trivial⟩
  obtain ⟨⟨s', ws'⟩, s'', hturn⟩ := hloop.turn_of_foldlM (mem_range.mpr hlt)
  rw [readBucket, dif_neg (lt_irrefl _)] at hturn
  cases hturn

theorem unserialize_same (hf : f.WellFormed) {v : Fin ADDRMAN_NEW_BUCKET_COUNT → List Int}
    (hbuckets : f.buckets = (List.finRange ADDRMAN_NEW_BUCKET_COUNT).map v)
    (hvnodup : ∀ b, (v b).Nodup) (hmax : ∀ n : Int, (Finset.univ.filter fun b => n ∈ v b).card ≤
    ADDRMAN_NEW_BUCKETS_PER_ADDRESS) :
    Returns (unserialize H f.words) fun s =>
      Loading H f.nKey f.new (keptOf H f) s ∧ (∀ b n, n ∈ s.vvNew b ↔ n ∈ v b) ∧
        s.nNew = f.new.length ∧ s.nTried = (keptOf H f).length := by
  obtain ⟨s, h, hown, hnNew, hnTried, heq⟩ := unserialize_words (H := H) hf
  have hlen : f.buckets.length = ADDRMAN_NEW_BUCKET_COUNT := by
    rw [hbuckets, length_map, length_finRange]
  have hv : ∀ b, ∀ n ∈ v b, 0 ≤ n ∧ n < f.new.length := by
    intro b
    refine hf.buckets (v b) ?_
    rw [hbuckets]
    exact mem_map_of_mem (mem_finRange b)
  have hempty : ∀ b n, n ∈ s.vvNew b ↔
      b ∈ ([] : List (Fin ADDRMAN_NEW_BUCKET_COUNT)) ∧ n ∈ v b := by
    intro b n
    rw [hown b n, hlen]
    simp
  have hread := h.allBuckets [] hv hvnodup hmax (List.finRange ADDRMAN_NEW_BUCKET_COUNT) []
    (by rw [nil_append]; exact nodup_finRange _) hempty
  rw [heq, hlen, hbuckets, flatMap_map]
  rw [append_nil, map_coe_finRange_eq_range] at hread
  refine hread.bind fun r hr => .ok ⟨hr.1, ?_, hr.2.1.trans hnNew, hr.2.2.1.trans hnTried⟩
  intro b n
  rw [hr.2.2.2 b n, nil_append]
  simp

/-! ## §3. What the entries of a table are. -/

/-- A new entry, as the file has it, with its buckets. -/
def NewEntry (s : CAddrMan) (d : StoredInfo) (B : Finset (Fin ADDRMAN_NEW_BUCKET_COUNT)) : Prop :=
  ∃ (nId : Int) (info : CAddrInfo), s.mapInfo[nId]? = some info ∧ info.fInTried = false ∧
    info.stored = d ∧ ∀ b, b ∈ B ↔ nId ∈ s.vvNew b

/-- A tried entry, as the file has it, with its bucket. -/
def TriedEntry (s : CAddrMan) (d : StoredInfo) (k : Fin ADDRMAN_TRIED_BUCKET_COUNT) : Prop :=
  ∃ (nId : Int) (info : CAddrInfo), s.mapInfo[nId]? = some info ∧ info.fInTried = true ∧
    info.stored = d ∧ nId ∈ s.vvTried k

/-- The same entries in the same buckets, with the same statistics. -/
structure SameEntries (s s' : CAddrMan) : Prop where
  new : ∀ d B, s.NewEntry d B ↔ s'.NewEntry d B
  tried : ∀ d k, s.TriedEntry d k ↔ s'.TriedEntry d k

/-- Every entry of a file is in the table. -/
structure HasAll (f : PeerFile) (s : CAddrMan) : Prop where
  new : ∀ d ∈ f.new, ∃ B, s.NewEntry d B
  tried : ∀ d ∈ f.tried, ∃ k, s.TriedEntry d k

section

variable {key : List UInt8} {news kept : List StoredInfo}

theorem Loading.newEntry_iff (h : Loading H key news kept s)
    {B : Finset (Fin ADDRMAN_NEW_BUCKET_COUNT)} :
    s.NewEntry d B ↔ ∃ i : Nat, news[i]? = some d ∧ ∀ b, b ∈ B ↔ (i : Int) ∈ s.vvNew b := by
  constructor
  · rintro ⟨nId, info, hinfo, hf, rfl, hB⟩
    obtain ⟨i, d, rfl, hi, rfl⟩ := h.mapInfo_iff.mp hinfo
    have hlt : ¬ ((news.length : Int) ≤ (i : Int)) := of_decide_eq_false hf
    rw [List.getElem?_append_left (by omega)] at hi
    exact ⟨i, hi, hB⟩
  · rintro ⟨i, hi, hB⟩
    have hlt := (List.getElem?_eq_some_iff.mp hi).1
    have hget : (news ++ kept)[i]? = some d := by rw [List.getElem?_append_left hlt, hi]
    exact ⟨i, _, h.mapInfo_iff.mpr ⟨i, d, rfl, hget, rfl⟩, decide_eq_false (by omega), rfl, hB⟩

theorem Loading.triedEntry_iff (h : Loading H key news kept s)
    {k : Fin ADDRMAN_TRIED_BUCKET_COUNT} :
    s.TriedEntry d k ↔ d ∈ kept ∧ triedBucket H key d = k := by
  have hget : ∀ j : Nat, (news ++ kept)[news.length + j]? = kept[j]? := by
    intro j
    rw [List.getElem?_append_right (by omega), Nat.add_sub_cancel_left]
  constructor
  · rintro ⟨nId, info, hinfo, -, rfl, hin⟩
    obtain ⟨i, d, rfl, hi, rfl⟩ := h.mapInfo_iff.mp hinfo
    rw [h.vvTried, mem_numbersIn] at hin
    obtain ⟨j, d', hj, hn, hk⟩ := hin
    have hij : i = news.length + j := by omega
    rw [hij, hget, hj] at hi
    cases hi
    exact ⟨mem_of_getElem? hj, hk⟩
  · rintro ⟨hd, hk⟩
    obtain ⟨j, hj⟩ := List.getElem?_of_mem hd
    have hi : (news ++ kept)[news.length + j]? = some d := by rw [hget, hj]
    refine ⟨_, _, h.mapInfo_iff.mpr ⟨_, d, rfl, hi, rfl⟩, decide_eq_true (by omega), rfl, ?_⟩
    rw [h.vvTried, mem_numbersIn]
    exact ⟨j, d, hj, rfl, hk⟩

end

/-! ## §4. The file of a sound table. -/

theorem newItems_perm : (s.newItems ++ s.triedItems).Perm s.mapInfo.toList := by
  have hperm := filter_append_perm (fun item : Int × CAddrInfo => item.2.fInTried)
    s.mapInfo.toList
  exact perm_append_comm.trans hperm

theorem mem_newItems :
    (nId, info) ∈ s.newItems ↔ s.mapInfo[nId]? = some info ∧ info.fInTried = false := by
  rw [newItems, mem_filter, mem_toList_iff, Bool.not_eq_true']

theorem mem_triedItems :
    (nId, info) ∈ s.triedItems ↔ s.mapInfo[nId]? = some info ∧ info.fInTried = true := by
  rw [triedItems, mem_filter, mem_toList_iff]

theorem nodup_newIds : (s.newItems.map Prod.fst).Nodup :=
  nodup_ids.sublist (filter_sublist.map Prod.fst)

theorem newIndex_mem_iff (h : Check s) {b : Fin ADDRMAN_NEW_BUCKET_COUNT} :
    s.newIndex nId ∈ (s.vvNew b).toList.map s.newIndex ↔ nId ∈ s.vvNew b := by
  rw [mem_map]
  constructor
  · rintro ⟨m, hm, heq⟩
    rw [mem_toList] at hm
    have hmid : m ∈ s.newItems.map Prod.fst := by
      obtain ⟨info, hinfo⟩ := h.inNew b m hm
      exact mem_map.mpr ⟨(m, info), mem_newItems.mpr hinfo, rfl⟩
    have hidx := (idxOf_inj hmid).mp (Int.ofNat.inj heq)
    rw [← hidx]
    exact hm
  · intro hin
    exact ⟨nId, mem_toList.mpr hin, rfl⟩

theorem newIds_of_mem (h : Check s) {b : Fin ADDRMAN_NEW_BUCKET_COUNT} (hin : nId ∈ s.vvNew b) :
    nId ∈ s.newItems.map Prod.fst := by
  obtain ⟨info, hinfo⟩ := h.inNew b nId hin
  exact mem_map.mpr ⟨(nId, info), mem_newItems.mpr hinfo, rfl⟩

theorem nodup_bucketOf (h : Check s) (b : Fin ADDRMAN_NEW_BUCKET_COUNT) :
    ((s.vvNew b).toList.map s.newIndex).Nodup := by
  refine List.Nodup.map_on ?_ (StdSet.nodup_toList _)
  intro n hn m hm heq
  rw [mem_toList] at hn
  exact (idxOf_inj (newIds_of_mem h hn)).mp (Int.ofNat.inj heq)

theorem card_bucketsOf_le (h : Check s) (n : Int) :
    (Finset.univ.filter fun b => n ∈ (s.vvNew b).toList.map s.newIndex).card ≤
      ADDRMAN_NEW_BUCKETS_PER_ADDRESS := by
  by_cases hnone : ∃ b, n ∈ (s.vvNew b).toList.map s.newIndex
  · obtain ⟨b, hb⟩ := hnone
    obtain ⟨nId, hin, rfl⟩ := mem_map.mp hb
    rw [mem_toList] at hin
    obtain ⟨info, hinfo, hf⟩ := h.inNew b nId hin
    have hset : (Finset.univ.filter fun c =>
        s.newIndex nId ∈ (s.vvNew c).toList.map s.newIndex) = holders s.vvNew nId := by
      ext c
      rw [Finset.mem_filter, newIndex_mem_iff h, mem_holders]
      simp
    have hcount := h.new nId info hinfo
    have hle := ((h.entry nId info hinfo).new hf).2
    rw [bucketsWith_eq] at hcount
    rw [hset]
    omega
  · rw [Finset.card_eq_zero.mpr]
    · exact Nat.zero_le _
    · ext c
      exact iff_of_false (fun hc => hnone ⟨c, (Finset.mem_filter.mp hc).2⟩)
        (Finset.notMem_empty c)

theorem nodup_ips (h : Check s) : (s.mapInfo.toList.map fun item => item.2.ip).Nodup := by
  refine List.Nodup.map_on ?_ (nodup_ids.of_map Prod.fst)
  rintro ⟨n, info⟩ hn ⟨m, info'⟩ hm heq
  rw [mem_toList_iff] at hn hm
  simp only at hn hm heq
  have h₁ := (h.addr info.ip n).mpr ⟨info, hn, rfl⟩
  have h₂ := (h.addr info.ip m).mpr ⟨info', hm, heq.symm⟩
  obtain rfl := Option.some.inj (h₁.symm.trans h₂)
  obtain rfl := Option.some.inj (hn.symm.trans hm)
  rfl

/-- Every entry is in a bucket. -/
theorem mem_bucket (h : Check s) (hinfo : s.mapInfo[nId]? = some info) :
    nId ∈ (List.finRange ADDRMAN_NEW_BUCKET_COUNT).flatMap (fun b => (s.vvNew b).toList) ++
      (List.finRange ADDRMAN_TRIED_BUCKET_COUNT).flatMap s.vvTried := by
  rw [mem_append, mem_flatMap, mem_flatMap]
  cases htried : info.fInTried with
  | true =>
    obtain ⟨k, hin⟩ := (h.tried.mem nId).mpr ⟨info, hinfo, htried⟩
    exact .inr ⟨k, mem_finRange k, hin⟩
  | false =>
    have hcount := h.new nId info hinfo
    have hpos := ((h.entry nId info hinfo).new htried).1
    obtain ⟨b, hb, hin⟩ := countP_pos_iff.mp (show 0 < bucketsWith s.vvNew nId by omega)
    exact .inl ⟨b, hb, mem_toList.mpr (contains_iff_mem.mp hin)⟩

theorem length_flatMap_le {n k : Nat} {v : Fin n → List Int} (hv : ∀ b, (v b).length ≤ k) :
    ((List.finRange n).flatMap v).length ≤ n * k := by
  have hsum := sum_le_card_nsmul ((List.finRange n).map fun b => (v b).length) k
    (by simpa using hv)
  rw [length_flatMap]
  simpa using hsum

/-- **The buckets bound the table**, and so the numbers in its file. -/
theorem length_toList_le (h : Check s) (hsized : Sized s) : s.mapInfo.toList.length ≤
    ADDRMAN_NEW_BUCKET_COUNT * ADDRMAN_NEW_BUCKET_SIZE +
      ADDRMAN_TRIED_BUCKET_COUNT * ADDRMAN_TRIED_BUCKET_SIZE := by
  have hsub : s.mapInfo.toList.map Prod.fst ⊆
      (List.finRange ADDRMAN_NEW_BUCKET_COUNT).flatMap (fun b => (s.vvNew b).toList) ++
        (List.finRange ADDRMAN_TRIED_BUCKET_COUNT).flatMap s.vvTried := by
    intro nId hin
    obtain ⟨item, hitem, rfl⟩ := mem_map.mp hin
    exact mem_bucket h (mem_toList_iff.mp hitem)
  have hle := (nodup_ids.subperm hsub).length_le
  rw [length_map, length_append] at hle
  refine hle.trans (Nat.add_le_add (length_flatMap_le fun b => ?_) (length_flatMap_le hsized.tried))
  rw [length_toList]
  exact hsized.new b

theorem fileOf_wellFormed (h : Check s) (hsized : Sized s) : s.fileOf.WellFormed where
  count := by
    have hlen : (s.fileOf.new ++ s.fileOf.tried).length = s.mapInfo.toList.length := by
      rw [fileOf, ← map_append, length_map, newItems_perm.length_eq]
    have hle := length_toList_le h hsized
    rw [hlen]
    exact hle.trans_lt (by decide)
  nodup := by
    have hmap : (s.fileOf.new ++ s.fileOf.tried).map (fun d => d.ip) =
        (s.newItems ++ s.triedItems).map fun item => item.2.ip := by
      rw [fileOf, ← map_append, map_map]
      rfl
    rw [hmap, (newItems_perm.map _).nodup_iff]
    exact nodup_ips h
  nLastSuccess d hd := by
    rw [fileOf, ← map_append, mem_map] at hd
    obtain ⟨⟨nId, info⟩, hitem, rfl⟩ := hd
    have hinfo := mem_toList_iff.mp (newItems_perm.mem_iff.mp hitem)
    exact (h.entry nId info hinfo).nLastSuccess
  tried d hd := by
    rw [fileOf, mem_map] at hd
    obtain ⟨⟨nId, info⟩, hitem, rfl⟩ := hd
    obtain ⟨hinfo, ht⟩ := mem_triedItems.mp hitem
    exact ((h.entry nId info hinfo).tried ht).1
  buckets v hv n hn := by
    rw [fileOf, mem_map] at hv
    obtain ⟨b, -, rfl⟩ := hv
    obtain ⟨nId, hin, rfl⟩ := mem_map.mp hn
    have hlt := idxOf_lt_length_iff.mpr
      (newIds_of_mem h (mem_toList.mp hin))
    rw [length_map] at hlt
    refine ⟨Int.natCast_nonneg _, ?_⟩
    rw [fileOf, length_map]
    exact Int.ofNat_lt.mpr hlt

/-! ## §5. Saving and loading. -/

def Survives (H : Hashes) (s : CAddrMan) : Prop :=
  Returns (unserialize H s.serialize) fun s' => Check s' ∧ Sized s' ∧ SameEntries s s'

/-- Every tried entry is in the bucket that it belongs in, as `MakeTried` puts it there. -/
def Placed (H : Hashes) (s : CAddrMan) : Prop :=
  ∀ d k, s.TriedEntry d k → triedBucket H s.nKey d = k

/-- The file makes a sound table with all its entries. -/
def Loads (H : Hashes) (f : PeerFile) : Prop :=
  Returns (unserialize H f.words) fun s => Check s ∧ HasAll f s

def LoadsSized (H : Hashes) (f : PeerFile) : Prop :=
  Returns (unserialize H f.words) fun s => Check s ∧ Sized s ∧ HasAll f s

def TriedFit (H : Hashes) (f : PeerFile) : Prop :=
  ∀ k, (f.tried.countP fun d => triedBucket H f.nKey d = k) ≤ ADDRMAN_TRIED_BUCKET_SIZE

/-- And so do the new ones, each in its own bucket. -/
def NewFit (H : Hashes) (f : PeerFile) : Prop :=
  ∀ b, (f.new.countP fun d => newBucket H f.nKey d = b) ≤ ADDRMAN_NEW_BUCKET_SIZE

theorem keptOf_eq (h : TriedFit H f) : keptOf H f = f.tried := by
  have hall : keptOf H f = [] ++ f.tried :=
    keepTried_eq f.tried [] (by rw [nil_append]; exact h)
  rw [hall, nil_append]

theorem keptOf_sublist (f : PeerFile) : (keptOf H f).Sublist f.tried :=
  keepTried_sublist f.tried []

theorem keptOf_countP (f : PeerFile) (k : Fin ADDRMAN_TRIED_BUCKET_COUNT) :
    ((keptOf H f).countP fun d => triedBucket H f.nKey d = k) ≤ ADDRMAN_TRIED_BUCKET_SIZE :=
  keepTried_countP f.tried [] (fun _ => Nat.zero_le _) k

theorem Loading.sized_tried (h : Loading H f.nKey f.new (keptOf H f) s)
    (k : Fin ADDRMAN_TRIED_BUCKET_COUNT) :
    (s.vvTried k).length ≤ ADDRMAN_TRIED_BUCKET_SIZE := by
  rw [h.vvTried, length_numbersIn]
  exact keptOf_countP f k

theorem Loading.check_file (hf : f.WellFormed) (h : Loading H f.nKey f.new (keptOf H f) s) (hrefs :
    ∀ n : Int, 0 ≤ n → n < f.new.length → 1 ≤ (holders s.vvNew n).card ∧ (holders s.vvNew n).card ≤
    ADDRMAN_NEW_BUCKETS_PER_ADDRESS) (hnNew : s.nNew = f.new.length)
    (hnTried : s.nTried = (keptOf H f).length) : Check s := by
  refine h.check ?_ ?_ hrefs hnNew hnTried
  · intro d hd
    rw [mem_append] at hd
    refine hf.nLastSuccess d (mem_append.mpr ?_)
    exact hd.imp_right fun hd => (keptOf_sublist f).subset hd
  · exact fun d hd => hf.tried d ((keptOf_sublist f).subset hd)

/-- **A file with another number of buckets**: every new entry is in its own bucket. -/
theorem check_other (hf : f.WellFormed) (hother : f.buckets.length ≠ ADDRMAN_NEW_BUCKET_COUNT)
    (h : Loading H f.nKey f.new (keptOf H f) s)
    (hown : InOwnBuckets H f.nKey f.buckets.length f.new s.vvNew) (hnNew : s.nNew = f.new.length)
    (hnTried : s.nTried = (keptOf H f).length) : Check s := by
  refine h.check_file hf (fun n hn hlt => ?_) hnNew hnTried
  obtain ⟨d, hd, -⟩ := h.exists_entry hn hlt
  have hU : (f.buckets.length : Int) ≠ ADDRMAN_NEW_BUCKET_COUNT := fun heq => hother (by omega)
  have hset : holders s.vvNew n = {newBucket H f.nKey d} := by
    ext b
    rw [mem_holders, hown b n, hd, Option.map_some, Finset.mem_singleton, Option.some_inj]
    exact ⟨fun hand => hand.2.symm, fun heq => ⟨hU, heq.symm⟩⟩
  rw [hset, Finset.card_singleton]
  decide

theorem newSize_other (hother : f.buckets.length ≠ ADDRMAN_NEW_BUCKET_COUNT)
    (hown : InOwnBuckets H f.nKey f.buckets.length f.new s.vvNew)
    (b : Fin ADDRMAN_NEW_BUCKET_COUNT) :
    (s.vvNew b).size = f.new.countP fun d => newBucket H f.nKey d = b := by
  have hU : (f.buckets.length : Int) ≠ ADDRMAN_NEW_BUCKET_COUNT := fun heq => hother (by omega)
  have hlen : (numbersIn (newBucket H f.nKey) b 0 f.new).length =
      f.new.countP fun d => newBucket H f.nKey d = b := length_numbersIn
  rw [← hlen]
  refine StdSet.size_eq_length nodup_numbersIn fun n => ?_
  rw [hown b n, mem_numbersIn]
  constructor
  · rintro ⟨-, hd⟩
    obtain ⟨d, hd, hb⟩ := Option.map_eq_some_iff.mp hd
    obtain ⟨i, rfl, hi, -⟩ := nth_eq_some hd
    exact ⟨i, d, hi, by rw [Nat.zero_add], hb⟩
  · rintro ⟨i, d, hi, rfl, hb⟩
    refine ⟨hU, ?_⟩
    rw [Nat.zero_add, nth_natCast, hi, Option.map_some, hb]

theorem hasAll_of_fit (h : Loading H f.nKey f.new (keptOf H f) s) (hfit : TriedFit H f) : HasAll f s
    where
  new d hd := by
    obtain ⟨i, hi⟩ := List.getElem?_of_mem hd
    exact ⟨holders s.vvNew i, h.newEntry_iff.mpr ⟨i, hi, fun b => mem_holders⟩⟩
  tried d hd := by
    refine ⟨triedBucket H f.nKey d, h.triedEntry_iff.mpr ⟨?_, rfl⟩⟩
    rw [keptOf_eq hfit]
    exact hd

theorem fit_of_hasAll (hf : f.WellFormed) (h : Loading H f.nKey f.new (keptOf H f) s)
    (hall : HasAll f s) : TriedFit H f := by
  intro k
  have hsub : f.tried ⊆ keptOf H f := by
    intro d hd
    obtain ⟨k', hk'⟩ := hall.tried d hd
    exact (h.triedEntry_iff.mp hk').1
  have hnodup : f.tried.Nodup := by
    have hips := hf.nodup
    rw [map_append] at hips
    exact (nodup_append.mp hips).2.1.of_map _
  exact le_trans ((hnodup.subperm hsub).countP_le _) (keptOf_countP f k)

theorem loads_iff (hf : f.WellFormed) (hother : f.buckets.length ≠ ADDRMAN_NEW_BUCKET_COUNT) :
    Loads H f ↔ f.buckets.length ≤ ADDRMAN_NEW_BUCKET_COUNT ∧ TriedFit H f := by
  constructor
  · intro hloads
    by_cases hle : f.buckets.length ≤ ADDRMAN_NEW_BUCKET_COUNT
    · obtain ⟨s, hs, h, -⟩ := unserialize_other (H := H) hf hother hle
      exact ⟨hle, fit_of_hasAll hf h (hloads.of_ok hs).2⟩
    · exact absurd hloads (unserialize_larger hf (by omega) _)
  · rintro ⟨hle, hfit⟩
    refine (unserialize_other hf hother hle).mono fun s hs => ?_
    obtain ⟨h, hown, hnNew, hnTried⟩ := hs
    exact ⟨check_other hf hother h hown hnNew hnTried, hasAll_of_fit h hfit⟩

theorem loadsSized_iff (hf : f.WellFormed) (hother : f.buckets.length ≠ ADDRMAN_NEW_BUCKET_COUNT) :
    LoadsSized H f ↔
      f.buckets.length ≤ ADDRMAN_NEW_BUCKET_COUNT ∧ TriedFit H f ∧ NewFit H f := by
  constructor
  · intro hloads
    by_cases hle : f.buckets.length ≤ ADDRMAN_NEW_BUCKET_COUNT
    · obtain ⟨s, hs, h, hown, -⟩ := unserialize_other (H := H) hf hother hle
      obtain ⟨-, hsized, hall⟩ := hloads.of_ok hs
      refine ⟨hle, fit_of_hasAll hf h hall, fun b => ?_⟩
      rw [← newSize_other hother hown b]
      exact hsized.new b
    · exact absurd hloads (unserialize_larger hf (by omega) _)
  · rintro ⟨hle, hfit, hnew⟩
    refine (unserialize_other hf hother hle).mono fun s hs => ?_
    obtain ⟨h, hown, hnNew, hnTried⟩ := hs
    refine ⟨check_other hf hother h hown hnNew hnTried, ⟨h.sized_tried, fun b => ?_⟩,
      hasAll_of_fit h hfit⟩
    rw [newSize_other hother hown b]
    exact hnew b

theorem triedEntry_iff_file (h : Check s) (hplaced : Placed H s)
    {k : Fin ADDRMAN_TRIED_BUCKET_COUNT} :
    s.TriedEntry d k ↔ d ∈ s.fileOf.tried ∧ triedBucket H s.nKey d = k := by
  constructor
  · intro hentry
    refine ⟨?_, hplaced d k hentry⟩
    obtain ⟨nId, info, hinfo, ht, rfl, -⟩ := hentry
    exact mem_map.mpr ⟨(nId, info), mem_triedItems.mpr ⟨hinfo, ht⟩, rfl⟩
  · rintro ⟨hd, hk⟩
    obtain ⟨⟨nId, info⟩, hitem, rfl⟩ := mem_map.mp hd
    obtain ⟨hinfo, ht⟩ := mem_triedItems.mp hitem
    obtain ⟨k', hin⟩ := (h.tried.mem nId).mpr ⟨info, hinfo, ht⟩
    have hentry : s.TriedEntry info.stored k' := ⟨nId, info, hinfo, ht, rfl, hin⟩
    rw [hplaced _ _ hentry] at hk
    exact hk ▸ hentry

theorem fit_of_placed (h : Check s) (hsized : Sized s) (hplaced : Placed H s) :
    TriedFit H s.fileOf := by
  intro k
  refine le_trans ?_ (hsized.tried k)
  show (s.triedItems.map fun item => item.2.stored).countP _ ≤ _
  rw [countP_map, countP_eq_length_filter, ← length_map Prod.fst]
  refine List.Subperm.length_le (List.Nodup.subperm ?_ ?_)
  · exact nodup_ids.sublist ((filter_sublist.trans filter_sublist).map Prod.fst)
  · intro nId hin
    obtain ⟨⟨n, info⟩, hitem, rfl⟩ := mem_map.mp hin
    obtain ⟨hitem, hk⟩ := mem_filter.mp hitem
    obtain ⟨hinfo, ht⟩ := mem_triedItems.mp hitem
    obtain ⟨k', hin'⟩ := (h.tried.mem n).mpr ⟨info, hinfo, ht⟩
    have hk' := hplaced _ _ ⟨n, info, hinfo, ht, rfl, hin'⟩
    have heq : triedBucket H s.nKey info.stored = k := of_decide_eq_true hk
    rw [hk'] at heq
    exact heq ▸ hin'

theorem newIndex_of_getElem? {i : Nat} (hi : s.newItems[i]? = some (nId, info)) : s.newIndex nId =
    (i : Int) := by
  have hid : (s.newItems.map Prod.fst)[i]? = some nId := by
    rw [List.getElem?_map, hi, Option.map_some]
  obtain ⟨hlt, hid⟩ := List.getElem?_eq_some_iff.mp hid
  rw [newIndex, ← hid, nodup_newIds.idxOf_getElem]

/-- **A new entry** has the same buckets after it is loaded. -/
theorem newEntry_iff_file (h : Check s) {B : Finset (Fin ADDRMAN_NEW_BUCKET_COUNT)} :
    s.NewEntry d B ↔ ∃ i : Nat, s.fileOf.new[i]? = some d ∧
      ∀ b, b ∈ B ↔ (i : Int) ∈ (s.vvNew b).toList.map s.newIndex := by
  have hget : ∀ i : Nat, s.fileOf.new[i]? = (s.newItems[i]?).map fun item => item.2.stored :=
    fun i => List.getElem?_map ..
  constructor
  · rintro ⟨nId, info, hinfo, hf, rfl, hB⟩
    have hitem : (nId, info) ∈ s.newItems := mem_newItems.mpr ⟨hinfo, hf⟩
    obtain ⟨i, hi⟩ := List.getElem?_of_mem hitem
    refine ⟨i, by rw [hget, hi, Option.map_some], fun b => ?_⟩
    rw [hB b, ← newIndex_of_getElem? hi, newIndex_mem_iff h]
  · rintro ⟨i, hi, hB⟩
    rw [hget, Option.map_eq_some_iff] at hi
    obtain ⟨⟨nId, info⟩, hi, rfl⟩ := hi
    obtain ⟨hinfo, hf⟩ := mem_newItems.mp (mem_of_getElem? hi)
    refine ⟨nId, info, hinfo, hf, rfl, fun b => ?_⟩
    rw [hB b, ← newIndex_of_getElem? hi, newIndex_mem_iff h]

/-- **What is loaded from the file of a sound table.** -/
theorem unserialize_fileOf (h : Check s) (hsized : Sized s) :
    Returns (unserialize H s.serialize) fun s' =>
      Loading H s.nKey s.fileOf.new (keptOf H s.fileOf) s' ∧
        (∀ b n, n ∈ s'.vvNew b ↔ n ∈ (s.vvNew b).toList.map s.newIndex) ∧
        s'.nNew = s.fileOf.new.length ∧ s'.nTried = (keptOf H s.fileOf).length := by
  rw [serialize_eq h]
  exact unserialize_same (fileOf_wellFormed h hsized) rfl (nodup_bucketOf h) (card_bucketsOf_le h)

theorem survives_iff (h : Check s) (hsized : Sized s) : Survives H s ↔ Placed H s := by
  constructor
  · intro hsurvives d k hentry
    obtain ⟨s', hs', hload, -⟩ := unserialize_fileOf (H := H) h hsized
    obtain ⟨-, -, hsame⟩ := hsurvives.of_ok hs'
    exact (hload.triedEntry_iff.mp ((hsame.tried d k).mp hentry)).2
  · intro hplaced
    have hfit := fit_of_placed h hsized hplaced
    refine (unserialize_fileOf h hsized).mono fun s' hs' => ?_
    obtain ⟨hload, hvvNew, hnNew, hnTried⟩ := hs'
    refine ⟨?_, ⟨Loading.sized_tried (f := s.fileOf) hload, fun b => ?_⟩, fun d B => ?_,
      fun d k => ?_⟩
    · refine hload.check_file (fileOf_wellFormed h hsized) (fun n hn hlt => ?_) hnNew hnTried
      -- the entry with the number had its buckets before
      have hset : holders s'.vvNew n = Finset.univ.filter fun b =>
          n ∈ (s.vvNew b).toList.map s.newIndex := by
        ext b
        rw [mem_holders, hvvNew, Finset.mem_filter]
        simp
      rw [hset]
      refine ⟨?_, card_bucketsOf_le h n⟩
      obtain ⟨i, rfl⟩ := Int.eq_ofNat_of_zero_le hn
      have hi : s.fileOf.new[i]? = some s.fileOf.new[i] := List.getElem?_eq_getElem (by omega)
      have hentry : s.NewEntry _ (Finset.univ.filter fun b =>
          (i : Int) ∈ (s.vvNew b).toList.map s.newIndex) :=
        (newEntry_iff_file h).mpr ⟨i, hi, fun b => by simp⟩
      obtain ⟨nId, info, hinfo, hf, -, hB⟩ := hentry
      have hcount := h.new nId info hinfo
      have hpos := ((h.entry nId info hinfo).new hf).1
      have hsame : (Finset.univ.filter fun b =>
          (i : Int) ∈ (s.vvNew b).toList.map s.newIndex) = holders s.vvNew nId := by
        ext b
        rw [hB b, mem_holders]
      rw [bucketsWith_eq] at hcount
      rw [hsame]
      omega
    · have hsize := StdSet.size_eq_length (nodup_bucketOf h b) (hvvNew b)
      rw [hsize, length_map, length_toList]
      exact hsized.new b
    · rw [newEntry_iff_file h, hload.newEntry_iff]
      simp only [hvvNew]
    · rw [triedEntry_iff_file h hplaced, hload.triedEntry_iff, keptOf_eq hfit]

/-- **Saving and loading**: a sound table survives saving if and only if its tried entries are
where they belong; a file with another number of buckets makes a sound table with every entry if
and only if there are not more of them, and the tried entries find room.  With the sizes of the
buckets, the new entries have to find room, too. -/
theorem peers_saved_iff (H : Hashes) :
    (∀ s : CAddrMan, Check s → Sized s → (Survives H s ↔ Placed H s)) ∧
      ∀ f : PeerFile, f.WellFormed → f.buckets.length ≠ ADDRMAN_NEW_BUCKET_COUNT →
        (Loads H f ↔ f.buckets.length ≤ ADDRMAN_NEW_BUCKET_COUNT ∧ TriedFit H f) ∧
          (LoadsSized H f ↔
            f.buckets.length ≤ ADDRMAN_NEW_BUCKET_COUNT ∧ TriedFit H f ∧ NewFit H f) :=
  ⟨fun _ => survives_iff, fun _ hf hother => ⟨loads_iff hf hother, loadsSized_iff hf hother⟩⟩

/-- A hash that depends on every byte. -/
def sumHashes : Hashes :=
  let sum (bs : List UInt8) : Nat := (bs.map UInt8.toNat).sum
  ⟨fun bs => sum bs, fun bs => sum bs, fun bs _ => sum bs⟩

def largerFile : PeerFile := ⟨[], [], [], List.replicate 257 []⟩

theorem largerFile_wellFormed : largerFile.WellFormed where
  count := by decide
  nodup := nodup_nil
  nLastSuccess _ h := absurd h not_mem_nil
  tried _ h := absurd h not_mem_nil
  buckets v hv n hn := by
    rw [eq_of_mem_replicate hv] at hn
    exact absurd hn not_mem_nil

theorem length_largerFile : largerFile.buckets.length = 257 := length_replicate

/-- Two addresses are heard of, and one of them is connected to. -/
def twoPeers : List AddrManCall :=
  let ip : CNetAddr := 0x0000000000000000000000FFFF08080808
  let ip' : CNetAddr := 0x0000000000000000000000FFFF08080404
  let addr : CAddress := ⟨⟨ip, 31000⟩, 1, 1000000, 0⟩
  [.add (fun _ => 0) 1000100 addr ip' 0, .good (fun _ => 7) addr.toCService 1000200,
    .add (fun _ => 0) 1000300 { addr with ip := ip' } ip 0]

theorem twoPeers_run : Returns (twoPeers.foldlM (call sumHashes) (empty [])) fun s =>
    s.nTried = 1 ∧ s.nNew = 1 ∧ ∀ k, ∀ nId ∈ s.vvTried k, ∀ info ∈ s.mapInfo[nId]?,
      info.getTriedBucket sumHashes s.nKey = k := by decide +kernel

/-- A file of 64 buckets, with a new and a tried entry. -/
def smallerFile : PeerFile :=
  let d : StoredInfo := ⟨⟨0x0000000000000000000000FFFF08080808, 31000⟩, 1, 1000000, 0, 0, 0⟩
  ⟨[], [d], [{ d with ip := 0x0000000000000000000000FFFF08080404, nLastSuccess := 1000200 }],
    [0] :: List.replicate 63 []⟩

theorem smallerFile_wellFormed : smallerFile.WellFormed where
  count := by decide
  nodup := by decide
  nLastSuccess := by decide
  tried := by decide
  buckets := by decide

/-- A table with a new and a tried entry survives, and a file of another size is read. -/
theorem peers_saved_iff_two :
    Returns (twoPeers.foldlM (call sumHashes) (empty [])) (fun s =>
      s.nTried = 1 ∧ s.nNew = 1 ∧ Survives sumHashes s) ∧
      Loads sumHashes smallerFile ∧ LoadsSized sumHashes smallerFile := by
  have hsaved := peers_saved_iff sumHashes
  refine ⟨?_, ?_⟩
  · obtain ⟨s, hs, hnTried, hnNew, hplaced⟩ := twoPeers_run
    have hspec := (calls_spec sumHashes twoPeers (inv_empty []) (by decide) (by
      simp [twoPeers, AddrManCall.TimePositive])).resolve_right (by simp [hs])
    obtain ⟨added, h⟩ := hspec.of_ok hs
    refine ⟨s, hs, hnTried, hnNew, (hsaved.1 s h.check h.sized).mpr ?_⟩
    rintro d k ⟨nId, info, hinfo, -, rfl, hin⟩
    exact hplaced k nId hin info hinfo
  · have hfile := hsaved.2 smallerFile smallerFile_wellFormed (by decide)
    have htried : TriedFit sumHashes smallerFile := fun k => countP_le_length.trans (by decide)
    have hnew : NewFit sumHashes smallerFile := fun b => countP_le_length.trans (by decide)
    exact ⟨hfile.1.mpr ⟨by decide, htried⟩, hfile.2.mpr ⟨by decide, htried, hnew⟩⟩

/-- The 257th bucket is out of range. -/
theorem peers_larger_file :
    largerFile.WellFormed ∧ largerFile.buckets.length = 257 ∧ ¬ Loads sumHashes largerFile :=
  ⟨largerFile_wellFormed, length_largerFile,
    unserialize_larger largerFile_wellFormed (by rw [length_largerFile]; decide) _⟩

end CAddrMan

end Fantom.Net
