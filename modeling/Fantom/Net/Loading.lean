/-
  Fantom.Net.Loading — What `Unserialize` makes of a file, entry after entry.

  * `Loading.new`, `Loading.tried`, `Loading.index` — one turn of each loop,
  * `Loading.check` — the tests of `Check_` at the end.
-/
import Fantom.Net.Check
import Fantom.Net.PeerFile

namespace Fantom.Net

open Core Lib List StdMap

namespace CAddrMan

/-! ## §1. The table while it is read. -/

/-- The new bucket of an entry, by its own source. -/
def newBucket (H : Hashes) (key : List UInt8) (d : StoredInfo) : Fin ADDRMAN_NEW_BUCKET_COUNT :=
  d.info.getNewBucket H key d.source

def triedBucket (H : Hashes) (key : List UInt8) (d : StoredInfo) :
    Fin ADDRMAN_TRIED_BUCKET_COUNT :=
  d.info.getTriedBucket H key

/-- The entry with the id `n`. -/
def loadedInfo (news : List StoredInfo) (vvNew : Fin ADDRMAN_NEW_BUCKET_COUNT → StdSet Int)
    (n : Int) (d : StoredInfo) : CAddrInfo :=
  { d.info with
    nRandomPos := n
    fInTried := decide ((news.length : Int) ≤ n)
    nRefCount := ((holders vvNew n).card : Nat) }

/-- The new entries `news` and the tried entries `kept` are read; their ids are their numbers. -/
structure Loading (H : Hashes) (key : List UInt8) (news kept : List StoredInfo) (s : CAddrMan) :
    Prop where
  nKey : s.nKey = key
  mapInfo : ∀ n : Int,
    s.mapInfo[n]? = (nth (news ++ kept) n).map (loadedInfo news s.vvNew n)
  mapAddr : ∀ (a : CNetAddr) (n : Int),
    s.mapAddr[a]? = some n ↔ (nth (news ++ kept) n).map (fun d => d.ip) = some a
  vRandom : s.vRandom = (List.range (news ++ kept).length).map fun i : Nat => (i : Int)
  vvTried : ∀ k, s.vvTried k = numbersIn (triedBucket H key) k news.length kept
  inNew : ∀ b, ∀ n ∈ s.vvNew b, 0 ≤ n ∧ n < news.length

variable {H : Hashes} {key : List UInt8} {news kept : List StoredInfo} {s : CAddrMan}

theorem loading_empty (key : List UInt8) (nNew nTried : Int) :
    Loading H key [] [] { empty key with nNew := nNew, nTried := nTried } where
  nKey := rfl
  mapInfo n := by
    rw [append_nil, nth_nil]
    exact get_empty n
  mapAddr a n := by
    rw [append_nil, nth_nil]
    show (∅ : StdMap CNetAddr Int)[a]? = some n ↔ _
    rw [get_empty]
    simp
  vRandom := rfl
  vvTried _ := rfl
  inNew _ _ h := absurd h Std.ExtTreeSet.not_mem_empty

theorem Loading.length_vRandom (h : Loading H key news kept s) :
    s.vRandom.length = (news ++ kept).length := by
  rw [h.vRandom, length_map, length_range]

theorem vRandom_concat (l : List StoredInfo) (d : StoredInfo) :
    (List.range l.length).map (fun i : Nat => (i : Int)) ++ [(l.length : Int)] =
      (List.range (l ++ [d]).length).map fun i : Nat => (i : Int) := by
  rw [length_append, length_singleton, range_succ, map_append, map_singleton]

variable {d : StoredInfo} {nUBuckets n : Int}

theorem mapAddr_concat {mapAddr : StdMap CNetAddr Int} {l : List StoredInfo}
    (h : ∀ (a : CNetAddr) (n : Int), mapAddr[a]? = some n ↔ (nth l n).map (fun d => d.ip) = some a)
    (hfresh : d.ip ∉ l.map fun d => d.ip) (a : CNetAddr) (n : Int) :
    (mapAddr.insert d.ip (l.length : Int))[a]? = some n ↔
      (nth (l ++ [d]) n).map (fun d => d.ip) = some a := by
  rw [get_insert, nth_concat]
  by_cases ha : d.ip = a
  · rw [if_pos ha]
    constructor
    · intro hn
      cases hn
      rw [if_pos rfl, Option.map_some, ha]
    · split
      · rename_i hn
        intro
        rw [hn]
      · intro hmem
        obtain ⟨d', hd', hip⟩ := Option.map_eq_some_iff.mp hmem
        obtain ⟨i, -, hi, -⟩ := nth_eq_some hd'
        rw [ha, ← hip] at hfresh
        exact absurd (mem_map_of_mem (mem_of_getElem? hi)) hfresh
  · rw [if_neg ha, h a n]
    split
    · rename_i hn
      have hnone : nth l n = none := by
        rw [hn, nth_natCast]
        exact List.getElem?_eq_none (le_refl _)
      rw [hnone, Option.map_some]
      simp [ha]
    · rfl

/-! ## §2. New entries. -/

theorem Loading.notMem_length (h : Loading H key news [] s) (b : Fin ADDRMAN_NEW_BUCKET_COUNT) :
    (news.length : Int) ∉ s.vvNew b := fun hin =>
  absurd (h.inNew b _ hin).2 (lt_irrefl _)

theorem Loading.push_new (h : Loading H key news [] s) (hfresh : d.ip ∉ news.map fun d => d.ip)
    {s' : CAddrMan} {info : CAddrInfo} (hkey : s'.nKey = s.nKey)
    (hmap : s'.mapInfo = s.mapInfo.insert (news.length : Int) info)
    (haddr : s'.mapAddr = s.mapAddr.insert d.ip (news.length : Int))
    (hrandom : s'.vRandom = s.vRandom ++ [(news.length : Int)]) (htried : s'.vvTried = s.vvTried)
    (hinfo : info = loadedInfo (news ++ [d]) s'.vvNew news.length d)
    (hnew : ∀ b n, n ∈ s'.vvNew b → n = news.length ∨ n ∈ s.vvNew b)
    (hother : ∀ n : Int, n ≠ news.length → holders s'.vvNew n = holders s.vvNew n) :
    Loading H key (news ++ [d]) [] s' where
  nKey := hkey.trans h.nKey
  mapInfo n := by
    rw [hmap, get_insert, append_nil, nth_concat]
    by_cases hn : n = news.length
    · rw [if_pos hn.symm, if_pos hn, hinfo, hn, Option.map_some]
    · rw [if_neg (Ne.symm hn), if_neg hn, h.mapInfo, append_nil]
      refine Option.map_congr fun d' hd' => ?_
      obtain ⟨i, rfl, -, hi⟩ := nth_eq_some hd'
      -- it is a new entry with any of the two lists
      have h₁ : ¬ ((news.length : Int) ≤ (i : Int)) := by omega
      have h₂ : ¬ (((news ++ [d]).length : Int) ≤ (i : Int)) := by
        rw [length_append, length_singleton]
        omega
      rw [loadedInfo, loadedInfo, hother _ hn, decide_eq_false h₁, decide_eq_false h₂]
  mapAddr a n := by
    rw [haddr, append_nil]
    exact mapAddr_concat (by simpa using h.mapAddr) hfresh a n
  vRandom := by
    rw [hrandom, h.vRandom, append_nil, append_nil]
    exact vRandom_concat news d
  vvTried k := by
    rw [htried, h.vvTried k]
    rfl
  inNew b n hn := by
    rw [length_append, length_singleton]
    obtain rfl | hn := hnew b n hn
    · omega
    · have := h.inNew b n hn
      omega

/-- **One turn** of the loop over the new entries. -/
theorem Loading.new (h : Loading H key news [] s) (hfresh : d.ip ∉ news.map fun d => d.ip)
    (nUBuckets : Int) (ws : List Word) :
    Returns (readNew H nUBuckets (s, .info d :: ws) news.length) fun r =>
      r.2 = ws ∧ Loading H key (news ++ [d]) [] r.1 ∧ r.1.nNew = s.nNew ∧
        r.1.nTried = s.nTried ∧
        r.1.vvNew = if nUBuckets ≠ ADDRMAN_NEW_BUCKET_COUNT then
          Function.update s.vvNew (newBucket H key d)
            ((s.vvNew (newBucket H key d)).insert (news.length : Int))
        else s.vvNew := by
  obtain rfl := h.nKey
  have hlen : (s.vRandom.length : Int) = news.length := by
    rw [h.length_vRandom, append_nil]
  have hnone := holders_eq_empty h.notMem_length
  have hdec : decide (((news ++ [d]).length : Int) ≤ (news.length : Int)) = false := by
    rw [length_append, length_singleton]
    exact decide_eq_false (by omega)
  rw [readNew, readInfo, ok_bind]
  simp only
  rw [hlen]
  split
  · -- the entry belongs in its own bucket
    refine .ok ⟨rfl, h.push_new hfresh rfl rfl rfl rfl rfl ?_ ?_ ?_, rfl, rfl, rfl⟩
    · show _ = loadedInfo (news ++ [d]) (Function.update s.vvNew (newBucket H s.nKey d)
        ((s.vvNew (newBucket H s.nKey d)).insert (news.length : Int))) news.length d
      rw [loadedInfo, holders_insert, if_pos rfl, hnone, hdec]
      rfl
    · intro b n hn
      have hholds := mem_holders.mpr hn
      rw [show (CAddrMan.vvNew _) = Function.update s.vvNew (newBucket H s.nKey d)
        ((s.vvNew (newBucket H s.nKey d)).insert (news.length : Int)) from rfl,
        holders_insert] at hholds
      split at hholds
      · rename_i hnew
        exact .inl hnew
      · exact .inr (mem_holders.mp hholds)
    · intro n hn
      show holders (Function.update s.vvNew (newBucket H s.nKey d)
        ((s.vvNew (newBucket H s.nKey d)).insert (news.length : Int))) n = _
      rw [holders_insert, if_neg hn]
  · refine .ok ⟨rfl, h.push_new hfresh rfl rfl rfl rfl rfl ?_ (fun b n hn => .inr hn)
      fun _ _ => rfl, rfl, rfl, rfl⟩
    show _ = loadedInfo (news ++ [d]) s.vvNew news.length d
    rw [loadedInfo, hnone, hdec]
    rfl

/-- The new buckets are those the entries belong in, or empty if the file has the buckets. -/
def InOwnBuckets (H : Hashes) (key : List UInt8) (nUBuckets : Int) (news : List StoredInfo)
    (vvNew : Fin ADDRMAN_NEW_BUCKET_COUNT → StdSet Int) : Prop :=
  ∀ b n, n ∈ vvNew b ↔
    nUBuckets ≠ ADDRMAN_NEW_BUCKET_COUNT ∧ (nth news n).map (newBucket H key) = some b

theorem inOwnBuckets_push {vvNew : Fin ADDRMAN_NEW_BUCKET_COUNT → StdSet Int}
    (h : InOwnBuckets H key nUBuckets news vvNew) :
    InOwnBuckets H key nUBuckets (news ++ [d])
      (if nUBuckets ≠ ADDRMAN_NEW_BUCKET_COUNT then
        Function.update vvNew (newBucket H key d)
          ((vvNew (newBucket H key d)).insert (news.length : Int))
      else vvNew) := by
  intro b n
  split
  · rename_i hother
    rw [← mem_holders, holders_insert, nth_concat]
    split
    · rename_i hn
      have hnone : ∀ c, n ∉ vvNew c := by
        intro c hc
        obtain ⟨d', hd', -⟩ := Option.map_eq_some_iff.mp ((h c n).mp hc).2
        obtain ⟨i, rfl, -, hi⟩ := nth_eq_some hd'
        omega
      rw [holders_eq_empty hnone, Finset.mem_insert, Option.map_some, Option.some_inj]
      simp [hother, eq_comm]
    · rw [mem_holders, h b n]
  · rename_i hsame
    rw [h b n]
    simp [hsame]

theorem fresh_of_nodup {ds : List StoredInfo} (h : ((ds ++ d :: rest).map fun d => d.ip).Nodup) :
    d.ip ∉ ds.map fun d => d.ip := by
  rw [map_append, map_cons, nodup_middle, nodup_cons] at h
  exact fun hin => h.1 (mem_append_left _ hin)

theorem Loading.allNew (ws : List Word) (rest : List StoredInfo) :
    ∀ {news : List StoredInfo} {s : CAddrMan}, Loading H key news [] s →
      InOwnBuckets H key nUBuckets news s.vvNew →
      ((news ++ rest).map fun d => d.ip).Nodup →
      Returns ((List.range' news.length rest.length).foldlM (readNew H nUBuckets)
        (s, rest.map .info ++ ws)) fun r =>
          r.2 = ws ∧ Loading H key (news ++ rest) [] r.1 ∧ r.1.nNew = s.nNew ∧
            r.1.nTried = s.nTried ∧ InOwnBuckets H key nUBuckets (news ++ rest) r.1.vvNew := by
  induction rest with
  | nil =>
    intro news s h hown _
    rw [append_nil]
    exact .ok ⟨rfl, h, rfl, rfl, hown⟩
  | cons d rest ih =>
    intro news s h hown hnodup
    rw [length_cons, List.range'_succ, foldlM_cons, map_cons, cons_append]
    refine (h.new (fresh_of_nodup hnodup) nUBuckets (rest.map .info ++ ws)).bind fun r hr => ?_
    obtain ⟨s', ws'⟩ := r
    obtain ⟨rfl, h', hnNew, hnTried, hvvNew⟩ := hr
    have hsplit : news ++ d :: rest = (news ++ [d]) ++ rest := by simp
    have hlen : (news ++ [d]).length = news.length + 1 := by simp
    rw [hsplit] at hnodup ⊢
    have hown' := inOwnBuckets_push (d := d) hown
    rw [← hvvNew] at hown'
    have hrest := ih h' hown' hnodup
    rw [hlen] at hrest
    refine hrest.mono fun r hr => ⟨hr.1, hr.2.1, ?_, ?_, hr.2.2.2.2⟩
    · exact hr.2.2.1.trans hnNew
    · exact hr.2.2.2.1.trans hnTried

/-! ## §3. Tried entries. -/

/-- The tried entries that are kept, with one more if its bucket has room. -/
def keepTried (H : Hashes) (key : List UInt8) (kept : List StoredInfo) (d : StoredInfo) :
    List StoredInfo :=
  if (kept.countP fun d' => triedBucket H key d' = triedBucket H key d) <
      ADDRMAN_TRIED_BUCKET_SIZE then kept ++ [d]
  else kept

/-- **One turn** of the loop over the tried entries. -/
theorem Loading.tried (h : Loading H key news kept s)
    (hfresh : d.ip ∉ (news ++ kept).map fun d => d.ip)
    (hid : s.nIdCount.toInt = (news ++ kept).length) (hint : (news ++ kept).length + 1 < 2 ^ 31)
    (nLost i : Nat) (ws : List Word) :
    Returns (readTried H (s, nLost, .info d :: ws) i) fun r =>
      r.2.2 = ws ∧ Loading H key news (keepTried H key kept d) r.1 ∧
        r.1.nIdCount.toInt = (news ++ keepTried H key kept d).length ∧ r.1.nNew = s.nNew ∧
        r.1.nTried = s.nTried ∧ r.1.vvNew = s.vvNew ∧
        (keepTried H key kept d).length + r.2.1 = kept.length + 1 + nLost := by
  obtain rfl := h.nKey
  have hlen : (s.vRandom.length : Int) = (news ++ kept).length := by rw [h.length_vRandom]
  have hroom : (s.vvTried (triedBucket H s.nKey d)).length =
      kept.countP fun d' => triedBucket H s.nKey d' = triedBucket H s.nKey d := by
    rw [h.vvTried, length_numbersIn]
  rw [readTried, readInfo, ok_bind]
  simp only
  rw [hlen, show d.info.getTriedBucket H s.nKey = triedBucket H s.nKey d from rfl, hroom]
  obtain ⟨htake, hnext⟩ := takeId_eq hid hint
  unfold keepTried
  split
  · rw [htake, ok_bind]
    have hempty : holders s.vvNew ((news ++ kept).length : Int) = ∅ := by
      refine holders_eq_empty fun b hb => ?_
      have hlt := (h.inNew b _ hb).2
      rw [length_append] at hlt
      omega
    have hdec : decide ((news.length : Int) ≤ ((news ++ kept).length : Int)) = true := by
      rw [length_append]
      exact decide_eq_true (by omega)
    refine .ok ⟨rfl, ⟨rfl, ?_, ?_, ?_, ?_, h.inNew⟩, ?_, rfl, rfl, rfl, ?_⟩
    · intro n
      show (s.mapInfo.insert ((news ++ kept).length : Int) _)[n]? =
        (nth (news ++ (kept ++ [d])) n).map (loadedInfo news s.vvNew n)
      rw [get_insert, ← append_assoc, nth_concat]
      by_cases hn : n = (news ++ kept).length
      · rw [if_pos hn.symm, if_pos hn, hn, Option.map_some, loadedInfo, hempty, hdec]
        rfl
      · rw [if_neg (Ne.symm hn), if_neg hn, h.mapInfo]
    · intro a n
      rw [← append_assoc]
      exact mapAddr_concat h.mapAddr hfresh a n
    · show s.vRandom ++ [((news ++ kept).length : Int)] = _
      rw [h.vRandom, ← append_assoc]
      exact vRandom_concat (news ++ kept) d
    · intro k
      show Function.update s.vvTried (triedBucket H s.nKey d)
        (s.vvTried (triedBucket H s.nKey d) ++ [((news ++ kept).length : Int)]) k = _
      rw [numbersIn_concat, ← length_append]
      by_cases hk : triedBucket H s.nKey d = k
      · rw [if_pos hk, hk, Function.update_self, h.vvTried]
      · rw [if_neg hk, Function.update_of_ne (Ne.symm hk), h.vvTried, append_nil]
    · show (s.nIdCount + 1).toInt = ((news ++ (kept ++ [d])).length : Int)
      rw [hnext, ← append_assoc, @length_append _ _ [d], length_singleton]
    · rw [length_append, length_singleton]
  · refine .ok ⟨rfl, h, hid, rfl, rfl, rfl, ?_⟩
    show kept.length + (nLost + 1) = _
    omega

variable (rest : List StoredInfo)

theorem keepTried_sublist :
    ∀ kept : List StoredInfo, (rest.foldl (keepTried H key) kept).Sublist (kept ++ rest) := by
  induction rest with
  | nil =>
    intro kept
    rw [append_nil]
    exact List.Sublist.refl _
  | cons d rest ih =>
    intro kept
    rw [foldl_cons]
    refine (ih _).trans ?_
    unfold keepTried
    split
    · rw [append_assoc, singleton_append]
    · exact (List.Sublist.refl kept).append (sublist_cons_self d rest)

theorem keepTried_countP : ∀ kept : List StoredInfo,
    (∀ k, (kept.countP fun d => triedBucket H key d = k) ≤ ADDRMAN_TRIED_BUCKET_SIZE) →
    ∀ k, ((rest.foldl (keepTried H key) kept).countP fun d => triedBucket H key d = k) ≤
    ADDRMAN_TRIED_BUCKET_SIZE := by
  induction rest with
  | nil => exact fun _ h => h
  | cons d rest ih =>
    intro kept h
    rw [foldl_cons]
    refine ih _ fun k => ?_
    unfold keepTried
    split
    · rename_i hroom
      rw [countP_append, countP_singleton]
      by_cases hk : triedBucket H key d = k
      · rw [hk] at hroom
        simp only [hk, decide_true, if_true]
        omega
      · simp only [hk, decide_false, Bool.false_eq_true, if_false, Nat.add_zero]
        exact h k
    · exact h k

theorem keepTried_eq : ∀ kept : List StoredInfo,
    (∀ k, ((kept ++ rest).countP fun d => triedBucket H key d = k) ≤ ADDRMAN_TRIED_BUCKET_SIZE) →
    rest.foldl (keepTried H key) kept = kept ++ rest := by
  induction rest with
  | nil =>
    intro kept _
    rw [foldl_nil, append_nil]
  | cons d rest ih =>
    intro kept h
    have hroom : (kept.countP fun d' => triedBucket H key d' = triedBucket H key d) <
        ADDRMAN_TRIED_BUCKET_SIZE := by
      have hk := h (triedBucket H key d)
      rw [countP_append, countP_cons] at hk
      simp only [decide_true, if_true] at hk
      omega
    rw [foldl_cons, keepTried, if_pos hroom]
    have hsplit : kept ++ d :: rest = (kept ++ [d]) ++ rest := by simp
    rw [hsplit] at h ⊢
    exact ih _ h

theorem Loading.allTried (ws : List Word) (rest : List StoredInfo) :
    ∀ {kept : List StoredInfo} {s : CAddrMan} (nLost i : Nat), Loading H key news kept s →
      ((news ++ kept ++ rest).map fun d => d.ip).Nodup →
      (news ++ kept ++ rest).length < 2 ^ 31 → s.nIdCount.toInt = (news ++ kept).length →
      Returns ((List.range' i rest.length).foldlM (readTried H)
        (s, nLost, rest.map .info ++ ws)) fun r =>
          r.2.2 = ws ∧ Loading H key news (rest.foldl (keepTried H key) kept) r.1 ∧
            r.1.nNew = s.nNew ∧ r.1.nTried = s.nTried ∧ r.1.vvNew = s.vvNew ∧
            (rest.foldl (keepTried H key) kept).length + r.2.1 =
              kept.length + rest.length + nLost := by
  induction rest with
  | nil =>
    intro kept s nLost i h _ _ _
    exact .ok ⟨rfl, h, rfl, rfl, rfl, rfl⟩
  | cons d rest ih =>
    intro kept s nLost i h hnodup hint hid
    rw [length_cons, List.range'_succ, foldlM_cons, map_cons, cons_append]
    rw [length_append, length_cons] at hint
    refine (h.tried (fresh_of_nodup hnodup) hid (by omega) nLost i (rest.map .info ++ ws)).bind
      fun r hr => ?_
    obtain ⟨s', nLost', ws'⟩ := r
    obtain ⟨rfl, h', hid', hnNew, hnTried, hvvNew, hlost⟩ := hr
    have hsub : (keepTried H key kept d).Sublist (kept ++ [d]) := keepTried_sublist [d] kept
    have hnodup' : ((news ++ keepTried H key kept d ++ rest).map fun d => d.ip).Nodup := by
      refine List.Nodup.sublist (List.Sublist.map _ ?_) hnodup
      have hsplit : news ++ kept ++ d :: rest = news ++ (kept ++ [d]) ++ rest := by simp
      rw [hsplit]
      exact ((List.Sublist.refl news).append hsub).append (List.Sublist.refl rest)
    have hint' : (news ++ keepTried H key kept d ++ rest).length < 2 ^ 31 := by
      have hle := hsub.length_le
      simp only [length_append, length_singleton] at hint hle ⊢
      omega
    refine (ih _ _ h' hnodup' hint' hid').mono fun r hr => ⟨hr.1, hr.2.1, ?_, ?_, ?_, ?_⟩
    · exact hr.2.2.1.trans hnNew
    · exact hr.2.2.2.1.trans hnTried
    · exact hr.2.2.2.2.1.trans hvvNew
    · have hlen := hr.2.2.2.2.2
      rw [foldl_cons]
      simp only at hlost hlen
      omega

/-! ## §4. The buckets of the file. -/

theorem setInfo_self {info : CAddrInfo} (h : s.mapInfo[n]? = some info) :
    s.setInfo n info = s := by
  have hmap : s.mapInfo.insert n info = s.mapInfo := by
    refine Std.ExtTreeMap.ext_getElem? fun m => ?_
    rw [get_insert]
    split
    · rename_i hm
      rw [← hm, h]
    · rfl
  rw [setInfo, hmap]

theorem Loading.exists_entry (h : Loading H key news kept s) (hn : 0 ≤ n) (hlt : n < news.length) :
    ∃ d, nth news n = some d ∧
      s.mapInfo[n]? = some (loadedInfo news s.vvNew n d) := by
  obtain ⟨i, rfl⟩ := Int.eq_ofNat_of_zero_le hn
  have hi : i < news.length := by omega
  refine ⟨news[i], ?_, ?_⟩
  · rw [nth_natCast, List.getElem?_eq_getElem hi]
  · rw [h.mapInfo, nth_append_left hlt, nth_natCast, List.getElem?_eq_getElem hi, Option.map_some]

theorem Loading.skipIndex (h : Loading H key news kept s) (hn : 0 ≤ n) (hlt : n < news.length)
    (hU : nUBuckets ≠ ADDRMAN_NEW_BUCKET_COUNT) (b : Fin ADDRMAN_NEW_BUCKET_COUNT) (i : Nat)
    (ws : List Word) :
    readIndex nUBuckets b (s, .int n :: ws) i = .ok (s, ws) := by
  obtain ⟨d, -, hinfo⟩ := h.exists_entry hn hlt
  rw [readIndex, readInt, ok_bind]
  simp only
  rw [if_neg fun hand => hU hand.1, hinfo, Option.getD_some, setInfo_self hinfo]

theorem Loading.skipBucket (h : Loading H key news kept s)
    (hU : nUBuckets ≠ ADDRMAN_NEW_BUCKET_COUNT) {b : Nat} (hb : b < ADDRMAN_NEW_BUCKET_COUNT)
    {v : List Int} (hv : ∀ n ∈ v, 0 ≤ n ∧ n < news.length) (ws : List Word) :
    readBucket nUBuckets (s, .int v.length :: (v.map .int ++ ws)) b = .ok (s, ws) := by
  rw [readBucket, dif_pos hb, readInt, ok_bind]
  simp only
  rw [Int.toNat_natCast, range_eq_range']
  generalize 0 = i
  induction v generalizing i with
  | nil => rfl
  | cons n v ih =>
    obtain ⟨hn, hlt⟩ := hv n mem_cons_self
    rw [length_cons, List.range'_succ, foldlM_cons, map_cons, cons_append,
      h.skipIndex hn hlt hU, ok_bind]
    exact ih (fun m hm => hv m (mem_cons_of_mem _ hm)) _

theorem Loading.skipBuckets (h : Loading H key news kept s)
    (hU : nUBuckets ≠ ADDRMAN_NEW_BUCKET_COUNT) {buckets : List (List Int)}
    (hv : ∀ v ∈ buckets, ∀ n ∈ v, 0 ≤ n ∧ n < news.length) (ws : List Word) {b : Nat}
    (hb : b + buckets.length ≤ ADDRMAN_NEW_BUCKET_COUNT) :
    (List.range' b buckets.length).foldlM (readBucket nUBuckets)
      (s, (buckets.flatMap fun v => .int v.length :: v.map .int) ++ ws) = .ok (s, ws) := by
  induction buckets generalizing b with
  | nil => rfl
  | cons v buckets ih =>
    rw [length_cons] at hb
    rw [length_cons, List.range'_succ, foldlM_cons, flatMap_cons,
      append_assoc, cons_append,
      h.skipBucket hU (by omega) (hv v mem_cons_self), ok_bind]
    exact ih (fun v' hv' => hv v' (mem_cons_of_mem _ hv')) (by omega)

theorem Loading.index (h : Loading H key news kept s) (hn : 0 ≤ n) (hlt : n < news.length)
    {b : Fin ADDRMAN_NEW_BUCKET_COUNT} (hnot : n ∉ s.vvNew b)
    (hcount : (holders s.vvNew n).card < ADDRMAN_NEW_BUCKETS_PER_ADDRESS) (i : Nat)
    (ws : List Word) :
    Returns (readIndex ADDRMAN_NEW_BUCKET_COUNT b (s, .int n :: ws) i) fun r =>
      r.2 = ws ∧ Loading H key news kept r.1 ∧ r.1.nNew = s.nNew ∧ r.1.nTried = s.nTried ∧
        r.1.vvNew = Function.update s.vvNew b ((s.vvNew b).insert n) := by
  obtain ⟨d, hd, hinfo⟩ := h.exists_entry hn hlt
  have hroom : (loadedInfo news s.vvNew n d).nRefCount < ADDRMAN_NEW_BUCKETS_PER_ADDRESS :=
    Int.ofNat_lt.mpr hcount
  rw [readIndex, readInt, ok_bind]
  simp only
  rw [hinfo, Option.getD_some, setInfo_self hinfo, if_pos ⟨trivial, hroom⟩]
  refine .ok ⟨rfl, ⟨h.nKey, ?_, h.mapAddr, h.vRandom, h.vvTried, ?_⟩, rfl, rfl, rfl⟩
  · intro m
    show (s.mapInfo.insert n _)[m]? = (nth (news ++ kept) m).map
      (loadedInfo news (Function.update s.vvNew b ((s.vvNew b).insert n)) m)
    rw [get_insert]
    by_cases hm : n = m
    · subst hm
      rw [if_pos rfl, nth_append_left hlt, hd, Option.map_some, loadedInfo, loadedInfo,
        holders_insert, if_pos rfl,
        Finset.card_insert_of_notMem (fun hmem => hnot (mem_holders.mp hmem))]
      rfl
    · rw [if_neg hm, h.mapInfo]
      refine Option.map_congr fun d' _ => ?_
      rw [loadedInfo, loadedInfo, holders_insert, if_neg (Ne.symm hm)]
  · intro c m hm
    have hholds := mem_holders.mpr hm
    rw [show (CAddrMan.vvNew _) = Function.update s.vvNew b ((s.vvNew b).insert n) from rfl,
      holders_insert] at hholds
    split at hholds
    · rename_i hmn
      rw [hmn]
      exact ⟨hn, hlt⟩
    · exact h.inNew c m (mem_holders.mp hholds)

/-- **A bucket** that is used: the entries join it. -/
theorem Loading.bucket {b : Fin ADDRMAN_NEW_BUCKET_COUNT} {ws : List Word} (v : List Int) :
    ∀ {s : CAddrMan} {i : Nat}, Loading H key news kept s →
      (∀ n ∈ v, 0 ≤ n ∧ n < news.length) → v.Nodup → (∀ n ∈ v, n ∉ s.vvNew b) →
      (∀ n ∈ v, (holders s.vvNew n).card < ADDRMAN_NEW_BUCKETS_PER_ADDRESS) →
      Returns ((List.range' i v.length).foldlM (readIndex ADDRMAN_NEW_BUCKET_COUNT b)
        (s, v.map .int ++ ws)) fun r =>
          r.2 = ws ∧ Loading H key news kept r.1 ∧ r.1.nNew = s.nNew ∧ r.1.nTried = s.nTried ∧
            ∀ c n, n ∈ r.1.vvNew c ↔ n ∈ s.vvNew c ∨ c = b ∧ n ∈ v := by
  induction v with
  | nil =>
    intro s i h _ _ _ _
    exact .ok ⟨rfl, h, rfl, rfl, fun c n => by simp⟩
  | cons n v ih =>
    intro s i h hv hnodup hnot hcount
    obtain ⟨hn, hlt⟩ := hv n mem_cons_self
    obtain ⟨hnv, hnodup'⟩ := nodup_cons.mp hnodup
    rw [length_cons, List.range'_succ, foldlM_cons, map_cons, cons_append]
    refine (h.index hn hlt (hnot n mem_cons_self) (hcount n mem_cons_self) i
      (v.map .int ++ ws)).bind fun r hr => ?_
    obtain ⟨s', ws'⟩ := r
    obtain ⟨rfl, h', hnNew, hnTried, hvvNew⟩ := hr
    simp only at h' hnNew hnTried hvvNew
    -- the other entries are where they were
    have hother : ∀ m, m ≠ n → holders s'.vvNew m = holders s.vvNew m := by
      intro m hm
      rw [hvvNew, holders_insert, if_neg hm]
    have hne : ∀ m ∈ v, m ≠ n := fun m hm hmn => hnv (hmn ▸ hm)
    refine (ih h' (fun m hm => hv m (mem_cons_of_mem _ hm)) hnodup' ?_ ?_).mono
      fun r hr => ⟨hr.1, hr.2.1, hr.2.2.1.trans hnNew, hr.2.2.2.1.trans hnTried, ?_⟩
    · intro m hm hin
      have hin' := mem_holders.mpr hin
      rw [hother m (hne m hm)] at hin'
      exact hnot m (mem_cons_of_mem _ hm) (mem_holders.mp hin')
    · intro m hm
      rw [hother m (hne m hm)]
      exact hcount m (mem_cons_of_mem _ hm)
    · intro c m
      rw [hr.2.2.2.2, ← mem_holders, hvvNew, holders_insert]
      by_cases hm : m = n
      · subst hm
        rw [if_pos rfl, Finset.mem_insert, mem_holders]
        simp only [mem_cons, true_or, and_true]
        tauto
      · rw [if_neg hm, mem_holders]
        simp [hm]

/-- **The buckets** of a file that has as many as the table. -/
theorem Loading.allBuckets {v : Fin ADDRMAN_NEW_BUCKET_COUNT → List Int} (ws : List Word)
    (hv : ∀ b, ∀ n ∈ v b, 0 ≤ n ∧ n < news.length) (hvnodup : ∀ b, (v b).Nodup)
    (hmax : ∀ n : Int, (Finset.univ.filter fun b => n ∈ v b).card ≤
      ADDRMAN_NEW_BUCKETS_PER_ADDRESS) (rest : List (Fin ADDRMAN_NEW_BUCKET_COUNT)) :
    ∀ (done : List (Fin ADDRMAN_NEW_BUCKET_COUNT)) {s : CAddrMan}, Loading H key news kept s →
      (done ++ rest).Nodup → (∀ b n, n ∈ s.vvNew b ↔ b ∈ done ∧ n ∈ v b) →
      Returns ((rest.map Fin.val).foldlM (readBucket ADDRMAN_NEW_BUCKET_COUNT)
        (s, (rest.flatMap fun b => .int (v b).length :: (v b).map .int) ++ ws)) fun r =>
          Loading H key news kept r.1 ∧ r.1.nNew = s.nNew ∧ r.1.nTried = s.nTried ∧
            ∀ b n, n ∈ r.1.vvNew b ↔ b ∈ done ++ rest ∧ n ∈ v b := by
  induction rest with
  | nil =>
    intro done s h _ hdone
    rw [append_nil]
    exact .ok ⟨h, rfl, rfl, hdone⟩
  | cons b rest ih =>
    intro done s h hnodup hdone
    have hb : b ∉ done := by
      have hdisjoint := (nodup_append.mp hnodup).2.2
      exact fun hin => hdisjoint b hin b mem_cons_self rfl
    have hnot : ∀ n ∈ v b, n ∉ s.vvNew b := fun n _ hin => hb ((hdone b n).mp hin).1
    -- the bucket itself is still missing from the count
    have hcount : ∀ n ∈ v b,
        (holders s.vvNew n).card < ADDRMAN_NEW_BUCKETS_PER_ADDRESS := by
      intro n hn
      refine lt_of_lt_of_le (Finset.card_lt_card ?_) (hmax n)
      rw [Finset.ssubset_iff_of_subset]
      · exact ⟨b, by simp [hn], fun hin => hnot n hn (mem_holders.mp hin)⟩
      · intro c hc
        rw [Finset.mem_filter]
        exact ⟨Finset.mem_univ c, ((hdone c n).mp (mem_holders.mp hc)).2⟩
    rw [map_cons, foldlM_cons, flatMap_cons, append_assoc,
      cons_append, readBucket, dif_pos b.isLt, readInt, ok_bind]
    simp only
    rw [Int.toNat_natCast, range_eq_range']
    refine (h.bucket (v b) (hv b) (hvnodup b) hnot hcount).bind fun r hr => ?_
    obtain ⟨s', ws'⟩ := r
    obtain ⟨rfl, h', hnNew, hnTried, hvvNew⟩ := hr
    have hsplit : done ++ b :: rest = (done ++ [b]) ++ rest := by simp
    rw [hsplit] at hnodup ⊢
    have hdone' : ∀ c n, n ∈ s'.vvNew c ↔ c ∈ done ++ [b] ∧ n ∈ v c := by
      intro c n
      rw [hvvNew c n, hdone c n, mem_append, mem_singleton]
      constructor
      · rintro (⟨hc, hn⟩ | ⟨rfl, hn⟩)
        · exact ⟨.inl hc, hn⟩
        · exact ⟨.inr rfl, hn⟩
      · rintro ⟨hc | rfl, hn⟩
        · exact .inl ⟨hc, hn⟩
        · exact .inr ⟨rfl, hn⟩
    refine (ih _ h' hnodup hdone').mono fun r hr => ⟨hr.1, ?_, ?_, hr.2.2.2⟩
    · exact hr.2.1.trans hnNew
    · exact hr.2.2.1.trans hnTried

/-! ## §5. The table at the end. -/

theorem Loading.toList_perm (h : Loading H key news kept s) :
    s.mapInfo.toList.Perm ((news ++ kept).zipIdx.map fun e =>
      ((e.2 : Int), loadedInfo news s.vvNew e.2 e.1)) := by
  have hkeys : s.mapInfo.toList.Nodup := by
    refine List.Nodup.of_map Prod.fst ?_
    rw [Std.ExtTreeMap.map_fst_toList_eq_keys]
    exact Std.ExtTreeMap.nodup_keys
  have hids : ((news ++ kept).zipIdx.map fun e =>
      ((e.2 : Int), loadedInfo news s.vvNew e.2 e.1)).Nodup := by
    refine List.Nodup.of_map Prod.fst ?_
    rw [map_map]
    have hsnd := nodup_range (n := (news ++ kept).length)
    rw [range_eq_range', ← zipIdx_map_snd 0 (news ++ kept)] at hsnd
    rw [show Prod.fst ∘ (fun e : StoredInfo × Nat =>
      ((e.2 : Int), loadedInfo news s.vvNew e.2 e.1)) = Nat.cast ∘ Prod.snd from rfl,
      ← map_map]
    exact hsnd.map Int.ofNat_injective
  rw [perm_ext_iff_of_nodup hkeys hids]
  rintro ⟨n, info⟩
  rw [Std.ExtTreeMap.mem_toList_iff_getElem?_eq_some, h.mapInfo, Option.map_eq_some_iff,
    mem_map]
  constructor
  · rintro ⟨d, hd, rfl⟩
    obtain ⟨i, rfl, hi, -⟩ := nth_eq_some hd
    exact ⟨(d, i), mk_mem_zipIdx_iff_getElem?.mpr hi, rfl⟩
  · rintro ⟨⟨d, i⟩, hmem, heq⟩
    cases heq
    exact ⟨d, by rw [nth_natCast]; exact mk_mem_zipIdx_iff_getElem?.mp hmem, rfl⟩

theorem Loading.mapInfo_iff (h : Loading H key news kept s) {info : CAddrInfo} :
    s.mapInfo[n]? = some info ↔
      ∃ i d, n = ((i : Nat) : Int) ∧ (news ++ kept)[i]? = some d ∧
        info = loadedInfo news s.vvNew n d := by
  rw [h.mapInfo, Option.map_eq_some_iff]
  constructor
  · rintro ⟨d, hd, rfl⟩
    obtain ⟨i, rfl, hi, -⟩ := nth_eq_some hd
    exact ⟨i, d, rfl, hi, rfl⟩
  · rintro ⟨i, d, rfl, hi, rfl⟩
    exact ⟨d, by rw [nth_natCast, hi], rfl⟩

theorem Loading.holders_tried (h : Loading H key news kept s) (hn : news.length ≤ n) :
    holders s.vvNew n = ∅ := by
  refine holders_eq_empty fun b hb => ?_
  have := (h.inNew b n hb).2
  omega

theorem Loading.countP_fInTried (h : Loading H key news kept s) :
    (s.mapInfo.toList.countP fun item => item.2.fInTried) = kept.length := by
  rw [h.toList_perm.countP_eq, countP_map, zipIdx_append, countP_append]
  have hnews : (news.zipIdx).countP ((fun item : Int × CAddrInfo => item.2.fInTried) ∘
      fun e => ((e.2 : Int), loadedInfo news s.vvNew e.2 e.1)) = 0 := by
    rw [countP_eq_zero]
    rintro ⟨d, i⟩ hmem
    have hi := (List.getElem?_eq_some_iff.mp (mk_mem_zipIdx_iff_getElem?.mp hmem)).1
    intro ht
    have hle : (news.length : Int) ≤ (i : Int) := of_decide_eq_true ht
    omega
  have hkept : (kept.zipIdx (0 + news.length)).countP
      ((fun item : Int × CAddrInfo => item.2.fInTried) ∘
        fun e => ((e.2 : Int), loadedInfo news s.vvNew e.2 e.1)) =
          (kept.zipIdx (0 + news.length)).length := by
    rw [countP_eq_length]
    rintro ⟨d, i⟩ hmem
    have hle := (mk_mem_zipIdx_iff_le_and_getElem?_sub.mp hmem).1
    exact decide_eq_true (show (news.length : Int) ≤ (i : Int) by omega)
  rw [hnews, hkept, length_zipIdx, Nat.zero_add]

/-- **The tests of `Check_`**, once every new entry is in a bucket. -/
theorem Loading.check (h : Loading H key news kept s)
    (hsuccess : ∀ d ∈ news ++ kept, 0 ≤ d.nLastSuccess) (htried : ∀ d ∈ kept, d.nLastSuccess ≠ 0)
    (hrefs : ∀ n : Int, 0 ≤ n → n < news.length → 1 ≤ (holders s.vvNew n).card ∧
      (holders s.vvNew n).card ≤ ADDRMAN_NEW_BUCKETS_PER_ADDRESS)
    (hnNew : s.nNew = news.length) (hnTried : s.nTried = kept.length) : Check s where
  entry n info hinfo := by
    obtain ⟨i, d, rfl, hi, rfl⟩ := h.mapInfo_iff.mp hinfo
    refine ⟨(by decide : (0 : Int64) ≤ 0), hsuccess d (mem_of_getElem? hi), ?_, ?_⟩
    · intro ht
      have hle : (news.length : Int) ≤ (i : Int) := of_decide_eq_true ht
      rw [List.getElem?_append_right (by omega)] at hi
      refine ⟨htried d (mem_of_getElem? hi), ?_⟩
      show (((holders s.vvNew (i : Int)).card : Nat) : Int) = 0
      rw [h.holders_tried hle]
      rfl
    · intro hf
      have hlt : ¬ ((news.length : Int) ≤ (i : Int)) := of_decide_eq_false hf
      obtain ⟨h₁, h₂⟩ := hrefs i (by omega) (by omega)
      exact ⟨Int.ofNat_le.mpr h₁, Int.ofNat_le.mpr h₂⟩
  random n p := by
    rw [h.vRandom]
    constructor
    · rintro ⟨info, hinfo, rfl⟩
      obtain ⟨i, d, rfl, hi, rfl⟩ := h.mapInfo_iff.mp hinfo
      refine ⟨Int.natCast_nonneg i, ?_⟩
      show ((List.range (news ++ kept).length).map fun i : Nat => (i : Int))[i]? = _
      rw [List.getElem?_map, List.getElem?_range (List.getElem?_eq_some_iff.mp hi).1]
      rfl
    · rintro ⟨hp, hget⟩
      rw [List.getElem?_map, Option.map_eq_some_iff] at hget
      obtain ⟨i, hi, rfl⟩ := hget
      obtain ⟨hlt, hpi⟩ := List.getElem?_eq_some_iff.mp hi
      rw [getElem_range] at hpi
      rw [length_range] at hlt
      have hlt' : i < (news ++ kept).length := by omega
      refine ⟨_, h.mapInfo_iff.mpr ⟨i, _, rfl, List.getElem?_eq_getElem hlt', rfl⟩, ?_⟩
      show (i : Int) = p
      omega
  addr a n := by
    rw [h.mapAddr]
    constructor
    · intro hd
      obtain ⟨d, hd, hip⟩ := Option.map_eq_some_iff.mp hd
      exact ⟨_, by rw [h.mapInfo, hd, Option.map_some], hip⟩
    · rintro ⟨info, hinfo, hip⟩
      obtain ⟨i, d, rfl, hi, rfl⟩ := h.mapInfo_iff.mp hinfo
      rw [nth_natCast, hi, Option.map_some]
      exact congrArg some hip
  tried :=
    { mem := by
        intro n
        simp only [h.vvTried, mem_numbersIn]
        constructor
        · rintro ⟨k, i, d, hi, rfl, -⟩
          have hget : (news ++ kept)[news.length + i]? = some d := by
            rw [List.getElem?_append_right (by omega), Nat.add_sub_cancel_left, hi]
          refine ⟨_, h.mapInfo_iff.mpr ⟨_, d, rfl, hget, rfl⟩, ?_⟩
          exact decide_eq_true (by omega)
        · rintro ⟨info, hinfo, hin⟩
          obtain ⟨i, d, rfl, hi, rfl⟩ := h.mapInfo_iff.mp hinfo
          have hle : (news.length : Int) ≤ (i : Int) := of_decide_eq_true hin
          rw [List.getElem?_append_right (by omega)] at hi
          exact ⟨triedBucket H key d, i - news.length, d, hi, by omega, rfl⟩
      nodup := by
        intro k
        rw [h.vvTried]
        exact nodup_numbersIn
      one := by
        intro k k' n hk hk'
        rw [h.vvTried, mem_numbersIn] at hk hk'
        obtain ⟨i, d, hi, hn, rfl⟩ := hk
        obtain ⟨i', d', hi', hn', rfl⟩ := hk'
        have hii : i = i' := by omega
        subst hii
        rw [Option.some.inj (hi.symm.trans hi')] }
  new n info hinfo := by
    obtain ⟨i, d, rfl, -, rfl⟩ := h.mapInfo_iff.mp hinfo
    rw [bucketsWith_eq]
    rfl
  inNew b n hn := by
    obtain ⟨h₀, hlt⟩ := h.inNew b n hn
    obtain ⟨d, -, hinfo⟩ := h.exists_entry h₀ hlt
    exact ⟨_, hinfo, decide_eq_false (by omega)⟩
  nTried := by rw [hnTried, h.countP_fInTried]
  nNew := by
    have hcount := length_eq_countP_add_countP (fun item : Int × CAddrInfo => item.2.fInTried)
      (l := s.mapInfo.toList)
    have hlen := h.toList_perm.length_eq
    rw [length_map, length_zipIdx, length_append] at hlen
    rw [h.countP_fInTried, hlen] at hcount
    simp only [Bool.not_eq_true, Bool.decide_eq_false] at hcount
    rw [hnNew]
    omega
  size := by
    rw [h.length_vRandom, hnNew, hnTried, length_append]
    omega

end CAddrMan

end Fantom.Net
