/-
  Fantom.Net.Calls — Any sequence of calls to the table of peers.

  * `addrMan_check` — every sequence of calls returns, and leaves the tests of `Check_` true.
-/
import Fantom.Net.Check

namespace Fantom.Net

open Core Lib List

namespace CAddrMan

variable (H : Hashes) {s : CAddrMan} {added : List CNetAddr} {pending : Int → Nat} {nId : Int}
  {info : CAddrInfo}

/-! ## §1. One call. -/

theorem find_eq_some (h : Inv added pending s) {addr : CNetAddr} :
    s.find addr = some (nId, info) → s.mapInfo[nId]? = some info ∧ info.ip = addr := by
  intro hfind
  unfold find at hfind
  split at hfind
  · cases hfind
  · rename_i n hn
    split at hfind
    · cases hfind
    · rename_i i hi
      obtain ⟨rfl, rfl⟩ := Prod.mk.inj (Option.some.inj hfind)
      have hip := (h.addr addr n).mp hn
      rw [field_eq _ hi] at hip
      exact ⟨hi, Option.some.inj hip⟩

theorem find_eq_none (h : Inv added pending s) {addr : CNetAddr} (hfind : s.find addr = none) :
    s.mapAddr[addr]? = none := by
  unfold find at hfind
  split at hfind
  · assumption
  · rename_i n hn
    obtain ⟨i, hi, -⟩ := Option.map_eq_some_iff.mp ((h.addr addr n).mp hn)
    rw [hi] at hfind
    cases hfind

theorem inv_setTime (h : Inv added pending s) (hinfo : s.mapInfo[nId]? = some info) (nTime : UInt32)
    (nServices : UInt64) :
    Inv added pending (s.setInfo nId { info with nTime := nTime, nServices := nServices }) := by
  have hentry := h.entry nId info hinfo
  exact inv_setInfo h hinfo ⟨hentry.nLastTry, hentry.nLastSuccess, hentry.tried, hentry.new⟩
    rfl rfl rfl rfl

theorem heardAgain_eq (nAdjustedTime : Int64) (addr : CAddress) (nTimePenalty : Int64)
    (info : CAddrInfo) : ∃ nTime nServices,
      heardAgain nAdjustedTime addr nTimePenalty info =
        { info with nTime := nTime, nServices := nServices } := by
  unfold heardAgain
  simp only
  generalize (if (decide (nAdjustedTime.toInt - (addr.nTime.toNat : Int) < 24 * 60 * 60)) = true
    then (60 * 60 : Int) else 24 * 60 * 60) = nUpdateInterval
  by_cases h : addr.nTime ≠ 0 ∧ (info.nTime = 0 ∨ (info.nTime.toNat : Int) <
      addr.nTime.toNat - nUpdateInterval - nTimePenalty.toInt)
  · rw [if_pos h]
    exact ⟨_, _, rfl⟩
  · rw [if_neg h]
    exact ⟨_, _, rfl⟩

/-- **`Add_`** of an address that is in the table. -/
theorem addKnown_spec (rnd : Nat → Nat) (nNow : Int64) (h : Inv added (fun _ => 0) s)
    (addr : CAddress) (source : CNetAddr) (nTimePenalty : Int64)
    (hfind : s.find addr.ip = some (nId, info)) :
    Returns (s.add_ H rnd nNow addr source nTimePenalty) fun r => Inv added (fun _ => 0) r.2 := by
  unfold add_
  split
  · exact .ok h
  · obtain ⟨hinfo, -⟩ := find_eq_some h hfind
    rw [hfind]
    simp only
    -- the statistics change in any case
    obtain ⟨nTime, nServices, hheard⟩ := heardAgain_eq nNow addr nTimePenalty info
    have h' := inv_setTime h hinfo nTime nServices
    rw [hheard]
    have hinfo' : (s.setInfo nId { info with
        nTime := nTime, nServices := nServices }).mapInfo[nId]? =
          some { info with nTime := nTime, nServices := nServices } := mapInfo_setInfo_self
    generalize s.setInfo nId { info with nTime := nTime, nServices := nServices } = t
      at h' hinfo'
    split
    · exact .ok h'
    · split
      · exact .ok h'
      · split
        · exact .ok h'
        · split
          · exact .ok h'
          · rename_i htried hmax _
            have htried' : info.fInTried = false := by simpa using htried
            have hlt : info.nRefCount < ADDRMAN_NEW_BUCKETS_PER_ADDRESS :=
              lt_of_le_of_ne ((h'.entry nId _ hinfo').new htried').2 hmax
            exact (joinBucket_spec H _ nNow source (fun _ => h')
              fun _ => inv_addRef h' hinfo' htried' hlt).bind fun t' ht' => .ok ht'

/-- **`Add_`** of an address that is new, as long as there is an id for it. -/
theorem addNew_spec (rnd : Nat → Nat) (nNow : Int64) (h : Inv added (fun _ => 0) s)
    (addr : CAddress) (source : CNetAddr) (nTimePenalty : Int64)
    (hroutable : addr.ip.isRoutable = true) (hfind : s.find addr.ip = none)
    (hroom : added.length + 1 < 2 ^ 31) :
    Returns (s.add_ H rnd nNow addr source nTimePenalty) fun r =>
      Inv (added ++ [addr.ip]) (fun _ => 0) r.2 := by
  have hfree := find_eq_none h hfind
  obtain ⟨htake, hcount⟩ := takeId_eq h.nIdCount hroom
  rw [add_, if_neg (by simp [hroutable]), hfind]
  simp only [create]
  rw [htake, ok_bind]
  refine (joinBucket_spec H _ nNow source (fun hin => ?_) fun _ => ?_).bind
    fun t' ht' => .ok ht'
  · -- a new id is in no bucket
    obtain ⟨i, hi⟩ := mem_mapInfo_iff.mp (h.inNew _ _ hin)
    rw [h.next_none] at hi
    cases hi
  · have hentry : EntryOk { CAddrInfo.create addr source with
        nTime := UInt32.ofInt (max 0 (addr.nTime.toNat - nTimePenalty.toInt))
        nRandomPos := s.vRandom.length
        nRefCount := 1 } :=
      ⟨show (0 : Int64) ≤ 0 by decide, show (0 : Int64) ≤ 0 by decide,
        fun hf => absurd hf (show ¬false = true by decide),
        fun _ => ⟨show (1 : Int) ≤ 1 by decide, show (1 : Int) ≤ 8 by decide⟩⟩
    refine inv_create h hcount hentry hfree rfl rfl rfl (fun m => ?_) rfl
    rw [mapInfo_setInfo]
    split
    · rfl
    · rename_i hm
      rw [show (CAddrMan.mapInfo _)[m]? = _ from mapInfo_setInfo m, if_neg hm]
      exact StdMap.get_insert_ne _ _ (Ne.symm hm)

/-- There is none after the largest `int`. -/
theorem addNew_last (rnd : Nat → Nat) (nNow : Int64) (h : Inv added pending s)
    (addr : CAddress) (source : CNetAddr) (nTimePenalty : Int64)
    (hroutable : addr.ip.isRoutable = true) (hfind : s.find addr.ip = none)
    (hlast : added.length + 1 = 2 ^ 31) :
    s.add_ H rnd nNow addr source nTimePenalty = .error .overflow := by
  have htake : s.takeId = .error .overflow := takeId_last (by rw [h.nIdCount]; omega)
  rw [add_, if_neg (by simp [hroutable]), hfind]
  simp only [create]
  rw [htake]
  rfl

/-- **`Add_`** keeps the invariant, unless `nIdCount` overflows. -/
theorem add_spec (rnd : Nat → Nat) (nNow : Int64) (h : Inv added (fun _ => 0) s)
    (addr : CAddress) (source : CNetAddr) (nTimePenalty : Int64) (hle : added.length < 2 ^ 31) :
    Returns (s.add_ H rnd nNow addr source nTimePenalty) (fun r =>
      Inv added (fun _ => 0) r.2 ∨
        added.length + 1 < 2 ^ 31 ∧ Inv (added ++ [addr.ip]) (fun _ => 0) r.2) ∨
      s.add_ H rnd nNow addr source nTimePenalty = .error .overflow ∧
        added.length + 1 = 2 ^ 31 := by
  cases hroutable : addr.ip.isRoutable with
  | false =>
    rw [add_, if_pos (by simp [hroutable])]
    exact .inl (.ok (.inl h))
  | true =>
    cases hfind : s.find addr.ip with
    | some found =>
      exact .inl ((addKnown_spec H rnd nNow h addr source nTimePenalty hfind).mono fun _ => .inl)
    | none =>
      by_cases hroom : added.length + 1 < 2 ^ 31
      · exact .inl ((addNew_spec H rnd nNow h addr source nTimePenalty hroutable hfind hroom).mono
          fun _ hr => .inr ⟨hroom, hr⟩)
      · have hlast : added.length + 1 = 2 ^ 31 := by omega
        exact .inr ⟨addNew_last H rnd nNow h addr source nTimePenalty hroutable hfind hlast, hlast⟩

theorem good_spec (rnd : Nat → Nat) (h : Inv added (fun _ => 0) s) (addr : CService)
    {nTime : Int64} (hpos : 0 < nTime) :
    Returns (s.good_ H rnd addr nTime) (Inv added fun _ => 0) := by
  unfold good_
  cases hfind : s.find addr.ip with
  | none => exact .ok h
  | some found =>
    obtain ⟨nId, info⟩ := found
    obtain ⟨hinfo, -⟩ := find_eq_some h hfind
    simp only
    split
    · exact .ok h
    · have hentry := h.entry nId info hinfo
      have hne : nTime ≠ 0 := by
        rintro rfl
        exact absurd hpos (by decide)
      have hle : 0 ≤ nTime := Int64.le_of_lt hpos
      have hentry' : EntryOk { info with
          nLastSuccess := nTime
          nLastTry := nTime
          nTime := UInt32.ofInt nTime.toInt
          nAttempts := 0 } :=
        ⟨hle, hle, fun ht => ⟨hne, (hentry.tried ht).2⟩, hentry.new⟩
      have h' := inv_setInfo h hinfo hentry' rfl rfl rfl rfl
      split
      · exact .ok h'
      · split
        · exact .ok h'
        · rename_i nUBucket hbucket
          have hin : nId ∈ s.vvNew nUBucket := by
            have := find?_some hbucket
            exact Std.ExtTreeSet.contains_iff_mem.mp this
          exact makeTried_spec H _ h' mapInfo_setInfo_self hne hin

theorem attempt_spec (h : Inv added pending s) (addr : CService) {nTime : Int64} (hpos : 0 < nTime) :
    Inv added pending (s.attempt_ addr nTime) := by
  unfold attempt_
  split
  · exact h
  · rename_i nId info hfind
    obtain ⟨hinfo, -⟩ := find_eq_some h hfind
    have hentry := h.entry nId info hinfo
    split
    · exact h
    · exact inv_setInfo h hinfo ⟨Int64.le_of_lt hpos, hentry.nLastSuccess, hentry.tried, hentry.new⟩
        rfl rfl rfl rfl

theorem connected_spec (h : Inv added pending s) (addr : CService) (nTime : Int64) :
    Inv added pending (s.connected_ addr nTime) := by
  unfold connected_
  split
  · exact h
  · rename_i nId info hfind
    obtain ⟨hinfo, -⟩ := find_eq_some h hfind
    split
    · exact h
    · split
      · exact inv_setTime h hinfo _ _
      · exact h

theorem selectFrom_spec {k : Nat} (hk : 0 < k) {vv : Fin k → List Int}
    (hmem : ∀ b, ∀ nId ∈ vv b, nId ∈ s.mapInfo) (draws : List Draw) :
    Returns (s.selectFrom hk vv draws) fun _ => True := by
  induction draws with
  | nil => exact .ok trivial
  | cons draw rest ih =>
    rw [selectFrom]
    generalize hb : (⟨getRandInt draw.nBucket k, getRandInt_lt _ hk⟩ : Fin k) = b
    split
    · exact ih
    · rename_i hne
      have hlen : 0 < (vv b).length := by
        rw [length_pos_iff]
        simpa using hne
      have hlt := getRandInt_lt draw.nPos hlen
      obtain ⟨info, hinfo⟩ := mem_mapInfo_iff.mp (hmem b _ (getElem_mem hlt))
      rw [getElem?_eq_getElem hlt]
      simp only
      rw [infoAt_eq hinfo, ok_bind]
      split
      · exact .ok trivial
      · exact ih

/-- **`Select_`** reads entries that are there. -/
theorem select_spec (h : Inv added pending s) (fTried : Bool) (draws : List Draw) :
    Returns (s.select_ fTried draws) fun _ => True := by
  unfold select_
  split
  · exact .ok trivial
  · split
    · refine selectFrom_spec _ (fun b nId hin => ?_) draws
      have htried := (h.tried.mem nId).mp ⟨b, hin⟩
      obtain ⟨info, hinfo, -⟩ := Option.map_eq_some_iff.mp htried
      exact mem_mapInfo_iff.mpr ⟨info, hinfo⟩
    · exact selectFrom_spec _
        (fun b nId hin => h.inNew b nId (Std.ExtTreeSet.mem_toList.mp hin)) draws

theorem getAddr_spec (nNow : Int64) (rnd : Nat → Nat) (h : Inv added pending s) :
    Returns (s.getAddr_ nNow rnd) fun r => Inv added pending r.1 := by
  have hloop : Returns ((range s.vRandom.length).foldlM (getAddrAt nNow rnd
      (min (ADDRMAN_GETADDR_MAX_PCT * s.vRandom.length / 100) ADDRMAN_GETADDR_MAX)) (s, []))
      fun r => Inv added pending r.1 ∧ ∀ i ∈ ([] : List Nat), i < r.1.vRandom.length := by
    refine Returns.foldlM (I := fun (rest : List Nat) (r : CAddrMan × List CAddress) =>
      Inv added pending r.1 ∧ ∀ i ∈ rest, i < r.1.vRandom.length) ?_ ⟨h, fun i => mem_range.mp⟩
    rintro n rest ⟨t, vAddr⟩ ⟨ht, hlt⟩
    change Inv added pending t at ht
    have hn : n < t.vRandom.length := hlt n mem_cons_self
    have hrest : ∀ i ∈ rest, i < t.vRandom.length := fun i hi => hlt i (mem_cons_of_mem _ hi)
    rw [getAddrAt]
    split
    · exact .ok ⟨ht, hrest⟩
    · have hpos : getRandInt (rnd n) (t.vRandom.length - n) + n < t.vRandom.length := by
        have hrnd := getRandInt_lt (rnd n) (show 0 < t.vRandom.length - n by omega)
        omega
      simp only
      generalize getRandInt (rnd n) (t.vRandom.length - n) + n = nRndPos at hpos
      refine (swapRandom_spec ht.random (p := n) (q := nRndPos) (by omega) (by omega) (by omega)
        (by omega)).bind fun t' ht' => ?_
      have hinv := inv_shuffled ht ht'.1
      have hlen := ht'.1.length
      obtain ⟨nId, hget⟩ : ∃ nId, t'.vRandom[n]? = some nId :=
        ⟨_, getElem?_eq_getElem (by omega)⟩
      obtain ⟨info, hinfo, -⟩ := Option.map_eq_some_iff.mp (hinv.random.of_get hget)
      have hat : t'.randomAt n = .ok nId := randomAt_eq (by omega) hget
      rw [hat, ok_bind, infoAt_eq hinfo, ok_bind]
      rw [← hlen] at hrest
      split
      · exact .ok ⟨hinv, hrest⟩
      · exact .ok ⟨hinv, hrest⟩
  exact hloop.mono fun r hr => hr.1

/-! ## §2. Any number of calls. -/

/-- A call, with the times that it reads and the random numbers that it draws. -/
inductive AddrManCall where
  | add (rnd : Nat → Nat) (nNow : Int64) (addr : CAddress) (source : CNetAddr)
      (nTimePenalty : Int64)
  | good (rnd : Nat → Nat) (addr : CService) (nTime : Int64)
  | attempt (addr : CService) (nTime : Int64)
  | connected (addr : CService) (nTime : Int64)
  | select (fTried : Bool) (draws : List Draw)
  | getAddr (nNow : Int64) (rnd : Nat → Nat)

def AddrManCall.TimePositive : AddrManCall → Prop
  | .good _ _ nTime => 0 < nTime
  | .attempt _ nTime => 0 < nTime
  | .connected _ nTime => 0 < nTime
  | _ => True

def AddrManCall.isAdd : AddrManCall → Bool
  | .add .. => true
  | _ => false

/-- The table after a call. -/
def call (s : CAddrMan) : AddrManCall → Except Abort CAddrMan
  | .add rnd nNow addr source nTimePenalty => do
    let r ← s.add_ H rnd nNow addr source nTimePenalty
    .ok r.2
  | .good rnd addr nTime => s.good_ H rnd addr nTime
  | .attempt addr nTime => .ok (s.attempt_ addr nTime)
  | .connected addr nTime => .ok (s.connected_ addr nTime)
  | .select fTried draws => do
    let _ ← s.select_ fTried draws
    .ok s
  | .getAddr nNow rnd => do
    let r ← s.getAddr_ nNow rnd
    .ok r.1

/-- **One call** keeps the invariant, unless `nIdCount` overflows. -/
theorem call_spec (h : Inv added (fun _ => 0) s) (hlt : added.length < 2 ^ 31) (c : AddrManCall)
    (hpos : c.TimePositive) :
    Returns (s.call H c) (fun s' => ∃ added', Inv added' (fun _ => 0) s' ∧
      added'.length < 2 ^ 31 ∧ added'.length ≤ added.length + [c].countP AddrManCall.isAdd) ∨
      s.call H c = .error .overflow ∧
        added.length + [c].countP AddrManCall.isAdd = 2 ^ 31 := by
  have hkeep : ∀ {s'}, Inv added (fun _ => 0) s' → ∃ added', Inv added' (fun _ => 0) s' ∧
      added'.length < 2 ^ 31 ∧ added'.length ≤ added.length + [c].countP AddrManCall.isAdd :=
    fun h' => ⟨added, h', hlt, Nat.le_add_right ..⟩
  cases c with
  | add rnd nNow addr source nTimePenalty =>
    rcases add_spec H rnd nNow h addr source nTimePenalty hlt with hret | ⟨herr, hlast⟩
    · refine .inl (hret.bind fun r hr => .ok ?_)
      rcases hr with hr | ⟨hroom, hr⟩
      · exact hkeep hr
      · exact ⟨_, hr, by simpa using hroom, by simp [AddrManCall.isAdd]⟩
    · refine .inr ⟨?_, hlast⟩
      rw [call, herr]
      rfl
  | good rnd addr nTime => exact .inl ((good_spec H rnd h addr hpos).mono fun _ => hkeep)
  | attempt addr nTime => exact .inl (.ok (hkeep (attempt_spec h addr hpos)))
  | connected addr nTime => exact .inl (.ok (hkeep (connected_spec h addr nTime)))
  | select fTried draws => exact .inl ((select_spec h fTried draws).bind fun _ _ => .ok (hkeep h))
  | getAddr nNow rnd => exact .inl ((getAddr_spec nNow rnd h).bind fun r hr => .ok (hkeep hr))

/-- **Any number of calls** keep the invariant, up to one that makes `nIdCount` overflow. -/
theorem calls_spec (calls : List AddrManCall) (h : Inv added (fun _ => 0) s)
    (hlt : added.length < 2 ^ 31) (hpos : ∀ c ∈ calls, c.TimePositive) :
    Returns (calls.foldlM (call H) s) (fun s' => ∃ added', Inv added' (fun _ => 0) s') ∨
      calls.foldlM (call H) s = .error .overflow ∧
        2 ^ 31 ≤ added.length + calls.countP AddrManCall.isAdd := by
  induction calls generalizing s added with
  | nil => exact .inl (.ok ⟨added, h⟩)
  | cons c rest ih =>
    have hcount : (c :: rest).countP AddrManCall.isAdd =
        [c].countP AddrManCall.isAdd + rest.countP AddrManCall.isAdd := @countP_append _ _ [c] rest
    rw [foldlM_cons, hcount]
    rcases call_spec H h hlt c (hpos c mem_cons_self) with hret | ⟨herr, hlast⟩
    · obtain ⟨s', hs', added', h', hlt', hle⟩ := hret
      rw [hs', ok_bind]
      refine (ih h' hlt' fun c' hc' => hpos c' (mem_cons_of_mem _ hc')).imp_right ?_
      exact fun hrest => ⟨hrest.1, by omega⟩
    · rw [herr]
      exact .inr ⟨rfl, by omega⟩

/-- **The table is sound** after any number of calls: no assertion fails, and the tests of `Check_`
and the sizes of the buckets hold.  The one end there is is the overflow of `nIdCount`, after
2^31 calls of `Add` at the least. -/
theorem addrMan_check (nKey : List UInt8) (calls : List AddrManCall)
    (hpos : ∀ c ∈ calls, c.TimePositive) :
    Returns (calls.foldlM (call H) (empty nKey)) (fun s => Check s ∧ Sized s) ∨
      calls.foldlM (call H) (empty nKey) = .error .overflow ∧
        2 ^ 31 ≤ calls.countP AddrManCall.isAdd := by
  refine (calls_spec H calls (inv_empty nKey) (by decide) hpos).imp ?_ fun herr => ?_
  · exact fun hret => hret.mono fun s h => h.elim fun _ h => ⟨h.check, h.sized⟩
  · rw [length_nil, Nat.zero_add] at herr
    exact herr

/-- An address is heard of, and connected to. -/
theorem addrMan_check_good :
    let ip : CNetAddr := 0x0000000000000000000000FFFF08080808
    let addr : CAddress := ⟨⟨ip, 31000⟩, 1, 1000000, 0⟩
    let calls : List AddrManCall :=
      [.add (fun _ => 0) 1000100 addr ip 0, .good (fun _ => 7) addr.toCService 1000200,
        .getAddr 1000300 (fun _ => 0)]
    Returns (calls.foldlM (call ⟨fun _ => 5, fun _ => 0, fun _ _ => 0⟩) (empty []))
      fun s => Check s ∧ Sized s := by
  intro ip addr calls
  refine (addrMan_check _ [] calls fun c hc => ?_).resolve_right fun herr => ?_
  rotate_left
  · -- one call of `Add` is not enough
    exact absurd herr.2 (by decide)
  simp only [calls, mem_cons, not_mem_nil, or_false] at hc
  obtain rfl | rfl | rfl := hc
  · exact trivial
  · exact show (0 : Int64) < 1000200 by decide
  · exact trivial

/-! ## §3. When the ids are used up. -/

theorem find_eq_none_of_notMem (h : Inv added pending s) {addr : CNetAddr} (hnot : addr ∉ added) :
    s.find addr = none := by
  cases hfind : s.find addr with
  | none => rfl
  | some found =>
    obtain ⟨hinfo, hip⟩ := find_eq_some h hfind
    obtain ⟨n, -, hn⟩ := h.ids _ _ hinfo
    exact absurd (hip ▸ mem_of_getElem? hn) hnot

/-- The `i`-th of 2^31 addresses. -/
def manyIp (i : Nat) : CNetAddr := BitVec.ofNat 128 (0x2A * 2 ^ 120 + i)

theorem manyIp_toNat {i : Nat} (h : i < 2 ^ 31) : (manyIp i).toNat = 0x2A * 2 ^ 120 + i := by
  rw [manyIp, BitVec.toNat_ofNat]
  omega

theorem manyIp_inj {i j : Nat} (hi : i < 2 ^ 31) (hj : j < 2 ^ 31) (h : manyIp i = manyIp j) :
    i = j := by
  have hnat := congrArg BitVec.toNat h
  rw [manyIp_toNat hi, manyIp_toNat hj] at hnat
  omega

theorem manyIp_routable {i : Nat} (h : i < 2 ^ 31) : (manyIp i).isRoutable = true := by
  have hbyte : (manyIp i).getByte 15 = 0x2A := by
    have hdiv : (0x2A * 2 ^ 120 + i) / 2 ^ (8 * 15) = 0x2A := by omega
    rw [CNetAddr.getByte, manyIp_toNat h, Nat.shiftRight_eq_div_pow, hdiv]
    rfl
  have hbytes : (manyIp i).bytes = 0x2A :: (manyIp i).bytes.tail := by
    rw [← hbyte]
    rfl
  -- no special range begins with the byte 0x2A
  have hstarts : ∀ c pch, c ≠ 0x2A → (manyIp i).startsWith (c :: pch) = false := by
    intro c pch hc
    rw [CNetAddr.startsWith, hbytes, isPrefixOf_cons_cons, beq_false_of_ne hc, Bool.false_and]
  have hprivate : (manyIp i).isRFC4193 = false := by
    rw [CNetAddr.isRFC4193, hbyte]
    rfl
  simp [CNetAddr.isRoutable, CNetAddr.isValid, CNetAddr.isLocal, CNetAddr.isRFC1918,
    CNetAddr.isRFC3849, CNetAddr.isRFC3927, CNetAddr.isRFC4843, CNetAddr.isRFC4862,
    CNetAddr.isIPv4, CNetAddr.pchIPv4, replicate, hprivate, hstarts]

/-- `Add` of the `i`-th address. -/
def addMany (i : Nat) : AddrManCall :=
  .add (fun _ => 0) 1000100 ⟨⟨manyIp i, 31000⟩, 1, 1000000, 0⟩ (manyIp 0) 0

theorem manyIp_notMem {n : Nat} (hn : n < 2 ^ 31) : manyIp n ∉ (range n).map manyIp := by
  intro hin
  obtain ⟨i, hi, heq⟩ := mem_map.mp hin
  have hlt := mem_range.mp hi
  have hin := manyIp_inj (by omega) hn heq
  omega

/-- Every one of the first addresses gets an id. -/
theorem addMany_spec {n : Nat} (hn : n < 2 ^ 31) :
    Returns (((range n).map addMany).foldlM (call H) (empty []))
      (Inv ((range n).map manyIp) fun _ => 0) := by
  induction n with
  | zero => exact .ok (inv_empty [])
  | succ n ih =>
    rw [range_succ, map_append, foldlM_append, map_append]
    refine (ih (by omega)).bind fun s h => ?_
    have hfind := find_eq_none_of_notMem h (manyIp_notMem (n := n) (by omega))
    have hadd := addNew_spec H (fun _ => 0) 1000100 h ⟨⟨manyIp n, 31000⟩, 1, 1000000, 0⟩
      (manyIp 0) 0 (manyIp_routable (by omega)) hfind (by simpa using hn)
    obtain ⟨r, hr, h'⟩ := hadd
    refine ⟨r.2, ?_, h'⟩
    rw [map_singleton, foldlM_cons, addMany, call, hr]
    rfl

/-- The last of 2^31 addresses gets none: the table that was empty is lost. -/
theorem addrMan_overflow :
    let calls := (range (2 ^ 31)).map addMany
    (∀ c ∈ calls, c.TimePositive) ∧
      ∀ H : Hashes, ¬ Returns (calls.foldlM (call H) (empty [])) fun s => Check s ∧ Sized s := by
  intro calls
  refine ⟨fun c hc => ?_, fun H hret => ?_⟩
  · obtain ⟨i, -, rfl⟩ := mem_map.mp hc
    exact trivial
  · obtain ⟨n, hn⟩ : ∃ n, 2 ^ 31 = n + 1 := ⟨2 ^ 31 - 1, by norm_num⟩
    have hcalls : calls = (range n).map addMany ++ [addMany n] := by
      simp only [calls, hn, range_succ, map_append, map_singleton]
    obtain ⟨s, hs, h⟩ := addMany_spec H (n := n) (by omega)
    have hfind := find_eq_none_of_notMem h (manyIp_notMem (n := n) (by omega))
    have hlast := addNew_last H (fun _ => 0) 1000100 h ⟨⟨manyIp n, 31000⟩, 1, 1000000, 0⟩
      (manyIp 0) 0 (manyIp_routable (by omega)) hfind (by rw [length_map, length_range, hn])
    rw [hcalls, foldlM_append, hs, ok_bind, foldlM_cons, addMany, call, hlast] at hret
    obtain ⟨_, hret, -⟩ := hret
    cases hret

end CAddrMan

end Fantom.Net
