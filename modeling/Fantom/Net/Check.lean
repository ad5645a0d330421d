/-
  Fantom.Net.Check — What `Check_` tests of the table of peers, and what carries it through a call.

  * `Inv` — what carries the tests through a call, also while an entry is between two of the
    structures (`pending`),
  * `Inv.check` — between two calls the tests are true.
-/
import Fantom.Lib.Buckets
import Fantom.Lib.Positions
import Fantom.Net.AddrMan

namespace Fantom.Net

open Core Lib List Function Std.ExtTreeSet

namespace CAddrMan

/-! ## §1. The tests. -/

def field {α : Type} (s : CAddrMan) (f : CAddrInfo → α) (nId : Int) : Option α :=
  (s.mapInfo[nId]?).map f

/-- The tests of `Check_` on one entry. -/
structure EntryOk (info : CAddrInfo) : Prop where
  nLastTry : 0 ≤ info.nLastTry
  nLastSuccess : 0 ≤ info.nLastSuccess
  tried : info.fInTried = true → info.nLastSuccess ≠ 0 ∧ info.nRefCount = 0
  new : info.fInTried = false →
    1 ≤ info.nRefCount ∧ info.nRefCount ≤ ADDRMAN_NEW_BUCKETS_PER_ADDRESS

/-- **What `Check_` tests**, with the bijections that it tests one way. -/
structure Check (s : CAddrMan) : Prop where
  entry : ∀ (nId : Int) (info : CAddrInfo), s.mapInfo[nId]? = some info → EntryOk info
  /-- `nRandomPos` is the inverse of `vRandom`. -/
  random : ∀ (nId p : Int),
    (∃ info : CAddrInfo, s.mapInfo[nId]? = some info ∧ info.nRandomPos = p) ↔
      0 ≤ p ∧ s.vRandom[p.toNat]? = some nId
  /-- `mapAddr` is the inverse of the addresses of the entries. -/
  addr : ∀ (addr : CNetAddr) (nId : Int), s.mapAddr[addr]? = some nId ↔
    ∃ info, s.mapInfo[nId]? = some info ∧ info.ip = addr
  /-- The tried entries are those in the tried buckets, each in one, once. -/
  tried : Once s.vvTried fun nId => ∃ info, s.mapInfo[nId]? = some info ∧ info.fInTried = true
  /-- An entry is counted for every new bucket that it is in. -/
  new : ∀ (nId : Int) (info : CAddrInfo), s.mapInfo[nId]? = some info →
    info.nRefCount = bucketsWith s.vvNew nId
  inNew : ∀ b, ∀ nId ∈ s.vvNew b, ∃ info, s.mapInfo[nId]? = some info ∧ info.fInTried = false
  nTried : s.nTried = (s.mapInfo.toList.countP fun item => item.2.fInTried : Nat)
  nNew : s.nNew = (s.mapInfo.toList.countP fun item => !item.2.fInTried : Nat)
  size : (s.vRandom.length : Int) = s.nTried + s.nNew

/-- No bucket holds more than its size. -/
structure Sized (s : CAddrMan) : Prop where
  tried : ∀ b, (s.vvTried b).length ≤ ADDRMAN_TRIED_BUCKET_SIZE
  new : ∀ b, (s.vvNew b).size ≤ ADDRMAN_NEW_BUCKET_SIZE

/-! ## §2. The invariant. -/

/-- The invariant: `added` are the addresses that got an id, in the order of the ids, and
`pending nId` is by how much the count of an entry is ahead of the buckets. -/
structure Inv (added : List CNetAddr) (pending : Int → Nat) (s : CAddrMan) : Prop where
  nIdCount : s.nIdCount.toInt = added.length
  ids : ∀ (nId : Int) (info : CAddrInfo), s.mapInfo[nId]? = some info →
    ∃ n : Nat, nId = n ∧ added[n]? = some info.ip
  entry : ∀ (nId : Int) (info : CAddrInfo), s.mapInfo[nId]? = some info → EntryOk info
  random : Positions s.vRandom (s.field CAddrInfo.nRandomPos)
  addr : ∀ (addr : CNetAddr) (nId : Int),
    s.mapAddr[addr]? = some nId ↔ s.field (fun info => info.ip) nId = some addr
  tried : Once s.vvTried fun nId => s.field CAddrInfo.fInTried nId = some true
  refs : ∀ nId r, s.field CAddrInfo.nRefCount nId = some r →
    r = ((holders s.vvNew nId).card + pending nId : Nat)
  inNew : ∀ b, ∀ nId ∈ s.vvNew b, nId ∈ s.mapInfo
  nTried : s.nTried = (∑ b, (s.vvTried b).length : Nat)
  total : (s.vRandom.length : Int) = s.nTried + s.nNew
  triedSize : ∀ b, (s.vvTried b).length ≤ ADDRMAN_TRIED_BUCKET_SIZE
  newSize : ∀ b, (s.vvNew b).size ≤ ADDRMAN_NEW_BUCKET_SIZE

theorem inv_empty (nKey : List UInt8) : Inv [] (fun _ => 0) (empty nKey) where
  nIdCount := rfl
  ids _ _ h := by simp [empty] at h
  entry _ _ h := by simp [empty] at h
  random := by
    have h : (empty nKey).field CAddrInfo.nRandomPos = fun _ => none := by
      funext n
      simp [field, empty]
    rw [h]
    exact Positions.empty
  addr _ _ := by simp [field, empty]
  tried := Once.empty.congr fun _ => by simp [field, empty]
  refs _ _ h := by simp [field, empty] at h
  inNew _ _ h := absurd h not_mem_empty
  nTried := by simp [empty]
  total := rfl
  triedSize _ := Nat.zero_le _
  newSize _ := by simp [empty]

variable {m : Int} {α : Type} {s' : CAddrMan} {b : Fin ADDRMAN_NEW_BUCKET_COUNT} {f : CAddrInfo → α}
  {old : CAddrInfo} {vv : Fin ADDRMAN_NEW_BUCKET_COUNT → StdSet Int}

section

variable {s : CAddrMan} {added : List CNetAddr} {pending : Int → Nat} {nId : Int} {info : CAddrInfo}

@[simp] theorem mapInfo_setInfo_self : (s.setInfo nId info).mapInfo[nId]? = some info :=
  StdMap.get_insert_self _ _ _

theorem mapInfo_setInfo_ne (h : nId ≠ m) :
    (s.setInfo nId info).mapInfo[m]? = s.mapInfo[m]? :=
  StdMap.get_insert_ne _ _ h

theorem mapInfo_setInfo (m : Int) :
    (s.setInfo nId info).mapInfo[m]? = if m = nId then some info else s.mapInfo[m]? := by
  show (s.mapInfo.insert nId info)[m]? = _
  rw [StdMap.get_insert]
  simp only [eq_comm]

/-- The fields of a table where one entry was written. -/
theorem field_written (f : CAddrInfo → α)
    (hmap : ∀ m : Int, s'.mapInfo[m]? = if m = nId then some info else s.mapInfo[m]?) :
    s'.field f = update (s.field f) nId (some (f info)) := by
  funext m
  rw [field, hmap]
  by_cases hm : m = nId
  · rw [if_pos hm, hm, update_self, Option.map_some]
  · rw [if_neg hm, update_of_ne hm, field]

theorem field_setInfo (f : CAddrInfo → α) :
    (s.setInfo nId info).field f = update (s.field f) nId (some (f info)) :=
  field_written f mapInfo_setInfo

theorem field_eq (f : CAddrInfo → α) (h : s.mapInfo[nId]? = some info) :
    s.field f nId = some (f info) := by
  rw [field, h, Option.map_some]

theorem field_setInfo_of_eq (h : s.mapInfo[nId]? = some old) (hf : f info = f old) :
    (s.setInfo nId info).field f = s.field f := by
  rw [field_setInfo, hf, ← field_eq f h, update_eq_self]

theorem field_setInfo_nRefCount (f : CAddrInfo → α)
    (h : s.mapInfo[nId]? = some info) (n : Int)
    (hf : f { info with nRefCount := n } = f info) :
    (s.setInfo nId { info with nRefCount := n }).field f = s.field f :=
  field_setInfo_of_eq h hf

theorem mem_mapInfo_iff : nId ∈ s.mapInfo ↔ ∃ info, s.mapInfo[nId]? = some info := by
  rw [Std.ExtTreeMap.mem_iff_isSome_getElem?, Option.isSome_iff_exists]

theorem mem_mapInfo_setInfo :
    m ∈ (s.setInfo nId info).mapInfo ↔ m = nId ∨ m ∈ s.mapInfo := by
  show m ∈ s.mapInfo.insert nId info ↔ _
  rw [Std.ExtTreeMap.mem_insert, Int.compare_eq_eq, eq_comm]

theorem infoAt_eq (h : s.mapInfo[nId]? = some info) : s.infoAt nId = .ok info := by
  rw [infoAt, h]

theorem Inv.ids_of_field (h : Inv added pending s)
    (hf : s'.field (fun info => info.ip) = s.field fun info => info.ip) (m : Int) (i : CAddrInfo)
    (hm : s'.mapInfo[m]? = some i) : ∃ n : Nat, m = n ∧ added[n]? = some i.ip := by
  have hold : (s.mapInfo[m]?).map (fun info => info.ip) = some i.ip :=
    (congrFun hf m).symm.trans (field_eq _ hm)
  obtain ⟨old, hget, hip⟩ := Option.map_eq_some_iff.mp hold
  exact hip ▸ h.ids m old hget

theorem Inv.ids_setInfo (h : Inv added pending s) (hold : s.mapInfo[nId]? = some old)
    (hip : info.ip = old.ip) (m : Int) (i : CAddrInfo)
    (hm : (s.setInfo nId info).mapInfo[m]? = some i) : ∃ n : Nat, m = n ∧ added[n]? = some i.ip :=
  h.ids_of_field (field_setInfo_of_eq hold hip) m i hm

/-- An id that is there has been counted. -/
theorem Inv.id_lt (h : Inv added pending s) (hinfo : s.mapInfo[nId]? = some info) :
    0 ≤ nId ∧ nId < added.length := by
  obtain ⟨n, rfl, hn⟩ := h.ids nId info hinfo
  exact ⟨Int.natCast_nonneg n, Int.ofNat_lt.mpr (List.getElem?_eq_some_iff.mp hn).1⟩

/-- The next id is not there. -/
theorem Inv.next_none (h : Inv added pending s) : s.mapInfo[(added.length : Int)]? = none := by
  by_contra hsome
  obtain ⟨i, hi⟩ := Option.ne_none_iff_exists'.mp hsome
  exact absurd (h.id_lt hi).2 (lt_irrefl _)

/-- **The next id**, where there is one. -/
theorem takeId_eq {n : Nat} (h : s.nIdCount.toInt = n) (hlt : n + 1 < 2 ^ 31) :
    s.takeId = .ok (n, { s with nIdCount := s.nIdCount + 1 }) ∧
      (s.nIdCount + 1).toInt = (n + 1 : Nat) := by
  have hne : s.nIdCount ≠ Int32.maxValue := by
    intro hmax
    rw [hmax, Int32.toInt_maxValue] at h
    omega
  rw [takeId, if_neg hne, h]
  refine ⟨rfl, ?_⟩
  rw [Int32.toInt_add, h, Int32.toInt_one, Int.bmod_eq_of_le (by omega) (by omega)]
  rfl

/-- There is none after the largest `int`. -/
theorem takeId_last (h : s.nIdCount.toInt = 2 ^ 31 - 1) : s.takeId = .error .overflow :=
  if_pos (Int32.toInt_inj.mp (h.trans Int32.toInt_maxValue.symm))

theorem Inv.entry_setInfo (h : Inv added pending s) (hentry : EntryOk info) (m : Int) (i : CAddrInfo)
    (hm : (s.setInfo nId info).mapInfo[m]? = some i) : EntryOk i := by
  by_cases hne : nId = m
  · subst hne
    obtain rfl := Option.some.inj (mapInfo_setInfo_self.symm.trans hm)
    exact hentry
  · exact h.entry m i ((mapInfo_setInfo_ne hne).symm.trans hm)

/-- **New statistics** of an entry keep the invariant. -/
theorem inv_setInfo (h : Inv added pending s) (hold : s.mapInfo[nId]? = some old)
    (hentry : EntryOk info) (hpos : info.nRandomPos = old.nRandomPos) (hip : info.ip = old.ip)
    (htried : info.fInTried = old.fInTried) (hrefs : info.nRefCount = old.nRefCount) :
    Inv added pending (s.setInfo nId info) where
  nIdCount := h.nIdCount
  ids := h.ids_setInfo hold hip
  entry := h.entry_setInfo hentry
  random := by
    rw [field_setInfo_of_eq hold hpos]
    exact h.random
  addr := by
    rw [field_setInfo_of_eq hold hip]
    exact h.addr
  tried := by
    rw [field_setInfo_of_eq hold htried]
    exact h.tried
  refs := by
    rw [field_setInfo_of_eq hold hrefs]
    exact h.refs
  inNew b m hm := mem_mapInfo_setInfo.mpr (.inr (h.inNew b m hm))
  nTried := h.nTried
  total := h.total
  triedSize := h.triedSize
  newSize := h.newSize

/-! ## §3. Entries in random order. -/

/-- The table `s'` is `s` with its entries in another order. -/
structure Shuffled (s s' : CAddrMan) : Prop where
  rest : s' = { s with mapInfo := s'.mapInfo, vRandom := s'.vRandom }
  random : Positions s'.vRandom (s'.field CAddrInfo.nRandomPos)
  length : s'.vRandom.length = s.vRandom.length
  entry : ∀ (m : Int), (s'.mapInfo[m]?).map (fun info => { info with nRandomPos := 0 }) =
    (s.mapInfo[m]?).map fun info => { info with nRandomPos := 0 }

theorem Shuffled.field_eq (h : Shuffled s s')
    (hf : ∀ info : CAddrInfo, f { info with nRandomPos := 0 } = f info) : s'.field f = s.field f := by
  funext m
  have hmap := congrArg (Option.map f) (h.entry m)
  simp only [Option.map_map, Function.comp_def, hf] at hmap
  exact hmap

theorem Shuffled.exists_entry (h : Shuffled s s') {i' : CAddrInfo} (hm : s'.mapInfo[m]? = some i') :
    ∃ i : CAddrInfo, s.mapInfo[m]? = some i ∧
      ({ i' with nRandomPos := 0 } : CAddrInfo) = { i with nRandomPos := 0 } := by
  have hmap := h.entry m
  rw [hm, Option.map_some, eq_comm, Option.map_eq_some_iff] at hmap
  obtain ⟨i, hi, heq⟩ := hmap
  exact ⟨i, hi, heq.symm⟩

theorem Shuffled.mem_iff (h : Shuffled s s') :
    m ∈ s'.mapInfo ↔ m ∈ s.mapInfo := by
  have hmap := congrArg Option.isSome (h.entry m)
  rw [Option.isSome_map, Option.isSome_map] at hmap
  rw [Std.ExtTreeMap.mem_iff_isSome_getElem?, Std.ExtTreeMap.mem_iff_isSome_getElem?, hmap]

theorem EntryOk.shuffle {i i' : CAddrInfo} (h : EntryOk i)
    (heq : ({ i' with nRandomPos := 0 } : CAddrInfo) = { i with nRandomPos := 0 }) :
    EntryOk i' := by
  have h₁ : i'.nLastTry = i.nLastTry := (CAddrInfo.mk.inj heq).1 |> congrArg CAddress.nLastTry
  obtain ⟨-, -, h₂, -, h₃, h₄, -⟩ := CAddrInfo.mk.inj heq
  exact ⟨h₁ ▸ h.nLastTry, h₂ ▸ h.nLastSuccess, h₂ ▸ h₃ ▸ h₄ ▸ h.tried, h₃ ▸ h₄ ▸ h.new⟩

theorem inv_shuffled (h : Inv added pending s) (hs : Shuffled s s') : Inv added pending s' := by
  have htried : s'.vvTried = s.vvTried := by rw [hs.rest]
  have hnew : s'.vvNew = s.vvNew := by rw [hs.rest]
  constructor
  case nIdCount =>
    rw [hs.rest]
    exact h.nIdCount
  case ids =>
    intro m i' hm
    exact h.ids_of_field (hs.field_eq fun _ => rfl) m i' hm
  case entry =>
    intro m i' hm
    obtain ⟨i, hi, heq⟩ := hs.exists_entry hm
    exact (h.entry m i hi).shuffle heq
  case random => exact hs.random
  case addr =>
    have hmap : s'.mapAddr = s.mapAddr := by rw [hs.rest]
    rw [hs.field_eq fun _ => rfl, hmap]
    exact h.addr
  case tried =>
    rw [hs.field_eq fun _ => rfl, htried]
    exact h.tried
  case refs =>
    rw [hs.field_eq fun _ => rfl, hnew]
    exact h.refs
  case inNew =>
    intro b m hm
    rw [hnew] at hm
    exact hs.mem_iff.mpr (h.inNew b m hm)
  case nTried =>
    have hn : s'.nTried = s.nTried := by rw [hs.rest]
    rw [htried, hn]
    exact h.nTried
  case total =>
    have hn : s'.nTried = s.nTried := by rw [hs.rest]
    have hn' : s'.nNew = s.nNew := by rw [hs.rest]
    rw [hs.length, hn, hn']
    exact h.total
  case triedSize =>
    rw [htried]
    exact h.triedSize
  case newSize =>
    rw [hnew]
    exact h.newSize

theorem Shuffled.refl (h : Positions s.vRandom (s.field CAddrInfo.nRandomPos)) : Shuffled s s where
  rest := rfl
  random := h
  length := rfl
  entry _ := rfl

theorem randomAt_eq {p : Int} (h : 0 ≤ p) (hget : s.vRandom[p.toNat]? = some nId) :
    s.randomAt p = .ok nId := by
  rw [randomAt, if_neg (by omega), hget]

/-- **`SwapRandom`** at positions that are in range. -/
theorem swapRandom_spec (h : Positions s.vRandom (s.field CAddrInfo.nRandomPos)) {p q : Int}
    (hp : 0 ≤ p) (hpl : p < s.vRandom.length) (hq : 0 ≤ q) (hql : q < s.vRandom.length) :
    Returns (s.swapRandom p q) fun s' =>
      Shuffled s s' ∧ s'.vRandom[q.toNat]? = s.vRandom[p.toNat]? := by
  by_cases hpq : p = q
  · subst hpq
    rw [swapRandom, if_pos rfl]
    exact .ok ⟨.refl h, rfl⟩
  -- the two ids, and their entries
  have hget₁ := List.getElem?_eq_getElem (l := s.vRandom) (i := p.toNat) (by omega)
  have hget₂ := List.getElem?_eq_getElem (l := s.vRandom) (i := q.toNat) (by omega)
  generalize s.vRandom[p.toNat] = a at hget₁
  generalize s.vRandom[q.toNat] = b at hget₂
  have hpos₁ : s.field CAddrInfo.nRandomPos a = some p := (h a p).mpr ⟨hp, hget₁⟩
  have hpos₂ : s.field CAddrInfo.nRandomPos b = some q := (h b q).mpr ⟨hq, hget₂⟩
  obtain ⟨info₁, hinfo₁, hp₁⟩ := Option.map_eq_some_iff.mp hpos₁
  obtain ⟨info₂, hinfo₂, hp₂⟩ := Option.map_eq_some_iff.mp hpos₂
  have hab : a ≠ b := by
    rintro rfl
    rw [hpos₁] at hpos₂
    exact hpq (Option.some.inj hpos₂)
  have hinfo₂' : (s.setInfo a { info₁ with nRandomPos := q }).mapInfo[b]? = some info₂ := by
    rw [mapInfo_setInfo_ne hab, hinfo₂]
  rw [swapRandom, if_neg hpq, randomAt_eq hp hget₁, ok_bind, randomAt_eq hq hget₂, ok_bind,
    infoAt_eq hinfo₁, ok_bind]
  simp only
  rw [infoAt_eq hinfo₂', ok_bind]
  refine .ok ⟨⟨rfl, ?_, ?_, ?_⟩, ?_⟩
  · show Positions ((s.vRandom.set p.toNat b).set q.toNat a) (CAddrMan.field
      ((s.setInfo a { info₁ with nRandomPos := q }).setInfo b { info₂ with nRandomPos := p })
      CAddrInfo.nRandomPos)
    rw [field_setInfo, field_setInfo]
    exact h.swap hpos₁ hpos₂ hpq
  · show ((s.vRandom.set p.toNat b).set q.toNat a).length = s.vRandom.length
    rw [length_set, length_set]
  · intro m
    show (((s.setInfo a { info₁ with nRandomPos := q }).setInfo b
      { info₂ with nRandomPos := p }).mapInfo[m]?).map _ = _
    by_cases hmb : b = m
    · subst hmb
      rw [mapInfo_setInfo_self, hinfo₂]
      rfl
    · rw [mapInfo_setInfo_ne hmb]
      by_cases hma : a = m
      · subst hma
        rw [mapInfo_setInfo_self, hinfo₁]
        rfl
      · rw [mapInfo_setInfo_ne hma]
  · show ((s.vRandom.set p.toNat b).set q.toNat a)[q.toNat]? = s.vRandom[p.toNat]?
    rw [List.getElem?_set_self (by rw [length_set]; omega), hget₁]

/-! ## §4. New buckets. -/

theorem field_erase (f : CAddrInfo → α) (vRandom : List Int) (mapAddr : StdMap CNetAddr Int)
    (vvNew : Fin ADDRMAN_NEW_BUCKET_COUNT → StdSet Int) (nNew : Int) :
    CAddrMan.field { s with
      mapInfo := s.mapInfo.erase nId
      vRandom := vRandom
      mapAddr := mapAddr
      vvNew := vvNew
      nNew := nNew } f = update (s.field f) nId none := by
  funext m
  show ((s.mapInfo.erase nId)[m]?).map f = _
  rw [StdMap.get_erase]
  by_cases hm : m = nId
  · rw [if_pos hm.symm, hm, update_self]
    rfl
  · rw [if_neg (Ne.symm hm), update_of_ne hm]
    rfl

theorem Inv.new_entry (h : Inv added pending s) (hin : nId ∈ s.vvNew b)
    (hinfo : s.mapInfo[nId]? = some info) :
    info.fInTried = false ∧ info.nRefCount = ((holders s.vvNew nId).card + pending nId : Nat) ∧
      0 < (holders s.vvNew nId).card := by
  have hcount := h.refs nId _ (field_eq _ hinfo)
  have hpos : 0 < (holders s.vvNew nId).card := Finset.card_pos.mpr ⟨b, mem_holders.mpr hin⟩
  refine ⟨?_, hcount, hpos⟩
  by_contra htried
  have hzero := ((h.entry nId info hinfo).tried (by simpa using htried)).2
  omega

theorem mem_update_erase {b' : Fin ADDRMAN_NEW_BUCKET_COUNT} :
    m ∈ update vv b ((vv b).erase nId) b' ↔ m ∈ vv b' ∧ (b' = b → m ≠ nId) := by
  by_cases hb : b' = b
  · subst hb
    rw [update_self, mem_erase, ne_eq, Int.compare_eq_eq, and_comm]
    simp [eq_comm]
  · rw [update_of_ne hb]
    simp [hb]

theorem size_update_erase_le (hsize : ∀ b, (vv b).size ≤ ADDRMAN_NEW_BUCKET_SIZE)
    (b b' : Fin ADDRMAN_NEW_BUCKET_COUNT) :
    (update vv b ((vv b).erase nId) b').size ≤ ADDRMAN_NEW_BUCKET_SIZE := by
  by_cases hb : b' = b
  · subst hb
    rw [update_self]
    exact le_trans size_erase_le (hsize b')
  · rw [update_of_ne hb]
    exact hsize b'

/-- **Another count** of an entry, with the new buckets that go with it. -/
theorem inv_setRefs {pending' : Int → Nat} {n : Int} (h : Inv added pending s)
    (hinfo : s.mapInfo[nId]? = some info) (htried : info.fInTried = false)
    (hn : 1 ≤ n ∧ n ≤ ADDRMAN_NEW_BUCKETS_PER_ADDRESS)
    (hself : n = ((holders vv nId).card + pending' nId : Nat))
    (hother : ∀ m ≠ nId, (holders vv m).card + pending' m = (holders s.vvNew m).card + pending m)
    (hin : ∀ b, ∀ m ∈ vv b, m ∈ s.mapInfo) (hsize : ∀ b, (vv b).size ≤ ADDRMAN_NEW_BUCKET_SIZE) :
    Inv added pending' { s.setInfo nId { info with nRefCount := n } with vvNew := vv } := by
  have hentry := h.entry nId info hinfo
  have hentry' : EntryOk { info with nRefCount := n } :=
    ⟨hentry.nLastTry, hentry.nLastSuccess,
      fun ht => absurd (htried.symm.trans ht) Bool.false_ne_true, fun _ => hn⟩
  constructor
  case nIdCount => exact h.nIdCount
  case ids => exact h.ids_setInfo hinfo rfl
  case entry => exact h.entry_setInfo hentry'
  case random =>
    show Positions s.vRandom (CAddrMan.field (s.setInfo nId _) CAddrInfo.nRandomPos)
    rw [field_setInfo_nRefCount CAddrInfo.nRandomPos hinfo n rfl]
    exact h.random
  case addr =>
    intro a m
    show s.mapAddr[a]? = some m ↔ CAddrMan.field (s.setInfo nId _) _ m = some a
    rw [field_setInfo_nRefCount (fun info => info.ip) hinfo n rfl]
    exact h.addr a m
  case tried =>
    show Once s.vvTried fun m => CAddrMan.field (s.setInfo nId _) CAddrInfo.fInTried m = some true
    rw [field_setInfo_nRefCount CAddrInfo.fInTried hinfo n rfl]
    exact h.tried
  case refs =>
    intro m r hr
    replace hr : CAddrMan.field (s.setInfo nId { info with nRefCount := n })
      CAddrInfo.nRefCount m = some r := hr
    show r = ((holders vv m).card + pending' m : Nat)
    rw [field_setInfo] at hr
    by_cases hm : m = nId
    · subst hm
      rw [update_self, Option.some_inj] at hr
      exact hr.symm.trans hself
    · rw [update_of_ne hm] at hr
      rw [hother m hm]
      exact h.refs m r hr
  case inNew => exact fun b m hm => mem_mapInfo_setInfo.mpr (.inr (hin b m hm))
  case nTried => exact h.nTried
  case total => exact h.total
  case triedSize => exact h.triedSize
  case newSize => exact hsize

theorem inv_leaveBucket (h : Inv added pending s) (hin : nId ∈ s.vvNew b)
    (hinfo : s.mapInfo[nId]? = some info) (hne : info.nRefCount ≠ 1) :
    Inv added pending { s.setInfo nId { info with nRefCount := info.nRefCount - 1 } with
      vvNew := update s.vvNew b ((s.vvNew b).erase nId) } := by
  obtain ⟨htried, hcount, hpos⟩ := h.new_entry hin hinfo
  have hnew := (h.entry nId info hinfo).new htried
  refine inv_setRefs h hinfo htried (by omega) ?_ (fun m hm => ?_)
    (fun b' m hm => h.inNew b' m (mem_update_erase.mp hm).1) (size_update_erase_le h.newSize b)
  · rw [holders_erase, if_pos rfl, Finset.card_erase_of_mem (mem_holders.mpr hin)]
    omega
  · rw [holders_erase, if_neg hm]

theorem inv_leaveTable (h : Inv added pending s)
    (hin : nId ∈ s.vvNew b) (hinfo : s.mapInfo[nId]? = some info) (hone : info.nRefCount = 1)
    (hpend : pending nId = 0)
    (hs : Shuffled (s.setInfo nId { info with nRefCount := info.nRefCount - 1 }) s')
    (hlast : s'.vRandom[s.vRandom.length - 1]? = some nId) :
    Inv added pending { s' with
      vRandom := s'.vRandom.dropLast
      mapAddr := s'.mapAddr.erase info.ip
      mapInfo := s'.mapInfo.erase nId
      nNew := s'.nNew - 1
      vvNew := update s'.vvNew b ((s'.vvNew b).erase nId) } := by
  obtain ⟨htried, hcount, hpos⟩ := h.new_entry hin hinfo
  have hcard : (holders s.vvNew nId).card = 1 := by omega
  -- what the swap has left as it was
  have hvv : s'.vvNew = s.vvNew := by rw [hs.rest]; rfl
  have hvt : s'.vvTried = s.vvTried := by rw [hs.rest]; rfl
  have hma : s'.mapAddr = s.mapAddr := by rw [hs.rest]; rfl
  have hid : s'.nIdCount = s.nIdCount := by rw [hs.rest]; rfl
  have hnt : s'.nTried = s.nTried := by rw [hs.rest]; rfl
  have hnn : s'.nNew = s.nNew := by rw [hs.rest]; rfl
  have hlen : s'.vRandom.length = s.vRandom.length := hs.length
  have hold : ∀ (m : Int) (i : CAddrInfo), (s'.mapInfo.erase nId)[m]? = some i → m ≠ nId ∧
      ∃ i₀, s.mapInfo[m]? = some i₀ ∧
        ({ i with nRandomPos := 0 } : CAddrInfo) = { i₀ with nRandomPos := 0 } := by
    intro m i hm
    rw [StdMap.get_erase] at hm
    split at hm
    · cases hm
    · rename_i hmn
      obtain ⟨i₀, hi₀, heq⟩ := hs.exists_entry hm
      rw [mapInfo_setInfo_ne hmn] at hi₀
      exact ⟨Ne.symm hmn, i₀, hi₀, heq⟩
  have hfield : ∀ {α : Type} (f : CAddrInfo → α),
      (∀ i : CAddrInfo, f { i with nRandomPos := 0 } = f i) → ∀ m ≠ nId,
        s'.field f m = s.field f m := by
    intro α f hf m hm
    rw [hs.field_eq hf, field_setInfo, update_of_ne hm]
  have hpos' : s'.field CAddrInfo.nRandomPos nId = some ((s'.vRandom.length : Int) - 1) := by
    refine (hs.random nId _).mpr ⟨?_, ?_⟩
    · have := (List.getElem?_eq_some_iff.mp hlast).1
      omega
    · rw [hlen, ← hlast]
      congr 1
      omega
  have hnonempty : 0 < s.vRandom.length := by
    have := (List.getElem?_eq_some_iff.mp hlast).1
    omega
  constructor
  case nIdCount =>
    show s'.nIdCount.toInt = added.length
    rw [hid]
    exact h.nIdCount
  case ids =>
    intro m i hm
    obtain ⟨-, i₀, hi₀, heq⟩ := hold m i hm
    have hip : i.ip = i₀.ip := congrArg (fun a : CAddress => a.ip) (CAddrInfo.mk.inj heq).1
    exact hip ▸ h.ids m i₀ hi₀
  case entry =>
    intro m i hm
    obtain ⟨-, i₀, hi₀, heq⟩ := hold m i hm
    exact (h.entry m i₀ hi₀).shuffle heq
  case random =>
    rw [field_erase]
    exact hs.random.pop hpos'
  case addr =>
    intro a m
    rw [field_erase]
    show (s'.mapAddr.erase info.ip)[a]? = some m ↔ _
    rw [StdMap.get_erase, hma]
    by_cases hm : m = nId
    · subst hm
      rw [update_self]
      refine iff_of_false ?_ nofun
      split
      · nofun
      · rename_i hne
        intro ha
        have := (h.addr a m).mp ha
        rw [field_eq _ hinfo] at this
        exact hne (Option.some.inj this)
    · rw [update_of_ne hm, hfield (fun info => info.ip) (fun _ => rfl) m hm]
      split
      · rename_i hip
        refine iff_of_false nofun fun hfm => hm ?_
        have h₁ := (h.addr a m).mpr hfm
        have h₂ := (h.addr a nId).mpr (by rw [field_eq _ hinfo, hip])
        exact Option.some.inj (h₁.symm.trans h₂)
      · exact h.addr a m
  case tried =>
    rw [field_erase, hvt]
    refine h.tried.congr fun m => ?_
    by_cases hm : m = nId
    · subst hm
      rw [update_self, field_eq _ hinfo, htried]
      simp
    · rw [update_of_ne hm, hfield CAddrInfo.fInTried (fun _ => rfl) m hm]
  case refs =>
    intro m r hr
    rw [field_erase] at hr
    by_cases hm : m = nId
    · subst hm
      rw [update_self] at hr
      cases hr
    · rw [update_of_ne hm, hfield CAddrInfo.nRefCount (fun _ => rfl) m hm] at hr
      show r = ((holders (update s'.vvNew b ((s'.vvNew b).erase nId)) m).card + _ : Nat)
      rw [holders_erase, if_neg hm, hvv]
      exact h.refs m r hr
  case inNew =>
    intro b' m hm
    obtain ⟨hmem, hne⟩ := mem_update_erase.mp hm
    rw [hvv] at hmem
    have hmn : m ≠ nId := by
      rintro rfl
      -- its only bucket is `b`
      obtain ⟨b₀, hb₀⟩ := Finset.card_eq_one.mp hcard
      have h₁ : b ∈ holders s.vvNew m := mem_holders.mpr hin
      have h₂ : b' ∈ holders s.vvNew m := mem_holders.mpr hmem
      rw [hb₀, Finset.mem_singleton] at h₁ h₂
      exact hne (h₂.trans h₁.symm) rfl
    show m ∈ s'.mapInfo.erase nId
    rw [Std.ExtTreeMap.mem_erase, ne_eq, Int.compare_eq_eq]
    exact ⟨Ne.symm hmn, hs.mem_iff.mpr (mem_mapInfo_setInfo.mpr (.inr (h.inNew b' m hmem)))⟩
  case nTried =>
    show s'.nTried = (∑ b, (s'.vvTried b).length : Nat)
    rw [hnt, hvt]
    exact h.nTried
  case total =>
    show (s'.vRandom.dropLast.length : Int) = s'.nTried + (s'.nNew - 1)
    have := h.total
    rw [length_dropLast, hlen, hnt, hnn]
    omega
  case triedSize =>
    show ∀ b, (s'.vvTried b).length ≤ _
    rw [hvt]
    exact h.triedSize
  case newSize =>
    show ∀ b', (update s'.vvNew b ((s'.vvNew b).erase nId) b').size ≤ _
    rw [hvv]
    exact size_update_erase_le h.newSize b

/-- **The chosen entry leaves the bucket**, and the table if it was its last. -/
theorem dropNew_spec (h : Inv added pending s) (hin : nId ∈ s.vvNew b) (hpend : pending nId = 0) :
    Returns (s.dropNew b nId) fun s' => Inv added pending s' ∧
      s'.vvNew = update s.vvNew b ((s.vvNew b).erase nId) ∧
      ∀ m ≠ nId, m ∈ s.mapInfo → m ∈ s'.mapInfo := by
  obtain ⟨info, hinfo⟩ := mem_mapInfo_iff.mp (h.inNew b nId hin)
  rw [dropNew, infoAt_eq hinfo, ok_bind]
  simp only
  by_cases hone : info.nRefCount = 1
  · have hzero : info.nRefCount - 1 = 0 := by omega
    rw [if_pos hzero]
    -- the entry moves to the end first
    have hfield := field_setInfo_nRefCount CAddrInfo.nRandomPos hinfo (info.nRefCount - 1) rfl
    have hrandom : Positions (s.setInfo nId { info with nRefCount := info.nRefCount - 1 }).vRandom
        ((s.setInfo nId { info with nRefCount := info.nRefCount - 1 }).field
          CAddrInfo.nRandomPos) := by
      rw [hfield]
      exact h.random
    obtain ⟨hp, hpl, hget⟩ := h.random.get (field_eq CAddrInfo.nRandomPos hinfo)
    refine ((swapRandom_spec hrandom hp hpl (q := s.vRandom.length - 1) (by omega)
      (by show (_ : Int) < s.vRandom.length; omega)).bind fun s' hs' => ?_)
    obtain ⟨hs, hlast⟩ := hs'
    have hlast' : s'.vRandom[s.vRandom.length - 1]? = some nId := by
      have heq : ((s.vRandom.length : Int) - 1).toNat = s.vRandom.length - 1 := by omega
      rw [heq] at hlast
      exact hlast.trans hget
    have hvv : s'.vvNew = s.vvNew := by rw [hs.rest]; rfl
    refine .ok ⟨inv_leaveTable h hin hinfo hone hpend hs hlast', ?_, ?_⟩
    · show update s'.vvNew b ((s'.vvNew b).erase nId) = _
      rw [hvv]
    · intro m hm hmem
      show m ∈ s'.mapInfo.erase nId
      rw [Std.ExtTreeMap.mem_erase, ne_eq, Int.compare_eq_eq]
      exact ⟨Ne.symm hm, hs.mem_iff.mpr (mem_mapInfo_setInfo.mpr (.inr hmem))⟩
  · have hzero : info.nRefCount - 1 ≠ 0 := by omega
    rw [if_neg hzero, ok_bind]
    refine .ok ⟨inv_leaveBucket h hin hinfo hone, rfl, ?_⟩
    exact fun m _ hmem => mem_mapInfo_setInfo.mpr (.inr hmem)

theorem findTerrible_spec (nNow : Int64) {l : List Int} (hl : ∀ n ∈ l, n ∈ s.mapInfo) :
    Returns (s.findTerrible nNow l) fun r => ∀ n, r = some n → n ∈ l := by
  induction l with
  | nil => exact .ok nofun
  | cons n rest ih =>
    obtain ⟨info, hinfo⟩ := mem_mapInfo_iff.mp (hl n mem_cons_self)
    rw [findTerrible, infoAt_eq hinfo, ok_bind]
    split
    · exact .ok fun m hm => Option.some.inj hm ▸ mem_cons_self
    · exact (ih fun m hm => hl m (mem_cons_of_mem _ hm)).mono
        fun r hr m hm => mem_cons_of_mem _ (hr m hm)

theorem oldest_spec {l : List Int} {n : List Nat} {k : Nat} (hk : k < l.length) (hkn : k ∈ n)
    (hl : ∀ m ∈ l, m ∈ s.mapInfo) :
    Returns (l.zipIdx.foldlM (s.olderOf n) (-1)) fun nOldest => nOldest ∈ l := by
  -- a member, or nothing yet with a position still to come
  have hloop : Returns (l.zipIdx.foldlM (s.olderOf n) (-1)) fun nOldest =>
      (∀ item ∈ ([] : List (Int × Nat)), item.1 ∈ l) ∧
        (nOldest ∈ l ∨ nOldest = -1 ∧ ∃ item ∈ ([] : List (Int × Nat)), item.2 ∈ n) := by
    refine Returns.foldlM (I := fun (rest : List (Int × Nat)) (nOldest : Int) =>
      (∀ item ∈ rest, item.1 ∈ l) ∧
        (nOldest ∈ l ∨ nOldest = -1 ∧ ∃ item ∈ rest, item.2 ∈ n)) ?_ ?_
    · rintro item rest nOldest ⟨hmem, hacc⟩
      have hitem : item.1 ∈ l := hmem item mem_cons_self
      have hrest : ∀ item ∈ rest, item.1 ∈ l := fun i hi => hmem i (mem_cons_of_mem _ hi)
      rw [olderOf]
      by_cases hn : n.contains item.2 = true
      · rw [if_pos hn]
        by_cases hnone : nOldest = -1
        · rw [if_pos hnone]
          exact .ok ⟨hrest, .inl hitem⟩
        · have hold : nOldest ∈ l := hacc.resolve_right fun h => hnone h.1
          obtain ⟨info, hinfo⟩ := mem_mapInfo_iff.mp (hl item.1 hitem)
          obtain ⟨infoOldest, hinfoOldest⟩ := mem_mapInfo_iff.mp (hl nOldest hold)
          rw [if_neg hnone, infoAt_eq hinfo, ok_bind, infoAt_eq hinfoOldest, ok_bind]
          split
          · exact .ok ⟨hrest, .inl hitem⟩
          · exact .ok ⟨hrest, .inl hold⟩
      · rw [if_neg hn]
        refine .ok ⟨hrest, hacc.imp_right ?_⟩
        rintro ⟨hnone, i, hi, hin⟩
        refine ⟨hnone, i, ?_, hin⟩
        rcases mem_cons.mp hi with rfl | hi
        · exact absurd (contains_iff_mem.mpr hin) hn
        · exact hi
    · refine ⟨fun item hitem => ?_, .inr ⟨rfl, (l[k], k), ?_, hkn⟩⟩
      · have hget := mem_zipIdx hitem
        rw [hget.2.2]
        exact getElem_mem _
      · rw [mem_zipIdx_iff_getElem?]
        exact List.getElem?_eq_getElem hk
  refine hloop.mono fun nOldest h => h.2.resolve_right ?_
  rintro ⟨-, item, hitem, -⟩
  exact absurd hitem not_mem_nil

/-- **`ShrinkNew`** takes one entry from a bucket that is not empty. -/
theorem shrinkNew_spec (rnd : Nat → Nat) (nNow : Int64) (h : Inv added pending s)
    (hsize : 0 < (s.vvNew b).size) (hpend : ∀ n ∈ s.vvNew b, pending n = 0) :
    Returns (s.shrinkNew rnd nNow b) fun s' => ∃ n ∈ s.vvNew b, Inv added pending s' ∧
      s'.vvNew = update s.vvNew b ((s.vvNew b).erase n) ∧
      ∀ m ≠ n, m ∈ s.mapInfo → m ∈ s'.mapInfo := by
  have hmem : ∀ n ∈ (s.vvNew b).toList, n ∈ s.mapInfo :=
    fun n hn => h.inNew b n (mem_toList.mp hn)
  have hlen : 0 < (s.vvNew b).toList.length := by
    rw [length_toList]
    exact hsize
  have hdrop : ∀ n ∈ (s.vvNew b).toList, Returns (s.dropNew b n) fun s' =>
      ∃ n ∈ s.vvNew b, Inv added pending s' ∧
        s'.vvNew = update s.vvNew b ((s.vvNew b).erase n) ∧
        ∀ m ≠ n, m ∈ s.mapInfo → m ∈ s'.mapInfo := by
    intro n hn
    have hn' := mem_toList.mp hn
    exact (dropNew_spec h hn' (hpend n hn')).mono fun s' hs' => ⟨n, hn', hs'⟩
  rw [shrinkNew]
  refine (findTerrible_spec nNow hmem).bind fun r hr => ?_
  cases r with
  | some n => exact hdrop n (hr n rfl)
  | none =>
    refine (oldest_spec (getRandInt_lt (rnd 0) hlen) ?_ hmem).bind hdrop
    exact mem_map.mpr ⟨0, by simp, rfl⟩

def single (nId : Int) : Int → Nat := fun n => if n = nId then 1 else 0

theorem inv_joinBucket (h : Inv added (single nId) s) (hin : nId ∈ s.mapInfo)
    (hnot : nId ∉ s.vvNew b) (hsize : (s.vvNew b).size < ADDRMAN_NEW_BUCKET_SIZE) :
    Inv added (fun _ => 0) { s with
      vvNew := update s.vvNew b ((s.vvNew b).insert nId) } where
  nIdCount := h.nIdCount
  ids := h.ids
  entry := h.entry
  random := h.random
  addr := h.addr
  tried := h.tried
  refs m r hr := by
    have hcount := h.refs m r hr
    show r = ((holders (update s.vvNew b ((s.vvNew b).insert nId)) m).card + 0 : Nat)
    rw [holders_insert]
    unfold single at hcount
    by_cases hm : m = nId
    · rw [if_pos hm] at hcount ⊢
      rw [hm] at hcount ⊢
      rw [Finset.card_insert_of_notMem fun hb => hnot (mem_holders.mp hb)]
      exact hcount
    · rw [if_neg hm] at hcount ⊢
      exact hcount
  inNew b' m hm := by
    by_cases hb : b' = b
    · subst hb
      replace hm : m ∈ update s.vvNew b' ((s.vvNew b').insert nId) b' := hm
      rw [update_self, mem_insert, Int.compare_eq_eq] at hm
      rcases hm with rfl | hm
      · exact hin
      · exact h.inNew b' m hm
    · replace hm : m ∈ update s.vvNew b ((s.vvNew b).insert nId) b' := hm
      rw [update_of_ne hb] at hm
      exact h.inNew b' m hm
  nTried := h.nTried
  total := h.total
  triedSize := h.triedSize
  newSize b' := by
    show (update s.vvNew b ((s.vvNew b).insert nId) b').size ≤ _
    by_cases hb : b' = b
    · subst hb
      rw [update_self]
      have := size_insert_le (t := s.vvNew b') (k := nId)
      omega
    · rw [update_of_ne hb]
      exact h.newSize b'

variable (H : Hashes)

/-- **The end of `Add_`**: the count goes up, and the entry joins the bucket. -/
theorem joinBucket_spec (rnd : Nat → Nat) (nNow : Int64) (source : CNetAddr)
    (hthere : nId ∈ s.vvNew (info.getNewBucket H s.nKey source) → Inv added (fun _ => 0) s)
    (hahead : nId ∉ s.vvNew (info.getNewBucket H s.nKey source) →
      Inv added (single nId) (s.setInfo nId { info with nRefCount := info.nRefCount + 1 })) :
    Returns (s.joinBucket H rnd nNow nId info source) (Inv added fun _ => 0) := by
  unfold joinBucket
  simp only
  generalize info.getNewBucket H s.nKey source = b at hthere hahead
  by_cases hin : nId ∈ s.vvNew b
  · rw [if_pos (contains_iff_mem.mpr hin)]
    exact .ok (hthere hin)
  rw [if_neg fun hc => hin (contains_iff_mem.mp hc)]
  have h := hahead hin
  have hmem : nId ∈ (s.setInfo nId { info with nRefCount := info.nRefCount + 1 }).mapInfo :=
    mem_mapInfo_setInfo.mpr (.inl rfl)
  have hnot : nId ∉ (s.setInfo nId { info with nRefCount := info.nRefCount + 1 }).vvNew b := hin
  generalize s.setInfo nId { info with nRefCount := info.nRefCount + 1 } = t at h hmem hnot
  by_cases hfull : (t.vvNew b).size = ADDRMAN_NEW_BUCKET_SIZE
  · -- make room first
    have hpos : 0 < (t.vvNew b).size := by
      rw [hfull]
      decide
    have hpend : ∀ n ∈ t.vvNew b, single nId n = 0 := by
      intro n hn
      rw [single, if_neg]
      rintro rfl
      exact hnot hn
    rw [if_pos hfull]
    refine (shrinkNew_spec rnd nNow h hpos hpend).bind fun t' ht' => ?_
    obtain ⟨n, hn, hinv, hvv, hkept⟩ := ht'
    have hne : nId ≠ n := fun heq => hnot (heq ▸ hn)
    have hbucket : t'.vvNew b = (t.vvNew b).erase n := by rw [hvv, update_self]
    refine .ok (inv_joinBucket hinv (hkept nId hne hmem) ?_ ?_)
    · rw [hbucket]
      exact fun hm => hnot (mem_of_mem_erase hm)
    · rw [hbucket, size_erase, if_pos (contains_iff_mem.mpr hn),
        hfull]
      decide
  · have hlt : (t.vvNew b).size < ADDRMAN_NEW_BUCKET_SIZE :=
      lt_of_le_of_ne (h.newSize b) hfull
    rw [if_neg hfull, ok_bind]
    exact .ok (inv_joinBucket h hmem hnot hlt)

theorem inv_addRef (h : Inv added (fun _ => 0) s) (hinfo : s.mapInfo[nId]? = some info)
    (htried : info.fInTried = false) (hlt : info.nRefCount < ADDRMAN_NEW_BUCKETS_PER_ADDRESS) :
    Inv added (single nId) (s.setInfo nId { info with nRefCount := info.nRefCount + 1 }) := by
  have hnew := (h.entry nId info hinfo).new htried
  have hcount := h.refs nId _ (field_eq _ hinfo)
  refine inv_setRefs h hinfo htried (by omega) ?_ (fun m hm => ?_) h.inNew h.newSize
  · rw [single, if_pos rfl]
    omega
  · rw [single, if_neg hm]

/-- **A new entry**, ahead of its buckets by one.  `s'` is `s` with the entry, under the next
id. -/
theorem inv_create (h : Inv added (fun _ => 0) s) {nIdCount : Int32}
    (hcount : nIdCount.toInt = (added.length + 1 : Nat)) (hentry : EntryOk info)
    (hfree : s.mapAddr[info.ip]? = none) (htried : info.fInTried = false)
    (href : info.nRefCount = 1) (hpos : info.nRandomPos = s.vRandom.length)
    (hmap : ∀ m : Int, s'.mapInfo[m]? = if m = (added.length : Int) then some info else s.mapInfo[m]?)
    (hs' : s' = { s with
      nIdCount := nIdCount
      mapInfo := s'.mapInfo
      mapAddr := s.mapAddr.insert info.ip (added.length : Int)
      vRandom := s.vRandom ++ [(added.length : Int)]
      nNew := s.nNew + 1 }) :
    Inv (added ++ [info.ip]) (single added.length) s' := by
  have hnone := h.next_none
  have hnonef : ∀ {α : Type} (f : CAddrInfo → α), s.field f (added.length : Int) = none := by
    intro α f
    rw [field, hnone, Option.map_none]
  have hvv : s'.vvNew = s.vvNew := by rw [hs']
  have hvt : s'.vvTried = s.vvTried := by rw [hs']
  have hnot : ∀ b, (added.length : Int) ∉ s.vvNew b := by
    intro b hb
    obtain ⟨i, hi⟩ := mem_mapInfo_iff.mp (h.inNew b _ hb)
    rw [hnone] at hi
    cases hi
  constructor
  case nIdCount =>
    rw [hs', length_append, length_singleton]
    exact hcount
  case ids =>
    intro m i hm
    rw [hmap] at hm
    split at hm
    · rename_i hm'
      obtain rfl := Option.some.inj hm
      exact ⟨added.length, hm', List.getElem?_concat_length⟩
    · obtain ⟨n, rfl, hn⟩ := h.ids m i hm
      exact ⟨n, rfl, (List.getElem?_append_left (List.getElem?_eq_some_iff.mp hn).1).trans hn⟩
  case entry =>
    intro m i hm
    rw [hmap] at hm
    split at hm
    · exact Option.some.inj hm ▸ hentry
    · exact h.entry m i hm
  case random =>
    have hvr : s'.vRandom = s.vRandom ++ [(added.length : Int)] := by rw [hs']
    rw [field_written _ hmap, hvr, hpos]
    exact h.random.push (hnonef _)
  case addr =>
    intro a m
    have hma : s'.mapAddr = s.mapAddr.insert info.ip (added.length : Int) := by rw [hs']
    rw [hma, StdMap.get_insert, field_written _ hmap]
    by_cases hm : m = (added.length : Int)
    · subst hm
      rw [update_self, Option.some_inj]
      split
      · rename_i hip
        exact iff_of_true rfl hip
      · rename_i hip
        refine iff_of_false (fun ha => ?_) hip
        have := (h.addr a _).mp ha
        rw [hnonef] at this
        cases this
    · rw [update_of_ne hm]
      split
      · rename_i hip
        refine iff_of_false (fun heq => hm (Option.some.inj heq).symm) fun ha => ?_
        have := (h.addr a m).mpr ha
        rw [← hip, hfree] at this
        cases this
      · exact h.addr a m
  case tried =>
    rw [field_written _ hmap, hvt]
    refine h.tried.congr fun m => ?_
    by_cases hm : m = (added.length : Int)
    · subst hm
      rw [update_self, hnonef, htried]
      simp
    · rw [update_of_ne hm]
  case refs =>
    intro m r hr
    rw [field_written _ hmap] at hr
    rw [hvv]
    unfold single
    by_cases hm : m = (added.length : Int)
    · subst hm
      rw [update_self, Option.some_inj, href] at hr
      have hempty : (holders s.vvNew (added.length : Int)).card = 0 := by
        rw [Finset.card_eq_zero, Finset.eq_empty_iff_forall_notMem]
        exact fun b hb => hnot b (mem_holders.mp hb)
      rw [if_pos rfl]
      omega
    · rw [update_of_ne hm] at hr
      rw [if_neg hm]
      exact h.refs m r hr
  case inNew =>
    intro b m hm
    rw [hvv] at hm
    obtain ⟨i, hi⟩ := mem_mapInfo_iff.mp (h.inNew b m hm)
    rw [mem_mapInfo_iff]
    refine ⟨i, ?_⟩
    rw [hmap, if_neg, hi]
    rintro rfl
    exact hnot b hm
  case nTried =>
    have hnt : s'.nTried = s.nTried := by rw [hs']
    rw [hvt, hnt]
    exact h.nTried
  case total =>
    have hlen : s'.vRandom.length = s.vRandom.length + 1 := by
      rw [hs']
      exact length_append
    have hnt : s'.nTried = s.nTried := by rw [hs']
    have hnn : s'.nNew = s.nNew + 1 := by rw [hs']
    have := h.total
    omega
  case triedSize =>
    rw [hvt]
    exact h.triedSize
  case newSize =>
    rw [hvv]
    exact h.newSize

/-! ## §5. Tried buckets. -/

/-- **`SelectTried`** shuffles a bucket that is not empty, and returns a position in it. -/
theorem selectTried_spec (rnd : Nat → Nat) {vTried : List Int} (hne : 0 < vTried.length)
    (hmem : ∀ m ∈ vTried, 0 ≤ m ∧ m ∈ s.mapInfo) :
    Returns (s.selectTried rnd vTried) fun r =>
      r.1.Perm vTried ∧ 0 ≤ r.2 ∧ r.2 < r.1.length := by
  have hloop : Returns ((List.range (min ADDRMAN_TRIED_ENTRIES_INSPECT_ON_EVICT
      vTried.length)).foldlM (s.selectTriedAt rnd) (vTried, -1, -1)) fun r =>
      r.1.Perm vTried ∧ (∀ i ∈ ([] : List Nat), i < r.1.length) ∧
        ((r.2.1 ∈ vTried ∧ 0 ≤ r.2.2 ∧ r.2.2 < r.1.length) ∨
          r.2.1 = -1 ∧ ([] : List Nat) ≠ []) := by
    refine Returns.foldlM (I := fun (rest : List Nat) (r : List Int × Int × Int) =>
      r.1.Perm vTried ∧ (∀ i ∈ rest, i < r.1.length) ∧
        ((r.2.1 ∈ vTried ∧ 0 ≤ r.2.2 ∧ r.2.2 < r.1.length) ∨ r.2.1 = -1 ∧ rest ≠ [])) ?_ ?_
    · rintro i rest ⟨v, nOldest, nOldestPos⟩ ⟨hperm, hlt, hacc⟩
      have hi : i < v.length := hlt i mem_cons_self
      have hrest : ∀ j ∈ rest, j < v.length := fun j hj => hlt j (mem_cons_of_mem _ hj)
      have hpos : getRandInt (rnd i) (v.length - i) + i < v.length := by
        have := getRandInt_lt (rnd i) (show 0 < v.length - i by omega)
        omega
      simp only [selectTriedAt]
      generalize getRandInt (rnd i) (v.length - i) + i = nPos at hpos
      rw [List.getElem?_eq_getElem hpos, List.getElem?_eq_getElem hi]
      simp only
      -- the swap
      have hswap : ((v.set nPos v[i]).set i v[nPos]).Perm vTried :=
        (set_set_perm hpos hi).trans hperm
      have hlen : ((v.set nPos v[i]).set i v[nPos]).length = v.length := by
        rw [length_set, length_set]
      have htemp : v[nPos] ∈ vTried := hperm.mem_iff.mp (getElem_mem hpos)
      have htaken : (v[nPos] ∈ vTried ∧ 0 ≤ (nPos : Int) ∧
          (nPos : Int) < ((v.set nPos v[i]).set i v[nPos]).length) :=
        ⟨htemp, by omega, by rw [hlen]; omega⟩
      rw [← hlen] at hrest
      by_cases hnone : nOldest = -1
      · rw [if_pos hnone]
        exact .ok ⟨hswap, hrest, .inl htaken⟩
      · obtain ⟨hold, hoff₁, hoff₂⟩ := hacc.resolve_right fun h => hnone h.1
        obtain ⟨info, hinfo⟩ := mem_mapInfo_iff.mp (hmem _ htemp).2
        obtain ⟨infoOldest, hinfoOldest⟩ := mem_mapInfo_iff.mp (hmem _ hold).2
        rw [if_neg hnone, infoAt_eq hinfo, ok_bind, infoAt_eq hinfoOldest, ok_bind]
        split
        · exact .ok ⟨hswap, hrest, .inl htaken⟩
        · exact .ok ⟨hswap, hrest, .inl ⟨hold, hoff₁, by rw [hlen]; exact hoff₂⟩⟩
    · refine ⟨List.Perm.refl _, fun i hi => ?_, .inr ⟨rfl, fun hnil => ?_⟩⟩
      · show i < vTried.length
        have := mem_range.mp hi
        omega
      · have hlen := congrArg List.length hnil
        rw [length_range, length_nil] at hlen
        have : 0 < ADDRMAN_TRIED_ENTRIES_INSPECT_ON_EVICT := by decide
        omega
  rw [selectTried]
  refine hloop.bind fun r hr => ?_
  obtain ⟨hperm, -, hacc⟩ := hr
  obtain ⟨-, h₁, h₂⟩ := hacc.resolve_right fun h => h.2 rfl
  exact .ok ⟨hperm, h₁, h₂⟩

theorem bucketsWith_eq (vv : Fin ADDRMAN_NEW_BUCKET_COUNT → StdSet Int) (nId : Int) :
    bucketsWith vv nId = (holders vv nId).card := by
  rw [bucketsWith, countP_finRange]
  congr 1

theorem mem_eraseAll {b : Fin _} :
    m ∈ (vv b).erase nId ↔ m ≠ nId ∧ m ∈ vv b := by
  rw [mem_erase, ne_eq, Int.compare_eq_eq, eq_comm]

theorem inv_promote (h : Inv added (fun _ => 0) s) (hinfo : s.mapInfo[nId]? = some info)
    (hnew : info.fInTried = false) (hsuccess : info.nLastSuccess ≠ 0)
    {k : Fin ADDRMAN_TRIED_BUCKET_COUNT}
    (hroom : (s.vvTried k).length < ADDRMAN_TRIED_BUCKET_SIZE)
    (hmap : ∀ m : Int, s'.mapInfo[m]? = if m = nId then
      some { info with nRefCount := 0, fInTried := true } else s.mapInfo[m]?)
    (hs' : s' = { s with
      mapInfo := s'.mapInfo
      vvNew := fun b => (s.vvNew b).erase nId
      nNew := s.nNew - 1
      vvTried := update s.vvTried k (s.vvTried k ++ [nId])
      nTried := s.nTried + 1 }) :
    Inv added (fun _ => 0) s' := by
  have hentry := h.entry nId info hinfo
  have hkeep : ∀ {α : Type} (f : CAddrInfo → α),
      f { info with nRefCount := 0, fInTried := true } = f info → s'.field f = s.field f := by
    intro α f hf
    rw [field_written f hmap, hf, ← field_eq f hinfo, update_eq_self]
  have hnotTried : s.field CAddrInfo.fInTried nId ≠ some true := by
    rw [field_eq _ hinfo, hnew]
    simp
  have hvv : s'.vvNew = fun b => (s.vvNew b).erase nId := by rw [hs']
  have hvt : s'.vvTried = update s.vvTried k (s.vvTried k ++ [nId]) := by rw [hs']
  have hnt : s'.nTried = s.nTried + 1 := by rw [hs']
  have hnn : s'.nNew = s.nNew - 1 := by rw [hs']
  constructor
  case nIdCount =>
    rw [hs']
    exact h.nIdCount
  case ids =>
    exact h.ids_of_field (hkeep (fun info => info.ip) rfl)
  case entry =>
    intro m i hm
    rw [hmap] at hm
    split at hm
    · cases hm
      exact ⟨hentry.nLastTry, hentry.nLastSuccess, fun _ => ⟨hsuccess, rfl⟩,
        fun hf => absurd hf (by simp)⟩
    · exact h.entry m i hm
  case random =>
    have hvr : s'.vRandom = s.vRandom := by rw [hs']
    rw [hkeep _ rfl, hvr]
    exact h.random
  case addr =>
    have hma : s'.mapAddr = s.mapAddr := by rw [hs']
    rw [hkeep (fun info => info.ip) rfl, hma]
    exact h.addr
  case tried =>
    rw [field_written _ hmap, hvt]
    refine (h.tried.push hnotTried k).congr fun m => ?_
    by_cases hm : m = nId
    · subst hm
      rw [update_self]
      simp
    · rw [update_of_ne hm]
      simp [hm]
  case refs =>
    intro m r hr
    rw [field_written _ hmap] at hr
    rw [hvv, holders_eraseAll]
    by_cases hm : m = nId
    · subst hm
      rw [update_self, Option.some_inj] at hr
      rw [if_pos rfl, ← hr]
      rfl
    · rw [update_of_ne hm] at hr
      rw [if_neg hm]
      exact h.refs m r hr
  case inNew =>
    intro b m hm
    rw [hvv] at hm
    obtain ⟨hne, hm⟩ := mem_eraseAll.mp hm
    obtain ⟨i, hi⟩ := mem_mapInfo_iff.mp (h.inNew b m hm)
    rw [mem_mapInfo_iff]
    exact ⟨i, by rw [hmap, if_neg hne, hi]⟩
  case nTried =>
    have hsum := sum_length_update s.vvTried k (s.vvTried k ++ [nId])
    rw [length_append, length_singleton] at hsum
    have := h.nTried
    rw [hvt, hnt]
    omega
  case total =>
    have hvr : s'.vRandom = s.vRandom := by rw [hs']
    have := h.total
    rw [hvr, hnt, hnn]
    omega
  case triedSize =>
    intro b
    rw [hvt]
    by_cases hb : b = k
    · subst hb
      rw [update_self, length_append, length_singleton]
      omega
    · rw [update_of_ne hb]
      exact h.triedSize b
  case newSize =>
    intro b
    rw [hvv]
    exact le_trans size_erase_le (h.newSize b)

theorem inv_exchange (h : Inv added (fun _ => 0) s) (hinfo : s.mapInfo[nId]? = some info)
    (hnew : info.fInTried = false) (hsuccess : info.nLastSuccess ≠ 0)
    {k : Fin ADDRMAN_TRIED_BUCKET_COUNT} {vTried : List Int} (hperm : vTried.Perm (s.vvTried k))
    {i : Nat} {nOld : Int} {infoOld : CAddrInfo} (hi : vTried[i]? = some nOld)
    (hold : s.mapInfo[nOld]? = some infoOld) {nBack : Fin ADDRMAN_NEW_BUCKET_COUNT}
    (hroom : ((s.vvNew nBack).erase nId).size < ADDRMAN_NEW_BUCKET_SIZE)
    (hmap : ∀ m : Int, s'.mapInfo[m]? =
      if m = nId then some { info with nRefCount := 0, fInTried := true }
      else (s.setInfo nOld { infoOld with fInTried := false, nRefCount := 1 }).mapInfo[m]?)
    (hs' : s' = { s with
      mapInfo := s'.mapInfo
      vvNew := update (fun b => (s.vvNew b).erase nId) nBack
        (((s.vvNew nBack).erase nId).insert nOld)
      vvTried := update s.vvTried k (vTried.set i nId) }) :
    Inv added (fun _ => 0) s' := by
  have hentry := h.entry nId info hinfo
  have hentryOld := h.entry nOld infoOld hold
  have holdIn : nOld ∈ s.vvTried k := hperm.mem_iff.mp (mem_of_getElem? hi)
  have holdTried : infoOld.fInTried = true := by
    have htried := (h.tried.mem nOld).mp ⟨k, holdIn⟩
    rw [field_eq _ hold] at htried
    exact Option.some.inj htried
  have hne : nId ≠ nOld := by
    rintro rfl
    rw [hinfo] at hold
    cases hold
    exact absurd (hnew.symm.trans holdTried) Bool.false_ne_true
  -- a tried entry is in no new bucket
  have hnotNew : ∀ b, nOld ∉ s.vvNew b := by
    intro b hb
    exact absurd ((h.new_entry hb hold).1.symm.trans holdTried) Bool.false_ne_true
  have hfield : ∀ {α : Type} (f : CAddrInfo → α), s'.field f = update (update
      (s.field f) nOld (some (f { infoOld with fInTried := false, nRefCount := 1 }))) nId
      (some (f { info with nRefCount := 0, fInTried := true })) :=
    fun f => by rw [field_written f hmap, field_setInfo]
  have hkeep : ∀ {α : Type} (f : CAddrInfo → α),
      (∀ (i : CAddrInfo) (r : Int) (t : Bool), f { i with nRefCount := r, fInTried := t } = f i) →
        s'.field f = s.field f := by
    intro α f hf
    have h₁ : f { info with nRefCount := 0, fInTried := true } = f info := hf info 0 true
    have h₂ : f { infoOld with fInTried := false, nRefCount := 1 } = f infoOld :=
      hf infoOld 1 false
    rw [hfield, h₁, h₂, ← field_eq f hold, update_eq_self, ← field_eq f hinfo,
      update_eq_self]
  have hvv : s'.vvNew = update (fun b => (s.vvNew b).erase nId) nBack
      (((s.vvNew nBack).erase nId).insert nOld) := by rw [hs']
  have hvt : s'.vvTried = update s.vvTried k (vTried.set i nId) := by rw [hs']
  have hnt : s'.nTried = s.nTried := by rw [hs']
  have hnn : s'.nNew = s.nNew := by rw [hs']
  have hlen : vTried.length = (s.vvTried k).length := hperm.length_eq
  constructor
  case nIdCount =>
    rw [hs']
    exact h.nIdCount
  case ids =>
    exact h.ids_of_field (hkeep (fun info => info.ip) fun _ _ _ => rfl)
  case entry =>
    intro m i hm
    rw [hmap] at hm
    split at hm
    · cases hm
      exact ⟨hentry.nLastTry, hentry.nLastSuccess, fun _ => ⟨hsuccess, rfl⟩,
        fun hf => absurd hf (by simp)⟩
    · rw [mapInfo_setInfo] at hm
      split at hm
      · cases hm
        exact ⟨hentryOld.nLastTry, hentryOld.nLastSuccess, fun hf => absurd hf (by simp),
          fun _ => ⟨le_refl (1 : Int), (by decide : (1 : Int) ≤ 8)⟩⟩
      · exact h.entry m i hm
  case random =>
    have hvr : s'.vRandom = s.vRandom := by rw [hs']
    rw [hkeep _ fun _ _ _ => rfl, hvr]
    exact h.random
  case addr =>
    have hma : s'.mapAddr = s.mapAddr := by rw [hs']
    rw [hkeep (fun info => info.ip) fun _ _ _ => rfl, hma]
    exact h.addr
  case tried =>
    have hnotTried : s.field CAddrInfo.fInTried nId ≠ some true := by
      rw [field_eq _ hinfo, hnew]
      simp
    have hget : update s.vvTried k vTried k = vTried := update_self ..
    have hat : (update s.vvTried k vTried k)[i]? = some nOld := by rw [hget, hi]
    have hreplace := (h.tried.perm hperm).replace hnotTried hat
    rw [hget, update_idem] at hreplace
    rw [hfield, hvt]
    refine hreplace.congr fun m => ?_
    by_cases hm : m = nId
    · subst hm
      rw [update_self]
      simp
    · rw [update_of_ne hm]
      by_cases hmo : m = nOld
      · subst hmo
        rw [update_self]
        simp [Ne.symm hne]
      · rw [update_of_ne hmo]
        simp [hm, hmo]
  case refs =>
    intro m r hr
    rw [hfield] at hr
    rw [hvv, holders_insert (fun b => (s.vvNew b).erase nId) nBack nOld m, holders_eraseAll]
    by_cases hm : m = nId
    · subst hm
      rw [update_self, Option.some_inj] at hr
      rw [if_neg hne, if_pos rfl, ← hr]
      rfl
    · rw [update_of_ne hm] at hr
      rw [if_neg hm]
      by_cases hmo : m = nOld
      · subst hmo
        rw [update_self, Option.some_inj] at hr
        have hempty : holders s.vvNew m = ∅ := by
          rw [Finset.eq_empty_iff_forall_notMem]
          exact fun b hb => hnotNew b (mem_holders.mp hb)
        rw [if_pos rfl, hempty, ← hr]
        rfl
      · rw [update_of_ne hmo] at hr
        rw [if_neg hmo]
        exact h.refs m r hr
  case inNew =>
    have hthere : ∀ m, m ≠ nId → m ∈ s.mapInfo → m ∈ s'.mapInfo := by
      intro m hm hin
      obtain ⟨i, hi⟩ := mem_mapInfo_iff.mp hin
      rw [mem_mapInfo_iff, hmap, if_neg hm, mapInfo_setInfo]
      split
      · exact ⟨_, rfl⟩
      · exact ⟨i, hi⟩
    intro b m hm
    rw [hvv] at hm
    by_cases hb : b = nBack
    · subst hb
      rw [update_self, mem_insert, Int.compare_eq_eq] at hm
      rcases hm with rfl | hm
      · exact hthere _ (Ne.symm hne) (mem_mapInfo_iff.mpr ⟨infoOld, hold⟩)
      · obtain ⟨hmn, hm⟩ := mem_eraseAll.mp hm
        exact hthere m hmn (h.inNew b m hm)
    · rw [update_of_ne hb] at hm
      obtain ⟨hmn, hm⟩ := mem_eraseAll.mp hm
      exact hthere m hmn (h.inNew b m hm)
  case nTried =>
    have hsum := sum_length_update s.vvTried k (vTried.set i nId)
    rw [length_set] at hsum
    have := h.nTried
    rw [hvt, hnt]
    omega
  case total =>
    have hvr : s'.vRandom = s.vRandom := by rw [hs']
    have := h.total
    rw [hvr, hnt, hnn]
    exact this
  case triedSize =>
    intro b
    rw [hvt]
    by_cases hb : b = k
    · subst hb
      rw [update_self, length_set, hlen]
      exact h.triedSize b
    · rw [update_of_ne hb]
      exact h.triedSize b
  case newSize =>
    intro b
    rw [hvv]
    by_cases hb : b = nBack
    · subst hb
      rw [update_self]
      have := size_insert_le (t := (s.vvNew b).erase nId) (k := nOld)
      omega
    · rw [update_of_ne hb]
      exact le_trans size_erase_le (h.newSize b)

theorem enterTried_spec (rnd : Nat → Nat) (h : Inv added (fun _ => 0) s)
    (hinfo : s.mapInfo[nId]? = some info) (hsuccess : info.nLastSuccess ≠ 0)
    {nOrigin : Fin ADDRMAN_NEW_BUCKET_COUNT} (hin : nId ∈ s.vvNew nOrigin) {s₁ : CAddrMan}
    (hs₁ : s₁ = { s.setInfo nId { info with nRefCount := 0 } with
      vvNew := fun b => (s.vvNew b).erase nId
      nNew := s.nNew - 1 }) :
    Returns (s₁.enterTried H rnd nId { info with nRefCount := 0 } nOrigin) (Inv added fun _ => 0) := by
  have hnew := (h.new_entry hin hinfo).1
  have hmap₁ : ∀ m : Int, s₁.mapInfo[m]? =
      if m = nId then some { info with nRefCount := 0 } else s.mapInfo[m]? := by
    intro m
    rw [hs₁]
    exact mapInfo_setInfo m
  have hvt : s₁.vvTried = s.vvTried := by rw [hs₁]; rfl
  have hvn : s₁.vvNew = fun b => (s.vvNew b).erase nId := by rw [hs₁]
  unfold enterTried
  simp only
  generalize CAddrInfo.getTriedBucket H s₁.nKey { info with nRefCount := 0 } = k
  rw [hvt]
  split
  · -- there is room
    rename_i hroom
    refine .ok (inv_promote h hinfo hnew hsuccess hroom (fun m => ?_) ?_)
    · rw [show (CAddrMan.mapInfo _)[m]? = _ from mapInfo_setInfo m]
      split
      · rfl
      · rename_i hm
        exact (hmap₁ m).trans (if_neg hm)
    · rw [hs₁]
      rfl
  · -- the bucket is full
    rename_i hfull
    have hpos : 0 < (s.vvTried k).length := by
      have : 0 < ADDRMAN_TRIED_BUCKET_SIZE := by decide
      omega
    have hmem : ∀ m ∈ s.vvTried k, 0 ≤ m ∧ m ∈ s₁.mapInfo := by
      intro m hm
      have htried := (h.tried.mem m).mp ⟨k, hm⟩
      obtain ⟨i, hi, -⟩ := Option.map_eq_some_iff.mp htried
      refine ⟨(h.id_lt hi).1, mem_mapInfo_iff.mpr ?_⟩
      rw [hmap₁]
      split
      · exact ⟨_, rfl⟩
      · exact ⟨i, hi⟩
    refine (selectTried_spec rnd hpos hmem).bind fun r hr => ?_
    obtain ⟨vTried, nPos⟩ := r
    obtain ⟨hperm, hp, hpl⟩ := hr
    simp only at hperm hp hpl ⊢
    have hgetPos : vTried[nPos.toNat]? = some vTried[nPos.toNat] :=
      List.getElem?_eq_getElem (by omega)
    generalize vTried[nPos.toNat] = nOld at hgetPos
    have hat : triedAt vTried nPos = .ok nOld := by
      rw [triedAt, if_neg (by omega), hgetPos]
    -- the entry that goes back
    have htriedOld := (h.tried.mem nOld).mp ⟨k, hperm.mem_iff.mp (mem_of_getElem? hgetPos)⟩
    obtain ⟨infoOld, hold, hfOld⟩ := Option.map_eq_some_iff.mp htriedOld
    have hne : nOld ≠ nId := by
      rintro rfl
      rw [hinfo] at hold
      cases hold
      exact absurd (hnew.symm.trans hfOld) Bool.false_ne_true
    have hold₁ : s₁.mapInfo[nOld]? = some infoOld := by rw [hmap₁, if_neg hne, hold]
    have hinfo₁ : (s₁.setInfo nOld { infoOld with
        fInTried := false, nRefCount := 1 }).mapInfo[nId]? =
          some { info with nRefCount := 0 } := by
      rw [mapInfo_setInfo_ne hne, hmap₁, if_pos rfl]
    rw [hat, ok_bind, infoAt_eq hold₁, ok_bind]
    generalize infoOld.getNewBucket H s₁.nKey infoOld.source = nUBucket
    rw [show (CAddrMan.setInfo s₁ nOld _).vvNew = s₁.vvNew from rfl,
      show (CAddrMan.setInfo s₁ nOld _).vvTried = s₁.vvTried from rfl, hvn, hvt]
    -- there is room in the bucket it goes to
    have hroom : ((s.vvNew (if ((s.vvNew nUBucket).erase nId).size < ADDRMAN_NEW_BUCKET_SIZE
        then nUBucket else nOrigin)).erase nId).size < ADDRMAN_NEW_BUCKET_SIZE := by
      split
      · assumption
      · rw [size_erase, if_pos (contains_iff_mem.mpr hin)]
        have h₁ := h.newSize nOrigin
        have h₂ : 0 < (s.vvNew nOrigin).size := by
          rw [← length_toList]
          exact length_pos_of_mem (mem_toList.mpr hin)
        omega
    generalize (if ((s.vvNew nUBucket).erase nId).size < ADDRMAN_NEW_BUCKET_SIZE
        then nUBucket else nOrigin) = nBack at hroom ⊢
    simp only
    rw [infoAt_eq hinfo₁, ok_bind]
    refine .ok (inv_exchange h hinfo hnew hsuccess hperm hgetPos hold hroom (fun m => ?_) ?_)
    · rw [show (CAddrMan.mapInfo _)[m]? = _ from mapInfo_setInfo m]
      split
      · rfl
      · rename_i hm
        rw [mapInfo_setInfo, mapInfo_setInfo, hmap₁, if_neg hm]
    · rw [hs₁]
      simp [setInfo]

theorem makeTried_spec (rnd : Nat → Nat) (h : Inv added (fun _ => 0) s) (hinfo : s.mapInfo[nId]? =
    some info) (hsuccess : info.nLastSuccess ≠ 0) {nOrigin : Fin ADDRMAN_NEW_BUCKET_COUNT}
    (hin : nId ∈ s.vvNew nOrigin) : Returns (makeTried H rnd s nId nOrigin) (Inv added fun _ => 0) := by
  have hcount := (h.new_entry hin hinfo).2.1
  have hzero : info.nRefCount - bucketsWith s.vvNew nId = 0 := by
    rw [bucketsWith_eq]
    omega
  have hcontains : (!(s.vvNew nOrigin).contains nId) = false := by
    rw [Bool.not_eq_false']
    exact contains_iff_mem.mpr hin
  rw [makeTried, hcontains, if_neg Bool.false_ne_true, infoAt_eq hinfo, ok_bind]
  simp only [hzero]
  rw [if_neg (not_not_intro rfl)]
  exact enterTried_spec H rnd h hinfo hsuccess hin rfl

/-! ## §6. The tests, between two calls. -/

theorem Inv.sum_vvTried (h : Inv added pending s) :
    ∑ b, (s.vvTried b).length = s.mapInfo.toList.countP fun item => item.2.fInTried := by
  have hkeys : ((s.mapInfo.toList.filter fun item => item.2.fInTried).map Prod.fst).Nodup := by
    refine List.Nodup.sublist (filter_sublist.map Prod.fst) ?_
    rw [Std.ExtTreeMap.map_fst_toList_eq_keys]
    exact Std.ExtTreeMap.nodup_keys
  rw [h.tried.sum_length hkeys, length_map, countP_eq_length_filter]
  intro m
  rw [mem_map, field, Option.map_eq_some_iff]
  constructor
  · rintro ⟨⟨n, info⟩, hitem, rfl⟩
    rw [mem_filter, Std.ExtTreeMap.mem_toList_iff_getElem?_eq_some] at hitem
    exact ⟨info, hitem⟩
  · rintro ⟨info, hinfo, htried⟩
    refine ⟨(m, info), ?_, rfl⟩
    rw [mem_filter, Std.ExtTreeMap.mem_toList_iff_getElem?_eq_some]
    exact ⟨hinfo, htried⟩

theorem Inv.length_vRandom (h : Inv added pending s) : s.vRandom.length = s.mapInfo.toList.length := by
  have hperm : s.vRandom.Perm s.mapInfo.keys := by
    rw [perm_ext_iff_of_nodup h.random.nodup Std.ExtTreeMap.nodup_keys]
    intro m
    rw [h.random.mem_iff, Std.ExtTreeMap.mem_keys, mem_mapInfo_iff, field, ne_eq,
      Option.map_eq_none_iff, ← ne_eq, Option.ne_none_iff_exists']
  rw [hperm.length_eq, ← Std.ExtTreeMap.map_fst_toList_eq_keys, length_map]

theorem Inv.check (h : Inv added (fun _ => 0) s) : Check s where
  entry := h.entry
  random nId p := by
    rw [← h.random nId p, field, Option.map_eq_some_iff]
  addr a nId := by
    rw [h.addr a nId, field, Option.map_eq_some_iff]
  tried := h.tried.congr fun nId => by rw [field, Option.map_eq_some_iff]
  new nId info hinfo := by
    rw [h.refs nId _ (field_eq _ hinfo), bucketsWith_eq]
    rfl
  inNew b nId hin := by
    obtain ⟨info, hinfo⟩ := mem_mapInfo_iff.mp (h.inNew b nId hin)
    exact ⟨info, hinfo, (h.new_entry hin hinfo).1⟩
  nTried := by rw [h.nTried, h.sum_vvTried]
  nNew := by
    have hsum := h.total
    have hcount := length_eq_countP_add_countP (fun item : Int × CAddrInfo => item.2.fInTried)
      (l := s.mapInfo.toList)
    rw [h.nTried, h.sum_vvTried, h.length_vRandom, hcount] at hsum
    simp only [Bool.not_eq_true, Bool.decide_eq_false] at hsum
    omega
  size := h.total

theorem Inv.sized (h : Inv added pending s) : Sized s := ⟨h.triedSize, h.newSize⟩

end

end CAddrMan

end Fantom.Net
