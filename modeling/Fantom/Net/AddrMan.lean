/-
  Fantom.Net.AddrMan — The table of peer addresses.

  * `CAddrInfo` — an entry, `getTriedBucket` and `getNewBucket` — where it belongs,
  * `CAddrMan` — the table: the entries, their ids by address and in random order, and the buckets
    of the new and of the tried ones.

  An assertion that fails is an exception.  Where the code looks up `mapInfo[nId]` without an
  assertion, the model asserts too.  Random numbers come from a stream, one for each call of
  `GetRandInt`.  `nIdCount` is an `int`, and its overflow ends the call; the other counts are of
  what the table holds.
-/
import Fantom.Lib.Returns
import Fantom.Lib.StdMap
import Fantom.Net.NetAddr

namespace Fantom.Net

open Core Lib Function Nat

/-! ## §1. Entries. -/

def ADDRMAN_TRIED_BUCKET_COUNT : Nat := 256

def ADDRMAN_TRIED_BUCKET_SIZE : Nat := 64

def ADDRMAN_NEW_BUCKET_COUNT : Nat := 256

def ADDRMAN_NEW_BUCKET_SIZE : Nat := 64

def ADDRMAN_TRIED_BUCKETS_PER_GROUP : Nat := 8

def ADDRMAN_NEW_BUCKETS_PER_SOURCE_GROUP : Nat := 64

def ADDRMAN_NEW_BUCKETS_PER_ADDRESS : Nat := 8

def ADDRMAN_TRIED_ENTRIES_INSPECT_ON_EVICT : Nat := 4

def ADDRMAN_HORIZON_DAYS : Int := 30

def ADDRMAN_RETRIES : Int32 := 3

def ADDRMAN_MAX_FAILURES : Int32 := 10

def ADDRMAN_MIN_FAIL_DAYS : Int := 7

def ADDRMAN_GETADDR_MAX_PCT : Nat := 23

def ADDRMAN_GETADDR_MAX : Nat := 2500

/-- `CAddrInfo` -/
structure CAddrInfo extends CAddress where
  source : CNetAddr
  nLastSuccess : Int64
  nAttempts : Int32
  /-- In memory only, as the next two. -/
  nRefCount : Int
  fInTried : Bool
  nRandomPos : Int
deriving DecidableEq

namespace CAddrInfo

/-- `CAddrInfo(addrIn, addrSource)`, with `Init`. -/
def create (addrIn : CAddress) (addrSource : CNetAddr) : CAddrInfo where
  toCAddress := { addrIn with nLastTry := 0 }
  source := addrSource
  nLastSuccess := 0
  nAttempts := 0
  nRefCount := 0
  fInTried := false
  nRandomPos := -1

variable (H : Hashes)

/-- `Hash(..).Get64()` -/
def hash64 (bs : List UInt8) : Nat := (H.hash bs).toNat % 2 ^ 64

def getTriedBucket (nKey : List UInt8) (info : CAddrInfo) : Fin ADDRMAN_TRIED_BUCKET_COUNT :=
  let hash1 := hash64 H (serializeBytes nKey ++ serializeBytes info.getKey)
  let hash2 := hash64 H (serializeBytes nKey ++ serializeBytes info.ip.getGroup ++
    leBytes 8 (hash1 % ADDRMAN_TRIED_BUCKETS_PER_GROUP))
  ⟨hash2 % ADDRMAN_TRIED_BUCKET_COUNT, mod_lt _ (by decide)⟩

def getNewBucket (nKey : List UInt8) (src : CNetAddr) (info : CAddrInfo) :
    Fin ADDRMAN_NEW_BUCKET_COUNT :=
  let hash1 := hash64 H (serializeBytes nKey ++ serializeBytes info.ip.getGroup ++
    serializeBytes src.getGroup)
  let hash2 := hash64 H (serializeBytes nKey ++ serializeBytes src.getGroup ++
    leBytes 8 (hash1 % ADDRMAN_NEW_BUCKETS_PER_SOURCE_GROUP))
  ⟨hash2 % ADDRMAN_NEW_BUCKET_COUNT, mod_lt _ (by decide)⟩

/-- `CAddrInfo::IsTerrible`: an entry not worth keeping. -/
def isTerrible (nNow : Int64) (info : CAddrInfo) : Bool :=
  -- never remove things tried the last minute
  if info.nLastTry ≠ 0 ∧ info.nLastTry.toInt ≥ nNow.toInt - 60 then false
  -- came in a flying DeLorean
  else if (info.nTime.toNat : Int) > nNow.toInt + 10 * 60 then true
  -- not seen in recent history
  else if info.nTime = 0 ∨
      nNow.toInt - info.nTime.toNat > ADDRMAN_HORIZON_DAYS * 24 * 60 * 60 then true
  -- tried N times and never a success
  else if info.nLastSuccess = 0 ∧ info.nAttempts ≥ ADDRMAN_RETRIES then true
  -- N successive failures in the last week
  else if nNow.toInt - info.nLastSuccess.toInt > ADDRMAN_MIN_FAIL_DAYS * 24 * 60 * 60 ∧
      info.nAttempts ≥ ADDRMAN_MAX_FAILURES then true
  else false

end CAddrInfo

/-! ## §2. The table. -/

/-- `CAddrMan` -/
structure CAddrMan where
  nKey : List UInt8
  /-- The next id; it never goes back. -/
  nIdCount : Int32
  mapInfo : StdMap Int CAddrInfo
  mapAddr : StdMap CNetAddr Int
  vRandom : List Int
  nTried : Int
  vvTried : Fin ADDRMAN_TRIED_BUCKET_COUNT → List Int
  nNew : Int
  vvNew : Fin ADDRMAN_NEW_BUCKET_COUNT → StdSet Int

namespace CAddrMan

/-- `CAddrMan()` -/
def empty (nKey : List UInt8) : CAddrMan where
  nKey := nKey
  nIdCount := 0
  mapInfo := ∅
  mapAddr := ∅
  vRandom := []
  nTried := 0
  vvTried _ := []
  nNew := 0
  vvNew _ := ∅

/-- `GetRandInt(nMax)` -/
def getRandInt (rnd : Nat) (nMax : Nat) : Nat := if nMax = 0 then 0 else rnd % nMax

theorem getRandInt_lt (rnd : Nat) {nMax : Nat} (h : 0 < nMax) : getRandInt rnd nMax < nMax := by
  rw [getRandInt, if_neg (ne_of_gt h)]
  exact mod_lt rnd h

variable (s : CAddrMan)

/-- `assert(mapInfo.count(nId) == 1)`, and the entry. -/
def infoAt (nId : Int) : Except Abort CAddrInfo :=
  match s.mapInfo[nId]? with
  | some info => .ok info
  | none => .error (.threw "assert(mapInfo.count(nId) == 1)")

/-- An assignment to a member of `mapInfo[nId]`. -/
def setInfo (nId : Int) (info : CAddrInfo) : CAddrMan :=
  { s with mapInfo := s.mapInfo.insert nId info }

def find (addr : CNetAddr) : Option (Int × CAddrInfo) :=
  match s.mapAddr[addr]? with
  | none => none
  | some nId =>
    match s.mapInfo[nId]? with
    | none => none
    | some info => some (nId, info)

/-- `nIdCount++`: the id, and the table with the next one. -/
def takeId (s : CAddrMan) : Except Abort (Int × CAddrMan) :=
  if s.nIdCount = Int32.maxValue then .error .overflow
  else .ok (s.nIdCount.toInt, { s with nIdCount := s.nIdCount + 1 })

/-- `Create`: the id, the entry, and the table with it. -/
def create (s : CAddrMan) (addr : CAddress) (addrSource : CNetAddr) :
    Except Abort (Int × CAddrInfo × CAddrMan) := do
  let (nId, s) ← s.takeId
  let info := { CAddrInfo.create addr addrSource with nRandomPos := s.vRandom.length }
  .ok (nId, info,
    { s with
      mapInfo := s.mapInfo.insert nId info
      mapAddr := s.mapAddr.insert addr.ip nId
      vRandom := s.vRandom ++ [nId] })

/-- `vRandom[nRndPos]`, where the position is in range. -/
def randomAt (nRndPos : Int) : Except Abort Int :=
  match if nRndPos < 0 then none else s.vRandom[nRndPos.toNat]? with
  | some nId => .ok nId
  | none => .error (.threw "assert(nRndPos1 < vRandom.size() && nRndPos2 < vRandom.size())")

/-- `SwapRandom` -/
def swapRandom (nRndPos1 nRndPos2 : Int) : Except Abort CAddrMan :=
  if nRndPos1 = nRndPos2 then .ok s
  else do
    let nId1 ← s.randomAt nRndPos1
    let nId2 ← s.randomAt nRndPos2
    let info1 ← s.infoAt nId1
    let s := s.setInfo nId1 { info1 with nRandomPos := nRndPos2 }
    let info2 ← s.infoAt nId2
    let s := s.setInfo nId2 { info2 with nRandomPos := nRndPos1 }
    .ok { s with
      vRandom := (s.vRandom.set nRndPos1.toNat nId2).set nRndPos2.toNat nId1 }

/-! ## §3. Tried entries. -/

/-- One turn of the loop of `SelectTried`: the bucket, and the oldest entry with the position
that it is remembered at. -/
def selectTriedAt (rnd : Nat → Nat) :
    List Int × Int × Int → Nat → Except Abort (List Int × Int × Int)
  | (vTried, nOldest, nOldestPos), i => do
    let nPos := getRandInt (rnd i) (vTried.length - i) + i
    match vTried[nPos]?, vTried[i]? with
    | some nTemp, some nAtI => do
      let vTried := (vTried.set nPos nAtI).set i nTemp
      if nOldest = -1 then .ok (vTried, nTemp, nPos)
      else do
        let info ← s.infoAt nTemp
        let infoOldest ← s.infoAt nOldest
        if info.nLastSuccess < infoOldest.nLastSuccess then .ok (vTried, nTemp, nPos)
        else .ok (vTried, nOldest, nOldestPos)
    | _, _ => .error .dangling

/-- `SelectTried`: the bucket after the shuffle, and the position. -/
def selectTried (rnd : Nat → Nat) (vTried : List Int) : Except Abort (List Int × Int) := do
  let (vTried, _, nOldestPos) ←
    (List.range (min ADDRMAN_TRIED_ENTRIES_INSPECT_ON_EVICT vTried.length)).foldlM
      (s.selectTriedAt rnd) (vTried, -1, -1)
  .ok (vTried, nOldestPos)

/-- `nPos` in a bucket, where it is in range. -/
def triedAt (vTried : List Int) (nPos : Int) : Except Abort Int :=
  match if nPos < 0 then none else vTried[nPos.toNat]? with
  | some nId => .ok nId
  | none => .error .dangling

def bucketsWith (vvNew : Fin ADDRMAN_NEW_BUCKET_COUNT → StdSet Int) (nId : Int) : Nat :=
  (List.finRange ADDRMAN_NEW_BUCKET_COUNT).countP fun b => (vvNew b).contains nId

variable (H : Hashes)

/-- The second half of `MakeTried`, once the entry is in no new bucket; `rnd` is what
`SelectTried` draws. -/
def enterTried (rnd : Nat → Nat) (s : CAddrMan) (nId : Int)
    (info : CAddrInfo) (nOrigin : Fin ADDRMAN_NEW_BUCKET_COUNT) : Except Abort CAddrMan :=
  -- what tried bucket to move the entry to
  let nKBucket := info.getTriedBucket H s.nKey
  if (s.vvTried nKBucket).length < ADDRMAN_TRIED_BUCKET_SIZE then
    .ok { s.setInfo nId { info with fInTried := true } with
      vvTried := update s.vvTried nKBucket (s.vvTried nKBucket ++ [nId])
      nTried := s.nTried + 1 }
  else do
    -- otherwise, find an item to evict
    let (vTried, nPos) ← s.selectTried rnd (s.vvTried nKBucket)
    let nOld ← triedAt vTried nPos
    let infoOld ← s.infoAt nOld
    let nUBucket := infoOld.getNewBucket H s.nKey infoOld.source
    let s := s.setInfo nOld { infoOld with fInTried := false, nRefCount := 1 }
    -- move it back, or to the new bucket `nId` came from
    let nBack := if (s.vvNew nUBucket).size < ADDRMAN_NEW_BUCKET_SIZE then nUBucket else nOrigin
    let info ← s.infoAt nId
    .ok { s.setInfo nId { info with fInTried := true } with
      vvNew := update s.vvNew nBack ((s.vvNew nBack).insert nOld)
      nNew := s.nNew + 1
      vvTried := update s.vvTried nKBucket (vTried.set nPos.toNat nId) }

/-- `MakeTried` -/
def makeTried (rnd : Nat → Nat) (s : CAddrMan) (nId : Int)
    (nOrigin : Fin ADDRMAN_NEW_BUCKET_COUNT) : Except Abort CAddrMan := do
  if !(s.vvNew nOrigin).contains nId then .error (.threw "assert(vvNew[nOrigin].count(nId) == 1)")
  else
    let info ← s.infoAt nId
    -- remove the entry from all new buckets
    let info := { info with nRefCount := info.nRefCount - bucketsWith s.vvNew nId }
    let s := { s.setInfo nId info with
      vvNew := fun b => (s.vvNew b).erase nId
      nNew := s.nNew - 1 }
    if info.nRefCount ≠ 0 then .error (.threw "assert(info.nRefCount == 0)")
    else s.enterTried H rnd nId info nOrigin

/-- `Good_`: the random numbers are the bucket to begin at, and those of `SelectTried`. -/
def good_ (rnd : Nat → Nat) (s : CAddrMan) (addr : CService) (nTime : Int64) :
    Except Abort CAddrMan :=
  match s.find addr.ip with
  | none => .ok s
  | some (nId, info) =>
    -- the exact same `CService`, including the port
    if info.toCService ≠ addr then .ok s
    else
      let info := { info with
        nLastSuccess := nTime
        nLastTry := nTime
        nTime := UInt32.ofInt nTime.toInt
        nAttempts := 0 }
      let s := s.setInfo nId info
      if info.fInTried then .ok s
      else
        -- find a bucket it is in now
        let nRnd := getRandInt (rnd 0) ADDRMAN_NEW_BUCKET_COUNT
        let nUBucket := ((List.range ADDRMAN_NEW_BUCKET_COUNT).map fun n =>
          (⟨(n + nRnd) % ADDRMAN_NEW_BUCKET_COUNT, mod_lt _ (by decide)⟩ :
            Fin ADDRMAN_NEW_BUCKET_COUNT)).find? fun b => (s.vvNew b).contains nId
        match nUBucket with
        | none => .ok s
        | some nUBucket => makeTried H (fun i => rnd (i + 1)) s nId nUBucket

/-! ## §4. New entries. -/

/-- What `ShrinkNew` does to the entry that it has chosen. -/
def dropNew (nUBucket : Fin ADDRMAN_NEW_BUCKET_COUNT) (nId : Int) : Except Abort CAddrMan := do
  let info ← s.infoAt nId
  let info := { info with nRefCount := info.nRefCount - 1 }
  let s := s.setInfo nId info
  let s ←
    if info.nRefCount = 0 then do
      let s ← s.swapRandom info.nRandomPos (s.vRandom.length - 1)
      .ok { s with
        vRandom := s.vRandom.dropLast
        mapAddr := s.mapAddr.erase info.ip
        mapInfo := s.mapInfo.erase nId
        nNew := s.nNew - 1 }
    else .ok s
  .ok { s with vvNew := update s.vvNew nUBucket ((s.vvNew nUBucket).erase nId) }

def findTerrible (s : CAddrMan) (nNow : Int64) : List Int → Except Abort (Option Int)
  | [] => .ok none
  | nId :: rest => do
    let info ← s.infoAt nId
    if info.isTerrible nNow then .ok (some nId) else s.findTerrible nNow rest

/-- One turn of the loop over the items at the four positions `n`: the oldest so far. -/
def olderOf (n : List Nat) (nOldest : Int) (item : Int × Nat) : Except Abort Int :=
  if n.contains item.2 then
    if nOldest = -1 then .ok item.1
    else do
      let info ← s.infoAt item.1
      let infoOldest ← s.infoAt nOldest
      if info.nTime < infoOldest.nTime then .ok item.1 else .ok nOldest
  else .ok nOldest

/-- `ShrinkNew`: room in a new bucket. -/
def shrinkNew (rnd : Nat → Nat) (nNow : Int64) (s : CAddrMan)
    (nUBucket : Fin ADDRMAN_NEW_BUCKET_COUNT) : Except Abort CAddrMan := do
  let vNew := (s.vvNew nUBucket).toList
  -- first look for deletable items
  match ← s.findTerrible nNow vNew with
  | some nId => s.dropNew nUBucket nId
  | none =>
    -- otherwise, select four randomly, and pick the oldest of those to replace
    let n := (List.range 4).map fun i => getRandInt (rnd i) vNew.length
    let nOldest ← vNew.zipIdx.foldlM (s.olderOf n) (-1)
    s.dropNew nUBucket nOldest

/-- The statistics of an entry that was heard of again. -/
def heardAgain (nAdjustedTime : Int64) (addr : CAddress) (nTimePenalty : Int64) (info : CAddrInfo) :
    CAddrInfo :=
  let nAddrTime : Int := addr.nTime.toNat
  let fCurrentlyOnline : Bool := nAdjustedTime.toInt - nAddrTime < 24 * 60 * 60
  let nUpdateInterval : Int := if fCurrentlyOnline then 60 * 60 else 24 * 60 * 60
  let info :=
    if addr.nTime ≠ 0 ∧ (info.nTime = 0 ∨
        (info.nTime.toNat : Int) < nAddrTime - nUpdateInterval - nTimePenalty.toInt) then
      { info with nTime := UInt32.ofInt (max 0 (nAddrTime - nTimePenalty.toInt)) }
    else info
  { info with nServices := info.nServices ||| addr.nServices }

/-- The end of `Add_`: the entry joins a bucket. -/
def joinBucket (rnd : Nat → Nat) (nNow : Int64)
    (s : CAddrMan) (nId : Int) (info : CAddrInfo) (source : CNetAddr) : Except Abort CAddrMan :=
  let nUBucket := info.getNewBucket H s.nKey source
  if (s.vvNew nUBucket).contains nId then .ok s
  else do
    let s := s.setInfo nId { info with nRefCount := info.nRefCount + 1 }
    let s ←
      if (s.vvNew nUBucket).size = ADDRMAN_NEW_BUCKET_SIZE then s.shrinkNew rnd nNow nUBucket
      else .ok s
    .ok { s with vvNew := update s.vvNew nUBucket ((s.vvNew nUBucket).insert nId) }

/-- `Add_`: the first random number is the stochastic test, the next four are those of
`ShrinkNew`. -/
def add_ (rnd : Nat → Nat) (nNow : Int64) (s : CAddrMan)
    (addr : CAddress) (source : CNetAddr) (nTimePenalty : Int64) : Except Abort (Bool × CAddrMan) :=
  if !addr.ip.isRoutable then .ok (false, s)
  else
    match s.find addr.ip with
    | some (nId, info) =>
      let info := heardAgain nNow addr nTimePenalty info
      let s := s.setInfo nId info
      -- do not update if no new information is present
      if addr.nTime = 0 ∨ (info.nTime ≠ 0 ∧ addr.nTime ≤ info.nTime) then .ok (false, s)
      -- do not update if the entry was already in the "tried" table
      else if info.fInTried then .ok (false, s)
      -- do not update if the max reference count is reached
      else if info.nRefCount = ADDRMAN_NEW_BUCKETS_PER_ADDRESS then .ok (false, s)
      else
        -- previous nRefCount == N: 2^N times harder to increase it
        let nFactor := 2 ^ info.nRefCount.toNat
        if nFactor > 1 ∧ getRandInt (rnd 0) nFactor ≠ 0 then .ok (false, s)
        else do
          let s ← s.joinBucket H (fun i => rnd (i + 1)) nNow nId info source
          .ok (false, s)
    | none => do
      let (nId, info, s) ← s.create addr source
      let info := { info with
        nTime := UInt32.ofInt (max 0 (info.nTime.toNat - nTimePenalty.toInt)) }
      let s := { s.setInfo nId info with nNew := s.nNew + 1 }
      let s ← s.joinBucket H (fun i => rnd (i + 1)) nNow nId info source
      .ok (true, s)

/-! ## §5. The other calls. -/

def attempt_ (addr : CService) (nTime : Int64) : CAddrMan :=
  match s.find addr.ip with
  | none => s
  | some (nId, info) =>
    if info.toCService ≠ addr then s
    else s.setInfo nId { info with nLastTry := nTime, nAttempts := info.nAttempts + 1 }

/-- `Connected_` -/
def connected_ (addr : CService) (nTime : Int64) : CAddrMan :=
  match s.find addr.ip with
  | none => s
  | some (nId, info) =>
    if info.toCService ≠ addr then s
    else if nTime.toInt - info.nTime.toNat > 20 * 60 then
      s.setInfo nId { info with nTime := UInt32.ofInt nTime.toInt }
    else s

/-- One turn of a loop of `Select_`: the bucket, the position in it, and whether the entry passes
its chance (a test of floating point numbers). -/
structure Draw where
  nBucket : Nat
  nPos : Nat
  fChance : Bool

/-- A loop of `Select_` over the buckets `vv`; it has no end but a passed chance. -/
def selectFrom (s : CAddrMan) {k : Nat} (hk : 0 < k) (vv : Fin k → List Int) :
    List Draw → Except Abort (Option CAddress)
  | [] => .ok none
  | draw :: rest =>
    let v := vv ⟨getRandInt draw.nBucket k, getRandInt_lt _ hk⟩
    if v.isEmpty then s.selectFrom hk vv rest
    else
      match v[getRandInt draw.nPos v.length]? with
      | none => .error .dangling
      | some nId => do
        let info ← s.infoAt nId
        if draw.fChance then .ok (some info.toCAddress) else s.selectFrom hk vv rest

/-- `Select_`, as far as it gets with the draws; `fTried` is the test that chooses a tried node. -/
def select_ (fTried : Bool) (draws : List Draw) : Except Abort (Option CAddress) :=
  if s.vRandom.isEmpty then .ok (some ⟨⟨0, 0⟩, 0, 0, 0⟩)
  else if fTried then s.selectFrom (by decide) s.vvTried draws
  else s.selectFrom (by decide) (fun b => (s.vvNew b).toList) draws

/-- One turn of the loop of `GetAddr_`. -/
def getAddrAt (nNow : Int64) (rnd : Nat → Nat) (nNodes : Nat) :
    CAddrMan × List CAddress → Nat → Except Abort (CAddrMan × List CAddress)
  | (s, vAddr), n => do
    if vAddr.length ≥ nNodes then .ok (s, vAddr)
    else
      let nRndPos := getRandInt (rnd n) (s.vRandom.length - n) + n
      let s ← s.swapRandom n nRndPos
      let nId ← s.randomAt n
      let ai ← s.infoAt nId
      if ai.isTerrible nNow then .ok (s, vAddr) else .ok (s, vAddr ++ [ai.toCAddress])

def getAddr_ (nNow : Int64) (rnd : Nat → Nat) (s : CAddrMan) :
    Except Abort (CAddrMan × List CAddress) :=
  let nNodes := min (ADDRMAN_GETADDR_MAX_PCT * s.vRandom.length / 100) ADDRMAN_GETADDR_MAX
  (List.range s.vRandom.length).foldlM (getAddrAt nNow rnd nNodes) (s, [])

end CAddrMan

end Fantom.Net
