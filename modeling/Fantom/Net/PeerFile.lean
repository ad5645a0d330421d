/-
  Fantom.Net.PeerFile — The file with the table of peers.

  * `StoredInfo` — what the file has of an entry.
-/
import Fantom.Net.AddrMan

namespace Fantom.Net

open Core Lib Function

/-! ## §1. What the file has. -/

/-- A `CAddrInfo` in the file: the members that are not in memory only. -/
structure StoredInfo extends CService where
  nServices : UInt64
  nTime : UInt32
  source : CNetAddr
  nLastSuccess : Int64
  nAttempts : Int32
deriving DecidableEq

/-- What `s << info` writes. -/
def CAddrInfo.stored (info : CAddrInfo) : StoredInfo where
  toCService := info.toCService
  nServices := info.nServices
  nTime := info.nTime
  source := info.source
  nLastSuccess := info.nLastSuccess
  nAttempts := info.nAttempts

/-- What `s >> info` makes of a `CAddrInfo()`. -/
def StoredInfo.info (d : StoredInfo) : CAddrInfo where
  toCService := d.toCService
  nServices := d.nServices
  nTime := d.nTime
  nLastTry := 0
  source := d.source
  nLastSuccess := d.nLastSuccess
  nAttempts := d.nAttempts
  nRefCount := 0
  fInTried := false
  nRandomPos := -1

/-- `CAddrInfo()` -/
def CAddrInfo.fresh : CAddrInfo where
  ip := 0
  port := 0
  nServices := 1
  nTime := 100000000
  nLastTry := 0
  source := 0
  nLastSuccess := 0
  nAttempts := 0
  nRefCount := 0
  fInTried := false
  nRandomPos := -1

/-- A value in the stream. -/
inductive Word where
  | version (nVersion : UInt8)
  | key (nKey : List UInt8)
  | int (n : Int)
  | info (d : StoredInfo)
deriving DecidableEq

/-! ## §2. Serialize. -/

namespace CAddrMan

/-- The first loop: the new entries, and the number that each id gets. -/
def writeNew (nNew : Int) :
    List (Int × CAddrInfo) → Nat → StdMap Int Int → List Word × StdMap Int Int
  | [], _, mapUnkIds => ([], mapUnkIds)
  | (nId, info) :: rest, nIds, mapUnkIds =>
    -- this means nNew was wrong
    if (nIds : Int) = nNew then ([], mapUnkIds)
    else
      let mapUnkIds := mapUnkIds.insert nId nIds
      if info.nRefCount ≠ 0 then
        let r := writeNew nNew rest (nIds + 1) mapUnkIds
        (.info info.stored :: r.1, r.2)
      else writeNew nNew rest nIds mapUnkIds

def writeTried (nTried : Int) : List (Int × CAddrInfo) → Nat → List Word
  | [], _ => []
  | (_, info) :: rest, nIds =>
    -- this means nTried was wrong
    if (nIds : Int) = nTried then []
    else if info.fInTried then .info info.stored :: writeTried nTried rest (nIds + 1)
    else writeTried nTried rest nIds

def writeBucket (mapUnkIds : StdMap Int Int) (vNew : StdSet Int) : List Word :=
  .int vNew.size :: vNew.toList.map fun nId => .int (mapUnkIds[nId]?.getD 0)

def serialize (s : CAddrMan) : List Word :=
  let r := writeNew s.nNew s.mapInfo.toList 0 ∅
  [.version 0, .key s.nKey, .int s.nNew, .int s.nTried, .int ADDRMAN_NEW_BUCKET_COUNT] ++
    r.1 ++ writeTried s.nTried s.mapInfo.toList 0 ++
      (List.finRange ADDRMAN_NEW_BUCKET_COUNT).flatMap fun b => writeBucket r.2 (s.vvNew b)

/-! ## §3. Unserialize. -/

def endOfData : Abort := .threw "CDataStream::read() : end of data"

def readVersion : List Word → Except Abort (UInt8 × List Word)
  | .version nVersion :: ws => .ok (nVersion, ws)
  | _ => .error endOfData

def readKey : List Word → Except Abort (List UInt8 × List Word)
  | .key nKey :: ws => .ok (nKey, ws)
  | _ => .error endOfData

def readInt : List Word → Except Abort (Int × List Word)
  | .int n :: ws => .ok (n, ws)
  | _ => .error endOfData

def readInfo : List Word → Except Abort (StoredInfo × List Word)
  | .info d :: ws => .ok (d, ws)
  | _ => .error endOfData

variable (H : Hashes) (nUBuckets : Int)

/-- One turn of the loop over the new entries; `mapInfo[n]` is not there yet. -/
def readNew : CAddrMan × List Word → Nat → Except Abort (CAddrMan × List Word)
  | (s, ws), n => do
    let (d, ws) ← readInfo ws
    let info := { d.info with nRandomPos := s.vRandom.length }
    let s := { s with
      mapAddr := s.mapAddr.insert info.ip n
      vRandom := s.vRandom ++ [(n : Int)] }
    if nUBuckets ≠ ADDRMAN_NEW_BUCKET_COUNT then
      let b := info.getNewBucket H s.nKey info.source
      .ok ({ s.setInfo n { info with nRefCount := info.nRefCount + 1 } with
        vvNew := update s.vvNew b ((s.vvNew b).insert n) }, ws)
    else .ok (s.setInfo n info, ws)

/-- One turn of the loop over the tried entries; the number is `nLost`. -/
def readTried : CAddrMan × Nat × List Word → Nat → Except Abort (CAddrMan × Nat × List Word)
  | (s, nLost, ws), _ => do
    let (d, ws) ← readInfo ws
    let k := d.info.getTriedBucket H s.nKey
    if (s.vvTried k).length < ADDRMAN_TRIED_BUCKET_SIZE then
      let info := { d.info with nRandomPos := s.vRandom.length, fInTried := true }
      let (nId, s) ← s.takeId
      .ok ({ s.setInfo nId info with
        vRandom := s.vRandom ++ [nId]
        mapAddr := s.mapAddr.insert info.ip nId
        vvTried := update s.vvTried k (s.vvTried k ++ [nId]) }, nLost, ws)
    else .ok (s, nLost + 1, ws)

/-- One turn of the loop over a bucket; `mapInfo[nIndex]` is made when it is not there. -/
def readIndex (b : Fin ADDRMAN_NEW_BUCKET_COUNT) :
    CAddrMan × List Word → Nat → Except Abort (CAddrMan × List Word)
  | (s, ws), _ => do
    let (nIndex, ws) ← readInt ws
    let info := s.mapInfo[nIndex]?.getD CAddrInfo.fresh
    let s := s.setInfo nIndex info
    if nUBuckets = ADDRMAN_NEW_BUCKET_COUNT ∧
        info.nRefCount < ADDRMAN_NEW_BUCKETS_PER_ADDRESS then
      .ok ({ s.setInfo nIndex { info with nRefCount := info.nRefCount + 1 } with
        vvNew := update s.vvNew b ((s.vvNew b).insert nIndex) }, ws)
    else .ok (s, ws)

/-- One turn of the loop over the buckets of the file. -/
def readBucket : CAddrMan × List Word → Nat → Except Abort (CAddrMan × List Word)
  | (s, ws), b =>
    -- `vvNew[b]`
    if h : b < ADDRMAN_NEW_BUCKET_COUNT then do
      let (nSize, ws) ← readInt ws
      (List.range nSize.toNat).foldlM (readIndex nUBuckets ⟨b, h⟩) (s, ws)
    else .error .dangling

/-- `Unserialize`: the table from the words of `peers.dat`. -/
def unserialize (ws : List Word) : Except Abort CAddrMan := do
  let (_, ws) ← readVersion ws
  let (nKey, ws) ← readKey ws
  let (nNew, ws) ← readInt ws
  let (nTried, ws) ← readInt ws
  let (nUBuckets, ws) ← readInt ws
  let s := { empty nKey with nNew := nNew, nTried := nTried }
  let (s, ws) ← (List.range nNew.toNat).foldlM (readNew H nUBuckets) (s, ws)
  let s := { s with nIdCount := Int32.ofInt nNew }
  let (s, nLost, ws) ← (List.range nTried.toNat).foldlM (readTried H) (s, 0, ws)
  let s := { s with nTried := s.nTried - nLost }
  let (s, _) ← (List.range nUBuckets.toNat).foldlM (readBucket nUBuckets) (s, ws)
  .ok s

/-! ## §4. Well-formed files. -/

/-- A file as it is laid out, with any number of buckets. -/
structure PeerFile where
  nKey : List UInt8
  new : List StoredInfo
  tried : List StoredInfo
  /-- The entries of each bucket, by their number. -/
  buckets : List (List Int)
deriving DecidableEq

def PeerFile.words (f : PeerFile) : List Word :=
  [.version 0, .key f.nKey, .int f.new.length, .int f.tried.length, .int f.buckets.length] ++
    f.new.map .info ++ f.tried.map .info ++
      f.buckets.flatMap fun v => .int v.length :: v.map .int

/-- The entries have numbers in `int`, no address is there twice, the statistics pass their tests,
and the numbers in the buckets are those of new entries. -/
structure PeerFile.WellFormed (f : PeerFile) : Prop where
  count : (f.new ++ f.tried).length < 2 ^ 31
  nodup : ((f.new ++ f.tried).map fun d => d.ip).Nodup
  nLastSuccess : ∀ d ∈ f.new ++ f.tried, 0 ≤ d.nLastSuccess
  tried : ∀ d ∈ f.tried, d.nLastSuccess ≠ 0
  buckets : ∀ v ∈ f.buckets, ∀ n ∈ v, 0 ≤ n ∧ n < f.new.length

end CAddrMan

end Fantom.Net
