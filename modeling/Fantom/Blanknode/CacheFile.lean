/-
  Fantom.Blanknode.CacheFile — The file `sncache.dat`, in which the blanknodes are kept while the
  node is down.

  * `CBlanknodeMan.unserialize` — reading into a list that is there,
  * `CBlanknodeDB.write`, `CBlanknodeDB.read` — the file.

  The list is filled as the file is read.  Where the file ends too early, `Read` returns in front of
  the `Clear` that was to undo this.
-/
import Fantom.Blanknode.Registry
import Fantom.Core.Unserialize
import Fantom.Lib.InPlace
import Fantom.Market.Receive
import Fantom.Net.NetAddr

namespace Fantom.Blanknode.Cache

open Core Lib Market

/-! ## §1. Fields. -/

theorem format_reversed {α : Type} {w : Nat} {toNat : α → Nat} {ofNat : Nat → α}
    (hlt : ∀ a, toNat a < 256 ^ w) (hleft : ∀ a, ofNat (toNat a) = a)
    (hright : ∀ n, n < 256 ^ w → toNat (ofNat n) = n) :
    Format (fun a => (leBytes w (toNat a)).reverse)
      ((fun bs => ofNat (ofLEBytes bs.reverse)) <$> readTake w) (fun _ => True) id where
  reads a rest _ := by
    have htake := readTake_append (leBytes w (toNat a)).reverse rest
    rw [List.length_reverse, leBytes_length] at htake
    rw [StateT.run_map, htake]
    change some (ofNat (ofLEBytes (leBytes w (toNat a)).reverse.reverse), rest) = _
    rw [List.reverse_reverse, ofLEBytes_leBytes (hlt a), hleft]
    rfl
  takes bs a rest h := by
    rw [StateT.run_map] at h
    obtain ⟨⟨xs, rest'⟩, hx, h⟩ := Option.map_eq_some_iff.mp h
    cases h
    obtain ⟨hbs, hlen⟩ := readTake_eq_some hx
    have hnumber : ofLEBytes xs.reverse < 256 ^ w := by
      rw [← hlen, ← List.length_reverse]
      exact ofLEBytes_lt _
    have hback := leBytes_ofLEBytes xs.reverse
    rw [List.length_reverse, hlen] at hback
    dsimp only
    rw [hright _ hnumber, hback, List.reverse_reverse]
    exact ⟨hbs, trivial⟩

theorem format_netAddr :
    Format (fun ip : Net.CNetAddr => (leBytes 16 ip.toNat).reverse)
      ((fun bs => BitVec.ofNat 128 (ofLEBytes bs.reverse)) <$> readTake 16) (fun _ => True) id := by
  refine format_reversed (fun ip => ?_) (fun ip => ?_) fun n hn => ?_
  · exact Nat.lt_of_lt_of_eq ip.isLt (by decide)
  · exact (BitVec.ofNat_toNat 128 ip).trans (BitVec.setWidth_eq ip)
  · exact (BitVec.toNat_ofNat n 128).trans (Nat.mod_eq_of_lt (Nat.lt_of_lt_of_eq hn (by decide)))

theorem format_port :
    Format (fun port : UInt16 => (leBytes 2 port.toNat).reverse)
      ((fun bs => UInt16.ofNat (ofLEBytes bs.reverse)) <$> readTake 2) (fun _ => True) id :=
  format_reversed UInt16.toNat_lt (fun _ => UInt16.ofNat_toNat)
    fun _ hn => UInt16.toNat_ofNat_of_lt hn

def netAddr : Codec Memory UInt8 Net.CNetAddr := .ofFormat format_netAddr

def service : Codec Memory UInt8 Net.CService :=
  (netAddr.seq (.ofFormat format_port)).record (fun addr => (addr.ip, addr.port))
    (fun (ip, port) => { ip, port })

def txIn : Codec Memory UInt8 CTxIn := .ofNorm format_txIn

def outPoint : Codec Memory UInt8 COutPoint := .ofFormat format_outPoint

def readByte : Reader UInt8 UInt8
  | [] => none
  | b :: bs => some (b, bs)

/-- `unsigned char nVersion = 0; READWRITE(nVersion);`  Any version is read. -/
def version : Codec Memory UInt8 Unit where
  write _ := [0]
  read _ := (fun _ => ()) <$> readByte
  Ok _ := True
  norm _ := ()
  reads _ _ _ _ := rfl
  takes _ _ _ _ _ := ⟨trivial, rfl⟩

/-- `bool`, which any byte but 0 makes true. -/
def bool : Codec Memory UInt8 Bool where
  write b := [if b then 1 else 0]
  read _ := (fun f => f != 0) <$> readByte
  Ok _ := True
  norm b := b
  reads := by
    rintro _ (_ | _) _ _
    · rfl
    · rfl
  takes _ _ _ _ _ := ⟨trivial, rfl⟩

/-! ## §2. Entries. -/

/-- `CBlanknode`.  `activeState` is an `int`: what is read need not be a value of `enum state`. -/
abbrev CBlanknode := BlanknodeFields Net.CService PubKey Int32

def MIN_PEER_PROTO_VERSION : Int32 := 60020

/-- The numbers of `enum state`. -/
def stateNumber : ActiveState → Int32
  | .BLANKNODE_ENABLED => 1
  | .BLANKNODE_EXPIRED => 2
  | .BLANKNODE_VIN_SPENT => 3
  | .BLANKNODE_REMOVE => 4
  | .BLANKNODE_POS_ERROR => 5

namespace CBlanknode

/-- `CBlanknode()`, with what `GetAdjustedTime()` is at its two calls. -/
def new (sigTime nLastPaid : Int64) : CBlanknode where
  vin := ⟨.null, [], [], 0xffffffff⟩
  addr := ⟨0, 0⟩
  pubkey := .invalid
  pubkey2 := .invalid
  sig := []
  activeState := 1
  sigTime := sigTime
  lastSseep := 0
  lastTimeSeen := 0
  cacheInputAge := 0
  cacheInputAgeBlock := 0
  unitTest := false
  allowFreeTx := true
  protocolVersion := MIN_PEER_PROTO_VERSION
  nLastSsq := 0
  donationAddress := []
  donationPercentage := 0
  nVote := 0
  lastVote := 0
  nScanningErrorCount := 0
  nLastScanningErrorBlockHeight := 0
  nLastPaid := nLastPaid

def codec : Codec Memory UInt8 CBlanknode :=
  (version.seq <| txIn.seq <| service.seq <| pubKey.seq <| pubKey.seq <| bytes.seq <|
    int32.seq <| int64.seq <| int64.seq <| int64.seq <| int32.seq <| int32.seq <| bool.seq <|
    bool.seq <| int32.seq <| int64.seq <| bytes.seq <| int32.seq <| int32.seq <| int64.seq <|
    int32.seq <| int32.seq int64).record
    (fun sn => ((), sn.vin, sn.addr, sn.pubkey, sn.pubkey2, sn.sig, sn.activeState, sn.sigTime,
      sn.lastSseep, sn.lastTimeSeen, sn.cacheInputAge, sn.cacheInputAgeBlock, sn.unitTest,
      sn.allowFreeTx, sn.protocolVersion, sn.nLastSsq, sn.donationAddress, sn.donationPercentage,
      sn.nVote, sn.lastVote, sn.nScanningErrorCount, sn.nLastScanningErrorBlockHeight,
      sn.nLastPaid))
    (fun ((), vin, addr, pubkey, pubkey2, sig, activeState, sigTime, lastSseep, lastTimeSeen,
        cacheInputAge, cacheInputAgeBlock, unitTest, allowFreeTx, protocolVersion, nLastSsq,
        donationAddress, donationPercentage, nVote, lastVote, nScanningErrorCount,
        nLastScanningErrorBlockHeight, nLastPaid) =>
      { vin, addr, pubkey, pubkey2, sig, activeState, sigTime, lastSseep, lastTimeSeen,
        cacheInputAge, cacheInputAgeBlock, unitTest, allowFreeTx, protocolVersion, nLastSsq,
        donationAddress, donationPercentage, nVote, lastVote, nScanningErrorCount,
        nLastScanningErrorBlockHeight, nLastPaid })

variable {L : Type} (env : RegistryEnv L)

/-- What `Check` reads.  Of the states it asks for `BLANKNODE_VIN_SPENT` alone. -/
def toState (sn : CBlanknode) : CBlanknodeState where
  vin := sn.vin
  activeState := if sn.activeState = 3 then .BLANKNODE_VIN_SPENT else .BLANKNODE_ENABLED
  lastTimeSeen := sn.lastTimeSeen
  unitTest := sn.unitTest
  nScanningErrorCount := sn.nScanningErrorCount

/-- `CBlanknode::Check` on the entry at a place. -/
def check (i : Nat) (sn : CBlanknode) : CBlanknode :=
  if !env.lockRecv i then sn
  else { sn with
    activeState := stateNumber (findState env.accept env.collateralPubKey env.db env.pindexBest
      env.pool env.free sn.toState) }

end CBlanknode

/-! ## §3. The list. -/

/-- `CBlanknodeMan`. -/
structure CBlanknodeMan where
  vBlanknodes : StdVector CBlanknode
  mAskedUsForBlanknodeList : StdMap Net.CNetAddr Int64
  mWeAskedForBlanknodeList : StdMap Net.CNetAddr Int64
  mWeAskedForBlanknodeListEntry : StdMap COutPoint Int64
  nSsqCount : Int64

/-- What is in a list, whatever room it has. -/
@[ext]
structure Contents where
  vBlanknodes : List CBlanknode
  mAskedUsForBlanknodeList : StdMap Net.CNetAddr Int64
  mWeAskedForBlanknodeList : StdMap Net.CNetAddr Int64
  mWeAskedForBlanknodeListEntry : StdMap COutPoint Int64
  nSsqCount : Int64

/-- What `Clear` leaves. -/
def Contents.empty : Contents := ⟨[], ∅, ∅, ∅, 0⟩

/-- A map of requests: the time until which one is not asked again. -/
def askedList : Codec Memory UInt8 (StdMap Net.CNetAddr Int64) :=
  .stdMap compactSize (netAddr.seq int64)

def askedEntries : Codec Memory UInt8 (StdMap COutPoint Int64) :=
  .stdMap compactSize (outPoint.seq int64)

def Contents.codec : Codec Memory UInt8 Contents :=
  (version.seq <| (Codec.vector compactSize CBlanknode.codec).seq <| askedList.seq <|
    askedList.seq <| askedEntries.seq int64).record
    (fun c => ((), c.vBlanknodes, c.mAskedUsForBlanknodeList, c.mWeAskedForBlanknodeList,
      c.mWeAskedForBlanknodeListEntry, c.nSsqCount))
    (fun ((), vBlanknodes, mAskedUsForBlanknodeList, mWeAskedForBlanknodeList,
        mWeAskedForBlanknodeListEntry, nSsqCount) =>
      { vBlanknodes, mAskedUsForBlanknodeList, mWeAskedForBlanknodeList,
        mWeAskedForBlanknodeListEntry, nSsqCount })

/-- What the node is built with. -/
structure Build where
  H : Hashes
  /-- `Params().MessageStart()` -/
  pchMessageStart : Vector UInt8 4
  /-- `5000000 / sizeof(CBlanknode)` -/
  batch : Nat
  batch_pos : 0 < batch

/-- What reading meets on the machine that it runs on. -/
structure Machine where
  mem : Memory
  /-- What an entry holds whose reading throws, with so much left of the stream. -/
  torn : CBlanknode → List UInt8 → CBlanknode
  /-- `GetAdjustedTime()`, twice, while the entry for a place is constructed. -/
  built : Nat → Int64 × Int64
  /-- `GetAdjustedTime()` when room for so many entries is made and the one at a place copied. -/
  now : Nat → Nat → Int64
  newCapacity : Nat → Nat

def Machine.growth (M : Machine) : Growth CBlanknode where
  newCapacity := M.newCapacity
  new i := .new (M.built i).1 (M.built i).2
  copy n i := BlanknodeFields.copyFrom (M.now n i)

variable (B : Build) (M : Machine)

namespace CBlanknodeMan

def contents (man : CBlanknodeMan) : Contents where
  vBlanknodes := man.vBlanknodes.elems
  mAskedUsForBlanknodeList := man.mAskedUsForBlanknodeList
  mWeAskedForBlanknodeList := man.mWeAskedForBlanknodeList
  mWeAskedForBlanknodeListEntry := man.mWeAskedForBlanknodeListEntry
  nSsqCount := man.nSsqCount

/-- `>> snodemanToLoad`: member after member, each where it stands. -/
def unserialize : Loader CBlanknodeMan UInt8 :=
  (Loader.skip (version.read M.mem)).andThen <|
  (Loader.field vBlanknodes (fun man v => { man with vBlanknodes := v })
    (loadVector M.torn M.growth B.batch compactSize CBlanknode.codec M.mem)).andThen <|
  (Loader.field mAskedUsForBlanknodeList
    (fun man m => { man with mAskedUsForBlanknodeList := m })
    (loadMap compactSize (netAddr.seq int64) M.mem)).andThen <|
  (Loader.field mWeAskedForBlanknodeList
    (fun man m => { man with mWeAskedForBlanknodeList := m })
    (loadMap compactSize (netAddr.seq int64) M.mem)).andThen <|
  (Loader.field mWeAskedForBlanknodeListEntry
    (fun man m => { man with mWeAskedForBlanknodeListEntry := m })
    (loadMap compactSize (outPoint.seq int64) M.mem)).andThen <|
  Loader.field nSsqCount (fun man n => { man with nSsqCount := n })
    (Loader.ofReader (int64.read M.mem))

variable {L : Type} (env : RegistryEnv L)

/-- The entries that `CheckAndRemove` removes: `BLANKNODE_REMOVE`, `BLANKNODE_VIN_SPENT`. -/
def removable (sn : CBlanknode) : Bool := sn.activeState == 4 || sn.activeState == 3

theorem length_check_le (man : CBlanknodeMan) :
    (man.vBlanknodes.elems.mapIdx (CBlanknode.check env)).length ≤ man.vBlanknodes.capacity := by
  rw [List.length_mapIdx]
  exact man.vBlanknodes.size_le

/-- `CheckAndRemove`.  `now e i` is the time at which the `e`-th erasure copies the entry that
stood at place `i`. -/
def checkAndRemove (now : Nat → Nat → Int64) (man : CBlanknodeMan) : CBlanknodeMan where
  vBlanknodes := StdVector.eraseAll removable (fun e i _ => BlanknodeFields.copyFrom (now e i))
    ⟨man.vBlanknodes.elems.mapIdx (CBlanknode.check env), man.vBlanknodes.capacity,
      length_check_le env man⟩
  mAskedUsForBlanknodeList :=
    CBlanknodeRegistry.eraseExpired env.nTime man.mAskedUsForBlanknodeList
  mWeAskedForBlanknodeList :=
    CBlanknodeRegistry.eraseExpired env.nTime man.mWeAskedForBlanknodeList
  mWeAskedForBlanknodeListEntry :=
    CBlanknodeRegistry.eraseExpired env.nTime man.mWeAskedForBlanknodeListEntry
  nSsqCount := man.nSsqCount

end CBlanknodeMan

/-! ## §4. The file. -/

/-- `strMagicMessage`: "BlanknodeCache". -/
def strMagicMessage : List UInt8 :=
  [0x42, 0x6c, 0x61, 0x6e, 0x6b, 0x6e, 0x6f, 0x64, 0x65, 0x43, 0x61, 0x63, 0x68, 0x65]

/-- `CBlanknodeDB::ReadResult` -/
inductive ReadResult where
  | Ok
  | FileError
  | HashReadError
  | IncorrectHash
  | IncorrectMagicMessage
  | IncorrectMagicNumber
  | IncorrectFormat
deriving DecidableEq, Repr

namespace CBlanknodeDB

/-- `ssBlanknodes`, in front of the hash. -/
def dataOf (man : CBlanknodeMan) : List UInt8 :=
  serializeBytes strMagicMessage ++ (B.pchMessageStart.toList ++ Contents.codec.write man.contents)

/-- `CBlanknodeDB::Write`: the file. -/
def write (man : CBlanknodeMan) : List UInt8 :=
  dataOf B man ++ leBytes 32 (B.H.hash (dataOf B man)).toNat

/-- `int dataSize = fileSize - sizeof(uint256)`, or 0 if this is negative; both are of 32 bits. -/
def dataSize (fileSize : Nat) : Nat := (Int32.ofNat fileSize - 32).toInt.toNat

/-- `filein.read((char *)&vchData[0], dataSize); filein >> hashIn;` -/
def readData (n : Nat) : Reader UInt8 (List UInt8 × UInt256) := do
  let vchData ← readTake n
  let hashIn ← readUInt256
  return (vchData, hashIn)

/-- `CBlanknodeDB::Read` in front of `ssBlanknodes >> snodemanToLoad`: what is left of the stream.
There is no content if the file cannot be opened. -/
def readHeader (content : Option (List UInt8)) : Except ReadResult (List UInt8) :=
  match content with
  | none => .error .FileError
  | some file =>
    match (readData (dataSize file.length)).run file with
    | none => .error .HashReadError
    | some ((vchData, hashIn), _) =>
      if hashIn ≠ B.H.hash vchData then .error .IncorrectHash
      else
        match unserializeBytes.run vchData with
        | none => .error .IncorrectFormat
        | some (strMagicMessageTmp, ssBlanknodes) =>
          if strMagicMessage ≠ strMagicMessageTmp then .error .IncorrectMagicMessage
          else
            match (readTake 4).run ssBlanknodes with
            | none => .error .IncorrectFormat
            | some (pchMsgTmp, ssBlanknodes) =>
              if pchMsgTmp ≠ B.pchMessageStart.toList then .error .IncorrectMagicNumber
              else .ok ssBlanknodes

/-- `CBlanknodeDB::Read` in front of `CheckAndRemove`. -/
def load (content : Option (List UInt8)) (snodemanToLoad : CBlanknodeMan) :
    ReadResult × CBlanknodeMan :=
  match readHeader B content with
  | .error result => (result, snodemanToLoad)
  | .ok ssBlanknodes =>
    match (CBlanknodeMan.unserialize B M snodemanToLoad ssBlanknodes).2 with
    -- `return IncorrectFormat` stands in front of `snodemanToLoad.Clear()`
    | none => (.IncorrectFormat, (CBlanknodeMan.unserialize B M snodemanToLoad ssBlanknodes).1)
    | some _ => (.Ok, (CBlanknodeMan.unserialize B M snodemanToLoad ssBlanknodes).1)

def read {L : Type} (env : RegistryEnv L) (now : Nat → Nat → Int64)
    (content : Option (List UInt8)) (snodemanToLoad : CBlanknodeMan) :
    ReadResult × CBlanknodeMan :=
  match load B M content snodemanToLoad with
  | (.Ok, man) => (.Ok, man.checkAndRemove env now)
  | failed => failed

end CBlanknodeDB

end Fantom.Blanknode.Cache
