/-
  Fantom.Smsg.Handlers — What a node does with the messages of the secure-message network, what it
  advertises and sends itself, and its runs.

  * `secureMsgPow`, `threadRound`, `restart` — a message of this node, a round of the bucket thread,
    and the start,
  * `NetEvent`, `netStep` — what happens to a node, as long as its handlers return.

  Files are read and written without error, and so is the inbox.
-/
import Fantom.Smsg.Encryption
import Fantom.Smsg.Store

namespace Fantom.Smsg

open Core Lib

/-! ## §1. The hash of a bucket. -/

def PRIME32_1 : UInt32 := 2654435761
def PRIME32_2 : UInt32 := 2246822519
def PRIME32_3 : UInt32 := 3266489917
def PRIME32_4 : UInt32 := 668265263
def PRIME32_5 : UInt32 := 374761393

/-- `XXH_rotl32` -/
def rotl32 (x r : UInt32) : UInt32 := (x <<< r) ||| (x >>> (32 - r))

/-- `XXH_state32_t` -/
structure XXHState where
  total_len : UInt64
  seed : UInt32
  v1 : UInt32
  v2 : UInt32
  v3 : UInt32
  v4 : UInt32
  /-- The `memsize` bytes of it that are in use, less than 16. -/
  memory : List UInt8

def XXH32_init (seed : UInt32) : XXHState :=
  ⟨0, seed, seed + PRIME32_1 + PRIME32_2, seed + PRIME32_2, seed, seed - PRIME32_1, []⟩

/-- `XXH_readLE32`, of the bytes from `o` on. -/
def readLE32 (bytes : List UInt8) (o : Nat) : UInt32 :=
  UInt32.ofNat (ofLEBytes ((bytes.drop o).take 4))

def lane (v word : UInt32) : UInt32 := rotl32 (v + word * PRIME32_2) 13 * PRIME32_1

/-- As many stripes of 16 bytes; what is behind them is left in the memory. -/
def stripes : Nat → XXHState → List UInt8 → XXHState
  | 0, state, data => { state with memory := data }
  | n + 1, state, data =>
    stripes n
      { state with
        v1 := lane state.v1 (readLE32 data 0)
        v2 := lane state.v2 (readLE32 data 4)
        v3 := lane state.v3 (readLE32 data 8)
        v4 := lane state.v4 (readLE32 data 12) }
      (data.drop 16)

/-- `XXH32_update`: the first stripe begins with what is left in the memory. -/
def XXH32_update (state : XXHState) (input : List UInt8) : XXHState :=
  let data := state.memory ++ input
  stripes (data.length / 16)
    { state with total_len := state.total_len + UInt64.ofNat input.length } data

def digestWords (h32 : UInt32) (bytes : List UInt8) : UInt32 :=
  match bytes with
  | a :: b :: c :: d :: rest =>
    digestWords (rotl32 (h32 + readLE32 [a, b, c, d] 0 * PRIME32_3) 17 * PRIME32_4) rest
  | rest => rest.foldl (fun h32 p => rotl32 (h32 + p.toUInt32 * PRIME32_5) 11 * PRIME32_1) h32

/-- `XXH32_digest` -/
def XXH32_digest (state : XXHState) : UInt32 :=
  let h32 :=
    if 16 ≤ state.total_len then
      rotl32 state.v1 1 + rotl32 state.v2 7 + rotl32 state.v3 12 + rotl32 state.v4 18
    else state.seed + PRIME32_5
  let h32 := digestWords (h32 + state.total_len.toUInt32) state.memory
  let h32 := (h32 ^^^ (h32 >>> 15)) * PRIME32_2
  let h32 := (h32 ^^^ (h32 >>> 13)) * PRIME32_3
  h32 ^^^ (h32 >>> 16)

/-! ## §2. Nodes and their peers. -/

/-- `SecMsgBucket`, but for its `setTokens`. -/
structure BucketInfo where
  timeChanged : Int := 0
  hash : UInt32 := 0
  nLockCount : UInt32 := 0
  nLockPeerId : Int := 0
deriving DecidableEq

/-- `SecMsgNode`: what is known of a peer. -/
structure SecMsgNode where
  lastSeen : Int := 0
  lastMatched : Int := 0
  ignoreUntil : Int := 0
  nWakeCounter : UInt32 := 0
  fEnabled : Bool := false
deriving DecidableEq

/-- `CNode` -/
structure Peer where
  id : Int
  nMisbehavior : Nat := 0
  smsgData : SecMsgNode := {}
deriving DecidableEq

/-- `CNode::Misbehaving`: `nMisbehavior` is what it is called with.  The peer's address is not
local, for which nothing would be added. -/
def Peer.misbehaving (pfrom : Peer) (howmuch : Nat) : Peer :=
  { pfrom with nMisbehavior := pfrom.nMisbehavior + howmuch }

/-- `SecMsgAddress` -/
structure SecMsgAddress where
  sAddress : List Char
  fReceiveEnabled : Bool
  fReceiveAnon : Bool

/-- `SecMsgStored`, of the inbox. -/
structure SecMsgStored where
  timeReceived : Int
  status : UInt8
  sAddrTo : List Char
  vchMessage : List UInt8
deriving DecidableEq

/-- The state of secure messages.  A bucket that there is not has the `BucketInfo` of a new
one. -/
structure SmsgState (C : SmsgCrypto) extends SmsgStore, Node C where
  bucketInfo : Int → BucketInfo
  smsgAddresses : List SecMsgAddress
  /-- `pwalletMain->IsLocked()` -/
  isLocked : Bool
  /-- The messages under "im" in the database. -/
  inbox : List (List UInt8 × SecMsgStored)

/-- `strCommand` -/
inductive Command where
  | smsgInv
  | smsgShow
  | smsgHave
  | smsgWant
  | smsgMsg
  | smsgMatch
  | smsgPing
  | smsgPong
  | smsgDisabled
  | smsgIgnore
  | unknown
deriving DecidableEq

/-- The end of a handler: what it returns, and what it has pushed to the peer. -/
structure Handled (C : SmsgCrypto) where
  returned : Bool
  pfrom : Peer
  st : SmsgState C
  pushed : List (Command × List UInt8)

variable {C : SmsgCrypto}

def samples (setTokens : TokenSet) : List (List UInt8) :=
  setTokens.toList.map fun e => e.1.sample.toList

def hashSamples (setTokens : TokenSet) : UInt32 :=
  XXH32_digest ((samples setTokens).foldl XXH32_update (XXH32_init 1))

namespace SmsgState

def start (node : Node C) (now : Int) : SmsgState C :=
  { SmsgStore.start now, node with
    bucketInfo := fun _ => {}
    smsgAddresses := []
    isLocked := false
    inbox := [] }

variable (st : SmsgState C)

variable (bucket : Int)

def setInfo (info : BucketInfo) : SmsgState C :=
  { st with bucketInfo := fun b => if b = bucket then info else st.bucketInfo b }

/-- `smsgBuckets[bucket]`, which makes the bucket. -/
def touch : SmsgState C :=
  { st with smsgBuckets := st.smsgBuckets.insert bucket (st.tokenSet bucket) }

def hashBucket : SmsgState C :=
  st.setInfo bucket { st.bucketInfo bucket with
    timeChanged := st.now
    hash := hashSamples (st.tokenSet bucket) }

/-- `SecureMsgStore`, and the bucket hashed if `fUpdateBucket`. -/
def store (m : Message) (fUpdateBucket : Bool) : Nat × SmsgState C :=
  let (rv, smsgStore) := st.toSmsgStore.secureMsgStore m
  let st := { st with toSmsgStore := smsgStore }
  (rv, if rv = 0 ∧ fUpdateBucket then st.hashBucket m.bucket else st)

end SmsgState

/-! ## §3. What was received. -/

/-- How a handler ends that does not return. -/
inductive Fault where
  /-- A read outside of the data that was received. -/
  | outside
  /-- Anything else. -/
  | other (a : Abort)
deriving DecidableEq

def otherwise {α : Type} : Except Abort α → Except Fault α
  | .ok a => .ok a
  | .error a => .error (.other a)

variable (vchData : List UInt8)

/-- `memcpy` of `n` bytes from `&vchData[o]`. -/
def readIn (o n : Nat) : Except Fault (List UInt8) :=
  if o + n ≤ vchData.length then .ok ((vchData.drop o).take n) else .error .outside

variable (o : Nat)

/-- An `int64_t` at `&vchData[o]`. -/
def readTime : Except Fault Int :=
  (fun bs => (UInt64.ofNat (ofLEBytes bs)).toInt64.toInt) <$> readIn vchData o 8

/-- A `uint32_t` at `&vchData[o]`. -/
def readCount : Except Fault UInt32 :=
  (fun bs => UInt32.ofNat (ofLEBytes bs)) <$> readIn vchData o 4

/-- The timestamp and the sample of a token at `&vchData[o]`. -/
def readToken : Except Fault SecMsgKey := do
  let bs ← readIn vchData o 8
  let sample ← readIn vchData (o + 8) 8
  return ⟨(UInt64.ofNat (ofLEBytes bs)).toInt64, sampleOf sample⟩

/-- An `int64_t` in memory. -/
def timeBytes (time : Int) : List UInt8 := leBytes 8 (Int64.ofInt time).toUInt64.toNat

/-- The header at `&vchData[o]`. -/
def headerAt : Except Fault SecureMessage :=
  match readSecureMessage.run (vchData.drop o) with
  | some (smsg, _) => .ok smsg
  | none => .error .outside

/-- The header at `&vchData[o]` with the `nPayload` bytes behind it. -/
def messageAt : Except Fault Message :=
  match readMessage.run (vchData.drop o) with
  | some (m, _) => .ok m
  | none => .error .outside

/-! ## §4. Inventories. -/

/-- The loop of "smsgInv": the buckets to ask for, and how many are locked. -/
structure InvLoop (C : SmsgCrypto) where
  pfrom : Peer
  st : SmsgState C
  show_ : List Int
  nLocked : Nat

def invEntry (i : Nat) (s : InvLoop C) : Except Fault (InvLoop C) := do
  let time ← readTime vchData (4 + 16 * i)
  let ncontent ← readCount vchData (4 + 16 * i + 8)
  let hash ← readCount vchData (4 + 16 * i + 12)
  if time < s.st.now - SMSG_RETENTION then
    if time < s.st.now - SMSG_RETENTION - SMSG_TIME_LEEWAY then
      return { s with pfrom := s.pfrom.misbehaving 1 }
    else return s
  else if time > s.st.now + SMSG_TIME_LEEWAY then
    return { s with pfrom := s.pfrom.misbehaving 1 }
  else if ncontent < 1 then return s
  else
    let st := s.st.touch time
    if (st.bucketInfo time).nLockCount > 0 then return { s with st := st, nLocked := s.nLocked + 1 }
    else
      let size := (st.tokenSet time).size
      if size < ncontent.toNat || size == ncontent.toNat && (st.bucketInfo time).hash != hash then
        return { s with st := st, show_ := s.show_ ++ [time] }
      else return { s with st := st }

variable (st : SmsgState C)

variable (pfrom : Peer)

/-- The handler of `smsgInv`. -/
def smsgInv (vchData : List UInt8) : Except Fault (Handled C) := do
  if vchData.length < 4 then return ⟨false, pfrom.misbehaving 1, st, []⟩
  else if st.now < pfrom.smsgData.ignoreUntil then return ⟨false, pfrom, st, []⟩
  else
    let nInvBuckets ← readCount vchData 0
    if (nInvBuckets.toNat : Int) > SMSG_RETENTION / SMSG_BUCKET_LEN + 1 then
      return ⟨false, pfrom.misbehaving 1, st, []⟩
    else if vchData.length < (4 + nInvBuckets * 16).toNat then
      return ⟨false, pfrom.misbehaving 1, st, []⟩
    else
      let s ← forLoop (invEntry vchData) 0 nInvBuckets.toNat ⟨pfrom, st, [], 0⟩
      if s.show_ ≠ [] then
        let vchDataOut := leBytes 4 s.show_.length ++ s.show_.flatMap timeBytes
        return ⟨true, s.pfrom, s.st, [(.smsgShow, vchDataOut)]⟩
      else if s.nLocked < 1 then
        return ⟨true, s.pfrom, s.st, [(.smsgMatch, timeBytes st.now)]⟩
      else return ⟨true, s.pfrom, s.st, []⟩

/-- A round of "smsgShow", with what was pushed before. -/
def showEntry (vchData : List UInt8) (i : Nat) (pushed : List (Command × List UInt8)) :
    Except Fault (List (Command × List UInt8)) := do
  let time ← readTime vchData (4 + 8 * i)
  match st.smsgBuckets[time]? with
  | none => return pushed
  | some tokenSet =>
    let tokens := tokenSet.toList.flatMap fun e =>
      leBytes 8 e.1.timestamp.toUInt64.toNat ++ e.1.sample.toList
    return pushed ++ [(.smsgHave, timeBytes time ++ tokens)]

/-- The handler of `smsgShow`. -/
def smsgShow (vchData : List UInt8) : Except Fault (Handled C) := do
  if vchData.length < 4 then return ⟨false, pfrom, st, []⟩
  else
    let nBuckets ← readCount vchData 0
    -- in `unsigned int`
    if vchData.length < (4 + nBuckets * 8).toNat then return ⟨false, pfrom, st, []⟩
    else
      let pushed ← forLoop (showEntry st vchData) 0 nBuckets.toNat []
      return ⟨true, pfrom, st, pushed⟩

/-! ## §5. Tokens. -/

/-- A round of "smsgHave": the tokens that are not in the set. -/
def haveEntry (tokenSet : TokenSet) (vchData : List UInt8) (i : Nat) (wanted : List UInt8) :
    Except Fault (List UInt8) := do
  let token ← readToken vchData (8 + 16 * i)
  if tokenSet.contains token then return wanted
  else
    let bs ← readIn vchData (8 + 16 * i) 16
    return wanted ++ bs

/-- The handler of `smsgHave`. -/
def smsgHave (vchData : List UInt8) : Except Fault (Handled C) := do
  if vchData.length < 8 then return ⟨false, pfrom, st, []⟩
  else
    let n := (vchData.length - 8) / 16
    let time ← readTime vchData 0
    if time < st.now - SMSG_RETENTION then return ⟨false, pfrom, st, []⟩
    else if time > st.now + SMSG_TIME_LEEWAY then return ⟨false, pfrom.misbehaving 1, st, []⟩
    else
      let st := st.touch time
      if (st.bucketInfo time).nLockCount > 0 then return ⟨false, pfrom, st, []⟩
      else
        let wanted ← forLoop (haveEntry (st.tokenSet time) vchData) 0 n []
        if wanted ≠ [] then
          -- locked for three rounds of the thread at most
          let st := st.setInfo time
            { st.bucketInfo time with nLockCount := 3, nLockPeerId := pfrom.id }
          return ⟨true, pfrom, st, [(.smsgWant, timeBytes time ++ wanted)]⟩
        else return ⟨true, pfrom, st, []⟩

/-- The loop of "smsgWant": how many messages there are to send, and their bytes. -/
structure WantLoop where
  nBunch : Nat
  vchBunch : List UInt8
  /-- The loop has ended early. -/
  full : Bool

def wantEntry (tokenSet : TokenSet) (vchData : List UInt8) (i : Nat) (s : WantLoop) :
    Except Fault WantLoop := do
  if s.full then return s
  else
    let token ← readToken vchData (8 + 16 * i)
    match tokenSet[token]? with
    | none => return s
    | some offset =>
      let s := match st.toSmsgStore.secureMsgRetrieve ⟨token, offset⟩ with
        | some vchOne => { s with nBunch := s.nBunch + 1, vchBunch := s.vchBunch ++ vchOne }
        | none => s
      -- the count and the time are in front
      return { s with full := decide (s.nBunch ≥ 500) || decide (12 + s.vchBunch.length ≥ 96000) }

/-- The handler of `smsgWant`. -/
def smsgWant (vchData : List UInt8) : Except Fault (Handled C) := do
  if vchData.length < 8 then return ⟨false, pfrom, st, []⟩
  else
    let n := (vchData.length - 8) / 16
    let time ← readTime vchData 0
    match st.smsgBuckets[time]? with
    | none => return ⟨false, pfrom, st, []⟩
    | some tokenSet =>
      let s ← forLoop (wantEntry st tokenSet vchData) 0 n ⟨0, [], false⟩
      if s.nBunch > 0 then
        let vchBunch := leBytes 4 s.nBunch ++ (timeBytes time ++ s.vchBunch)
        return ⟨true, pfrom, st, [(.smsgMsg, vchBunch)]⟩
      else return ⟨true, pfrom, st, []⟩

/-! ## §6. Messages. -/

variable (B : AddressTexts)

/-- `coinAddress.ToString()` of the address with this text. -/
def addressText (sAddress : List Char) : List Char :=
  match B.setString sAddress with
  | some (.key ckid) => B.toText ckid
  | _ => sAddress

/-- The loop of `SecureMsgScanMessage`: the address that the message is for, if it is taken. -/
def ownAddress (B : AddressTexts) (node : Node C) (m : Message) :
    List SecMsgAddress → MessageData → Except Abort (Option (List Char))
  | [], _ => .ok none
  | it :: rest, msg =>
    if !it.fReceiveEnabled then ownAddress B node m rest msg
    else do
      let addressTo := addressText B it.sAddress
      if !it.fReceiveAnon then
        -- to see who it is from, it is decrypted
        let (rv, msg) ← secureMsgDecrypt B node false addressTo m.smsg m.pPayload msg
        if rv = 0 then
          return if msg.sFromAddress ≠ anon then some addressTo else none
        else ownAddress B node m rest msg
      else
        let (rv, msg) ← secureMsgDecrypt B node true addressTo m.smsg m.pPayload msg
        if rv = 0 then return some addressTo else ownAddress B node m rest msg

/-- `SecureMsgScanMessage`, of the message at `&vchData[n]`. -/
def secureMsgScanMessage (vchData : List UInt8) (n : Nat) (st : SmsgState C) (m : Message) :
    Except Fault (Nat × SmsgState C) :=
  if st.isLocked then
    let (rv, smsgStore) := st.toSmsgStore.secureMsgStoreUnscanned m
    .ok (if rv ≠ 0 then 1 else 3, { st with toSmsgStore := smsgStore })
  else do
    match ← otherwise (ownAddress B st.toNode m st.smsgAddresses ⟨0, [], []⟩) with
    | none => return (0, st)
    | some addressTo =>
      -- 8 bytes, whatever the payload has
      let sample ← readIn vchData (n + SMSG_HDR_LEN) 8
      let chKey := [105, 109] ++ (leBytes 8 m.smsg.timestamp.toUInt64.toNat ++ sample)
      if st.inbox.any (fun e => e.1 == chKey) then return (0, st)
      else return (0, { st with inbox := (chKey, ⟨st.now, 1, addressTo, m.bytes⟩) :: st.inbox })

/-- `SecureMsgValidate` of the header at `&vchData[n]`, with as many bytes behind it as the
header says. -/
def validateAt (hmac : HmacSha256) (vchData : List UInt8) (n : Nat) : Except Fault Nat := do
  let smsg ← headerAt vchData n
  if smsg.protocol ≠ 1 then return 4
  else if smsg.nPayload.toNat > SMSG_MAX_MSG_WORST then return 5
  else
    let m ← messageAt vchData n
    return secureMsgValidate hmac m.smsg m.pPayload

/-- The loop of `SecureMsgReceive`. -/
structure ReceiveLoop (C : SmsgCrypto) where
  n : Nat
  pfrom : Peer
  st : SmsgState C

/-- The loop of `SecureMsgReceive` over the messages of a bunch. -/
def receiveLoop (B : AddressTexts) (hmac : HmacSha256) (vchData : List UInt8) :
    Nat → ReceiveLoop C → Except Fault (ReceiveLoop C)
  | 0, s => .ok s
  | left + 1, s =>
    -- `vchData.size() - n`, in `size_t`
    if (vchData.length + 2 ^ 64 - s.n) % 2 ^ 64 < SMSG_HDR_LEN then .ok s
    else do
      let rv ← validateAt hmac vchData s.n
      if rv ≠ 0 then
        -- the next round is at the same place
        receiveLoop B hmac vchData left
          { s with pfrom := s.pfrom.misbehaving (if rv = 2 then 10 else 1) }
      else
        let m ← messageAt vchData s.n
        let (rv, st) := s.st.store m false
        if rv ≠ 0 then return { s with st := st }
        else
          let (_, st) ← secureMsgScanMessage B vchData s.n st m
          receiveLoop B hmac vchData left
            { s with n := s.n + (SMSG_HDR_LEN + m.smsg.nPayload.toNat), st := st }

/-- `SecureMsgReceive` -/
def secureMsgReceive (hmac : HmacSha256) (st : SmsgState C) (pfrom : Peer) (vchData : List UInt8) :
    Except Fault (Peer × SmsgState C) := do
  if vchData.length < 12 then return (pfrom, st)
  else
    let nBunch ← readCount vchData 0
    let bktTime ← readTime vchData 4
    if bktTime > st.now + SMSG_TIME_LEEWAY then return (pfrom, st)
    else if bktTime < st.now - SMSG_RETENTION then return (pfrom, st)
    else if nBunch = 0 ∨ nBunch > 500 then
      let st :=
        if st.smsgBuckets.contains bktTime then
          st.setInfo bktTime { st.bucketInfo bktTime with nLockCount := 0 }
        else st
      return (pfrom.misbehaving 1, st)
    else
      let s ← receiveLoop B hmac vchData nBunch.toNat ⟨12, pfrom, st⟩
      if s.st.smsgBuckets.contains bktTime then
        let st := s.st.setInfo bktTime
          { s.st.bucketInfo bktTime with nLockCount := 0, nLockPeerId := 0 }
        return (s.pfrom, st.hashBucket bktTime)
      else return (s.pfrom, s.st)

/-! ## §7. All commands. -/

def smsgMatch (vchData : List UInt8) : Except Fault (Handled C) := do
  if vchData.length < 8 then return ⟨false, pfrom.misbehaving 1, st, []⟩
  else
    let time ← readTime vchData 0
    let time := if time > st.now + SMSG_TIME_LEEWAY then st.now else time
    return ⟨true, { pfrom with smsgData.lastMatched := time }, st, []⟩

def smsgIgnore (vchData : List UInt8) : Except Fault (Handled C) := do
  if vchData.length < 8 then return ⟨false, pfrom.misbehaving 1, st, []⟩
  else
    let time ← readTime vchData 0
    return ⟨true, { pfrom with smsgData.ignoreUntil := time }, st, []⟩

/-- `vRecv >> vchData` -/
def readData (vRecv : List UInt8) : Except Fault (List UInt8) :=
  match unserializeBytes.run vRecv with
  | some (vchData, _) => .ok vchData
  | none => .error (.other (.threw "CDataStream::read() : end of data"))

/-- `SecureMsgReceiveData` -/
def secureMsgReceiveData (hmac : HmacSha256) (st : SmsgState C)
    (pfrom : Peer) (strCommand : Command) (vRecv : List UInt8) : Except Fault (Handled C) :=
  match strCommand with
  | .smsgInv => readData vRecv >>= smsgInv st pfrom
  | .smsgShow => readData vRecv >>= smsgShow st pfrom
  | .smsgHave => readData vRecv >>= smsgHave st pfrom
  | .smsgWant => readData vRecv >>= smsgWant st pfrom
  | .smsgMsg => do
    let vchData ← readData vRecv
    let (pfrom, st) ← secureMsgReceive B hmac st pfrom vchData
    return ⟨true, pfrom, st, []⟩
  | .smsgMatch => readData vRecv >>= smsgMatch st pfrom
  | .smsgPing => .ok ⟨true, pfrom, st, [(.smsgPong, [])]⟩
  | .smsgPong => .ok ⟨true, { pfrom with smsgData.fEnabled := true }, st, []⟩
  | .smsgDisabled => .ok ⟨true, { pfrom with smsgData.fEnabled := false }, st, []⟩
  | .smsgIgnore => readData vRecv >>= smsgIgnore st pfrom
  | .unknown => .ok ⟨true, pfrom, st, []⟩

/-! ## §8. What is advertised. -/

/-- The buckets that `SecureMsgSendData` lists: time, number of messages and hash of those that
have changed since `lastMatched`. -/
def advertised (lastMatched : Int) : List (Int × Nat × UInt32) :=
  (st.smsgBuckets.toList.filter fun e =>
    !((st.bucketInfo e.1).timeChanged < lastMatched || e.2.size < 1)).map fun e =>
      (e.1, e.2.size, (st.bucketInfo e.1).hash)

/-! ## §9. What the node does itself. -/

/-- `ThreadSecureMsgPow`, of a message that has its proof of work: one that is not stored is
dropped. -/
def secureMsgPow (st : SmsgState C) (m : Message) : Except Fault (SmsgState C) := do
  let (rv, st) := st.store m true
  if rv ≠ 0 then return st
  else
    let (_, st) ← secureMsgScanMessage B m.bytes 0 st m
    return st

def BucketInfo.tick (info : BucketInfo) : BucketInfo :=
  if info.nLockCount > 0 then
    { info with
      nLockCount := info.nLockCount - 1
      nLockPeerId := if info.nLockCount - 1 = 0 then 0 else info.nLockPeerId }
  else info

/-- A round of `ThreadSecureMsg`, and the peers whose locks have timed out, which are ignored for
`SMSG_TIME_IGNORE`. -/
def threadRound : Except Abort (SmsgState C × List Int) := do
  let smsgStore ← st.toSmsgStore.threadSecureMsg
  let info (b : Int) : BucketInfo :=
    if st.smsgBuckets.contains b then (st.bucketInfo b).tick else st.bucketInfo b
  let timedOut := st.smsgBuckets.toList.filter fun e => (st.bucketInfo e.1).nLockCount == 1
  return ({ st with toSmsgStore := smsgStore, bucketInfo := info },
    timedOut.map fun e => (st.bucketInfo e.1).nLockPeerId)

/-- The node is stopped, and started: `SecureMsgBuildBucketSet` hashes the buckets. -/
def SmsgState.rebuild : SmsgState C :=
  let smsgStore := st.toSmsgStore.restart
  { st with
    toSmsgStore := smsgStore
    bucketInfo := fun b =>
      if smsgStore.smsgBuckets.contains b then
        { timeChanged := st.now, hash := hashSamples (smsgStore.tokenSet b) }
      else {} }

/-! ## §10. Runs. -/

/-- What happens to a node.  A peer may be in any state. -/
inductive NetEvent where
  /-- Time passes. -/
  | wait (seconds : Nat)
  | receive (pfrom : Peer) (strCommand : Command) (vRecv : List UInt8)
  /-- A message of this node has its proof of work. -/
  | send (m : Message)
  /-- A round of the bucket thread. -/
  | tick
  | configure (isLocked : Bool) (smsgAddresses : List SecMsgAddress)
  | restart

/-- One event.  An exception is thrown before anything is changed, and caught; where a handler
does not return otherwise, there is no next state. -/
def netStep (hmac : HmacSha256) (st : SmsgState C) : NetEvent → Option (SmsgState C)
  | .wait seconds => some { st with now := st.now + seconds }
  | .receive pfrom strCommand vRecv =>
    match secureMsgReceiveData B hmac st pfrom strCommand vRecv with
    | .ok handled => some handled.st
    | .error (.other (.threw _)) => some st
    | .error _ => none
  | .send m =>
    match secureMsgPow B st m with
    | .ok st => some st
    | .error _ => none
  | .tick =>
    match threadRound st with
    | .ok (st, _) => some st
    | .error _ => none
  | .configure isLocked smsgAddresses =>
    some { st with isLocked := isLocked, smsgAddresses := smsgAddresses }
  | .restart => some st.rebuild

end Fantom.Smsg
