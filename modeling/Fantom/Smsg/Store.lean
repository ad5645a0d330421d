/-
  Fantom.Smsg.Store — The message store: files that messages are appended to, one for each bucket of
  ten minutes, and the tokens of the messages in them.

  * `secureMsgScanBuckets`, `secureMsgWalletUnlocked`, `threadSecureMsg` — whole files,
  * `Event`, `step`, `proceed` — the store while the node runs, and when it is started again.

  Files are read and written without error.  The directory has the files that the store makes,
  `<bucket>_01.dat` and `<bucket>_01_wl.dat`.
-/
import Fantom.Lib.Returns
import Fantom.Smsg.SecureMessage

namespace Fantom.Smsg

open Core Lib

/-! ## §1. Tokens. -/

def SMSG_BUCKET_LEN : Int := 60 * 10

def SMSG_RETENTION : Int := 60 * 60 * 48

def SMSG_TIME_LEEWAY : Int := 60

/-- `timestamp - (timestamp % SMSG_BUCKET_LEN)`, where the sign of `%` is that of the
timestamp. -/
def bucketOf (timestamp : Int64) : Int :=
  timestamp.toInt - timestamp.toInt.tmod SMSG_BUCKET_LEN

/-- What tokens are compared by. -/
structure SecMsgKey where
  timestamp : Int64
  /-- The first 8 bytes of the payload. -/
  sample : Vector UInt8 8
deriving DecidableEq

instance : Ord SecMsgKey :=
  ⟨compareLex (compareOn SecMsgKey.timestamp) (compareOn SecMsgKey.sample)⟩

instance : Std.TransOrd SecMsgKey :=
  inferInstanceAs
    (Std.TransCmp (compareLex (compareOn SecMsgKey.timestamp) (compareOn SecMsgKey.sample)))

instance : Std.LawfulEqOrd SecMsgKey where
  eq_of_compare {a b} h := by
    obtain ⟨htimestamp, hsample⟩ := compareLex_eq_eq.mp h
    cases a
    cases b
    cases Std.LawfulEqOrd.eq_of_compare htimestamp
    cases Std.LawfulEqOrd.eq_of_compare hsample
    rfl

structure SecMsgToken extends SecMsgKey where
  offset : Nat
deriving DecidableEq

/-- `std::set<SecMsgToken>`, where tokens with one key are equal: the offset of the token with
a key. -/
abbrev TokenSet := StdMap SecMsgKey Nat

def TokenSet.Has (tokenSet : TokenSet) (token : SecMsgToken) : Prop :=
  tokenSet[token.toSecMsgKey]? = some token.offset

/-- The sample in the constructor of a token: of a payload of less than 8 bytes, zeros. -/
def sampleOf (pPayload : List UInt8) : Vector UInt8 8 :=
  if h : 8 ≤ pPayload.length then ⟨(pPayload.take 8).toArray, by simp [h]⟩
  else Vector.replicate 8 0

/-- The key of the token that `SecureMsgStore` makes. -/
def Message.key (m : Message) : SecMsgKey := ⟨m.smsg.timestamp, sampleOf m.pPayload⟩

def Message.bucket (m : Message) : Int := bucketOf m.smsg.timestamp

/-! ## §2. The store. -/

/-- The buckets, and the files they stand for. -/
structure SmsgStore where
  /-- `GetTime()` -/
  now : Int
  /-- The files `<bucket>_01.dat`. -/
  files : StdMap Int (List UInt8)
  /-- The files `<bucket>_01_wl.dat`. -/
  wlFiles : StdMap Int (List UInt8)
  /-- The `setTokens` of each bucket. -/
  smsgBuckets : StdMap Int TokenSet

/-- A bucket, or the file of one, that is too old to be kept. -/
def expired (now fileTime : Int) : Bool := fileTime < now - SMSG_RETENTION

namespace SmsgStore

def start (now : Int) : SmsgStore := ⟨now, ∅, ∅, ∅⟩

variable (st : SmsgStore)

/-- The tokens in a bucket, none where there is no bucket. -/
def tokenSet (bucket : Int) : TokenSet := st.smsgBuckets[bucket]?.getD ∅

def fileAt (files : StdMap Int (List UInt8)) (bucket : Int) : List UInt8 := files[bucket]?.getD []

variable (m : Message)

/-- The two checks on the timestamp of a message. -/
def inTime : Bool :=
  !(decide (m.smsg.timestamp.toInt > st.now + SMSG_TIME_LEEWAY) ||
    decide (m.smsg.timestamp.toInt < st.now - SMSG_RETENTION))

/-- `SecureMsgStore`: 0 for a message that was appended. -/
def secureMsgStore : Nat × SmsgStore :=
  if !st.inTime m then (1, st)
  else
    let bucket := m.bucket
    -- `smsgBuckets[bucket]` makes the bucket, also for a message that is known
    let tokenSet := st.tokenSet bucket
    if tokenSet.contains m.key then
      (1, { st with smsgBuckets := st.smsgBuckets.insert bucket tokenSet })
    else
      let file := fileAt st.files bucket
      let ofs := file.length
      (0, { st with
        files := st.files.insert bucket (file ++ m.bytes)
        smsgBuckets := st.smsgBuckets.insert bucket (StdMap.insertNew tokenSet m.key ofs) })

/-- A message comes, and is stored if it is valid. -/
def storeValid (hmac : HmacSha256) : SmsgStore :=
  if secureMsgValidate hmac m.smsg m.pPayload = 0 then (st.secureMsgStore m).2 else st

/-- `SecureMsgStoreUnscanned`, for a message that comes while the wallet is locked. -/
def secureMsgStoreUnscanned : Nat × SmsgStore :=
  if !st.inTime m then (1, st)
  else
    let file := fileAt st.wlFiles m.bucket
    (0, { st with wlFiles := st.wlFiles.insert m.bucket (file ++ m.bytes) })

/-- `SecureMsgRetrieve`: what is left in `vchData`, where it returns 0. -/
def secureMsgRetrieve (token : SecMsgToken) : Option (List UInt8) := do
  let file ← st.files[bucketOf token.timestamp]?
  let (smsg, rest) ← readSecureMessage.run (file.drop token.offset)
  let (payload, _) ← (readTake smsg.nPayload.toNat).run rest
  return smsg.bytes ++ payload

/-! ## §3. The tokens, from the files. -/

/-- The loop of `SecureMsgBuildBucketSet` over a file, of which `rest` is left from `ofs` on. -/
def scanTokens (ofs : Nat) (rest : List UInt8) (tokenSet : TokenSet) : TokenSet :=
  match hheader : readSecureMessage.run rest with
  | none => tokenSet
  | some (smsg, payload) =>
    have := length_of_readSecureMessage hheader
    -- goes on behind the header
    if smsg.nPayload < 8 then scanTokens (ofs + SMSG_HDR_LEN) payload tokenSet
    else
      match hsample : (readVector 8).run payload with
      | none => tokenSet
      | some (sample, beyond) =>
        have := length_of_readVector hsample
        -- `fseek` goes beyond the end of the file as well
        scanTokens (ofs + SMSG_HDR_LEN + smsg.nPayload.toNat)
          (beyond.drop (smsg.nPayload.toNat - 8))
          (StdMap.insertNew tokenSet ⟨smsg.timestamp, sample⟩ ofs)
termination_by rest.length
decreasing_by
  · simp only [SMSG_HDR_LEN] at *
    omega
  · simp only [SMSG_HDR_LEN, List.length_drop] at *
    omega

def unexpired {V : Type} (now : Int) (m : StdMap Int V) : StdMap Int V :=
  m.filter fun fileTime _ => !expired now fileTime

def secureMsgBuildBucketSet : SmsgStore :=
  let files := unexpired st.now st.files
  { st with
    files := files
    wlFiles := unexpired st.now st.wlFiles
    smsgBuckets := StdMap.overlay st.smsgBuckets
      (files.map fun fileTime file => scanTokens 0 file (st.tokenSet fileTime)) }

def restart : SmsgStore := secureMsgBuildBucketSet { st with smsgBuckets := ∅ }

/-! ## §4. Whole files. -/

/-- The messages that the loop over a file hands to `SecureMsgScanMessage`. -/
def scanFile (file : List UInt8) : List Message := readAll readMessage file

/-- The messages in the files that are not dropped. -/
def scanned (now : Int) (files : StdMap Int (List UInt8)) : List Message :=
  (unexpired now files).toList.flatMap fun e => scanFile e.2

/-- `SecureMsgScanBuckets`: the messages that are scanned, and the store after it.  A file that
has expired is dropped, and one that was scanned is removed. -/
def secureMsgScanBuckets (isLocked : Bool) : List Message × SmsgStore :=
  if isLocked then ([], st)
  else (scanned st.now st.files, { st with files := ∅, wlFiles := unexpired st.now st.wlFiles })

/-- `SecureMsgWalletUnlocked`, over the files that were written while the wallet was locked. -/
def secureMsgWalletUnlocked (isLocked : Bool) : List Message × SmsgStore :=
  if isLocked then ([], st)
  else (scanned st.now st.wlFiles, { st with wlFiles := ∅ })

/-- A round of `ThreadSecureMsg` over the buckets.  Where one has expired, its files are removed
and it is erased, and `it++` moves on from an element that is gone. -/
def threadSecureMsg : Except Abort SmsgStore :=
  if st.smsgBuckets.toList.any fun e => expired st.now e.1 then .error .dangling else .ok st

end SmsgStore

/-! ## §5. The store while the node runs. -/

/-- What happens to the store. -/
inductive Event where
  /-- Time passes. -/
  | wait (seconds : Nat)
  /-- A message comes, from a peer or from this node. -/
  | store (m : Message)
  /-- A message is scanned while the wallet is locked. -/
  | storeUnscanned (m : Message)
  | scanBuckets (isLocked : Bool)
  | walletUnlocked (isLocked : Bool)
  /-- A round of the bucket management thread. -/
  | expire
  | restart

open SmsgStore in
/-- One event. -/
def step (hmac : HmacSha256) (st : SmsgStore) : Event → Except Abort SmsgStore
  | .wait seconds => return { st with now := st.now + seconds }
  | .store m => return st.storeValid m hmac
  | .storeUnscanned m => return (st.secureMsgStoreUnscanned m).2
  | .scanBuckets isLocked => return (st.secureMsgScanBuckets isLocked).2
  | .walletUnlocked isLocked => return (st.secureMsgWalletUnlocked isLocked).2
  | .expire => st.threadSecureMsg
  | .restart => return st.restart

/-- The next event of a run, in which the ones before it have returned. -/
def proceed (hmac : HmacSha256) (x : Except Abort SmsgStore) (e : Event) : Except Abort SmsgStore :=
  x >>= fun st => step hmac st e

end Fantom.Smsg
