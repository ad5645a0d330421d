/-
  Fantom.Spork.Spork — `spork.cpp`: signed switches of the network rules.

  * `sporks_converge` — the active map after any delivery order: all nodes that receive the same
    validly signed messages end with the same active sporks.
-/
import Fantom.Core.Signer
import Fantom.Lib.Radix
import Fantom.Lib.KeyedMessages
import Fantom.Lib.Runs
import Mathlib.Data.Int.Order.Basic

namespace Fantom.Spork

section Messages

open Core Lib

/-! ## §1. Messages. -/

def SPORK_1_BLANKNODE_PAYMENTS_ENFORCEMENT : Int32 := 10000
def SPORK_2_INSTANTX : Int32 := 10001
def SPORK_3_INSTANTX_BLOCK_FILTERING : Int32 := 10002
def SPORK_5_MAX_VALUE : Int32 := 10004
def SPORK_7_BLANKNODE_SCANNING : Int32 := 10006

def SPORK_1_BLANKNODE_PAYMENTS_ENFORCEMENT_DEFAULT : Int64 := 1446335999
def SPORK_2_INSTANTX_DEFAULT : Int64 := 978307200
def SPORK_3_INSTANTX_BLOCK_FILTERING_DEFAULT : Int64 := 1424217600
def SPORK_5_MAX_VALUE_DEFAULT : Int64 := 1000

/-- `CSporkMessage`. -/
structure CSporkMessage where
  vchSig : List UInt8
  nSporkID : Int32
  nValue : Int64
  nTimeSigned : Int64
deriving DecidableEq, Repr

/-- What a spork message says, without its signature. -/
def CSporkMessage.triple (spork : CSporkMessage) : Int32 × Int64 × Int64 :=
  (spork.nSporkID, spork.nValue, spork.nTimeSigned)

/-- The text that is signed for a triple: three decimal numbers, joined. -/
def tripleText (t : Int32 × Int64 × Int64) : List Char :=
  decimal t.1.toInt ++ decimal t.2.1.toInt ++ decimal t.2.2.toInt

/-- `strMessage` of `CheckSignature` and `Sign`. -/
def CSporkMessage.strMessage (spork : CSporkMessage) : List Char := tripleText spork.triple

/-- `CSporkManager`.  `mainPubKey` is `CPubKey(ParseHex(strMainPubKey))`. -/
structure CSporkManager (C : Crypto) where
  mainPubKey : CPubKey
  /-- The key `SetKey` makes of `strMasterPrivKey`, when it makes one. -/
  masterPrivKey : Option C.CKey

variable {C : Crypto}

def CSporkManager.checkSignature (m : CSporkManager C) (spork : CSporkMessage) : Bool :=
  verifyMessage C m.mainPubKey spork.vchSig spork.strMessage

/-! ## §2. The handler. -/

/-- `mapSporks` and `mapSporksActive`. -/
structure Sporks where
  mapSporks : StdMap UInt256 CSporkMessage
  mapSporksActive : StdMap Int32 CSporkMessage

def Sporks.empty : Sporks := ⟨∅, ∅⟩

/-- What the handler reads besides the maps. -/
structure SporkEnv (C : Crypto) where
  fLiteMode : Bool
  /-- `pindexBest == NULL`. -/
  noBestBlock : Bool
  sporkManager : CSporkManager C
  /-- `CSporkMessage::GetHash`, over the memory from `nSporkID` to `nTimeSigned`
  with its padding, so only a function of the message here. -/
  getHash : CSporkMessage → UInt256

/-- How `ProcessSpork` ended. -/
inductive SporkOutcome where
  /-- Lite mode, or no best block yet. -/
  | ignored
  /-- An entry with the same or a later time is active. -/
  | seen
  /-- Invalid signature: `Misbehaving(pfrom, 100)`. -/
  | misbehaving (howmuch : Nat)
  /-- Stored and relayed. -/
  | relayed
deriving DecidableEq, Repr

/-- `ProcessSpork` on the command `spork`. -/
def processSpork (env : SporkEnv C) (st : Sporks) (spork : CSporkMessage) :
    Sporks × SporkOutcome :=
  if env.fLiteMode || env.noBestBlock then (st, .ignored)
  else if (st.mapSporksActive[spork.nSporkID]?).any
      (fun active => decide (active.nTimeSigned ≥ spork.nTimeSigned)) then (st, .seen)
  else if !env.sporkManager.checkSignature spork then (st, .misbehaving 100)
  else
    ({ mapSporks := st.mapSporks.insert (env.getHash spork) spork,
       mapSporksActive := st.mapSporksActive.insert spork.nSporkID spork }, .relayed)

/-! ## §3. The readers. -/

/-- The value used while no message is active; `0` for an unknown spork. -/
def sporkDefault (nSporkID : Int32) : Int64 :=
  if nSporkID = SPORK_1_BLANKNODE_PAYMENTS_ENFORCEMENT then
    SPORK_1_BLANKNODE_PAYMENTS_ENFORCEMENT_DEFAULT
  else if nSporkID = SPORK_2_INSTANTX then SPORK_2_INSTANTX_DEFAULT
  else if nSporkID = SPORK_3_INSTANTX_BLOCK_FILTERING then
    SPORK_3_INSTANTX_BLOCK_FILTERING_DEFAULT
  else if nSporkID = SPORK_5_MAX_VALUE then SPORK_5_MAX_VALUE_DEFAULT
  -- the source assigns the id here, not its default
  else if nSporkID = SPORK_7_BLANKNODE_SCANNING then SPORK_7_BLANKNODE_SCANNING.toInt64
  else 0

variable (active : StdMap Int32 CSporkMessage)

/-- The value `r` both readers look up. -/
def sporkLookup (nSporkID : Int32) : Int64 :=
  match active[nSporkID]? with
  | some spork => spork.nValue
  | none => sporkDefault nSporkID

/-- `IsSporkActive` at the time `now`. -/
def isSporkActive (now : Int64) (nSporkID : Int32) : Bool :=
  let r := sporkLookup active nSporkID
  -- 2099-1-1 by default
  (if r = 0 then 4070908800 else r) < now

/-- `GetSporkValue`: the value cut down to an `int`. -/
def getSporkValue (nSporkID : Int32) : Int32 :=
  (sporkLookup active nSporkID).toInt32

/-! ## §4. A sample node. -/

def sampleSporkEnv : SporkEnv sampleCrypto where
  fLiteMode := false
  noBestBlock := false
  sporkManager := { mainPubKey := leBytes 32 5, masterPrivKey := some (5 : UInt256) }
  getHash m := sampleHashes.hash (m.strMessage.map fun c => UInt8.ofNat c.toNat)

def sampleSpork (key : UInt256) (t : Int32 × Int64 × Int64) : CSporkMessage where
  vchSig := ((signMessage sampleCrypto (tripleText t) key).getD [])
  nSporkID := t.1
  nValue := t.2.1
  nTimeSigned := t.2.2

end Messages

/-! ## Any order of delivery. -/

section Convergence

open Core Lib

variable {C : Crypto} (env : SporkEnv C)

/-- The maps after a sequence of `spork` messages. -/
def deliverSporks (st : Sporks) (msgs : List CSporkMessage) : Sporks :=
  run (fun st spork => (processSpork env st spork).1) st msgs

/-! ## §1. The handler is a latest-wins store. -/

theorem processSpork_active (hlite : env.fLiteMode = false)
    (hbest : env.noBestBlock = false) (st : Sporks) (spork : CSporkMessage) :
    (processSpork env st spork).1.mapSporksActive = LatestWins.offer CSporkMessage.nSporkID
    (fun m => m.nTimeSigned.toInt) env.sporkManager.checkSignature st.mapSporksActive spork := by
  unfold processSpork LatestWins.offer
  rw [hlite, hbest, Bool.or_false, if_neg (by decide)]
  simp only [ge_iff_le, Int64.le_iff_toInt_le]
  split
  · rfl
  · cases env.sporkManager.checkSignature spork with
    | true => rfl
    | false => rfl

theorem deliverSporks_active (hlite : env.fLiteMode = false)
    (hbest : env.noBestBlock = false) (st : Sporks) (msgs : List CSporkMessage) :
    (deliverSporks env st msgs).mapSporksActive = LatestWins.offerAll CSporkMessage.nSporkID
    (fun m => m.nTimeSigned.toInt) env.sporkManager.checkSignature st.mapSporksActive msgs := by
  induction msgs generalizing st with
  | nil => rfl
  | cons spork msgs ih =>
    show (deliverSporks env (processSpork env st spork).1 msgs).mapSporksActive = _
    rw [ih, processSpork_active env hlite hbest]
    rfl

/-! ## §2. Convergence. -/

/-- **Spork state converges.**  `signed` is a set of validly signed messages, no
two of one spork with the same time.  Deliver every one of them, in any order,
any number of times, among any messages that are not validly signed: the active
map then holds, for each spork that occurs in the set, its message with the
greatest time, and nothing else. -/
theorem sporks_converge (env : SporkEnv C) (hlite : env.fLiteMode = false)
    (hbest : env.noBestBlock = false) (signed deliveries : List CSporkMessage)
    (hvalid : ∀ m ∈ signed, env.sporkManager.checkSignature m = true)
    (htimes : ∀ m ∈ signed, ∀ m' ∈ signed, m.nSporkID = m'.nSporkID →
      m.nTimeSigned = m'.nTimeSigned → m = m')
    (hall : ∀ m ∈ signed, m ∈ deliveries)
    (hrest : ∀ m ∈ deliveries, env.sporkManager.checkSignature m = true → m ∈ signed) :
    (∀ nSporkID m,
      (deliverSporks env Sporks.empty deliveries).mapSporksActive[nSporkID]? = some m ↔
        m ∈ signed ∧ m.nSporkID = nSporkID ∧
          ∀ m' ∈ signed, m'.nSporkID = nSporkID → m'.nTimeSigned ≤ m.nTimeSigned) ∧
    (∀ m ∈ signed, ((deliverSporks env Sporks.empty deliveries).mapSporksActive[
      m.nSporkID]?).isSome = true) := by
  rw [deliverSporks_active env hlite hbest]
  have hu : LatestWins.Unambiguous CSporkMessage.nSporkID (fun m => m.nTimeSigned.toInt)
      env.sporkManager.checkSignature deliveries := by
    intro m hm m' hm' hv hv' hid ht
    exact htimes m (hrest m hm hv) m' (hrest m' hm' hv') hid (Int64.toInt_inj.mp ht)
  constructor
  · intro nSporkID m
    show (LatestWins.offerAll _ _ _ ∅ deliveries)[nSporkID]? = some m ↔ _
    rw [LatestWins.offerAll_get_iff hu]
    simp only [LatestWins.IsNewest, Int64.le_iff_toInt_le]
    constructor
    · intro h
      obtain ⟨hm, hv, hid, hmax⟩ := h
      refine ⟨hrest m hm hv, hid, ?_⟩
      intro m' hm' hid'
      exact hmax m' (hall m' hm') (hvalid m' hm') hid'
    · intro h
      obtain ⟨hm, hid, hmax⟩ := h
      refine ⟨hall m hm, hvalid m hm, hid, ?_⟩
      intro m' hm' hv' hid'
      exact hmax m' (hrest m' hm' hv') hid'
  · intro m hm
    have hnone := (LatestWins.offerAll_get CSporkMessage.nSporkID
      (fun m => m.nTimeSigned.toInt) env.sporkManager.checkSignature
      deliveries m.nSporkID).2
    rw [Option.isSome_iff_ne_none]
    intro h
    exact hnone h m (hall m hm) (hvalid m hm) rfl

/-- Two messages of one spork, delivered latest first, twice, with a forged one
in between. -/
theorem sporks_converge_sample :
    let old := sampleSpork 5 (SPORK_2_INSTANTX, 100, 7)
    let new := sampleSpork 5 (SPORK_2_INSTANTX, 200, 9)
    let forged := sampleSpork 6 (SPORK_2_INSTANTX, 300, 11)
    ∀ nSporkID m,
      (deliverSporks sampleSporkEnv Sporks.empty [new, forged, old, new]).mapSporksActive[
          nSporkID]? = some m ↔
        m ∈ [old, new] ∧ m.nSporkID = nSporkID ∧
          ∀ m' ∈ [old, new], m'.nSporkID = nSporkID → m'.nTimeSigned ≤ m.nTimeSigned :=
  (sporks_converge sampleSporkEnv rfl rfl
    [sampleSpork 5 (SPORK_2_INSTANTX, 100, 7), sampleSpork 5 (SPORK_2_INSTANTX, 200, 9)]
    [sampleSpork 5 (SPORK_2_INSTANTX, 200, 9), sampleSpork 6 (SPORK_2_INSTANTX, 300, 11),
      sampleSpork 5 (SPORK_2_INSTANTX, 100, 7), sampleSpork 5 (SPORK_2_INSTANTX, 200, 9)]
    (by decide +kernel) (by decide +kernel) (by decide +kernel) (by decide +kernel)).1

end Convergence

end Fantom.Spork
