/-
  Fantom.Blanknode.Registry — The list of blanknodes as it grows and shrinks.

  * `registry_kept_iff` — when the entries that stay keep their fields.

  The copy constructor takes `nLastPaid` over and then overwrites it with the time of the copy, and
  `std::vector` copies the entries that it moves.
-/
import Fantom.Blanknode.Announcement
import Fantom.Blanknode.Check
import Fantom.Lib.StdVector

namespace Fantom.Blanknode

open Core Chain Lib Script Pool

/-! ## §1. Entries. -/

/-- `CBlanknode`; the types of its address, keys and state are those that a use of it needs. -/
structure BlanknodeFields (Addr Key State : Type) where
  vin : CTxIn
  addr : Addr
  pubkey : Key
  pubkey2 : Key
  sig : List UInt8
  activeState : State
  sigTime : Int64
  lastSseep : Int64
  lastTimeSeen : Int64
  cacheInputAge : Int32
  cacheInputAgeBlock : Int32
  unitTest : Bool
  allowFreeTx : Bool
  protocolVersion : Int32
  nLastSsq : Int64
  donationAddress : CScript
  donationPercentage : Int32
  nVote : Int32
  lastVote : Int64
  nScanningErrorCount : Int32
  nLastScanningErrorBlockHeight : Int32
  nLastPaid : Int64
deriving DecidableEq

/-- `CBlanknode(const CBlanknode& other)`: every member is taken over, and `nLastPaid` is then
assigned once more. -/
def BlanknodeFields.copyFrom {Addr Key State : Type} (nAdjustedTime : Int64)
    (other : BlanknodeFields Addr Key State) : BlanknodeFields Addr Key State :=
  { other with nLastPaid := nAdjustedTime }

abbrev CBlanknodeEntry := BlanknodeFields CService CPubKey ActiveState

namespace CBlanknodeEntry

open BlanknodeFields

variable (nAdjustedTime : Int64)

/-- `CBlanknode::swap`, member by member. -/
def swap (first second : CBlanknodeEntry) : CBlanknodeEntry × CBlanknodeEntry :=
  let taken (a b : CBlanknodeEntry) : CBlanknodeEntry :=
    { a with
      vin := b.vin
      addr := b.addr
      pubkey := b.pubkey
      pubkey2 := b.pubkey2
      sig := b.sig
      activeState := b.activeState
      sigTime := b.sigTime
      lastSseep := b.lastSseep
      lastTimeSeen := b.lastTimeSeen
      cacheInputAge := b.cacheInputAge
      unitTest := b.unitTest
      cacheInputAgeBlock := b.cacheInputAgeBlock
      allowFreeTx := b.allowFreeTx
      protocolVersion := b.protocolVersion
      nLastSsq := b.nLastSsq
      donationAddress := b.donationAddress
      donationPercentage := b.donationPercentage
      nVote := b.nVote
      lastVote := b.lastVote
      nScanningErrorCount := b.nScanningErrorCount
      nLastScanningErrorBlockHeight := b.nLastScanningErrorBlockHeight
      nLastPaid := b.nLastPaid }
  (taken first second, taken second first)

/-- `operator=(CBlanknode from)`: `from` is a copy. -/
def assign (this from_ : CBlanknodeEntry) : CBlanknodeEntry :=
  (swap this (copyFrom nAdjustedTime from_)).1

theorem copyFrom_eq_self_iff {nAdjustedTime : Int64} {sn : CBlanknodeEntry} :
    copyFrom nAdjustedTime sn = sn ↔ sn.nLastPaid = nAdjustedTime := by
  constructor
  · intro h
    exact (congrArg nLastPaid h).symm
  · rintro rfl
    rfl

variable (sn : CBlanknodeEntry)

/-- What `Check` reads. -/
def toState : CBlanknodeState where
  vin := sn.vin
  activeState := sn.activeState
  lastTimeSeen := sn.lastTimeSeen
  unitTest := sn.unitTest
  nScanningErrorCount := sn.nScanningErrorCount

def isEnabled : Bool := sn.activeState == .BLANKNODE_ENABLED

def secondsSincePayment : Int64 :=
  nAdjustedTime - sn.nLastPaid

end CBlanknodeEntry

/-- What `Check` and the choice of a payee read besides the list. -/
structure RegistryEnv (L : Type) where
  accept : AcceptEnv L
  collateralPubKey : CScript
  db : Records
  pindexBest : CBlockIndex
  pool : CTxMemPool
  free : L
  /-- Whether `TRY_LOCK(cs_main)` succeeds for the entry at a place. -/
  lockRecv : Nat → Bool
  /-- `GetInputAge`. -/
  getInputAge : CTxIn → Int32
  /-- `GetTime()`. -/
  nTime : Int64

variable {L : Type} (env : RegistryEnv L)

/-- `CBlanknode::Check` on the entry at a place. -/
def CBlanknodeEntry.check (i : Nat) (sn : CBlanknodeEntry) : CBlanknodeEntry :=
  { sn with
    activeState := (sn.toState.check env.accept env.collateralPubKey (env.lockRecv i) env.db
      env.pindexBest env.pool env.free).activeState }

variable (sn : CBlanknodeEntry)

/-- `GetBlanknodeInputAge`: the age, and the entry with its cache filled. -/
def CBlanknodeEntry.getBlanknodeInputAge : Int32 × CBlanknodeEntry :=
  let nHeight := Int32.ofNat env.pindexBest.nHeight
  let sn := if sn.cacheInputAge = 0 then
      { sn with cacheInputAge := env.getInputAge sn.vin, cacheInputAgeBlock := nHeight }
    else sn
  (sn.cacheInputAge + (nHeight - sn.cacheInputAgeBlock), sn)

/-! ## §2. The list. -/

/-- `CBlanknodeMan`: the list, and who asked and was asked for it, until when. -/
structure CBlanknodeRegistry where
  vBlanknodes : StdVector CBlanknodeEntry
  mAskedUsForBlanknodeList : StdMap (List UInt8) Int64
  mWeAskedForBlanknodeList : StdMap (List UInt8) Int64
  mWeAskedForBlanknodeListEntry : StdMap COutPoint Int64

namespace CBlanknodeRegistry

/-- `Find(vin)`. -/
def find (man : CBlanknodeRegistry) (vin : CTxIn) : Option CBlanknodeEntry :=
  man.vBlanknodes.elems.find? fun sn => sn.vin.prevout == vin.prevout

/-- `CBlanknodeMan::Add`.  `now i` is the time at which the entry for place `i` is copied. -/
def add (newCapacity : Nat → Nat) (now : Nat → Int64) (sn : CBlanknodeEntry)
    (man : CBlanknodeRegistry) : Bool × CBlanknodeRegistry :=
  if !sn.isEnabled then (false, man)
  else
    match man.find sn.vin with
    | none =>
      (true, { man with
        vBlanknodes := man.vBlanknodes.pushBack newCapacity
          (fun i => BlanknodeFields.copyFrom (now i)) sn })
    | some _ => (false, man)

def check (man : CBlanknodeRegistry) : List CBlanknodeEntry :=
  man.vBlanknodes.elems.mapIdx (CBlanknodeEntry.check env)

theorem length_check_le (man : CBlanknodeRegistry) :
    (man.check env).length ≤ man.vBlanknodes.capacity := by
  rw [check, List.length_mapIdx]
  exact man.vBlanknodes.size_le

/-- The entries that `CheckAndRemove` removes. -/
def removable : Bool :=
  sn.activeState == .BLANKNODE_REMOVE || sn.activeState == .BLANKNODE_VIN_SPENT

/-- `while (it != m.end()) if ((*it).second < GetTime()) m.erase(it++); else ++it;` -/
def eraseExpired {K : Type} [Ord K] [Std.TransOrd K] (nTime : Int64) (m : StdMap K Int64) :
    StdMap K Int64 := m.filter fun _ until_ => !decide (until_ < nTime)

/-- `CBlanknodeMan::CheckAndRemove`.  `now e i` is the time at which the `e`-th erasure copies
the entry that stood at place `i`. -/
def checkAndRemove (now : Nat → Nat → Int64) (man : CBlanknodeRegistry) : CBlanknodeRegistry where
  vBlanknodes := StdVector.eraseAll removable (fun e i => CBlanknodeEntry.assign (now e i))
    ⟨man.check env, man.vBlanknodes.capacity, length_check_le env man⟩
  mAskedUsForBlanknodeList := eraseExpired env.nTime man.mAskedUsForBlanknodeList
  mWeAskedForBlanknodeList := eraseExpired env.nTime man.mWeAskedForBlanknodeList
  mWeAskedForBlanknodeListEntry := eraseExpired env.nTime man.mWeAskedForBlanknodeListEntry

/-- One round of `FindOldestNotInVec`. -/
def olderOf (vVins : List CTxIn) (nMinimumAge : Int32) (nAdjustedTime : Int64)
    (pOldestBlanknode : Option CBlanknodeEntry) (sn : CBlanknodeEntry) : Option CBlanknodeEntry :=
  if !sn.isEnabled then pOldestBlanknode
  else if (sn.getBlanknodeInputAge env).1 < nMinimumAge then pOldestBlanknode
  else if vVins.any fun vin => sn.vin.prevout == vin.prevout then pOldestBlanknode
  else
    match pOldestBlanknode with
    | none => some (sn.getBlanknodeInputAge env).2
    | some oldest =>
      if oldest.secondsSincePayment nAdjustedTime < sn.secondsSincePayment nAdjustedTime then
        some (sn.getBlanknodeInputAge env).2
      else some oldest

/-- `CBlanknodeMan::FindOldestNotInVec`: the entry that is picked. -/
def findOldestNotInVec (vVins : List CTxIn) (nMinimumAge : Int32) (nAdjustedTime : Int64)
    (man : CBlanknodeRegistry) : Option CBlanknodeEntry :=
  (man.check env).foldl (olderOf env vVins nMinimumAge nAdjustedTime) none

/-! ## §3. The age of an input. -/

variable {env}

theorem getBlanknodeInputAge_nLastPaid :
    (sn.getBlanknodeInputAge env).2.nLastPaid = sn.nLastPaid := by
  unfold CBlanknodeEntry.getBlanknodeInputAge
  dsimp only
  split <;> rfl

/-! ## §4. What a change of the list keeps. -/

/-- **Changes of the list and the fields of its entries.**  After `CheckAndRemove` the entries
that stay are as `Check` left them exactly where each that stood behind a removed one was last
paid at the time of its last copy; `Add` keeps the entries exactly where it adds none, has room
for one more, or copies each at the time of its last payment. -/
theorem registry_kept_iff (env : RegistryEnv L) (man : CBlanknodeRegistry) :
    (∀ now : Nat → Nat → Int64,
      (man.checkAndRemove env now).vBlanknodes.elems = (man.check env).filter (!removable ·) ↔
        ∀ i sn, (man.check env)[i]? = some sn → removable sn = false →
          0 < ((man.check env).take i).countP removable →
            sn.nLastPaid = now (((man.check env).take i).countP removable) i) ∧
      ∀ (newCapacity : Nat → Nat) (now : Nat → Int64) (sn : CBlanknodeEntry),
        (man.add newCapacity now sn).2.vBlanknodes.elems.take man.vBlanknodes.elems.length =
            man.vBlanknodes.elems ↔
          sn.isEnabled = false ∨ (man.find sn.vin).isSome = true ∨
            man.vBlanknodes.elems.length < man.vBlanknodes.capacity ∨
            ∀ i old, man.vBlanknodes.elems[i]? = some old → old.nLastPaid = now i := by
  refine ⟨fun now => ?_, fun newCapacity now sn => ?_⟩
  · have hmoved : StdVector.eraseLoop removable (fun e i => CBlanknodeEntry.assign (now e i)) 0 0
        (man.check env) = (man.check env).filter (!removable ·) ↔ _ :=
      StdVector.eraseLoop_eq_filter_iff (fun e i => BlanknodeFields.copyFrom (now e i))
        (fun _ _ _ _ => rfl) (fun _ _ _ => rfl) (fun _ _ _ _ => rfl) (man.check env)
    simp only [CBlanknodeEntry.copyFrom_eq_self_iff] at hmoved
    exact hmoved
  · unfold add
    cases henabled : sn.isEnabled with
    | false => exact iff_of_true (List.take_of_length_le (Nat.le_refl _)) (.inl rfl)
    | true =>
      cases hfind : man.find sn.vin with
      | some old =>
        exact iff_of_true (List.take_of_length_le (Nat.le_refl _)) (.inr (.inl rfl))
      | none =>
        have hpush := StdVector.pushBack_take_iff newCapacity
          (fun i => BlanknodeFields.copyFrom (now i)) sn man.vBlanknodes
        simp only [CBlanknodeEntry.copyFrom_eq_self_iff] at hpush
        simp only [Bool.not_true, Bool.false_eq_true, if_false, Bool.true_eq_false,
          Option.isSome_none, false_or]
        exact hpush

/-! ## §5. A sample list. -/

def sampleEntry (n : UInt32) (activeState : ActiveState) (nLastPaid : Int64) : CBlanknodeEntry where
  vin := ⟨⟨1, n⟩, [], [], 0xffffffff⟩
  addr := ⟨[], 0⟩
  pubkey := []
  pubkey2 := []
  sig := []
  activeState := activeState
  sigTime := 0
  lastSseep := 0
  lastTimeSeen := 0
  cacheInputAge := 1000
  cacheInputAgeBlock := 0
  unitTest := false
  allowFreeTx := true
  protocolVersion := 60020
  nLastSsq := 0
  donationAddress := []
  donationPercentage := 0
  nVote := 0
  lastVote := 0
  nScanningErrorCount := 0
  nLastScanningErrorBlockHeight := 0
  nLastPaid := nLastPaid

def registryEnv : RegistryEnv Unit where
  accept := collateralEnv
  collateralPubKey := [OP_1]
  db := .empty
  pindexBest := sampleGenesis
  pool := .empty
  free := ()
  lockRecv _ := false
  getInputAge _ := 1000
  nTime := 100

def sampleRegistry : CBlanknodeRegistry where
  vBlanknodes := ⟨[sampleEntry 0 .BLANKNODE_ENABLED 50, sampleEntry 1 .BLANKNODE_REMOVE 0,
    sampleEntry 2 .BLANKNODE_ENABLED 10], 4, by decide⟩
  mAskedUsForBlanknodeList := ∅
  mWeAskedForBlanknodeList := ∅
  mWeAskedForBlanknodeListEntry := ∅

/-- **A removal changes who is paid next.**  The third blanknode has waited longest; after the
second has been removed it is taken to have been paid just now. -/
theorem removal_disturbs_payments :
    (sampleRegistry.checkAndRemove registryEnv fun _ _ => 100).vBlanknodes.elems ≠
        (sampleRegistry.check registryEnv).filter (!removable ·) ∧
      sampleRegistry.findOldestNotInVec registryEnv [] 0 100 =
        some (sampleEntry 2 .BLANKNODE_ENABLED 10) ∧
      (sampleRegistry.checkAndRemove registryEnv fun _ _ => 100).findOldestNotInVec registryEnv
        [] 0 100 = some (sampleEntry 0 .BLANKNODE_ENABLED 50) := by
  have hafter : (sampleRegistry.checkAndRemove registryEnv fun _ _ => 100).vBlanknodes.elems =
      [sampleEntry 0 .BLANKNODE_ENABLED 50, sampleEntry 2 .BLANKNODE_ENABLED 100] :=
    StdVector.eraseLoop_eq (fun _ _ => BlanknodeFields.copyFrom 100) (fun _ _ _ _ => rfl)
      (fun _ _ _ => rfl) (fun _ _ _ _ => rfl) (sampleRegistry.check registryEnv)
  refine ⟨?_, by decide +kernel, ?_⟩
  · rw [hafter]
    decide +kernel
  · unfold findOldestNotInVec CBlanknodeRegistry.check
    rw [hafter]
    decide +kernel

end CBlanknodeRegistry

end Fantom.Blanknode
