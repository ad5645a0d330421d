/-
  Fantom.Blanknode.Check — `CBlanknode::Check`: whether a blanknode is alive.

  * `check_live` — no live blanknode is found alive.

  The collateral is in units already when the probe multiplies it by `COIN` once more, so that its
  output is worth more than all money.
-/
import Fantom.Pool.AcceptableInputs
import Fantom.Pool.OrphanQueue

namespace Fantom.Blanknode

open Core Chain Lib Script Pool

/-! ## §1. The check. -/

def BLANKNODE_COLLATERAL : Int64 := 512 * COIN

def BLANKNODE_SCANNING_ERROR_THESHOLD : Int32 := 6

def BLANKNODE_EXPIRATION_SECONDS : Int32 := 65 * 60

def BLANKNODE_REMOVAL_SECONDS : Int32 := 70 * 60

/-- `CBlanknode::state`. -/
inductive ActiveState where
  | BLANKNODE_ENABLED
  | BLANKNODE_EXPIRED
  | BLANKNODE_VIN_SPENT
  | BLANKNODE_REMOVE
  | BLANKNODE_POS_ERROR
deriving DecidableEq, Repr

/-- `CBlanknode`, as far as `Check` reads and writes it. -/
structure CBlanknodeState where
  vin : CTxIn
  activeState : ActiveState
  lastTimeSeen : Int64
  unitTest : Bool
  nScanningErrorCount : Int32

def CBlanknodeState.updatedWithin (nAdjustedTime : Int64) (sn : CBlanknodeState)
    (seconds : Int32) : Bool :=
  nAdjustedTime - sn.lastTimeSeen < seconds.toInt64

/-- The transaction that `Check` tries: it spends the collateral. -/
def probe (nAdjustedTime : Int64) (collateralPubKey : CScript) (vin : CTxIn) : CTransaction :=
  { CTransaction.null nAdjustedTime.toUInt64.toUInt32 with
    vin := [vin]
    vout := [⟨BLANKNODE_COLLATERAL * COIN, -10, collateralPubKey⟩] }

variable {L : Type} (env : AcceptEnv L) (collateralPubKey : CScript) (db : Records)
  (pindexBest : CBlockIndex) (pool : CTxMemPool)

/-- The state that `Check` finds once it has its lock. -/
def findState (free : L) (sn : CBlanknodeState) : ActiveState :=
  if sn.nScanningErrorCount ≥ BLANKNODE_SCANNING_ERROR_THESHOLD then .BLANKNODE_POS_ERROR
  -- once spent, it stays spent
  else if sn.activeState = .BLANKNODE_VIN_SPENT then sn.activeState
  else if !sn.updatedWithin env.nAdjustedTime BLANKNODE_REMOVAL_SECONDS then .BLANKNODE_REMOVE
  else if !sn.updatedWithin env.nAdjustedTime BLANKNODE_EXPIRATION_SECONDS then .BLANKNODE_EXPIRED
  else if !sn.unitTest &&
      !accepts (acceptableInputs env db pindexBest pool free
        (probe env.nAdjustedTime collateralPubKey sn.vin) false true).1 then
    .BLANKNODE_VIN_SPENT
  else .BLANKNODE_ENABLED

/-- `CBlanknode::Check`; `lockRecv` is whether `TRY_LOCK(cs_main)` succeeds. -/
def CBlanknodeState.check (lockRecv : Bool) (db : Records) (pindexBest : CBlockIndex)
    (pool : CTxMemPool) (free : L) (sn : CBlanknodeState) : CBlanknodeState :=
  if !lockRecv then sn
  else { sn with activeState := findState env collateralPubKey db pindexBest pool free sn }

/-! ## §2. Live blanknodes. -/

/-- An outpoint that is worth the collateral and can be spent: its transaction is in a
block of the main chain that is deep enough, and neither the index nor the pool knows a
transaction that spends it. -/
def LiveCollateral (o : COutPoint) : Prop :=
  ∃ (txindex : CTxIndex) (txPrev : CTransaction) (txout : CTxOut) (pindex : CBlockIndex),
    db.readTxIndex o.hash = some txindex ∧
    env.readTx txindex.pos.nFile txindex.pos.nTxPos = some txPrev ∧
    txPrev.getHash env.H = o.hash ∧
    txPrev.vout[o.n.toNat]? = some txout ∧ BLANKNODE_COLLATERAL ≤ txout.nValue ∧
    pindex ∈ pindexBest.branch ∧ pindex.data.nFile.1 = txindex.pos.nFile ∧
    pindex.data.nBlockPos = txindex.pos.nBlockPos ∧
    env.nCoinbaseMaturity ≤ pindexBest.nHeight - pindex.nHeight + 1 ∧
    txindex.vSpent[o.n.toNat]? = some .null ∧ pool.mapNextTx[o]? = none

/-- A blanknode that answers, and whose collateral is there. -/
structure Live (db : Records) (pindexBest : CBlockIndex) (pool : CTxMemPool)
    (sn : CBlanknodeState) : Prop where
  unitTest : sn.unitTest = false
  activeState : sn.activeState ≠ .BLANKNODE_VIN_SPENT
  nScanningErrorCount : sn.nScanningErrorCount < BLANKNODE_SCANNING_ERROR_THESHOLD
  lastTimeSeen : sn.updatedWithin env.nAdjustedTime BLANKNODE_EXPIRATION_SECONDS = true
  collateral : LiveCollateral env db pindexBest pool sn.vin.prevout

theorem probe_out_of_range : moneyRange (BLANKNODE_COLLATERAL * COIN) = false := by decide

/-- **No probe is accepted**, whatever the collateral, the chain and the pool. -/
theorem probe_refused (free : L) (vin : CTxIn) (fLimitFree ignoreFees : Bool) :
    accepts (acceptableInputs env db pindexBest pool free
    (probe env.nAdjustedTime collateralPubKey vin) fLimitFree ignoreFees).1 = false :=
  acceptableInputs_overpaid env db pindexBest pool free fLimitFree ignoreFees
    (List.mem_singleton_self _) probe_out_of_range

theorem updatedWithin_mono {nAdjustedTime : Int64} {sn : CBlanknodeState} {seconds more : Int32}
    (hle : seconds.toInt64 ≤ more.toInt64)
    (h : sn.updatedWithin nAdjustedTime seconds = true) :
    sn.updatedWithin nAdjustedTime more = true := by
  unfold CBlanknodeState.updatedWithin at h ⊢
  rw [decide_eq_true_eq] at h ⊢
  exact Int64.lt_of_lt_of_le h hle

/-- **`Check` on a live blanknode** finds its collateral spent whenever it gets its lock, so
that it never enables one. -/
theorem check_live (lockRecv : Bool) (db : Records) (pindexBest : CBlockIndex)
    (pool : CTxMemPool) (free : L) (sn : CBlanknodeState)
    (hlive : Live env db pindexBest pool sn) :
    (sn.check env collateralPubKey lockRecv db pindexBest pool free).activeState =
      if lockRecv then .BLANKNODE_VIN_SPENT else sn.activeState := by
  unfold CBlanknodeState.check
  cases lockRecv with
  | false => rfl
  | true =>
    have hremoval : sn.updatedWithin env.nAdjustedTime BLANKNODE_REMOVAL_SECONDS = true :=
      updatedWithin_mono (by decide) hlive.lastTimeSeen
    show findState env collateralPubKey db pindexBest pool free sn = .BLANKNODE_VIN_SPENT
    unfold findState
    rw [if_neg (Int32.not_le.mpr hlive.nScanningErrorCount), if_neg hlive.activeState, hremoval,
      hlive.lastTimeSeen, hlive.unitTest, probe_refused]
    rfl

/-! ## §3. A sample blanknode. -/

def collateralChain : Nat → CBlockIndex
  | 0 => sampleGenesis
  | n + 1 =>
    .child (collateralChain n)
      ⟨BitVec.ofNat 256 (n + 2), .first, UInt32.ofNat (1000 * (n + 1)), 2, 0, 1000,
        0x1e0fffff, 0⟩

def collateralTx : CTransaction := relayTx 9 0 [BLANKNODE_COLLATERAL]

def collateralRecords : Records :=
  { Records.empty with
    tx := (∅ : TxIndexMap).insert (collateralTx.getHash sampleChainHashes)
      (CTxIndex.fresh (.inFile .first 0 77) 1) }

def collateralEnv : AcceptEnv Unit :=
  { sampleChainEnv [(77, collateralTx)] with
    testNet := false
    sigEnv := sampleSigEnv
    limitFree := fun _ _ => (true, ()) }

def sampleBlanknode : CBlanknodeState where
  vin := ⟨⟨collateralTx.getHash sampleChainHashes, 0⟩, [], [], 0xffffffff⟩
  activeState := .BLANKNODE_ENABLED
  lastTimeSeen := 1500000000 - 60
  unitTest := false
  nScanningErrorCount := 0

theorem sampleBlanknode_live :
    Live collateralEnv collateralRecords (collateralChain 41) .empty sampleBlanknode where
  unitTest := rfl
  activeState := by decide
  nScanningErrorCount := by decide
  lastTimeSeen := by decide
  collateral := by
    refine ⟨CTxIndex.fresh (.inFile .first 0 77) 1, collateralTx, keyHashOut BLANKNODE_COLLATERAL,
      sampleGenesis, ?_, rfl, rfl, rfl, by decide, by decide +kernel, rfl, rfl, ?_, rfl, rfl⟩
    · decide +kernel
    · decide +kernel

theorem check_live_sampleBlanknode :
    (sampleBlanknode.check collateralEnv [OP_1] true collateralRecords (collateralChain 41) .empty
      ()).activeState = .BLANKNODE_VIN_SPENT :=
  check_live collateralEnv [OP_1] true collateralRecords (collateralChain 41) .empty ()
    sampleBlanknode sampleBlanknode_live

/-- **A live blanknode is not recognised.** -/
theorem sampleBlanknode_spent :
    Live collateralEnv collateralRecords (collateralChain 41) .empty sampleBlanknode ∧
      (sampleBlanknode.check collateralEnv [OP_1] true collateralRecords (collateralChain 41)
        .empty ()).activeState ≠ .BLANKNODE_ENABLED :=
  ⟨sampleBlanknode_live, by decide +kernel⟩

end Fantom.Blanknode
