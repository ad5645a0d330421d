/-
  Fantom.Pool.Accept — `AcceptToMemoryPool`: how a loose transaction gets into the memory pool.

  * `checkInputs`, `checkFees`, `checkSpends` — the checks on the inputs,
  * `acceptToMemoryPool` — all of them, then `addUnchecked`.
-/
import Fantom.Chain.SetBestChain
import Fantom.Pool.Indexed
import Fantom.Pool.Standard

namespace Fantom.Pool

open Core Chain Lib Script Bool

/-! ## §1. Surroundings. -/

/-- What `AcceptToMemoryPool` reads besides the chain; `L` is the state of the
limiter of free transactions. -/
structure AcceptEnv (L : Type) extends ChainEnv where
  testNet : Bool
  /-- What `AreInputsStandard` evaluates a `scriptSig` with. -/
  sigEnv : SigEnv
  /-- The limiter, which counts in floating point: whether a free transaction of
  this size may pass now, and its new state. -/
  limitFree : L → Nat → Bool × L

/-- `return false`, with what is left in `*pfMissingInputs`. -/
structure Refusal where
  fMissingInputs : Bool
  failure : Failure
deriving DecidableEq, Repr

/-- A failure that says nothing about missing inputs. -/
def Refusal.of (failure : Failure) : Refusal := ⟨false, failure⟩

/-- `return error(msg)` on a failure that has marked the transaction already. -/
def Refusal.under (msg : String) : Failure → Refusal
  | .rejected nDoS _ => .of (.rejected nDoS msg)
  | .threw what => .of (.threw what)

/-- The end after `FetchInputs`, whose one failure with a score is the one that
sets `fInvalid`. -/
def Refusal.ofFetch : Failure → Refusal
  | .rejected 0 _ => .of (.rejected 0 "")
  | f => .under "AcceptToMemoryPool : FetchInputs found invalid tx" f

/-! ## §2. Rules of relay. -/

def LOCKTIME_THRESHOLD : UInt32 := 500000000

def MAX_STANDARD_TX_SIZE : Nat := MAX_BLOCK_SIZE / 2 / 5

def MAX_TX_SIGOPS : UInt32 := MAX_BLOCK_SIGOPS / 5

def DEFAULT_BLOCK_PRIORITY_SIZE : Nat := 50000

def MIN_RELAY_TX_FEE : Int64 := 100

/-- `IsFinalTx`, for a height that is not zero and the adjusted time. -/
def isFinalTx (nAdjustedTime : Int64) (tx : CTransaction) (nBlockHeight : Nat) : Bool :=
  tx.nLockTime == 0 ||
    decide ((tx.nLockTime.toNat : Int) <
      if tx.nLockTime < LOCKTIME_THRESHOLD then (nBlockHeight : Int) else nAdjustedTime.toInt) ||
    tx.vin.all fun txin => txin.nSequence == 0xffffffff

/-- One input in `IsStandardTx`. -/
def checkStandardIn (txin : CTxIn) : Except String Unit := do
  rejectIf (decide (txin.scriptSig.length > 1650)) "scriptsig-size"
  rejectIf (!CScript.isPushOnly txin.scriptSig) "scriptsig-not-pushonly"
  rejectIf (!CScript.hasCanonicalPushes txin.scriptSig) "scriptsig-non-canonical-push"

/-- One output in `IsStandardTx`, after `nDataOut` outputs with data. -/
def checkStandardOut (nDataOut : Nat) (txout : CTxOut) : Except String Nat := do
  let whichType ← required (isStandard txout.scriptPubKey) "scriptpubkey"
  rejectIf (txout.nValue == 0) "dust"
  rejectIf (!CScript.hasCanonicalPushes txout.scriptPubKey) "scriptpubkey-non-canonical-push"
  return if whichType = .TX_NULL_DATA then nDataOut + 1 else nDataOut

/-- `IsStandardTx`, with the reason where it returns false. -/
def isStandardTx (nAdjustedTime : Int64) (nBestHeight : Nat) (tx : CTransaction) :
    Except String Unit := do
  rejectIf (tx.nVersion > 1 || tx.nVersion < 1) "version"
  rejectIf (!isFinalTx nAdjustedTime tx (nBestHeight + 1)) "non-final"
  rejectIf (decide (tx.nTime.toUInt64.toInt64 > futureDrift nAdjustedTime)) "time-too-new"
  rejectIf (decide (tx.getSerializeSize ≥ MAX_STANDARD_TX_SIZE)) "tx-size"
  tx.vin.forM checkStandardIn
  let nDataOut ← tx.vout.foldlM checkStandardOut 0
  rejectIf (decide (nDataOut > 1) && decide (nDataOut > tx.vout.length / 2)) "multi-op-return"

/-- `GetMinFee(tx, nBytes, true, GMF_RELAY)`. -/
def getMinRelayFee (nBytes : Nat) : Int64 :=
  let nMinFee :=
    if nBytes < DEFAULT_BLOCK_PRIORITY_SIZE - 1000 then 0
    else (1 + Int64.ofNat nBytes / 1000) * MIN_RELAY_TX_FEE
  if moneyRange nMinFee then nMinFee else MAX_MONEY

/-! ## §3. The checks. -/

variable {L : Type} (env : AcceptEnv L) (pindexBest : CBlockIndex) (tx : CTransaction)

/-- `if (!TestNet() && !IsStandardTx(tx, reason))`. -/
def checkStandardTx : Except Refusal Unit :=
  if env.testNet then .ok ()
  else (isStandardTx env.nAdjustedTime pindexBest.nHeight tx).mapError fun reason =>
    .of (.error ("AcceptToMemoryPool : nonstandard transaction: " ++ reason))

/-- What `AcceptToMemoryPool` asks before it looks up inputs. -/
def checkLoose (pool : CTxMemPool) (tx : CTransaction) : Except Refusal Unit := do
  (checkTransaction tx).mapError (.under "AcceptToMemoryPool : CheckTransaction failed")
  rejectIf tx.isCoinBase (.of (.dos 100 "AcceptToMemoryPool : coinbase as individual tx"))
  rejectIf tx.isCoinStake (.of (.dos 100 "AcceptToMemoryPool : coinstake as individual tx"))
  checkStandardTx env pindexBest tx
  rejectIf (pool.mapTx.contains (tx.getHash env.H)) (.of (.rejected 0 ""))
  tx.vin.forM fun txin =>
    rejectIf ((env.mapLockedInputs[txin.prevout]?).any fun hash => hash != tx.getHash env.H)
      (.of (.dos 0 "AcceptToMemoryPool : conflicts with existing transaction lock"))
  -- replacement is disabled
  tx.vin.forM fun txin =>
    rejectIf (pool.mapNextTx.contains txin.prevout) (.of (.rejected 0 ""))

variable (db : Records)

def containsTx (hash : UInt256) : Bool := (db.readTxIndex hash).isSome

def checkKnown (tx : CTransaction) : Except Refusal Unit :=
  tx.vin.forM fun txin =>
    rejectIf (!containsTx db txin.prevout.hash) ⟨true, .rejected 0 ""⟩

variable (mapInputs : MapPrevTx)

/-- `if (!TestNet() && !AreInputsStandard(tx, mapInputs))`. -/
def checkStandardInputs : Except Refusal Unit :=
  if env.testNet then .ok ()
  else do
    let standard ← required (areInputsStandard env.sigEnv tx mapInputs .empty).1
      (.of (.threw "CTransaction::GetOutputFor() : prevout.hash not found"))
    rejectIf (!standard) (.of (.error "AcceptToMemoryPool : nonstandard transaction input"))

variable (pool : CTxMemPool)

/-- The previous transactions, with the checks on them. -/
def checkInputs (tx : CTransaction) : Except Refusal MapPrevTx := do
  let mapInputs ← (fetchInputs (withPool env.toChainEnv pool) db ∅ false false tx ∅).mapError
    .ofFetch
  checkStandardInputs env tx mapInputs
  let nP2SHSigOps ← required (getP2SHSigOpCount tx mapInputs)
    (.of (.threw "CTransaction::GetOutputFor() : prevout.hash not found"))
  rejectIf (tx.getLegacySigOpCount + nP2SHSigOps > MAX_TX_SIGOPS)
    (.of (.dos 0 "AcceptToMemoryPool : too many sigops"))
  return mapInputs

def getFees : Except Refusal Int64 := do
  let nValueIn ← required (getValueIn tx mapInputs)
    (.of (.threw "CTransaction::GetOutputFor() : prevout.hash not found"))
  let nValueOut ← required tx.getValueOut
    (.of (.threw "CTransaction::GetValueOut() : value out of range"))
  return nValueIn - nValueOut

variable (nFees : Int64) (fLimitFree ignoreFees : Bool)

/-- The fee a transaction needs, when free ones are limited. -/
def checkFees : Except Refusal Unit :=
  rejectIf (!ignoreFees && fLimitFree && decide (nFees < getMinRelayFee tx.getSerializeSize))
    (.of (.error "AcceptToMemoryPool : not enough fees"))

/-- `ConnectInputs`, for what is relayed and for what blocks may hold. -/
def checkSpends : Except Refusal Unit := do
  let connect := connectInputs env.toChainEnv tx mapInputs ∅ .inMempool pindexBest false false
  let _ ← (connect STANDARD_SCRIPT_VERIFY_FLAGS true).mapError
    (.under "AcceptToMemoryPool : ConnectInputs failed")
  let _ ← (connect MANDATORY_SCRIPT_VERIFY_FLAGS true).mapError
    (.under "AcceptToMemoryPool: : BUG! PLEASE REPORT THIS! ConnectInputs failed against MANDATORY but not STANDARD flags")

/-- What it asks before the limiter. -/
def checkBefore (pindexBest : CBlockIndex) (pool : CTxMemPool)
    (tx : CTransaction) (fLimitFree ignoreFees : Bool) : Except Refusal (MapPrevTx × Int64) := do
  checkLoose env pindexBest pool tx
  checkKnown db tx
  let mapInputs ← checkInputs env db pool tx
  let nFees ← getFees tx mapInputs
  checkFees tx nFees fLimitFree ignoreFees
  return (mapInputs, nFees)

/-- The limiter, which a transaction that pays is not put to. -/
def limiter (free : L) : Bool × L :=
  if !ignoreFees && fLimitFree && decide (nFees < MIN_RELAY_TX_FEE) then
    env.limitFree free tx.getSerializeSize
  else (true, free)

/-- `AcceptToMemoryPool`, on the pool and the state of the limiter. -/
def acceptToMemoryPool (pindexBest : CBlockIndex) (st : CTxMemPool × L)
    (tx : CTransaction) (fLimitFree ignoreFees : Bool) : Except Refusal Unit × (CTxMemPool × L) :=
  match checkBefore env db pindexBest st.1 tx fLimitFree ignoreFees with
  | .error refusal => (.error refusal, st)
  | .ok (mapInputs, nFees) =>
    let (fPass, free) := limiter env tx nFees fLimitFree ignoreFees st.2
    if !fPass then
      (.error (.of (.error "AcceptableInputs : free transaction rejected by rate limiter")),
        (st.1, free))
    else
      match checkSpends env pindexBest tx mapInputs with
      | .error refusal => (.error refusal, (st.1, free))
      | .ok () => (.ok (), (st.1.addUnchecked (tx.getHash env.H) tx, free))

/-! ## §4. When inputs are reported missing. -/

/-- A failure that does not report missing inputs. -/
abbrev NotMissing (refusal : Refusal) : Prop := refusal.fMissingInputs = false

theorem notMissing_under (msg : String) (f : Failure) : NotMissing (.under msg f) := by
  cases f <;> rfl

theorem notMissing_ofFetch (f : Failure) : NotMissing (.ofFetch f) := by
  unfold Refusal.ofFetch
  split
  · rfl
  · exact notMissing_under _ f

theorem checkLoose_notMissing (tx : CTransaction) :
    FailsWith NotMissing (checkLoose env pindexBest pool tx) := by
  unfold checkLoose
  refine failsWith_bind (failsWith_mapError fun _ => notMissing_under _ _) fun _ => ?_
  refine failsWith_bind (failsWith_rejectIf rfl) fun _ => ?_
  refine failsWith_bind (failsWith_rejectIf rfl) fun _ => ?_
  refine failsWith_bind (failsWith_ite (failsWith_ok _) (failsWith_mapError fun _ => rfl))
    fun _ => ?_
  refine failsWith_bind (failsWith_rejectIf rfl) fun _ => ?_
  refine failsWith_bind (failsWith_forM fun _ => failsWith_rejectIf rfl) fun _ => ?_
  exact failsWith_forM fun _ => failsWith_rejectIf rfl

theorem checkInputs_notMissing (tx : CTransaction) :
    FailsWith NotMissing (checkInputs env db pool tx) := by
  unfold checkInputs
  refine failsWith_bind (failsWith_mapError notMissing_ofFetch) fun _ => ?_
  refine failsWith_bind (failsWith_ite (failsWith_ok _) ?_) fun _ => ?_
  · exact failsWith_bind (failsWith_required rfl) fun _ => failsWith_rejectIf rfl
  · refine failsWith_bind (failsWith_required rfl) fun _ => ?_
    exact failsWith_bind (failsWith_rejectIf rfl) fun _ => failsWith_ok _

theorem getFees_notMissing : FailsWith NotMissing (getFees tx mapInputs) := by
  unfold getFees
  refine failsWith_bind (failsWith_required rfl) fun _ => ?_
  exact failsWith_bind (failsWith_required rfl) fun _ => failsWith_ok _

theorem checkFees_notMissing : FailsWith NotMissing (checkFees tx nFees fLimitFree ignoreFees) :=
  failsWith_rejectIf rfl

theorem checkSpends_notMissing :
    FailsWith NotMissing (checkSpends env pindexBest tx mapInputs) := by
  unfold checkSpends
  refine failsWith_bind (failsWith_mapError fun _ => notMissing_under _ _) fun _ => ?_
  exact failsWith_bind (failsWith_mapError fun _ => notMissing_under _ _) fun _ => failsWith_ok _

theorem checkKnown_ok_iff (tx : CTransaction) :
    checkKnown db tx = .ok () ↔ ∀ txin ∈ tx.vin, containsTx db txin.prevout.hash = true := by
  rw [checkKnown, forM_eq_ok]
  simp only [rejectIf_eq_ok, not_eq_false']

theorem checkKnown_missing (tx : CTransaction) :
    FailsWith (fun refusal => refusal.fMissingInputs = true) (checkKnown db tx) :=
  failsWith_forM fun _ => failsWith_rejectIf rfl

variable {db : Records} {pindexBest : CBlockIndex} {tx : CTransaction}
    {fLimitFree ignoreFees : Bool} {st : CTxMemPool × L}

/-- How the checks up to the limiter fail when the scan of the inputs is reached:
with missing inputs where the scan fails, else without. -/
theorem checkBefore_error {pool : CTxMemPool} {refusal : Refusal}
    (h : checkBefore env db pindexBest pool tx fLimitFree ignoreFees = .error refusal) :
    refusal.fMissingInputs = true ↔
      checkLoose env pindexBest pool tx = .ok () ∧
        ∃ txin ∈ tx.vin, containsTx db txin.prevout.hash = false := by
  unfold checkBefore at h
  cases hloose : checkLoose env pindexBest pool tx with
  | error e =>
    rw [hloose] at h
    cases h
    rw [checkLoose_notMissing env pindexBest pool tx refusal hloose]
    simp
  | ok _ =>
    rw [hloose, ok_bind] at h
    cases hknown : checkKnown db tx with
    | error e =>
      rw [hknown] at h
      cases h
      refine iff_of_true (checkKnown_missing db tx refusal hknown) ⟨rfl, ?_⟩
      by_contra hall
      have hok : checkKnown db tx = .ok () := by
        rw [checkKnown_ok_iff]
        intro txin hin
        by_contra hc
        exact hall ⟨txin, hin, eq_false_iff.mpr hc⟩
      rw [hknown] at hok
      cases hok
    | ok _ =>
      rw [hknown, ok_bind] at h
      have hlater : FailsWith NotMissing (do
          let mapInputs ← checkInputs env db pool tx
          let nFees ← getFees tx mapInputs
          checkFees tx nFees fLimitFree ignoreFees
          return (mapInputs, nFees) : Except Refusal (MapPrevTx × Int64)) := by
        refine failsWith_bind (checkInputs_notMissing env db pool tx) fun _ => ?_
        refine failsWith_bind (getFees_notMissing tx _) fun _ => ?_
        exact failsWith_bind (checkFees_notMissing tx _ _ _) fun _ => failsWith_ok _
      rw [hlater refusal h]
      refine iff_of_false (by decide) ?_
      rintro ⟨_, txin, hin, hnot⟩
      rw [(checkKnown_ok_iff db tx).mp hknown txin hin] at hnot
      cases hnot

/-- The value `AcceptToMemoryPool` leaves in `*pfMissingInputs`. -/
def missingInputs (result : Except Refusal Unit) : Bool :=
  match result with
  | .ok () => false
  | .error refusal => refusal.fMissingInputs

/-- **When inputs are reported missing**: the checks that read no database pass
and an input is not in the transaction index, whatever is in the pool. -/
theorem missingInputs_iff (db : Records) (pindexBest : CBlockIndex) (st : CTxMemPool × L)
    (tx : CTransaction) (fLimitFree ignoreFees : Bool) :
    missingInputs (acceptToMemoryPool env db pindexBest st tx fLimitFree ignoreFees).1 = true ↔
      checkLoose env pindexBest st.1 tx = .ok () ∧
        ∃ txin ∈ tx.vin, containsTx db txin.prevout.hash = false := by
  unfold acceptToMemoryPool
  cases hbefore : checkBefore env db pindexBest st.1 tx fLimitFree ignoreFees with
  | error refusal => exact checkBefore_error env hbefore
  | ok found =>
    -- all that follows the scan reports nothing missing, and the scan has passed
    have hknown : ∀ txin ∈ tx.vin, containsTx db txin.prevout.hash = true := by
      unfold checkBefore at hbefore
      obtain ⟨_, _, hbefore⟩ := bind_eq_ok.mp hbefore
      obtain ⟨_, hscan, _⟩ := bind_eq_ok.mp hbefore
      exact (checkKnown_ok_iff db tx).mp hscan
    refine iff_of_false ?_ ?_
    · dsimp only
      split
      · exact false_ne_true
      · cases hspends : checkSpends env pindexBest tx found.1 with
        | error refusal =>
          dsimp only [missingInputs]
          rw [checkSpends_notMissing env pindexBest tx found.1 refusal hspends]
          exact false_ne_true
        | ok _ => exact false_ne_true
    · rintro ⟨_, txin, hin, hnot⟩
      rw [hknown txin hin] at hnot
      cases hnot

/-! ## §5. What is accepted. -/

theorem distinct_of_checkTransaction (h : checkTransaction tx = .ok ()) :
    (tx.vin.map CTxIn.prevout).Nodup := by
  unfold checkTransaction at h
  obtain ⟨_, _, h⟩ := bind_eq_ok.mp h
  obtain ⟨_, _, h⟩ := bind_eq_ok.mp h
  obtain ⟨_, _, h⟩ := bind_eq_ok.mp h
  obtain ⟨_, _, h⟩ := bind_eq_ok.mp h
  obtain ⟨_, hnodup, _⟩ := bind_eq_ok.mp h
  rw [rejectIf_eq_ok, not_eq_false'] at hnodup
  exact of_decide_eq_true hnodup

theorem checkLoose_addable {pool : CTxMemPool} (h : checkLoose env pindexBest pool tx = .ok ()) :
    Addable env.H pool tx := by
  unfold checkLoose at h
  obtain ⟨_, hcheck, h⟩ := bind_eq_ok.mp h
  obtain ⟨_, _, h⟩ := bind_eq_ok.mp h
  obtain ⟨_, _, h⟩ := bind_eq_ok.mp h
  obtain ⟨_, _, h⟩ := bind_eq_ok.mp h
  obtain ⟨_, hexists, h⟩ := bind_eq_ok.mp h
  obtain ⟨_, _, hspent⟩ := bind_eq_ok.mp h
  rw [mapError_eq_ok] at hcheck
  rw [rejectIf_eq_ok, StdMap.contains_eq_false_iff] at hexists
  refine ⟨hexists, distinct_of_checkTransaction hcheck, ?_⟩
  intro o ho
  obtain ⟨txin, hin, rfl⟩ := List.mem_map.mp ho
  have hfree := forM_eq_ok.mp hspent txin hin
  rw [rejectIf_eq_ok, StdMap.contains_eq_false_iff] at hfree
  exact hfree

/-- **What an accepting call says**: every part of the checks passes, and the
transaction is added to the pool. -/
theorem acceptToMemoryPool_ok
    (h : (acceptToMemoryPool env db pindexBest st tx fLimitFree ignoreFees).1 = .ok ()) :
    checkLoose env pindexBest st.1 tx = .ok () ∧
      (∀ txin ∈ tx.vin, containsTx db txin.prevout.hash = true) ∧
      (acceptToMemoryPool env db pindexBest st tx fLimitFree ignoreFees).2.1 =
        st.1.addUnchecked (tx.getHash env.H) tx := by
  unfold acceptToMemoryPool at h ⊢
  cases hbefore : checkBefore env db pindexBest st.1 tx fLimitFree ignoreFees with
  | error refusal =>
    rw [hbefore] at h
    cases h
  | ok found =>
    rw [hbefore] at h
    dsimp only at h ⊢
    unfold checkBefore at hbefore
    obtain ⟨_, hloose, hbefore⟩ := bind_eq_ok.mp hbefore
    obtain ⟨_, hscan, _⟩ := bind_eq_ok.mp hbefore
    refine ⟨hloose, (checkKnown_ok_iff db tx).mp hscan, ?_⟩
    split at h
    next => cases h
    next hpass =>
      rw [if_neg hpass]
      cases hspends : checkSpends env pindexBest tx found.1 with
      | error refusal =>
        rw [hspends] at h
        cases h
      | ok _ => rfl

theorem acceptToMemoryPool_error {refusal : Refusal}
    (h : (acceptToMemoryPool env db pindexBest st tx fLimitFree ignoreFees).1 = .error refusal) :
    (acceptToMemoryPool env db pindexBest st tx fLimitFree ignoreFees).2.1 = st.1 := by
  unfold acceptToMemoryPool at h ⊢
  cases hbefore : checkBefore env db pindexBest st.1 tx fLimitFree ignoreFees with
  | error _ => rfl
  | ok found =>
    rw [hbefore] at h
    dsimp only at h ⊢
    split
    next => rfl
    next hpass =>
      rw [if_neg hpass] at h
      cases hspends : checkSpends env pindexBest tx found.1 with
      | error _ => rfl
      | ok _ =>
        rw [hspends] at h
        cases h

/-! The same for a call whose results are named. -/

theorem acceptToMemoryPool_eq_ok {st' : CTxMemPool × L} {u : Unit}
    (h : acceptToMemoryPool env db pindexBest st tx fLimitFree ignoreFees = (.ok u, st')) :
    checkLoose env pindexBest st.1 tx = .ok () ∧
      (∀ txin ∈ tx.vin, containsTx db txin.prevout.hash = true) ∧
      st'.1 = st.1.addUnchecked (tx.getHash env.H) tx := by
  obtain ⟨hloose, hknown, hpool⟩ := acceptToMemoryPool_ok env (congrArg Prod.fst h)
  rw [h] at hpool
  exact ⟨hloose, hknown, hpool⟩

theorem acceptToMemoryPool_eq_error {st' : CTxMemPool × L} {refusal : Refusal}
    (h : acceptToMemoryPool env db pindexBest st tx fLimitFree ignoreFees = (.error refusal, st')) :
    st'.1 = st.1 := by
  have hpool := acceptToMemoryPool_error env (congrArg Prod.fst h)
  rw [h] at hpool
  exact hpool

end Fantom.Pool
