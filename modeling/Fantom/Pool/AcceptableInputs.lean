/-
  Fantom.Pool.AcceptableInputs — `AcceptableInputs`: whether the inputs of a transaction can be
  spent, where its signatures and its standardness do not matter.

  * `acceptableInputs_overpaid` — an output that is out of range.
-/
import Fantom.Pool.Accept

namespace Fantom.Pool

open Core Chain Lib Script

variable {L : Type} (env : AcceptEnv L)

def checkFree (pool : CTxMemPool) (tx : CTransaction) : Except Failure Unit := do
  (checkTransaction tx).mapError (reportAs "AcceptableInputs : CheckTransaction failed")
  rejectIf tx.isCoinBase (.dos 100 "AcceptableInputs : coinbase as individual tx")
  rejectIf tx.isCoinStake (.dos 100 "AcceptableInputs : coinstake as individual tx")
  rejectIf (pool.mapTx.contains (tx.getHash env.H)) (.rejected 0 "")
  tx.vin.forM fun txin =>
    rejectIf (pool.mapNextTx.contains txin.prevout) (.rejected 0 "")

/-- The end after `FetchInputs`, whose one failure with a score is the one that
sets `fInvalid`. -/
def reportFetch : Failure → Failure
  | .rejected 0 _ => .rejected 0 ""
  | f => reportAs "AcceptableInputs : FetchInputs found invalid tx" f

variable (db : Records)

/-- The previous transactions of a transaction that is not in a block yet. -/
def checkPrevious (pool : CTxMemPool) (tx : CTransaction) : Except Failure MapPrevTx := do
  rejectIf (containsTx db (tx.getHash env.H)) (.rejected 0 "")
  let mapInputs ← (fetchInputs (withPool env.toChainEnv pool) db ∅ false false tx ∅).mapError
    reportFetch
  let nP2SHSigOps ← required (getP2SHSigOpCount tx mapInputs)
    (.threw "CTransaction::GetOutputFor() : prevout.hash not found")
  rejectIf (tx.getLegacySigOpCount + nP2SHSigOps > MAX_TX_SIGOPS)
    (.dos 0 "AcceptableInputs : too many sigops")
  return mapInputs

/-- The fees, and whether they are enough when free transactions are limited. -/
def checkPaid (tx : CTransaction) (mapInputs : MapPrevTx) (fLimitFree ignoreFees : Bool) :
    Except Failure Int64 := do
  let nFees ← (getFees tx mapInputs).mapError Refusal.failure
  rejectIf (!ignoreFees && fLimitFree && decide (nFees < getMinRelayFee tx.getSerializeSize))
    (.error "AcceptableInputs : not enough fees")
  return nFees

def checkInputsBefore (pool : CTxMemPool) (tx : CTransaction) (fLimitFree ignoreFees : Bool) :
    Except Failure (MapPrevTx × Int64) := do
  checkFree env pool tx
  let mapInputs ← checkPrevious env db pool tx
  let nFees ← checkPaid tx mapInputs fLimitFree ignoreFees
  return (mapInputs, nFees)

variable (pindexBest : CBlockIndex)

/-- `ConnectInputs` as for a block, without the signatures. -/
def checkUnsigned (tx : CTransaction) (mapInputs : MapPrevTx) : Except Failure Unit := do
  let _ ← (connectInputs env.toChainEnv tx mapInputs ∅ .inMempool pindexBest true false
    STANDARD_SCRIPT_VERIFY_FLAGS false).mapError (reportAs "AcceptableInputs : ConnectInputs failed")

/-- `AcceptableInputs`, with its own limiter of free transactions. -/
def acceptableInputs (pool : CTxMemPool)
    (free : L) (tx : CTransaction) (fLimitFree ignoreFees : Bool) : Except Failure Unit × L :=
  match checkInputsBefore env db pool tx fLimitFree ignoreFees with
  | .error f => (.error f, free)
  | .ok (mapInputs, nFees) =>
    let (fPass, free) := limiter env tx nFees fLimitFree ignoreFees free
    if !fPass then
      (.error (.error "AcceptableInputs : free transaction rejected by rate limiter"), free)
    else (checkUnsigned env pindexBest tx mapInputs, free)

theorem moneyRange_of_checkTransaction {tx : CTransaction} (h : checkTransaction tx = .ok ()) :
    ∀ txout ∈ tx.vout, moneyRange txout.nValue = true := by
  unfold checkTransaction at h
  obtain ⟨_, _, h⟩ := bind_eq_ok.mp h
  obtain ⟨_, _, h⟩ := bind_eq_ok.mp h
  obtain ⟨_, _, h⟩ := bind_eq_ok.mp h
  obtain ⟨_, hloop, _⟩ := bind_eq_ok.mp h
  refine foldlM_rule (f := checkOutput tx) (s := 0)
    (fun done _ => ∀ txout ∈ done, moneyRange txout.nValue = true) ?_ ?_ hloop
  · exact List.forall_mem_nil _
  intro done txout rest nValueOut _ _ hdone hstep other hin
  simp only [checkOutput, bind_eq_ok, rejectIf_eq_ok, decide_eq_false_iff_not] at hstep
  obtain ⟨_, _, _, hnegative, _, hhigh, _⟩ := hstep
  rcases List.mem_append.mp hin with hold | hnew
  · exact hdone other hold
  · rw [List.mem_singleton.mp hnew]
    simp only [moneyRange, Bool.and_eq_true, decide_eq_true_eq]
    exact ⟨Int64.not_lt.mp hnegative, Int64.not_lt.mp hhigh⟩

theorem checkTransaction_of_acceptableInputs {db : Records} {pindexBest : CBlockIndex}
    {pool : CTxMemPool} {free : L} {tx : CTransaction} {fLimitFree ignoreFees : Bool}
    (h : accepts (acceptableInputs env db pindexBest pool free tx fLimitFree ignoreFees).1 = true) :
    checkTransaction tx = .ok () := by
  unfold acceptableInputs at h
  cases hbefore : checkInputsBefore env db pool tx fLimitFree ignoreFees with
  | error f =>
    rw [hbefore] at h
    cases h
  | ok found =>
    unfold checkInputsBefore checkFree at hbefore
    obtain ⟨_, hfree, _⟩ := bind_eq_ok.mp hbefore
    obtain ⟨u, hpassed, _⟩ := bind_eq_ok.mp hfree
    exact mapError_eq_ok.mp hpassed

/-- **An output out of range** is refused, whatever the chain and the pool. -/
theorem acceptableInputs_overpaid (pool : CTxMemPool)
    (free : L) {tx : CTransaction} (fLimitFree ignoreFees : Bool)
    {txout : CTxOut} (hout : txout ∈ tx.vout) (hvalue : moneyRange txout.nValue = false) :
    accepts (acceptableInputs env db pindexBest pool free tx fLimitFree ignoreFees).1 = false := by
  rw [Bool.eq_false_iff]
  intro haccepts
  have hcheck := checkTransaction_of_acceptableInputs env haccepts
  rw [moneyRange_of_checkTransaction hcheck txout hout] at hvalue
  cases hvalue

end Fantom.Pool
