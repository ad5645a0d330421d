/-
  Fantom.Zerosend.Mixing — The pool at work on a blanknode: the messages of its clients, and its own
  checks.

  * `ssa`, `ssi`, `sss` — the handlers of the messages,
  * `step` — any of it, in any surroundings.
-/
import Fantom.Pool.OrphanQueue
import Fantom.Script.Sign
import Fantom.Zerosend.Entries

namespace Fantom.Zerosend

open Core Chain Lib Script Pool

/-! ## §1. Signatures. -/

/-- Whether an item of a message is for an input. -/
def names (item txin : CTxIn) : Bool :=
  txin.prevout == item.prevout && txin.nSequence == item.nSequence

/-- The signature of an item, put into an input that it names. -/
def signWith (item txin : CTxIn) : CTxIn :=
  if names item txin then { txin with scriptSig := item.scriptSig, prevPubKey := item.prevPubKey }
  else txin

/-- The loop of `CZeroSendEntry::AddSig`, which ends at the first input that is named. -/
def addSigLoop (item : CTxIn) : List CTxSSIn → Option (List CTxSSIn)
  | [] => none
  | s :: sev =>
    if names item s.toCTxIn then
      if s.fHasSig then none else some (⟨signWith item s.toCTxIn, true⟩ :: sev)
    else (addSigLoop item sev).map (s :: ·)

def CZeroSendEntry.addSig (item : CTxIn) (e : CZeroSendEntry) : Option CZeroSendEntry :=
  (addSigLoop item e.sev).map fun sev => { e with sev }

/-- The loop over the entries, up to the first one that takes the signature. -/
def addSigEntries (item : CTxIn) : List CZeroSendEntry → Option (List CZeroSendEntry)
  | [] => none
  | e :: entries =>
    match e.addSig item with
    | some e => some (e :: entries)
    | none => (addSigEntries item entries).map (e :: ·)

def inputsOf (entries : List CZeroSendEntry) : List CTxSSIn :=
  entries.flatMap CZeroSendEntry.sev

variable {L : Type} (cfg : Config) (env : Surroundings L)

/-- The transaction of all entries, before it is shuffled. -/
def gathered (entries : List CZeroSendEntry) : CTransaction :=
  { CTransaction.null env.nAdjustedTime.toUInt64.toUInt32 with
    vin := (inputsOf entries).map CTxSSIn.toCTxIn
    vout := entries.flatMap CZeroSendEntry.vout }

def poolFlags : UInt32 := SCRIPT_VERIFY_P2SH ||| SCRIPT_VERIFY_STRICTENC

namespace CZerosendPool

variable (pool : CZerosendPool)

/-- `SignatureValid`.  The checker is for the number of all inputs, and an input that is not
found is valid. -/
def signatureValid (newSig : CScript) (newVin : CTxIn) : Bool :=
  let inputs := inputsOf pool.entries
  let found := (inputs.zipIdx.filter fun p => p.1.toCTxIn.eqv newVin).getLast?
  match found with
  | none => true
  | some (s, n) =>
    let txNew := setScriptSig (gathered env pool.entries) n newSig
    accepts (verifyScript env.sigEnv.scriptHashes
      (signatureChecker env.sigEnv txNew inputs.length) poolFlags newSig s.prevPubKey)

/-- `CZerosendPool::AddScriptSig` -/
def addScriptSig (newVin : CTxIn) : CZerosendPool × Bool :=
  if (inputsOf pool.entries).any fun s => s.scriptSig == newVin.scriptSig then (pool, false)
  else if !pool.signatureValid env newVin.scriptSig newVin then (pool, false)
  else
    let vin := pool.finalTransaction.vin.map (signWith newVin)
    let pool := { pool with finalTransaction := { pool.finalTransaction with vin } }
    match addSigEntries newVin pool.entries with
    | some entries => ({ pool with entries }, true)
    | none => (pool, false)

def signaturesComplete : Bool :=
  (inputsOf pool.entries).all CTxSSIn.fHasSig

/-! ## §2. `Check`. -/

/-- `CheckFinalTransaction`; a key that does not sign leaves the pool as it is. -/
def checkFinalTransaction : CZerosendPool :=
  if !cfg.fBlankNode then pool
  else if !env.finalAccepted pool.finalTransaction then
    updateState cfg env .ACCEPTING_ENTRIES (pool.setNull env false)
  else if !env.fSigned then pool
  else pool.setNull env true

def mixed (entries : List CZeroSendEntry) : CTransaction :=
  let txNew := gathered env entries
  { txNew with vin := env.shuffleVin txNew.vin, vout := env.shuffleVout txNew.vout }

/-- `Check`, where the entries are full. -/
def checkFull : CZerosendPool :=
  if pool.state = .ACCEPTING_ENTRIES ∧ (pool.entries.length : Int) ≥ getMaxPoolTransactions cfg then
    updateState cfg env .FINALIZE_TRANSACTION pool
  else pool

/-- `Check`, where the transaction is made. -/
def checkFinalize : CZerosendPool :=
  if pool.state = .FINALIZE_TRANSACTION then
    let pool := updateState cfg env .SIGNING pool
    if cfg.fBlankNode then { pool with finalTransaction := mixed env pool.entries } else pool
  else pool

/-- `Check`, where all have signed. -/
def checkSigned : CZerosendPool :=
  if pool.state = .SIGNING ∧ pool.signaturesComplete = true then
    checkFinalTransaction cfg env (updateState cfg env .TRANSMISSION pool)
  else pool

/-- `Check`, ten seconds after the end. -/
def checkEnded : CZerosendPool :=
  if (pool.state = .ERROR ∨ pool.state = .SUCCESS) ∧
      env.nTimeMillis - pool.lastTimeChanged ≥ 10000 then pool.setNull env true
  else pool

def check : CZerosendPool :=
  checkEnded env (checkSigned cfg env (checkFinalize cfg env (checkFull cfg env pool)))

/-! ## §3. Timeouts. -/

/-- The loop over the entries in `CheckTimeout`: the first that is expired is erased. -/
def eraseExpired (nNow : Int64) : List CZeroSendEntry → List CZeroSendEntry
  | [] => []
  | e :: entries => if e.isExpired nNow then entries else e :: eraseExpired nNow entries

def endIfEmpty : CZerosendPool :=
  if pool.entries.isEmpty && pool.myEntries.isEmpty then pool.setNull env true else pool

/-- The expired entry in `CheckTimeout`: a blanknode has it in `entries`, a client in
`myEntries`. -/
def dropExpired : CZerosendPool :=
  if cfg.fBlankNode then
    if pool.entries.any (CZeroSendEntry.isExpired env.nNow) then
      endIfEmpty env { pool with entries := eraseExpired env.nNow pool.entries }
    else pool
  else if pool.myEntries.any (CZeroSendEntry.isExpired env.nNow) then
    endIfEmpty env { pool with myEntries := eraseExpired env.nNow pool.myEntries }
  else pool

/-- Whether so many seconds have gone by since the state changed; a client waits longer. -/
def timedOut (seconds : Int64) : Bool :=
  env.nTimeMillis - pool.lastTimeChanged ≥ seconds * 1000 + if cfg.fBlankNode then 0 else 10000

/-- `CheckTimeout`, the wait for users and entries, or for anything. -/
def checkQueueTimeout : CZerosendPool :=
  if pool.takesUsers then
    let pool := dropExpired cfg env pool
    if pool.timedOut cfg env ZEROSEND_QUEUE_TIMEOUT then pool.setNull env true else pool
  else if pool.timedOut cfg env ZEROSEND_QUEUE_TIMEOUT then
    updateState cfg env .ERROR (pool.setNull env false)
  else pool

/-- `CheckTimeout`, the wait for signatures. -/
def checkSigningTimeout : CZerosendPool :=
  if pool.state = .SIGNING ∧ pool.timedOut cfg env ZEROSEND_SIGNING_TIMEOUT = true then
    updateState cfg env .ERROR (pool.setNull env false)
  else pool

def checkTimeout : CZerosendPool :=
  if !cfg.fEnableZerosend && !cfg.fBlankNode then pool
  else
    let pool := if !cfg.fBlankNode && pool.state == .TRANSMISSION then check cfg env pool else pool
    checkSigningTimeout cfg env (checkQueueTimeout cfg env pool)

def checkForCompleteQueue : CZerosendPool :=
  if !cfg.fEnableZerosend && !cfg.fBlankNode then pool
  else if pool.state = .QUEUE ∧ pool.sessionUsers = getMaxPoolTransactions cfg then
    updateState cfg env .ACCEPTING_ENTRIES pool
  else pool

/-! ## §4. Messages. -/

end CZerosendPool

/-- `sssu`, the answer to a client. -/
structure Sssu where
  sessionID : Int32
  state : PoolStatus
  entriesCount : Nat
  accepted : Int32
  error : String
deriving DecidableEq, Repr

def MIN_ZEROSEND_PROTO_VERSION : Int32 := 60020

/-- `1024.15*COIN` -/
def ZEROSEND_POOL_MAX : Int64 := 102415000000

/-- `ssa`: a client wants in. -/
structure Ssa where
  nVersion : Int32
  nDenom : Int32
  txCollateral : CTransaction

/-- `ssi`: its inputs and outputs. -/
structure Ssi where
  nVersion : Int32
  vin : List CTxIn
  nAmount : Int64
  txCollateral : CTransaction
  vout : List CTxOut

/-- `sss`: its signatures. -/
structure Sss where
  nVersion : Int32
  sigs : List CTxIn

namespace CZerosendPool

variable (pool : CZerosendPool)

/-- `PushMessage("sssu", sessionID, GetState(), GetEntriesCount(), accepted, error)` of a
blanknode. -/
def answer (accepted : Bool) (error : String) : Sssu :=
  ⟨pool.sessionID, pool.state, pool.entries.length, if accepted then 1 else 0, error⟩

/-- Whether the last queue of this blanknode is too recent for another. -/
def tooRecent (nLastSsq : Int) : Bool :=
  nLastSsq ≠ 0 && nLastSsq + env.nBlanknodes.tdiv 5 > env.nSsqCount

/-- The handler of `ssa`.  Where the last queue is too recent it says accepted, and does
nothing. -/
def ssa (m : Ssa) : CZerosendPool × Sssu :=
  if m.nVersion < MIN_ZEROSEND_PROTO_VERSION then
    (pool, pool.answer false "Incompatible version.")
  else if !cfg.fBlankNode then (pool, pool.answer false "This is not a Blanknode.")
  else
    match env.nLastSsq with
    | none => (pool, pool.answer false "Not in the Blanknode list.")
    | some nLastSsq =>
      if pool.sessionUsers = 0 ∧ tooRecent env nLastSsq = true then (pool, pool.answer true "")
      else
        let (pool, fOk, error) :=
          pool.isCompatibleWithSession cfg env m.nDenom m.txCollateral
        (pool, pool.answer fOk error)

/-- `nValueIn-nValueOut > nValueIn*.01`.  Up to `ZEROSEND_POOL_MAX` a double holds the amounts,
and a hundredth to much less than the next amount, so it compares as the numbers do. -/
def feesTooHigh (nValueIn nValueOut : Int64) : Bool :=
  100 * (nValueIn - nValueOut).toInt > nValueIn.toInt

variable (m : Ssi)

/-- `CTransaction tx` of a message. -/
def Ssi.tx : CTransaction :=
  { CTransaction.null env.nAdjustedTime.toUInt64.toUInt32 with vin := m.vin, vout := m.vout }

/-- The part of the handler of `ssi` that checks the message like a transaction. -/
def checkLikeTransaction : Except String Unit := do
  m.vout.forM fun o => do
    rejectIf (o.scriptPubKey.length != 25) "Non-standard public key detected."
    rejectIf (!CScript.isNormalPaymentScript o.scriptPubKey) "Invalid script detected."
  rejectIf (foundValue env m.vin > ZEROSEND_POOL_MAX)
    "Value more than Zerosend pool maximum allows."
  rejectIf (missingTx env m.vin) "Missing input transaction information."
  rejectIf (feesTooHigh (foundValue env m.vin) (valueOf m.vout)) "Transaction fees are too high."
  rejectIf (!inputsAcceptable env (Ssi.tx env m)) "Transaction not valid."

/-- The handler of `ssi` up to `AddEntry`. -/
def checkSsi : Except String Unit := do
  rejectIf (m.nVersion < MIN_ZEROSEND_PROTO_VERSION) "Incompatible version."
  rejectIf (!cfg.fBlankNode) "This is not a Blanknode."
  rejectIf (!pool.isSessionReady cfg) "Session not complete!"
  rejectIf (!pool.isCompatibleWithEntries m.vout) "Not compatible with existing transactions."
  checkLikeTransaction env m

/-- The handler of `ssi`. -/
def ssi : CZerosendPool × Sssu :=
  match pool.checkSsi cfg env m with
  | .error e => (pool, pool.answer false e)
  | .ok _ =>
    let (pool, fOk, error) := pool.addEntry cfg env m.vin m.nAmount m.txCollateral m.vout
    (if fOk then check cfg env pool else pool, pool.answer fOk error)

def sssItem (st : CZerosendPool × Bool) (item : CTxIn) : CZerosendPool × Bool :=
  let (pool, fOk) := st.1.addScriptSig env item
  (pool, st.2 || fOk)

/-- The handler of `sss`. -/
def sss (m : Sss) : CZerosendPool :=
  if m.nVersion < MIN_ZEROSEND_PROTO_VERSION then pool
  else
    let (pool, success) := m.sigs.foldl (sssItem env) (pool, false)
    if success then check cfg env pool else pool

end CZerosendPool

/-! ## §5. Runs. -/

/-- What a pool is asked. -/
inductive Event where
  | ssa (m : Ssa)
  | ssi (m : Ssi)
  | sss (m : Sss)
  | check
  | checkTimeout
  | checkForCompleteQueue

/-- One event, in the surroundings it happens in. -/
def step (pool : CZerosendPool) (ev : Surroundings L × Event) : CZerosendPool :=
  match ev.2 with
  | .ssa m => (pool.ssa cfg ev.1 m).1
  | .ssi m => (pool.ssi cfg ev.1 m).1
  | .sss m => pool.sss cfg ev.1 m
  | .check => pool.check cfg ev.1
  | .checkTimeout => pool.checkTimeout cfg ev.1
  | .checkForCompleteQueue => pool.checkForCompleteQueue cfg ev.1

/-- `CZerosendPool()`. -/
def newPool : CZerosendPool where
  myEntries := []
  entries := []
  finalTransaction := ⟨1, 0, [], [], 0⟩
  lastTimeChanged := 0
  state := .IDLE
  unitTest := false
  sessionID := 0
  sessionDenom := 0
  sessionUsers := 0
  vecSessionCollateral := []

/-! ## §6. A sample session. -/

def mixingTx : CTransaction :=
  relayTx 9 0 [COIN, COIN + 1000, COIN + 1000, COIN + 1000, COIN + 1000]

def mixingIn (n nSequence : UInt32) : CTxIn :=
  ⟨⟨mixingTx.getHash sampleChainHashes, n⟩, [], [], nSequence⟩

def mixingEnv : Surroundings Unit where
  toChainEnv := sampleChainEnv [(77, mixingTx)]
  testNet := true
  sigEnv := sampleSigEnv
  limitFree := fun _ _ => (true, ())
  db := { Records.empty with
    tx := (∅ : TxIndexMap).insert (mixingTx.getHash sampleChainHashes)
      (CTxIndex.fresh (.inFile .first 0 77) 5) }
  pindexBest := sampleGenesis
  mempool := .empty
  free := ()
  nTimeMillis := 1500000000000
  getTransaction := fun hash =>
    if hash = mixingTx.getHash sampleChainHashes then some mixingTx else none
  nLastSsq := some 0
  nBlanknodes := 5
  nSsqCount := 0
  nRand := 6
  shuffleVin := id
  shuffleVin_perm _ := List.Perm.refl _
  shuffleVout := id
  shuffleVout_perm _ := List.Perm.refl _
  finalAccepted _ := true
  fSigned := true

def mixingConfig : Config := ⟨true, true, true⟩

def mixingCollateral : CTransaction :=
  { CTransaction.null 1100 with vin := [mixingIn 0 0], vout := [keyHashOut ZEROSEND_COLLATERAL] }

def mixingSsa : Surroundings Unit × Event := (mixingEnv, .ssa ⟨60020, 32, mixingCollateral⟩)

def mixingSsi (vin : List CTxIn) (nAmount : Int64) : Ssi :=
  ⟨60020, vin, nAmount, mixingCollateral, vin.map fun _ => keyHashOut (COIN + 1000)⟩

/-- The pool with as many users as it takes. -/
def mixingPool : CZerosendPool :=
  run (step mixingConfig) newPool [mixingSsa, mixingSsa, (mixingEnv, .checkForCompleteQueue)]

end Fantom.Zerosend
