/-
  Fantom.Wallet.CreateTransaction — Transactions of the wallet: recipients, inputs, change and the
  fee, which grows until it is enough for the size.

  * `CreatesTransaction.payees` — what is created has passed the dust rule for each recipient,
  * `narration_never_pays` — no payment with a narration is ever created.

  Arithmetic on `int64_t` that overflows is undefined, and so ends the run of the model.
-/
import Fantom.Lib.WhileLoop
import Fantom.Script.Pushes
import Fantom.Wallet.SelectCoins

namespace Fantom.Wallet

section Recipients

open Core Lib Pool List Int64 Int

/-! ## §1. Amounts. -/

/-- How a call ends that does not return true. -/
inductive Stop where
  /-- `return false` -/
  | fails (strFailReason : String)
  /-- A failed assertion. -/
  | assertion
  /-- A signed overflow, or a division by zero. -/
  | undefined
deriving DecidableEq

/-- A result of arithmetic on `int64_t`. -/
def int64 (x : Int) : Except Stop Int64 :=
  if -2 ^ 63 ≤ x ∧ x < 2 ^ 63 then .ok (Int64.ofInt x) else .error .undefined

/-- A result of arithmetic on `int`. -/
def int32 (x : Int) : Except Stop Int :=
  if -2 ^ 31 ≤ x ∧ x < 2 ^ 31 then .ok x else .error .undefined

theorem toInt_of_int64 {x : Int} {a : Int64} (h : int64 x = .ok a) : a.toInt = x := by
  unfold int64 at h
  split at h
  next hx =>
    rw [← Except.ok.inj h]
    exact toInt_ofInt_of_le hx.1 hx.2
  next => cases h

/-! ## §2. Dust and fees. -/

/-- `IsDust(MIN_RELAY_TX_FEE)` -/
def CTxOut.isDust (out : CTxOut) : Except Stop Bool := do
  let scaled ← int64 (out.nValue.toInt * 1000)
  let spend ← int32 (3 * ((Int32.ofNat out.serialize.length).toInt + 148))
  rejectIf (spend == 0) .undefined
  return decide (scaled.toInt.tdiv spend < MIN_RELAY_TX_FEE.toInt)

def MIN_TX_FEE : Int64 := 100

/-- `enum GetMinFee_mode` -/
inductive GetMinFeeMode where
  | GMF_BLOCK
  | GMF_RELAY
  | GMF_SEND
deriving DecidableEq

/-- `GetMinFee` -/
def getMinFee (tx : CTransaction) (nBytes : Nat) (fAllowFree : Bool) (mode : GetMinFeeMode) :
    Int64 :=
  let nBaseFee := if mode = .GMF_RELAY then MIN_RELAY_TX_FEE else MIN_TX_FEE
  let nMinFee := (1 + Int64.ofNat nBytes / 1000) * nBaseFee
  let nMinFee :=
    if fAllowFree &&
        decide (nBytes < if mode = .GMF_SEND then 1000 else DEFAULT_BLOCK_PRIORITY_SIZE - 1000) then
      0
    else nMinFee
  -- until miners have upgraded: a fee for outputs below a cent
  let nMinFee :=
    if decide (nMinFee < nBaseFee) && mode = .GMF_SEND &&
        tx.vout.any fun txout => decide (txout.nValue.toInt < CENT) then
      nBaseFee
    else nMinFee
  if moneyRange nMinFee then nMinFee else MAX_MONEY

/-! ## §3. What is created. -/

inductive AvailableCoinsType where
  | ALL_COINS
  | ONLY_DENOMINATED
  | ONLY_NONDENOMINATED
  | ONLY_NONDENOMINATED_NOTSN
deriving DecidableEq

/-- What the loop leaves to the wallet.  A number is that of the turn. -/
structure CreateEnv where
  /-- `SelectCoins` for a target: `setCoins` and `nValueIn`, where it returns true. -/
  selectCoins : Nat → Int64 → Option (List CoinKey × Int64)
  /-- The script of the change address of `coinControl`, else of a key reserved from the pool. -/
  changeScript : Nat → Option CScript
  /-- `GetRandInt(n + 1)` -/
  getRandInt : Nat → (n : Nat) → Fin (n + 1)
  /-- The `scriptSig` that `SignSignature` writes for an input, where it returns true. -/
  signSignature : CTransaction → CoinKey → Nat → Option CScript
  /-- `AllowFree` of the priority, which is computed in floating point from the coins. -/
  allowFree : List CoinKey → CTransaction → Nat → Bool
  nTransactionFee : Int64

/-- The parts of `CWalletTx` that are written. -/
structure NewTx where
  tx : CTransaction
  mapValue : List (String × String)
  fFromMe : Bool
  fTimeReceivedIsTxTime : Bool

/-- `wtxNew` and `nFeeRet`, with the coins that are spent. -/
structure Created where
  wtxNew : NewTx
  nFeeRet : Int64
  setCoins : List CoinKey

/-- `CTxOut(nValue, scriptPubKey)` -/
def newTxOut (nValue : Int64) (scriptPubKey : CScript) : CTxOut := ⟨nValue, -10, scriptPubKey⟩

/-- `CTxIn(hash, n)` -/
def newTxIn (coin : CoinKey) : CTxIn := ⟨⟨coin.1.hash, UInt32.ofNat coin.2⟩, [], [], 0xffffffff⟩

abbrev Recipient := CScript × Int64

def Recipient.txOut (s : Recipient) : CTxOut := newTxOut s.2 s.1

/-- One amount more in the sum, which must not be negative before. -/
def addRecipient (nValue : Int64) (s : Recipient) : Except Stop Int64 := do
  rejectIf (decide (nValue < 0)) (.fails "Transaction amounts must be positive")
  int64 (nValue.toInt + s.2.toInt)

/-- `nValue` of the call. -/
def sendAmount (vecSend : List Recipient) : Except Stop Int64 := do
  let nValue ← vecSend.foldlM addRecipient 0
  rejectIf (vecSend.isEmpty || decide (nValue < 0)) (.fails "Transaction amounts must be positive")
  return nValue

def payeeOutput (s : Recipient) : Except Stop CTxOut := do
  let dust ← CTxOut.isDust s.txOut
  rejectIf dust (.fails "Transaction amount too small")
  return s.txOut

/-- `strFailReason` where no coins are found. -/
def noCoinsReason (coinType : AvailableCoinsType) (useIX : Bool) : String :=
  (match coinType with
    | .ALL_COINS => "Insufficient funds."
    | .ONLY_NONDENOMINATED =>
      "Unable to locate enough Zerosend non-denominated funds for this transaction."
    | .ONLY_NONDENOMINATED_NOTSN =>
      "Unable to locate enough Zerosend non-denominated funds for this transaction that are " ++
        "not equal 1000 FNX."
    | .ONLY_DENOMINATED =>
      "Unable to locate enough Zerosend denominated funds for this transaction." ++
        "Zerosend uses exact denominated amounts to send funds, you might simply need to " ++
        "anonymize some more coins.") ++
  if useIX then
    "InstantX requires inputs with at least 6 confirmations, you might need to wait a few " ++
      "minutes and try again."
  else ""

/-- `nFee`, which is `0.01*COIN` -/
def nFee : Int64 := 1000000

/-! ## §4. One turn. -/

/-- `nChange` and `nFeeRet` -/
structure Change where
  nChange : Int64
  nFeeRet : Int64

/-- No change below a cent where that would make a free transaction. -/
def moveToFee (c : Change) : Except Stop Change :=
  if c.nFeeRet < nFee && 0 < c.nChange && decide (c.nChange.toInt < CENT) then do
    let missing ← int64 (nFee.toInt - c.nFeeRet.toInt)
    let nMoveToFee := if c.nChange < missing then c.nChange else missing
    let nChange ← int64 (c.nChange.toInt - nMoveToFee.toInt)
    let nFeeRet ← int64 (c.nFeeRet.toInt + nMoveToFee.toInt)
    return ⟨nChange, nFeeRet⟩
  else return c

def overPay (coinType : AvailableCoinsType) (c : Change) : Except Stop Change :=
  if coinType = .ONLY_DENOMINATED then do
    let nFeeRet ← int64 (c.nFeeRet.toInt + c.nChange.toInt)
    return ⟨0, nFeeRet⟩
  else return c

section Turn

variable (env : CreateEnv) (vecSend : List Recipient) (coinType : AvailableCoinsType)
  (useIX : Bool)

/-- The change is one more output at a random position, unless that is dust. -/
def addChange (turn : Nat) (vout : List CTxOut) (c : Change) :
    Except Stop (List CTxOut × Int64) :=
  if 0 < c.nChange then do
    let scriptChange ← required (env.changeScript turn) .assertion
    let out := newTxOut c.nChange scriptChange
    let dust ← CTxOut.isDust out
    if dust then
      let nFeeRet ← int64 (c.nFeeRet.toInt + c.nChange.toInt)
      return (vout, nFeeRet)
    else return (vout.insertIdx (env.getRandInt turn vout.length) out, c.nFeeRet)
  else return (vout, c.nFeeRet)

/-- `SignSignature(*this, *coin.first, txNew, nIn++)`, by what it writes for an input. -/
def signInput (sign : CTransaction → CoinKey → Nat → Option CScript) (strFailReason : String)
    (txNew : CTransaction) (coin : CoinKey × Nat) : Except Stop CTransaction := do
  let scriptSig ← required (sign txNew coin.1 coin.2) (.fails strFailReason)
  return { txNew with
    vin := txNew.vin.modify coin.2 fun txin => { txin with scriptSig := scriptSig } }

/-- The variables that a turn finds: its number, `wtxNew` and `nFeeRet`. -/
structure FeeLoop where
  turn : Nat
  wtxNew : NewTx
  nFeeRet : Int64

/-- `max(nPayFee, nMinFee)` for a signed transaction. -/
def feeNeeded (setCoins : List CoinKey) (tx : CTransaction) (nBytes : Nat) : Except Stop Int64 := do
  let nPayFee ← int64 (env.nTransactionFee.toInt * (1 + nBytes / 1000))
  let nMinFee := getMinFee tx nBytes (env.allowFree setCoins tx nBytes) .GMF_SEND
  return if nPayFee < nMinFee then nMinFee else nPayFee

/-- `wtxNew` with the coins as its inputs, signed. -/
def signedTx (wtxNew : NewTx) (vout : List CTxOut) (setCoins : List CoinKey) :
    Except Stop CTransaction :=
  setCoins.zipIdx.foldlM (signInput env.signSignature "Signing transaction failed")
    { wtxNew.tx with vin := setCoins.map newTxIn, vout := vout }

/-- One turn of the loop, for recipients who are to get `nValue`: `continue` or `break`. -/
def feeTry (nValue : Int64) (s : FeeLoop) : Except Stop (FeeLoop ⊕ Created) := do
  let nTotalValue ← int64 (nValue.toInt + s.nFeeRet.toInt)
  let vout ← vecSend.mapM payeeOutput
  let (setCoins, nValueIn) ← required (env.selectCoins s.turn nTotalValue)
    (.fails (noCoinsReason coinType useIX))
  let afterSend ← int64 (nValueIn.toInt - nValue.toInt)
  let nChange ← int64 (afterSend.toInt - s.nFeeRet.toInt)
  let c ← moveToFee ⟨nChange, s.nFeeRet⟩
  let c ← overPay coinType c
  let mapValue := if coinType = .ONLY_DENOMINATED then
      ("SS", "1") :: s.wtxNew.mapValue.filter (·.1 != "SS")
    else s.wtxNew.mapValue
  let (vout, nFeeRet) ← addChange env s.turn vout c
  let tx ← signedTx env s.wtxNew vout setCoins
  let nBytes := tx.getSerializeSize % 2 ^ 32
  rejectIf (decide (nBytes ≥ MAX_STANDARD_TX_SIZE)) (.fails "Transaction too large")
  let needed ← feeNeeded env setCoins tx nBytes
  let wtxNew := { s.wtxNew with tx := tx, mapValue := mapValue, fFromMe := true }
  if nFeeRet < needed then return .inl ⟨s.turn + 1, wtxNew, needed⟩
  else return .inr ⟨{ wtxNew with fTimeReceivedIsTxTime := true }, nFeeRet, setCoins⟩

/-! ## §5. The call. -/

/-- A turn as one of a loop that ends with a failure or a transaction. -/
def feeTurn (nValue : Int64) (s : FeeLoop) : FeeLoop ⊕ Except Stop Created :=
  match feeTry env vecSend coinType useIX nValue s with
  | .error e => .inr (.error e)
  | .ok (.inl next) => .inl next
  | .ok (.inr created) => .inr (.ok created)

/-- The fee that the first turn finds: `0.01*COIN`, for InstantX at least `CENT`. -/
def firstFee : Int64 := if useIX && decide (nFee.toInt < CENT) then Int64.ofInt CENT else nFee

/-- `CreateTransaction` for recipients ends with `r`. -/
def CreatesTransaction (wtxNew : NewTx) (r : Except Stop Created) : Prop :=
  match sendAmount vecSend with
  | .error e => r = .error e
  | .ok nValue =>
    WhileLoop.Ends (feeTurn env vecSend coinType useIX nValue) ⟨0, wtxNew, firstFee useIX⟩ r

end Turn

/-! ## §6. The parts of a turn. -/

def valueOut (vout : List CTxOut) : Int := (vout.map fun out => out.nValue.toInt).sum

def valueIn (setCoins : List CoinKey) : Int := (setCoins.map CoinKey.nValue).sum

/-- `SelectCoins` keeps its promise: the set is worth what it says, and that is enough. -/
def CreateEnv.SelectsEnough (env : CreateEnv) : Prop :=
  ∀ turn nTarget setCoins nValueIn, env.selectCoins turn nTarget = some (setCoins, nValueIn) →
    nValueIn.toInt = valueIn setCoins ∧ nTarget.toInt ≤ nValueIn.toInt

theorem sendAmount_eq {vecSend : List Recipient} {nValue : Int64}
    (h : sendAmount vecSend = .ok nValue) :
    nValue.toInt = valueOut (vecSend.map Recipient.txOut) := by
  simp only [sendAmount, bind_eq_ok, pure_eq_ok] at h
  obtain ⟨sum, hsum, _, _, rfl⟩ := h
  -- the sum of the recipients before
  refine foldlM_rule (I := fun done nValue => nValue.toInt = valueOut (done.map Recipient.txOut))
    rfl ?_ hsum
  intro done s rest nValue next _ hdone hnext
  simp only [addRecipient, bind_eq_ok] at hnext
  obtain ⟨_, _, hnext⟩ := hnext
  rw [toInt_of_int64 hnext, hdone]
  simp [valueOut, Recipient.txOut, newTxOut]

theorem payeeOutput_eq {s : Recipient} {out : CTxOut} (h : payeeOutput s = .ok out) :
    out = s.txOut := by
  simp only [payeeOutput, bind_eq_ok, pure_eq_ok] at h
  obtain ⟨_, _, _, _, hout⟩ := h
  exact hout.symm

theorem payees_eq {vecSend : List Recipient} {vout : List CTxOut}
    (h : vecSend.mapM payeeOutput = .ok vout) : vout = vecSend.map Recipient.txOut := by
  induction vecSend generalizing vout with
  | nil => exact (Except.ok.inj h).symm
  | cons s rest ih =>
    rw [mapM_cons] at h
    obtain ⟨out, hout, h⟩ := bind_eq_ok.mp h
    obtain ⟨outs, houts, h⟩ := bind_eq_ok.mp h
    rw [← Except.ok.inj h, payeeOutput_eq hout, ih houts, map_cons]

/-- The change that is left, with the fee, is the one before, and the fee is not lower. -/
structure Change.Moved (c c' : Change) : Prop where
  sum : c'.nChange.toInt + c'.nFeeRet.toInt = c.nChange.toInt + c.nFeeRet.toInt
  fee : c.nFeeRet.toInt ≤ c'.nFeeRet.toInt
  change : 0 ≤ c'.nChange.toInt

theorem moveToFee_moved {c c' : Change} (hc : 0 ≤ c.nChange.toInt) (h : moveToFee c = .ok c') :
    c.Moved c' := by
  unfold moveToFee at h
  split at h
  next hcond =>
    simp only [bind_eq_ok, pure_eq_ok] at h
    obtain ⟨missing, hmissing, nChange, hchange, nFeeRet, hfee, rfl⟩ := h
    have hlow : c.nFeeRet.toInt < nFee.toInt := by
      simp only [Bool.and_eq_true, decide_eq_true_eq] at hcond
      exact lt_iff_toInt_lt.mp hcond.1.1
    have hmissing := toInt_of_int64 hmissing
    have hmove : (if c.nChange < missing then c.nChange else missing).toInt ≤ c.nChange.toInt ∧
        0 ≤ (if c.nChange < missing then c.nChange else missing).toInt := by
      split
      next => exact ⟨le_refl _, hc⟩
      next hle =>
        have := lt_iff_toInt_lt.not.mp hle
        omega
    have hchange := toInt_of_int64 hchange
    have hfee := toInt_of_int64 hfee
    exact ⟨by simp only; omega, by simp only; omega, by simp only; omega⟩
  next =>
    cases h
    exact ⟨rfl, le_refl _, hc⟩

theorem overPay_moved {coinType : AvailableCoinsType} {c c' : Change} (hc : 0 ≤ c.nChange.toInt)
    (h : overPay coinType c = .ok c') : c.Moved c' := by
  unfold overPay at h
  split at h
  next =>
    simp only [bind_eq_ok, pure_eq_ok] at h
    obtain ⟨nFeeRet, hfee, rfl⟩ := h
    have hfee := toInt_of_int64 hfee
    have hzero : (0 : Int64).toInt = 0 := rfl
    exact ⟨by simp only; omega, by simp only; omega, le_refl _⟩
  next =>
    cases h
    exact ⟨rfl, le_refl _, hc⟩

theorem valueOut_perm {vout vout' : List CTxOut} (h : vout.Perm vout') :
    valueOut vout = valueOut vout' := (h.map _).sum_eq

/-- The outputs with at most one further, which is not dust, and what they are worth with the
fee. -/
structure Paid (vout : List CTxOut) (c : Change) (vout' : List CTxOut) (nFeeRet : Int64) :
    Prop where
  outputs : ∃ change : Option CTxOut, vout'.Perm (change.toList ++ vout) ∧
    ∀ out ∈ change, CTxOut.isDust out = .ok false
  sum : valueOut vout' + nFeeRet.toInt = valueOut vout + c.nChange.toInt + c.nFeeRet.toInt
  fee : c.nFeeRet.toInt ≤ nFeeRet.toInt

theorem addChange_paid {env : CreateEnv} {turn : Nat} {vout vout' : List CTxOut} {c : Change}
    {nFeeRet : Int64} (hc : 0 ≤ c.nChange.toInt)
    (h : addChange env turn vout c = .ok (vout', nFeeRet)) : Paid vout c vout' nFeeRet := by
  unfold addChange at h
  split at h
  next =>
    simp only [bind_eq_ok, required_eq_ok] at h
    obtain ⟨scriptChange, _, dust, hdust, h⟩ := h
    split at h
    next =>
      -- dust goes to the fee
      simp only [bind_eq_ok, pure_eq_ok, Prod.mk.injEq] at h
      obtain ⟨fee, hfee, rfl, rfl⟩ := h
      have hfee := toInt_of_int64 hfee
      exact ⟨⟨none, List.Perm.refl _, by simp⟩, by omega, by omega⟩
    next hnot =>
      simp only [pure_eq_ok, Prod.mk.injEq] at h
      obtain ⟨rfl, rfl⟩ := h
      have hperm := perm_insertIdx (newTxOut c.nChange scriptChange) vout
        (Nat.le_of_lt_succ (env.getRandInt turn vout.length).isLt)
      refine ⟨⟨some (newTxOut c.nChange scriptChange), hperm, ?_⟩, ?_, le_refl _⟩
      · intro out hout
        rw [← Option.some.inj hout, hdust, Bool.eq_false_of_not_eq_true hnot]
      · rw [valueOut_perm hperm]
        simp only [valueOut, map_cons, sum_cons, newTxOut]
        omega
  next hnot =>
    simp only [pure_eq_ok, Prod.mk.injEq] at h
    obtain ⟨rfl, rfl⟩ := h
    have : ¬ (0 : Int64).toInt < c.nChange.toInt := lt_iff_toInt_lt.not.mp hnot
    have hzero : (0 : Int64).toInt = 0 := rfl
    exact ⟨⟨none, List.Perm.refl _, by simp⟩, by omega, le_refl _⟩

def CoinKey.outPoint (coin : CoinKey) : COutPoint := ⟨coin.1.hash, UInt32.ofNat coin.2⟩

theorem signInputs_eq {sign : CTransaction → CoinKey → Nat → Option CScript}
    {strFailReason : String} {coins : List (CoinKey × Nat)} {txNew tx : CTransaction}
    (h : coins.foldlM (signInput sign strFailReason) txNew = .ok tx) :
    tx.vout = txNew.vout ∧ tx.vin.map (·.prevout) = txNew.vin.map (·.prevout) := by
  refine foldlM_invariant
    (fun tx => tx.vout = txNew.vout ∧ tx.vin.map (·.prevout) = txNew.vin.map (·.prevout))
    ⟨rfl, rfl⟩ ?_ h
  intro coin _ tx next htx hnext
  simp only [signInput, bind_eq_ok, required_eq_ok, pure_eq_ok] at hnext
  obtain ⟨scriptSig, _, rfl⟩ := hnext
  refine ⟨htx.1, ?_⟩
  rw [← htx.2]
  apply ext_getElem?
  intro i
  simp only [List.getElem?_map, List.getElem?_modify]
  split <;> cases tx.vin[i]? <;> rfl

theorem map_prevout_newTxIn (coins : List CoinKey) :
    (coins.map newTxIn).map (·.prevout) = coins.map CoinKey.outPoint := by
  simp [newTxIn, CoinKey.outPoint]

theorem signedTx_eq {env : CreateEnv} {wtxNew : NewTx} {vout : List CTxOut}
    {setCoins : List CoinKey} {tx : CTransaction}
    (h : signedTx env wtxNew vout setCoins = .ok tx) :
    tx.vout = vout ∧ tx.vin.map (·.prevout) = setCoins.map CoinKey.outPoint := by
  obtain ⟨hvout, hvin⟩ := signInputs_eq h
  exact ⟨hvout, hvin.trans (map_prevout_newTxIn setCoins)⟩

/-! ## §7. The loop. -/

/-- `max(nTransactionFee*(1+nBytes/1000), GetMinFee)` of a transaction. -/
def requiredFee (env : CreateEnv) (setCoins : List CoinKey) (tx : CTransaction) (nBytes : Nat) :
    Int :=
  max (env.nTransactionFee.toInt * (1 + nBytes / 1000))
    (getMinFee tx nBytes (env.allowFree setCoins tx nBytes) .GMF_SEND).toInt

theorem feeNeeded_eq {env : CreateEnv} {setCoins : List CoinKey} {tx : CTransaction} {nBytes : Nat}
    {needed : Int64} (h : feeNeeded env setCoins tx nBytes = .ok needed) :
    needed.toInt = requiredFee env setCoins tx nBytes := by
  simp only [feeNeeded, bind_eq_ok, pure_eq_ok] at h
  obtain ⟨nPayFee, hpay, rfl⟩ := h
  rw [requiredFee, ← toInt_of_int64 hpay]
  split
  next hlt => exact (max_eq_right (le_of_lt (lt_iff_toInt_lt.mp hlt))).symm
  next hle => exact (max_eq_left (not_lt.mp (lt_iff_toInt_lt.not.mp hle))).symm

/-- **What is created balances**: the inputs are the coins, worth the outputs and the fee, the
outputs those of the recipients and at most one that is change and not dust, and the fee is enough
for the size. -/
structure Created.Balances (env : CreateEnv) (vecSend : List Recipient) (created : Created) :
    Prop where
  inputs : created.wtxNew.tx.vin.map (·.prevout) = created.setCoins.map CoinKey.outPoint
  sum : valueIn created.setCoins = valueOut created.wtxNew.tx.vout + created.nFeeRet.toInt
  outputs : ∃ change : Option CTxOut,
    created.wtxNew.tx.vout.Perm (change.toList ++ vecSend.map Recipient.txOut) ∧
      ∀ out ∈ change, CTxOut.isDust out = .ok false
  fee : requiredFee env created.setCoins created.wtxNew.tx
    (created.wtxNew.tx.getSerializeSize % 2 ^ 32) ≤ created.nFeeRet.toInt

section Loop

variable {env : CreateEnv} {vecSend : List Recipient} {coinType : AvailableCoinsType}
  {useIX : Bool} {nValue : Int64} {s next : FeeLoop} {created : Created}

variable (env vecSend s) in
/-- What a turn may end with: a higher fee for the next one, or a transaction that balances. -/
def FeeLoop.Goes : FeeLoop ⊕ Created → Prop
  | .inl next => s.nFeeRet.toInt < next.nFeeRet.toInt
  | .inr created => created.Balances env vecSend

theorem feeTry_spec (hselect : env.SelectsEnough)
    (hvalue : nValue.toInt = valueOut (vecSend.map Recipient.txOut)) {r : FeeLoop ⊕ Created}
    (h : feeTry env vecSend coinType useIX nValue s = .ok r) : s.Goes env vecSend r := by
  simp only [feeTry, bind_eq_ok, required_eq_ok] at h
  obtain ⟨nTotalValue, htotal, vout, hvout, ⟨setCoins, nValueIn⟩, hcoins, afterSend, hafter,
    nChange, hchange, c, hmove, c', hover, ⟨vout', nFeeRet⟩, hadd, tx, htx, _, _, needed, hneeded,
    h⟩ := h
  obtain ⟨hworth, henough⟩ := hselect _ _ _ _ hcoins
  simp only at hworth henough hafter hadd htx
  have htotal := toInt_of_int64 htotal
  have hafter := toInt_of_int64 hafter
  have hchange := toInt_of_int64 hchange
  have hmoved := moveToFee_moved (c := ⟨nChange, s.nFeeRet⟩) (by simp only; omega) hmove
  have hover := overPay_moved hmoved.change hover
  have hpaid := addChange_paid hover.change hadd
  obtain ⟨htxOut, htxIn⟩ := signedTx_eq htx
  obtain rfl := payees_eq hvout
  have hneeded := feeNeeded_eq hneeded
  have hmsum := hmoved.sum
  have hmfee := hmoved.fee
  have hosum := hover.sum
  have hofee := hover.fee
  have hpsum := hpaid.sum
  have hpfee := hpaid.fee
  simp only at hmsum hmfee hneeded h
  split at h
  next hlt =>
    obtain rfl := pure_eq_ok.mp h
    have := lt_iff_toInt_lt.mp hlt
    show s.nFeeRet.toInt < needed.toInt
    omega
  next hle =>
    obtain rfl := pure_eq_ok.mp h
    have hle := lt_iff_toInt_lt.not.mp hle
    refine ⟨htxIn, ?_, ?_, ?_⟩
    · show valueIn setCoins = valueOut tx.vout + nFeeRet.toInt
      rw [htxOut]
      omega
    · show ∃ change : Option CTxOut, tx.vout.Perm _ ∧ _
      rw [htxOut]
      exact hpaid.outputs
    · show requiredFee env setCoins tx (tx.getSerializeSize % 2 ^ 32) ≤ nFeeRet.toInt
      omega

/-- **The call ends, and what it creates balances**, for all recipients and coins, where the coins
that are selected are worth what was asked for. -/
theorem createTransaction_balances (hselect : env.SelectsEnough) (vecSend : List Recipient)
    (coinType : AvailableCoinsType) (useIX : Bool) (wtxNew : NewTx) :
    (∃ r, CreatesTransaction env vecSend coinType useIX wtxNew r) ∧
      ∀ created, CreatesTransaction env vecSend coinType useIX wtxNew (.ok created) →
        created.Balances env vecSend := by
  unfold CreatesTransaction
  cases hvalue : sendAmount vecSend with
  | error e => exact ⟨⟨_, rfl⟩, nofun⟩
  | ok nValue =>
    have hturns : ∃ r, WhileLoop.Ends (feeTurn env vecSend coinType useIX nValue)
        ⟨0, wtxNew, firstFee useIX⟩ r ∧
        ∀ created, r = .ok created → created.Balances env vecSend := by
      -- the fee goes up in every turn that is repeated, and no further than `int64_t` does
      refine WhileLoop.ends_of_measure (I := fun _ => True)
        (fun s => (2 ^ 63 - s.nFeeRet.toInt).toNat) ?_ ?_ trivial
      · intro s next _ hturn
        unfold feeTurn at hturn
        split at hturn
        next => cases hturn
        next next' htry =>
          obtain rfl := Sum.inl.inj hturn
          have hup : s.nFeeRet.toInt < next'.nFeeRet.toInt :=
            feeTry_spec hselect (sendAmount_eq hvalue) htry
          have := next'.nFeeRet.toInt_lt
          exact ⟨trivial, by omega⟩
        next => cases hturn
      · intro s r _ hturn created hr
        unfold feeTurn at hturn
        split at hturn
        next =>
          rw [← Sum.inr.inj hturn] at hr
          cases hr
        next => cases hturn
        next created' htry =>
          rw [← Sum.inr.inj hturn] at hr
          rw [← Except.ok.inj hr]
          exact feeTry_spec hselect (sendAmount_eq hvalue) htry
    obtain ⟨r, hr, hbalances⟩ := hturns
    exact ⟨⟨r, hr⟩, fun created hcreated => hbalances created (hr.unique hcreated)⟩

end Loop

def richCoin : CoinKey := (⟨1, 0, true, [newTxOut 1000000000000 [0x51]]⟩, 0)

def richEnv : CreateEnv where
  selectCoins _ nTarget :=
    if nTarget ≤ 1000000000000 then some ([richCoin], 1000000000000) else none
  changeScript _ := some [0x53]
  getRandInt _ _ := 0
  signSignature _ _ _ := some [0x52]
  allowFree _ _ _ := false
  nTransactionFee := MIN_TX_FEE

theorem richEnv_selectsEnough : richEnv.SelectsEnough := by
  intro turn nTarget setCoins nValueIn h
  change (if nTarget ≤ 1000000000000 then some ([richCoin], (1000000000000 : Int64)) else none) =
    some (setCoins, nValueIn) at h
  split at h
  next hle =>
    cases h
    exact ⟨by decide, le_iff_toInt_le.mp hle⟩
  next => cases h

def blankTx : NewTx := ⟨CTransaction.null 0, [], false, false⟩

theorem createTransaction_balances_two :
    ∃ created, CreatesTransaction richEnv [([0x51], 5000000), ([0x52], 7000000)] .ALL_COINS false
        blankTx (.ok created) ∧ created.nFeeRet = 1000000 ∧
      created.Balances richEnv [([0x51], 5000000), ([0x52], 7000000)] := by
  have hcreated : CreatesTransaction richEnv [([0x51], 5000000), ([0x52], 7000000)] .ALL_COINS
      false blankTx (.ok
        { wtxNew :=
            { tx :=
                { nVersion := 1
                  nTime := 0
                  vin := [⟨⟨1, 0⟩, [0x52], [], 0xffffffff⟩]
                  vout := [newTxOut 999987000000 [0x53], newTxOut 5000000 [0x51],
                    newTxOut 7000000 [0x52]]
                  nLockTime := 0 }
              mapValue := []
              fFromMe := true
              fTimeReceivedIsTxTime := true }
          nFeeRet := 1000000
          setCoins := [richCoin] }) := ⟨1, rfl⟩
  exact ⟨_, hcreated, rfl, (createTransaction_balances richEnv_selectsEnough _ _ _ _).2 _ hcreated⟩

end Recipients

section Narration

open Core Lib Script

/-! ## §8. A narration. -/

/-- `CScript() << OP_RETURN << vNDesc << OP_RETURN << vNarr`, where `vNDesc` is `np`. -/
def narrationScript (vNarr : List UInt8) : CScript :=
  OP_RETURN :: CScript.push [0x6e, 0x70] ++ OP_RETURN :: CScript.push vNarr

/-- `vecSend` for a payment with a narration. -/
def narrationSend (scriptPubKey : CScript) (nValue : Int64) (sNarr : List UInt8) :
    List Recipient :=
  (scriptPubKey, nValue) :: if sNarr.length > 0 then [(narrationScript sNarr, 0)] else []

/-- `CreateTransaction` for one payment ends with `r`. -/
def CreatesPayment (env : CreateEnv) (scriptPubKey : CScript) (nValue : Int64)
    (sNarr : List UInt8) (wtxNew : NewTx) (r : Except Stop Created) : Prop :=
  CreatesTransaction env (narrationSend scriptPubKey nValue sNarr) .ALL_COINS false wtxNew r

/-! ## §9. The dust rule. -/

/-- **What is worth nothing is dust**, whatever its script. -/
theorem isDust_of_worthless {out : CTxOut} (hvalue : out.nValue = 0) :
    CTxOut.isDust out ≠ .ok false := by
  intro h
  simp only [CTxOut.isDust, bind_eq_ok, pure_eq_ok] at h
  obtain ⟨scaled, hscaled, spend, _, _, _, hfee⟩ := h
  have hzero : scaled.toInt = 0 := by
    rw [toInt_of_int64 hscaled, hvalue]
    rfl
  rw [hzero, Int.zero_tdiv] at hfee
  exact absurd (by decide) (of_decide_eq_false hfee)

section Payees

variable {env : CreateEnv} {vecSend : List Recipient} {coinType : AvailableCoinsType}
  {useIX : Bool} {wtxNew : NewTx} {created : Created}

theorem feeTry_payees {nValue : Int64} {s : FeeLoop} {r : FeeLoop ⊕ Created}
    (h : feeTry env vecSend coinType useIX nValue s = .ok r) :
    ∃ vout, vecSend.mapM payeeOutput = .ok vout := by
  simp only [feeTry, bind_eq_ok] at h
  obtain ⟨_, _, vout, hvout, _⟩ := h
  exact ⟨vout, hvout⟩

theorem payees_not_dust {vout : List CTxOut} (h : vecSend.mapM payeeOutput = .ok vout) :
    ∀ s ∈ vecSend, CTxOut.isDust s.txOut = .ok false := by
  induction vecSend generalizing vout with
  | nil => exact nofun
  | cons first rest ih =>
    rw [List.mapM_cons] at h
    obtain ⟨out, hout, h⟩ := bind_eq_ok.mp h
    obtain ⟨outs, houts, _⟩ := bind_eq_ok.mp h
    intro s hs
    obtain rfl | hs := List.mem_cons.mp hs
    · simp only [payeeOutput, bind_eq_ok, rejectIf_eq_ok] at hout
      obtain ⟨dust, hdust, _, rfl, _⟩ := hout
      exact hdust
    · exact ih houts s hs

/-- **Each recipient of a transaction that is created passed the dust rule.** -/
theorem CreatesTransaction.payees
    (h : CreatesTransaction env vecSend coinType useIX wtxNew (.ok created)) :
    ∀ s ∈ vecSend, CTxOut.isDust s.txOut = .ok false := by
  unfold CreatesTransaction at h
  split at h
  next => cases h
  next nValue _ =>
    refine WhileLoop.Ends.rule (I := fun _ => True) (fun _ _ _ _ => trivial) ?_ trivial h
    intro s _ hturn
    unfold feeTurn at hturn
    split at hturn
    next => cases hturn
    next => cases hturn
    next htry =>
      obtain ⟨vout, hvout⟩ := feeTry_payees htry
      exact payees_not_dust hvout

end Payees

/-! ## §10. Payments with a narration. -/

/-- **No payment with a narration is created**, whatever the wallet has: the output for the narration
is worth nothing, and so dust. -/
theorem narration_never_pays (env : CreateEnv) (scriptPubKey : CScript) (nValue : Int64)
    {sNarr : List UInt8} (hnarr : sNarr ≠ []) (wtxNew : NewTx) :
    ¬ ∃ created, CreatesPayment env scriptPubKey nValue sNarr wtxNew (.ok created) := by
  intro ⟨created, h⟩
  have hmem : (narrationScript sNarr, 0) ∈ narrationSend scriptPubKey nValue sNarr := by
    rw [narrationSend, if_pos (List.length_pos_of_ne_nil hnarr)]
    exact List.mem_cons_of_mem _ List.mem_cons_self
  exact isDust_of_worthless rfl (CreatesTransaction.payees h _ hmem)

theorem narration_never_pays_rich : ¬ ∃ created,
    CreatesPayment richEnv [0x51] 5000000 [0x68, 0x69] blankTx (.ok created) :=
  narration_never_pays richEnv [0x51] 5000000 (List.cons_ne_nil _ _) blankTx

/-- The wallet with 10000 coins pays 0.05, but not with two letters of narration. -/
theorem narration_blocks_payment :
    (∃ created, CreatesPayment richEnv [0x51] 5000000 [] blankTx (.ok created)) ∧
      CreatesPayment richEnv [0x51] 5000000 [0x68, 0x69] blankTx
        (.error (.fails "Transaction amount too small")) ∧
      ¬ ∃ created, CreatesPayment richEnv [0x51] 5000000 [0x68, 0x69] blankTx (.ok created) := by
  have hpays : CreatesPayment richEnv [0x51] 5000000 [] blankTx (.ok
      { wtxNew :=
          { tx :=
              { nVersion := 1
                nTime := 0
                vin := [⟨⟨1, 0⟩, [0x52], [], 0xffffffff⟩]
                vout := [newTxOut 999994000000 [0x53], newTxOut 5000000 [0x51]]
                nLockTime := 0 }
            mapValue := []
            fFromMe := true
            fTimeReceivedIsTxTime := true }
        nFeeRet := 1000000
        setCoins := [richCoin] }) := ⟨1, rfl⟩
  have hblocked : CreatesPayment richEnv [0x51] 5000000 [0x68, 0x69] blankTx
      (.error (.fails "Transaction amount too small")) := ⟨1, rfl⟩
  exact ⟨⟨_, hpays⟩, hblocked, fun ⟨_, h⟩ => nomatch WhileLoop.Ends.unique hblocked h⟩

end Narration

end Fantom.Wallet
