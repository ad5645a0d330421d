/-
  Fantom.Wallet.CoinStake — The coinstake: a kernel among the coins of the wallet, further coins of
  its key, the reward, and the payment to a blanknode.

  * `createCoinStake_pays_iff` — the coinstake pays, unless the payment is to the empty script.

  The wallet asks the best block for its height several times; here it is one block throughout.
-/
import Fantom.Chain.StakePayment
import Fantom.Script.Base58Data
import Fantom.Script.SignedInputs
import Fantom.Wallet.CreateTransaction

namespace Fantom.Wallet

open Core Lib Chain Script List Int64 Option

/-! ## §1. What is read. -/

/-- The script of the output that a pair in a set stands for. -/
def CoinKey.scriptPubKey (key : CoinKey) : CScript :=
  match key.1.vout[key.2]? with
  | none => []
  | some out => out.scriptPubKey

/-- `set<pair<const CWalletTx*,unsigned int> >`: the pairs in their order, each once. -/
structure StakeCoins where
  coins : List CoinKey
  inside : ∀ coin ∈ coins, coin.2 < coin.1.vout.length
  nodup : (coins.map CoinKey.outPoint).Nodup

variable (S : SignEnv)

/-- What the call reads of the wallet, the chain and the blanknodes. -/
structure StakeEnv where
  networkID : Network
  chain : ChainEnv
  pindexBest : CBlockIndex
  /-- `GetBalance()` -/
  nBalance : Int64
  nReserveBalance : Int64
  /-- `SelectCoinsForStaking`, which always returns true: `setCoins` for a target and a time. -/
  selectCoinsForStaking : Int64 → UInt32 → StakeCoins
  keystore : CKeyStore S
  /-- `CheckKernel(pindexPrev, nBits, nTime, prevoutStake, &nBlockTime)` -/
  checkKernel : UInt32 → COutPoint → Bool
  /-- `snodeman.GetCurrentBlankNode(1)->pubkey` -/
  winningNode : Option CPubKey
  /-- The `scriptSig` that `SignSignature` writes for an input, where it returns true. -/
  signSignature : CTransaction → CoinKey → Nat → Option CScript

def getStakeCombineThreshold : Int64 := 42 * COIN

def getStakeSplitThreshold : Int64 := 2 * getStakeCombineThreshold

def nStakeMinAge : Int := 4 * 60 * 60

def getWeight (nIntervalBeginning nIntervalEnd : Int) : Int :=
  nIntervalEnd - nIntervalBeginning - nStakeMinAge

def TESTNET_BLANKNODE_PAYMENT_START : Nat := 10000

def MAX_BLOCK_SIZE_GEN : Nat := MAX_BLOCK_SIZE / 2

variable {S} (env : StakeEnv S)

/-! ## §2. The kernel. -/

/-- The key of a kernel, and the script of the outputs to it. -/
def kernelKey (scriptPubKeyKernel : CScript) : Option (S.CKey × CScript) :=
  match solver scriptPubKeyKernel with
  | some (.TX_PUBKEYHASH, vSolutions) =>
    match env.keystore.getKey (uint160 (vSolutions.headD [])) with
    | none => none
    | some key => some (key, CScript.pushPubKey (S.getPubKey key) ++ [OP_CHECKSIG])
  | some (.TX_PUBKEY, vSolutions) =>
    let vchPubKey := vSolutions.headD []
    match env.keystore.getKey (S.scriptHashes.hash160 vchPubKey) with
    | none => none
    | some key =>
      if S.getPubKey key ≠ CPubKey.ofVch vchPubKey then none
      else some (key, scriptPubKeyKernel)
  | _ => none

/-- A kernel: the coin, how many seconds back it is one, and its key. -/
structure Kernel (S : SignEnv) where
  coin : CoinKey
  n : Nat
  key : S.CKey
  scriptPubKeyOut : CScript

/-- The search with one coin, which ends at the first second back that makes it a kernel. -/
def kernelAt (nTime : UInt32) (nSearchInterval : Int64) (coin : CoinKey) : Option (Kernel S) :=
  let span := (min nSearchInterval.toInt 60).toNat
  match (range span).find? fun n =>
      env.checkKernel (nTime - UInt32.ofNat n) coin.outPoint with
  | none => none
  | some n => (kernelKey env coin.scriptPubKey).map fun key => ⟨coin, n, key.1, key.2⟩

variable (kernel : Kernel S)

/-- The outputs with a kernel: the marker of a coinstake and one output to the key, or two where
the stake is split. -/
def kernelOutputs : List CTxOut :=
  let vout := [newTxOut 0 [], newTxOut 0 kernel.scriptPubKeyOut]
  if kernel.coin.nValue ≥ getStakeSplitThreshold.toInt then
    vout ++ [newTxOut 0 kernel.scriptPubKeyOut]
  else vout

/-! ## §3. Further inputs. -/

/-- The coins of `vin`, and `nCredit`. -/
structure Combined where
  coins : List CoinKey
  nCredit : Int64

def combines (vout : List CTxOut) (coin : CoinKey) : Bool :=
  decide (vout.length = 2) &&
    (coin.scriptPubKey == kernel.coin.scriptPubKey || coin.scriptPubKey == kernel.scriptPubKeyOut) &&
    coin.1.hash != kernel.coin.1.hash

/-- `nBalance - nReserveBalance` -/
def spendable : Except Stop Int64 := int64 (env.nBalance.toInt - env.nReserveBalance.toInt)

/-- The second loop over `setCoins`. -/
def combineLoop (kernel : Kernel S) (vout : List CTxOut) (nTime : UInt32) (nLimit : Int64) :
    List CoinKey → Combined → Except Stop Combined
  | [], s => .ok s
  | coin :: rest, s =>
    if combines kernel vout coin then
      if s.coins.length ≥ 100 then .ok s
      else if s.nCredit ≥ getStakeCombineThreshold then .ok s
      else
        match int64 (s.nCredit.toInt + coin.nValue) with
        | .error e => .error e
        | .ok nCredit =>
          if nCredit > nLimit then .ok s
          else if coin.nValue ≥ getStakeCombineThreshold.toInt then
            combineLoop kernel vout nTime nLimit rest s
          else if getWeight coin.1.nTime.toNat nTime.toNat < nStakeMinAge then
            combineLoop kernel vout nTime nLimit rest s
          else combineLoop kernel vout nTime nLimit rest ⟨s.coins ++ [coin], nCredit⟩
    else combineLoop kernel vout nTime nLimit rest s

/-! ## §4. The payment. -/

def StakeEnv.bBlankNodePayment : Bool :=
  match env.networkID with
  | .TESTNET => decide (env.pindexBest.nHeight + 1 ≥ TESTNET_BLANKNODE_PAYMENT_START)
  | .MAIN => decide (env.pindexBest.nHeight + 1 ≥ BLANKNODE_PAYMENT_START)

/-- `payee`, where `hasPayment`. -/
def payeeOf : Option CScript :=
  if env.bBlankNodePayment then
    match getBlockPayee env.chain (env.pindexBest.nHeight + 1) with
    | some payee => some payee
    | none => env.winningNode.map fun pubkey => getScriptForDestination (.CKeyID (S.getID pubkey))
  else some []

def addPayee (payee : Option CScript) (vout : List CTxOut) : List CTxOut :=
  match payee with
  | none => vout
  | some payee => vout ++ [newTxOut 0 payee]

variable (vout : List CTxOut)

/-- `vout[i].nValue = nValue` -/
def setValue (i : Nat) (nValue : Int64) : List CTxOut :=
  vout.modify i fun out => { out with nValue := nValue }

/-- `(blockValue / 2 / CENT) * CENT` for one output, and the rest for another. -/
def splitValue (blockValue : Int64) : Except Stop (List CTxOut) := do
  let first ← int64 ((blockValue.toInt.tdiv 2).tdiv CENT * CENT)
  let second ← int64 (blockValue.toInt - first.toInt)
  return setValue (setValue vout 1 first) 2 second

def setAmounts (hasPayment : Bool) (blockValue blanknodePayment : Int64) :
    Except Stop (List CTxOut) :=
  let payments := vout.length
  if !hasPayment && vout.length == 3 then splitValue vout blockValue
  else if hasPayment && vout.length == 4 then do
    let vout := setValue vout (payments - 1) blanknodePayment
    let blockValue ← int64 (blockValue.toInt - blanknodePayment.toInt)
    splitValue vout blockValue
  else if !hasPayment && vout.length == 2 then return setValue vout 1 blockValue
  else if hasPayment && vout.length == 3 then do
    let vout := setValue vout (payments - 1) blanknodePayment
    let blockValue ← int64 (blockValue.toInt - blanknodePayment.toInt)
    return setValue vout 1 blockValue
  else return vout

/-! ## §5. `CreateCoinStake`. -/

/-- `txNew` and `key` -/
structure Staked (S : SignEnv) where
  txNew : CTransaction
  key : S.CKey

variable (nFees : Int64)

/-- The reward for the fees, and the part of it for a blanknode. -/
def stakeReward : Except Stop (Int64 × Int64) := do
  let nReward ← int64 ((proofOfStakeSubsidy env.pindexBest.nHeight).toInt + nFees.toInt)
  rejectIf (decide (nReward ≤ 0)) (.fails "")
  let _ ← int64 (nReward.toInt * 2)
  return (nReward, getBlanknodePayment (env.pindexBest.nHeight + 1) nReward)

/-- `CreateCoinStake`, where the part up to the reward has found these inputs. -/
def finishCoinStake (txNew : CTransaction) (kernel : Kernel S)
    (nTime : UInt32) (vout : List CTxOut) (inputs : Combined) : Except Stop (Staked S) := do
  let (nReward, blanknodePayment) ← stakeReward env nFees
  let nCredit ← int64 (inputs.nCredit.toInt + nReward.toInt)
  let payee := payeeOf env
  let vout ← setAmounts (addPayee payee vout) payee.isSome nCredit blanknodePayment
  let tx ← inputs.coins.zipIdx.foldlM
    (signInput env.signSignature "CreateCoinStake : failed to sign coinstake")
    { txNew with nTime := nTime, vin := inputs.coins.map newTxIn, vout := vout }
  rejectIf (decide (tx.getSerializeSize % 2 ^ 32 ≥ MAX_BLOCK_SIZE_GEN / 5))
    (.fails "CreateCoinStake : exceeded coinstake size limit")
  return ⟨tx, kernel.key⟩

/-- `CreateCoinStake`: what it writes where it returns true. -/
def createCoinStake (nSearchInterval nFees : Int64) (txNew : CTransaction) :
    Except Stop (Staked S) := do
  rejectIf (decide (env.nBalance ≤ env.nReserveBalance)) (.fails "")
  let nLimit ← spendable env
  let setCoins := (env.selectCoinsForStaking nLimit txNew.nTime).coins
  rejectIf setCoins.isEmpty (.fails "")
  let kernel ← required (setCoins.findSome? (kernelAt env txNew.nTime nSearchInterval)) (.fails "")
  let nTime := txNew.nTime - UInt32.ofNat kernel.n
  let vout := kernelOutputs kernel
  let nCredit ← int64 kernel.coin.nValue
  rejectIf (nCredit == 0 || decide (nCredit > nLimit)) (.fails "")
  let inputs ← combineLoop kernel vout nTime nLimit setCoins ⟨[kernel.coin], nCredit⟩
  finishCoinStake env nFees txNew kernel nTime vout inputs

/-! ## §6. The inputs. -/

variable {env}

theorem solver_nil : solver [] = none := by decide +kernel

theorem kernelKey_ne_nil {scriptPubKey script : CScript} {key : S.CKey}
    (h : kernelKey env scriptPubKey = some (key, script)) : script ≠ [] := by
  unfold kernelKey at h
  split at h
  next =>
    split at h
    next => cases h
    next =>
      rw [← (Prod.mk.inj (Option.some.inj h)).2]
      exact append_ne_nil_of_right_ne_nil _ (cons_ne_nil _ _)
  next hsolver =>
    dsimp only at h
    split at h
    next => cases h
    next =>
      split at h
      next => cases h
      next =>
        rw [← (Prod.mk.inj (Option.some.inj h)).2]
        rintro rfl
        rw [solver_nil] at hsolver
        cases hsolver
  next => cases h

theorem foundKernel_eq {nTime : UInt32} {nSearchInterval : Int64} {setCoins : List CoinKey}
    {kernel : Kernel S}
    (h : setCoins.findSome? (kernelAt env nTime nSearchInterval) = some kernel) :
    kernel.coin ∈ setCoins ∧
      kernelKey env kernel.coin.scriptPubKey = some (kernel.key, kernel.scriptPubKeyOut) := by
  obtain ⟨coin, hcoin, hat⟩ := exists_of_findSome?_eq_some h
  unfold kernelAt at hat
  dsimp only at hat
  split at hat
  next => cases hat
  next =>
    obtain ⟨⟨key, script⟩, hkey, rfl⟩ := map_eq_some_iff.mp hat
    exact ⟨hcoin, hkey⟩

/-- The further coins are others of the set, and are counted. -/
structure Adds (kernel : Kernel S) (setCoins : List CoinKey) (s s' : Combined)
    (added : List CoinKey) : Prop where
  coins : s'.coins = s.coins ++ added
  sub : added.Sublist setCoins
  other : ∀ coin ∈ added, coin.1.hash ≠ kernel.coin.1.hash
  credit : s'.nCredit.toInt = s.nCredit.toInt + valueIn added

theorem Adds.none (setCoins : List CoinKey) (s : Combined) : Adds kernel setCoins s s [] :=
  ⟨(append_nil _).symm, nil_sublist _, nofun, (Int.add_zero _).symm⟩

theorem Adds.skip {kernel : Kernel S} {coin : CoinKey} {rest added : List CoinKey}
    {s s' : Combined} (h : Adds kernel rest s s' added) :
    Adds kernel (coin :: rest) s s' added := { h with sub := h.sub.cons coin }

theorem Adds.take {kernel : Kernel S} {coin : CoinKey} {rest added : List CoinKey}
    {s s' : Combined} {nCredit : Int64} (hother : coin.1.hash ≠ kernel.coin.1.hash)
    (hcredit : nCredit.toInt = s.nCredit.toInt + coin.nValue)
    (h : Adds kernel rest ⟨s.coins ++ [coin], nCredit⟩ s' added) :
    Adds kernel (coin :: rest) s s' (coin :: added) where
  coins := by
    rw [h.coins]
    simp
  sub := h.sub.cons_cons coin
  other := forall_mem_cons.mpr ⟨hother, h.other⟩
  credit := by
    rw [h.credit, hcredit, Int.add_assoc]
    rfl

theorem combineLoop_adds {kernel : Kernel S} {vout : List CTxOut} {nTime : UInt32} {nLimit : Int64}
    {setCoins : List CoinKey} {s s' : Combined}
    (h : combineLoop kernel vout nTime nLimit setCoins s = .ok s') :
    ∃ added, Adds kernel setCoins s s' added := by
  have stop : ∀ {setCoins : List CoinKey} {s : Combined}, Except.ok (ε := Stop) s = .ok s' →
      ∃ added, Adds kernel setCoins s s' added := by
    intro setCoins s hs
    obtain rfl := Except.ok.inj hs
    exact ⟨[], Adds.none kernel setCoins s⟩
  induction setCoins generalizing s with
  | nil => exact stop h
  | cons coin rest ih =>
    have skip : combineLoop kernel vout nTime nLimit rest s = .ok s' →
        ∃ added, Adds kernel (coin :: rest) s s' added := fun h =>
      let ⟨added, hadds⟩ := ih h
      ⟨added, hadds.skip⟩
    rw [combineLoop] at h
    split at h
    next hcombines =>
      split at h
      next => exact stop h
      split at h
      next => exact stop h
      split at h
      next => cases h
      next nCredit hcredit =>
        split at h
        next => exact stop h
        split at h
        next => exact skip h
        split at h
        next => exact skip h
        obtain ⟨added, hadds⟩ := ih h
        have hother : coin.1.hash ≠ kernel.coin.1.hash := by
          simp only [combines, Bool.and_eq_true, bne_iff_ne] at hcombines
          exact hcombines.2
        exact ⟨coin :: added, hadds.take hother (toInt_of_int64 hcredit)⟩
    next => exact skip h

/-! ## §7. The outputs. -/

/-- The stake and the payment are shared out. -/
structure SharedOut (script : CScript) (payee : Option CScript)
    (blockValue blanknodePayment : Int64) (stake vout : List CTxOut) : Prop where
  outputs : vout = newTxOut 0 [] :: stake ++ payee.toList.map (newTxOut blanknodePayment)
  own : ∀ out ∈ stake, out.scriptPubKey = script
  sum : valueOut vout = blockValue.toInt

theorem setAmounts_outputs {kernel : Kernel S} {payee : Option CScript}
    {blockValue blanknodePayment : Int64} {vout : List CTxOut}
    (h : setAmounts (addPayee payee (kernelOutputs kernel)) payee.isSome blockValue
      blanknodePayment = .ok vout) :
    ∃ stake, SharedOut kernel.scriptPubKeyOut payee blockValue blanknodePayment stake vout := by
  have hzero : (0 : Int64).toInt = 0 := rfl
  unfold kernelOutputs at h
  split at h
  next =>
    -- the stake is split
    cases payee with
    | none =>
      change splitValue _ blockValue = .ok vout at h
      simp only [splitValue, bind_eq_ok, pure_eq_ok] at h
      obtain ⟨first, _, second, hsecond, rfl⟩ := h
      have hsecond := toInt_of_int64 hsecond
      refine ⟨[newTxOut first kernel.scriptPubKeyOut, newTxOut second kernel.scriptPubKeyOut],
        rfl, by simp [newTxOut], ?_⟩
      show (0 : Int64).toInt + (first.toInt + (second.toInt + 0)) = blockValue.toInt
      omega
    | some payee =>
      change (do
        let rest ← int64 (blockValue.toInt - blanknodePayment.toInt)
        splitValue _ rest) = Except.ok vout at h
      simp only [splitValue, bind_eq_ok, pure_eq_ok] at h
      obtain ⟨rest, hrest, first, _, second, hsecond, rfl⟩ := h
      have hrest := toInt_of_int64 hrest
      have hsecond := toInt_of_int64 hsecond
      refine ⟨[newTxOut first kernel.scriptPubKeyOut, newTxOut second kernel.scriptPubKeyOut],
        rfl, by simp [newTxOut], ?_⟩
      show (0 : Int64).toInt +
        (first.toInt + (second.toInt + (blanknodePayment.toInt + 0))) = blockValue.toInt
      omega
  next =>
    cases payee with
    | none =>
      cases h
      refine ⟨[newTxOut blockValue kernel.scriptPubKeyOut], rfl, by simp [newTxOut], ?_⟩
      show (0 : Int64).toInt + (blockValue.toInt + 0) = blockValue.toInt
      omega
    | some payee =>
      change (do
        let rest ← int64 (blockValue.toInt - blanknodePayment.toInt)
        return setValue _ 1 rest) = Except.ok vout at h
      simp only [bind_eq_ok, pure_eq_ok] at h
      obtain ⟨rest, hrest, rfl⟩ := h
      have hrest := toInt_of_int64 hrest
      refine ⟨[newTxOut rest kernel.scriptPubKeyOut], rfl, by simp [newTxOut], ?_⟩
      show (0 : Int64).toInt + (rest.toInt + (blanknodePayment.toInt + 0)) = blockValue.toInt
      omega

/-! ## §8. Who is paid. -/

variable (env) in
/-- The script of a payment winner that is known, or of a blanknode. -/
def KnownPayee (script : CScript) : Prop :=
  getBlockPayee env.chain (env.pindexBest.nHeight + 1) = some script ∨
    ∃ pubkey, env.winningNode = some pubkey ∧
      script = getScriptForDestination (.CKeyID (S.getID pubkey))

variable (env) in
/-- **The coinstake pays whom it should**, where its kernel, whose key has this script, and further
coins are what it spends. -/
structure PaysRight (setCoins : List CoinKey) (nFees : Int64) (staked : Staked S)
    (kernel : CoinKey) (script : CScript) (rest : List CoinKey) : Prop where
  marker : (staked.txNew.vout.head?).any CTxOut.isEmpty = true
  key : kernelKey env kernel.scriptPubKey = some (staked.key, script)
  inputs : staked.txNew.vin.map (·.prevout) = (kernel :: rest).map CoinKey.outPoint
  sub : kernel :: rest ⊆ setCoins
  distinct : (staked.txNew.vin.map (·.prevout)).Nodup
  sum : valueOut staked.txNew.vout =
    valueIn (kernel :: rest) + (getProofOfStakeReward env.pindexBest nFees).toInt
  payees : ∀ out ∈ staked.txNew.vout, out.nValue ≠ 0 →
    (out.scriptPubKey = script ∨ KnownPayee env out.scriptPubKey) ∧ out.scriptPubKey ≠ []

variable (env) in
/-- Payments have started on the network and the winner, where one is known, has a script; or there
is nothing to pay. -/
def PayeeGiven : Prop :=
  (env.bBlankNodePayment = true ∧
      getBlockPayee env.chain (env.pindexBest.nHeight + 1) ≠ some []) ∨
    getBlanknodePayment (env.pindexBest.nHeight + 1)
      (getProofOfStakeReward env.pindexBest nFees) = 0

theorem payeeOf_known {payee : CScript} (h : payeeOf env = some payee) :
    payee = [] ∨ KnownPayee env payee := by
  unfold payeeOf at h
  split at h
  next =>
    split at h
    next payee' hknown => exact .inr (.inl (hknown.trans h))
    next =>
      obtain ⟨pubkey, hnode, rfl⟩ := map_eq_some_iff.mp h
      exact .inr (.inr ⟨pubkey, hnode, rfl⟩)
  next => exact .inl (Option.some.inj h).symm

theorem payeeOf_eq_nil_iff : payeeOf env = some [] ↔
    ¬ (env.bBlankNodePayment = true ∧
      getBlockPayee env.chain (env.pindexBest.nHeight + 1) ≠ some []) := by
  unfold payeeOf
  split
  next hstart =>
    rw [hstart]
    split
    next payee hknown => simp [hknown]
    next hnone =>
      rw [hnone]
      -- a script for a key is never empty
      simp [getScriptForDestination, scriptVisitor]
  next hstart => simp [hstart]

/-! ## §9. The call. -/

theorem eq_add_of_int64 {a b c : Int64} (h : int64 (a.toInt + b.toInt) = .ok c) : c = a + b := by
  unfold int64 at h
  split at h
  next =>
    rw [← Except.ok.inj h, ofInt_add, ofInt_toInt, ofInt_toInt]
  next => cases h

theorem eq_sub_of_int64 {a b c : Int64} (h : int64 (a.toInt - b.toInt) = .ok c) : c = a - b := by
  unfold int64 at h
  split at h
  next =>
    rw [← Except.ok.inj h, ofInt_sub, ofInt_toInt, ofInt_toInt]
  next => cases h

theorem stakeReward_eq {nFees nReward payment : Int64}
    (h : stakeReward env nFees = .ok (nReward, payment)) :
    nReward = getProofOfStakeReward env.pindexBest nFees ∧
      payment = getBlanknodePayment (env.pindexBest.nHeight + 1) nReward := by
  simp only [stakeReward, bind_eq_ok, pure_eq_ok, Prod.mk.injEq] at h
  obtain ⟨reward, hreward, _, _, _, _, rfl, rfl⟩ := h
  exact ⟨eq_add_of_int64 hreward, rfl⟩

variable (env) in
/-- What a run that returns true has put together. -/
structure Made (setCoins : List CoinKey) (nFees : Int64) (staked : Staked S) (kernel : Kernel S)
    (added : List CoinKey) (stake : List CTxOut) (blockValue : Int64) : Prop where
  mem : kernel.coin ∈ setCoins
  key : kernelKey env kernel.coin.scriptPubKey = some (staked.key, kernel.scriptPubKeyOut)
  sub : added.Sublist setCoins
  other : ∀ coin ∈ added, coin.1.hash ≠ kernel.coin.1.hash
  inputs : staked.txNew.vin.map (·.prevout) = (kernel.coin :: added).map CoinKey.outPoint
  outputs : SharedOut kernel.scriptPubKeyOut (payeeOf env) blockValue
    (getBlanknodePayment (env.pindexBest.nHeight + 1) (getProofOfStakeReward env.pindexBest nFees))
    stake staked.txNew.vout
  value : blockValue.toInt =
    valueIn (kernel.coin :: added) + (getProofOfStakeReward env.pindexBest nFees).toInt

variable (env) in
/-- `setCoins` -/
def stakingCoins (txNew : CTransaction) : StakeCoins :=
  env.selectCoinsForStaking (env.nBalance - env.nReserveBalance) txNew.nTime

theorem finishCoinStake_eq {nFees : Int64} {txNew : CTransaction} {kernel : Kernel S}
    {nTime : UInt32} {inputs : Combined} {staked : Staked S}
    (h : finishCoinStake env nFees txNew kernel nTime (kernelOutputs kernel) inputs = .ok staked) :
    staked.key = kernel.key ∧
      staked.txNew.vin.map (·.prevout) = inputs.coins.map CoinKey.outPoint ∧
      ∃ stake blockValue, blockValue.toInt =
          inputs.nCredit.toInt + (getProofOfStakeReward env.pindexBest nFees).toInt ∧
        SharedOut kernel.scriptPubKeyOut (payeeOf env) blockValue
          (getBlanknodePayment (env.pindexBest.nHeight + 1)
            (getProofOfStakeReward env.pindexBest nFees)) stake staked.txNew.vout := by
  simp only [finishCoinStake, bind_eq_ok, pure_eq_ok] at h
  obtain ⟨⟨nReward, payment⟩, hreward, blockValue, hvalue, vout, hvout, tx, htx, _, _, rfl⟩ := h
  obtain ⟨rfl, rfl⟩ := stakeReward_eq hreward
  obtain ⟨stake, hstake⟩ := setAmounts_outputs hvout
  obtain ⟨htxOut, htxIn⟩ := signInputs_eq htx
  refine ⟨rfl, htxIn.trans (map_prevout_newTxIn inputs.coins), stake, blockValue,
    toInt_of_int64 hvalue, ?_⟩
  rw [htxOut]
  exact hstake

/-- **What a run that returns true has put together.** -/
theorem createCoinStake_made {nSearchInterval nFees : Int64} {txNew : CTransaction}
    {staked : Staked S} (h : createCoinStake env nSearchInterval nFees txNew = .ok staked) :
    ∃ kernel added stake blockValue, Made env (stakingCoins env txNew).coins nFees staked
      kernel added stake blockValue := by
  simp only [createCoinStake, bind_eq_ok, required_eq_ok] at h
  obtain ⟨_, _, nLimit, hlimit, _, _, kernel, hkernel, nCredit, hcredit, _, _, inputs, hinputs, h⟩
    := h
  obtain rfl : nLimit = env.nBalance - env.nReserveBalance := eq_sub_of_int64 hlimit
  obtain ⟨hmem, hkey⟩ := foundKernel_eq hkernel
  obtain ⟨added, hadds⟩ := combineLoop_adds hinputs
  obtain ⟨hkeyEq, hvin, stake, blockValue, hvalue, hout⟩ := finishCoinStake_eq h
  refine ⟨kernel, added, stake, blockValue, hmem, ?_, hadds.sub, hadds.other, ?_, hout, ?_⟩
  · rw [hkeyEq]
    exact hkey
  · rw [hvin, hadds.coins]
    rfl
  · rw [hvalue, hadds.credit, toInt_of_int64 hcredit]
    rfl

section Pays

variable {setCoins : StakeCoins} {nFees : Int64} {staked : Staked S} {kernel : Kernel S}
  {added : List CoinKey} {stake : List CTxOut} {blockValue : Int64}

theorem Made.distinct
    (h : Made env setCoins.coins nFees staked kernel added stake blockValue) :
    (staked.txNew.vin.map (·.prevout)).Nodup := by
  rw [h.inputs, map_cons, nodup_cons]
  refine ⟨?_, (h.sub.map _).nodup setCoins.nodup⟩
  intro hmem
  obtain ⟨coin, hcoin, hsame⟩ := mem_map.mp hmem
  exact h.other coin hcoin (COutPoint.mk.inj hsame).1

theorem Made.paysRight
    (h : Made env setCoins.coins nFees staked kernel added stake blockValue)
    (hgiven : PayeeGiven env nFees) :
    PaysRight env setCoins.coins nFees staked kernel.coin kernel.scriptPubKeyOut added where
  marker := by
    rw [h.outputs.outputs]
    rfl
  key := h.key
  inputs := h.inputs
  sub := cons_subset.mpr ⟨h.mem, h.sub.subset⟩
  distinct := h.distinct
  sum := by rw [h.outputs.sum, h.value]
  payees := by
    intro out hout hvalue
    rw [h.outputs.outputs, mem_append, mem_cons] at hout
    obtain (rfl | hstake) | hpaid := hout
    · exact absurd rfl hvalue
    · rw [h.outputs.own out hstake]
      exact ⟨.inl rfl, kernelKey_ne_nil h.key⟩
    · obtain ⟨payee, hpayee, rfl⟩ := mem_map.mp hpaid
      have hpayee := mem_toList.mp hpayee
      have hsomebody : payee ≠ [] := by
        rintro rfl
        obtain hstarted | hnothing := hgiven
        · exact payeeOf_eq_nil_iff.mp hpayee hstarted
        · exact hvalue hnothing
      exact ⟨.inr ((payeeOf_known hpayee).resolve_left hsomebody), hsomebody⟩

theorem Made.paysNobody
    (h : Made env setCoins.coins nFees staked kernel added stake blockValue)
    (hgiven : ¬ PayeeGiven env nFees) :
    ∃ out ∈ staked.txNew.vout, out.nValue ≠ 0 ∧ out.scriptPubKey = [] := by
  obtain ⟨hstarted, hvalue⟩ := not_or.mp hgiven
  refine ⟨newTxOut _ [], ?_, hvalue, rfl⟩
  rw [h.outputs.outputs, payeeOf_eq_nil_iff.mpr hstarted]
  exact mem_append_right _ mem_cons_self

end Pays

/-- **A coinstake pays whom it should, unless payments have not started or the payee is empty**:
then its payment is an output with the empty script. -/
theorem createCoinStake_pays_iff {nSearchInterval nFees : Int64} {txNew : CTransaction}
    {staked : Staked S} (h : createCoinStake env nSearchInterval nFees txNew = .ok staked) :
    (∃ kernel script rest,
        PaysRight env (stakingCoins env txNew).coins nFees staked kernel script rest) ↔
      PayeeGiven env nFees := by
  obtain ⟨kernel, added, stake, blockValue, hmade⟩ := createCoinStake_made h
  constructor
  · rintro ⟨_, _, _, hpays⟩
    by_contra hgiven
    obtain ⟨out, hout, hvalue, hempty⟩ := hmade.paysNobody hgiven
    exact (hpays.payees out hout hvalue).2 hempty
  · intro hgiven
    exact ⟨_, _, _, hmade.paysRight hgiven⟩

def stakerScript : CScript := CScript.pushPubKey (samplePubKey 5) ++ [OP_CHECKSIG]

def stakerCoin : CoinKey := (⟨7, 0, true, [newTxOut (5000000000) stakerScript]⟩, 0)

def stakerEnv (chain : ChainEnv) (pindexBest : CBlockIndex) : StakeEnv sampleSignEnv where
  networkID := .MAIN
  chain := chain
  pindexBest := pindexBest
  nBalance := 10000000000
  nReserveBalance := 0
  selectCoinsForStaking _ _ :=
    { coins := [stakerCoin]
      inside := by decide
      nodup := nodup_singleton _ }
  keystore := ⟨fun _ => some (5 : UInt8), fun _ => none, fun _ => none⟩
  checkKernel _ _ := true
  winningNode := none
  signSignature _ _ _ := some [OP_1]

section Staker

variable (chain : ChainEnv) (pindexBest : CBlockIndex)

theorem stakerScript_solver : solver stakerScript = some (.TX_PUBKEY, [samplePubKey 5]) := by
  decide +kernel

def stakerKernel : Kernel sampleSignEnv := ⟨stakerCoin, 0, (5 : UInt8), stakerScript⟩

theorem stakerEnv_kernel (nTime : UInt32) :
    [stakerCoin].findSome? (kernelAt (stakerEnv chain pindexBest) nTime 1) = some stakerKernel := by
  have hkey : kernelKey (stakerEnv chain pindexBest) stakerCoin.scriptPubKey =
      some ((5 : UInt8), stakerScript) := by
    show kernelKey (stakerEnv chain pindexBest) stakerScript = _
    rw [kernelKey, stakerScript_solver]
    exact if_neg (not_not.mpr rfl)
  have hfind : ((range (min (1 : Int64).toInt 60).toNat).find? fun n =>
      (stakerEnv chain pindexBest).checkKernel (nTime - UInt32.ofNat n) stakerCoin.outPoint) =
      some 0 := rfl
  rw [findSome?_cons, kernelAt, hfind, hkey]
  rfl

theorem stakerEnv_run (txNew : CTransaction) :
    createCoinStake (stakerEnv chain pindexBest) 1 0 txNew =
      finishCoinStake (stakerEnv chain pindexBest) 0 txNew stakerKernel
        (txNew.nTime - UInt32.ofNat stakerKernel.n) [newTxOut 0 [], newTxOut 0 stakerScript]
        ⟨[stakerCoin], 5000000000⟩ := by
  have hlimit : spendable (stakerEnv chain pindexBest) = .ok 10000000000 := by
    show int64 ((10000000000 : Int64).toInt - (0 : Int64).toInt) = .ok 10000000000
    decide
  have hcoins : ((stakerEnv chain pindexBest).selectCoinsForStaking 10000000000
      txNew.nTime).coins = [stakerCoin] := rfl
  have hvalue : int64 stakerKernel.coin.nValue = .ok 5000000000 := by decide
  have hvout : kernelOutputs stakerKernel = [newTxOut 0 [], newTxOut 0 stakerScript] := by
    decide +kernel
  have hbalance : decide ((10000000000 : Int64) ≤ 0) = false := by decide
  have hcredit : ((5000000000 : Int64) == 0 || decide ((5000000000 : Int64) > 10000000000)) =
      false := by decide
  rw [createCoinStake, show decide ((stakerEnv chain pindexBest).nBalance ≤
    (stakerEnv chain pindexBest).nReserveBalance) = false from hbalance, hlimit]
  simp only [rejectIf_false, ok_bind, hcoins, stakerEnv_kernel, required, hvalue, hcredit,
    isEmpty_cons]
  have hinputs : combineLoop stakerKernel [newTxOut 0 [], newTxOut 0 stakerScript]
      (txNew.nTime - UInt32.ofNat stakerKernel.n) 10000000000 [stakerCoin]
      ⟨[stakerKernel.coin], 5000000000⟩ = .ok ⟨[stakerCoin], 5000000000⟩ := by
    rw [combineLoop, if_neg (by simp [combines, stakerKernel])]
    rfl
  rw [hvout, hinputs, ok_bind]

variable {chain pindexBest}

theorem stakerEnv_started (hstart : BLANKNODE_PAYMENT_START ≤ pindexBest.nHeight + 1) :
    (stakerEnv chain pindexBest).bBlankNodePayment = true := decide_eq_true hstart

theorem stakerEnv_payeeOf {payee : CScript}
    (hstart : BLANKNODE_PAYMENT_START ≤ pindexBest.nHeight + 1)
    (hknown : getBlockPayee chain (pindexBest.nHeight + 1) = some payee) :
    payeeOf (stakerEnv chain pindexBest) = some payee := by
  rw [payeeOf, if_pos (stakerEnv_started hstart)]
  change (match getBlockPayee chain (pindexBest.nHeight + 1) with
    | some payee => some payee
    | none => none) = _
  rw [hknown]

theorem stakerEnv_reward (hheight : pindexBest.nHeight = 10499) :
    stakeReward (stakerEnv chain pindexBest) 0 = .ok (100000000, 66666666) := by
  rw [stakeReward, show (stakerEnv chain pindexBest).pindexBest.nHeight = 10499 from hheight]
  decide

end Staker

def stakerTx (nStake nPayment : Int64) (payee : CScript) : CTransaction where
  nVersion := 1
  nTime := 1000
  vin := [⟨⟨7, 0⟩, [OP_1], [], 0xffffffff⟩]
  vout := [newTxOut 0 [], newTxOut nStake stakerScript, newTxOut nPayment payee]
  nLockTime := 0

/-- At height 10500 the winner gets two thirds of a coin. -/
theorem createCoinStake_pays_winner :
    ∃ staked, createCoinStake (stakerEnv (payeeEnv 0) (sampleTower 10499)) 1 0
        (CTransaction.null 1000) = .ok staked ∧
      newTxOut 66666666 [OP_1] ∈ staked.txNew.vout ∧
      ∃ kernel script rest, PaysRight (stakerEnv (payeeEnv 0) (sampleTower 10499)) [stakerCoin] 0
        staked kernel script rest := by
  have hdue := payeeEnv_due 0
  have hreward : stakeReward (stakerEnv (payeeEnv 0) (sampleTower 10499)) 0 = _ :=
    stakerEnv_reward (sampleTower_nHeight 10499)
  have hpayee := stakerEnv_payeeOf hdue.start hdue.known
  have hrun : (createCoinStake (stakerEnv (payeeEnv 0) (sampleTower 10499)) 1 0
      (CTransaction.null 1000)).map Staked.txNew = .ok (stakerTx 5033333334 66666666 [OP_1]) := by
    rw [stakerEnv_run, finishCoinStake, hreward, hpayee]
    decide +kernel
  obtain ⟨staked, hrun, htx⟩ := map_eq_ok.mp hrun
  refine ⟨staked, hrun, ?_, ?_⟩
  · rw [htx]
    decide
  have hsomebody : getBlockPayee (payeeEnv 0) ((sampleTower 10499).nHeight + 1) ≠ some [] :=
    fun h => absurd (hdue.known.symm.trans h) (by decide)
  exact (createCoinStake_pays_iff hrun).mpr (.inl ⟨stakerEnv_started hdue.start, hsomebody⟩)

/-- **Before height 10500**, here on top of block 1000, two thirds of the reward go to the empty
script. -/
theorem coinstake_pays_nobody :
    ∃ staked, createCoinStake (stakerEnv (payeeEnv 0) (sampleTower 1000)) 1 0
        (CTransaction.null 1000) = .ok staked ∧
      newTxOut 6666666 [] ∈ staked.txNew.vout ∧
      ¬ ∃ kernel script rest, PaysRight (stakerEnv (payeeEnv 0) (sampleTower 1000)) [stakerCoin] 0
        staked kernel script rest := by
  have hrun : (createCoinStake (stakerEnv (payeeEnv 0) (sampleTower 1000)) 1 0
      (CTransaction.null 1000)).map Staked.txNew = .ok (stakerTx 5003333334 6666666 []) := by
    rw [stakerEnv_run]
    decide +kernel
  obtain ⟨staked, hrun, htx⟩ := map_eq_ok.mp hrun
  have hout : newTxOut 6666666 [] ∈ staked.txNew.vout := by
    rw [htx]
    decide
  refine ⟨staked, hrun, hout, ?_⟩
  rintro ⟨_, _, _, hpays⟩
  exact (hpays.payees _ hout (by decide)).2 rfl

end Fantom.Wallet
