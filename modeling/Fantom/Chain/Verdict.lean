/-
  Fantom.Chain.Verdict — What the verdict of `ConnectBlock` depends on.

  * `same_verdict_iff` — when a block has one verdict on top of the best block and while the best
    block is the tip of another branch.
-/
import Fantom.Chain.Accounts
import Fantom.Chain.BestChain

namespace Fantom.Chain

open Core Lib

/-! ## §1. Signatures. -/

section Signed

variable (env : ChainEnv)

def signedInput (posOf : Positions) (tx : CTransaction) (i : CTxIn × Nat) : Bool :=
  (prevTx env posOf i.1.prevout.hash).any fun txPrev =>
    accepts (checkSignature env true txPrev tx i.1 i.2 connectFlags)

/-- The signatures of a transaction verify; a coinbase has none. -/
def Located.signed (l : Located) : Bool :=
  l.tx.isCoinBase || l.tx.vin.zipIdx.all (signedInput env l.posOf l.tx)

end Signed

variable {env : ChainEnv}

variable {db : Records} {tx : CTransaction} {pos : CDiskTxPos} {pindex pindexBest : CBlockIndex}
    {st : ConnectState} {b : CBlock}

theorem spendInput_signed_iff {st st' : MapPrevTx × TxIndexMap}
    (hf : Fetched env (indexWith db st.2) st.1) {i : CTxIn × Nat} :
    spendInput env tx pos true false true connectFlags st i = .ok st' ↔
      spendInput env tx pos true false false connectFlags st i = .ok st' ∧
        signedInput env (positionsOf (indexWith db st.2)) tx i = true := by
  obtain ⟨txin, nIn⟩ := i
  rw [spendInput_ok_iff, spendInput_ok_iff]
  have hsigned : ∀ txindex txPrev, st.1[txin.prevout.hash]? = some (txindex, txPrev) →
      (checkSignature env true txPrev tx txin nIn connectFlags = .ok () ↔
        signedInput env (positionsOf (indexWith db st.2)) tx (txin, nIn) = true) := by
    intro txindex txPrev hget
    unfold signedInput
    rw [(hf _ _ _ hget).2, Option.any_some, accepts_iff]
    exact ⟨fun h => ⟨(), h⟩, fun ⟨_, h⟩ => h⟩
  constructor
  · rintro ⟨txindex, txPrev, hget, hnull, hsig, rfl⟩
    exact ⟨⟨txindex, txPrev, hget, hnull, rfl, rfl⟩, (hsigned _ _ hget).mp hsig⟩
  · rintro ⟨⟨txindex, txPrev, hget, hnull, _, rfl⟩, hsig⟩
    exact ⟨txindex, txPrev, hget, hnull, (hsigned _ _ hget).mpr hsig, rfl⟩

theorem spendInputs_signed_iff {inputs : MapPrevTx} {queue : TxIndexMap}
    (hf : Fetched env (indexWith db queue) inputs) {txins : List (CTxIn × Nat)}
    {st' : MapPrevTx × TxIndexMap} :
    txins.foldlM (spendInput env tx pos true false true connectFlags) (inputs, queue) = .ok st' ↔
      txins.foldlM (spendInput env tx pos true false false connectFlags) (inputs, queue) =
          .ok st' ∧
        txins.all (signedInput env (positionsOf (indexWith db queue)) tx) = true := by
  rw [foldlM_guarded (fun _ (st : MapPrevTx × TxIndexMap) => Fetched env (indexWith db st.2) st.1 ∧
      positionsOf (indexWith db st.2) = positionsOf (indexWith db queue))
    (fun _ i => signedInput env (positionsOf (indexWith db queue)) tx i = true) ⟨hf, rfl⟩ ?_ ?_,
    List.all_eq_true]
  · refine and_congr_right fun _ => ⟨?_, ?_⟩
    · intro h i hi
      obtain ⟨done, rest, heq⟩ := List.append_of_mem hi
      exact h done i rest heq
    · intro h done i rest heq
      exact h i (by rw [heq]; simp)
  · rintro done ⟨txin, nIn⟩ rest s s' _ ⟨hfs, hpos⟩ hstep
    obtain ⟨_, hindex, hfs'⟩ := hfs.spendInput hstep
    refine ⟨hfs', ?_⟩
    rw [hindex, positionsOf_writeSpent, hpos]
  · rintro done i rest s s' _ ⟨hfs, hpos⟩
    rw [spendInput_signed_iff hfs, hpos]

theorem connectInputs_signed_iff {inputs : MapPrevTx} {queue queue' : TxIndexMap}
    (hf : Fetched env (indexWith db queue) inputs) (hcb : tx.isCoinBase = false) :
    connectInputs env tx inputs queue pos pindex true false connectFlags true = .ok queue' ↔
      connectInputs env tx inputs queue pos pindex true false connectFlags false = .ok queue' ∧
        Located.signed env ⟨tx, positionsOf (indexWith db queue)⟩ = true := by
  unfold connectInputs Located.signed
  rw [hcb, if_neg Bool.false_ne_true, if_neg Bool.false_ne_true, Bool.false_or]
  simp only [bind_eq_ok]
  constructor
  · rintro ⟨v, hcheck, r, hspend, hrest⟩
    obtain ⟨hspend, hsigned⟩ := (spendInputs_signed_iff hf).mp hspend
    exact ⟨⟨v, hcheck, r, hspend, hrest⟩, hsigned⟩
  · rintro ⟨⟨v, hcheck, r, hspend, hrest⟩, hsigned⟩
    exact ⟨v, hcheck, r, (spendInputs_signed_iff hf).mpr ⟨hspend, hsigned⟩, hrest⟩

theorem connectSpending_signed_iff {st' : ConnectState} (hcb : tx.isCoinBase = false) :
    connectSpending env db pindex true pos st tx = .ok st' ↔
      connectSpending env db pindex false pos st tx = .ok st' ∧
        Located.signed env ⟨tx, positionsOf (indexWith db st.mapQueuedChanges)⟩ = true := by
  unfold connectSpending
  simp only [bind_eq_ok, mapError_eq_ok]
  constructor
  · rintro ⟨inputs, hfetch, n, hsig, u, hops, nIn, hin, nOut, hout, queue, hconnect, hrest⟩
    have hf : Fetched env (indexWith db st.mapQueuedChanges) inputs := fetched_of_ok hcb hfetch
    obtain ⟨hconnect, hsigned⟩ := (connectInputs_signed_iff hf hcb).mp hconnect
    exact ⟨⟨inputs, hfetch, n, hsig, u, hops, nIn, hin, nOut, hout, queue, hconnect, hrest⟩,
      hsigned⟩
  · rintro ⟨⟨inputs, hfetch, n, hsig, u, hops, nIn, hin, nOut, hout, queue, hconnect, hrest⟩,
      hsigned⟩
    have hf : Fetched env (indexWith db st.mapQueuedChanges) inputs := fetched_of_ok hcb hfetch
    exact ⟨inputs, hfetch, n, hsig, u, hops, nIn, hin, nOut, hout, queue,
      (connectInputs_signed_iff hf hcb).mpr ⟨hconnect, hsigned⟩, hrest⟩

theorem connectTx_signed_iff {st' : ConnectState} :
    connectTx env db pindex false true st tx = .ok st' ↔
      connectTx env db pindex false false st tx = .ok st' ∧
        Located.signed env ⟨tx, positionsOf (indexWith db st.mapQueuedChanges)⟩ = true := by
  unfold connectTx connectKind
  cases hcb : tx.isCoinBase with
  | true =>
    have hsigned : Located.signed env ⟨tx, positionsOf (indexWith db st.mapQueuedChanges)⟩ =
        true := by
      unfold Located.signed
      rw [hcb, Bool.true_or]
    rw [hsigned]
    simp
  | false =>
    simp only [Bool.false_eq_true, if_false, bind_eq_ok, connectSpending_signed_iff hcb]
    constructor
    · rintro ⟨u, hold, u', hops, spent, ⟨hspent, hsigned⟩, hrest⟩
      exact ⟨⟨u, hold, u', hops, spent, hspent, hrest⟩, hsigned⟩
    · rintro ⟨⟨u, hold, u', hops, spent, hspent, hrest⟩, hsigned⟩
      exact ⟨u, hold, u', hops, spent, ⟨hspent, hsigned⟩, hrest⟩

/-- **The loop with signature checks** accepts what the loop without them does,
when every signature verifies. -/
theorem connectTxs_iff :
    b.vtx.foldlM (connectTx env db pindex false true) (.init b pindex false) = .ok st ↔
      b.vtx.foldlM (connectTx env db pindex false false) (.init b pindex false) = .ok st ∧
        (blockTxs env db b pindex).all (Located.signed env) = true := by
  rw [foldlM_guarded (Accounts env db b pindex)
    (fun done tx => Located.signed env
      ⟨tx, (posAfter env pindex (posBefore db b pindex) done).1⟩ = true)
    (Accounts.init db b pindex) ?_ ?_, List.all_eq_true]
  · refine and_congr_right fun _ => ⟨?_, ?_⟩
    · intro h l hl
      obtain ⟨done, tx, rest, heq, rfl⟩ := (mem_located env).mp hl
      exact h done tx rest heq
    · intro h done tx rest heq
      exact h _ ((mem_located env).mpr ⟨done, tx, rest, heq, rfl⟩)
  · intro done tx rest s s' _ hI hstep
    exact hI.step (connectTx_ok hstep)
  · intro done tx rest s s' _ hI
    have hpositions : positionsOf (indexWith db s.mapQueuedChanges) =
        (posAfter env pindex (posBefore db b pindex) done).1 := congrArg Prod.fst hI.positions
    rw [connectTx_signed_iff, hpositions]

/-! ## §2. The records. -/

theorem fetchInputs_congr {db' : Records} (h : db'.tx = db.tx) :
    fetchInputs env db' = fetchInputs env db := by
  have hread : readQueued db' = readQueued db := by
    funext queue fQueued hash
    unfold readQueued Records.readTxIndex
    rw [h]
  have hinput : fetchInput env db' = fetchInput env db := by
    funext queue fBlock fMiner inputs txin
    unfold fetchInput
    rw [hread]
  funext queue fBlock fMiner tx inputs
  unfold fetchInputs
  rw [hinput]

theorem connectTx_congr {db' : Records} (h : db'.tx = db.tx) (pindex : CBlockIndex)
    (fVerify : Bool) :
    connectTx env db' pindex false fVerify = connectTx env db pindex false fVerify := by
  funext st tx
  unfold connectTx connectKind connectSpending Records.readTxIndex
  rw [fetchInputs_congr h, h]

theorem accepts_writeTxAddrs {txs : List CTransaction} :
    accepts (txs.foldlM (writeTxAddrs env) db) = true ↔
      ∀ tx ∈ txs, accepts (fetchInputs env db ∅ true false tx ∅) = true := by
  induction txs generalizing db with
  | nil => exact ⟨fun _ => nofun, fun _ => rfl⟩
  | cons tx txs ih =>
    rw [List.foldlM_cons, List.forall_mem_cons, accepts_iff]
    constructor
    · rintro ⟨r, h⟩
      obtain ⟨db₁, hfirst, hrest⟩ := bind_eq_ok.mp h
      have htx := writeTxAddrs_tx hfirst
      unfold writeTxAddrs at hfirst
      obtain ⟨inputs, hfetch, _⟩ := bind_eq_ok.mp hfirst
      refine ⟨accepts_iff.mpr ⟨inputs, mapError_eq_ok.mp hfetch⟩, ?_⟩
      have := ih.mp (accepts_iff.mpr ⟨r, hrest⟩)
      rwa [fetchInputs_congr htx] at this
    · rintro ⟨hfirst, hrest⟩
      obtain ⟨inputs, hfetch⟩ := accepts_iff.mp hfirst
      have hwrite : ∃ db₁, writeTxAddrs env db tx = .ok db₁ := by
        unfold writeTxAddrs
        exact ⟨_, bind_eq_ok.mpr ⟨inputs, mapError_eq_ok.mpr hfetch, rfl⟩⟩
      obtain ⟨db₁, hwrite⟩ := hwrite
      rw [← fetchInputs_congr (writeTxAddrs_tx hwrite)] at hrest
      obtain ⟨r, hr⟩ := accepts_iff.mp (ih.mpr hrest)
      exact ⟨r, bind_eq_ok.mpr ⟨db₁, hwrite, hr⟩⟩

/-! ## §3. The parts of the verdict. -/

section Parts

variable (env : ChainEnv)

/-- The checks of `ConnectBlock` that do not read the best block. -/
def commonChecks (db : Records) (b : CBlock) (pindex : CBlockIndex) :
    Except Failure ConnectState := do
  checkHead env b true
  checkPlacement b
  checkLockedInputs env b
  checkTransactions env b true
  let st ← b.vtx.foldlM (connectTx env db pindex false false) (.init b pindex false)
  let _ ← b.vtx.foldlM (writeTxAddrs env) (flushQueue db st.mapQueuedChanges)
  return st

/-- The signatures verify, unless the best block is below the last checkpoint. -/
def signaturesPass (pindexBest : CBlockIndex) (db : Records) (b : CBlock) (pindex : CBlockIndex) :
    Bool :=
  skipsSignatures env pindexBest true || (blockTxs env db b pindex).all (Located.signed env)

/-- The coinbase or the coinstake takes at most the reward above a best block:
its subsidy and the fees of the block. -/
def rewardPasses (pindexBest : CBlockIndex) (db : Records) (b : CBlock) (pindex : CBlockIndex) :
    Bool :=
  let nFees := Int64.ofInt (feesOf env (blockTxs env db b pindex))
  if b.isProofOfStake then
    Int64.ofInt (lastStake env (blockTxs env db b pindex)) ≤ getProofOfStakeReward pindexBest nFees
  else (coinbaseOf b).getValueOut.any fun nValueOut =>
    nValueOut ≤ getProofOfWorkReward pindexBest nFees

def tipChecks (pindexBest : CBlockIndex) (db : Records) (b : CBlock) (pindex : CBlockIndex) :
    Bool :=
  signaturesPass env pindexBest db b pindex &&
    (accepts (checkBlanknodePayments env pindexBest b) && rewardPasses env pindexBest db b pindex)

end Parts

theorem checkBlock_eq_ok_iff :
    checkBlock env pindexBest b true true false = .ok () ↔
      (checkHead env b true = .ok () ∧ checkPlacement b = .ok () ∧
        checkLockedInputs env b = .ok () ∧ checkTransactions env b true = .ok ()) ∧
      accepts (checkBlanknodePayments env pindexBest b) = true := by
  rw [checkBlock_eq_ok, checkTransactions_eq_ok, accepts_iff]
  constructor
  · intro h
    exact ⟨⟨h.head, h.placement, h.lockedInputs, h.transactions⟩, (), h.payments⟩
  · intro h
    obtain ⟨⟨hhead, hplace, hlocked, htxs⟩, _, hpay⟩ := h
    exact ⟨hhead, hplace, rfl, hlocked, hpay, htxs⟩

theorem checkReward_eq_ok_iff (hacc : Accounts env db b pindex b.vtx st) :
    checkReward pindexBest b st = .ok () ↔ rewardPasses env pindexBest db b pindex = true := by
  have hfees : st.nFees = Int64.ofInt (feesOf env (blockTxs env db b pindex)) := hacc.nFees
  have hstake : st.nStakeReward = Int64.ofInt (lastStake env (blockTxs env db b pindex)) :=
    hacc.nStakeReward
  unfold checkReward rewardPasses
  rw [hfees, hstake]
  cases b.isProofOfStake with
  | true => simp
  | false =>
    simp only [Bool.false_eq_true, if_false, bind_eq_ok, required_eq_ok, rejectIf_eq_ok]
    cases (coinbaseOf b).getValueOut with
    | none => simp
    | some v => simp

theorem connectTxs_tip_iff :
    b.vtx.foldlM (connectTx env db pindex false (!skipsSignatures env pindexBest true))
        (.init b pindex false) = .ok st ↔
      b.vtx.foldlM (connectTx env db pindex false false) (.init b pindex false) = .ok st ∧
        signaturesPass env pindexBest db b pindex = true := by
  unfold signaturesPass
  cases skipsSignatures env pindexBest true with
  | true => simp
  | false =>
    rw [Bool.false_or]
    exact connectTxs_iff

theorem commonChecks_eq_ok_iff :
    commonChecks env db b pindex = .ok st ↔
      (checkHead env b true = .ok () ∧ checkPlacement b = .ok () ∧
        checkLockedInputs env b = .ok () ∧ checkTransactions env b true = .ok ()) ∧
      b.vtx.foldlM (connectTx env db pindex false false) (.init b pindex false) = .ok st ∧
      accepts (b.vtx.foldlM (writeTxAddrs env) (flushQueue db st.mapQueuedChanges)) = true := by
  unfold commonChecks
  simp only [bind_eq_ok, pure_eq_ok, accepts_iff]
  constructor
  · rintro ⟨_, hhead, _, hplace, _, hlocked, _, htxs, st', hloop, db', haddr, rfl⟩
    exact ⟨⟨hhead, hplace, hlocked, htxs⟩, hloop, db', haddr⟩
  · rintro ⟨⟨hhead, hplace, hlocked, htxs⟩, hloop, db', haddr⟩
    exact ⟨(), hhead, (), hplace, (), hlocked, (), htxs, st, hloop, db', haddr, rfl⟩

theorem accepts_connectBlock_iff {mem : IndexMem} :
    accepts (connectBlock env pindexBest mem db b pindex false) = true ↔
      ∃ st, checkBlock env pindexBest b true true false = .ok () ∧
        b.vtx.foldlM (connectTx env db pindex false (!skipsSignatures env pindexBest true))
          (.init b pindex false) = .ok st ∧
        checkReward pindexBest b st = .ok () ∧
        accepts (b.vtx.foldlM (writeTxAddrs env) (flushQueue db st.mapQueuedChanges)) = true := by
  -- the entry of the block itself is written before the addresses
  have haddr : ∀ (blockindex : CDiskBlockIndex) (queue : TxIndexMap),
      accepts (b.vtx.foldlM (writeTxAddrs env) (flushQueue (db.writeBlockIndex blockindex) queue)) =
        accepts (b.vtx.foldlM (writeTxAddrs env) (flushQueue db queue)) := by
    intro blockindex queue
    have htx : (flushQueue (db.writeBlockIndex blockindex) queue).tx = (flushQueue db queue).tx :=
      rfl
    rw [Bool.eq_iff_iff, accepts_writeTxAddrs, accepts_writeTxAddrs, fetchInputs_congr htx]
  rw [accepts_iff]
  constructor
  · rintro ⟨r, h⟩
    obtain ⟨st, db₁, hcheck, hloop, hreward, hwrite, _⟩ := (connectBlock_eq_ok env).mp h
    refine ⟨st, hcheck, hloop, hreward, ?_⟩
    rw [← haddr]
    exact accepts_iff.mpr ⟨db₁, hwrite⟩
  · rintro ⟨st, hcheck, hloop, hreward, hwrite⟩
    rw [← haddr (diskBlockIndex (trackSupply mem pindex st) pindex)] at hwrite
    obtain ⟨db₁, hwrite⟩ := accepts_iff.mp hwrite
    exact ⟨_, (connectBlock_eq_ok env).mpr ⟨st, db₁, hcheck, hloop, hreward, hwrite, rfl⟩⟩

theorem accepts_connectBlock_congr {mem mem' : IndexMem} {db' : Records} (hdb : db'.tx = db.tx) :
    accepts (connectBlock env pindexBest mem' db' b pindex false) =
      accepts (connectBlock env pindexBest mem db b pindex false) := by
  have haddr : ∀ queue, accepts (b.vtx.foldlM (writeTxAddrs env) (flushQueue db' queue)) =
      accepts (b.vtx.foldlM (writeTxAddrs env) (flushQueue db queue)) := by
    intro queue
    have htx : (flushQueue db' queue).tx = (flushQueue db queue).tx := by
      unfold flushQueue
      rw [hdb]
    rw [Bool.eq_iff_iff, accepts_writeTxAddrs, accepts_writeTxAddrs, fetchInputs_congr htx]
  rw [Bool.eq_iff_iff, accepts_connectBlock_iff, accepts_connectBlock_iff, connectTx_congr hdb]
  simp only [haddr]

/-- **The verdict of `ConnectBlock`** is that of the checks that do not read the
best block and of those that do. -/
theorem accepts_connectBlock_eq {mem : IndexMem} :
    accepts (connectBlock env pindexBest mem db b pindex false) =
      (accepts (commonChecks env db b pindex) && tipChecks env pindexBest db b pindex) := by
  rw [Bool.eq_iff_iff, accepts_connectBlock_iff, Bool.and_eq_true]
  unfold tipChecks
  rw [Bool.and_eq_true, Bool.and_eq_true]
  constructor
  · rintro ⟨st, hcheck, hloop, hreward, haddr⟩
    obtain ⟨hcommon, hpay⟩ := checkBlock_eq_ok_iff.mp hcheck
    obtain ⟨hloop, hsigned⟩ := connectTxs_tip_iff.mp hloop
    exact ⟨accepts_iff.mpr ⟨st, commonChecks_eq_ok_iff.mpr ⟨hcommon, hloop, haddr⟩⟩, hsigned, hpay,
      (checkReward_eq_ok_iff (accounts_of_loop hloop)).mp hreward⟩
  · rintro ⟨hcommon, hsigned, hpay, hreward⟩
    obtain ⟨st, hcommon⟩ := accepts_iff.mp hcommon
    obtain ⟨hchecks, hloop, haddr⟩ := commonChecks_eq_ok_iff.mp hcommon
    exact ⟨st, checkBlock_eq_ok_iff.mpr ⟨hchecks, hpay⟩, connectTxs_tip_iff.mpr ⟨hloop, hsigned⟩,
      (checkReward_eq_ok_iff (accounts_of_loop hloop)).mpr hreward, haddr⟩

/-! ## §4. Two best blocks. -/

theorem checkBlanknodePayments_of_ne (h : pindexBest.getBlockHash ≠ b.hashPrevBlock) :
    checkBlanknodePayments env pindexBest b = .ok () := by
  unfold checkBlanknodePayments
  rw [if_neg (fun hand => h hand.2.2)]

/-- **One verdict in two places.**  A block is judged once with its parent as
the best block, and once with the tip of another branch as the best block, on
the same transaction index.  The two verdicts are the same exactly when the
block fails a check that does not read the best block, or those that do (the
signatures, which a best block below the last checkpoint skips, the reward, and
for the parent the payment) come out the same. -/
theorem same_verdict_iff {pprev losing pindex : CBlockIndex} {mem mem' : IndexMem}
    {db db' : Records} {b : CBlock} (hlosing : losing.getBlockHash ≠ b.hashPrevBlock)
    (hdb : db'.tx = db.tx) :
    accepts (connectBlock env pprev mem db b pindex false) =
        accepts (connectBlock env losing mem' db' b pindex false) ↔
      (accepts (commonChecks env db b pindex) = true →
        (signaturesPass env pprev db b pindex &&
            (accepts (checkBlanknodePayments env pprev b) && rewardPasses env pprev db b pindex)) =
          (signaturesPass env losing db b pindex && rewardPasses env losing db b pindex)) := by
  have hpay : accepts (checkBlanknodePayments env losing b) = true := by
    rw [checkBlanknodePayments_of_ne hlosing]
    rfl
  have hcongr : accepts (connectBlock env losing mem' db' b pindex false) =
      accepts (connectBlock env losing mem db b pindex false) := accepts_connectBlock_congr hdb
  rw [hcongr, accepts_connectBlock_eq, accepts_connectBlock_eq]
  unfold tipChecks
  rw [hpay, Bool.true_and]
  cases accepts (commonChecks env db b pindex) with
  | true => simp
  | false => simp

theorem same_verdict_forkBlock :
    accepts (connectBlock (forkEnv 0 true) startIndex sampleMem Records.empty forkBlock forkIndex
        false) =
      accepts (connectBlock (forkEnv 0 true) losingIndex sampleMem Records.empty forkBlock forkIndex
        false) :=
  (same_verdict_iff (by decide +kernel) rfl).mpr fun _ => by decide +kernel

def richBlock : CBlock := sampleBlock startIndex [sampleCoinBase (8250 * COIN)]
def richIndex : CBlockIndex := sampleIndex startIndex richBlock 1000
def heirBlock : CBlock := sampleBlock richIndex [sampleCoinBase 1000]
def heirIndex : CBlockIndex := sampleIndex richIndex heirBlock 1500

def richEnv : ChainEnv :=
  { sampleChainEnv [] with
    hashGenesisBlock := startBlock.getHash sampleChainHashes
    readBlock := fun _ nBlockPos => ([(500, losingBlock), (1000, richBlock), (1500, heirBlock)].find?
      fun s => s.1 == nBlockPos).map Prod.snd }

def richCalls (b : CBlock) (pindex : CBlockIndex) : List Call :=
  [⟨richEnv, .empty, startBlock, startIndex⟩, ⟨richEnv, .empty, b, pindex⟩]

def heirCall : Call := ⟨richEnv, .empty, heirBlock, heirIndex⟩

/-- **Two nodes.**  One node hears of the rich block first, extends its chain
with it and with the block on top.  The other one hears of another block first,
and refuses the rich block when it reorganises: one block, one index, two
verdicts. -/
theorem richBlock_two_verdicts :
    let first := run Call.step Node.initial (richCalls richBlock richIndex)
    let second := run Call.step Node.initial (richCalls losingBlock losingIndex)
    accepts (connectBlock richEnv startIndex sampleMem Records.empty richBlock richIndex false) =
        true ∧
      accepts (connectBlock richEnv losingIndex sampleMem Records.empty richBlock richIndex false) =
        false ∧
      accepts (heirCall.answer first).1 = true ∧
      (heirCall.step first).pindexBest = some heirIndex ∧
      accepts (heirCall.answer second).1 = false ∧
      (heirCall.step second).pindexBest = some losingIndex := by
  decide +kernel

end Fantom.Chain
