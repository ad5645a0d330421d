/-
  Fantom.Chain.Minting — How much a connected block mints.

  * `minted_le_subsidy_iff` — when a block stays within its subsidy.

  `ConnectBlock` compares the coinbase of a proof-of-work block and the coinstake of a
  proof-of-stake block with the reward.  `CheckBlock` looks for misplaced coinstakes in
  proof-of-stake blocks only, so a proof-of-work block may hold some, and their outputs are compared
  with nothing.
-/
import Fantom.Chain.Accounts

namespace Fantom.Chain

open Core Lib List Int64

variable {env : ChainEnv}

/-! ## §1. The bound. -/

/-- The subsidy of a block above a best block: the reward without fees. -/
def subsidy (pindexBest : CBlockIndex) (b : CBlock) : Int :=
  (if b.isProofOfStake then getProofOfStakeReward pindexBest 0
    else getProofOfWorkReward pindexBest 0).toInt

/-- What the coinbase of a block leaves of the subsidy and the fees. -/
def unclaimed (env : ChainEnv) (pindexBest : CBlockIndex) (db : Records) (b : CBlock)
    (pindex : CBlockIndex) : Int :=
  subsidy pindexBest b + feesOf env (blockTxs env db b pindex) - valueOut (coinbaseOf b)

theorem proofOfWorkSubsidy_nonneg (nBestHeight : Nat) :
    0 ≤ (proofOfWorkSubsidy nBestHeight).toInt := by
  unfold proofOfWorkSubsidy
  repeat' split
  all_goals decide

theorem proofOfStakeSubsidy_nonneg (nBestHeight : Nat) :
    0 ≤ (proofOfStakeSubsidy nBestHeight).toInt := by
  unfold proofOfStakeSubsidy
  repeat' split
  all_goals decide

theorem reward_le {nSubsidy : Int64} {nFees : Int} (hs : 0 ≤ nSubsidy.toInt) (hf : 0 ≤ nFees) :
    (nSubsidy + Int64.ofInt nFees).toInt ≤ nSubsidy.toInt + nFees := by
  have hsum : 0 ≤ nSubsidy.toInt + nFees := by omega
  have hsize : Int64.size = 18446744073709551616 := rfl
  rw [toInt_add, toInt_ofInt, hsize, Int.add_bmod_bmod, Int.bmod_eq_emod]
  split <;> omega

/-! ## §2. The accounts of one block. -/

theorem coinBaseMint_eq (ls : List Located) :
    coinBaseMint ls =
      ((ls.map Located.tx).map fun tx => if tx.isCoinBase then valueOut tx else 0).sum := by
  rw [coinBaseMint, map_map]
  rfl

theorem coinBaseMint_blockTxs {db : Records} {b : CBlock} {pindex : CBlockIndex}
    {cb : CTransaction} {rest : List CTransaction} (hvtx : b.vtx = cb :: rest)
    (hcb : cb.isCoinBase = true) (hrest : ∀ tx ∈ rest, tx.isCoinBase = false) :
    coinBaseMint (blockTxs env db b pindex) = valueOut (coinbaseOf b) := by
  have hnone : rest.map (fun tx => if tx.isCoinBase then valueOut tx else 0) =
      rest.map fun _ => 0 := by
    refine map_congr_left ?_
    intro tx htx
    rw [hrest tx htx, if_neg Bool.false_ne_true]
  rw [coinbaseOf, coinBaseMint_eq, blockTxs, map_tx_located, hvtx, map_cons, sum_cons, hnone, hcb,
    if_pos rfl]
  simp

theorem stakes_of_none {ls : List Located} (h : ∀ l ∈ ls, l.tx.isCoinStake = false) :
    stakeMint env ls = 0 ∧ ∀ r, ls.foldl (fun r (l : Located) =>
      if l.tx.isCoinStake then l.minted env else r) r = r := by
  induction ls with
  | nil => exact ⟨rfl, fun _ => rfl⟩
  | cons l ls ih =>
    obtain ⟨hsum, hlast⟩ := ih (fun l' hl' => h l' (mem_cons_of_mem _ hl'))
    have hl := h l mem_cons_self
    constructor
    · unfold stakeMint at hsum ⊢
      rw [map_cons, sum_cons, hsum, hl, if_neg Bool.false_ne_true, Int.add_zero]
    · intro r
      rw [foldl_cons, hl, if_neg Bool.false_ne_true]
      exact hlast r

theorem isCoinStake_of_mem_located {pindex : CBlockIndex} {s : Positions × UInt32}
    {txs : List CTransaction} (h : ∀ tx ∈ txs, tx.isCoinStake = false) :
    ∀ l ∈ located env pindex s txs, l.tx.isCoinStake = false := by
  intro l hl
  apply h
  rw [← map_tx_located env pindex s txs]
  exact mem_map_of_mem hl

theorem lastStake_blockTxs {db : Records} {b : CBlock} {pindex : CBlockIndex}
    {cb cs : CTransaction} {rest : List CTransaction} (hvtx : b.vtx = cb :: cs :: rest)
    (hcb : cb.isCoinBase = true) (hrest : ∀ tx ∈ rest, tx.isCoinStake = false) :
    lastStake env (blockTxs env db b pindex) = stakeMint env (blockTxs env db b pindex) := by
  have hcbs := CTransaction.isCoinStake_of_isCoinBase hcb
  rw [blockTxs, hvtx, located, located]
  have hnone : ∀ l ∈ located env pindex (locateStep env pindex (locateStep env pindex
      (posBefore db b pindex) cb) cs) rest, l.tx.isCoinStake = false :=
    isCoinStake_of_mem_located hrest
  obtain ⟨hsum, hlast⟩ := stakes_of_none hnone
  unfold lastStake
  unfold stakeMint at hsum ⊢
  rw [foldl_cons, foldl_cons, hlast, map_cons, map_cons, sum_cons,
    sum_cons, hsum]
  simp only [hcbs, Bool.false_eq_true, if_false]
  split <;> omega

theorem lastStake_range {ls : List Located}
    (hin : ∀ l ∈ ls, 0 ≤ valueIn env l.posOf l.tx ∧ valueIn env l.posOf l.tx ≤ MAX_MONEY.toInt)
    (hout : ∀ l ∈ ls, 0 ≤ valueOut l.tx ∧ valueOut l.tx ≤ MAX_MONEY.toInt) :
    -MAX_MONEY.toInt ≤ lastStake env ls ∧ lastStake env ls ≤ MAX_MONEY.toInt := by
  have hmax : MAX_MONEY.toInt = 1000000000000000 := by decide
  unfold lastStake
  refine foldlRecOn (motive := fun r => -MAX_MONEY.toInt ≤ r ∧ r ≤ MAX_MONEY.toInt) ls _
    (by omega) ?_
  intro r hr l hl
  have hi := hin l hl
  have ho := hout l hl
  have hm : l.minted env = valueOut l.tx - valueIn env l.posOf l.tx := rfl
  split
  · constructor <;> omega
  · exact hr

/-! ## §3. The subsidy. -/

/-- **What a block mints.**  For every block that `ConnectBlock` accepts, the
coinbase of a proof-of-work block claims at most the subsidy and the fees, and
all outputs the block creates exceed all it spends by at most the subsidy
exactly when the block is proof-of-stake, or its coinstakes create together no
more beyond what they spend than the coinbase left unclaimed. -/
theorem minted_le_subsidy_iff {pindexBest : CBlockIndex} {mem mem' : IndexMem}
    {db db' : Records} {b : CBlock} {pindex : CBlockIndex}
    (h : connectBlock env pindexBest mem db b pindex false = .ok (mem', db')) :
    (b.isProofOfStake = false → 0 ≤ unclaimed env pindexBest db b pindex) ∧
    (minted env db b pindex ≤ subsidy pindexBest b ↔
      b.isProofOfStake = true ∨
        stakeMint env (blockTxs env db b pindex) ≤ unclaimed env pindexBest db b pindex) := by
  obtain ⟨st, hcheck, hloop, hreward, _, _⟩ := connectBlock_ok h
  have hacc := accounts_of_loop hloop
  obtain ⟨cb, rest, hvtx, hcb, hrest, hstake⟩ := checkBlock_placement hcheck
  have hcbMint : coinBaseMint (blockTxs env db b pindex) = valueOut (coinbaseOf b) :=
    coinBaseMint_blockTxs hvtx hcb hrest
  have hfees : 0 ≤ feesOf env (blockTxs env db b pindex) := feesOf_nonneg env hacc.fee_nonneg
  have hminted : minted env db b pindex = valueOut (coinbaseOf b) +
      stakeMint env (blockTxs env db b pindex) - feesOf env (blockTxs env db b pindex) := by
    rw [← hcbMint]
    exact sum_minted_eq env _
  have hnFees : st.nFees = Int64.ofInt (feesOf env (blockTxs env db b pindex)) := hacc.nFees
  unfold checkReward at hreward
  unfold unclaimed subsidy
  cases hpos : b.isProofOfStake with
  | false =>
    simp only [hpos, Bool.false_eq_true, if_false] at hreward ⊢
    obtain ⟨v, hv, hreward⟩ := bind_eq_ok.mp hreward
    rw [rejectIf_eq_ok, decide_eq_false_iff_not, gt_iff_lt, lt_iff_toInt_lt,
      (getValueOut_eq (required_eq_ok.mp hv)).2] at hreward
    unfold getProofOfWorkReward at hreward ⊢
    have hle := reward_le (proofOfWorkSubsidy_nonneg pindexBest.nHeight) hfees
    rw [hnFees] at hreward
    rw [hminted, Int64.add_zero]
    exact ⟨fun _ => by omega, ⟨fun hle' => .inr (by omega), fun hor => by
      rcases hor with hor | hor
      · cases hor
      · omega⟩⟩
  | true =>
    simp only [hpos, if_true] at hreward ⊢
    obtain ⟨hcbOut, cs, rest', hrest', hstakes⟩ := hstake hpos
    have hcbOf : valueOut (coinbaseOf b) = 0 := by
      rw [coinbaseOf, hvtx]
      exact hcbOut
    rw [hrest'] at hvtx
    have hlast : lastStake env (blockTxs env db b pindex) =
        stakeMint env (blockTxs env db b pindex) := lastStake_blockTxs hvtx hcb hstakes
    have hrange : -MAX_MONEY.toInt ≤ lastStake env (blockTxs env db b pindex) ∧
        lastStake env (blockTxs env db b pindex) ≤ MAX_MONEY.toInt :=
      lastStake_range hacc.valueIn_range hacc.valueOut_range
    have hmax : MAX_MONEY.toInt = 1000000000000000 := by decide
    have hsize : Int64.size = 18446744073709551616 := rfl
    -- the stake reward is compared as it is, since one coinstake does not overflow
    have hnStake : st.nStakeReward.toInt = stakeMint env (blockTxs env db b pindex) := by
      rw [hacc.nStakeReward, ← hlast, toInt_ofInt, hsize]
      show (lastStake env (blockTxs env db b pindex)).bmod _ = _
      exact Int.bmod_eq_of_le (by omega) (by omega)
    rw [rejectIf_eq_ok, decide_eq_false_iff_not, gt_iff_lt, lt_iff_toInt_lt, hnStake,
      hnFees] at hreward
    unfold getProofOfStakeReward at hreward ⊢
    have hle := reward_le (proofOfStakeSubsidy_nonneg pindexBest.nHeight) hfees
    rw [hminted, hcbOf, Int64.add_zero]
    exact ⟨Bool.noConfusion, ⟨fun _ => .inl trivial, fun _ => by omega⟩⟩

theorem minted_chainedBlock :
    0 ≤ unclaimed chainedEnv sampleGenesis sampleRecords chainedBlock chainedIndex ∧
      minted chainedEnv sampleRecords chainedBlock chainedIndex ≤
        subsidy sampleGenesis chainedBlock := by
  obtain ⟨r, hr⟩ := accepts_iff.mp chainedBlock_accepted
  obtain ⟨hpow, hiff⟩ := minted_le_subsidy_iff hr
  exact ⟨hpow (by decide +kernel), hiff.mpr (.inr (by decide +kernel))⟩

/-- A proof-of-work block with a coinstake behind an ordinary transaction: it
spends 500 and creates all the money there may be. -/
def strayStakeBlock : CBlock :=
  sampleBlock sampleGenesis [sampleCoinBase 1000,
    sampleTx [(sampleFunding.getHash sampleChainHashes, 1)] [290],
    sampleTx [(sampleFunding.getHash sampleChainHashes, 0)] [0, MAX_MONEY]]

/-- The block passes `CheckBlock` and `ConnectBlock` and mints more than its
subsidy. -/
theorem strayStakeBlock_mints :
    let env := sampleChainEnv [(77, sampleFunding)]
    let pindex := sampleIndex sampleGenesis strayStakeBlock 500
    accepts (checkBlock env sampleGenesis strayStakeBlock true true true) = true ∧
      accepts (connectBlock env sampleGenesis sampleMem sampleRecords strayStakeBlock pindex
        false) = true ∧
      subsidy sampleGenesis strayStakeBlock <
        minted env sampleRecords strayStakeBlock pindex := by
  decide +kernel

end Fantom.Chain
