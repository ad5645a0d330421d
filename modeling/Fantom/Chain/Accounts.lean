/-
  Fantom.Chain.Accounts — The value a block creates and spends, and what the accumulators of
  `ConnectBlock` hold at each point of its loop.

  * `Accounts` — the loop invariant, `Accounts.step`, `accounts_of_loop`.
-/
import Fantom.Chain.Accepted
import Mathlib.Algebra.Order.BigOperators.Group.List
import Mathlib.Algebra.Order.Group.Int

namespace Fantom.Chain

open Core Lib List Function

/-! ## §1. Sums over a block. -/

section Sums

variable (env : ChainEnv)

/-- What a transaction creates beyond what it spends. -/
def Located.minted (l : Located) : Int := valueOut l.tx - valueIn env l.posOf l.tx

/-- What a transaction spends beyond what it creates, when that counts as a
fee. -/
def Located.fee (l : Located) : Int :=
  if l.tx.isCoinBase || l.tx.isCoinStake then 0 else -l.minted env

/-- The transactions of a block, each with the positions before it. -/
def blockTxs (db : Records) (b : CBlock) (pindex : CBlockIndex) : List Located :=
  located env pindex (posBefore db b pindex) b.vtx

/-- All outputs a block creates minus all outputs it spends. -/
def minted (db : Records) (b : CBlock) (pindex : CBlockIndex) : Int :=
  ((blockTxs env db b pindex).map (Located.minted env)).sum

variable (ls : List Located)

/-- The fees of all transactions that are neither coinbase nor coinstake. -/
def feesOf : Int := (ls.map (Located.fee env)).sum

/-- What all coinstakes together create beyond what they spend. -/
def stakeMint : Int :=
  (ls.map fun l => if l.tx.isCoinStake then l.minted env else 0).sum

/-- What the last coinstake creates beyond what it spends. -/
def lastStake : Int :=
  ls.foldl (fun r l => if l.tx.isCoinStake then l.minted env else r) 0

def coinBaseMint : Int :=
  (ls.map fun l => if l.tx.isCoinBase then valueOut l.tx else 0).sum

theorem sum_minted_eq :
    (ls.map (Located.minted env)).sum = coinBaseMint ls + stakeMint env ls - feesOf env ls := by
  unfold coinBaseMint stakeMint feesOf
  induction ls with
  | nil => rfl
  | cons l ls ih =>
    have hl : l.minted env = (if l.tx.isCoinBase then valueOut l.tx else 0) +
        (if l.tx.isCoinStake then l.minted env else 0) - l.fee env := by
      unfold Located.fee
      cases hcb : l.tx.isCoinBase with
      | true =>
        rw [CTransaction.isCoinStake_of_isCoinBase hcb]
        unfold Located.minted valueIn
        simp [hcb]
      | false =>
        cases l.tx.isCoinStake <;> simp
    simp only [map_cons, sum_cons]
    rw [ih]
    omega

theorem feesOf_nonneg {ls : List Located} (h : ∀ l ∈ ls, 0 ≤ l.fee env) : 0 ≤ feesOf env ls := by
  apply sum_nonneg
  intro x hx
  obtain ⟨l, hl, rfl⟩ := mem_map.mp hx
  exact h l hl

end Sums

variable {env : ChainEnv}

/-! ## §2. The loop invariant. -/

/-- The state of `ConnectBlock` after a prefix of the block. -/
structure Accounts (env : ChainEnv) (db : Records) (b : CBlock) (pindex : CBlockIndex)
    (done : List CTransaction) (st : ConnectState) : Prop where
  positions : (positionsOf (indexWith db st.mapQueuedChanges), st.nTxPos) =
    posAfter env pindex (posBefore db b pindex) done
  nFees : st.nFees = Int64.ofInt (feesOf env (located env pindex (posBefore db b pindex) done))
  nStakeReward : st.nStakeReward =
    Int64.ofInt (lastStake env (located env pindex (posBefore db b pindex) done))
  valueIn_range : ∀ l ∈ located env pindex (posBefore db b pindex) done,
    0 ≤ valueIn env l.posOf l.tx ∧ valueIn env l.posOf l.tx ≤ MAX_MONEY.toInt
  valueOut_range : ∀ l ∈ located env pindex (posBefore db b pindex) done,
    0 ≤ valueOut l.tx ∧ valueOut l.tx ≤ MAX_MONEY.toInt
  fee_nonneg : ∀ l ∈ located env pindex (posBefore db b pindex) done, 0 ≤ l.fee env

theorem positionsOf_claimInputs {m m' : TxIndexMap} {pos : CDiskTxPos} {tx : CTransaction}
    (h : claimInputs m pos tx = some m') : positionsOf m' = positionsOf m := by
  unfold claimInputs at h
  split at h
  · cases h
    rfl
  · refine txCells.claim_invariant (P := fun t => positionsOf t = positionsOf m) ?_ h rfl
    intro s o v hs
    rw [← hs]
    exact positionsOf_writeSpent s o v

theorem positionsOf_insert (m : TxIndexMap) (h : UInt256) (pos : CDiskTxPos) (n : Nat) :
    positionsOf (m.insert h (CTxIndex.fresh pos n)) =
      update (positionsOf m) h (some pos) := by
  funext k
  unfold positionsOf
  rw [StdMap.get_insert]
  by_cases hk : h = k
  · rw [if_pos hk, hk, update_self]
    rfl
  · rw [if_neg hk, update_of_ne (Ne.symm hk)]

theorem Accounts.init (db : Records) (b : CBlock) (pindex : CBlockIndex) :
    Accounts env db b pindex [] (ConnectState.init b pindex false) where
  positions := by
    show (positionsOf (StdMap.overlay db.tx ∅), _) = posBefore db b pindex
    rw [StdMap.overlay_empty]
    rfl
  nFees := rfl
  nStakeReward := rfl
  valueIn_range := nofun
  valueOut_range := nofun
  fee_nonneg := nofun

theorem Accounts.step {db : Records} {b : CBlock} {pindex : CBlockIndex}
    {done : List CTransaction} {st st' : ConnectState} {tx : CTransaction}
    (hI : Accounts env db b pindex done st) (h : TxConnected env db pindex st st' tx) :
    Accounts env db b pindex (done ++ [tx]) st' := by
  have hpositions : positionsOf (indexWith db st.mapQueuedChanges) =
      (posAfter env pindex (posBefore db b pindex) done).1 := congrArg Prod.fst hI.positions
  have hconcat := located_concat env pindex (posBefore db b pindex) done tx
  rw [← hpositions] at hconcat
  obtain ⟨m, hclaim, hindex⟩ := h.index
  refine ⟨?_, ?_, ?_, ?_, ?_, ?_⟩
  · rw [posAfter_concat, ← hI.positions, hindex, positionsOf_insert,
      positionsOf_claimInputs hclaim, h.nTxPos]
    rfl
  · rw [hconcat, h.nFees, hI.nFees]
    unfold feesOf
    rw [map_append, sum_append, map_cons, map_nil, sum_cons, sum_nil,
      Int.add_zero]
    unfold Located.fee Located.minted
    dsimp only
    split
    · rw [Int.add_zero]
    · rw [← Int64.ofInt_add]
      congr 1
      omega
  · rw [hconcat, h.nStakeReward, hI.nStakeReward]
    unfold lastStake
    rw [foldl_append, foldl_cons, foldl_nil]
    unfold Located.minted
    dsimp only
    split <;> rfl
  · intro l hl
    rw [hconcat, mem_append, mem_singleton] at hl
    rcases hl with hl | rfl
    · exact hI.valueIn_range l hl
    · exact h.valueIn_range
  · intro l hl
    rw [hconcat, mem_append, mem_singleton] at hl
    rcases hl with hl | rfl
    · exact hI.valueOut_range l hl
    · exact h.valueOut_range
  · intro l hl
    rw [hconcat, mem_append, mem_singleton] at hl
    rcases hl with hl | rfl
    · exact hI.fee_nonneg l hl
    · unfold Located.fee Located.minted
      dsimp only
      split
      next => exact Int.le_refl 0
      next hkind =>
        simp only [Bool.or_eq_true, not_or, Bool.not_eq_true] at hkind
        have := h.enough hkind.1 hkind.2
        omega

theorem accounts_of_loop {db : Records} {b : CBlock} {pindex : CBlockIndex} {fVerify : Bool}
    {st : ConnectState} (h : b.vtx.foldlM (connectTx env db pindex false fVerify)
      (.init b pindex false) = .ok st) : Accounts env db b pindex b.vtx st := by
  refine foldlM_rule (Accounts env db b pindex) (Accounts.init db b pindex) ?_ h
  intro done tx rest s s' _ hI hstep
  exact hI.step (connectTx_ok hstep)

/-! ## §3. Placement. -/

theorem checkBlock_placement {pindexBest : CBlockIndex} {b : CBlock} {fPOW fRoot fSig : Bool}
    (h : checkBlock env pindexBest b fPOW fRoot fSig = .ok ()) :
    ∃ cb rest, b.vtx = cb :: rest ∧ cb.isCoinBase = true ∧
      (∀ tx ∈ rest, tx.isCoinBase = false) ∧
      (b.isProofOfStake = true → valueOut cb = 0 ∧
        ∃ cs rest', rest = cs :: rest' ∧ ∀ tx ∈ rest', tx.isCoinStake = false) := by
  have hpasses := checkBlock_eq_ok.mp h
  obtain ⟨⟨hne, _, _⟩, _⟩ := checkHead_eq_ok.mp hpasses.head
  have hplace := hpasses.placement
  unfold checkPlacement at hplace
  obtain ⟨_, hfirst, hplace⟩ := bind_eq_ok.mp hplace
  obtain ⟨_, hothers, hplace⟩ := bind_eq_ok.mp hplace
  rw [rejectIf_eq_ok] at hfirst hothers
  cases hvtx : b.vtx with
  | nil => exact absurd hvtx hne
  | cons cb rest =>
    rw [hvtx] at hothers
    have hcb : coinbaseOf b = cb := by
      rw [coinbaseOf, hvtx]
      rfl
    rw [hcb] at hfirst hplace
    refine ⟨cb, rest, rfl, by simpa using hfirst, ?_, ?_⟩
    · intro tx htx
      have := any_eq_false.mp hothers tx htx
      simpa using this
    · intro hpos
      rw [hpos, if_pos rfl] at hplace
      obtain ⟨_, hempty, hplace⟩ := bind_eq_ok.mp hplace
      obtain ⟨_, hsecond, hplace⟩ := bind_eq_ok.mp hplace
      rw [rejectIf_eq_ok] at hempty hsecond hplace
      constructor
      · -- every output of the coinbase is the empty marker
        have hall : ∀ txout ∈ cb.vout, txout.nValue.toInt = 0 := by
          rw [Bool.or_eq_false_iff, Bool.not_eq_false', all_eq_true] at hempty
          intro txout hout
          have := hempty.2 txout hout
          rw [CTxOut.isEmpty, Bool.and_eq_true, beq_iff_eq] at this
          rw [this.1]
          rfl
        rw [valueOut, map_congr_left hall]
        simp
      · rw [hvtx] at hsecond hplace
        cases rest with
        | nil => cases hsecond
        | cons cs rest' =>
          refine ⟨cs, rest', rfl, ?_⟩
          intro tx htx
          have := any_eq_false.mp hplace tx htx
          simpa using this

end Fantom.Chain
