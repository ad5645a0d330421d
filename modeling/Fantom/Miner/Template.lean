/-
  Fantom.Miner.Template — `CreateNewBlock` builds a valid list of transactions.

  * `createNewBlock_valid` — whatever it returns has a valid list and the fees of the list; on a
    connected pool it returns,
  * `parent_not_listed` — a parent that the index has too is not waited for, and a transaction with
    missing inputs leaves a pointer to a deleted object.
-/
import Fantom.Miner.Returns
import Fantom.Script.Agreement

namespace Fantom.Miner

open Core Chain Lib Pool Blocks Script

variable {D : Type} {env : MinerEnv D} {db : Records} {pool : CTxMemPool}
  {pindexPrev : CBlockIndex}

/-! ## §1. What is returned. -/

theorem collectTransactions_listing (hpool : Indexed env.H pool) {fProofOfStake : Bool}
    {nCoinbaseTime : UInt32} {st : Assembly D}
    (h : collectTransactions env fProofOfStake nCoinbaseTime db pindexPrev pool = .ok st) :
    ∃ listed, st.vtx = listed.map ListedTx.tx ∧ ValidList env db pool pindexPrev listed ∧
      st.nFees = Int64.ofInt (listed.map ListedTx.fee).sum := by
  obtain ⟨candidates, hcollect, hloop⟩ := bind_eq_ok.mp h
  obtain ⟨hplay, listed, hlisting⟩ := collectLoop_rule
    (fun s => ∃ listed, Listing env db pool pindexPrev listed s)
    (fun tx s s' hplay hin hround ⟨_, hlisting⟩ =>
      hlisting.round (hplay.known tx (List.mem_append_left _ hin)).2 hround)
    (InPlay.start (collect_ok hpool hcollect)) ⟨[], Listing.start candidates⟩ hloop
  exact ⟨listed, hlisting.vtx, hlisting.valid hpool hplay, hlisting.nFees⟩

theorem scriptOfInt_length_le {n : Nat} (h : n < 2 ^ 31) : (scriptOfInt n).length ≤ 6 := by
  unfold scriptOfInt
  split
  · exact Nat.le_add_left 1 5
  · have hbytes : (CBigNum.getvch (n : Int)).length ≤ 5 := getvch_length_le (by omega)
    rw [CScript.push, if_pos (hbytes.trans_lt (by decide)), List.length_cons]
    omega

theorem newCoinbase_scriptSig (fProofOfStake : Bool) (scriptPubKey : CScript)
    (h : pindexPrev.nHeight + 1 < 2 ^ 31) :
    (firstInput (newCoinbase env fProofOfStake (pindexPrev.nHeight + 1) scriptPubKey)).scriptSig.length
      ≤ 100 := by
  have hlen := scriptOfInt_length_le h
  cases fProofOfStake with
  | false => exact Nat.zero_le 100
  | true =>
    show (scriptOfInt _ ++ COINBASE_FLAGS).length ≤ 100
    rw [List.length_append]
    exact (Nat.add_le_add_right hlen _).trans (by decide)

theorem newCoinbase_isCoinBase (fProofOfStake : Bool) (nHeight : Nat) (scriptPubKey : CScript)
    (nFees : Int64) :
    (payCoinbase fProofOfStake pindexPrev nFees
      (newCoinbase env fProofOfStake nHeight scriptPubKey)).isCoinBase = true := by
  cases fProofOfStake with
  | false => rfl
  | true => rfl

theorem createNewBlock_ok (hpool : Indexed env.H pool) {fProofOfStake : Bool} {pblock : CBlock}
    {nFees : Int64}
    (h : createNewBlock env fProofOfStake db pindexPrev pool = .ok (some (pblock, nFees))) :
    ∃ coinbase listed, coinbase.isCoinBase = true ∧
      pblock.vtx = coinbase :: listed.map ListedTx.tx ∧
      ValidList env db pool pindexPrev listed ∧
      nFees = Int64.ofInt (listed.map ListedTx.fee).sum := by
  unfold createNewBlock at h
  split at h
  next => cases h
  next scriptPubKey _ =>
    obtain ⟨_, _, h⟩ := bind_eq_ok.mp h
    obtain ⟨st, hcollect, h⟩ := bind_eq_ok.mp h
    cases pure_eq_ok.mp h
    obtain ⟨listed, hvtx, hvalid, hfees⟩ := collectTransactions_listing hpool hcollect
    refine ⟨payCoinbase fProofOfStake pindexPrev st.nFees
      (newCoinbase env fProofOfStake (pindexPrev.nHeight + 1) scriptPubKey), listed,
      newCoinbase_isCoinBase fProofOfStake _ scriptPubKey st.nFees, ?_, hvalid, hfees⟩
    rw [fillHeader, hvtx]

/-- **The template**, for any pool with its index of spenders: what is returned is a valid
list with its fees, and a connected pool gives a block. -/
theorem createNewBlock_valid (hpool : Indexed env.H pool) (fProofOfStake : Bool) (db : Records)
    (pindexPrev : CBlockIndex) :
    (∀ pblock nFees, createNewBlock env fProofOfStake db pindexPrev pool =
        .ok (some (pblock, nFees)) →
      ∃ coinbase listed, pblock.vtx = coinbase :: listed.map ListedTx.tx ∧
        ValidList env db pool pindexPrev listed ∧
        nFees = Int64.ofInt (listed.map ListedTx.fee).sum) ∧
    (Connected env db pool → pindexPrev.nHeight + 1 < 2 ^ 31 →
      (fProofOfStake = true ∨ env.reservedScript.isSome = true) →
      ∃ pblock nFees, createNewBlock env fProofOfStake db pindexPrev pool =
        .ok (some (pblock, nFees))) := by
  constructor
  · intro pblock nFees h
    obtain ⟨coinbase, listed, _, hvtx, hvalid, hfees⟩ := createNewBlock_ok hpool h
    exact ⟨coinbase, listed, hvtx, hvalid, hfees⟩
  · intro hconnected hheight hkey
    unfold createNewBlock
    split
    next hnone =>
      rcases hkey with rfl | hsome
      · cases hnone
      · cases fProofOfStake with
        | true => cases hnone
        | false =>
          rw [if_neg (by decide)] at hnone
          rw [hnone] at hsome
          cases hsome
    next scriptPubKey _ =>
      obtain ⟨st, hcollect⟩ : ∃ st, collectTransactions env fProofOfStake
          (newCoinbase env fProofOfStake (pindexPrev.nHeight + 1) scriptPubKey).nTime db pindexPrev
          pool = .ok st := collectTransactions_returns hpool hconnected fProofOfStake _
      refine ⟨_, _, bind_eq_ok.mpr ⟨(), ?_, bind_eq_ok.mpr ⟨st, hcollect, rfl⟩⟩⟩
      rw [rejectIf_eq_ok, decide_eq_false_iff_not, Nat.not_lt]
      exact newCoinbase_scriptSig fProofOfStake scriptPubKey hheight

/-! ## §2. Sample pools. -/

def sampleDouble : DoubleArith Int where
  ofInt64 := Int64.toInt
  add := (· + ·)
  mul := (· * ·)
  div := Int.tdiv
  lt a b := decide (a < b)
  eq := (· == ·)

def minedParent : CTransaction := sampleTx [(sampleFunding.getHash sampleChainHashes, 0)] [490]

def minedChild : CTransaction := sampleTx [(minedParent.getHash sampleChainHashes, 0)] [480]

def sampleMiner : MinerEnv Int :=
  { sampleChainEnv [(77, sampleFunding), (177, minedParent)] with
    double := sampleDouble
    heap := .sorted _
    fDebug := false
    argBlockMaxSize := 500000
    argBlockPrioritySize := 50000
    argBlockMinSize := 0
    nMinTxFee := 0
    getDepthInMainChain := fun _ => 1
    getNextTargetRequired := fun _ _ => 0x1e0fffff
    reservedScript := some [OP_1] }

def poolOf (txs : List CTransaction) : CTxMemPool :=
  txs.foldl (fun pool tx => pool.addUnchecked (tx.getHash sampleChainHashes) tx) .empty

theorem poolOf_indexed {a b : CTransaction} (ha : Addable sampleChainHashes .empty a)
    (hb : Addable sampleChainHashes (poolOf [a]) b) : Indexed sampleChainHashes (poolOf [a, b]) :=
  ((empty_indexed sampleChainHashes 0).addUnchecked ha).addUnchecked hb

theorem minedPool_indexed : Indexed sampleChainHashes (poolOf [minedParent, minedChild]) :=
  poolOf_indexed ⟨by decide +kernel, by decide +kernel, by decide +kernel⟩
    ⟨by decide +kernel, by decide +kernel, by decide +kernel⟩

theorem poolOf_known {a b tx : CTransaction} {hash : UInt256}
    (h : (poolOf [a, b]).mapTx[hash]? = some tx) : tx = b ∨ tx = a := by
  rw [poolOf, List.foldl_cons, List.foldl_cons, List.foldl_nil, CTxMemPool.mapTx_addUnchecked,
    CTxMemPool.mapTx_addUnchecked] at h
  split at h
  · exact .inl (Option.some.inj h).symm
  · split at h
    · exact .inr (Option.some.inj h).symm
    · have hempty : CTxMemPool.empty.mapTx[hash]? = none := StdMap.get_empty hash
      rw [hempty] at h
      cases h

theorem minedPool_connected :
    Connected sampleMiner sampleRecords (poolOf [minedParent, minedChild]) where
  inputs hash tx h := by
    intro txin hin
    rcases poolOf_known h with rfl | rfl
    · rw [List.mem_singleton.mp hin]
      exact .inr ⟨minedParent, by decide +kernel, by decide⟩
    · rw [List.mem_singleton.mp hin]
      exact .inl (by decide +kernel)
  values hash tx h := by
    rcases poolOf_known h with rfl | rfl
    · decide
    · decide

theorem createNewBlock_valid_minedPool :
    ∃ pblock nFees coinbase listed,
      createNewBlock sampleMiner false sampleRecords sampleGenesis
        (poolOf [minedParent, minedChild]) = .ok (some (pblock, nFees)) ∧
      pblock.vtx = coinbase :: listed.map ListedTx.tx ∧
      ValidList sampleMiner sampleRecords (poolOf [minedParent, minedChild]) sampleGenesis listed ∧
      nFees = Int64.ofInt (listed.map ListedTx.fee).sum := by
  have hpool : Indexed sampleMiner.H (poolOf [minedParent, minedChild]) := minedPool_indexed
  obtain ⟨hlist, hreturns⟩ := createNewBlock_valid hpool false sampleRecords sampleGenesis
  obtain ⟨pblock, nFees, h⟩ := hreturns minedPool_connected (by decide) (.inr rfl)
  obtain ⟨coinbase, listed, hvtx, hvalid, hfees⟩ := hlist pblock nFees h
  exact ⟨pblock, nFees, coinbase, listed, h, hvtx, hvalid, hfees⟩

-- the parent goes first, and the fees are those of both
example : (createNewBlock sampleMiner false sampleRecords sampleGenesis
    (poolOf [minedParent, minedChild])).toOption.join.map (fun p => (p.1.vtx.tail, p.2)) =
      some ([minedParent, minedChild], 20) := by decide +kernel

def minedRecords : Records :=
  { Records.empty with
    tx := ((∅ : TxIndexMap).insert (sampleFunding.getHash sampleChainHashes)
        ⟨.inFile .first 0 77, [.inFile .first 0 177, .null]⟩).insert
      (minedParent.getHash sampleChainHashes) (CTxIndex.fresh (.inFile .first 0 177) 1) }

def strandedChild : CTransaction :=
  sampleTx [(minedParent.getHash sampleChainHashes, 0), (9, 0)] [480]

/-- **A parent of the pool is not waited for** when the index has it, and a child with a
missing input leaves a pointer to a deleted object, which its parent follows. -/
theorem parent_not_listed :
    (Indexed sampleMiner.H (poolOf [minedParent, minedChild]) ∧
      (poolOf [minedParent, minedChild]).mapTx[minedParent.getHash sampleMiner.H]? =
        some minedParent ∧
      (minedChild.vin.map fun txin => txin.prevout.hash) = [minedParent.getHash sampleMiner.H] ∧
      (createNewBlock sampleMiner false minedRecords sampleGenesis
        (poolOf [minedParent, minedChild])).toOption.join.map (fun p => p.1.vtx.tail) =
          some [minedChild]) ∧
    Indexed sampleMiner.H (poolOf [minedParent, strandedChild]) ∧
      createNewBlock sampleMiner false sampleRecords sampleGenesis
        (poolOf [minedParent, strandedChild]) = .error .dangling := by
  refine ⟨⟨minedPool_indexed, by decide +kernel, by decide +kernel, by decide +kernel⟩,
    poolOf_indexed ⟨by decide +kernel, by decide +kernel, by decide +kernel⟩
      ⟨by decide +kernel, by decide +kernel, by decide +kernel⟩, by decide +kernel⟩

end Fantom.Miner
