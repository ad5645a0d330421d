/-
  Fantom.Miner.Listed — The transactions that `CreateNewBlock` has put into the block, each with
  what it was accepted with.

  * `Listing` — the invariant of the second loop, with `Listing.round`,
  * `Listing.valid` — the listing of the miner is valid.
-/
import Fantom.Chain.Accepted
import Fantom.Miner.InPlay
import Fantom.Miner.SigOpBounds

namespace Fantom.Miner

open Core Chain Lib Pool List Option Bool

/-! ## §1. Previous transactions. -/

variable {inputs : MapPrevTx} {listed : List ListedTx}

section Inputs

variable {env : ChainEnv} {db : Records} {m m' : TxIndexMap} {tx : CTransaction}

theorem fetchInput_ok {s s' : MapPrevTx} {txin : CTxIn}
    (h : fetchInput env db m false true s txin = .ok s') :
    (∀ hash, s.contains hash = true → s'.contains hash = true) ∧
      s'.contains txin.prevout.hash = true ∧
      ∀ hash, s'.contains hash = true → s.contains hash = true ∨
        (readQueued db m true hash).isSome = true := by
  unfold fetchInput at h
  split at h
  next hgot =>
    cases h
    exact ⟨fun _ hin => hin, hgot, fun _ hin => .inl hin⟩
  next =>
    split at h
    next txindex hread =>
      obtain ⟨txPrev, _, h⟩ := bind_eq_ok.mp h
      cases pure_eq_ok.mp h
      refine ⟨fun hash hin => ?_, ?_, fun hash hin => ?_⟩
      · rw [Std.ExtTreeMap.contains_insert, hin, Bool.or_true]
      · exact Std.ExtTreeMap.contains_insert_self
      · rw [Std.ExtTreeMap.contains_insert, or_eq_true] at hin
        refine hin.symm.imp_right fun heq => ?_
        rw [← Std.LawfulEqCmp.eq_of_compare (beq_iff_eq.mp heq)]
        exact isSome_of_eq_some hread
    next =>
      obtain ⟨_, hminer, _⟩ := bind_eq_ok.mp h
      rw [rejectIf_eq_ok] at hminer
      cases hminer

theorem fetchLoop_keys {txins : List CTxIn}
    (h : txins.foldlM (fetchInput env db m false true) ∅ = .ok inputs) :
    (∀ txin ∈ txins, inputs.contains txin.prevout.hash = true) ∧
      ∀ hash, inputs.contains hash = true → (readQueued db m true hash).isSome = true := by
  refine foldlM_rule (fun done (s : MapPrevTx) =>
    (∀ txin ∈ done, s.contains txin.prevout.hash = true) ∧
      ∀ hash, s.contains hash = true → (readQueued db m true hash).isSome = true) ?_ ?_ h
  · refine ⟨forall_mem_nil _, fun hash hin => ?_⟩
    rw [Std.ExtTreeMap.contains_empty] at hin
    cases hin
  · intro done txin rest s s' _ hs hstep
    obtain ⟨hold, hnew, hread⟩ := fetchInput_ok hstep
    exact ⟨forall_mem_append.mpr ⟨fun other hin => hold _ (hs.1 other hin),
      forall_mem_singleton.mpr hnew⟩, fun hash hin => (hread hash hin).elim (hs.2 hash) id⟩

/-- **`FetchInputs` in the miner** finds every previous transaction in the index or in
`mapTestPool`, with the output that is spent. -/
theorem fetchInputs_found (hcoinbase : tx.isCoinBase = false)
    (h : fetchInputs env db m false true tx ∅ = .ok inputs) :
    ∀ txin ∈ tx.vin, (readQueued db m true txin.prevout.hash).isSome = true ∧
      ∃ txindex txPrev, inputs[txin.prevout.hash]? = some (txindex, txPrev) ∧
        txin.prevout.n.toNat < txPrev.vout.length ∧
        txin.prevout.n.toNat < txindex.vSpent.length := by
  rw [fetchInputs, hcoinbase, if_neg Bool.false_ne_true] at h
  obtain ⟨s, hloop, h⟩ := bind_eq_ok.mp h
  obtain ⟨_, hchecks, h⟩ := bind_eq_ok.mp h
  cases pure_eq_ok.mp h
  obtain ⟨hfound, hread⟩ := fetchLoop_keys hloop
  intro txin hin
  refine ⟨hread _ (hfound txin hin), ?_⟩
  have hcheck := forM_eq_ok.mp hchecks txin hin
  unfold checkPrevout at hcheck
  obtain ⟨⟨txindex, txPrev⟩, hget, hrange⟩ := bind_eq_ok.mp hcheck
  rw [rejectIf_eq_ok, or_eq_false_iff, decide_eq_false_iff_not, decide_eq_false_iff_not,
    Nat.not_le, Nat.not_le] at hrange
  exact ⟨txindex, txPrev, required_eq_ok.mp hget, hrange.1, hrange.2⟩

theorem connectInputs_keys {pos : CDiskTxPos} {pindexBlock : CBlockIndex}
    {fBlock fMiner fVerify : Bool} {flags : UInt32}
    (h : connectInputs env tx inputs m pos pindexBlock fBlock fMiner flags fVerify = .ok m') :
    ∀ hash, m'.contains hash = true →
      m.contains hash = true ∨ ∃ txin ∈ tx.vin, txin.prevout.hash = hash := by
  unfold connectInputs at h
  split at h
  · cases h
    exact fun _ hin => .inl hin
  obtain ⟨_, _, h⟩ := bind_eq_ok.mp h
  obtain ⟨st, hloop, h⟩ := bind_eq_ok.mp h
  obtain ⟨_, _, h⟩ := bind_eq_ok.mp h
  cases pure_eq_ok.mp h
  refine foldlM_invariant (f := spendInput env tx pos fBlock fMiner fVerify flags)
    (fun st : MapPrevTx × TxIndexMap => ∀ hash, st.2.contains hash = true →
      m.contains hash = true ∨ ∃ txin ∈ tx.vin, txin.prevout.hash = hash)
    (fun _ hin => .inl hin) ?_ hloop
  rintro ⟨txin, nIn⟩ hmem s s' hs hstep hash hin
  unfold spendInput at hstep
  obtain ⟨⟨txindex, txPrev⟩, _, hstep⟩ := bind_eq_ok.mp hstep
  obtain ⟨spent, _, hstep⟩ := bind_eq_ok.mp hstep
  obtain ⟨_, _, hstep⟩ := bind_eq_ok.mp hstep
  obtain ⟨_, _, hstep⟩ := bind_eq_ok.mp hstep
  cases pure_eq_ok.mp hstep
  dsimp only at hin
  split at hin
  · rw [Std.ExtTreeMap.contains_insert, or_eq_true] at hin
    refine hin.elim (fun heq => .inr ⟨txin, ?_, ?_⟩) (hs hash)
    · exact (mem_zipIdx' hmem).2 ▸ getElem_mem _
    · exact Std.LawfulEqCmp.eq_of_compare (beq_iff_eq.mp heq)
  · exact hs hash hin

end Inputs

/-! ## §2. Valid lists. -/

variable {D : Type} (env : MinerEnv D) (db : Records) (pool : CTxMemPool)
  (pindexPrev : CBlockIndex)

/-- A transaction of the block, with its previous transactions and with `mapTestPool` after
it. -/
structure ListedTx where
  tx : CTransaction
  mapInputs : MapPrevTx
  mapTestPool : TxIndexMap

def inputValue (mapInputs : MapPrevTx) (txin : CTxIn) : Int :=
  ((getOutputFor mapInputs txin).map fun txout => txout.nValue.toInt).getD 0

/-- The value of the inputs minus the value of the outputs. -/
def ListedTx.fee (l : ListedTx) : Int :=
  (l.tx.vin.map (inputValue l.mapInputs)).sum - valueOut l.tx

/-- The legacy signature operations and those of the redeem scripts. -/
def ListedTx.sigOps (l : ListedTx) : Nat :=
  l.tx.getLegacySigOpCount.toNat + ((getP2SHSigOpCount l.tx l.mapInputs).getD 0).toNat

/-- `mapTestPool` after some transactions. -/
def testPoolAfter (listed : List ListedTx) : TxIndexMap :=
  (listed.getLast?.map ListedTx.mapTestPool).getD ∅

/-- `FetchInputs` and `ConnectInputs` accept a transaction on top of the index and of
`mapTestPool`. -/
structure AcceptedOn (mapTestPool : TxIndexMap) (l : ListedTx) : Prop where
  fetched : fetchInputs (withPool env.toChainEnv pool) db mapTestPool false true l.tx ∅ =
    .ok l.mapInputs
  connected : ∃ mapConnected, connectInputs env.toChainEnv l.tx l.mapInputs mapTestPool .inMempool
      pindexPrev false true MANDATORY_SCRIPT_VERIFY_FLAGS true = .ok mapConnected ∧
    l.mapTestPool =
      mapConnected.insert (l.tx.getHash env.H) (.fresh .inMempool l.tx.vout.length)

/-- Every transaction of a list is accepted on top of those before it. -/
def AllAccepted (listed : List ListedTx) : Prop :=
  ∀ done l rest, listed = done ++ l :: rest →
    AcceptedOn env db pool pindexPrev (testPoolAfter done) l

/-- **A valid list** of transactions for a block. -/
structure ValidList (listed : List ListedTx) : Prop where
  fromPool : ∀ l ∈ listed, pool.mapTx[l.tx.getHash env.H]? = some l.tx
  accepted : AllAccepted env db pool pindexPrev listed
  /-- What is not in the index stands before it. -/
  parentsFirst : ∀ done l rest, listed = done ++ l :: rest → ∀ txin ∈ l.tx.vin,
    db.readTxIndex txin.prevout.hash = none →
      ∃ parent ∈ done, parent.tx.getHash env.H = txin.prevout.hash
  spentOnce : (listed.flatMap fun l => outpoints l.tx).Nodup
  size : (listed.map fun l => l.tx.getSerializeSize).sum < env.nBlockMaxSize
  sigOps : (listed.map ListedTx.sigOps).sum < MAX_BLOCK_SIGOPS.toNat

variable {env db pool pindexPrev}

theorem testPoolAfter_concat (done : List ListedTx) (l : ListedTx) :
    testPoolAfter (done ++ [l]) = l.mapTestPool := by
  rw [testPoolAfter, getLast?_concat]
  rfl

theorem AllAccepted.nil : AllAccepted env db pool pindexPrev [] := by
  intro done l rest h
  cases done <;> cases h

theorem AllAccepted.concat {l : ListedTx} (h : AllAccepted env db pool pindexPrev listed)
    (hl : AcceptedOn env db pool pindexPrev (testPoolAfter listed) l) :
    AllAccepted env db pool pindexPrev (listed ++ [l]) := by
  intro done l' rest heq
  rcases eq_nil_or_concat rest with rfl | ⟨rest, last, rfl⟩
  · obtain ⟨rfl, hlast⟩ := append_inj' heq rfl
    cases hlast
    exact hl
  · rw [concat_eq_append, ← cons_append, ← append_assoc] at heq
    exact h done l' rest (append_inj' heq rfl).1

theorem AllAccepted.take {done rest : List ListedTx}
    (h : AllAccepted env db pool pindexPrev (done ++ rest)) :
    AllAccepted env db pool pindexPrev done := by
  intro done' l rest' heq
  refine h done' l (rest' ++ rest) ?_
  rw [heq, append_assoc, cons_append]

theorem AllAccepted.keys (h : AllAccepted env db pool pindexPrev listed)
    (hkind : ∀ l ∈ listed, l.tx.isCoinBase = false) {hash : UInt256}
    (hin : (testPoolAfter listed).contains hash = true) :
    (db.readTxIndex hash).isSome = true ∨ ∃ l ∈ listed, l.tx.getHash env.H = hash := by
  induction listed using reverseRecOn with
  | nil =>
    rw [testPoolAfter, getLast?_nil, map_none, getD_none,
      Std.ExtTreeMap.contains_empty] at hin
    cases hin
  | append_singleton done l ih =>
    have hearlier (hkey : (testPoolAfter done).contains hash = true) :
        (db.readTxIndex hash).isSome = true ∨
          ∃ l' ∈ done ++ [l], l'.tx.getHash env.H = hash :=
      (ih h.take (fun l' hl' => hkind l' (mem_append_left _ hl')) hkey).imp_right
        fun ⟨l', hl', heq⟩ => ⟨l', mem_append_left _ hl', heq⟩
    have haccepted := h done l [] rfl
    obtain ⟨mapConnected, hconnect, hmap⟩ := haccepted.connected
    rw [testPoolAfter_concat, hmap, Std.ExtTreeMap.contains_insert, or_eq_true] at hin
    rcases hin with heq | hin
    · refine .inr ⟨l, mem_append_right _ (mem_singleton_self l), ?_⟩
      exact Std.LawfulEqCmp.eq_of_compare (beq_iff_eq.mp heq)
    rcases connectInputs_keys hconnect hash hin with hold | ⟨txin, htxin, rfl⟩
    · exact hearlier hold
    -- the entry of an input is a copy of one in the queue or in the index
    have hread := (fetchInputs_found (hkind l (mem_append_right _
      (mem_singleton_self l))) haccepted.fetched txin htxin).1
    rw [readQueued, if_pos rfl, isSome_or, or_eq_true] at hread
    rcases hread with hqueued | hindex
    · exact hearlier (by rw [StdMap.contains_eq]; exact hqueued)
    · exact .inl hindex

/-- **Parents stand before their children**, unless the index has them. -/
theorem AllAccepted.parentsFirst {done rest : List ListedTx} {l : ListedTx}
    (h : AllAccepted env db pool pindexPrev (done ++ l :: rest))
    (hkind : ∀ l' ∈ done ++ l :: rest, l'.tx.isCoinBase = false) {txin : CTxIn}
    (htxin : txin ∈ l.tx.vin) (hindex : db.readTxIndex txin.prevout.hash = none) :
    ∃ parent ∈ done, parent.tx.getHash env.H = txin.prevout.hash := by
  have hl := hkind l (mem_append_right _ mem_cons_self)
  have hread := (fetchInputs_found hl (h done l rest rfl).fetched txin htxin).1
  rw [readQueued, if_pos rfl, hindex, or_none, ← StdMap.contains_eq] at hread
  have hdone : ∀ l' ∈ done, l'.tx.isCoinBase = false :=
    fun l' hl' => hkind l' (mem_append_left _ hl')
  rcases h.take.keys hdone hread with hfound | hparent
  · rw [hindex] at hfound
    cases hfound
  · exact hparent

/-- **No outpoint is spent twice**: the pool has one spender of each. -/
theorem outpoints_nodup {H : Hashes} (hpool : Indexed H pool) {txs : List CTransaction}
    (hknown : ∀ tx ∈ txs, pool.mapTx[tx.getHash H]? = some tx)
    (hnodup : (txs.map (CTransaction.getHash H)).Nodup) : (txs.flatMap outpoints).Nodup := by
  rw [nodup_flatMap]
  constructor
  · -- the two inputs would have the same entry of `mapNextTx`
    intro tx htx
    rw [nodup_iff_getElem?_ne_getElem?]
    intro i j hij hj heq
    unfold outpoints at hj heq
    rw [length_map] at hj
    have hget (n : Nat) (hn : n < tx.vin.length) : pool.mapNextTx[tx.vin[n].prevout]? =
        some ⟨tx.getHash H, n⟩ :=
      (hpool.spenders _ ⟨tx.getHash H, n⟩).mpr
        ⟨tx, tx.vin[n], hknown tx htx, getElem?_eq_getElem hn, rfl⟩
    have hi : i < tx.vin.length := hij.trans hj
    rw [getElem?_map, getElem?_map, getElem?_eq_getElem hi,
      getElem?_eq_getElem hj] at heq
    have hsame := hget i hi
    rw [Option.some.inj heq, hget j hj] at hsame
    cases hsame
    exact Nat.lt_irrefl _ hij
  · refine (pairwise_map.mp hnodup).imp_of_mem fun htx htx' hne o ho ho' => hne ?_
    exact hpool.spender_unique (hknown _ htx) (hknown _ htx') ho ho'

/-! ## §3. The invariant of the loop. -/

/-- **The block lists** these transactions. -/
structure Listing (env : MinerEnv D) (db : Records) (pool : CTxMemPool)
    (pindexPrev : CBlockIndex) (listed : List ListedTx) (st : Assembly D) : Prop where
  vtx : st.vtx = listed.map ListedTx.tx
  accepted : AllAccepted env db pool pindexPrev listed
  mapTestPool : st.mapTestPool = testPoolAfter listed
  nBlockSize : st.nBlockSize = 1000 + (listed.map fun l => l.tx.getSerializeSize).sum
  small : (listed.map fun l => l.tx.getSerializeSize).sum < env.nBlockMaxSize
  nBlockSigOps : st.nBlockSigOps.toNat = 100 + (listed.map ListedTx.sigOps).sum
  few : st.nBlockSigOps < MAX_BLOCK_SIGOPS
  nFees : st.nFees = Int64.ofInt (listed.map ListedTx.fee).sum

theorem nBlockMaxSize_pos (env : MinerEnv D) : 1000 ≤ env.nBlockMaxSize := Nat.le_max_left _ _

theorem nBlockMaxSize_le (env : MinerEnv D) : env.nBlockMaxSize ≤ MAX_BLOCK_SIZE := by
  unfold MinerEnv.nBlockMaxSize MAX_BLOCK_SIZE
  omega

theorem Listing.start (st : Candidates D) :
    Listing env db pool pindexPrev [] (startAssembly env st) where
  vtx := rfl
  accepted := .nil
  mapTestPool := rfl
  nBlockSize := rfl
  small := (nBlockMaxSize_pos env).trans_lt' (by decide)
  nBlockSigOps := rfl
  few := by
    show (100 : UInt32) < MAX_BLOCK_SIGOPS
    decide
  nFees := rfl

theorem sigOps_add {tx : CTransaction} {nBlockSigOps nP2SHSigOps : UInt32}
    (hsize : tx.getSerializeSize < MAX_BLOCK_SIZE) (hfew : nBlockSigOps < MAX_BLOCK_SIGOPS)
    (hp2sh : getP2SHSigOpCount tx inputs = some nP2SHSigOps) :
    (nBlockSigOps + (tx.getLegacySigOpCount + nP2SHSigOps)).toNat =
      nBlockSigOps.toNat + (tx.getLegacySigOpCount.toNat + nP2SHSigOps.toNat) := by
  have hlegacy := getLegacySigOpCount_le tx
  have hredeem := getP2SHSigOpCount_le hp2sh
  have hmax : nBlockSigOps.toNat < 400000 := UInt32.lt_iff_toNat_lt.mp hfew
  unfold MAX_BLOCK_SIZE at hsize
  rw [UInt32.toNat_add, UInt32.toNat_add, Nat.mod_eq_of_lt (a := tx.getLegacySigOpCount.toNat + _),
    Nat.mod_eq_of_lt]
  · omega
  · omega

theorem spendInputs_ok {tx : CTransaction} {st : Assembly D} {spent : Spent}
    (hcoinbase : tx.isCoinBase = false)
    (h : spendInputs env db pool pindexPrev st tx = .ok spent) :
    ∃ l : ListedTx, l.tx = tx ∧ AcceptedOn env db pool pindexPrev st.mapTestPool l ∧
      spent.mapTestPool = l.mapTestPool ∧ spent.nTxFees = Int64.ofInt l.fee ∧
      (∃ nP2SHSigOps, getP2SHSigOpCount tx l.mapInputs = some nP2SHSigOps ∧
        spent.nTxSigOps = tx.getLegacySigOpCount + nP2SHSigOps) ∧
      st.nBlockSigOps + spent.nTxSigOps < MAX_BLOCK_SIGOPS := by
  unfold spendInputs at h
  obtain ⟨mapInputs, hfetch, h⟩ := bind_eq_ok.mp h
  obtain ⟨nValueIn, hvalueIn, h⟩ := bind_eq_ok.mp h
  obtain ⟨nValueOut, hvalueOut, h⟩ := bind_eq_ok.mp h
  obtain ⟨nP2SHSigOps, hp2sh, h⟩ := bind_eq_ok.mp h
  obtain ⟨_, hlimit, h⟩ := bind_eq_ok.mp h
  obtain ⟨mapConnected, hconnect, h⟩ := bind_eq_ok.mp h
  cases pure_eq_ok.mp h
  rw [required_eq_ok] at hvalueIn hvalueOut hp2sh
  rw [rejectIf_eq_ok, decide_eq_false_iff_not] at hlimit
  refine ⟨⟨tx, mapInputs, _⟩, rfl, ⟨hfetch, mapConnected, hconnect, rfl⟩, rfl, ?_,
    ⟨nP2SHSigOps, hp2sh, rfl⟩, UInt32.not_le.mp hlimit⟩
  have hin : nValueIn = Int64.ofInt (tx.vin.map (inputValue mapInputs)).sum := by
    refine getValueIn_sum (fun txin txout hout => ?_) hcoinbase hvalueIn
    rw [inputValue, hout]
    rfl
  show nValueIn - nValueOut = Int64.ofInt (_ - valueOut tx)
  rw [Int64.ofInt_sub, hin, eq_ofInt_valueOut hvalueOut]

/-- **One more transaction** is listed when a round puts it into the block. -/
theorem Listing.round {tx : CTransaction} {st st' : Assembly D} (hcoinbase : tx.isCoinBase = false)
    (h : Listing env db pool pindexPrev listed st)
    (hround : Round env db pool pindexPrev tx st st') :
    ∃ listed', Listing env db pool pindexPrev listed' st' := by
  rcases hround.block with hsame | ⟨spent, hsize, hspend, hadd⟩
  · simp only [Assembly.block, Prod.mk.injEq] at hsame
    obtain ⟨hmap, hblockSize, hsigOps, hvtx, hfees⟩ := hsame
    exact ⟨listed, hvtx.trans h.vtx, h.accepted, hmap.trans h.mapTestPool,
      hblockSize.trans h.nBlockSize, h.small, hsigOps ▸ h.nBlockSigOps, hsigOps ▸ h.few,
      hfees.trans h.nFees⟩
  · simp only [Assembly.block, Assembly.add, Prod.mk.injEq] at hadd
    obtain ⟨hmap, hblockSize, hsigOps, hvtx, hfees⟩ := hadd
    obtain ⟨l, rfl, haccepted, hpool, hfee, ⟨nP2SHSigOps, hp2sh, hops⟩, hlimit⟩ :=
      spendInputs_ok hcoinbase hspend
    rw [h.nBlockSize] at hsize
    have hmax := nBlockMaxSize_le env
    have hcount : st'.nBlockSigOps.toNat = st.nBlockSigOps.toNat + l.sigOps := by
      rw [ListedTx.sigOps, hsigOps, hops, sigOps_add (by omega) h.few hp2sh, hp2sh]
      rfl
    refine ⟨listed ++ [l], ?_, ?_, ?_, ?_, ?_, ?_, ?_, ?_⟩
    · rw [hvtx, h.vtx, map_append, map_singleton]
    · exact h.accepted.concat (h.mapTestPool ▸ haccepted)
    · rw [hmap, hpool, testPoolAfter_concat]
    · rw [hblockSize, h.nBlockSize, map_append, sum_append, map_singleton,
        sum_singleton, Nat.add_assoc]
    · rw [map_append, sum_append, map_singleton, sum_singleton]
      omega
    · rw [hcount, h.nBlockSigOps, map_append, sum_append, map_singleton,
        sum_singleton, Nat.add_assoc]
    · rw [hsigOps]
      exact hlimit
    · rw [hfees, hfee, h.nFees, map_append, sum_append, map_singleton,
        sum_singleton, Int64.ofInt_add]

theorem Listing.valid {st : Assembly D} (hpool : Indexed env.H pool) (hplay : InPlay env pool st)
    (h : Listing env db pool pindexPrev listed st) :
    ValidList env db pool pindexPrev listed := by
  have hknown : ∀ l ∈ listed, pool.mapTx[l.tx.getHash env.H]? = some l.tx ∧
      l.tx.isCoinBase = false := by
    intro l hl
    refine hplay.known l.tx (mem_append_right _ ?_)
    rw [h.vtx]
    exact mem_map_of_mem hl
  have hkind : ∀ l ∈ listed, l.tx.isCoinBase = false := fun l hl => (hknown l hl).2
  refine ⟨fun l hl => (hknown l hl).1, h.accepted, ?_, ?_, h.small, ?_⟩
  · rintro done l rest rfl txin htxin hindex
    exact h.accepted.parentsFirst hkind htxin hindex
  · have hnodup := hplay.nodup
    rw [map_append, nodup_append, h.vtx] at hnodup
    rw [← flatMap_map ListedTx.tx outpoints]
    refine outpoints_nodup hpool (fun tx htx => ?_) hnodup.2.1
    obtain ⟨l, hl, rfl⟩ := mem_map.mp htx
    exact (hknown l hl).1
  · have hfew := UInt32.lt_iff_toNat_lt.mp h.few
    rw [h.nBlockSigOps] at hfew
    omega

end Fantom.Miner
