/-
  Fantom.Pool.Orphans — Transactions that wait for their parents, and what the maps of them hold
  after any calls.

  * `OrphanCall`, `Orphans.step` — the three functions that change the maps,
  * `orphanMaps_agree` — the maps after every sequence of calls.
-/
import Fantom.Pool.Accept

namespace Fantom.Pool

open Core Chain Lib StdMap

/-! ## §1. The maps. -/

/-- The ids of the transactions whose outputs a transaction spends. -/
def prevIds (tx : CTransaction) : List UInt256 := tx.vin.map fun txin => txin.prevout.hash

/-- The orphans under their ids, and under the ids of their previous
transactions. -/
structure Orphans (H : Hashes) where
  mapOrphanTransactions : StdMap UInt256 CTransaction
  mapOrphanTransactionsByPrev : StdMap UInt256 (StdSet UInt256)
  ids : ∀ (h : UInt256) (t : CTransaction), mapOrphanTransactions[h]? = some t → t.getHash H = h
  byPrev : ∀ (p h : UInt256), h ∈ StdMap.setAt mapOrphanTransactionsByPrev p ↔
    ∃ t, mapOrphanTransactions[h]? = some t ∧ p ∈ prevIds t

namespace Orphans

variable {H : Hashes}

def empty : Orphans H where
  mapOrphanTransactions := ∅
  mapOrphanTransactionsByPrev := ∅
  ids h t ht := by
    rw [get_empty] at ht
    cases ht
  byPrev p h := by simp [StdMap.setAt]

theorem mem_insertPrevs {m : StdMap UInt256 (StdSet UInt256)} {hash p h : UInt256}
    {vin : List CTxIn} :
    h ∈ StdMap.setAt
        (vin.foldl (fun m txin => StdMap.insertAt m txin.prevout.hash hash) m) p ↔
      (hash = h ∧ p ∈ vin.map fun txin => txin.prevout.hash) ∨ h ∈ StdMap.setAt m p := by
  induction vin generalizing m with
  | nil => simp
  | cons txin vin ih =>
    rw [List.foldl_cons, ih, mem_insertAt, List.map_cons, List.mem_cons, eq_comm (a := p)]
    tauto

theorem mem_erasePrevs {m : StdMap UInt256 (StdSet UInt256)} {hash p h : UInt256}
    {vin : List CTxIn} :
    h ∈ StdMap.setAt
        (vin.foldl (fun m txin => StdMap.eraseAt m txin.prevout.hash hash) m) p ↔
      ¬ (hash = h ∧ p ∈ vin.map fun txin => txin.prevout.hash) ∧ h ∈ StdMap.setAt m p := by
  induction vin generalizing m with
  | nil => simp
  | cons txin vin ih =>
    rw [List.foldl_cons, ih, mem_eraseAt, List.map_cons, List.mem_cons, eq_comm (a := p)]
    tauto

/-- `AddOrphanTx`, past its two tests. -/
def insert (orphans : Orphans H) (tx : CTransaction)
    (hnew : orphans.mapOrphanTransactions[tx.getHash H]? = none) : Orphans H where
  mapOrphanTransactions := orphans.mapOrphanTransactions.insert (tx.getHash H) tx
  mapOrphanTransactionsByPrev := tx.vin.foldl
    (fun m txin => StdMap.insertAt m txin.prevout.hash (tx.getHash H))
    orphans.mapOrphanTransactionsByPrev
  ids h t ht := by
    rw [get_insert] at ht
    split at ht
    next hh =>
      cases ht
      exact hh
    next => exact orphans.ids h t ht
  byPrev p h := by
    rw [mem_insertPrevs, orphans.byPrev, get_insert]
    by_cases hh : tx.getHash H = h
    · subst hh
      simp [hnew, prevIds]
    · simp [hh]

variable (orphans : Orphans H)

def addOrphanTx (tx : CTransaction) : Orphans H :=
  if hnew : orphans.mapOrphanTransactions[tx.getHash H]? = none then
    if tx.getSerializeSize > 5000 then orphans else orphans.insert tx hnew
  else orphans

/-- `EraseOrphanTx` -/
def eraseOrphanTx (hash : UInt256) : Orphans H :=
  match hstored : orphans.mapOrphanTransactions[hash]? with
  | none => orphans
  | some tx =>
    { mapOrphanTransactions := orphans.mapOrphanTransactions.erase hash
      mapOrphanTransactionsByPrev := tx.vin.foldl
        (fun m txin => StdMap.eraseAt m txin.prevout.hash hash)
        orphans.mapOrphanTransactionsByPrev
      ids := fun h t ht => by
        rw [StdMap.get_erase] at ht
        split at ht
        next => cases ht
        next => exact orphans.ids h t ht
      byPrev := fun p h => by
        rw [mem_erasePrevs, orphans.byPrev, StdMap.get_erase]
        by_cases hh : hash = h
        · subst hh
          simp [hstored, prevIds]
        · simp [hh] }

theorem get_eraseOrphanTx (hash h : UInt256) :
    (orphans.eraseOrphanTx hash).mapOrphanTransactions[h]? =
      if hash = h then none else orphans.mapOrphanTransactions[h]? := by
  unfold eraseOrphanTx
  split
  next hstored =>
    split
    next hh => rw [← hh, hstored]
    next => rfl
  next tx hstored => exact StdMap.get_erase _ hash h

/-- `LimitOrphanTxSize`, with the random hashes it draws; a round takes one
orphan out, so as many rounds as orphans are enough. -/
def limitLoop (nMaxOrphans : Nat) (randHash : Nat → UInt256) : Nat → Orphans H → Orphans H
  | 0, orphans => orphans
  | fuel + 1, orphans =>
    if orphans.mapOrphanTransactions.size ≤ nMaxOrphans then orphans
    else
      match (orphans.mapOrphanTransactions.getKeyGE? (randHash fuel)).or
          orphans.mapOrphanTransactions.minKey? with
      | none => orphans
      | some hash => limitLoop nMaxOrphans randHash fuel (orphans.eraseOrphanTx hash)

def limitOrphanTxSize (nMaxOrphans : Nat) (randHash : Nat → UInt256) : Orphans H :=
  limitLoop nMaxOrphans randHash orphans.mapOrphanTransactions.size orphans

end Orphans

/-! ## §2. The handler. -/

def MAX_ORPHAN_TRANSACTIONS : Nat := MAX_BLOCK_SIZE / 10

variable {L : Type} (env : AcceptEnv L)

/-- What the handler works on. -/
structure TxState (H : Hashes) (L : Type) where
  pool : CTxMemPool
  free : L
  orphans : Orphans H

/-- The locals of the loop over orphans.  `vWorkQueue` is what is left of it. -/
structure QueueState (L : Type) where
  pool : CTxMemPool
  free : L
  vWorkQueue : List UInt256
  vEraseQueue : List UInt256

variable (db : Records) (pindexBest : CBlockIndex) (orphans : Orphans env.H)

/-- One orphan that waits for the transaction just accepted. -/
def tryOrphan (st : QueueState L) (orphanTxHash : UInt256) : QueueState L :=
  match orphans.mapOrphanTransactions[orphanTxHash]? with
  -- the index by previous transaction has no other ids
  | none => st
  | some orphanTx =>
    match acceptToMemoryPool env db pindexBest (st.pool, st.free) orphanTx true false with
    | (.ok (), pool, free) =>
      ⟨pool, free, st.vWorkQueue ++ [orphanTxHash], st.vEraseQueue ++ [orphanTxHash]⟩
    | (.error refusal, pool, free) =>
      if refusal.fMissingInputs then ⟨pool, free, st.vWorkQueue, st.vEraseQueue⟩
      else ⟨pool, free, st.vWorkQueue, st.vEraseQueue ++ [orphanTxHash]⟩

/-- The orphans that spend outputs of a transaction, in the order of the set. -/
def dependents (hash : UInt256) : List UInt256 :=
  (StdMap.setAt orphans.mapOrphanTransactionsByPrev hash).toList

/-- `for (i = 0; i < vWorkQueue.size(); i++)`. -/
def workLoop (db : Records) (pindexBest : CBlockIndex) (orphans : Orphans env.H) :
    Nat → QueueState L → QueueState L
  | 0, st => st
  | fuel + 1, st =>
    match st.vWorkQueue with
    | [] => st
    | hash :: rest =>
      workLoop db pindexBest orphans fuel
        (run (tryOrphan env db pindexBest orphans) { st with vWorkQueue := rest }
          (dependents env orphans hash))

/-- The loop from the accepted transaction on.  Every other entry of the queue is
an orphan that was not in the pool before, so this many rounds are enough. -/
def processOrphans (pool : CTxMemPool) (free : L) (hash : UInt256) : QueueState L :=
  workLoop env db pindexBest orphans (orphans.mapOrphanTransactions.size + 1)
    ⟨pool, free, [hash], [hash]⟩

/-- `ProcessMessage` on a `tx` message, from the point where `cs_main` is taken;
with it, how `AcceptToMemoryPool` ended, whose score goes to the peer. -/
def processTx (randHash : Nat → UInt256) (st : TxState env.H L)
    (tx : CTransaction) (allowFree : Bool) : TxState env.H L × Except Refusal Unit :=
  match acceptToMemoryPool env db pindexBest (st.pool, st.free) tx true allowFree with
  | (.ok (), pool, free) =>
    let done := processOrphans env db pindexBest st.orphans pool free (tx.getHash env.H)
    (⟨done.pool, done.free, done.vEraseQueue.foldl Orphans.eraseOrphanTx st.orphans⟩, .ok ())
  | (.error refusal, pool, free) =>
    if refusal.fMissingInputs then
      (⟨pool, free, (st.orphans.addOrphanTx tx).limitOrphanTxSize MAX_ORPHAN_TRANSACTIONS
        randHash⟩, .error refusal)
    else (⟨pool, free, st.orphans⟩, .error refusal)

variable {H : Hashes}

/-- A call of one of the three functions, with the random hashes it draws. -/
inductive OrphanCall where
  | addOrphanTx (tx : CTransaction)
  | eraseOrphanTx (hash : UInt256)
  | limitOrphanTxSize (nMaxOrphans : Nat) (randHash : Nat → UInt256)

namespace Orphans

variable (orphans : Orphans H)

def step : OrphanCall → Orphans H
  | .addOrphanTx tx => orphans.addOrphanTx tx
  | .eraseOrphanTx hash => orphans.eraseOrphanTx hash
  | .limitOrphanTxSize nMaxOrphans randHash => orphans.limitOrphanTxSize nMaxOrphans randHash

/-! ## §3. Evictions. -/

theorem eraseOrphanTx_size {orphans : Orphans H} {hash : UInt256}
    (h : orphans.mapOrphanTransactions.contains hash = true) :
    (orphans.eraseOrphanTx hash).mapOrphanTransactions.size =
      orphans.mapOrphanTransactions.size - 1 := by
  obtain ⟨tx, htx⟩ := contains_iff.mp h
  unfold eraseOrphanTx
  split
  next hnone =>
    rw [htx] at hnone
    exact nomatch hnone
  next =>
    show (orphans.mapOrphanTransactions.erase hash).size = _
    rw [Std.ExtTreeMap.size_erase, if_pos h]

theorem limitLoop_le (nMaxOrphans : Nat) (randHash : Nat → UInt256) {fuel : Nat}
    {orphans : Orphans H} (h : orphans.mapOrphanTransactions.size ≤ nMaxOrphans + fuel) :
    (limitLoop nMaxOrphans randHash fuel orphans).mapOrphanTransactions.size ≤ nMaxOrphans := by
  induction fuel generalizing orphans with
  | zero => exact h
  | succ fuel ih =>
    rw [limitLoop]
    split
    next hle => exact hle
    next hgt =>
      -- there is an orphan to evict
      obtain ⟨hash, hhash, hmem⟩ := exists_lowerBound
        (m := orphans.mapOrphanTransactions) (by omega) (randHash fuel)
      rw [hhash]
      apply ih
      rw [eraseOrphanTx_size hmem]
      omega

/-- **After `LimitOrphanTxSize`** at most this many orphans are left. -/
theorem limitOrphanTxSize_le (nMaxOrphans : Nat) (randHash : Nat → UInt256) :
    (orphans.limitOrphanTxSize nMaxOrphans randHash).mapOrphanTransactions.size ≤ nMaxOrphans :=
  limitLoop_le nMaxOrphans randHash (Nat.le_add_left _ _)

theorem limitOrphanTxSize_of_erase {P : Orphans H → Prop}
    (herase : ∀ orphans hash, P orphans → P (orphans.eraseOrphanTx hash)) {orphans : Orphans H}
    (h : P orphans) (nMaxOrphans : Nat) (randHash : Nat → UInt256) :
    P (orphans.limitOrphanTxSize nMaxOrphans randHash) := by
  unfold limitOrphanTxSize
  generalize orphans.mapOrphanTransactions.size = fuel
  induction fuel generalizing orphans with
  | zero => exact h
  | succ fuel ih =>
    rw [limitLoop]
    split
    next => exact h
    next =>
      split
      next => exact h
      next hash _ => exact ih (herase orphans hash h)

/-! ## §4. No parent is left without orphans. -/

def Tidy : Prop := StdMap.NoEmptySet orphans.mapOrphanTransactionsByPrev

theorem tidy_empty : (empty : Orphans H).Tidy := noEmptySet_empty

theorem noEmptySet_foldl
    {f : StdMap UInt256 (StdSet UInt256) → CTxIn → StdMap UInt256 (StdSet UInt256)}
    (hf : ∀ m txin, StdMap.NoEmptySet m → StdMap.NoEmptySet (f m txin)) (vin : List CTxIn)
    {m : StdMap UInt256 (StdSet UInt256)} (h : StdMap.NoEmptySet m) :
    StdMap.NoEmptySet (vin.foldl f m) := by
  induction vin generalizing m with
  | nil => exact h
  | cons txin vin ih => exact ih (hf m txin h)

theorem Tidy.addOrphanTx {orphans : Orphans H} (h : orphans.Tidy) (tx : CTransaction) :
    (orphans.addOrphanTx tx).Tidy := by
  unfold Orphans.addOrphanTx
  split
  next =>
    split
    next => exact h
    next => exact noEmptySet_foldl (fun _ txin hm => hm.insertAt txin.prevout.hash _) tx.vin h
  next => exact h

theorem Tidy.eraseOrphanTx {orphans : Orphans H} (h : orphans.Tidy) (hash : UInt256) :
    (orphans.eraseOrphanTx hash).Tidy := by
  unfold Orphans.eraseOrphanTx
  split
  next => exact h
  next tx _ => exact noEmptySet_foldl (fun _ txin hm => hm.eraseAt txin.prevout.hash _) tx.vin h

theorem Tidy.step {orphans : Orphans H} (h : orphans.Tidy) (call : OrphanCall) :
    (orphans.step call).Tidy := by
  cases call with
  | addOrphanTx tx => exact h.addOrphanTx tx
  | eraseOrphanTx hash => exact h.eraseOrphanTx hash
  | limitOrphanTxSize nMaxOrphans randHash =>
    exact limitOrphanTxSize_of_erase (fun _ hash ho => ho.eraseOrphanTx hash) h nMaxOrphans randHash

theorem listed_iff (p t : UInt256) : (∃ s, orphans.mapOrphanTransactionsByPrev[p]? = some s ∧ t ∈
    s) ↔ ∃ tx, orphans.mapOrphanTransactions[t]? = some tx ∧ tx.getHash H = t ∧ p ∈ prevIds tx := by
  have hset : (∃ s, orphans.mapOrphanTransactionsByPrev[p]? = some s ∧ t ∈ s) ↔
      t ∈ StdMap.setAt orphans.mapOrphanTransactionsByPrev p := by
    unfold StdMap.setAt
    cases orphans.mapOrphanTransactionsByPrev[p]? with
    | none => simp
    | some s => simp
  rw [hset, orphans.byPrev]
  constructor
  · intro ⟨tx, htx, hp⟩
    exact ⟨tx, htx, orphans.ids t tx htx, hp⟩
  · intro ⟨tx, htx, _, hp⟩
    exact ⟨tx, htx, hp⟩

end Orphans

/-! ## §5. Every sequence of calls. -/

/-- **The orphan maps agree** after every sequence of calls: an id is listed under a parent exactly
when it is the id of an orphan that spends an output of this parent, no parent has an empty set,
and a call of `LimitOrphanTxSize` then leaves as few orphans as it is told to. -/
theorem orphanMaps_agree (calls : List OrphanCall) :
    (∀ p t, (∃ s, (run Orphans.step (Orphans.empty : Orphans H)
          calls).mapOrphanTransactionsByPrev[p]? = some s ∧ t ∈ s) ↔
        ∃ tx, (run Orphans.step (Orphans.empty : Orphans H) calls).mapOrphanTransactions[t]? =
          some tx ∧ tx.getHash H = t ∧ p ∈ prevIds tx) ∧
      (∀ (p : UInt256) (s : StdSet UInt256), (run Orphans.step (Orphans.empty : Orphans H)
        calls).mapOrphanTransactionsByPrev[p]? = some s → s ≠ ∅) ∧
      ∀ nMaxOrphans randHash, (run Orphans.step (Orphans.empty : Orphans H)
        (calls ++ [.limitOrphanTxSize nMaxOrphans randHash])).mapOrphanTransactions.size ≤
          nMaxOrphans := by
  have htidy : (run Orphans.step (Orphans.empty : Orphans H) calls).Tidy := by
    apply run_invariant (P := fun _ _ => True) (fun _ call h _ => h.step call) Orphans.tidy_empty
    exact along_iff.mpr fun _ _ _ _ => trivial
  refine ⟨Orphans.listed_iff _, htidy, ?_⟩
  intro nMaxOrphans randHash
  rw [run_concat]
  exact Orphans.limitOrphanTxSize_le _ nMaxOrphans randHash

/-! ## §6. The handler. -/

/-- A `tx` message, and what the node finds when it comes. -/
structure TxMessage (L : Type) where
  db : Records
  pindexBest : CBlockIndex
  pool : CTxMemPool
  free : L
  randHash : Nat → UInt256
  tx : CTransaction
  allowFree : Bool

/-- What the handler does to the orphans. -/
def handleTx (env : AcceptEnv L) (orphans : Orphans env.H) (msg : TxMessage L) : Orphans env.H :=
  (processTx env msg.db msg.pindexBest msg.randHash ⟨msg.pool, msg.free, orphans⟩ msg.tx
    msg.allowFree).1.orphans

/-- A store that the handler leaves. -/
structure Orphans.Bounded (orphans : Orphans H) : Prop where
  tidy : orphans.Tidy
  size : orphans.mapOrphanTransactions.size ≤ MAX_ORPHAN_TRANSACTIONS

theorem Orphans.Bounded.eraseOrphanTx {orphans : Orphans H} (h : orphans.Bounded)
    (hash : UInt256) : (orphans.eraseOrphanTx hash).Bounded := by
  refine ⟨h.tidy.eraseOrphanTx hash, ?_⟩
  by_cases hstored : orphans.mapOrphanTransactions.contains hash = true
  · rw [eraseOrphanTx_size hstored]
    have := h.size
    omega
  · unfold Orphans.eraseOrphanTx
    split
    next => exact h.size
    next tx htx => exact absurd (contains_iff.mpr ⟨tx, htx⟩) hstored

/-- **The store of orphans stays small** in every run of `tx` messages, whatever pool and index each
of them meets, and its maps agree. -/
theorem handleTx_bounded (env : AcceptEnv L) (msgs : List (TxMessage L)) :
    let orphans := run (handleTx env) Orphans.empty msgs
    orphans.mapOrphanTransactions.size ≤ MAX_ORPHAN_TRANSACTIONS ∧
      ∀ p t, (∃ s, orphans.mapOrphanTransactionsByPrev[p]? = some s ∧ t ∈ s) ↔
        ∃ tx, orphans.mapOrphanTransactions[t]? = some tx ∧ tx.getHash env.H = t ∧
          p ∈ prevIds tx := by
  have hbounded : (run (handleTx env) Orphans.empty msgs).Bounded := by
    apply run_invariant (P := fun _ _ => True) ?_ ⟨Orphans.tidy_empty, Nat.zero_le _⟩
      (along_of_forall (fun _ _ => trivial) _ _)
    intro orphans msg h _
    unfold handleTx processTx
    split
    next pool free haccept =>
      -- the queue of orphans to erase
      clear haccept
      dsimp only
      generalize (processOrphans _ _ _ _ _ _ _).vEraseQueue = vEraseQueue
      induction vEraseQueue generalizing orphans with
      | nil => exact h
      | cons hash vEraseQueue ih => exact ih _ (h.eraseOrphanTx hash)
    next =>
      split
      next =>
        refine ⟨?_, Orphans.limitOrphanTxSize_le _ _ _⟩
        exact (h.tidy.addOrphanTx msg.tx).step (.limitOrphanTxSize _ msg.randHash)
      next => exact h
  exact ⟨hbounded.size, Orphans.listed_iff _⟩

end Fantom.Pool
