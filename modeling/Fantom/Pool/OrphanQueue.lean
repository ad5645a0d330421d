/-
  Fantom.Pool.OrphanQueue — What becomes of orphans when their parents come.

  * `missing_inputs_iff` — where they are, and what the handler leaves.
-/
import Fantom.Pool.Orphans

namespace Fantom.Pool

open Core Chain Lib Script List

variable {L : Type} (env : AcceptEnv L)

/-! ## §1. Available transactions. -/

variable (db : Records)

/-- In the transaction index or in the memory pool. -/
def available (pool : CTxMemPool) (hash : UInt256) : Bool :=
  containsTx db hash || pool.mapTx.contains hash

/-- Every previous transaction is in the chain or in the pool. -/
def AllAvailable (pool : CTxMemPool) (tx : CTransaction) : Prop :=
  ∀ p ∈ prevIds tx, available db pool p = true

instance (db : Records) (pool : CTxMemPool) (tx : CTransaction) :
    Decidable (AllAvailable db pool tx) := decidableBAll _ _

/-- A check that reads no database refuses the transaction, or all its previous
transactions are in the index, or one is neither there nor in the pool. -/
def NoPoolParent (pindexBest : CBlockIndex) (pool : CTxMemPool) (tx : CTransaction) : Prop :=
  checkLoose env pindexBest pool tx ≠ .ok () ∨ (∀ p ∈ prevIds tx, containsTx db p = true) ∨
    ∃ p ∈ prevIds tx, available db pool p = false

/-- **Missing inputs are absent** exactly where no parent is in the pool alone. -/
theorem missing_absent_iff (pindexBest : CBlockIndex)
    (st : CTxMemPool × L) (tx : CTransaction) (fLimitFree ignoreFees : Bool) :
    (missingInputs (acceptToMemoryPool env db pindexBest st tx fLimitFree ignoreFees).1 = true →
    ∃ p ∈ prevIds tx, available db st.1 p = false) ↔ NoPoolParent env db pindexBest st.1 tx := by
  rw [missingInputs_iff]
  unfold NoPoolParent
  constructor
  · intro h
    by_cases hloose : checkLoose env pindexBest st.1 tx = .ok ()
    · by_cases hall : ∀ p ∈ prevIds tx, containsTx db p = true
      · exact .inr (.inl hall)
      · refine .inr (.inr (h ⟨hloose, ?_⟩))
        by_contra hno
        refine hall fun p hp => ?_
        obtain ⟨txin, hin, rfl⟩ := mem_map.mp hp
        by_contra hc
        exact hno ⟨txin, hin, Bool.eq_false_iff.mpr hc⟩
    · exact .inl hloose
  · rintro (hloose | hall | habsent) ⟨hok, txin, hin, hnot⟩
    · exact absurd hok hloose
    · rw [hall _ (mem_map_of_mem hin)] at hnot
      cases hnot
    · exact habsent

/-! ## §2. One attempt. -/

variable (db : Records) (pindexBest : CBlockIndex) (orphans : Orphans env.H)

/-- The three ends of an attempt: accepted into the pool, the queue and the list
to erase; left alone for missing inputs; or to be erased as invalid. -/
inductive Attempt (st : QueueState L) (k : UInt256) (t : CTransaction) : QueueState L → Prop
  | accepted (free : L) (hloose : checkLoose env pindexBest st.pool t = .ok ())
      (hknown : ∀ p ∈ prevIds t, containsTx db p = true) :
      Attempt st k t ⟨st.pool.addUnchecked (t.getHash env.H) t, free, st.vWorkQueue ++ [k],
        st.vEraseQueue ++ [k]⟩
  | missing (free : L) (hloose : checkLoose env pindexBest st.pool t = .ok ())
      (hnot : ¬ ∀ p ∈ prevIds t, containsTx db p = true) :
      Attempt st k t ⟨st.pool, free, st.vWorkQueue, st.vEraseQueue⟩
  | refused (free : L)
      (hwhy : checkLoose env pindexBest st.pool t = .ok () →
        ∀ p ∈ prevIds t, containsTx db p = true) :
      Attempt st k t ⟨st.pool, free, st.vWorkQueue, st.vEraseQueue ++ [k]⟩

variable {tx t : CTransaction} {st : QueueState L} {hash : UInt256}

theorem exists_unknown_iff {db : Records} :
    (∃ txin ∈ tx.vin, containsTx db txin.prevout.hash = false) ↔
      ¬ ∀ p ∈ prevIds tx, containsTx db p = true := by
  unfold prevIds
  simp

variable {db pindexBest orphans} {k : UInt256} {pool : CTxMemPool} {ks : List UInt256}
  {allowFree : Bool}

theorem tryOrphan_cases (ht : orphans.mapOrphanTransactions[k]? = some t) :
    Attempt env db pindexBest st k t (tryOrphan env db pindexBest orphans st k) := by
  have hmissing := missingInputs_iff env db pindexBest (st.pool, st.free) t true false
  rw [exists_unknown_iff] at hmissing
  rw [tryOrphan, ht]
  dsimp only
  rcases hcall : acceptToMemoryPool env db pindexBest (st.pool, st.free) t true false with
    ⟨result, pool, free⟩
  rw [hcall] at hmissing
  cases result with
  | ok _ =>
    obtain ⟨hloose, hknown, hpool⟩ := acceptToMemoryPool_eq_ok env hcall
    obtain rfl : pool = st.pool.addUnchecked (t.getHash env.H) t := hpool
    refine .accepted free hloose fun p hp => ?_
    obtain ⟨txin, hin, rfl⟩ := mem_map.mp hp
    exact hknown txin hin
  | error refusal =>
    obtain rfl : pool = st.pool := acceptToMemoryPool_eq_error env hcall
    dsimp only at hmissing ⊢
    split
    next hflag =>
      obtain ⟨hloose, hnot⟩ := hmissing.mp hflag
      exact .missing free hloose hnot
    next hflag =>
      refine .refused free fun hloose => ?_
      by_contra hnot
      exact hflag (hmissing.mpr ⟨hloose, hnot⟩)

/-! ## §3. The queue is worked off. -/

/-- The number of stored orphans that are not in the pool. -/
def waiting (orphans : Orphans env.H) (pool : CTxMemPool) : Nat :=
  (orphans.mapOrphanTransactions.keys.toFinset.filter fun h => pool.mapTx[h]? = none).card

theorem waiting_le_size (pool : CTxMemPool) :
    waiting env orphans pool ≤ orphans.mapOrphanTransactions.size := by
  unfold waiting
  refine (Finset.card_filter_le _ _).trans ((toFinset_card_le _).trans ?_)
  exact Std.ExtTreeMap.length_keys.le

theorem waiting_addUnchecked (hstored : orphans.mapOrphanTransactions[k]? = some t)
    (hnew : pool.mapTx[t.getHash env.H]? = none) :
    waiting env orphans (pool.addUnchecked (t.getHash env.H) t) < waiting env orphans pool := by
  have hid : t.getHash env.H = k := orphans.ids k t hstored
  -- nothing new waits, and `k` waits no longer
  refine Finset.card_lt_card (Finset.ssubset_iff_subset_ne.mpr ⟨?_, ?_⟩)
  · intro h hh
    rw [Finset.mem_filter] at hh ⊢
    refine ⟨hh.1, ?_⟩
    rw [CTxMemPool.mapTx_addUnchecked] at hh
    split at hh
    · cases hh.2
    · exact hh.2
  · intro heq
    have hk : k ∈ orphans.mapOrphanTransactions.keys.toFinset.filter
        fun h => pool.mapTx[h]? = none := by
      rw [Finset.mem_filter, mem_toFinset, Std.ExtTreeMap.mem_keys,
        Std.ExtTreeMap.mem_iff_isSome_getElem?, hstored, ← hid]
      exact ⟨rfl, hnew⟩
    rw [← heq, Finset.mem_filter, CTxMemPool.mapTx_addUnchecked, if_pos hid] at hk
    cases hk.2

/-- What is left to do: entries of the queue, and orphans that may still come
into it. -/
def remaining (orphans : Orphans env.H) (st : QueueState L) : Nat :=
  st.vWorkQueue.length + waiting env orphans st.pool

theorem tryOrphan_remaining (st : QueueState L) (k : UInt256) :
    remaining env orphans (tryOrphan env db pindexBest orphans st k) ≤
      remaining env orphans st := by
  cases ht : orphans.mapOrphanTransactions[k]? with
  | none =>
    rw [tryOrphan, ht]
  | some t =>
    have hcases : Attempt env db pindexBest st k t (tryOrphan env db pindexBest orphans st k) :=
      tryOrphan_cases env ht
    unfold remaining
    generalize tryOrphan env db pindexBest orphans st k = st' at hcases
    cases hcases with
    | accepted free hloose hknown =>
      have hless := waiting_addUnchecked env ht (checkLoose_addable env hloose).new
      dsimp only
      rw [length_append, length_singleton]
      omega
    | missing free hloose hnot => exact Nat.le_refl _
    | refused free hwhy => exact Nat.le_refl _

variable (fuel : Nat)

/-- **Enough rounds.**  With as many as there is left to do, the queue is worked
off. -/
theorem workLoop_done (h : remaining env orphans st ≤ fuel) :
    (workLoop env db pindexBest orphans fuel st).vWorkQueue = [] := by
  -- a round takes an entry off the queue; what it adds no longer waits
  induction fuel generalizing st with
  | zero =>
    unfold remaining at h
    have hlen : st.vWorkQueue.length = 0 := by omega
    exact eq_nil_of_length_eq_zero hlen
  | succ fuel ih =>
    rw [workLoop]
    cases hq : st.vWorkQueue with
    | nil => exact hq
    | cons hash rest =>
      apply ih
      have hrun : remaining env orphans (run (tryOrphan env db pindexBest orphans)
          { st with vWorkQueue := rest } (dependents env orphans hash)) ≤
          remaining env orphans { st with vWorkQueue := rest } :=
        run_invariant (I := fun s => remaining env orphans s ≤
            remaining env orphans { st with vWorkQueue := rest }) (P := fun _ _ => True)
          (fun s k hs _ => (tryOrphan_remaining env s k).trans hs) (Nat.le_refl _)
          (along_of_forall (fun _ _ => trivial) _ _)
      unfold remaining at h hrun ⊢
      rw [hq, length_cons] at h
      dsimp only at hrun
      omega

theorem processOrphans_done (pool : CTxMemPool) (free : L) (hash : UInt256) :
    (processOrphans env db pindexBest orphans pool free hash).vWorkQueue = [] := by
  refine workLoop_done env _ ?_
  have hwait : waiting env orphans pool ≤ orphans.mapOrphanTransactions.size :=
    waiting_le_size env pool
  unfold remaining
  dsimp only [length_singleton]
  omega

/-! ## §4. Orphan chains. -/

variable (db pindexBest orphans)

/-- Every attempt the loop makes satisfies `P` in the state it meets. -/
def AlongWork (P : QueueState L → UInt256 → Prop) : Nat → QueueState L → Prop
  | 0, _ => True
  | fuel + 1, st =>
    match st.vWorkQueue with
    | [] => True
    | hash :: rest =>
      Along (tryOrphan env db pindexBest orphans) P { st with vWorkQueue := rest }
        (dependents env orphans hash) ∧
      AlongWork P fuel (run (tryOrphan env db pindexBest orphans)
        { st with vWorkQueue := rest } (dependents env orphans hash))

/-- The attempt reports no parent as missing that is in the pool. -/
def AttemptSound (st : QueueState L) (k : UInt256) : Prop :=
  ∀ t, orphans.mapOrphanTransactions[k]? = some t → NoPoolParent env db pindexBest st.pool t

/-- The invariant of the loop: an orphan with all parents available is on the list
to erase, or will be tried: as one of `ks`, which are next, or with an entry of
the queue. -/
def Settling (ks : List UInt256) (st : QueueState L) : Prop :=
  ∀ h t, orphans.mapOrphanTransactions[h]? = some t → AllAvailable db st.pool t →
    h ∈ st.vEraseQueue ∨ h ∈ ks ∨ ∃ p ∈ prevIds t, p ∈ st.vWorkQueue

variable {db pindexBest orphans}

theorem alongWork_nil {P : QueueState L → UInt256 → Prop} {fuel : Nat} (hq : st.vWorkQueue = []) :
    AlongWork env db pindexBest orphans P fuel st := by
  cases fuel with
  | zero => trivial
  | succ fuel =>
    rw [AlongWork, hq]
    trivial

theorem alongWork_cons {P : QueueState L → UInt256 → Prop} {fuel : Nat} {rest : List UInt256}
    (hq : st.vWorkQueue = hash :: rest) :
    AlongWork env db pindexBest orphans P (fuel + 1) st ↔
      Along (tryOrphan env db pindexBest orphans) P { st with vWorkQueue := rest }
          (dependents env orphans hash) ∧
        AlongWork env db pindexBest orphans P fuel (run (tryOrphan env db pindexBest orphans)
          { st with vWorkQueue := rest } (dependents env orphans hash)) := by
  rw [AlongWork, hq]

theorem available_addUnchecked {p : UInt256} :
    available db (pool.addUnchecked hash t) p = true ↔ available db pool p = true ∨ hash = p := by
  unfold available
  rw [Bool.or_eq_true, Bool.or_eq_true, StdMap.contains_iff, StdMap.contains_iff,
    CTxMemPool.mapTx_addUnchecked]
  by_cases hp : hash = p
  · simp [hp]
  · simp [hp]

theorem allAvailable_addUnchecked {u : CTransaction}
    (h : AllAvailable db (pool.addUnchecked hash t) u) :
    AllAvailable db pool u ∨ hash ∈ prevIds u := by
  by_cases hmem : hash ∈ prevIds u
  · exact .inr hmem
  · refine .inl fun p hp => ?_
    rcases available_addUnchecked.mp (h p hp) with hold | rfl
    · exact hold
    · exact absurd hp hmem

theorem tryOrphan_settling (hs : Settling env db orphans (k :: ks) st)
    (hsound : AttemptSound env db pindexBest orphans st k) :
    Settling env db orphans ks (tryOrphan env db pindexBest orphans st k) := by
  intro h t ht havail
  cases hk : orphans.mapOrphanTransactions[k]? with
  | none =>
    have hsame : tryOrphan env db pindexBest orphans st k = st := by
      rw [tryOrphan, hk]
    rw [hsame] at havail ⊢
    rcases hs h t ht havail with herase | hnext | hlater
    · exact .inl herase
    · rcases mem_cons.mp hnext with rfl | hnext
      · rw [hk] at ht
        cases ht
      · exact .inr (.inl hnext)
    · exact .inr (.inr hlater)
  | some u =>
    have hcases : Attempt env db pindexBest st k u (tryOrphan env db pindexBest orphans st k) :=
      tryOrphan_cases env hk
    generalize tryOrphan env db pindexBest orphans st k = st' at hcases havail
    cases hcases with
    | accepted free hloose hknown =>
      have hid : u.getHash env.H = k := orphans.ids k u hk
      rcases allAvailable_addUnchecked havail with hold | hnew
      · rcases hs h t ht hold with herase | hnext | ⟨p, hp, hq⟩
        · exact .inl (mem_append_left _ herase)
        · rcases mem_cons.mp hnext with rfl | hnext
          · exact .inl (mem_append_right _ (mem_singleton_self _))
          · exact .inr (.inl hnext)
        · exact .inr (.inr ⟨p, hp, mem_append_left _ hq⟩)
      · -- the parent that was missing is the orphan just accepted, which is queued
        rw [hid] at hnew
        exact .inr (.inr ⟨k, hnew, mem_append_right _ (mem_singleton_self _)⟩)
    | missing free hloose hnot =>
      rcases hs h t ht havail with herase | hnext | hlater
      · exact .inl herase
      · rcases mem_cons.mp hnext with rfl | hnext
        · -- it is still missing a parent, which is in neither place
          rw [hk] at ht
          cases ht
          rcases hsound t hk with hno | hall | ⟨p, hp, habsent⟩
          · exact absurd hloose hno
          · exact absurd hall hnot
          · rw [havail p hp] at habsent
            cases habsent
        · exact .inr (.inl hnext)
      · exact .inr (.inr hlater)
    | refused free hwhy =>
      rcases hs h t ht havail with herase | hnext | hlater
      · exact .inl (mem_append_left _ herase)
      · rcases mem_cons.mp hnext with rfl | hnext
        · exact .inl (mem_append_right _ (mem_singleton_self _))
        · exact .inr (.inl hnext)
      · exact .inr (.inr hlater)

theorem run_settling (hs : Settling env db orphans ks st) (hsound : Along (tryOrphan env db
    pindexBest orphans) (AttemptSound env db pindexBest orphans) st ks) :
    Settling env db orphans [] (run (tryOrphan env db pindexBest orphans) st ks) := by
  induction ks generalizing st with
  | nil => exact hs
  | cons k ks ih => exact ih (tryOrphan_settling env hs hsound.1) hsound.2

theorem Settling.pop {rest : List UInt256} (hs : Settling env db orphans [] st)
    (hq : st.vWorkQueue = hash :: rest) :
    Settling env db orphans (dependents env orphans hash) { st with vWorkQueue := rest } := by
  intro h t ht havail
  rcases hs h t ht havail with herase | hnext | ⟨p, hp, hin⟩
  · exact .inl herase
  · exact absurd hnext not_mem_nil
  · rw [hq] at hin
    rcases mem_cons.mp hin with rfl | hin
    · refine .inr (.inl ?_)
      rw [dependents, Std.ExtTreeSet.mem_toList]
      exact (orphans.byPrev p h).mpr ⟨t, ht, hp⟩
    · exact .inr (.inr ⟨p, hp, hin⟩)

/-- **The loop settles every orphan**, in chains and trees of any depth: where
each attempt is sound, an orphan whose parents are all available in the end is on
the list to erase. -/
theorem workLoop_settles (hs : Settling env db orphans [] st) (hsound :
    AlongWork env db pindexBest orphans (AttemptSound env db pindexBest orphans) fuel st) :
    Settling env db orphans [] (workLoop env db pindexBest orphans fuel st) := by
  induction fuel generalizing st with
  | zero => exact hs
  | succ fuel ih =>
    rw [workLoop]
    cases hq : st.vWorkQueue with
    | nil => exact hs
    | cons hash rest =>
      rw [alongWork_cons env hq] at hsound
      exact ih (run_settling env (hs.pop env hq) hsound.1) hsound.2

/-! ## §5. The handler. -/

theorem get_eraseOrphans {H : Hashes} (orphans : Orphans H) (ks : List UInt256) (h : UInt256) :
    (ks.foldl Orphans.eraseOrphanTx orphans).mapOrphanTransactions[h]? =
      if h ∈ ks then none else orphans.mapOrphanTransactions[h]? := by
  induction ks generalizing orphans with
  | nil => simp
  | cons k ks ih =>
    rw [foldl_cons, ih, Orphans.get_eraseOrphanTx]
    by_cases hk : k = h
    · simp [hk]
    · simp [hk, Ne.symm hk]

variable (db pindexBest)

/-- The loop over orphans as it starts, once a transaction is accepted. -/
def queueStart (st : TxState env.H L) (tx : CTransaction) (allowFree : Bool) : QueueState L :=
  ⟨st.pool.addUnchecked (tx.getHash env.H) tx,
    (acceptToMemoryPool env db pindexBest (st.pool, st.free) tx true allowFree).2.2,
    [tx.getHash env.H], [tx.getHash env.H]⟩

def queueEnd (st : TxState env.H L) (tx : CTransaction) (allowFree : Bool) : QueueState L :=
  workLoop env db pindexBest st.orphans (st.orphans.mapOrphanTransactions.size + 1)
    (queueStart env db pindexBest st tx allowFree)

/-- **Orphans are taken out**: every one stored before whose parents are all
available now. -/
def OrphansTaken (before : Orphans env.H) (after : TxState env.H L) : Prop :=
  ∀ (h : UInt256) (t : CTransaction), before.mapOrphanTransactions[h]? = some t →
    AllAvailable db after.pool t → after.orphans.mapOrphanTransactions[h]? = none

variable {db pindexBest}

theorem processTx_ok {randHash : Nat → UInt256} {st : TxState env.H L}
    (h : (processTx env db pindexBest randHash st tx allowFree).2 = .ok ()) :
    (processTx env db pindexBest randHash st tx allowFree).1 =
      ⟨(queueEnd env db pindexBest st tx allowFree).pool,
        (queueEnd env db pindexBest st tx allowFree).free,
        (queueEnd env db pindexBest st tx allowFree).vEraseQueue.foldl Orphans.eraseOrphanTx
          st.orphans⟩ := by
  unfold queueEnd queueStart
  unfold processTx at h ⊢
  rcases hcall : acceptToMemoryPool env db pindexBest (st.pool, st.free) tx true allowFree with
    ⟨result, pool, free⟩
  rw [hcall] at h
  cases result with
  | ok _ =>
    obtain ⟨_, _, hpool⟩ := acceptToMemoryPool_eq_ok env hcall
    obtain rfl : pool = st.pool.addUnchecked (tx.getHash env.H) tx := hpool
    rfl
  | error refusal =>
    dsimp only at h
    split at h <;> cases h

theorem orphansTaken_iff {randHash : Nat → UInt256} {st : TxState env.H L}
    (h : (processTx env db pindexBest randHash st tx allowFree).2 = .ok ()) :
    OrphansTaken env db st.orphans (processTx env db pindexBest randHash st tx allowFree).1 ↔
      ∀ k t, st.orphans.mapOrphanTransactions[k]? = some t →
        AllAvailable db (queueEnd env db pindexBest st tx allowFree).pool t →
        k ∈ (queueEnd env db pindexBest st tx allowFree).vEraseQueue := by
  rw [processTx_ok env h]
  unfold OrphansTaken
  dsimp only
  constructor
  · intro htaken k t ht havail
    have hgone := htaken k t ht havail
    rw [get_eraseOrphans] at hgone
    split at hgone
    · assumption
    · rw [ht] at hgone
      cases hgone
  · intro hin k t ht havail
    rw [get_eraseOrphans, if_pos (hin k t ht havail)]

/-- At the start of the loop only orphans of the accepted transaction wait to be
tried, where no orphan had all its parents before. -/
theorem queueStart_settling {st : TxState env.H L} (hbefore : ∀ (k : UInt256) (t : CTransaction),
    st.orphans.mapOrphanTransactions[k]? = some t → k ≠ tx.getHash env.H → ¬ AllAvailable db st.pool
    t) :
    Settling env db st.orphans [] (queueStart env db pindexBest st tx allowFree) := by
  intro k t ht havail
  by_cases hk : k = tx.getHash env.H
  -- the transaction may be stored as an orphan itself
  · exact .inl (hk ▸ mem_singleton_self _)
  · rcases allAvailable_addUnchecked havail with hold | hnew
    · exact absurd hold (hbefore k t ht hk)
    · exact .inr (.inr ⟨_, hnew, mem_singleton_self _⟩)

variable (pindexBest) in
/-- Attempts on orphans with a parent outside the index change neither pool nor
queue, and mark those that the checks without the database refuse. -/
theorem run_unknown (st : QueueState L) (hks : ∀ k ∈ ks, ∃ t, orphans.mapOrphanTransactions[k]? =
    some t ∧ ¬ ∀ p ∈ prevIds t, containsTx db p = true) :
    (run (tryOrphan env db pindexBest orphans) st ks).pool = st.pool ∧
      (run (tryOrphan env db pindexBest orphans) st ks).vWorkQueue = st.vWorkQueue ∧
      ∀ h t, orphans.mapOrphanTransactions[h]? = some t →
        (h ∈ (run (tryOrphan env db pindexBest orphans) st ks).vEraseQueue ↔
          h ∈ st.vEraseQueue ∨ (h ∈ ks ∧ checkLoose env pindexBest st.pool t ≠ .ok ())) := by
  induction ks generalizing st with
  | nil => simp
  | cons k ks ih =>
    obtain ⟨u, hu, hnot⟩ := hks k mem_cons_self
    have hcases : Attempt env db pindexBest st k u (tryOrphan env db pindexBest orphans st k) :=
      tryOrphan_cases env hu
    rw [run_cons]
    have hrest := ih (tryOrphan env db pindexBest orphans st k)
      fun k' hk' => hks k' (mem_cons_of_mem _ hk')
    generalize tryOrphan env db pindexBest orphans st k = st' at hcases hrest ⊢
    cases hcases with
    -- acceptance asks for every parent in the index
    | accepted free hloose hknown => exact absurd hknown hnot
    | missing free hloose _ =>
      obtain ⟨hpool, hqueue, herase⟩ := hrest
      refine ⟨hpool, hqueue, fun h t ht => ?_⟩
      rw [herase h t ht, mem_cons]
      by_cases hk : h = k
      · subst hk
        rw [hu] at ht
        cases ht
        simp [hloose]
      · simp [hk]
    | refused free hwhy =>
      obtain ⟨hpool, hqueue, herase⟩ := hrest
      refine ⟨hpool, hqueue, fun h t ht => ?_⟩
      rw [herase h t ht, mem_cons, mem_append, mem_singleton]
      by_cases hk : h = k
      · subst hk
        rw [hu] at ht
        cases ht
        have hrefused : checkLoose env pindexBest st.pool u ≠ .ok () :=
          fun hloose => hnot (hwhy hloose)
        simp [hrefused]
      · simp [hk]

theorem workLoop_nil (h : st.vWorkQueue = []) :
    workLoop env db pindexBest orphans fuel st = st := by
  cases fuel with
  | zero => rfl
  | succ fuel => rw [workLoop, h]

variable (pindexBest) in
/-- What an accepted transaction outside the index leaves to erase: itself, and
those orphans of it that the checks without the database refuse. -/
theorem queueEnd_unknown (st : TxState env.H L) (tx : CTransaction) (allowFree : Bool)
    (hnew : containsTx db (tx.getHash env.H) = false) :
    (queueEnd env db pindexBest st tx allowFree).pool =
        st.pool.addUnchecked (tx.getHash env.H) tx ∧
      ∀ h t, st.orphans.mapOrphanTransactions[h]? = some t →
        (h ∈ (queueEnd env db pindexBest st tx allowFree).vEraseQueue ↔
          h = tx.getHash env.H ∨ (tx.getHash env.H ∈ prevIds t ∧
            checkLoose env pindexBest (st.pool.addUnchecked (tx.getHash env.H) tx) t ≠ .ok ())) := by
  have hmem : ∀ k, k ∈ dependents env st.orphans (tx.getHash env.H) ↔
      ∃ t, st.orphans.mapOrphanTransactions[k]? = some t ∧ tx.getHash env.H ∈ prevIds t := by
    intro k
    rw [dependents, Std.ExtTreeSet.mem_toList]
    exact st.orphans.byPrev (tx.getHash env.H) k
  unfold queueEnd queueStart
  rw [workLoop]
  have hunknown : ∀ k ∈ dependents env st.orphans (tx.getHash env.H),
      ∃ t, st.orphans.mapOrphanTransactions[k]? = some t ∧
        ¬ ∀ p ∈ prevIds t, containsTx db p = true := by
    intro k hk
    obtain ⟨t, ht, hin⟩ := (hmem k).mp hk
    refine ⟨t, ht, fun hall => ?_⟩
    rw [hall _ hin] at hnew
    cases hnew
  generalize (acceptToMemoryPool env db pindexBest (st.pool, st.free) tx true allowFree).2.2 =
    free
  obtain ⟨hpool, hqueue, herase⟩ := run_unknown env pindexBest
    ⟨st.pool.addUnchecked (tx.getHash env.H) tx, free, [], [tx.getHash env.H]⟩ hunknown
  dsimp only at hpool hqueue herase ⊢
  rw [workLoop_nil env _ hqueue]
  refine ⟨hpool, fun h t ht => ?_⟩
  rw [herase h t ht, mem_singleton, hmem, ht]
  simp only [Option.some.injEq, exists_eq_left']

/-- **Orphans and their parents.**  Missing inputs are reported for absent parents
only, exactly where no parent is in the pool alone.  An accepted transaction that
is not in the index yet takes out its orphans exactly where the checks without the
database refuse each that has all its parents; and where every attempt of the loop
is sound, it takes out all of them, whatever the depth of their chains. -/
theorem missing_inputs_iff (db : Records) (pindexBest : CBlockIndex) :
    (∀ (st : CTxMemPool × L) (tx : CTransaction) (fLimitFree ignoreFees : Bool),
      (missingInputs (acceptToMemoryPool env db pindexBest st tx fLimitFree ignoreFees).1 = true →
        ∃ p ∈ prevIds tx, available db st.1 p = false) ↔
      NoPoolParent env db pindexBest st.1 tx) ∧
    (∀ (randHash : Nat → UInt256) (st : TxState env.H L) (tx : CTransaction) (allowFree : Bool),
      (processTx env db pindexBest randHash st tx allowFree).2 = .ok () →
      containsTx db (tx.getHash env.H) = false →
      (OrphansTaken env db st.orphans (processTx env db pindexBest randHash st tx allowFree).1 ↔
        ∀ (h : UInt256) (t : CTransaction), st.orphans.mapOrphanTransactions[h]? = some t →
          h ≠ tx.getHash env.H →
          AllAvailable db (st.pool.addUnchecked (tx.getHash env.H) tx) t →
          tx.getHash env.H ∈ prevIds t ∧
            checkLoose env pindexBest (st.pool.addUnchecked (tx.getHash env.H) tx) t ≠ .ok ())) ∧
    ∀ (randHash : Nat → UInt256) (st : TxState env.H L) (tx : CTransaction) (allowFree : Bool),
      (processTx env db pindexBest randHash st tx allowFree).2 = .ok () →
      (∀ (h : UInt256) (t : CTransaction), st.orphans.mapOrphanTransactions[h]? = some t →
        h ≠ tx.getHash env.H → ¬ AllAvailable db st.pool t) →
      AlongWork env db pindexBest st.orphans (AttemptSound env db pindexBest st.orphans)
        (st.orphans.mapOrphanTransactions.size + 1)
        (queueStart env db pindexBest st tx allowFree) →
      OrphansTaken env db st.orphans
        (processTx env db pindexBest randHash st tx allowFree).1 := by
  refine ⟨fun st tx fLimitFree ignoreFees =>
    missing_absent_iff env db pindexBest st tx fLimitFree ignoreFees, ?_, ?_⟩
  · intro randHash st tx allowFree hok hnew
    obtain ⟨hpool, herase⟩ := queueEnd_unknown env pindexBest st tx allowFree hnew
    rw [orphansTaken_iff env hok, hpool]
    constructor
    · intro h k t ht hk havail
      exact ((herase k t ht).mp (h k t ht havail)).resolve_left hk
    · intro h k t ht havail
      rw [herase k t ht]
      by_cases hk : k = tx.getHash env.H
      · exact .inl hk
      · exact .inr (h k t ht hk havail)
  · intro randHash st tx allowFree hok hbefore hsound
    have hend : Settling env db st.orphans [] (queueEnd env db pindexBest st tx allowFree) :=
      workLoop_settles env _ (queueStart_settling env hbefore) hsound
    have hdone : (queueEnd env db pindexBest st tx allowFree).vWorkQueue = [] :=
      processOrphans_done env _ _ _
    rw [orphansTaken_iff env hok]
    intro k t ht havail
    rcases hend k t ht havail with herase | hnext | ⟨p, _, hq⟩
    · exact herase
    · exact absurd hnext not_mem_nil
    · rw [hdone] at hq
      exact absurd hq not_mem_nil

/-! ## §6. A chain of two. -/

def keyHashOut (nValue : Int64) : CTxOut :=
  ⟨nValue, 0, [OP_DUP, OP_HASH160, 20] ++ replicate 20 7 ++ [OP_EQUALVERIFY, OP_CHECKSIG]⟩

/-- A transaction that spends an output, with a signature and a key of one byte
each, for outputs to public key hashes. -/
def relayTx (hash : UInt256) (n : UInt32) (vout : List Int64) : CTransaction :=
  ⟨1, 1100, [⟨⟨hash, n⟩, [1, 0x21, 1, 0x22], [], 0⟩], vout.map keyHashOut, 0⟩

def relayFunding : CTransaction := relayTx 9 0 [50000]

def relayRecords : Records :=
  { Records.empty with
    tx := (∅ : TxIndexMap).insert (relayFunding.getHash sampleChainHashes)
      (CTxIndex.fresh (.inFile .first 0 77) 1) }

def relayEnv : AcceptEnv Unit :=
  { sampleChainEnv [(77, relayFunding)] with
    testNet := false
    sigEnv := sampleSigEnv
    limitFree := fun _ _ => (true, ()) }

def relayParent : CTransaction := relayTx (relayFunding.getHash sampleChainHashes) 0 [40000]

def relayChild : CTransaction := relayTx (relayParent.getHash sampleChainHashes) 0 [30000]

def relayState : TxState relayEnv.H Unit := ⟨.empty, (), Orphans.empty.addOrphanTx relayChild⟩

def relayNoHash (_ : Nat) : UInt256 := 0

def oddChild : CTransaction := { relayChild with nVersion := 2 }

def oddState : TxState relayEnv.H Unit := ⟨.empty, (), Orphans.empty.addOrphanTx oddChild⟩

theorem oddState_stored {h : UInt256} (ht : oddState.orphans.mapOrphanTransactions[h]? = some t) :
    t = oddChild := by
  have hall : oddState.orphans.mapOrphanTransactions.toList.map Prod.snd = [oddChild] := by
    decide +kernel
  have hmem : (h, t) ∈ oddState.orphans.mapOrphanTransactions.toList :=
    Std.ExtTreeMap.mem_toList_iff_getElem?_eq_some.mpr ht
  have hin := mem_map_of_mem (f := Prod.snd) hmem
  rw [hall] at hin
  exact mem_singleton.mp hin

/-- The parent takes a child out that the checks refuse, and leaves one that they
let pass. -/
theorem missing_inputs_iff_relayParent :
    OrphansTaken relayEnv relayRecords oddState.orphans
        (processTx relayEnv relayRecords sampleGenesis relayNoHash oddState relayParent false).1 ∧
      ¬ OrphansTaken relayEnv relayRecords relayState.orphans
        (processTx relayEnv relayRecords sampleGenesis relayNoHash relayState relayParent
          false).1 := by
  constructor
  · refine (missing_inputs_iff relayEnv relayRecords sampleGenesis).2.2 relayNoHash oddState
      relayParent false (by decide +kernel) ?_ ?_
    · intro h t ht _
      obtain rfl : t = oddChild := oddState_stored ht
      decide +kernel
    · have hsize : oddState.orphans.mapOrphanTransactions.size = 1 := by decide +kernel
      have hdeps : dependents relayEnv oddState.orphans (relayParent.getHash relayEnv.H) =
          [oddChild.getHash relayEnv.H] := by decide +kernel
      have hq : (queueStart relayEnv relayRecords sampleGenesis oddState relayParent
          false).vWorkQueue = [relayParent.getHash relayEnv.H] := rfl
      rw [hsize, alongWork_cons relayEnv hq, hdeps]
      constructor
      · refine ⟨fun t ht => .inl ?_, trivial⟩
        obtain rfl : t = oddChild := oddState_stored ht
        decide +kernel
      · have hend : (run (tryOrphan relayEnv relayRecords sampleGenesis oddState.orphans)
            { queueStart relayEnv relayRecords sampleGenesis oddState relayParent false with
              vWorkQueue := [] } [oddChild.getHash relayEnv.H]).vWorkQueue = [] := by
          decide +kernel
        generalize run (tryOrphan relayEnv relayRecords sampleGenesis oddState.orphans) _ _ = st
          at hend ⊢
        exact alongWork_nil relayEnv hend
  · intro htaken
    have hleft := ((missing_inputs_iff relayEnv relayRecords sampleGenesis).2.1 relayNoHash
      relayState relayParent false (by decide +kernel) (by decide +kernel)).mp htaken
        (relayChild.getHash relayEnv.H) relayChild (by decide +kernel) (by decide +kernel)
        (by decide +kernel)
    exact hleft.2 (by decide +kernel)

/-- **A child of the pool is left behind.**  The handler accepts the parent, whose
child is stored.  Then the parent is in the pool, `FetchInputs` finds it there and
the other checks on the child pass; but the child is still stored, and trying it
again reports missing inputs. -/
theorem relayChild_left :
    let handled := processTx relayEnv relayRecords sampleGenesis relayNoHash relayState relayParent
      false
    let pool := handled.1.pool
    handled.2 = .ok () ∧
      relayState.orphans.mapOrphanTransactions[relayChild.getHash relayEnv.H]? = some relayChild ∧
      AllAvailable relayRecords pool relayChild ∧
      checkLoose relayEnv sampleGenesis pool relayChild = .ok () ∧
      accepts (checkInputs relayEnv relayRecords pool relayChild) = true ∧
      missingInputs (acceptToMemoryPool relayEnv relayRecords sampleGenesis (pool, ()) relayChild
        true false).1 = true ∧
      handled.1.orphans.mapOrphanTransactions[relayChild.getHash relayEnv.H]? =
        some relayChild := by
  decide +kernel

end Fantom.Pool
