/-
  Fantom.Pool.Indexed — The two maps of the memory pool.  `mapNextTx` is the inverse of the inputs
  of `mapTx`, whatever is added and removed, and a recursive removal takes every descendant with it.

  * `Shrunk`, `Pruned` — what a removal leaves: a smaller pool with the invariant, and in a pruned
    one no child of a removed transaction,
  * `PoolCall` — one call on the pool, for runs of any calls.
-/
import Mathlib.Data.Finset.Card
import Fantom.Core.MemPool
import Fantom.Core.Signer
import Fantom.Lib.Runs

namespace Fantom.Pool

open Lib Core List CTxMemPool

def outpoints (tx : CTransaction) : List COutPoint := tx.vin.map CTxIn.prevout

/-! ## §1. The invariant. -/

/-- **The representation invariant**: a transaction is stored under its id, and
an entry of `mapNextTx` is an input of a stored transaction. -/
structure Indexed (H : Hashes) (pool : CTxMemPool) : Prop where
  ids : ∀ (h : UInt256) (t : CTransaction), pool.mapTx[h]? = some t → t.getHash H = h
  spenders : ∀ (o : COutPoint) (p : CInPoint), pool.mapNextTx[o]? = some p ↔
    ∃ (t : CTransaction) (txin : CTxIn), pool.mapTx[p.ptx]? = some t ∧ t.vin[p.n]? = some txin ∧
      txin.prevout = o

theorem empty_indexed (H : Hashes) (n : UInt32) : Indexed H ⟨n, ∅, ∅⟩ := by
  constructor
  · intro h t ht
    rw [StdMap.get_empty] at ht
    cases ht
  · intro o p
    simp only [StdMap.get_empty]
    simp

theorem map_eq_of_isEqv {α β : Type} {eqv : α → α → Bool} {f : α → β}
    (hf : ∀ x y, eqv x y = true → f x = f y) {xs ys : List α} (h : xs.isEqv ys eqv = true) :
    xs.map f = ys.map f := by
  induction xs generalizing ys with
  | nil =>
    cases ys with
    | nil => rfl
    | cons y ys => cases h
  | cons x xs ih =>
    cases ys with
    | nil => cases h
    | cons y ys =>
      rw [isEqv_cons_cons, Bool.and_eq_true] at h
      rw [map_cons, map_cons, hf x y h.1, ih h.2]

theorem eqv_outpoints {a b : CTransaction} (h : a.eqv b = true) :
    outpoints a = outpoints b ∧ a.vout = b.vout := by
  simp only [CTransaction.eqv, Bool.and_eq_true, beq_iff_eq] at h
  obtain ⟨⟨⟨_, hvin⟩, hvout⟩, _⟩ := h
  refine ⟨map_eq_of_isEqv (fun x y hxy => ?_) hvin, hvout⟩
  simp only [CTxIn.eqv, Bool.and_eq_true, beq_iff_eq] at hxy
  exact hxy.1.1

theorem eqv_getHash (H : Hashes) {a b : CTransaction} (h : a.eqv b = true) :
    a.getHash H = b.getHash H := by
  simp only [CTransaction.eqv, Bool.and_eq_true, beq_iff_eq] at h
  obtain ⟨⟨⟨⟨hversion, htime⟩, hvin⟩, hvout⟩, hlock⟩ := h
  have hserialize : a.vin.map CTxIn.serialize = b.vin.map CTxIn.serialize := by
    refine map_eq_of_isEqv (fun x y hxy => ?_) hvin
    simp only [CTxIn.eqv, Bool.and_eq_true, beq_iff_eq] at hxy
    unfold CTxIn.serialize
    rw [hxy.1.1, hxy.1.2, hxy.2]
  have hlen : a.vin.length = b.vin.length := by
    simpa using congrArg length hserialize
  have hvector : serializeVector CTxIn.serialize a.vin = serializeVector CTxIn.serialize b.vin := by
    unfold serializeVector
    rw [hlen, flatMap_def, flatMap_def, hserialize]
  unfold CTransaction.getHash CTransaction.serialize
  rw [hversion, htime, hvector, hvout, hlock]

theorem eqv_inputs_self (xs : List CTxIn) : xs.isEqv xs CTxIn.eqv = true := by
  induction xs with
  | nil => rfl
  | cons x xs ih => rw [isEqv_cons_cons, ih]; simp [CTxIn.eqv]

variable {H : Hashes} {pool pool' pool'' : CTxMemPool} {o : COutPoint} {i : UInt256}
  {t tx : CTransaction} {rank : UInt256 → Nat}

theorem Indexed.spends (h : Indexed H pool) {p : CInPoint} (hp : pool.mapNextTx[o]? = some p) :
    ∃ t, pool.mapTx[p.ptx]? = some t ∧ o ∈ outpoints t := by
  obtain ⟨t, txin, ht, hin, rfl⟩ := (h.spenders o p).mp hp
  exact ⟨t, ht, mem_map.mpr ⟨txin, mem_of_getElem? hin, rfl⟩⟩

theorem Indexed.entry (h : Indexed H pool) (ht : pool.mapTx[i]? = some t) (ho : o ∈ outpoints t) :
    ∃ p, pool.mapNextTx[o]? = some p ∧ p.ptx = i := by
  obtain ⟨txin, hin, rfl⟩ := mem_map.mp ho
  obtain ⟨n, hn⟩ := getElem?_of_mem hin
  exact ⟨⟨i, n⟩, (h.spenders _ ⟨i, n⟩).mpr ⟨t, txin, ht, hn, rfl⟩, rfl⟩

theorem Indexed.spender_unique (h : Indexed H pool) {j : UInt256} {u : CTransaction}
    (ht : pool.mapTx[i]? = some t) (hu : pool.mapTx[j]? = some u) (hot : o ∈ outpoints t)
    (hou : o ∈ outpoints u) : i = j := by
  obtain ⟨p, hp, rfl⟩ := h.entry ht hot
  obtain ⟨q, hq, rfl⟩ := h.entry hu hou
  rw [hp] at hq
  cases hq
  rfl

theorem Indexed.spender_eq_none (h : Indexed H pool) :
    pool.spender o = none ↔ pool.mapNextTx[o]? = none := by
  unfold spender
  cases hp : pool.mapNextTx[o]? with
  | none => simp
  | some p =>
    obtain ⟨t, ht, _⟩ := h.spends hp
    simp [ht]

theorem Indexed.spender_eq_some (h : Indexed H pool) (hs : pool.spender o = some t) :
    pool.mapTx[t.getHash H]? = some t ∧ o ∈ outpoints t := by
  obtain ⟨p, hp, ht⟩ := Option.bind_eq_some_iff.mp hs
  obtain ⟨u, hu, ho⟩ := h.spends hp
  rw [hu] at ht
  cases ht
  rw [h.ids _ _ hu]
  exact ⟨hu, ho⟩

/-! ## §2. Adding a transaction. -/

private theorem get_insertInputs {hash : UInt256} {vin : List CTxIn}
    (hd : (vin.map CTxIn.prevout).Nodup) (k : Nat) (m : StdMap COutPoint CInPoint)
    (o : COutPoint) (p : CInPoint) :
    ((vin.zipIdx k).foldl (fun m i => m.insert i.1.prevout ⟨hash, i.2⟩) m)[o]? = some p ↔
      (p.ptx = hash ∧ k ≤ p.n ∧ ∃ txin, vin[p.n - k]? = some txin ∧ txin.prevout = o) ∨
        (o ∉ vin.map CTxIn.prevout ∧ m[o]? = some p) := by
  induction vin generalizing k m with
  | nil => simp
  | cons x xs ih =>
    rw [map_cons, nodup_cons] at hd
    rw [zipIdx_cons, foldl_cons, ih hd.2 (k + 1), StdMap.get_insert]
    have hlater : ∀ txin, (k + 1 ≤ p.n ∧ xs[p.n - (k + 1)]? = some txin) ↔
        (k < p.n ∧ (x :: xs)[p.n - k]? = some txin) := by
      intro txin
      constructor
      · rintro ⟨hk, hx⟩
        refine ⟨hk, ?_⟩
        rwa [show p.n - k = p.n - (k + 1) + 1 by omega, getElem?_cons_succ]
      · rintro ⟨hk, hx⟩
        refine ⟨hk, ?_⟩
        rwa [show p.n - k = p.n - (k + 1) + 1 by omega, getElem?_cons_succ] at hx
    by_cases ho : x.prevout = o
    · -- the entry written here: no later input writes it again
      subst ho
      rw [if_pos rfl]
      constructor
      · rintro (⟨h1, h2, txin, h3, h4⟩ | ⟨_, h2⟩)
        · exact absurd (h4 ▸ mem_map_of_mem (mem_of_getElem? h3)) hd.1
        · cases h2
          exact .inl ⟨rfl, le_refl k, x, by simp, rfl⟩
      · rintro (⟨h1, h2, txin, h3, h4⟩ | ⟨h1, _⟩)
        · rcases Nat.eq_or_lt_of_le h2 with h2 | h2
          · refine .inr ⟨hd.1, ?_⟩
            cases p
            simp only at h1 h2
            rw [h1, h2]
          · obtain ⟨h2, h3⟩ := (hlater txin).mpr ⟨h2, h3⟩
            exact .inl ⟨h1, h2, txin, h3, h4⟩
        · simp at h1
    · rw [if_neg ho]
      constructor
      · rintro (⟨h1, h2, txin, h3, h4⟩ | ⟨h1, h2⟩)
        · obtain ⟨h2, h3⟩ := (hlater txin).mp ⟨h2, h3⟩
          exact .inl ⟨h1, Nat.le_of_lt h2, txin, h3, h4⟩
        · exact .inr ⟨by simpa [Ne.symm ho] using h1, h2⟩
      · rintro (⟨h1, h2, txin, h3, h4⟩ | ⟨h1, h2⟩)
        · rcases Nat.eq_or_lt_of_le h2 with h2 | h2
          · rw [h2, Nat.sub_self, getElem?_cons_zero] at h3
            cases h3
            exact absurd h4 ho
          · obtain ⟨h2, h3⟩ := (hlater txin).mpr ⟨h2, h3⟩
            exact .inl ⟨h1, h2, txin, h3, h4⟩
        · exact .inr ⟨by simpa [Ne.symm ho] using h1, h2⟩

/-- What the caller of `addUnchecked` has checked. -/
structure Addable (H : Hashes) (pool : CTxMemPool) (tx : CTransaction) : Prop where
  new : pool.mapTx[tx.getHash H]? = none
  distinct : (outpoints tx).Nodup
  unspent : ∀ o ∈ outpoints tx, pool.mapNextTx[o]? = none

theorem Indexed.addUnchecked (h : Indexed H pool) (ha : Addable H pool tx) :
    Indexed H (pool.addUnchecked (tx.getHash H) tx) := by
  constructor
  · intro i t ht
    rw [mapTx_addUnchecked] at ht
    split at ht
    next hi => cases ht; exact hi
    next => exact h.ids i t ht
  · intro o p
    rw [show (pool.addUnchecked (tx.getHash H) tx).mapNextTx[o]? = some p ↔ _ from
      get_insertInputs ha.distinct 0 pool.mapNextTx o p, mapTx_addUnchecked]
    constructor
    · rintro (⟨h1, _, txin, h2, h3⟩ | ⟨_, h2⟩)
      · exact ⟨tx, txin, by rw [if_pos h1.symm], h2, h3⟩
      · obtain ⟨t, txin, ht, hin, hout⟩ := (h.spenders o p).mp h2
        refine ⟨t, txin, ?_, hin, hout⟩
        -- the entry is an old one, and the id of the new transaction is new
        rwa [if_neg]
        intro hid
        rw [← hid, ha.new] at ht
        cases ht
    · rintro ⟨t, txin, ht, hin, hout⟩
      split at ht
      next hid =>
        cases ht
        exact .inl ⟨hid.symm, Nat.zero_le _, txin, hin, hout⟩
      next =>
        have hold := (h.spenders o p).mpr ⟨t, txin, ht, hin, hout⟩
        refine .inr ⟨?_, hold⟩
        intro ho
        rw [ha.unspent o ho] at hold
        cases hold

/-! ## §3. Removing one transaction. -/

/-- A transaction is the pooled one with its id, or no pooled one has its id. -/
def EqualOrAbsent (H : Hashes) (pool : CTxMemPool) (tx : CTransaction) : Prop :=
  ∀ t, pool.mapTx[tx.getHash H]? = some t → t.eqv tx = true

theorem EqualOrAbsent.of_mem (h : Indexed H pool) (ht : pool.mapTx[i]? = some t) :
    EqualOrAbsent H pool t := by
  intro u hu
  rw [h.ids i t ht, ht] at hu
  cases hu
  simp [CTransaction.eqv, eqv_inputs_self]

/-- A pool with the invariant whose transactions another one has. -/
structure Shrunk (H : Hashes) (pool pool' : CTxMemPool) : Prop where
  indexed : Indexed H pool'
  sub : ∀ (i : UInt256) (t : CTransaction), pool'.mapTx[i]? = some t → pool.mapTx[i]? = some t

theorem Shrunk.refl (h : Indexed H pool) : Shrunk H pool pool := ⟨h, fun _ _ ht => ht⟩

theorem Shrunk.trans (h : Shrunk H pool pool') (h' : Shrunk H pool' pool'') :
    Shrunk H pool pool'' :=
  ⟨h'.indexed, fun i t ht => h.sub i t (h'.sub i t ht)⟩

theorem Shrunk.stays_absent (h : Shrunk H pool pool') (hi : pool.mapTx[i]? = none) :
    pool'.mapTx[i]? = none := by
  rw [Option.eq_none_iff_forall_ne_some]
  intro t ht
  rw [h.sub i t ht] at hi
  cases hi

theorem Shrunk.entry (hp : Indexed H pool) (h : Shrunk H pool pool') {p : CInPoint}
    (ho : pool'.mapNextTx[o]? = some p) : pool.mapNextTx[o]? = some p := by
  obtain ⟨t, txin, ht, hin, hout⟩ := (h.indexed.spenders o p).mp ho
  exact (hp.spenders o p).mpr ⟨t, txin, h.sub _ t ht, hin, hout⟩

theorem Shrunk.entry_none (hp : Indexed H pool) (h : Shrunk H pool pool')
    (ho : pool.mapNextTx[o]? = none) : pool'.mapNextTx[o]? = none := by
  rw [Option.eq_none_iff_forall_ne_some]
  intro p hp'
  rw [h.entry hp hp'] at ho
  cases ho

theorem EqualOrAbsent.shrunk (h : EqualOrAbsent H pool tx) (hs : Shrunk H pool pool') :
    EqualOrAbsent H pool' tx :=
  fun t ht => h t (hs.sub _ t ht)

/-- The entries of a transaction: those that name its id. -/
def Owns (pool : CTxMemPool) (hash : UInt256) (tx : CTransaction) : Prop :=
  ∀ (o : COutPoint) (p : CInPoint), pool.mapNextTx[o]? = some p →
    (p.ptx = hash ↔ o ∈ outpoints tx)

theorem Indexed.owns (h : Indexed H pool) (he : EqualOrAbsent H pool tx)
    (ht : pool.mapTx[tx.getHash H]? = some t) :
    Owns pool (tx.getHash H) tx := by
  have hout := (eqv_outpoints (he t ht)).1
  intro o p hp
  rw [← hout]
  constructor
  · intro hid
    obtain ⟨u, hu, ho⟩ := h.spends hp
    rw [hid, ht] at hu
    cases hu
    exact ho
  · intro ho
    obtain ⟨q, hq, hid⟩ := h.entry ht ho
    rw [hp] at hq
    cases hq
    exact hid

theorem get_erase (pool : CTxMemPool) (hash : UInt256) (tx : CTransaction) (o : COutPoint) :
    (pool.erase hash tx).mapNextTx[o]? = if o ∈ outpoints tx then none else pool.mapNextTx[o]? := by
  rw [outpoints, ← StdMap.get_eraseAll, StdMap.eraseAll, foldl_map]
  rfl

/-- Erasing a transaction with its entries keeps the invariant, also where the
transaction itself is gone already. -/
theorem Shrunk.erase (h : Shrunk H pool pool') (hpool : Indexed H pool) {hash : UInt256}
    (howns : Owns pool hash tx) : Shrunk H pool (pool'.erase hash tx) := by
  refine ⟨⟨?_, ?_⟩, ?_⟩
  · intro i t ht
    rw [mapTx_erase] at ht
    split at ht
    next => cases ht
    next => exact h.indexed.ids i t ht
  · intro o p
    rw [get_erase, mapTx_erase]
    by_cases ho : o ∈ outpoints tx
    · rw [if_pos ho]
      refine ⟨nofun, ?_⟩
      rintro ⟨t, txin, ht, hin, hout⟩
      split at ht
      next => cases ht
      next hne =>
        have hp := h.entry hpool ((h.indexed.spenders o p).mpr ⟨t, txin, ht, hin, hout⟩)
        exact absurd ((howns o p hp).mpr ho).symm hne
    · rw [if_neg ho, h.indexed.spenders o p]
      constructor
      · rintro ⟨t, txin, ht, hin, hout⟩
        refine ⟨t, txin, ?_, hin, hout⟩
        rwa [if_neg]
        intro hid
        have hp := h.entry hpool ((h.indexed.spenders o p).mpr ⟨t, txin, ht, hin, hout⟩)
        exact ho ((howns o p hp).mp hid.symm)
      · rintro ⟨t, txin, ht, hin, hout⟩
        split at ht
        next => cases ht
        next => exact ⟨t, txin, ht, hin, hout⟩
  · intro i t ht
    rw [mapTx_erase] at ht
    split at ht
    next => cases ht
    next => exact h.sub i t ht

/-! ## §4. Removing descendants. -/

variable (depth : Nat)

theorem removeWithin_shrunk {pool : CTxMemPool} (h : Indexed H pool)
    (he : EqualOrAbsent H pool tx) : Shrunk H pool (pool.removeWithin H depth tx) := by
  induction depth generalizing pool tx with
  | zero => exact .refl h
  | succ depth ih =>
    rw [removeWithin]
    dsimp only
    split
    next hc =>
      obtain ⟨t, ht⟩ := StdMap.contains_iff.mp hc
      refine Shrunk.erase ?_ h (h.owns he ht)
      -- the loop over the outputs: every child is a transaction of the pool
      refine run_rule (I := fun _ p => Shrunk H pool p) (.refl h) ?_
      intro _ i _ p _ hp
      cases hs : p.spender ⟨tx.getHash H, UInt32.ofNat i⟩ with
      | none => simpa only [hs] using hp
      | some child =>
        obtain ⟨hchild, _⟩ := hp.indexed.spender_eq_some hs
        simpa only [hs] using hp.trans (ih hp.indexed (.of_mem hp.indexed hchild))
    next => exact .refl h

/-- A set of ids that has, with a transaction of the pool, its parents in the pool. -/
def ParentClosed (pool : CTxMemPool) (K : UInt256 → Prop) : Prop :=
  ∀ (i : UInt256) (t : CTransaction), pool.mapTx[i]? = some t → K i →
    ∀ o ∈ outpoints t, pool.mapTx.contains o.hash = true → K o.hash

theorem ParentClosed.shrunk {K : UInt256 → Prop} (h : ParentClosed pool K)
    (hs : Shrunk H pool pool') : ParentClosed pool' K := by
  intro i t ht hi o ho hc
  obtain ⟨u, hu⟩ := StdMap.contains_iff.mp hc
  exact h i t (hs.sub i t ht) hi o ho (StdMap.contains_iff.mpr ⟨u, hs.sub _ u hu⟩)

/-- **What a recursive removal leaves alone**: a set of ids that is closed under
parents and does not have the transaction. -/
theorem removeWithin_keeps {K : UInt256 → Prop} {pool : CTxMemPool} (h : Indexed H pool)
    (he : EqualOrAbsent H pool tx) (hK : ParentClosed pool K) (htx : ¬ K (tx.getHash H))
    (hi : K i) : (pool.removeWithin H depth tx).mapTx[i]? = pool.mapTx[i]? := by
  induction depth generalizing pool tx with
  | zero => rfl
  | succ depth ih =>
    rw [removeWithin]
    dsimp only
    split
    next hc =>
      have hne : tx.getHash H ≠ i := fun heq => htx (heq ▸ hi)
      rw [mapTx_erase, if_neg hne]
      refine And.right (run_rule (I := fun _ p => Shrunk H pool p ∧
        p.mapTx[i]? = pool.mapTx[i]?) ⟨.refl h, rfl⟩ ?_)
      rintro _ n _ p _ ⟨hp, hkept⟩
      cases hs : p.spender ⟨tx.getHash H, UInt32.ofNat n⟩ with
      | none => exact ⟨hp, hkept⟩
      | some child =>
        obtain ⟨hchild, ho⟩ := hp.indexed.spender_eq_some hs
        have heq : EqualOrAbsent H p child := .of_mem hp.indexed hchild
        -- a child in the set would have its parent there
        have hout : ¬ K (child.getHash H) :=
          fun hin => htx (hK _ child (hp.sub _ child hchild) hin _ ho hc)
        exact ⟨hp.trans (removeWithin_shrunk depth hp.indexed heq),
          (ih hp.indexed heq (hK.shrunk hp) hout).trans hkept⟩
    next => rfl

/-- A removal that takes every descendant along: nothing that stays spends an
output of what went. -/
structure Pruned (H : Hashes) (pool pool' : CTxMemPool) : Prop extends Shrunk H pool pool' where
  closed : ∀ (i : UInt256) (t : CTransaction), pool.mapTx[i]? = some t →
    pool'.mapTx[i]? = none → ∀ n : UInt32, n.toNat < t.vout.length →
      pool'.mapNextTx[(⟨i, n⟩ : COutPoint)]? = none

theorem Pruned.refl (h : Indexed H pool) : Pruned H pool pool := by
  refine ⟨.refl h, ?_⟩
  intro i t ht hn
  rw [ht] at hn
  cases hn

theorem Pruned.trans (h : Pruned H pool pool') (h' : Pruned H pool' pool'') :
    Pruned H pool pool'' := by
  refine ⟨h.toShrunk.trans h'.toShrunk, ?_⟩
  intro i t ht hn n hlt
  -- it went in the first removal or in the second
  cases hi : pool'.mapTx[i]? with
  | none => exact h'.toShrunk.entry_none h.indexed (h.closed i t ht hi n hlt)
  | some u =>
    have hu := h.sub i u hi
    rw [ht] at hu
    cases hu
    exact h'.closed i t hi hn n hlt

/-- A transaction spends ids of a lower rank than its own. -/
def Ranked (H : Hashes) (rank : UInt256 → Nat) (tx : CTransaction) : Prop :=
  ∀ txin ∈ tx.vin, rank txin.prevout.hash < rank (tx.getHash H)

/-- Every pool transaction is ranked, so no chain of spends comes back. -/
def RankedPool (H : Hashes) (rank : UInt256 → Nat) (pool : CTxMemPool) : Prop :=
  ∀ (i : UInt256) (t : CTransaction), pool.mapTx[i]? = some t → Ranked H rank t

theorem RankedPool.shrunk (h : RankedPool H rank pool) (hs : Shrunk H pool pool') :
    RankedPool H rank pool' :=
  fun i t ht => h i t (hs.sub i t ht)

theorem RankedPool.lt (h : RankedPool H rank pool) (hp : Indexed H pool)
    (ht : pool.mapTx[i]? = some t) (ho : o ∈ outpoints t) : rank o.hash < rank i := by
  obtain ⟨txin, hin, rfl⟩ := mem_map.mp ho
  rw [← hp.ids i t ht]
  exact h i t ht txin hin

/-- The number of pool transactions from a rank up: how deep a removal that
starts there can go. -/
def countFrom (rank : UInt256 → Nat) (r : Nat) (pool : CTxMemPool) : Nat :=
  (pool.mapTx.keys.toFinset.filter fun i => r ≤ rank i).card

theorem mem_keys_iff :
    i ∈ pool.mapTx.keys.toFinset ↔ ∃ t, pool.mapTx[i]? = some t := by
  rw [mem_toFinset, Std.ExtTreeMap.mem_keys, ← StdMap.contains_iff]
  rfl

theorem countFrom_le_size (rank : UInt256 → Nat) (r : Nat) (pool : CTxMemPool) :
    countFrom rank r pool ≤ pool.mapTx.size := by
  rw [← Std.ExtTreeMap.length_keys]
  exact (Finset.card_filter_le _ _).trans (toFinset_card_le _)

theorem countFrom_le (rank : UInt256 → Nat) (r : Nat) (h : Shrunk H pool pool') :
    countFrom rank r pool' ≤ countFrom rank r pool := by
  refine Finset.card_le_card (Finset.filter_subset_filter _ ?_)
  intro i hi
  obtain ⟨t, ht⟩ := mem_keys_iff.mp hi
  exact mem_keys_iff.mpr ⟨t, h.sub i t ht⟩

theorem countFrom_lt {r : Nat} (ht : pool.mapTx[i]? = some t) (hr : rank i < r) :
    countFrom rank r pool < countFrom rank (rank i) pool := by
  refine Finset.card_lt_card ((Finset.ssubset_iff_of_subset ?_).mpr ⟨i, ?_, ?_⟩)
  · intro j hj
    rw [Finset.mem_filter] at hj ⊢
    exact ⟨hj.1, by omega⟩
  · exact Finset.mem_filter.mpr ⟨mem_keys_iff.mpr ⟨t, ht⟩, le_refl _⟩
  · intro hi
    have := (Finset.mem_filter.mp hi).2
    omega

/-- The loop over the outputs of a transaction, for a step that removes the
spender of one output with its descendants. -/
theorem outputs_pruned {f : CTxMemPool → Nat → CTxMemPool} {hash : UInt256}
    (h : Indexed H pool) (n : Nat)
    (hnone : ∀ p i, p.spender ⟨hash, UInt32.ofNat i⟩ = none → f p i = p)
    (hsome : ∀ p i child, Pruned H pool p → p.spender ⟨hash, UInt32.ofNat i⟩ = some child →
      Pruned H p (f p i) ∧ (f p i).mapTx[child.getHash H]? = none) :
    Pruned H pool ((range n).foldl f pool) ∧ ∀ i < n,
      ((range n).foldl f pool).mapNextTx[(⟨hash, UInt32.ofNat i⟩ : COutPoint)]? = none := by
  suffices hloop : Pruned H pool ((range n).foldl f pool) ∧ ∀ i ∈ range n,
      ((range n).foldl f pool).mapNextTx[(⟨hash, UInt32.ofNat i⟩ : COutPoint)]? = none from
    ⟨hloop.1, fun i hi => hloop.2 i (mem_range.mpr hi)⟩
  refine run_rule (I := fun done p => Pruned H pool p ∧ ∀ i ∈ done,
    p.mapNextTx[(⟨hash, UInt32.ofNat i⟩ : COutPoint)]? = none) ⟨.refl h, nofun⟩ ?_
  rintro done i rest p _ ⟨hp, hfree⟩
  cases hs : p.spender ⟨hash, UInt32.ofNat i⟩ with
  | none =>
    rw [hnone p i hs]
    refine ⟨hp, ?_⟩
    intro j hj
    rcases mem_append.mp hj with hj | hj
    · exact hfree j hj
    · rw [mem_singleton.mp hj]
      exact hp.indexed.spender_eq_none.mp hs
  | some child =>
    obtain ⟨hstep, hgone⟩ := hsome p i child hp hs
    refine ⟨hp.trans hstep, ?_⟩
    intro j hj
    rcases mem_append.mp hj with hj | hj
    · exact hstep.toShrunk.entry_none hp.indexed (hfree j hj)
    · -- whoever spends this output now spent it before, and that one is gone
      rw [mem_singleton.mp hj, Option.eq_none_iff_forall_ne_some]
      intro q hq
      obtain ⟨hchild, ho⟩ := hp.indexed.spender_eq_some hs
      obtain ⟨u, hu, hou⟩ := hstep.indexed.spends hq
      rw [← hp.indexed.spender_unique hchild (hstep.sub _ u hu) ho hou, hgone] at hu
      cases hu

theorem erase_pruned (h : Indexed H pool) (he : EqualOrAbsent H pool tx)
    (ht : pool.mapTx[tx.getHash H]? = some t) (hloop : Pruned H pool pool' ∧ ∀ i < tx.vout.length,
    pool'.mapNextTx[(⟨tx.getHash H, UInt32.ofNat i⟩ : COutPoint)]? = none) :
    Pruned H pool (pool'.erase (tx.getHash H) tx) ∧
      (pool'.erase (tx.getHash H) tx).mapTx[tx.getHash H]? = none := by
  obtain ⟨hp, hfree⟩ := hloop
  have hget : ∀ i, (pool'.erase (tx.getHash H) tx).mapTx[i]? =
      if tx.getHash H = i then none else pool'.mapTx[i]? := StdMap.get_erase pool'.mapTx _
  refine ⟨⟨hp.toShrunk.erase h (h.owns he ht), ?_⟩, by rw [hget, if_pos rfl]⟩
  intro i u hu hgone n hn
  have hbefore : pool'.mapNextTx[(⟨i, n⟩ : COutPoint)]? = none := by
    rw [hget] at hgone
    split at hgone
    next hi =>
      subst hi
      rw [ht] at hu
      cases hu
      have := hfree n.toNat (by rwa [← (eqv_outpoints (he t ht)).2])
      rwa [UInt32.ofNat_toNat] at this
    next => exact hp.closed i u hu hgone n hn
  rw [get_erase, hbefore]
  split <;> rfl

/-- **Recursive removal.**  The transaction and its descendants go, as soon as
the depth covers the ranks from the transaction up. -/
theorem removeWithin_pruned {pool : CTxMemPool} (h : Indexed H pool) (hr : RankedPool H rank pool)
    (he : EqualOrAbsent H pool tx) (hdepth : countFrom rank (rank (tx.getHash H)) pool ≤ depth) :
    Pruned H pool (pool.removeWithin H depth tx) ∧
    (pool.removeWithin H depth tx).mapTx[tx.getHash H]? = none := by
  induction depth generalizing pool tx with
  | zero =>
    refine ⟨.refl h, ?_⟩
    -- a pool transaction is counted from its own rank up
    rw [removeWithin, Option.eq_none_iff_forall_ne_some]
    intro t ht
    have hpos : 0 < countFrom rank (rank (tx.getHash H)) pool :=
      Nat.zero_lt_of_lt (countFrom_lt ht (Nat.lt_succ_self _))
    omega
  | succ depth ih =>
    rw [removeWithin]
    dsimp only
    split
    next hc =>
      obtain ⟨t, ht⟩ := StdMap.contains_iff.mp hc
      refine erase_pruned h he ht (outputs_pruned h _ (fun p i hs => by simp only [hs]) ?_)
      intro p i child hp hs
      simp only [hs]
      -- a child has a higher rank, so one level less is enough for it
      obtain ⟨hchild, ho⟩ := hp.indexed.spender_eq_some hs
      have hlt := (hr.shrunk hp.toShrunk).lt hp.indexed hchild ho
      have hcount := countFrom_lt ht hlt
      have hle := countFrom_le rank (rank (child.getHash H)) hp.toShrunk
      exact ih hp.indexed (hr.shrunk hp.toShrunk) (.of_mem hp.indexed hchild) (by omega)
    next hc =>
      exact ⟨.refl h, StdMap.contains_eq_false_iff.mp (Bool.eq_false_iff.mpr hc)⟩

/-! ## §5. The calls on the pool. -/

theorem remove_shrunk (h : Indexed H pool) (he : EqualOrAbsent H pool tx) (fRecursive : Bool) :
    Shrunk H pool (pool.remove H tx fRecursive) := by
  unfold remove
  split
  next => exact removeWithin_shrunk _ h he
  next =>
    split
    next hc =>
      obtain ⟨t, ht⟩ := StdMap.contains_iff.mp hc
      exact (Shrunk.refl h).erase h (h.owns he ht)
    next => exact .refl h

theorem get_remove (pool : CTxMemPool) (tx : CTransaction) (i : UInt256) :
    (pool.remove H tx false).mapTx[i]? =
      if tx.getHash H = i then none else pool.mapTx[i]? := by
  unfold remove
  rw [if_neg Bool.false_ne_true]
  split
  next hc => exact pool.mapTx_erase (tx.getHash H) i tx
  next hc =>
    split
    next hi =>
      rw [hi] at hc
      exact StdMap.contains_eq_false_iff.mp (Bool.eq_false_iff.mpr hc)
    next => rfl

theorem remove_gone (pool : CTxMemPool) (tx : CTransaction) (fRecursive : Bool) :
    (pool.remove H tx fRecursive).mapTx[tx.getHash H]? = none := by
  cases fRecursive with
  | false => rw [get_remove, if_pos rfl]
  | true =>
    rw [remove, if_pos rfl, removeWithin]
    dsimp only
    split
    next => rw [mapTx_erase, if_pos rfl]
    next hc => exact StdMap.contains_eq_false_iff.mp (Bool.eq_false_iff.mpr hc)

theorem remove_pruned (h : Indexed H pool) (hr : RankedPool H rank pool)
    (he : EqualOrAbsent H pool tx) :
    Pruned H pool (pool.remove H tx true) := by
  rw [remove, if_pos rfl]
  exact (removeWithin_pruned _ h hr he ((countFrom_le_size rank _ pool).trans (Nat.le_succ _))).1

/-- The ends of one turn of `removeConflicts` on an outpoint: nothing spends it, an
equal transaction does, or the one that does is removed. -/
inductive ConflictTurn (H : Hashes) (pool : CTxMemPool) (tx : CTransaction) (o : COutPoint) :
    CTxMemPool → Prop
  | free (hs : pool.spender o = none) : ConflictTurn H pool tx o pool
  | same (txConflict : CTransaction) (hs : pool.spender o = some txConflict)
      (heq : txConflict.eqv tx = true) : ConflictTurn H pool tx o pool
  | removed (txConflict : CTransaction) (hs : pool.spender o = some txConflict)
      (hne : txConflict.eqv tx = false) :
      ConflictTurn H pool tx o (pool.remove H txConflict true)

theorem removeConflicts_rule {I : List COutPoint → CTxMemPool → Prop} (h0 : I [] pool)
    (hstep : ∀ done o p p', I done p → o ∈ outpoints tx → ConflictTurn H p tx o p' →
    I (done ++ [o]) p') : I (outpoints tx) (pool.removeConflicts H tx) := by
  unfold removeConflicts outpoints
  refine run_rule (I := fun done p => I (done.map CTxIn.prevout) p) h0 ?_
  intro done txin rest p hvin hp
  rw [map_append, map_singleton]
  refine hstep _ txin.prevout p _ hp ?_ ?_
  · exact mem_map_of_mem (hvin ▸ mem_append_right _ mem_cons_self)
  · cases hs : p.spender txin.prevout with
    | none => exact .free hs
    | some txConflict =>
      dsimp only
      split
      next heq => exact .same txConflict hs heq
      next hne => exact .removed txConflict hs (Bool.eq_false_iff.mpr hne)

theorem ConflictTurn.shrunk (h : Indexed H pool) (hturn : ConflictTurn H pool tx o pool') :
    Shrunk H pool pool' := by
  cases hturn with
  | free hs => exact .refl h
  | same txConflict hs heq => exact .refl h
  | removed txConflict hs hne =>
    obtain ⟨hmem, _⟩ := h.spender_eq_some hs
    exact remove_shrunk h (.of_mem h hmem) true

theorem ConflictTurn.spends (h : Indexed H pool) (hturn : ConflictTurn H pool tx o pool')
    (ht : pool'.mapTx[i]? = some t) (ho : o ∈ outpoints t) : t.eqv tx = true := by
  have hold : pool.mapTx[i]? = some t := (hturn.shrunk h).sub i t ht
  cases hturn with
  | free hs =>
    obtain ⟨q, hq, _⟩ := h.entry hold ho
    rw [h.spender_eq_none.mp hs] at hq
    cases hq
  | same txConflict hs heq =>
    -- an outpoint has one spender, which is the equal one
    obtain ⟨hmem, hin⟩ := h.spender_eq_some hs
    obtain rfl := h.spender_unique hmem hold hin ho
    rw [hmem] at hold
    cases hold
    exact heq
  | removed txConflict hs hne =>
    -- the one spender is the transaction just removed
    obtain ⟨hmem, hin⟩ := h.spender_eq_some hs
    obtain rfl := h.spender_unique hmem hold hin ho
    rw [remove_gone] at ht
    cases ht

theorem removeConflicts_shrunk (h : Indexed H pool) (tx : CTransaction) :
    Shrunk H pool (pool.removeConflicts H tx) :=
  removeConflicts_rule (I := fun _ p => Shrunk H pool p) (.refl h)
    fun _ _ _ _ hp _ hturn => hp.trans (hturn.shrunk hp.indexed)

/-- **After the conflicts of a transaction are removed**, only an equal one spends
what it spends. -/
theorem removeConflicts_spends (h : Indexed H pool)
    (ht : (pool.removeConflicts H tx).mapTx[i]? = some t) (ho : o ∈ outpoints tx)
    (hot : o ∈ outpoints t) : t.eqv tx = true := by
  have hall : Shrunk H pool (pool.removeConflicts H tx) ∧
      ∀ o ∈ outpoints tx, ∀ (i : UInt256) (t : CTransaction),
        (pool.removeConflicts H tx).mapTx[i]? = some t → o ∈ outpoints t → t.eqv tx = true := by
    refine removeConflicts_rule (I := fun done p => Shrunk H pool p ∧ ∀ o ∈ done,
      ∀ (i : UInt256) (t : CTransaction), p.mapTx[i]? = some t → o ∈ outpoints t →
        t.eqv tx = true) ⟨.refl h, nofun⟩ ?_
    rintro done o p p' ⟨hp, hdone⟩ _ hturn
    have hstep : Shrunk H p p' := hturn.shrunk hp.indexed
    refine ⟨hp.trans hstep, ?_⟩
    intro o' ho' i t ht hot
    rcases mem_append.mp ho' with ho' | ho'
    · exact hdone o' ho' i t (hstep.sub i t ht) hot
    · obtain rfl := mem_singleton.mp ho'
      exact hturn.spends hp.indexed ht hot
  exact hall.2 o ho i t ht hot

/-- What `removeConflicts` leaves alone: a set of ids that is closed under parents
and has no conflicting transaction. -/
theorem removeConflicts_keeps {K : UInt256 → Prop} (h : Indexed H pool) (hK : ParentClosed pool K)
    (hfree : ∀ (i : UInt256) (t : CTransaction), pool.mapTx[i]? = some t → K i → (∃ o ∈ outpoints
    tx, o ∈ outpoints t) → t.eqv tx = true) (hi : K i) :
    (pool.removeConflicts H tx).mapTx[i]? = pool.mapTx[i]? := by
  refine And.right (removeConflicts_rule (I := fun _ p => Shrunk H pool p ∧
    p.mapTx[i]? = pool.mapTx[i]?) ⟨.refl h, rfl⟩ ?_)
  rintro _ o p p' ⟨hp, hkept⟩ ho hturn
  refine ⟨hp.trans (hturn.shrunk hp.indexed), ?_⟩
  cases hturn with
  | free hs => exact hkept
  | same txConflict hs heq => exact hkept
  | removed txConflict hs hne =>
    obtain ⟨hmem, hin⟩ := hp.indexed.spender_eq_some hs
    have hout : ¬ K (txConflict.getHash H) := by
      intro hconflict
      rw [hfree _ txConflict (hp.sub _ txConflict hmem) hconflict ⟨o, ho, hin⟩] at hne
      cases hne
    rw [remove, if_pos rfl]
    exact (removeWithin_keeps _ hp.indexed (.of_mem hp.indexed hmem) (hK.shrunk hp) hout
      hi).trans hkept

theorem removeConflicts_pruned (h : Indexed H pool) (hr : RankedPool H rank pool)
    (tx : CTransaction) :
    Pruned H pool (pool.removeConflicts H tx) := by
  refine removeConflicts_rule (I := fun _ p => Pruned H pool p) (.refl h) ?_
  intro _ o p p' hp _ hturn
  cases hturn with
  | free hs => exact hp
  | same txConflict hs heq => exact hp
  | removed txConflict hs hne =>
    obtain ⟨hmem, _⟩ := hp.indexed.spender_eq_some hs
    exact hp.trans (remove_pruned hp.indexed (hr.shrunk hp.toShrunk) (.of_mem hp.indexed hmem))

/-- A call on the pool. -/
inductive PoolCall
  | addUnchecked (tx : CTransaction)
  | remove (tx : CTransaction) (fRecursive : Bool)
  | removeConflicts (tx : CTransaction)
  | clear

def PoolCall.step (H : Hashes) (pool : CTxMemPool) : PoolCall → CTxMemPool
  | addUnchecked tx => pool.addUnchecked (tx.getHash H) tx
  | remove tx fRecursive => pool.remove H tx fRecursive
  | removeConflicts tx => pool.removeConflicts H tx
  | clear => pool.clear

/-- What the callers see to: a transaction is added as `AcceptToMemoryPool`
adds it, and one that is removed is the pooled one or absent. -/
def PoolCall.Proper (H : Hashes) (pool : CTxMemPool) : PoolCall → Prop
  | addUnchecked tx => Addable H pool tx
  | remove tx _ => EqualOrAbsent H pool tx
  | removeConflicts _ => True
  | clear => True

def PoolCall.Recursive : PoolCall → Prop
  | remove _ fRecursive => fRecursive = true
  | removeConflicts _ => True
  | addUnchecked _ => False
  | clear => False

theorem PoolCall.step_indexed (h : Indexed H pool) (c : PoolCall) (hc : c.Proper H pool) :
    Indexed H (c.step H pool) := by
  cases c with
  | addUnchecked tx => exact h.addUnchecked hc
  | remove tx fRecursive => exact (remove_shrunk h hc fRecursive).indexed
  | removeConflicts tx => exact (removeConflicts_shrunk h tx).indexed
  | clear => exact empty_indexed H _

theorem PoolCall.step_mem (h : Indexed H pool) {c : PoolCall} (hc : c.Proper H pool)
    (ht : (c.step H pool).mapTx[i]? = some t) :
    pool.mapTx[i]? = some t ∨ c = .addUnchecked t := by
  cases c with
  | addUnchecked tx =>
    rw [PoolCall.step, mapTx_addUnchecked] at ht
    split at ht
    · cases ht
      exact .inr rfl
    · exact .inl ht
  | remove tx fRecursive => exact .inl ((remove_shrunk h hc fRecursive).sub i t ht)
  | removeConflicts tx => exact .inl ((removeConflicts_shrunk h tx).sub i t ht)
  | clear =>
    rw [show (PoolCall.step H pool .clear).mapTx[i]? = none from StdMap.get_empty i] at ht
    cases ht

theorem PoolCall.step_pruned (h : Indexed H pool) (hr : RankedPool H rank pool) {c : PoolCall}
    (hc : c.Proper H pool) (hrec : c.Recursive) :
    Pruned H pool (c.step H pool) := by
  cases c with
  | addUnchecked tx => cases hrec
  | remove tx fRecursive =>
    cases hrec
    exact remove_pruned h hr hc
  | removeConflicts tx => exact removeConflicts_pruned h hr tx
  | clear => cases hrec

theorem run_rankedPool {calls : List PoolCall} (h : Indexed H pool) (hr : RankedPool H rank pool)
    (hadd : ∀ tx, .addUnchecked tx ∈ calls → Ranked H rank tx)
    (hcalls : Along (PoolCall.step H) (fun p c => c.Proper H p) pool calls) :
    RankedPool H rank (run (PoolCall.step H) pool calls) := by
  induction calls generalizing pool with
  | nil => exact hr
  | cons c calls ih =>
    refine ih (c.step_indexed h hcalls.1) ?_ (fun tx htx => hadd tx (.tail c htx)) hcalls.2
    intro i t ht
    rcases PoolCall.step_mem h hcalls.1 ht with hold | rfl
    · exact hr i t hold
    · exact hadd t (.head calls)

/-- **The two maps stay inverse of each other**, for every sequence of calls
from the empty pool.  A recursive removal leaves no transaction that spends an
output of a removed one, since no chain of spends comes back to its start. -/
theorem pool_maps_stay_inverse (H : Hashes) (calls : List PoolCall)
    (hcalls : Along (PoolCall.step H) (fun p c => c.Proper H p) .empty calls) :
    Indexed H (run (PoolCall.step H) .empty calls) ∧
      ∀ rank : UInt256 → Nat, (∀ tx, .addUnchecked tx ∈ calls → Ranked H rank tx) →
        ∀ done c rest, calls = done ++ c :: rest → PoolCall.Recursive c →
          ∀ (i : UInt256) (t : CTransaction),
            (run (PoolCall.step H) .empty done).mapTx[i]? = some t →
            (run (PoolCall.step H) .empty (done ++ [c])).mapTx[i]? = none →
            ∀ (j : UInt256) (u : CTransaction),
              (run (PoolCall.step H) .empty (done ++ [c])).mapTx[j]? = some u →
              ∀ n : UInt32, n.toNat < t.vout.length → (⟨i, n⟩ : COutPoint) ∉ outpoints u := by
  have hempty : Indexed H .empty := empty_indexed H 0
  have hindexed : ∀ done, Along (PoolCall.step H) (fun p c => c.Proper H p) .empty done →
      Indexed H (run (PoolCall.step H) .empty done) := fun done hdone =>
    run_invariant (I := Indexed H) (fun p c hp hc => c.step_indexed hp hc) hempty hdone
  refine ⟨hindexed calls hcalls, ?_⟩
  rintro rank hadd done c rest rfl hrec i t ht hgone j u hu n hn hspent
  obtain ⟨hdone, hproper, _⟩ := along_append.mp hcalls
  have hranked : RankedPool H rank .empty := by
    intro i t ht
    rw [empty, StdMap.get_empty] at ht
    cases ht
  have hr := run_rankedPool hempty hranked (fun tx htx => hadd tx (mem_append_left _ htx)) hdone
  have hp := PoolCall.step_pruned (hindexed done hdone) hr hproper hrec
  rw [run_concat] at hgone hu
  obtain ⟨p, hp', _⟩ := hp.indexed.entry hu hspent
  rw [hp.closed i t ht hgone n hn] at hp'
  cases hp'

def sampleSpender (vin : List COutPoint) (vout : List Int64) : CTransaction :=
  ⟨1, 1100, vin.map fun o => ⟨o, [], [], 0⟩, vout.map fun nValue => ⟨nValue, 0, [OP_1]⟩, 0⟩

def sampleParent : CTransaction := sampleSpender [⟨9, 0⟩] [500, 300]

def sampleChild : CTransaction :=
  sampleSpender [⟨sampleParent.getHash sampleHashes, 0⟩, ⟨sampleParent.getHash sampleHashes, 1⟩]
    [700]

def sampleBystander : CTransaction := sampleSpender [⟨8, 0⟩] [100]

def sampleCalls : List PoolCall :=
  [.addUnchecked sampleParent, .addUnchecked sampleChild, .addUnchecked sampleBystander,
    .removeConflicts (sampleSpender [⟨9, 0⟩] [800])]

theorem pool_maps_stay_inverse_sample :
    Indexed sampleHashes (run (PoolCall.step sampleHashes) .empty sampleCalls) ∧
      (⟨sampleParent.getHash sampleHashes, 1⟩ : COutPoint) ∉ outpoints sampleBystander := by
  have hcalls : Along (PoolCall.step sampleHashes) (fun p c => c.Proper sampleHashes p) .empty
      sampleCalls :=
    ⟨⟨by decide +kernel, by decide +kernel, by decide +kernel⟩,
      ⟨by decide +kernel, by decide +kernel, by decide +kernel⟩,
      ⟨by decide +kernel, by decide +kernel, by decide +kernel⟩, trivial, trivial⟩
  obtain ⟨hindexed, hclosed⟩ := pool_maps_stay_inverse sampleHashes sampleCalls hcalls
  refine ⟨hindexed, ?_⟩
  let rank (i : UInt256) : Nat :=
    if i = sampleParent.getHash sampleHashes then 1
    else if i = sampleChild.getHash sampleHashes ∨ i = sampleBystander.getHash sampleHashes then 2
    else 0
  refine hclosed rank ?_ (sampleCalls.take 3) _ [] rfl trivial
    (sampleParent.getHash sampleHashes) sampleParent (by decide +kernel) (by decide +kernel)
    (sampleBystander.getHash sampleHashes) sampleBystander (by decide +kernel) 1
    (by decide +kernel)
  intro tx htx
  simp only [sampleCalls, mem_cons, PoolCall.addUnchecked.injEq, reduceCtorEq, or_false,
    not_mem_nil] at htx
  rcases htx with rfl | rfl | rfl <;> unfold Ranked <;> decide +kernel

end Fantom.Pool
