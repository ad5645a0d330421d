/-
  Fantom.Pool.Equality — `operator==` on transactions, beside the bytes that they are hashed from.

  * `setMerkleBranch`, `removeConflicts_eq` — where transactions are compared by it,
  * `eqv_exact_iff` — when it is equality of the bytes.
-/
import Fantom.Core.MerkleTree
import Fantom.Script.SignedBytes

namespace Fantom.Pool

open Core Lib Script List Option

/-! ## §1. The comparison. -/

variable (a b : CTransaction)

/-- The outputs have the same `nRounds`, one by one. -/
def SameRounds : Prop :=
  a.vout.map CTxOut.nRounds = b.vout.map CTxOut.nRounds

theorem txIn_eqv_iff (a b : CTxIn) : a.eqv b = true ↔ a.wire = b.wire := by
  obtain ⟨prevout, scriptSig, prevPubKey, nSequence⟩ := a
  obtain ⟨prevout', scriptSig', prevPubKey', nSequence'⟩ := b
  simp [CTxIn.eqv, CTxIn.wire, and_assoc]

theorem isEqv_iff (a b : List CTxIn) :
    a.isEqv b CTxIn.eqv = true ↔ a.map CTxIn.wire = b.map CTxIn.wire := by
  induction a generalizing b with
  | nil => cases b <;> simp [isEqv]
  | cons i a ih =>
    cases b with
    | nil => simp [isEqv]
    | cons j b => simp [isEqv, txIn_eqv_iff, ih]

theorem txOut_eq_iff (a b : CTxOut) : a = b ↔ a.wire = b.wire ∧ a.nRounds = b.nRounds := by
  obtain ⟨nValue, nRounds, scriptPubKey⟩ := a
  obtain ⟨nValue', nRounds', scriptPubKey'⟩ := b
  simp only [CTxOut.wire, CTxOut.mk.injEq]
  constructor
  · rintro ⟨hvalue, hrounds, hscript⟩
    exact ⟨⟨hvalue, trivial, hscript⟩, hrounds⟩
  · rintro ⟨⟨hvalue, -, hscript⟩, hrounds⟩
    exact ⟨hvalue, hrounds, hscript⟩

theorem vout_eq_iff (a b : List CTxOut) :
    a = b ↔ a.map CTxOut.wire = b.map CTxOut.wire ∧
      a.map CTxOut.nRounds = b.map CTxOut.nRounds := by
  induction a generalizing b with
  | nil => cases b <;> simp
  | cons o a ih =>
    cases b with
    | nil => simp
    | cons o' b =>
      simp only [cons.injEq, map_cons, ih b, txOut_eq_iff o o']
      exact and_and_and_comm

/-- **`operator==`** compares what is on the wire, and the rounds of the outputs beside it. -/
theorem eqv_iff : a.eqv b = true ↔ a.wire = b.wire ∧ SameRounds a b := by
  obtain ⟨nVersion, nTime, vin, vout, nLockTime⟩ := a
  obtain ⟨nVersion', nTime', vin', vout', nLockTime'⟩ := b
  simp only [CTransaction.eqv, CTransaction.wire, SameRounds, Bool.and_eq_true, beq_iff_eq,
    isEqv_iff, CTransaction.mk.injEq]
  rw [vout_eq_iff]
  constructor
  · rintro ⟨⟨⟨⟨hversion, htime⟩, hvin⟩, hvout, hrounds⟩, hlock⟩
    exact ⟨⟨hversion, htime, hvin, hvout, hlock⟩, hrounds⟩
  · rintro ⟨⟨hversion, htime, hvin, hvout, hlock⟩, hrounds⟩
    exact ⟨⟨⟨⟨hversion, htime⟩, hvin⟩, hvout, hrounds⟩, hlock⟩

theorem serialize_wire (tx : CTransaction) : tx.wire.serialize = tx.serialize := by
  have hvector {α : Type} (f : α → List UInt8) (g : α → α) (xs : List α)
      (h : ∀ x, f (g x) = f x) : serializeVector f (xs.map g) = serializeVector f xs := by
    unfold serializeVector
    rw [length_map, flatMap_map]
    simp only [h]
  unfold CTransaction.serialize CTransaction.wire
  dsimp only
  rw [hvector CTxIn.serialize CTxIn.wire _ fun _ => rfl,
    hvector CTxOut.serialize CTxOut.wire _ fun _ => rfl]

theorem serialize_eq_iff {a b : CTransaction} (ha : CTransaction.Countable a)
    (hb : CTransaction.Countable b) : a.serialize = b.serialize ↔ a.wire = b.wire := by
  constructor
  · intro h
    refine (prefixFree_transaction a b [] [] ha hb ?_).1
    rw [append_nil, append_nil, h]
  · intro h
    rw [← serialize_wire a, h, serialize_wire b]

theorem serialize_of_eqv {a b : CTransaction} (h : a.eqv b = true) :
    a.serialize = b.serialize := by
  rw [← serialize_wire a, ((eqv_iff a b).mp h).1, serialize_wire b]

/-- The two are one transaction only if their rounds agree as well. -/
def RoundsAgree : Prop := a.wire = b.wire → SameRounds a b

theorem eqv_iff_serialize {a b : CTransaction} (ha : CTransaction.Countable a)
    (hb : CTransaction.Countable b) :
    (a.eqv b = true ↔ a.serialize = b.serialize) ↔ RoundsAgree a b := by
  rw [eqv_iff, serialize_eq_iff ha hb]
  constructor
  · intro h hwire
    exact (h.mpr hwire).2
  · intro h
    exact ⟨fun hboth => hboth.1, fun hwire => ⟨hwire, h hwire⟩⟩

/-! ## §2. The place of a transaction in a block. -/

/-- `CMerkleTx`, without its transaction. -/
structure CMerkleTx where
  hashBlock : UInt256
  vMerkleBranch : List UInt256
  nIndex : Int
deriving DecidableEq

variable (vtx : List CTransaction) (tx : CTransaction)

/-- The loop of `SetMerkleBranch`. -/
def locate : Option Nat :=
  vtx.findIdx? fun t => t.eqv tx

/-- The place of the transaction with the same bytes. -/
def locateBytes : Option Nat :=
  vtx.findIdx? fun t => t.serialize = tx.serialize

/-- `SetMerkleBranch` with a block of that hash: the depth that it returns, where `mainDepth` is
the depth of a block in the main chain. -/
def setMerkleBranch {H : Hashes} (mainDepth : UInt256 → Option Int) (tx : CTransaction)
    (hashBlock : UInt256) (pblock : MerkleBlock H) : Option (Int × CMerkleTx) :=
  match locate pblock.vtx tx with
  | none => some (0, ⟨hashBlock, [], -1⟩)
  | some nIndex => do
    let (vMerkleBranch, _) ← pblock.getMerkleBranch nIndex
    return ((mainDepth hashBlock).getD 0, ⟨hashBlock, vMerkleBranch, nIndex⟩)

variable (H : Hashes)

/-- `GetDepthInMainChainINTERNAL`, with `fMerkleVerified`; `mainChain` is the depth and the merkle
root of a block in the main chain. -/
def getDepthInMainChainINTERNAL (mainChain : UInt256 → Option (Int × UInt256))
    (tx : CTransaction) (r : CMerkleTx) (fMerkleVerified : Bool) : Int × Bool :=
  if r.hashBlock = 0 ∨ r.nIndex = -1 then (0, fMerkleVerified)
  else
    match mainChain r.hashBlock with
    | none => (0, fMerkleVerified)
    | some (nDepth, hashMerkleRoot) =>
      if fMerkleVerified = false ∧
          checkMerkleBranch H (tx.getHash H) r.vMerkleBranch r.nIndex ≠ hashMerkleRoot then
        (0, false)
      else (nDepth, true)

/-- One call after another, each with the main chain of its time. -/
def depths (H : Hashes) (tx : CTransaction) (r : CMerkleTx) :
    Bool → List (UInt256 → Option (Int × UInt256)) → List Int
  | _, [] => []
  | fMerkleVerified, mainChain :: later =>
    let answer := getDepthInMainChainINTERNAL H mainChain tx r fMerkleVerified
    answer.1 :: depths H tx r answer.2 later

/-- **A transaction that was found in its block keeps its depth**: whatever becomes of the main
chain, each call answers with the depth of the block then. -/
theorem depths_setMerkleBranch {H : Hashes} {mainDepth : UInt256 → Option Int} {tx : CTransaction}
    {hashBlock : UInt256} {pblock : MerkleBlock H} {nDepth : Int} {r : CMerkleTx}
    {chains : List (UInt256 → Option (Int × UInt256))} (fMerkleVerified : Bool)
    (hset : setMerkleBranch mainDepth tx hashBlock pblock = some (nDepth, r))
    (hhash : hashBlock ≠ 0)
    (hroot : ∀ mainChain ∈ chains, ∀ d root, mainChain hashBlock = some (d, root) →
      Prod.fst <$> pblock.buildMerkleTree = some root) :
    depths H tx r fMerkleVerified chains = chains.map fun mainChain =>
      if (locate pblock.vtx tx).isSome then ((mainChain hashBlock).map Prod.fst).getD 0 else 0 := by
  unfold setMerkleBranch at hset
  -- one call, whatever was verified before
  suffices hcall : ∀ mainChain ∈ chains, ∀ f,
      (getDepthInMainChainINTERNAL H mainChain tx r f).1 =
        if (locate pblock.vtx tx).isSome then ((mainChain hashBlock).map Prod.fst).getD 0
        else 0 by
    clear hset hroot
    induction chains generalizing fMerkleVerified with
    | nil => rfl
    | cons mainChain later ih =>
      rw [forall_mem_cons] at hcall
      rw [depths, map_cons, hcall.1, ih _ hcall.2]
  intro mainChain hmem f
  cases hplace : locate pblock.vtx tx with
  | none =>
    rw [hplace] at hset
    cases hset
    rw [getDepthInMainChainINTERNAL, if_pos (.inr rfl)]
    rfl
  | some i =>
    rw [hplace] at hset
    obtain ⟨⟨branch, b'⟩, hbranch, hset⟩ := bind_eq_some_iff.mp hset
    cases hset
    obtain ⟨hi, heqv, -⟩ := findIdx?_eq_some_iff_getElem.mp hplace
    rw [getDepthInMainChainINTERNAL, if_neg (not_or.mpr ⟨hhash, by dsimp only; omega⟩)]
    dsimp only
    cases hview : mainChain hashBlock with
    | none => rfl
    | some entry =>
      obtain ⟨d, root⟩ := entry
      have hproved : checkMerkleBranch H (tx.getHash H) branch i = root := by
        have htree := hroot mainChain hmem d root hview
        obtain ⟨_, hbuild, -⟩ := pblock.buildMerkleTree_eq
        obtain ⟨_, hget, -⟩ := pblock.getMerkleBranch_eq hi
        rw [hbuild] at htree
        cases hget.symm.trans hbranch
        have hleaf : (pblock.vtx.map (CTransaction.getHash H))[i]? = some (tx.getHash H) := by
          rw [getElem?_map, getElem?_eq_getElem hi, CTransaction.getHash,
            ← serialize_of_eqv heqv]
          rfl
        rw [checkMerkleBranch, if_neg (by omega), climbBranch_eq]
        rw [MerkleTree.climb_branch hleaf] at htree
        exact Option.some.inj htree
      dsimp only
      rw [if_neg fun h => h.2 hproved]
      rfl

/-- The last of five transactions, in the main chain, out of it and in it again. -/
theorem depths_last :
    let pblock : MerkleBlock sampleHashes := .fresh sampleLeaves
    let mainChain (d : Int) : UInt256 → Option (Int × UInt256) := fun hash =>
      if hash = 3 then (Prod.fst <$> pblock.buildMerkleTree).map (d, ·) else none
    ∃ nDepth r, setMerkleBranch (fun _ => some 1) (.null 5) 3 pblock = some (nDepth, r) ∧
      depths sampleHashes (.null 5) r false [mainChain 1, fun _ => none, mainChain 7] =
        [1, 0, 7] := by
  intro pblock mainChain
  have hsome : (setMerkleBranch (fun _ => some 1) (.null 5) 3 pblock).isSome = true := by
    decide +kernel
  obtain ⟨⟨nDepth, r⟩, hset⟩ := isSome_iff_exists.mp hsome
  refine ⟨nDepth, r, hset, (depths_setMerkleBranch false hset (by decide) ?_).trans ?_⟩
  rotate_left
  · decide +kernel
  have hof (d' d : Int) (root : UInt256) (h : mainChain d' 3 = some (d, root)) :
      Prod.fst <$> pblock.buildMerkleTree = some root := by
    obtain ⟨_, hroot, heq⟩ := map_eq_some_iff.mp h
    cases heq
    exact hroot
  intro chain hchain d root h
  simp only [mem_cons, not_mem_nil, or_false] at hchain
  obtain rfl | rfl | rfl := hchain
  · exact hof 1 d root h
  · cases h
  · exact hof 7 d root h

theorem findIdx?_eq_iff {α : Type} {p q : α → Bool} (hpq : ∀ x, p x = true → q x = true)
    (l : List α) : l.findIdx? p = l.findIdx? q ↔ ∀ x, l.find? q = some x → p x = true := by
  induction l with
  | nil => simp
  | cons x l ih =>
    rw [findIdx?_cons, findIdx?_cons, find?_cons]
    by_cases hq : q x = true
    · by_cases hp : p x = true
      · simp [hp, hq]
      · -- the stricter search goes on behind `x`
        simp [hp, hq]
    · have hp : ¬ p x = true := fun hp => hq (hpq x hp)
      rw [if_neg hp, if_neg hq]
      simp only [hq]
      rw [← ih]
      exact ⟨fun h => map_injective (Nat.succ_injective) h, fun h => by rw [h]⟩

theorem locate_eq_iff : locate vtx tx = locateBytes vtx tx ↔
    ∀ t, vtx.find? (fun t => t.serialize = tx.serialize) = some t → t.eqv tx = true :=
  findIdx?_eq_iff (fun _ h => decide_eq_true (serialize_of_eqv h)) vtx

/-! ## §3. Conflicts. -/

/-- `removeConflicts` with a comparison of the bytes. -/
def removeOthers (pool : CTxMemPool) (tx : CTransaction) : CTxMemPool :=
  tx.vin.foldl (fun pool txin =>
    match pool.spender txin.prevout with
    | some txConflict =>
      if txConflict.serialize = tx.serialize then pool else pool.remove H txConflict true
    | none => pool) pool

/-- Every transaction of the smaller pool is in the other one. -/
def Within (pool pool' : CTxMemPool) : Prop :=
  ∀ (i : UInt256) (t : CTransaction), pool.mapTx[i]? = some t → pool'.mapTx[i]? = some t

theorem Within.erase {pool pool' : CTxMemPool} (h : Within pool pool') (hash : UInt256)
    (tx : CTransaction) : Within (pool.erase hash tx) pool' := by
  intro i t ht
  rw [CTxMemPool.mapTx_erase] at ht
  split at ht
  · cases ht
  · exact h i t ht

theorem removeWithin_within (depth : Nat) {pool pool' : CTxMemPool}
    (h : Within pool pool') (tx : CTransaction) : Within (pool.removeWithin H depth tx) pool' := by
  induction depth generalizing pool tx with
  | zero => exact h
  | succ depth ih =>
    rw [CTxMemPool.removeWithin]
    dsimp only
    -- the loop over the outputs removes children
    have hloop (outputs : List Nat) : ∀ p, Within p pool' →
        Within (outputs.foldl (fun pool i =>
          match pool.spender ⟨tx.getHash H, UInt32.ofNat i⟩ with
          | some child => pool.removeWithin H depth child
          | none => pool) p) pool' := by
      induction outputs with
      | nil => intro p hp; exact hp
      | cons n outputs ihOutputs =>
        intro p hp
        rw [foldl_cons]
        apply ihOutputs
        cases p.spender ⟨tx.getHash H, UInt32.ofNat n⟩ with
        | none => exact hp
        | some child => exact ih hp child
    split
    next => exact (hloop _ pool h).erase _ _
    next => exact h

theorem remove_within {pool pool' : CTxMemPool} (h : Within pool pool') (tx : CTransaction) :
    Within (pool.remove H tx true) pool' :=
  removeWithin_within H _ h tx

theorem spender_mem {pool : CTxMemPool} {o : COutPoint} {t : CTransaction}
    (h : pool.spender o = some t) : ∃ i : UInt256, pool.mapTx[i]? = some t := by
  obtain ⟨inpoint, -, ht⟩ := bind_eq_some_iff.mp h
  exact ⟨inpoint.ptx, ht⟩

/-- **The conflicts are those with other bytes**, in a pool whose transactions have the rounds of
the one that they are compared with. -/
theorem removeConflicts_eq {pool : CTxMemPool} {tx : CTransaction}
    (hsame : ∀ (i : UInt256) (t : CTransaction), pool.mapTx[i]? = some t → (t.eqv tx = true ↔
    t.serialize = tx.serialize)) : pool.removeConflicts H tx = removeOthers H pool tx := by
  unfold CTxMemPool.removeConflicts removeOthers
  suffices hloop : ∀ (vin : List CTxIn) (p : CTxMemPool), Within p pool →
      vin.foldl (fun pool txin =>
        match pool.spender txin.prevout with
        | some txConflict => if txConflict.eqv tx then pool else pool.remove H txConflict true
        | none => pool) p =
      vin.foldl (fun pool txin =>
        match pool.spender txin.prevout with
        | some txConflict =>
          if txConflict.serialize = tx.serialize then pool else pool.remove H txConflict true
        | none => pool) p from hloop tx.vin pool fun _ _ ht => ht
  intro vin
  induction vin with
  | nil => intros; rfl
  | cons txin vin ih =>
    intro p hp
    rw [foldl_cons, foldl_cons]
    cases hs : p.spender txin.prevout with
    | none =>
      dsimp only
      exact ih p hp
    | some txConflict =>
      obtain ⟨i, hi⟩ := spender_mem hs
      have hiff := hsame i txConflict (hp i txConflict hi)
      dsimp only
      by_cases hbytes : txConflict.serialize = tx.serialize
      · rw [if_pos (hiff.mpr hbytes), if_pos hbytes]
        exact ih p hp
      · rw [if_neg fun h => hbytes (hiff.mp h), if_neg hbytes]
        exact ih _ (remove_within H hp txConflict)

/-! ## §4. Both together. -/

/-- **Equality of transactions** is equality of their bytes exactly where the rounds of the
outputs agree; so it is for the place in a block and for the conflicts in the pool. -/
theorem eqv_exact_iff (H : Hashes) :
    (∀ a b, CTransaction.Countable a → CTransaction.Countable b →
      ((a.eqv b = true ↔ a.serialize = b.serialize) ↔ RoundsAgree a b)) ∧
    (∀ vtx tx, (∀ t ∈ vtx, CTransaction.Countable t) → CTransaction.Countable tx →
      (locate vtx tx = locateBytes vtx tx ↔
        ∀ t, vtx.find? (fun t => t.serialize = tx.serialize) = some t → RoundsAgree t tx)) ∧
    (∀ (pool : CTxMemPool) tx,
      (∀ (i : UInt256) (t : CTransaction), pool.mapTx[i]? = some t →
        CTransaction.Countable t ∧ RoundsAgree t tx) →
      CTransaction.Countable tx → pool.removeConflicts H tx = removeOthers H pool tx) := by
  refine ⟨fun a b ha hb => eqv_iff_serialize ha hb, fun vtx tx hvtx htx => ?_,
    fun pool tx hpool htx => ?_⟩
  · rw [locate_eq_iff]
    refine forall₂_congr fun t ht => ?_
    have hbytes : t.serialize = tx.serialize := by simpa using find?_some ht
    have hiff := eqv_iff_serialize (hvtx t (mem_of_find?_eq_some ht)) htx
    rw [← hiff]
    exact ⟨fun h => ⟨fun _ => hbytes, fun _ => h⟩, fun h => h.mpr hbytes⟩
  · refine removeConflicts_eq H fun i t ht => ?_
    obtain ⟨hcount, hrounds⟩ := hpool i t ht
    exact (eqv_iff_serialize hcount htx).mpr hrounds

def mixedTx (nRounds : Int32) : CTransaction := ⟨1, 0, [], [⟨100001, nRounds, []⟩], 0⟩

theorem countable_mixedTx (nRounds : Int32) : CTransaction.Countable (mixedTx nRounds) := by
  constructor <;> simp [mixedTx]

/-- **The rounds are compared**: the same transaction with its rounds counted is not equal, and is
not found in its block. -/
theorem eqv_not_exact :
    (mixedTx 2).serialize = (mixedTx (-10)).serialize ∧
      (mixedTx 2).eqv (mixedTx (-10)) = false ∧
      locate [mixedTx (-10)] (mixedTx 2) = none ∧
      ¬ ∀ a b, CTransaction.Countable a → CTransaction.Countable b →
        (a.eqv b = true ↔ a.serialize = b.serialize) := by
  refine ⟨rfl, by decide, by decide, fun h => ?_⟩
  have heqv := (h (mixedTx 2) (mixedTx (-10)) (countable_mixedTx 2) (countable_mixedTx (-10))).mpr rfl
  exact absurd heqv (by decide)

/-- A transaction that spends an output, with what its input remembers of it in memory. -/
def spendingTx (prevPubKey : CScript) (nLockTime : UInt32) : CTransaction :=
  ⟨1, 0, [⟨⟨5, 0⟩, [], prevPubKey, 0⟩], [⟨100001, -10, []⟩], nLockTime⟩

theorem countable_spendingTx (prevPubKey : CScript) (nLockTime : UInt32) :
    CTransaction.Countable (spendingTx prevPubKey nLockTime) := by
  constructor <;> simp [spendingTx]

/-- A pool in which the output is spent by a transaction of another lock time. -/
def rivalPool : CTxMemPool :=
  ⟨1, (∅ : StdMap UInt256 CTransaction).insert 8 (spendingTx [] 7),
    (∅ : StdMap COutPoint CInPoint).insert ⟨5, 0⟩ ⟨8, 0⟩⟩

/-- The copy that remembers the output is equal, and the rival is not; the one is found in its
block, and the other removed. -/
theorem eqv_exact_iff_copies (H : Hashes) :
    (spendingTx [] 0).eqv (spendingTx [OP_1] 0) = true ∧
      (spendingTx [] 0).eqv (spendingTx [] 7) = false ∧
      locate [spendingTx [] 7, spendingTx [] 0] (spendingTx [OP_1] 0) = some 1 ∧
      rivalPool.removeConflicts H (spendingTx [OP_1] 0) =
        rivalPool.remove H (spendingTx [] 7) true := by
  obtain ⟨hpair, hplace, hpool⟩ := eqv_exact_iff H
  have hcount := countable_spendingTx
  have hrounds (t : CTransaction) (ht : t = spendingTx [] 7 ∨ t = spendingTx [] 0) :
      RoundsAgree t (spendingTx [OP_1] 0) := by
    rcases ht with rfl | rfl
    · exact fun _ => rfl
    · exact fun _ => rfl
  refine ⟨((hpair _ _ (hcount _ _) (hcount _ _)).mpr fun _ => rfl).mpr rfl, ?_, ?_, ?_⟩
  · have hiff := (hpair _ _ (hcount [] 0) (hcount [] 7)).mpr fun _ => rfl
    exact eq_false_of_ne_true (mt hiff.mp (by decide))
  · refine ((hplace _ _ ?_ (hcount _ _)).mpr fun t ht => ?_).trans (by decide)
    · simp [hcount]
    · exact hrounds t (by simpa using mem_of_find?_eq_some ht)
  · have hspender : rivalPool.spender ⟨5, 0⟩ = some (spendingTx [] 7) := by decide +kernel
    have hremoved : removeOthers H rivalPool (spendingTx [OP_1] 0) =
        rivalPool.remove H (spendingTx [] 7) true := by
      have hother : (spendingTx [] 7).serialize ≠ (spendingTx [OP_1] 0).serialize := by decide
      unfold removeOthers
      rw [show (spendingTx [OP_1] 0).vin = [⟨⟨5, 0⟩, [], [OP_1], 0⟩] from rfl, foldl_cons,
        foldl_nil, hspender]
      exact if_neg hother
    refine (hpool rivalPool _ (fun i t ht => ?_) (hcount _ _)).trans hremoved
    have heq : spendingTx [] 7 = t := by
      rw [rivalPool, StdMap.get_insert, StdMap.get_empty] at ht
      split at ht
      · exact Option.some.inj ht
      · cases ht
    exact heq ▸ ⟨hcount _ _, hrounds _ (.inl rfl)⟩

end Fantom.Pool
