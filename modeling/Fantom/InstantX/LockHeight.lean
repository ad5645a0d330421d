/-
  Fantom.InstantX.LockHeight — The height `CreateNewLock` picks for the quorum of a transaction.

  * `InputsDeep` — every input is confirmed six blocks below the best one,
  * `quorum_height_agreed_iff` — the height of a quorum is newer than every input and the same at
    all tips and for all orders of the inputs just when the inputs are from one height.

  The loop of `CreateNewLock` keeps one age, whatever the number of inputs.
-/
import Fantom.Chain.GetTransaction
import Fantom.InstantX.Model

namespace Fantom.InstantX

open Core Lib Chain List

/-! ## §1. Chains and nodes. -/

/-- A chain by its last block, and the block of it that confirms a transaction. -/
structure ConfirmedChain where
  top : CBlockIndex
  confirming : UInt256 → Option CBlockIndex
  /-- `nHeight` is an `int`. -/
  top_lt : top.nHeight < 2 ^ 31

/-- The height of the block that confirms an input. -/
def ConfirmedChain.heightOf (c : ConfirmedChain) (txin : CTxIn) : Option Nat :=
  (c.confirming txin.prevout.hash).map CBlockIndex.nHeight

variable {C : Crypto}

variable (env : IXEnv C)

/-- The environment of an event at a node with this view of the chain. -/
def ixEnv (v : TxView) : IXEnv C :=
  { env with
    noBestBlock := false
    nBestHeight := Int32.ofNat v.best.nHeight
    getTransaction := fun hash => (v.getTransaction hash).map Prod.fst
    getInputAge := v.getInputAge }

/-- The node is on the chain, and each of the inputs is confirmed at least six
blocks below its best block. -/
structure InputsDeep (c : ConfirmedChain) (v : TxView) (vin : List CTxIn) : Prop where
  tip : v.best ∈ c.top.branch
  deep : ∀ txin ∈ vin, ∃ pindex, c.confirming txin.prevout.hash = some pindex ∧
    v.Confirmed txin.prevout.hash pindex ∧ pindex.nHeight + 6 ≤ v.best.nHeight

/-- The height of the quorum is newer than every input, and it is the same at every
tip of the chain, in every state of the locks and for every order of the inputs. -/
def QuorumHeightAgreed (C : Crypto) (c : ConfirmedChain) (tx : CTransaction) : Prop :=
  ∃ nBlockHeight : Int32,
    (∀ txin ∈ tx.vin, ∀ pindex, c.confirming txin.prevout.hash = some pindex →
      (pindex.nHeight : Int) < nBlockHeight.toInt) ∧
    ∀ (env : IXEnv C) (v : TxView) (st : IXState) (vin : List CTxIn),
      InputsDeep c v tx.vin → vin.Perm tx.vin →
        (createNewLock (ixEnv env v) st { tx with vin := vin }).2 = nBlockHeight

/-! ## §2. The height of a new lock. -/

theorem age_toInt {best height : Nat} (hbest : best < 2 ^ 31) (hle : height ≤ best) :
    (Int32.ofNat best - Int32.ofNat height).toInt = best - height := by
  rw [Int32.toInt_sub, Int32.toInt_ofNat_of_lt hbest, Int32.toInt_ofNat_of_lt (by omega)]
  exact Int.bmod_eq_of_le (by omega) (by omega)

theorem lock_height_eq (best height : Int32) : best - (best - height) + 4 = height + 4 := by
  grind

theorem lock_height_toInt {height : Nat} (h : height + 4 < 2 ^ 31) :
    (Int32.ofNat height + 4).toInt = height + 4 := by
  have hfour : (4 : Int32).toInt = 4 := rfl
  rw [Int32.toInt_add, Int32.toInt_ofNat_of_lt (by omega), hfour]
  exact Int.bmod_eq_of_le (by omega) (by omega)

variable {c : ConfirmedChain} {v : TxView} {vin : List CTxIn}

theorem ages_deep (h : InputsDeep c v vin) :
    (vin.map v.getInputAge).any (· < 6) = false := by
  rw [any_map, any_eq_false]
  intro txin htxin
  obtain ⟨pindex, -, hconfirmed, hdeep⟩ := h.deep txin htxin
  have htop : v.best.nHeight ≤ c.top.nHeight := CBlockIndex.links.rank_le_of_mem h.tip
  have hlt : c.top.nHeight < 2 ^ 31 := c.top_lt
  rw [Function.comp_apply, TxView.getInputAge_confirmed hconfirmed, decide_eq_true_eq,
    Int32.lt_iff_toInt_lt, age_toInt (by omega) (by omega)]
  show ¬ ((v.best.nHeight : Int) - pindex.nHeight < 6)
  omega

theorem createNewLock_nil (v : TxView) (st : IXState) (tx : CTransaction) :
    (createNewLock (ixEnv env v) st { tx with vin := [] }).2 =
      Int32.ofNat v.best.nHeight + 4 := by
  show Int32.ofNat v.best.nHeight - 0 + 4 = _
  rw [Int32.sub_zero]

/-- **The height is that of the first input and four more**, wherever the tip is. -/
theorem createNewLock_cons (st : IXState) (tx : CTransaction)
    {txin : CTxIn} {pindex : CBlockIndex} (h : InputsDeep c v (txin :: vin))
    (hpindex : c.confirming txin.prevout.hash = some pindex) :
    (createNewLock (ixEnv env v) st { tx with vin := txin :: vin }).2 =
      Int32.ofNat pindex.nHeight + 4 := by
  obtain ⟨pindex', hpindex', hconfirmed, -⟩ := h.deep txin mem_cons_self
  obtain rfl : pindex' = pindex := Option.some.inj (hpindex'.symm.trans hpindex)
  unfold createNewLock
  dsimp only [ixEnv]
  rw [ages_deep h, if_neg Bool.false_ne_true]
  show Int32.ofNat v.best.nHeight - v.getInputAge txin + 4 = _
  rw [TxView.getInputAge_confirmed hconfirmed, lock_height_eq]

theorem InputsDeep.perm {vin' : List CTxIn} (h : InputsDeep c v vin) (hperm : vin'.Perm vin) :
    InputsDeep c v vin' :=
  ⟨h.tip, fun txin htxin => h.deep txin (hperm.mem_iff.mp htxin)⟩

/-! ## §3. When the height is agreed. -/

/-- Inputs from one height, and at least one of them unless the chain has a single
block. -/
def OneHeight (c : ConfirmedChain) (tx : CTransaction) : Prop :=
  (∀ a ∈ tx.vin, ∀ b ∈ tx.vin, c.heightOf a = c.heightOf b) ∧
    (tx.vin = [] → c.top.nHeight = 0)

variable {tx : CTransaction}

theorem exists_root (p : CBlockIndex) : ∃ root ∈ p.branch, root.nHeight = 0 := by
  induction p with
  | root d => exact ⟨.root d, CBlockIndex.self_mem_branch _, rfl⟩
  | child p d ih =>
    obtain ⟨root, hroot, hzero⟩ := ih
    exact ⟨root, mem_cons_of_mem _ hroot, hzero⟩

theorem tips_disagree (env : IXEnv C) (v : TxView) (st : IXState) (hnil : tx.vin = [])
    (hagreed : QuorumHeightAgreed C c tx) : c.top.nHeight = 0 := by
  obtain ⟨nBlockHeight, -, hsame⟩ := hagreed
  -- the same node with another block of the chain as its tip
  have htip : ∀ best ∈ c.top.branch, Int32.ofNat best.nHeight + 4 = nBlockHeight := by
    intro best hbest
    let v' : TxView := { v with node := { v.node with pindexBest := some best }, best, hbest := rfl }
    have hdeep : InputsDeep c v' tx.vin := by
      refine ⟨hbest, ?_⟩
      rw [hnil]
      intro txin htxin
      exact absurd htxin not_mem_nil
    have hheight := hsame env v' st tx.vin hdeep (List.Perm.refl _)
    rw [hnil] at hheight
    exact (createNewLock_nil env v' st tx).symm.trans hheight
  obtain ⟨root, hroot, hzero⟩ := exists_root c.top
  have heq : Int32.ofNat c.top.nHeight = Int32.ofNat root.nHeight := by
    have h4 := (htip c.top c.top.self_mem_branch).trans (htip root hroot).symm
    grind
  have htoInt := congrArg Int32.toInt heq
  rw [Int32.toInt_ofNat_of_lt c.top_lt, Int32.toInt_ofNat_of_lt (by omega)] at htoInt
  omega

theorem orders_agree (env : IXEnv C) (st : IXState) (h : InputsDeep c v tx.vin)
    (hagreed : QuorumHeightAgreed C c tx) {a b : CTxIn} (ha : a ∈ tx.vin) (hb : b ∈ tx.vin) :
    c.heightOf a = c.heightOf b := by
  obtain ⟨nBlockHeight, -, hsame⟩ := hagreed
  have hfirst : ∀ txin ∈ tx.vin, ∃ pindex, c.confirming txin.prevout.hash = some pindex ∧
      pindex.nHeight < 2 ^ 31 ∧ Int32.ofNat pindex.nHeight + 4 = nBlockHeight := by
    intro txin htxin
    obtain ⟨pindex, hpindex, hconfirmed, hdeep⟩ := h.deep txin htxin
    have htop : v.best.nHeight ≤ c.top.nHeight := CBlockIndex.links.rank_le_of_mem h.tip
    have hlt : c.top.nHeight < 2 ^ 31 := c.top_lt
    have hperm : (txin :: tx.vin.erase txin).Perm tx.vin := (perm_cons_erase htxin).symm
    exact ⟨pindex, hpindex, by omega,
      (createNewLock_cons env st tx (h.perm hperm) hpindex).symm.trans
        (hsame env v st _ h hperm)⟩
  obtain ⟨p, hp, hplt, hpheight⟩ := hfirst a ha
  obtain ⟨q, hq, hqlt, hqheight⟩ := hfirst b hb
  have heq : Int32.ofNat p.nHeight = Int32.ofNat q.nHeight := by
    have h4 := hpheight.trans hqheight.symm
    grind
  have htoInt := congrArg Int32.toInt heq
  rw [Int32.toInt_ofNat_of_lt hplt, Int32.toInt_ofNat_of_lt hqlt] at htoInt
  unfold ConfirmedChain.heightOf
  rw [hp, hq]
  show some p.nHeight = some q.nHeight
  rw [Int.ofNat.inj htoInt]

theorem agreed_of_oneHeight (h : InputsDeep c v tx.vin) (hone : OneHeight c tx) :
    QuorumHeightAgreed C c tx := by
  cases hvin : tx.vin with
  | nil =>
    refine ⟨4, ?_, ?_⟩
    · rw [hvin]
      intro txin htxin
      exact absurd htxin not_mem_nil
    · intro env v' st vin hdeep hperm
      have hbest : v'.best.nHeight ≤ c.top.nHeight := CBlockIndex.links.rank_le_of_mem hdeep.tip
      obtain rfl : vin = [] := by
        rw [hvin] at hperm
        exact hperm.eq_nil
      rw [createNewLock_nil, show v'.best.nHeight = 0 by have := hone.2 hvin; omega]
      rfl
  | cons txin rest =>
    have hmem : txin ∈ tx.vin := by
      rw [hvin]
      exact mem_cons_self
    obtain ⟨pindex, hpindex, -, hdeep⟩ := h.deep txin hmem
    have htop : v.best.nHeight ≤ c.top.nHeight := CBlockIndex.links.rank_le_of_mem h.tip
    have hlt : c.top.nHeight < 2 ^ 31 := c.top_lt
    -- the block of any other input is as high as that of the first one
    have hheight : ∀ a ∈ tx.vin, ∀ q, c.confirming a.prevout.hash = some q →
        q.nHeight = pindex.nHeight := by
      intro a ha q hq
      have heq := hone.1 a ha txin hmem
      unfold ConfirmedChain.heightOf at heq
      rw [hq, hpindex] at heq
      exact Option.some.inj heq
    refine ⟨Int32.ofNat pindex.nHeight + 4, ?_, ?_⟩
    · intro a ha q hq
      rw [lock_height_toInt (by omega), hheight a ha q hq]
      omega
    · intro env v' st vin hdeep' hperm
      cases vin with
      | nil =>
        rw [hperm.symm.eq_nil] at hmem
        exact absurd hmem not_mem_nil
      | cons a vin =>
        have ha : a ∈ tx.vin := hperm.mem_iff.mp mem_cons_self
        obtain ⟨q, hq, -, -⟩ := hdeep'.deep a ha
        rw [createNewLock_cons env st tx (hdeep'.perm hperm) hq, hheight a ha q hq]

/-- **The height of a quorum is newer than every input and agreed by all nodes exactly
when the inputs are from one height.**  There is a node to ask, since the inputs are
confirmed. -/
theorem quorum_height_agreed_iff (C : Crypto) (env : IXEnv C) (c : ConfirmedChain) (v : TxView)
    (tx : CTransaction) (h : InputsDeep c v tx.vin) :
    QuorumHeightAgreed C c tx ↔ OneHeight c tx := by
  constructor
  · intro hagreed
    exact ⟨fun a ha b hb => orders_agree env .empty h hagreed ha hb,
      fun hnil => tips_disagree env v .empty hnil hagreed⟩
  · exact agreed_of_oneHeight h

/-! ## §4. A sample chain.

The transactions 71 and 72 are in its blocks of heights 3 and 8. -/

def sampleLockChain : ConfirmedChain where
  top := sampleBranch 20
  confirming hash :=
    if hash = 71 then some (sampleBranch 3) else if hash = 72 then some (sampleBranch 8) else none
  top_lt := by decide

def sampleLockView : TxView where
  env := { sampleChainEnv [] with readTx := fun _ _ => some (Chain.sampleTx [(9, 0)] [500, 300]) }
  -- a block stands at its height in the block file
  readHeaderHash _ nBlockPos := some (sampleBranch nBlockPos.toNat).getBlockHash
  mapBlockIndex := (sampleBranch 20).branch.foldl (fun m p => m.insert p.getBlockHash p) ∅
  node :=
    { Node.initial with
      txdb := ⟨(Records.empty.updateTxIndex 71 (.fresh (.inFile .first 3 3) 2)).updateTxIndex 72
        (.fresh (.inFile .first 8 8) 2), none⟩
      pindexBest := some (sampleBranch 20) }
  best := sampleBranch 20
  hbest := rfl

theorem confirmed_71 : sampleLockView.Confirmed 71 (sampleBranch 3) where
  branch := by decide +kernel
  entry := by decide +kernel
  pool := by decide +kernel
  index := ⟨.fresh (.inFile .first 3 3) 2, Chain.sampleTx [(9, 0)] [500, 300],
    by decide +kernel, by decide +kernel⟩

theorem confirmed_72 : sampleLockView.Confirmed 72 (sampleBranch 8) where
  branch := by decide +kernel
  entry := by decide +kernel
  pool := by decide +kernel
  index := ⟨.fresh (.inFile .first 8 8) 2, Chain.sampleTx [(9, 0)] [500, 300],
    by decide +kernel, by decide +kernel⟩

theorem inputsDeep_sample {vin : List CTxIn}
    (h : ∀ txin ∈ vin, txin.prevout.hash = 71 ∨ txin.prevout.hash = 72) :
    InputsDeep sampleLockChain sampleLockView vin := by
  refine ⟨CBlockIndex.self_mem_branch _, ?_⟩
  intro txin htxin
  rcases h txin htxin with hhash | hhash
  · rw [hhash]
    exact ⟨sampleBranch 3, rfl, confirmed_71, by decide⟩
  · rw [hhash]
    exact ⟨sampleBranch 8, rfl, confirmed_72, by decide⟩

def sampleOneHeight : CTransaction := Chain.sampleTx [(71, 0), (71, 1)] [700]

/-- Two inputs from block 3: one quorum at every tip, in either order. -/
theorem sample_height_agreed :
    QuorumHeightAgreed sampleCrypto sampleLockChain sampleOneHeight :=
  (quorum_height_agreed_iff sampleCrypto (sampleIXEnv 0 true) sampleLockChain sampleLockView
    sampleOneHeight (inputsDeep_sample (by decide))).mpr ⟨by decide +kernel, nofun⟩

def sampleTwoHeights : CTransaction := Chain.sampleTx [(71, 0), (72, 0)] [700]

/-- Blocks 3 and 8 confirm the inputs, and the quorum is that of block 7: older than
the second input, and another one when the inputs change places. -/
theorem quorum_older_than_input :
    InputsDeep sampleLockChain sampleLockView sampleTwoHeights.vin ∧
      (createNewLock (ixEnv (sampleIXEnv 0 true) sampleLockView) .empty sampleTwoHeights).2 = 7 ∧
      (createNewLock (ixEnv (sampleIXEnv 0 true) sampleLockView) .empty
        { sampleTwoHeights with vin := sampleTwoHeights.vin.reverse }).2 = 12 ∧
      ¬ QuorumHeightAgreed sampleCrypto sampleLockChain sampleTwoHeights := by
  refine ⟨inputsDeep_sample (by decide), by decide +kernel, by decide +kernel, ?_⟩
  rintro ⟨nBlockHeight, hnewer, hsame⟩
  have h8 : (8 : Int) < nBlockHeight.toInt :=
    hnewer ⟨⟨72, 0⟩, [], [], 0⟩ (by decide) (sampleBranch 8) rfl
  have h7 := hsame (sampleIXEnv 0 true) sampleLockView .empty sampleTwoHeights.vin
    (inputsDeep_sample (by decide)) (List.Perm.refl _)
  have hheight : (7 : Int32) = nBlockHeight := Eq.trans (by decide +kernel) h7
  rw [← hheight] at h8
  exact absurd h8 (by decide)

end Fantom.InstantX
