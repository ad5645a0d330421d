/-
  Fantom.Chain.MerkleRoot — What the merkle root of an accepted block says about its transactions.

  * `merkleRoot_binds` — two accepted blocks with the same root and as many levels have the same
    transaction ids.

  A list and the same list with its last ids repeated share a root; `CheckBlock` accepts no repeated
  id.
-/
import Fantom.Chain.Accounts
import Fantom.Chain.Undo
import Fantom.Core.MerkleTree

namespace Fantom.Chain

open Core Lib MerkleTree

variable {env env' : ChainEnv}

/-! ## §1. What is hashed. -/

/-- The two nodes that `BuildMerkleTree` hashes, one behind the other. -/
def nodeBytes (p : UInt256 × UInt256) : List UInt8 := leBytes 32 p.1.toNat ++ leBytes 32 p.2.toNat

theorem leBytes_toNat_inj {a b : UInt256} (h : leBytes 32 a.toNat = leBytes 32 b.toNat) :
    a = b := by
  have hback := congrArg ofLEBytes h
  have ha : a.toNat < 256 ^ 32 := lt_of_lt_of_eq a.isLt (by decide)
  have hb : b.toNat < 256 ^ 32 := lt_of_lt_of_eq b.isLt (by decide)
  rw [ofLEBytes_leBytes ha, ofLEBytes_leBytes hb] at hback
  exact BitVec.eq_of_toNat_eq hback

theorem nodeBytes_inj {p q : UInt256 × UInt256} (h : nodeBytes p = nodeBytes q) : p = q := by
  have hlen : (leBytes 32 p.1.toNat).length = (leBytes 32 q.1.toNat).length := by
    rw [leBytes_length, leBytes_length]
  obtain ⟨hfst, hsnd⟩ := List.append_inj h hlen
  exact Prod.ext (leBytes_toNat_inj hfst) (leBytes_toNat_inj hsnd)

/-- All node inputs that are hashed for the root of a block. -/
def nodeInputs (H : Hashes) (b : CBlock) : List (List UInt8) :=
  (MerkleTree.inputs (hashPair H) (b.vtx.map (CTransaction.getHash H))).map nodeBytes

/-! ## §2. Accepted blocks. -/

theorem checkBlock_merkleRoot {pindexBest : CBlockIndex} {b : CBlock} {fPOW fSig : Bool}
    (h : checkBlock env pindexBest b fPOW true fSig = .ok ()) :
    b.hashMerkleRoot = b.buildMerkleTree env.H := by
  have hpasses := checkBlock_eq_ok.mp h
  exact hpasses.transactions.merkleRoot rfl

theorem checkBlock_root {pindexBest : CBlockIndex} {b : CBlock} {fPOW fSig : Bool}
    (h : checkBlock env pindexBest b fPOW true fSig = .ok ()) :
    MerkleTree.root (hashPair env.H) (b.vtx.map (CTransaction.getHash env.H)) =
      some b.hashMerkleRoot := by
  obtain ⟨cb, rest, hvtx, -⟩ := checkBlock_placement h
  have hleaf : (b.vtx.map (CTransaction.getHash env.H))[0]? = some (cb.getHash env.H) := by
    rw [hvtx]
    rfl
  have hroot : MerkleTree.root (hashPair env.H) _ = some _ := climb_branch hleaf
  rw [checkBlock_merkleRoot h, CBlock.buildMerkleTree,
    merkleRootLoop_eq (by rw [List.length_map]), hroot]
  rfl

/-- **The merkle root binds the transactions**: two accepted blocks with the same root and as many
levels have the same ids, where the hash is injective on the node inputs of the two. -/
theorem merkleRoot_binds {pindexBest pindexBest' : CBlockIndex} {b b' : CBlock}
    {fPOW fPOW' fSig fSig' : Bool} (hH : env'.H = env.H)
    (h : checkBlock env pindexBest b fPOW true fSig = .ok ())
    (h' : checkBlock env' pindexBest' b' fPOW' true fSig' = .ok ())
    (hroot : b.hashMerkleRoot = b'.hashMerkleRoot)
    (hlevels : MerkleTree.height b.vtx.length = MerkleTree.height b'.vtx.length)
    (hinj : Set.InjOn env.H.hash
      { bs | bs ∈ nodeInputs env.H b ∨ bs ∈ nodeInputs env.H b' }) :
    b.vtx.map (CTransaction.getHash env.H) = b'.vtx.map (CTransaction.getHash env.H) := by
  have hnodup := checkBlock_nodup h
  have hnodup' := checkBlock_nodup h'
  have htree := checkBlock_root h
  have htree' := checkBlock_root h'
  rw [hH] at hnodup' htree'
  apply eq_of_root_eq (hashPair env.H) hnodup hnodup'
  · -- two nodes are hashed by their bytes
    intro p hp q hq heq
    apply nodeBytes_inj
    apply hinj _ _ heq
    · exact hp.imp (List.mem_map_of_mem) (List.mem_map_of_mem)
    · exact hq.imp (List.mem_map_of_mem) (List.mem_map_of_mem)
  · rw [List.length_map, List.length_map, hlevels]
  · rw [htree, htree', hroot]

theorem chainedBlock_nodes :
    ∀ bs ∈ nodeInputs sampleChainHashes chainedBlock,
      ∀ bs' ∈ nodeInputs sampleChainHashes chainedBlock,
        sampleChainHashes.hash bs = sampleChainHashes.hash bs' → bs = bs' := by
  have hinputs : nodeInputs sampleChainHashes chainedBlock =
      (MerkleTree.inputs (hashPair sampleChainHashes)
        [(sampleCoinBase 1000).getHash sampleChainHashes, sampleSpend.getHash sampleChainHashes,
          (sampleTx [(sampleSpend.getHash sampleChainHashes, 0)] [690]).getHash
            sampleChainHashes]).map nodeBytes := rfl
  rw [hinputs, inputs_three]
  decide +kernel

/-- The same three transactions under two headers. -/
theorem merkleRoot_binds_chainedBlock :
    accepts (checkBlock chainedEnv sampleGenesis chainedBlock true true true) = true ∧
      chainedBlock.vtx.map (CTransaction.getHash sampleChainHashes) =
        { chainedBlock with nNonce := 7 }.vtx.map (CTransaction.getHash sampleChainHashes) := by
  have hok : accepts (checkBlock chainedEnv sampleGenesis chainedBlock true true true) = true := by
    decide +kernel
  have hok' : accepts (checkBlock chainedEnv sampleGenesis { chainedBlock with nNonce := 7 } true
      true true) = true := by
    decide +kernel
  obtain ⟨_, hrun⟩ := accepts_iff.mp hok
  obtain ⟨_, hrun'⟩ := accepts_iff.mp hok'
  refine ⟨hok, merkleRoot_binds rfl hrun hrun' rfl rfl ?_⟩
  intro bs hbs bs' hbs' heq
  exact chainedBlock_nodes bs (or_self_iff.mp hbs) bs' (or_self_iff.mp hbs') heq

end Fantom.Chain
