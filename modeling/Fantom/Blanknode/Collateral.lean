/-
  Fantom.Blanknode.Collateral — `IsVinAssociatedWithPubkey`: whether an input is a collateral of a
  key.

  * `ownership_checked_iff` — when the answer is about the outpoint.

  The scan never looks at `vin.prevout.n`.
-/
import Fantom.Blanknode.Check
import Fantom.Chain.GetTransaction
import Fantom.Script.Destinations

namespace Fantom.Blanknode

open Core Lib Chain Script

/-! ## §1. The scan. -/

variable (C : Crypto)

/-- The output is worth the collateral and pays to the key. -/
def paysCollateral (pubkey : CPubKey) (out : CTxOut) : Bool :=
  out.nValue == 512 * COIN &&
    out.scriptPubKey == getScriptForDestination (.CKeyID <| getID C pubkey)

variable (v : TxView) (vin : CTxIn) (pubkey : CPubKey)

def isVinAssociatedWithPubkey : Bool :=
  match v.getTransaction vin.prevout.hash with
  | none => false
  | some (txVin, _) => txVin.vout.any (paysCollateral C pubkey)

/-! ## §2. The output that is spent. -/

/-- The output that the input spends is a collateral of the key. -/
def SpendsCollateral : Prop :=
  ∃ txVin hashBlock out, v.getTransaction vin.prevout.hash = some (txVin, hashBlock) ∧
    txVin.vout[vin.prevout.n.toNat]? = some out ∧ out.nValue = BLANKNODE_COLLATERAL ∧
    out.scriptPubKey = getScriptForDestination (.CKeyID <| getID C pubkey)

/-- Either the transaction has no collateral of the key, or `vin.prevout.n` is the
number of one. -/
def NamesCollateral : Prop :=
  ∀ txVin hashBlock, v.getTransaction vin.prevout.hash = some (txVin, hashBlock) →
    (∀ out ∈ txVin.vout, paysCollateral C pubkey out = false) ∨
      (txVin.vout[vin.prevout.n.toNat]?).any (paysCollateral C pubkey) = true

variable {C} {v : TxView} {vin : CTxIn} {pubkey : CPubKey}

theorem paysCollateral_iff {out : CTxOut} :
    paysCollateral C pubkey out = true ↔ out.nValue = BLANKNODE_COLLATERAL ∧
      out.scriptPubKey = getScriptForDestination (.CKeyID <| getID C pubkey) := by
  rw [paysCollateral, Bool.and_eq_true, beq_iff_eq, beq_iff_eq]
  exact Iff.rfl

theorem isVinAssociatedWithPubkey_iff :
    isVinAssociatedWithPubkey C v vin pubkey = true ↔
      ∃ txVin hashBlock, v.getTransaction vin.prevout.hash = some (txVin, hashBlock) ∧
        ∃ out ∈ txVin.vout, paysCollateral C pubkey out = true := by
  unfold isVinAssociatedWithPubkey
  split
  next hnone =>
    rw [hnone]
    constructor
    · intro h
      exact absurd h Bool.false_ne_true
    · rintro ⟨txVin, hashBlock, htx, -⟩
      cases htx
  next txVin hashBlock htx =>
    rw [htx, List.any_eq_true]
    constructor
    · intro h
      exact ⟨txVin, hashBlock, rfl, h⟩
    · rintro ⟨txVin', hashBlock', htx', h⟩
      cases htx'
      exact h

theorem spendsCollateral_of_any {txVin : CTransaction} {hashBlock : UInt256}
    (htx : v.getTransaction vin.prevout.hash = some (txVin, hashBlock))
    (h : (txVin.vout[vin.prevout.n.toNat]?).any (paysCollateral C pubkey) = true) :
    SpendsCollateral C v vin pubkey := by
  obtain ⟨out, hout, hpays⟩ := (Option.any_eq_true _ _).mp h
  obtain ⟨hvalue, hscript⟩ := paysCollateral_iff.mp hpays
  exact ⟨txVin, hashBlock, out, htx, hout, hvalue, hscript⟩

/-- **Ownership is checked on the right output exactly when the input names a collateral
wherever its transaction has one.** -/
theorem ownership_checked_iff (C : Crypto) (v : TxView) (vin : CTxIn) (pubkey : CPubKey) :
    (isVinAssociatedWithPubkey C v vin pubkey = true → SpendsCollateral C v vin pubkey) ↔
      NamesCollateral C v vin pubkey := by
  constructor
  · intro hchecked txVin hashBlock htx
    by_cases hany : ∃ out ∈ txVin.vout, paysCollateral C pubkey out = true
    · right
      obtain ⟨txVin', hashBlock', out, htx', hout, hvalue, hscript⟩ :=
        hchecked (isVinAssociatedWithPubkey_iff.mpr ⟨txVin, hashBlock, htx, hany⟩)
      rw [htx] at htx'
      cases htx'
      rw [hout]
      exact paysCollateral_iff.mpr ⟨hvalue, hscript⟩
    · left
      intro out hout
      exact Bool.eq_false_iff.mpr fun hpays => hany ⟨out, hout, hpays⟩
  · intro hnames hassociated
    obtain ⟨txVin, hashBlock, htx, out, hout, hpays⟩ :=
      isVinAssociatedWithPubkey_iff.mp hassociated
    rcases hnames txVin hashBlock htx with hnone | hany
    · rw [hnone out hout] at hpays
      cases hpays
    · exact spendsCollateral_of_any htx hany

/-! ## §3. One payment for two blanknodes. -/

def sampleCollateralTx : CTransaction where
  nVersion := 1
  nTime := 1000
  vin := []
  vout := [⟨BLANKNODE_COLLATERAL, 0,
      getScriptForDestination (.CKeyID <| getID sampleCrypto (leBytes 32 5))⟩, ⟨1, 0, [OP_1]⟩]
  nLockTime := 0

def sampleCollateralView : TxView where
  env := sampleChainEnv []
  readHeaderHash _ _ := none
  mapBlockIndex := ∅
  node :=
    { Node.initial with
      pool := { CTxMemPool.empty with mapTx := (∅ : StdMap _ _).insert 71 sampleCollateralTx }
      pindexBest := some sampleGenesis }
  best := sampleGenesis
  hbest := rfl

/-- The collateral vouches for the other output, which is no collateral. -/
theorem collateral_vouches_for_other :
    isVinAssociatedWithPubkey sampleCrypto sampleCollateralView ⟨⟨71, 0⟩, [], [], 0⟩
        (leBytes 32 5) = true ∧
      ¬ (isVinAssociatedWithPubkey sampleCrypto sampleCollateralView ⟨⟨71, 1⟩, [], [], 0⟩
          (leBytes 32 5) = true →
        SpendsCollateral sampleCrypto sampleCollateralView ⟨⟨71, 1⟩, [], [], 0⟩
          (leBytes 32 5)) := by
  refine ⟨by decide +kernel, fun h => ?_⟩
  obtain ⟨txVin, hashBlock, out, htx, hout, hvalue, -⟩ := h (by decide +kernel)
  have hpool : sampleCollateralView.getTransaction 71 = some (sampleCollateralTx, 0) := by
    decide +kernel
  obtain ⟨rfl, -⟩ := Prod.mk.inj (Option.some.inj (hpool.symm.trans htx))
  have hother : sampleCollateralTx.vout[1]? = some ⟨1, 0, [OP_1]⟩ := rfl
  obtain rfl := Option.some.inj (hother.symm.trans hout)
  exact absurd hvalue (by decide)

end Fantom.Blanknode
