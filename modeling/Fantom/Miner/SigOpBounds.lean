/-
  Fantom.Miner.SigOpBounds — The signature operations of a transaction are bounded by its size, so
  that the 32 bits of the counts do not overflow in a block.

  * `getLegacySigOpCount_le`, `getP2SHSigOpCount_le`.
-/
import Fantom.Chain.ConnectBlock
import Fantom.Core.Decoding

namespace Fantom.Miner

open Core Chain Lib List Nat

/-! ## §1. Scripts. -/

theorem lastPush_length_le {data subscript : List UInt8} {rs : List GetOpResult} {n : Nat}
    (hdata : data.length ≤ n) (hrs : ∀ r ∈ rs, r.data.length ≤ n)
    (h : lastPush data rs = some subscript) : subscript.length ≤ n := by
  induction rs generalizing data with
  | nil =>
    cases h
    exact hdata
  | cons r rs ih =>
    unfold lastPush at h
    split at h
    · cases h
    · exact ih (hrs r mem_cons_self) (fun r' hr' => hrs r' (mem_cons_of_mem r hr')) h

theorem getSigOpCountP2SH_le {script : CScript} (hscript : CScript.isPayToScriptHash script = true)
    (scriptSig : CScript) :
    (CScript.getSigOpCountP2SH script scriptSig).toNat ≤ 20 * scriptSig.length := by
  rw [CScript.getSigOpCountP2SH, hscript, if_neg (by decide)]
  split
  next => exact zero_le _
  next subscript hlast =>
    have hlen : subscript.length ≤ scriptSig.length :=
      lastPush_length_le (zero_le _) (fun r hr => data_length_le hr) hlast
    exact (getSigOpCount_le subscript true).trans (mul_le_mul_left 20 hlen)

/-! ## §2. Transactions. -/

theorem toNat_sum_le {α : Type} {f : α → UInt32} {g : α → Nat} {l : List α}
    (h : ∀ a ∈ l, (f a).toNat ≤ 20 * g a) : (l.map f).sum.toNat ≤ 20 * (l.map g).sum := by
  induction l with
  | nil => exact le_refl _
  | cons a l ih =>
    rw [map_cons, map_cons, sum_cons, sum_cons, mul_add]
    exact uint32_add_le (h a mem_cons_self)
      (ih fun b hb => h b (mem_cons_of_mem a hb))

theorem sum_le_serializeVector {α : Type} {f : α → List UInt8} {g : α → Nat} (l : List α)
    (h : ∀ a, g a ≤ (f a).length) : (l.map g).sum ≤ (serializeVector f l).length := by
  have hflat : (l.map g).sum ≤ (l.flatMap f).length := by
    induction l with
    | nil => exact le_refl _
    | cons a l ih =>
      rw [map_cons, sum_cons, flatMap_cons, length_append]
      exact Nat.add_le_add (h a) ih
  rw [serializeVector, length_append]
  omega

theorem scripts_length_le (tx : CTransaction) :
    (tx.vin.map fun txin => txin.scriptSig.length).sum +
      (tx.vout.map fun txout => txout.scriptPubKey.length).sum ≤ tx.getSerializeSize := by
  have hvin := sum_le_serializeVector (f := CTxIn.serialize)
    (g := fun txin => txin.scriptSig.length) tx.vin fun txin => by
      simp only [CTxIn.serialize, serializeBytes, length_append]
      omega
  have hvout := sum_le_serializeVector (f := CTxOut.serialize)
    (g := fun txout => txout.scriptPubKey.length) tx.vout fun txout => by
      simp only [CTxOut.serialize, serializeBytes, length_append]
      omega
  unfold CTransaction.getSerializeSize CTransaction.serialize
  simp only [length_append]
  omega

/-- **`GetLegacySigOpCount`** is at most twenty a byte. -/
theorem getLegacySigOpCount_le (tx : CTransaction) :
    tx.getLegacySigOpCount.toNat ≤ 20 * tx.getSerializeSize := by
  have hvin := toNat_sum_le (f := fun txin : CTxIn => CScript.getSigOpCount txin.scriptSig false)
    (g := fun txin => txin.scriptSig.length) (l := tx.vin) fun txin _ => getSigOpCount_le _ _
  have hvout := toNat_sum_le
    (f := fun txout : CTxOut => CScript.getSigOpCount txout.scriptPubKey false)
    (g := fun txout => txout.scriptPubKey.length) (l := tx.vout) fun txout _ =>
      getSigOpCount_le _ _
  refine (uint32_add_le hvin hvout).trans ?_
  have hscripts := scripts_length_le tx
  omega

/-- **`GetP2SHSigOpCount`** is at most twenty a byte. -/
theorem getP2SHSigOpCount_le {tx : CTransaction} {inputs : MapPrevTx} {n : UInt32}
    (h : getP2SHSigOpCount tx inputs = some n) : n.toNat ≤ 20 * tx.getSerializeSize := by
  unfold getP2SHSigOpCount at h
  split at h
  · cases h
    exact zero_le _
  -- generalised over the count of the inputs before
  suffices key : ∀ (txins : List CTxIn) (x : UInt32), txins.foldlM (fun nSigOps txin =>
      (getOutputFor inputs txin).map fun prevout =>
        if CScript.isPayToScriptHash prevout.scriptPubKey then
          nSigOps + CScript.getSigOpCountP2SH prevout.scriptPubKey txin.scriptSig
        else nSigOps) x = some n →
      n.toNat ≤ x.toNat + 20 * (txins.map fun txin => txin.scriptSig.length).sum by
    have hsum := key tx.vin 0 h
    have hscripts := scripts_length_le tx
    have hzero : (0 : UInt32).toNat = 0 := rfl
    omega
  intro txins
  induction txins with
  | nil =>
    intro x hx
    cases hx
    exact le_add_right _ _
  | cons txin txins ih =>
    intro x hx
    rw [foldlM_cons] at hx
    obtain ⟨y, hy, hx⟩ := Option.bind_eq_some_iff.mp hx
    obtain ⟨prevout, _, rfl⟩ := Option.map_eq_some_iff.mp hy
    have hrest := ih _ hx
    rw [map_cons, sum_cons]
    split at hrest
    next hscript =>
      have hadd := uint32_add_le (le_refl x.toNat)
        (getSigOpCountP2SH_le hscript txin.scriptSig)
      omega
    next => omega

end Fantom.Miner
