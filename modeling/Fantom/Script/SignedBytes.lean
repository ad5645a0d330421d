/-
  Fantom.Script.SignedBytes — The bytes that `SignatureHash` hashes, and what they say of the
  transaction.

  * `Committed`, `signatureHashBytes_commits` — under `SIGHASH_ALL` the bytes determine the
    transaction that is signed, and the place in it.
-/
import Fantom.Core.Unserialize
import Fantom.Script.Pushes

namespace Fantom.Script

open Core Chain Lib List

/-! ## §1. Transactions of any size. -/

theorem prefixFree_txIn :
    PrefixFree CTxIn.serialize (fun i => i.scriptSig.length < 2 ^ 64) CTxIn.wire := by
  intro a b rest rest' ha hb h
  simp only [CTxIn.serialize, append_assoc] at h
  obtain ⟨hprevout, h⟩ := format_outPoint.prefixFree _ _ _ _ trivial trivial h
  obtain ⟨hscriptSig, h⟩ := prefixFree_bytes _ _ _ _ ha hb h
  obtain ⟨hnSequence, h⟩ := format_uint32.prefixFree _ _ _ _ trivial trivial h
  unfold CTxIn.wire
  rw [id_eq, id_eq] at hprevout hscriptSig hnSequence
  rw [hprevout, hscriptSig, hnSequence]
  exact ⟨rfl, h⟩

theorem prefixFree_txOut :
    PrefixFree CTxOut.serialize (fun o => o.scriptPubKey.length < 2 ^ 64) CTxOut.wire := by
  intro a b rest rest' ha hb h
  simp only [CTxOut.serialize, append_assoc] at h
  obtain ⟨hnValue, h⟩ := format_int64.prefixFree _ _ _ _ trivial trivial h
  obtain ⟨hscriptPubKey, h⟩ := prefixFree_bytes _ _ _ _ ha hb h
  unfold CTxOut.wire
  rw [id_eq, id_eq] at hnValue hscriptPubKey
  rw [hnValue, hscriptPubKey]
  exact ⟨rfl, h⟩

/-- The sizes are ones that a `size_t` counts, as they are in memory. -/
structure CTransaction.Countable (tx : CTransaction) : Prop where
  vin : tx.vin.length < 2 ^ 64 ∧ ∀ i ∈ tx.vin, i.scriptSig.length < 2 ^ 64
  vout : tx.vout.length < 2 ^ 64 ∧ ∀ o ∈ tx.vout, o.scriptPubKey.length < 2 ^ 64

/-- **A transaction shows where it ends**, and its bytes determine it. -/
theorem prefixFree_transaction :
    PrefixFree CTransaction.serialize CTransaction.Countable CTransaction.wire := by
  intro a b rest rest' ha hb h
  simp only [CTransaction.serialize, append_assoc] at h
  obtain ⟨hnVersion, h⟩ := format_int32.prefixFree _ _ _ _ trivial trivial h
  obtain ⟨hnTime, h⟩ := format_uint32.prefixFree _ _ _ _ trivial trivial h
  obtain ⟨hvin, h⟩ := prefixFree_vector prefixFree_txIn _ _ _ _ ha.vin hb.vin h
  obtain ⟨hvout, h⟩ := prefixFree_vector prefixFree_txOut _ _ _ _ ha.vout hb.vout h
  obtain ⟨hnLockTime, h⟩ := format_uint32.prefixFree _ _ _ _ trivial trivial h
  unfold CTransaction.wire
  rw [id_eq, id_eq] at hnVersion hnTime hnLockTime
  rw [hnVersion, hnTime, hvin, hvout, hnLockTime]
  exact ⟨rfl, h⟩

/-! ## §2. The bytes. -/

def signedVin (vin : List CTxIn) (nIn : Nat) (scriptCode : CScript) (nHashType : Int32) :
    List CTxIn :=
  if nHashType &&& 0x80 ≠ 0 then ((blankScripts vin nIn scriptCode).drop nIn).take 1
  else blankScripts vin nIn scriptCode

variable {scriptCode scriptCode' : CScript} {txTo txTo' : CTransaction} {nIn nIn' : Nat}
  {nHashType nHashType' : Int32} {vin vin' : List CTxIn}

theorem signatureHashBytes_all (hall : nHashType &&& 0x1f = 1)
    (hcode : CScript.NoCodeSeparator scriptCode) (hIn : nIn < txTo.vin.length) :
    signatureHashBytes scriptCode txTo nIn nHashType =
      some ({ txTo with vin := signedVin txTo.vin nIn scriptCode nHashType }.serialize ++
        leBytes 4 nHashType.toUInt32.toNat) := by
  rw [signatureHashBytes, if_neg (Nat.not_le.mpr hIn), findAndDelete_separator_eq_self hcode]
  dsimp only
  rw [signedParts, hall, if_neg (by decide), if_neg (by decide)]
  rfl

theorem blankScripts_getElem? (vin : List CTxIn) (nIn : Nat) (scriptCode : CScript) (i : Nat) :
    (blankScripts vin nIn scriptCode)[i]? = vin[i]?.map fun txin =>
      { txin with scriptSig := if i = nIn then scriptCode else [] } := by
  rw [blankScripts, getElem?_map, getElem?_zipIdx, Option.map_map, Nat.zero_add]
  rfl

theorem blankScripts_mem {i : CTxIn} (h : i ∈ blankScripts vin nIn scriptCode) :
    i.scriptSig = scriptCode ∨ i.scriptSig = [] := by
  obtain ⟨p, _, rfl⟩ := mem_map.mp h
  dsimp only
  split
  · exact .inl rfl
  · exact .inr rfl

theorem signedVin_mem {i : CTxIn} (h : i ∈ signedVin vin nIn scriptCode nHashType) :
    i ∈ blankScripts vin nIn scriptCode := by
  unfold signedVin at h
  split at h
  · exact mem_of_mem_drop (mem_of_mem_take h)
  · exact h

theorem signedVin_length_le : (signedVin vin nIn scriptCode nHashType).length ≤ vin.length := by
  have hlen : (blankScripts vin nIn scriptCode).length = vin.length := by
    rw [blankScripts, length_map, length_zipIdx]
  unfold signedVin
  split
  · rw [length_take, length_drop, hlen]
    omega
  · exact hlen.le

theorem countable_signed (htx : CTransaction.Countable txTo) (hcode : scriptCode.length < 2 ^ 64) :
    CTransaction.Countable { txTo with vin := signedVin txTo.vin nIn scriptCode nHashType } where
  vin := by
    refine ⟨signedVin_length_le.trans_lt htx.vin.1, fun i hi => ?_⟩
    rcases blankScripts_mem (signedVin_mem hi) with hi | hi
    · rw [hi]
      exact hcode
    · rw [hi]
      decide
  vout := htx.vout

/-! ## §3. What they determine. -/

/-- What is kept of an input whose script is blanked. -/
def unscripted (txin : CTxIn) : COutPoint × UInt32 := (txin.prevout, txin.nSequence)

theorem blankScripts_unscripted (vin : List CTxIn) (nIn : Nat) (scriptCode : CScript) :
    ((blankScripts vin nIn scriptCode).map CTxIn.wire).map unscripted = vin.map unscripted := by
  rw [blankScripts, map_map, map_map]
  calc vin.zipIdx.map _
      = (vin.zipIdx.map Prod.fst).map unscripted := by
        rw [map_map]
        rfl
    _ = vin.map unscripted := by rw [zipIdx_map_fst]

theorem blankScripts_inj (hIn : nIn < vin.length) (hcode : scriptCode ≠ [])
    (h : (blankScripts vin nIn scriptCode).map CTxIn.wire =
      (blankScripts vin' nIn' scriptCode').map CTxIn.wire) :
    nIn = nIn' ∧ scriptCode = scriptCode' ∧ vin.map unscripted = vin'.map unscripted := by
  have hall := congrArg (map unscripted) h
  rw [blankScripts_unscripted, blankScripts_unscripted] at hall
  have hscript := congrArg (fun vin => vin[nIn]?.map CTxIn.scriptSig) h
  simp only [getElem?_map, blankScripts_getElem?, getElem?_eq_getElem hIn,
    Option.map_some, if_pos, Option.map_map] at hscript
  obtain ⟨txin, _, hscript⟩ := Option.map_eq_some_iff.mp hscript.symm
  change (if nIn = nIn' then scriptCode' else []) = scriptCode at hscript
  by_cases hsame : nIn = nIn'
  · rw [if_pos hsame] at hscript
    exact ⟨hsame, hscript.symm, hall⟩
  · rw [if_neg hsame] at hscript
    exact absurd hscript.symm hcode

theorem signedVin_alone (halone : nHashType &&& 0x80 ≠ 0) (hIn : nIn < vin.length) :
    signedVin vin nIn scriptCode nHashType = [{ vin[nIn] with scriptSig := scriptCode }] := by
  rw [signedVin, if_pos halone, take_one, head?_drop, blankScripts_getElem?,
    getElem?_eq_getElem hIn, Option.map_some, if_pos rfl]
  rfl

/-- What two transactions that are signed with base `SIGHASH_ALL` share: all but the other
inputs, and those, with the place, if `SIGHASH_ANYONECANPAY` does not leave them out. -/
structure Committed (scriptCode scriptCode' : CScript) (txTo txTo' : CTransaction)
    (nIn nIn' : Nat) (nHashType nHashType' : Int32) : Prop where
  hashType : nHashType = nHashType'
  nVersion : txTo.nVersion = txTo'.nVersion
  nTime : txTo.nTime = txTo'.nTime
  nLockTime : txTo.nLockTime = txTo'.nLockTime
  /-- An output is a value and a script: `nRounds` is kept in memory only. -/
  vout : txTo.vout.map (fun o => (o.nValue, o.scriptPubKey)) =
    txTo'.vout.map (fun o => (o.nValue, o.scriptPubKey))
  signed : txTo.vin[nIn]?.map unscripted = txTo'.vin[nIn']?.map unscripted
  code : scriptCode = scriptCode'
  place : nHashType &&& 0x80 = 0 → nIn = nIn'
  vin : nHashType &&& 0x80 = 0 → txTo.vin.map unscripted = txTo'.vin.map unscripted

theorem signedVin_inj (hIn : nIn < vin.length) (hIn' : nIn' < vin'.length)
    (hcode : scriptCode ≠ [])
    (h : (signedVin vin nIn scriptCode nHashType).map CTxIn.wire =
      (signedVin vin' nIn' scriptCode' nHashType).map CTxIn.wire) :
    vin[nIn]?.map unscripted = vin'[nIn']?.map unscripted ∧ scriptCode = scriptCode' ∧
      (nHashType &&& 0x80 = 0 → nIn = nIn' ∧ vin.map unscripted = vin'.map unscripted) := by
  by_cases halone : nHashType &&& 0x80 = 0
  · unfold signedVin at h
    rw [if_neg (not_not.mpr halone), if_neg (not_not.mpr halone)] at h
    obtain ⟨rfl, hsame, hall⟩ := blankScripts_inj hIn hcode h
    refine ⟨?_, hsame, fun _ => ⟨rfl, hall⟩⟩
    rw [← getElem?_map, ← getElem?_map, hall]
  · rw [signedVin_alone halone hIn, signedVin_alone halone hIn'] at h
    have hone := singleton_inj.mp h
    refine ⟨?_, congrArg CTxIn.scriptSig hone, fun hall => absurd hall halone⟩
    rw [getElem?_eq_getElem hIn, getElem?_eq_getElem hIn']
    have hsame := congrArg (fun txin => some (unscripted txin)) hone
    exact hsame

/-- **A signature of base `SIGHASH_ALL` commits**: where the bytes hashed are the same, so are
the hash type, the numbers and the outputs of the transactions, what the signed inputs spend and
the scripts they run, and without `SIGHASH_ANYONECANPAY` also the place and the other inputs. -/
theorem signatureHashBytes_commits {scriptCode scriptCode' : CScript}
    {txTo txTo' : CTransaction} {nIn nIn' : Nat} {nHashType nHashType' : Int32}
    (hIn : nIn < txTo.vin.length) (hIn' : nIn' < txTo'.vin.length)
    (hall : nHashType &&& 0x1f = 1) (hall' : nHashType' &&& 0x1f = 1)
    (hne : scriptCode ≠ [])
    (hcode : CScript.NoCodeSeparator scriptCode) (hcode' : CScript.NoCodeSeparator scriptCode')
    (hlen : scriptCode.length < 2 ^ 64) (hlen' : scriptCode'.length < 2 ^ 64)
    (htx : CTransaction.Countable txTo) (htx' : CTransaction.Countable txTo')
    (h : signatureHashBytes scriptCode txTo nIn nHashType =
      signatureHashBytes scriptCode' txTo' nIn' nHashType') :
    Committed scriptCode scriptCode' txTo txTo' nIn nIn' nHashType nHashType' := by
  rw [signatureHashBytes_all hall hcode hIn, signatureHashBytes_all hall' hcode' hIn'] at h
  obtain ⟨hwire, htail⟩ := prefixFree_transaction _ _ _ _ (countable_signed htx hlen)
    (countable_signed htx' hlen') (Option.some.inj h)
  have htype : nHashType = nHashType' :=
    (format_int32.prefixFree _ _ [] [] trivial trivial (congrArg (· ++ []) htail)).1
  subst htype
  obtain ⟨hnVersion, hnTime, hvin, hvout, hnLockTime⟩ := CTransaction.mk.inj hwire
  obtain ⟨hsigned, hsame, hothers⟩ := signedVin_inj hIn hIn' hne hvin
  have houts := congrArg (map fun o : CTxOut => (o.nValue, o.scriptPubKey)) hvout
  rw [map_map, map_map] at houts
  exact {
    hashType := rfl
    nVersion := hnVersion
    nTime := hnTime
    nLockTime := hnLockTime
    vout := houts
    signed := hsigned
    code := hsame
    place := fun hzero => (hothers hzero).1
    vin := fun hzero => (hothers hzero).2 }

def twoInputs (scriptSig : CScript) : CTransaction :=
  ⟨1, 1100, [⟨⟨7, 0⟩, scriptSig, [], 5⟩, ⟨⟨8, 1⟩, [], [], 6⟩], [⟨20, -10, [0x51]⟩], 0⟩

theorem signatureHashBytes_commits_twoInputs :
    Committed [0x51] [0x51] (twoInputs []) (twoInputs [0x52]) 0 0 1 1 := by
  have hcountable (scriptSig : CScript) (h : scriptSig.length < 2 ^ 64) :
      CTransaction.Countable (twoInputs scriptSig) := by
    refine ⟨⟨by simp [twoInputs], ?_⟩, by simp [twoInputs], ?_⟩
    · simpa [twoInputs] using h
    · simp [twoInputs]
  exact signatureHashBytes_commits (by decide) (by decide) (by decide) (by decide) (by decide)
    (by decide) (by decide) (by decide) (by decide) (hcountable [] (by decide))
    (hcountable [0x52] (by decide)) (by decide)

end Fantom.Script
