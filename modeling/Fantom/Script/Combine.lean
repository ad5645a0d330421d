/-
  Fantom.Script.Combine — The signatures of two signers of a multisig script, made into one list.

  * `combineMultisig_complete` — a signature for every key that has one, as many as are asked for.
-/
import Fantom.Lib.TrialMatch
import Fantom.Script.Forms
import Fantom.Script.Pushes
import Fantom.Script.Sign

namespace Fantom.Script

open Core Lib List Std.ExtTreeSet Nat

/-! ## §1. `CombineMultisig`. -/

variable (E : SigEnv) (scriptPubKey : CScript) (txTo : CTransaction) (nIn : Nat)

/-- The loop over the keys for one signature, with `sigs` the map from keys to signatures. -/
def matchSig (sig : Valtype) :
    List Valtype → StdMap Valtype Valtype → Cached (CSignatureCache E) (StdMap Valtype Valtype)
  | [], sigs => .ok sigs
  | pubkey :: pubkeys, sigs =>
    if sigs.contains pubkey then matchSig sig pubkeys sigs
    else
      (checkSig E sig pubkey scriptPubKey txTo nIn 0 0).bind fun fOk =>
        if fOk then .ok (sigs.insert pubkey sig) else matchSig sig pubkeys sigs

def matchSigs (pubkeys : List Valtype) :
    List Valtype → StdMap Valtype Valtype → Cached (CSignatureCache E) (StdMap Valtype Valtype)
  | [], sigs => .ok sigs
  | sig :: allsigs, sigs =>
    (matchSig E scriptPubKey txTo nIn sig pubkeys sigs).bind (matchSigs pubkeys allsigs)

/-- `BOOST_FOREACH(const valtype& v, sigs) if (!v.empty()) allsigs.insert(v);` -/
def insertSigs (allsigs : StdSet Valtype) (sigs : List Valtype) : StdSet Valtype :=
  sigs.foldl (fun allsigs v => if !v.isEmpty then allsigs.insert v else allsigs) allsigs

/-- The loop that writes the signatures, with `nSigsHave`. -/
def writeSigs (sigs : StdMap Valtype Valtype) (nSigsRequired : Nat) :
    List Valtype → CScript × Nat → CScript × Nat
  | [], out => out
  | pubkey :: pubkeys, (result, nSigsHave) =>
    if nSigsHave < nSigsRequired then
      match sigs[pubkey]? with
      | some sig => writeSigs sigs nSigsRequired pubkeys (result ++ CScript.push sig, nSigsHave + 1)
      | none => writeSigs sigs nSigsRequired pubkeys (result, nSigsHave)
    else (result, nSigsHave)

/-- The signatures in the order of the keys, and `OP_0` for any that are missing. -/
def mergeSigs (sigs : StdMap Valtype Valtype) (nSigsRequired : Nat) (pubkeys : List Valtype) :
    CScript :=
  let (result, nSigsHave) := writeSigs sigs nSigsRequired pubkeys ([0], 0)
  result ++ replicate (nSigsRequired - nSigsHave) 0

/-- `CombineMultisig`; it fails where its assertion does. -/
def combineMultisig (vSolutions sigs1 sigs2 : List Valtype) :
    Cached (CSignatureCache E) CScript :=
  if vSolutions.length > 1 then
    let allsigs := insertSigs (insertSigs ∅ sigs1) sigs2
    let nSigsRequired := (firstByte vSolutions.head?).toNat
    let pubkeys := multiSigKeys vSolutions
    (matchSigs E scriptPubKey txTo nIn pubkeys allsigs.toList ∅).bind fun sigs =>
      .ok (mergeSigs sigs nSigsRequired pubkeys)
  else .fail

/-! ## §2. What is written. -/

/-- Whether `CheckSig` accepts a signature for a key, with the hash type that it ends with. -/
def verifiesUnder (sig pubkey : Valtype) : Bool :=
  pubKeyIsValid pubkey &&
    match sig.getLast? with
    | none => false
    | some back =>
      E.verify pubkey (signatureHash E.H scriptPubKey txTo nIn (Int32.ofNat back.toNat))
        sig.dropLast

variable {E scriptPubKey txTo nIn} {sigs1 sigs2 : List Valtype}

theorem checkSig_fst (sig pubkey : Valtype) (cache : CSignatureCache E) :
    (checkSig E sig pubkey scriptPubKey txTo nIn 0 0 cache).1 =
      some (verifiesUnder E scriptPubKey txTo nIn sig pubkey) := by
  unfold checkSig verifiesUnder
  cases hvalid : pubKeyIsValid pubkey with
  | false => rfl
  | true =>
    rw [Bool.true_and, if_neg (by simp)]
    cases sig.getLast? with
    | none => rfl
    | some back =>
      dsimp only
      rw [if_neg (by simp), Cached.ask_fst]
      rfl

theorem matchSig_fst (sig : Valtype) (pubkeys : List Valtype) (sigs : StdMap Valtype Valtype)
    (cache : CSignatureCache E) :
    (matchSig E scriptPubKey txTo nIn sig pubkeys sigs cache).1 =
      some (TrialMatch.place (verifiesUnder E scriptPubKey txTo nIn) sig pubkeys sigs) := by
  induction pubkeys generalizing cache with
  | nil => rfl
  | cons pubkey pubkeys ih =>
    rw [matchSig, TrialMatch.place]
    split
    next => exact ih cache
    next =>
      rw [Cached.bind_of_some (checkSig_fst sig pubkey cache)]
      split
      next => rfl
      next => exact ih _

theorem matchSigs_fst (pubkeys allsigs : List Valtype) (sigs : StdMap Valtype Valtype)
    (cache : CSignatureCache E) :
    (matchSigs E scriptPubKey txTo nIn pubkeys allsigs sigs cache).1 =
      some (TrialMatch.placeAll (verifiesUnder E scriptPubKey txTo nIn) pubkeys allsigs sigs) := by
  induction allsigs generalizing sigs cache with
  | nil => rfl
  | cons sig allsigs ih =>
    rw [matchSigs, TrialMatch.placeAll,
      Cached.bind_of_some (matchSig_fst sig pubkeys sigs cache)]
    exact ih _ _

theorem mem_insertSigs {allsigs : StdSet Valtype} {sigs : List Valtype} {v : Valtype} :
    v ∈ insertSigs allsigs sigs ↔ v ∈ allsigs ∨ (v ∈ sigs ∧ v ≠ []) := by
  unfold insertSigs
  induction sigs generalizing allsigs with
  | nil => simp
  | cons u sigs ih =>
    rw [foldl_cons, ih]
    cases u with
    | nil =>
      rw [if_neg (by simp)]
      simp only [mem_cons]
      constructor
      · rintro (h | ⟨h, hne⟩)
        · exact .inl h
        · exact .inr ⟨.inr h, hne⟩
      · rintro (h | ⟨rfl | h, hne⟩)
        · exact .inl h
        · exact absurd rfl hne
        · exact .inr ⟨h, hne⟩
    | cons b u =>
      rw [if_pos (by simp), mem_insert]
      simp only [mem_cons, Std.LawfulEqOrd.compare_eq_iff_eq]
      constructor
      · rintro ((rfl | h) | ⟨h, hne⟩)
        · exact .inr ⟨.inl rfl, cons_ne_nil _ _⟩
        · exact .inl h
        · exact .inr ⟨.inr h, hne⟩
      · rintro (h | ⟨rfl | h, hne⟩)
        · exact .inl (.inr h)
        · exact .inl (.inl rfl)
        · exact .inr ⟨h, hne⟩

theorem mem_allsigs {v : Valtype} :
    v ∈ (insertSigs (insertSigs ∅ sigs1) sigs2).toList ↔ v ∈ sigs1 ++ sigs2 ∧ v ≠ [] := by
  rw [mem_toList, mem_insertSigs, mem_insertSigs, mem_append]
  have hempty : ¬v ∈ (∅ : StdSet Valtype) := not_mem_empty
  tauto

theorem ne_nil_of_verifiesUnder {sig pubkey : Valtype}
    (h : verifiesUnder E scriptPubKey txTo nIn sig pubkey = true) : sig ≠ [] := by
  rintro rfl
  simp [verifiesUnder] at h

theorem writeSigs_eq (sigs : StdMap Valtype Valtype) (nSigsRequired : Nat) (pubkeys : List Valtype)
    (result : CScript) (nSigsHave : Nat) :
    let chosen := (TrialMatch.tokens sigs pubkeys).take (nSigsRequired - nSigsHave)
    writeSigs sigs nSigsRequired pubkeys (result, nSigsHave) =
      (result ++ pushes chosen, nSigsHave + chosen.length) := by
  induction pubkeys generalizing result nSigsHave with
  | nil => simp [writeSigs, TrialMatch.tokens]
  | cons pubkey pubkeys ih =>
    rw [writeSigs]
    dsimp only at ih ⊢
    split
    next hmore =>
      obtain ⟨need, hneed⟩ : ∃ need, nSigsRequired - nSigsHave = need + 1 :=
        ⟨nSigsRequired - nSigsHave - 1, by omega⟩
      cases hsig : sigs[pubkey]? with
      | none =>
        dsimp only
        rw [ih, TrialMatch.tokens_cons_none hsig]
      | some sig =>
        have hless : nSigsRequired - (nSigsHave + 1) = need := by omega
        dsimp only
        have hpushes (bs : List Valtype) : CScript.push sig ++ pushes bs = pushes (sig :: bs) :=
          rfl
        rw [ih, TrialMatch.tokens_cons_some hsig, hneed, hless, take_succ_cons,
          append_assoc, hpushes, length_cons, add_assoc, add_comm 1]
    next hfull =>
      have hzero : nSigsRequired - nSigsHave = 0 := by omega
      rw [hzero, take_zero, pushes_nil, append_nil]
      rfl

theorem mergeSigs_eq (sigs : StdMap Valtype Valtype) (nSigsRequired : Nat)
    (pubkeys : List Valtype) :
    let chosen := (TrialMatch.tokens sigs pubkeys).take nSigsRequired
    mergeSigs sigs nSigsRequired pubkeys =
      0 :: (pushes chosen ++ replicate (nSigsRequired - chosen.length) 0) := by
  rw [mergeSigs, writeSigs_eq]
  dsimp only
  rw [Nat.sub_zero, zero_add, append_assoc, singleton_append]

variable (E scriptPubKey txTo nIn sigs1 sigs2) in
/-- The map from keys to signatures, as the loops leave it. -/
def matchedSigs (pubkeys : List Valtype) : StdMap Valtype Valtype :=
  TrialMatch.placeAll (verifiesUnder E scriptPubKey txTo nIn) pubkeys
    (insertSigs (insertSigs ∅ sigs1) sigs2).toList ∅

/-- **What `CombineMultisig` writes**, whatever is in the signature cache. -/
theorem combineMultisig_fst {vSolutions : List Valtype} (hlen : vSolutions.length > 1)
    (cache : CSignatureCache E) :
    (combineMultisig E scriptPubKey txTo nIn vSolutions sigs1 sigs2 cache).1 =
      some (mergeSigs
        (matchedSigs E scriptPubKey txTo nIn sigs1 sigs2 (multiSigKeys vSolutions))
        (firstByte vSolutions.head?).toNat (multiSigKeys vSolutions)) := by
  have hsigs : (matchSigs E scriptPubKey txTo nIn (multiSigKeys vSolutions)
      (insertSigs (insertSigs ∅ sigs1) sigs2).toList ∅ cache).1 = _ :=
    matchSigs_fst _ _ _ cache
  rw [combineMultisig, if_pos hlen, Cached.bind_of_some hsigs]
  rfl

/-! ## §3. Every key that has a signature. -/

variable (E scriptPubKey txTo nIn sigs1 sigs2) in
/-- The keys that some signature of the two lists verifies under, in their order. -/
def coveredKeys (pubkeys : List Valtype) : List Valtype :=
  pubkeys.filter fun pubkey =>
    (sigs1 ++ sigs2).any fun sig => verifiesUnder E scriptPubKey txTo nIn sig pubkey

variable (E scriptPubKey txTo nIn sigs1 sigs2) in
/-- A signature of the two lists for each of `pubkeys`. -/
def SignaturesFor (pubkeys chosen : List Valtype) : Prop :=
  List.Forall₂ (fun pubkey sig => sig ∈ sigs1 ++ sigs2 ∧
    verifiesUnder E scriptPubKey txTo nIn sig pubkey = true) pubkeys chosen

theorem contains_signature {pubkeys : List Valtype}
    (hone : ∀ sig ∈ sigs1 ++ sigs2, ∀ pubkey ∈ pubkeys, ∀ pubkey' ∈ pubkeys,
      verifiesUnder E scriptPubKey txTo nIn sig pubkey = true →
      verifiesUnder E scriptPubKey txTo nIn sig pubkey' = true → pubkey' = pubkey)
    {pubkey : Valtype} (hpubkey : pubkey ∈ pubkeys) :
    (matchedSigs E scriptPubKey txTo nIn sigs1 sigs2 pubkeys).contains pubkey =
        (sigs1 ++ sigs2).any fun sig => verifiesUnder E scriptPubKey txTo nIn sig pubkey := by
  rw [Bool.eq_iff_iff, matchedSigs, any_eq_true,
    TrialMatch.contains_placeAll_iff fun sig hsig => hone sig (mem_allsigs.mp hsig).1]
  constructor
  · rintro ⟨_, sig, hsig, hverifies⟩
    exact ⟨sig, (mem_allsigs.mp hsig).1, hverifies⟩
  · rintro ⟨sig, hsig, hverifies⟩
    exact ⟨hpubkey, sig, mem_allsigs.mpr ⟨hsig, ne_nil_of_verifiesUnder hverifies⟩, hverifies⟩

theorem signaturesFor_tokens {pubkeys : List Valtype}
    (hone : ∀ sig ∈ sigs1 ++ sigs2, ∀ pubkey ∈ pubkeys, ∀ pubkey' ∈ pubkeys,
      verifiesUnder E scriptPubKey txTo nIn sig pubkey = true →
      verifiesUnder E scriptPubKey txTo nIn sig pubkey' = true → pubkey' = pubkey) :
    SignaturesFor E scriptPubKey txTo nIn sigs1 sigs2
      (coveredKeys E scriptPubKey txTo nIn sigs1 sigs2 pubkeys)
      (TrialMatch.tokens (matchedSigs E scriptPubKey txTo nIn sigs1 sigs2 pubkeys) pubkeys) := by
  have hcovered : coveredKeys E scriptPubKey txTo nIn sigs1 sigs2 pubkeys =
      pubkeys.filter (matchedSigs E scriptPubKey txTo nIn sigs1 sigs2 pubkeys).contains := by
    refine filter_congr fun pubkey hpubkey => ?_
    exact (contains_signature hone hpubkey).symm
  rw [hcovered]
  refine (TrialMatch.forall₂_tokens _ pubkeys).imp fun pubkey sig hsig => ?_
  rcases TrialMatch.placeAll_sound hsig with hempty | ⟨_, hmem, hverifies⟩
  · rw [StdMap.get_empty] at hempty
    cases hempty
  · exact ⟨(mem_allsigs.mp hmem).1, hverifies⟩

variable (E scriptPubKey txTo nIn sigs1 sigs2) in
/-- **Nothing is lost**: whatever signatures and junk the two lists hold, and in whatever order,
`CombineMultisig` writes `OP_0` and the signatures of the first `m` keys that have one, or those
of all keys that have one and `OP_0` for the rest. -/
theorem combineMultisig_complete (vSolutions : List Valtype)
    (h : solver scriptPubKey = some (.TX_MULTISIG, vSolutions))
    (hdistinct : (multiSigKeys vSolutions).Nodup)
    (hone : ∀ sig ∈ sigs1 ++ sigs2,
      ∀ pubkey ∈ multiSigKeys vSolutions, ∀ pubkey' ∈ multiSigKeys vSolutions,
      verifiesUnder E scriptPubKey txTo nIn sig pubkey = true →
      verifiesUnder E scriptPubKey txTo nIn sig pubkey' = true → pubkey' = pubkey)
    (cache : CSignatureCache E) :
    let m := (firstByte vSolutions.head?).toNat
    let covered := coveredKeys E scriptPubKey txTo nIn sigs1 sigs2 (multiSigKeys vSolutions)
    let result := (combineMultisig E scriptPubKey txTo nIn vSolutions sigs1 sigs2 cache).1
    (m ≤ covered.length → ∃ chosen, result = some (0 :: pushes chosen) ∧ chosen.length = m ∧
      SignaturesFor E scriptPubKey txTo nIn sigs1 sigs2 (covered.take m) chosen ∧
      (covered.take m).Nodup) ∧
    (covered.length < m → ∃ chosen,
      result = some (0 :: (pushes chosen ++ replicate (m - chosen.length) 0)) ∧
      SignaturesFor E scriptPubKey txTo nIn sigs1 sigs2 covered chosen ∧ covered.Nodup) := by
  intro m covered result
  have hlen : vSolutions.length > 1 := by
    obtain ⟨f⟩ := ops_of_multiSig h
    rw [f.out_eq]
    simp
  have hall := signaturesFor_tokens hone
  have hnodup : covered.Nodup := hdistinct.filter _
  have hresult : result = some _ := combineMultisig_fst hlen cache
  rw [mergeSigs_eq] at hresult
  constructor
  · intro hmany
    have hchosen : SignaturesFor E scriptPubKey txTo nIn sigs1 sigs2 (covered.take m) _ :=
      forall₂_take m hall
    have htake : (covered.take m).length = m := by
      rw [length_take]
      exact min_eq_left hmany
    have hm := hchosen.length_eq.symm.trans htake
    refine ⟨_, ?_, hm, hchosen, hnodup.sublist (take_sublist m covered)⟩
    rw [hresult, hm, Nat.sub_self, replicate_zero, append_nil]
  · intro hfew
    refine ⟨_, ?_, hall, hnodup⟩
    rw [hresult, take_of_length_le (by rw [← hall.length_eq]; exact hfew.le)]

def keyedSigEnv : SigEnv := { sampleSigEnv with
  verify := fun pubkey _ sig => sig.head? == pubkey.getLast? }

def twoOfThree : CScript :=
  0x52 :: (pushes [2 :: replicate 32 7, 2 :: replicate 32 8, 2 :: replicate 32 9] ++
    [0x53, OP_CHECKMULTISIG])

def twoOfThreeSolutions : List Valtype :=
  [[2], 2 :: replicate 32 7, 2 :: replicate 32 8, 2 :: replicate 32 9, [3]]

/-- The first list has the signature of the third key, the other one that of the first. -/
theorem combineMultisig_complete_twoOfThree :
    ∃ chosen, (combineMultisig keyedSigEnv twoOfThree ⟨1, 0, [], [], 0⟩ 0 twoOfThreeSolutions
        [[], [9, 1], [5]] [[7, 1]] .empty).1 = some (0 :: pushes chosen) ∧ chosen.length = 2 := by
  obtain ⟨chosen, hresult, hlen, _⟩ := (combineMultisig_complete keyedSigEnv twoOfThree
    ⟨1, 0, [], [], 0⟩ 0 [[], [9, 1], [5]] [[7, 1]] twoOfThreeSolutions (by decide +kernel)
    (by decide) (by decide +kernel) .empty).1 (by decide +kernel)
  exact ⟨chosen, hresult, hlen⟩

end Fantom.Script
