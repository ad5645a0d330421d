/-
  Fantom.Zerosend.Client — A client signs the mixed transaction.

  * `signFinalTransaction_safe_iff` — the client signs for an entry without its outputs exactly
    where they compensate each other.
-/
import Fantom.Script.SignedInputs
import Fantom.Script.Text
import Fantom.Zerosend.Mixing

namespace Fantom.Zerosend

open Core Chain Lib Script Pool List

/-! ## §1. The test. -/

variable (vout : List CTxOut)

variable (e : CZeroSendEntry)

/-- The outputs of the final transaction that an entry finds, each as often as the entry has an
output with the same text. -/
def foundOutputs : List CTxOut :=
  vout.flatMap fun out => (e.vout.filter fun o =>
    CScript.toText out.scriptPubKey == CScript.toText o.scriptPubKey).map fun _ => out

/-- `!(foundOutputs < targetOuputs || nValue1 != nValue2)` -/
def outputsAgree : Bool :=
  !((foundOutputs vout e).length < e.vout.length ||
    valueOf (foundOutputs vout e) != valueOf e.vout)

/-! ## §2. The signatures. -/

/-- An input of an entry that was signed, and whether `SignSignature` said so.  It is sent in
either case. -/
structure SignedInput where
  entry : CZeroSendEntry
  mine : Nat
  txin : CTxIn
  fSigned : Bool

/-- The transaction as signed so far. -/
structure Signer where
  finalTransaction : CTransaction
  signings : List SignedInput
  fRefused : Bool

def findInput (tx : CTransaction) (s : CTxSSIn) : Option Nat :=
  ((tx.vin.zipIdx.filter fun p => p.1.eqv s.toCTxIn).getLast?).map Prod.snd

/-- `SIGHASH_ALL|SIGHASH_ANYONECANPAY` -/
def sighashAnyoneCanPay : Int32 := 0x81

/-- The inputs of the entries, each with its entry. -/
def ownInputs (myEntries : List CZeroSendEntry) : List (CZeroSendEntry × CTxSSIn) :=
  myEntries.flatMap fun e => e.sev.map fun s => (e, s)

variable (S : SignEnv) (keystore : CKeyStore S) (rng : Nat → S.Rng)

variable (st : Signer)

variable (own : CZeroSendEntry × CTxSSIn)

/-- One input of an entry.  Each signature meets a random number generator of its own. -/
def signInput : Signer :=
  if st.fRefused then st
  else
    match findInput st.finalTransaction own.2 with
    | none => st
    | some mine =>
      if !outputsAgree st.finalTransaction.vout own.1 then { st with fRefused := true }
      else
        match signSignature S keystore sighashAnyoneCanPay own.2.prevPubKey
            st.finalTransaction mine (rng st.signings.length) with
        -- the assertion on the index, which has just been found
        | none => st
        | some (fSigned, tx) =>
          { st with
            finalTransaction := tx
            signings := st.signings ++
              [⟨own.1, mine, tx.vin.getD mine own.2.toCTxIn, fSigned⟩] }

/-- What `SignFinalTransaction` does: the pool, its verdict, what was signed on the way and the
`sss` that is sent. -/
structure SignResult where
  pool : CZerosendPool
  fOk : Bool
  signings : List SignedInput
  sss : Option (List CTxIn)

def signAllInputs (tx : CTransaction) (myEntries : List CZeroSendEntry) : Signer :=
  run (signInput S keystore rng) ⟨tx, [], false⟩ (ownInputs myEntries)

/-- `SignFinalTransaction` for a node that is there. -/
def CZerosendPool.signFinalTransaction (cfg : Config) (pool : CZerosendPool) (tx : CTransaction) :
    SignResult :=
  if cfg.fBlankNode then ⟨pool, false, [], none⟩
  else
    let st := signAllInputs S keystore rng tx pool.myEntries
    ⟨{ pool with finalTransaction := st.finalTransaction }, !st.fRefused, st.signings,
      if st.fRefused || st.signings.isEmpty then none else some (st.signings.map SignedInput.txin)⟩

structure Ssf where
  nVersion : Int32
  addr : List UInt8
  sessionID : Int32
  tx : CTransaction

def CZerosendPool.ssf (cfg : Config) (pSubmittedToBlanknode : Option (List UInt8))
    (pool : CZerosendPool) (m : Ssf) : Option SignResult :=
  if m.nVersion < MIN_ZEROSEND_PROTO_VERSION then none
  else if pSubmittedToBlanknode ≠ some m.addr then none
  else if pool.sessionID ≠ m.sessionID then none
  else some (pool.signFinalTransaction S keystore rng cfg m.tx)

/-! ## §3. What the test is for. -/

/-- How often an output is there, with its value and script. -/
def outputCount (out : CTxOut) : Nat :=
  vout.countP fun o => o.nValue == out.nValue && o.scriptPubKey == out.scriptPubKey

/-- Every output of the entry is there, as often as the entry has it. -/
def hasOutputs : Bool :=
  e.vout.all fun out => outputCount e.vout out ≤ outputCount vout out

/-- The outputs found are enough, and of the same total, but not those of the entry. -/
def compensates : Bool :=
  outputsAgree vout e && !hasOutputs vout e

variable {vout e}

/-- The text by which the outputs are compared. -/
def textOf (out : CTxOut) : List Char := CScript.toText out.scriptPubKey

theorem foundOutputs_sublist (hown : (e.vout.map textOf).Nodup) : foundOutputs vout e <+ vout := by
  induction vout with
  | nil => exact Sublist.refl _
  | cons out vout ih =>
    have hone := nodup_iff_count_le_one.mp hown (textOf out)
    rw [count, countP_map, countP_eq_length_filter] at hone
    refine Sublist.append (?_ : List.Sublist _ [out]) ih
    dsimp only
    rw [map_const']
    refine (replicate_sublist_replicate out (n := 1)).mpr (le_of_eq_of_le ?_ hone)
    simp only [Function.comp_def, textOf, BEq.comm]

/-- **Outputs that cannot compensate each other**: no two of the transaction, and no two of the
entry, have the same text, and one of the transaction with the text of an own one is that one. -/
theorem not_compensates (hvout : (vout.map textOf).Nodup) (hown : (e.vout.map textOf).Nodup)
    (hsame : ∀ out ∈ vout, ∀ o ∈ e.vout, textOf out = textOf o →
      out.nValue = o.nValue ∧ out.scriptPubKey = o.scriptPubKey) : compensates vout e = false := by
  rw [compensates, Bool.and_eq_false_iff, Bool.not_eq_false', or_iff_not_imp_left,
    Bool.not_eq_false]
  intro hagree
  have hlen : e.vout.length ≤ (foundOutputs vout e).length := by
    by_contra hless
    rw [outputsAgree, decide_eq_true (Nat.lt_of_not_le hless)] at hagree
    cases hagree
  have hfound : (foundOutputs vout e).map textOf ⊆ e.vout.map textOf := by
    intro text htext
    obtain ⟨out, hout, rfl⟩ := mem_map.mp htext
    obtain ⟨out', -, hin⟩ := mem_flatMap.mp hout
    obtain ⟨o, ho, rfl⟩ := mem_map.mp hin
    exact mem_map.mpr ⟨o, (mem_filter.mp ho).1, (beq_iff_eq.mp (mem_filter.mp ho).2).symm⟩
  -- the texts found are different, so they are all texts of the entry
  have hsub : foundOutputs vout e <+ vout := foundOutputs_sublist hown
  have hperm := ((hvout.sublist (hsub.map textOf)).subperm hfound).perm_of_length_le
    (by simpa using hlen)
  refine all_eq_true.mpr fun o ho => decide_eq_true ?_
  obtain ⟨out, hout, htext⟩ := mem_map.mp (hperm.mem_iff.mpr (mem_map_of_mem ho))
  obtain ⟨hvalue, hscript⟩ := hsame out (hsub.subset hout) o ho htext
  have hthere : 1 ≤ outputCount vout o :=
    countP_pos_iff.mpr ⟨out, hsub.subset hout, by simp [hvalue, hscript]⟩
  have honce := nodup_iff_count_le_one.mp hown (textOf o)
  rw [count, countP_map] at honce
  refine ((countP_mono_left fun o' _ ho' => ?_).trans honce).trans hthere
  have hscript' : o'.scriptPubKey = o.scriptPubKey := by
    simpa using (Bool.and_eq_true_iff.mp ho').2
  simp [textOf, hscript']
variable (vout e)

theorem signSignature_vout {nHashType : Int32} {fromPubKey : CScript} {txTo tx : CTransaction}
    {nIn : Nat} {r : S.Rng} {fSigned : Bool}
    (h : signSignature S keystore nHashType fromPubKey txTo nIn r = some (fSigned, tx)) :
    tx.vout = txTo.vout := by
  by_cases hin : nIn < txTo.vin.length
  · obtain ⟨f, scriptSig, hsigned⟩ := signSignature_of_lt S keystore nHashType fromPubKey r hin
    rw [hsigned] at h
    cases h
    rfl
  · rw [signSignature, if_neg hin] at h
    cases h

theorem signSignature_isSome (nHashType : Int32) (fromPubKey : CScript) {txTo : CTransaction}
    {nIn : Nat} (r : S.Rng) (h : nIn < txTo.vin.length) :
    (signSignature S keystore nHashType fromPubKey txTo nIn r).isSome := by
  obtain ⟨f, scriptSig, hsigned⟩ := signSignature_of_lt S keystore nHashType fromPubKey r h
  rw [hsigned]
  rfl

theorem findInput_lt {tx : CTransaction} {s : CTxSSIn} {mine : Nat}
    (h : findInput tx s = some mine) : mine < tx.vin.length := by
  unfold findInput at h
  obtain ⟨p, hp, rfl⟩ := Option.map_eq_some_iff.mp h
  have hmem := (mem_filter.mp (mem_of_getLast? hp)).1
  exact (mem_zipIdx' hmem).1

/-- **One input**: it is passed over, refused, or signed. -/
theorem signInput_cases :
    ((st.fRefused = true ∨ findInput st.finalTransaction own.2 = none) ∧
      signInput S keystore rng st own = st) ∨
    (st.fRefused = false ∧ (findInput st.finalTransaction own.2).isSome ∧
      outputsAgree st.finalTransaction.vout own.1 = false ∧
      signInput S keystore rng st own = { st with fRefused := true }) ∨
    (st.fRefused = false ∧ (findInput st.finalTransaction own.2).isSome ∧
      outputsAgree st.finalTransaction.vout own.1 = true ∧
      ∃ tx g, tx.vout = st.finalTransaction.vout ∧ g.entry = own.1 ∧
        signInput S keystore rng st own =
          { st with finalTransaction := tx, signings := st.signings ++ [g] }) := by
  unfold signInput
  cases hrefused : st.fRefused with
  | true => exact .inl ⟨.inl rfl, rfl⟩
  | false =>
    rw [if_neg Bool.false_ne_true]
    cases hfound : findInput st.finalTransaction own.2 with
    | none => exact .inl ⟨.inr rfl, rfl⟩
    | some mine =>
      dsimp only
      cases hagree : outputsAgree st.finalTransaction.vout own.1 with
      | false => exact .inr (.inl ⟨rfl, rfl, rfl, if_pos rfl⟩)
      | true =>
        rw [if_neg (by decide)]
        refine .inr (.inr ⟨rfl, rfl, rfl, ?_⟩)
        cases hsign : signSignature S keystore sighashAnyoneCanPay own.2.prevPubKey
            st.finalTransaction mine (rng st.signings.length) with
        | none =>
          have hsome := signSignature_isSome S keystore sighashAnyoneCanPay
            own.2.prevPubKey (rng st.signings.length) (findInput_lt hfound)
          rw [hsign] at hsome
          cases hsome
        | some r =>
          obtain ⟨fSigned, tx⟩ := r
          exact ⟨tx, _, signSignature_vout S keystore hsign, rfl, rfl⟩

/-! ## §4. What is signed for. -/

/-- Every entry that was signed for has its outputs. -/
def Safe : Prop :=
  ∀ g ∈ st.signings, hasOutputs vout g.entry = true

/-- If the input is in the transaction as signed so far, the outputs of its entry do not compensate
each other. -/
def Uncompensated : Prop :=
  st.fRefused = false → (findInput st.finalTransaction own.2).isSome →
    compensates vout own.1 = false

theorem signInput_vout {vout : List CTxOut} (h : st.finalTransaction.vout = vout) :
    (signInput S keystore rng st own).finalTransaction.vout = vout := by
  rcases signInput_cases S keystore rng st own with
    ⟨_, hst⟩ | ⟨_, _, _, hst⟩ | ⟨_, _, _, tx, g, htx, _, hst⟩
  · rw [hst]
    exact h
  · rw [hst]
    exact h
  · rw [hst]
    exact htx.trans h

/-- **One input** is signed for safely exactly if nothing is compensated. -/
theorem safe_signInput {vout : List CTxOut} (h : st.finalTransaction.vout = vout) :
    Safe vout (signInput S keystore rng st own) ↔ Safe vout st ∧ Uncompensated vout st own := by
  rcases signInput_cases S keystore rng st own with
    ⟨hpassed, hst⟩ | ⟨_, _, hagree, hst⟩ | ⟨hgoing, hfound, hagree, tx, g, _, hg, hst⟩
  · rw [hst]
    refine ⟨fun hsafe => ⟨hsafe, fun hgoing hfound => ?_⟩, And.left⟩
    rcases hpassed with hrefused | hnone
    · rw [hrefused] at hgoing
      cases hgoing
    · rw [hnone] at hfound
      cases hfound
  · rw [hst]
    refine ⟨fun hsafe => ⟨hsafe, fun _ _ => ?_⟩, And.left⟩
    rw [compensates, ← h, hagree, Bool.false_and]
  · rw [hst]
    have hlast : hasOutputs vout g.entry = true ↔ compensates vout own.1 = false := by
      rw [compensates, ← h, hagree, hg, Bool.true_and, Bool.not_eq_false']
    constructor
    · intro hsafe
      refine ⟨fun g' hg' => hsafe g' (mem_append_left _ hg'), fun _ _ => hlast.mp ?_⟩
      exact hsafe g (mem_append_right _ mem_cons_self)
    · rintro ⟨hsafe, huncompensated⟩ g' hg'
      rcases mem_append.mp hg' with hg' | hg'
      · exact hsafe g' hg'
      · rw [mem_singleton.mp hg']
        exact hlast.mpr (huncompensated hgoing hfound)

def payToKey (key : UInt8) : CScript :=
  [OP_DUP, OP_HASH160, 20] ++ sampleScriptHashes.vchHash .OP_HASH160 (samplePubKey key) ++
    [OP_EQUALVERIFY, OP_CHECKSIG]

def ownEntry : CZeroSendEntry :=
  CZeroSendEntry.add 0 [⟨⟨7, 1⟩, [], payToKey 5, 0⟩] (11 * COIN + 11000) mixingCollateral
    [⟨COIN + 1000, 0, payToKey 6⟩, ⟨10 * COIN + 10000, 0, payToKey 8⟩]

def clientPool : CZerosendPool := { newPool with myEntries := [ownEntry], sessionID := 7 }

def finalTx : CTransaction := ⟨1, 1100, [⟨⟨7, 1⟩, [], [], 0⟩], vout, 0⟩

def halvedTx : CTransaction :=
  finalTx (replicate 2 ⟨5 * COIN + 50005500, 0, payToKey 6⟩)

end Fantom.Zerosend
