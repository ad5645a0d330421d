/-
  Fantom.Blanknode.WinnerText — What the signature of a winner authorises.  The signed text has the
  first ten digits of the hash of the input, and joins the height and the payee without a separator.

  * `winner_binds_iff` — the votes that a signature authorises.
-/
import Fantom.Blanknode.PayeeAgreement

namespace Fantom.Blanknode

open Core Lib Script InstantX List

/-! ## §1. The text. -/

/-- What the text has of the hash of an outpoint. -/
def shortHash (o : COutPoint) : List Char := (hexString o.hash).take 10

def scriptSigText (txin : CTxIn) : List Char :=
  if txin.prevout.isNull then ", coinbase ".toList ++ hexStr txin.scriptSig
  else ", scriptSig=".toList ++ (CScript.toText txin.scriptSig).take 24

def CBlanknodePaymentWinner.tailText (w : CBlanknodePaymentWinner) : List Char :=
  decimal w.nBlockHeight.toInt ++ CScript.toText w.payee

/-- Two winners share a text: their inputs do, as far as it goes, and so do height and payee
taken together. -/
structure SameText (w w' : CBlanknodePaymentWinner) : Prop where
  hash : shortHash w.vin.prevout = shortHash w'.vin.prevout
  n : w.vin.prevout.n = w'.vin.prevout.n
  scriptSig : scriptSigText w.vin = scriptSigText w'.vin
  tail : w.tailText = w'.tailText

instance (w w' : CBlanknodePaymentWinner) : Decidable (SameText w w') :=
  decidable_of_iff
    (shortHash w.vin.prevout = shortHash w'.vin.prevout ∧ w.vin.prevout.n = w'.vin.prevout.n ∧
      scriptSigText w.vin = scriptSigText w'.vin ∧ w.tailText = w'.tailText)
    ⟨fun ⟨hhash, hn, hscript, htail⟩ => ⟨hhash, hn, hscript, htail⟩,
      fun ⟨hhash, hn, hscript, htail⟩ => ⟨hhash, hn, hscript, htail⟩⟩

/-- The winners differ in what the signature is for. -/
def Differ (w w' : CBlanknodePaymentWinner) : Prop :=
  w.vin.prevout ≠ w'.vin.prevout ∨ w.nBlockHeight ≠ w'.nBlockHeight ∨ w.payee ≠ w'.payee

instance (w w' : CBlanknodePaymentWinner) : Decidable (Differ w w') := by
  unfold Differ
  infer_instance

theorem strMessage_eq {w : CBlanknodePaymentWinner} (h : w.vin.nSequence = 0xffffffff) :
    w.strMessage = "CTxIn(COutPoint(".toList ++ (shortHash w.vin.prevout ++
      (", ".toList ++ (decimal w.vin.prevout.n.toNat ++ ')' ::
        (scriptSigText w.vin ++ ')' :: w.tailText)))) := by
  have hmax : ¬ (0xffffffff : UInt32) ≠ 0xffffffff := by decide
  unfold CBlanknodePaymentWinner.strMessage CTxIn.toText COutPoint.toText
  rw [h, if_neg hmax]
  unfold shortHash scriptSigText CBlanknodePaymentWinner.tailText
  rw [show "CTxIn(COutPoint(".toList = "CTxIn(".toList ++ "COutPoint(".toList by decide]
  simp only [append_assoc, nil_append, cons_append]

theorem shortHash_length (o : COutPoint) : (shortHash o).length = 10 := by
  rw [shortHash, length_take, hexString_length]
  rfl

theorem scriptSigText_textChar (txin : CTxIn) : ∀ c ∈ scriptSigText txin, TextChar c := by
  intro c hc
  unfold scriptSigText at hc
  split at hc
  next =>
    rcases mem_append.mp hc with hc | hc
    · exact (by decide : ∀ c ∈ ", coinbase ".toList, TextChar c) c hc
    · exact hexStr_textChar _ c hc
  next =>
    rcases mem_append.mp hc with hc | hc
    · exact (by decide : ∀ c ∈ ", scriptSig=".toList, TextChar c) c hc
    · exact toText_textChar _ c (mem_of_mem_take hc)

theorem tailText_textChar (w : CBlanknodePaymentWinner) : ∀ c ∈ w.tailText, TextChar c :=
  fun c hc => (mem_append.mp hc).elim (decimal_textChar _ c) (toText_textChar _ c)

/-- **Winners with the same text** are those that agree in all its parts. -/
theorem strMessage_eq_iff {w w' : CBlanknodePaymentWinner} (h : w.vin.nSequence = 0xffffffff)
    (h' : w'.vin.nSequence = 0xffffffff) : w.strMessage = w'.strMessage ↔ SameText w w' := by
  have hmark (t : List Char) (ht : ∀ c ∈ t, TextChar c) : ∀ c ∈ t, ¬ c = ')' :=
    fun c hc => (ht c hc).2.2
  rw [strMessage_eq h, strMessage_eq h']
  constructor
  · intro heq
    have hrest := append_cancel_left heq
    obtain ⟨hhash, hrest⟩ :=
      append_inj hrest ((shortHash_length _).trans (shortHash_length _).symm)
    obtain ⟨hn, _, hrest⟩ :=
      (append_mark_inj (p := fun c => c = ')') (hmark _ (decimal_textChar _))
        (hmark _ (decimal_textChar _)) rfl rfl).mp (append_cancel_left hrest)
    obtain ⟨hscript, _, htail⟩ :=
      (append_mark_inj (p := fun c => c = ')') (hmark _ (scriptSigText_textChar _))
        (hmark _ (scriptSigText_textChar _)) rfl rfl).mp hrest
    exact ⟨hhash, UInt32.toNat_inj.mp (Int.ofNat.inj (decimal_inj.mp hn)), hscript, htail⟩
  · rintro ⟨hhash, hn, hscript, htail⟩
    rw [hhash, hn, hscript, htail]

/-! ## §2. What a signature authorises. -/

theorem strMessage_byte {w : CBlanknodePaymentWinner} (h : w.vin.nSequence = 0xffffffff) :
    ∀ c ∈ w.strMessage, c.toNat < 256 := by
  have htext (t : List Char) (ht : ∀ c ∈ t, TextChar c) : ∀ c ∈ t, c.toNat < 256 :=
    fun c hc => (ht c hc).2.1.trans (by decide)
  have happend (s t : List Char) (hs : ∀ c ∈ s, c.toNat < 256) (ht : ∀ c ∈ t, c.toNat < 256) :
      ∀ c ∈ s ++ t, c.toNat < 256 := fun c hc => (mem_append.mp hc).elim (hs c) (ht c)
  have hhash : ∀ c ∈ shortHash w.vin.prevout, c.toNat < 256 :=
    fun c hc => htext _ (hexString_textChar _) c (mem_of_mem_take hc)
  rw [strMessage_eq h]
  refine happend _ _ (htext _ (by decide)) (happend _ _ hhash (happend _ _ (htext _ (by decide))
    (happend _ _ (htext _ (decimal_textChar _)) ?_)))
  refine forall_mem_cons.mpr ⟨by decide, happend _ _ (htext _ (scriptSigText_textChar _)) ?_⟩
  exact forall_mem_cons.mpr ⟨by decide, htext _ (tailText_textChar w)⟩

theorem admits_of_changed {C : Crypto} {env : PaymentsEnv C} {st : CBlanknodePayments}
    {w : CBlanknodePaymentWinner} (h : (processSnw env st w).1 ≠ st) :
    w.vin.nSequence = 0xffffffff ∧ env.checkSignature w = true := by
  rw [processSnw_eq] at h
  split at h
  next hadmits =>
    have hadmitted := hadmits.2
    simp only [PaymentsEnv.admits, Bool.and_eq_true] at hadmitted
    obtain ⟨_, hany⟩ := hadmitted
    obtain ⟨pindexBest, _, hall⟩ := Option.any_eq_true _ _ |>.mp hany
    simp only [Bool.and_eq_true, beq_iff_eq] at hall
    exact ⟨hall.1.2, hall.2⟩
  next => exact absurd rfl h

/-- **What the signature of a winner authorises.**  Two winners that differ have different texts
exactly if they do not share one.  An unforgeable signature verifies for the winners that share
its text, and no other changes the payments with it. -/
theorem winner_binds_iff (w w' : CBlanknodePaymentWinner) (h : w.vin.nSequence = 0xffffffff)
    (h' : w'.vin.nSequence = 0xffffffff) :
    ((Differ w w' → w.strMessage ≠ w'.strMessage) ↔ ¬ (Differ w w' ∧ SameText w w')) ∧
    ∀ (C : Crypto) (env : PaymentsEnv C), env.checkSignature w = true →
      (∀ s, verifyMessage C env.mainPubKey w.vchSig s = true →
        textBytes s = textBytes w.strMessage) →
      w'.vchSig = w.vchSig →
      (env.checkSignature w' = true ↔ SameText w w') ∧
        ∀ st, (processSnw env st w').1 ≠ st → SameText w w' := by
  have htext := strMessage_eq_iff h h'
  refine ⟨by rw [not_and, ← htext], ?_⟩
  intro C env hsigned hforge hsig
  have hcheck : env.checkSignature w' = true ↔ SameText w w' := by
    unfold PaymentsEnv.checkSignature at hsigned ⊢
    rw [hsig]
    constructor
    · intro hverified
      refine htext.mp (textBytes_inj (strMessage_byte h) (strMessage_byte h') ?_)
      exact (hforge _ hverified).symm
    · intro hsame
      rw [← htext.mpr hsame]
      exact hsigned
  exact ⟨hcheck, fun st hchanged => hcheck.mp (admits_of_changed hchanged).2⟩

/-! ## §3. Two winners of one height. -/

def winnerOf (hash : UInt256) : CBlanknodePaymentWinner := sampleWinner 2 ⟨hash, 0⟩ [OP_1]

/-- **Another input with the same signature**: hashes that agree in ten digits are as good as one,
and the winner is taken in. -/
theorem winner_replaced :
    let forged := { winnerOf 9 with vin := (winnerOf 8).vin }
    Differ (winnerOf 9) forged ∧ forged.strMessage = (winnerOf 9).strMessage ∧
      (processSnw samplePaymentsEnv (.start ∅) forged).2 = .relayed := by
  decide +kernel

def signedOnce (payee : CScript) : CBlanknodePaymentWinner :=
  ⟨2, ⟨⟨9, 0⟩, [], [], 0xffffffff⟩, payee, replicate 65 27, 0⟩

def onceEnv : PaymentsEnv (singleTextCrypto (signedOnce [OP_1]).strMessage) where
  isInitialBlockDownload := false
  pindexBest := some (sampleChain [2])
  mainPubKey := 2 :: replicate 32 7
  masterPrivKey := some ()

/-- A signature for one payee is not one for another. -/
theorem winner_binds_payee :
    (signedOnce [OP_1]).strMessage ≠ (signedOnce [OP_16]).strMessage ∧
      onceEnv.checkSignature (signedOnce [OP_1]) = true ∧
      ∀ st, (processSnw onceEnv st (signedOnce [OP_16])).1 = st := by
  have hseq : (signedOnce [OP_1]).vin.nSequence = 0xffffffff := rfl
  have hseq' : (signedOnce [OP_16]).vin.nSequence = 0xffffffff := rfl
  have hdiffer : Differ (signedOnce [OP_1]) (signedOnce [OP_16]) := by decide
  have hnot : ¬ SameText (signedOnce [OP_1]) (signedOnce [OP_16]) := by decide +kernel
  have hsigned : onceEnv.checkSignature (signedOnce [OP_1]) = true := by decide +kernel
  obtain ⟨htexts, hbinds⟩ := winner_binds_iff (signedOnce [OP_1]) (signedOnce [OP_16]) hseq hseq'
  obtain ⟨_, haccepted⟩ := hbinds _ onceEnv hsigned
    (fun s hs => singleTextCrypto_unforgeable hs) rfl
  refine ⟨htexts.mpr (fun h => hnot h.2) hdiffer, hsigned, fun st => ?_⟩
  by_contra hchanged
  exact hnot (haccepted st hchanged)

end Fantom.Blanknode
