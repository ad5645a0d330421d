/-
  Fantom.Blanknode.PayeeAgreement — When all nodes that receive the same `snw` messages pay the same
  blanknodes. The seen-set goes by a hash of height and transaction only, and the maximum goes by a
  score of the transaction only, so messages that differ elsewhere are told apart by nothing but
  their order.

  * `payees_agree_iff` — the sets of messages whose order does not matter.
-/
import Fantom.Lib.Election
import Fantom.Blanknode.Payments

namespace Fantom.Blanknode

open Core Lib List

variable {C : Crypto} (env : PaymentsEnv C)

/-! ## §1. One message. -/

/-- The message passes every check but the one for messages already seen. -/
def PaymentsEnv.admits (winner : CBlanknodePaymentWinner) : Bool :=
  !env.isInitialBlockDownload && env.pindexBest.any fun pindexBest =>
    decide ((pindexBest.nHeight : Int) - 10 ≤ winner.nBlockHeight.toInt) &&
      decide (winner.nBlockHeight.toInt ≤ pindexBest.nHeight + 20) &&
      winner.vin.nSequence == 0xffffffff && env.checkSignature winner

variable (mapCacheBlockHashes : StdMap Int UInt256)

/-- The block hash a message of this height is scored by, when it is known. -/
def PaymentsEnv.blockHashFor (nBlockHeight : Int32) : Option UInt256 :=
  (getBlockHash env.pindexBest mapCacheBlockHashes (nBlockHeight.toInt - 576)).1

/-- The block hash of the message is known, so it is scored. -/
def scorable (hashFor : Int32 → Option UInt256) (winner : CBlanknodePaymentWinner) : Bool :=
  (hashFor winner.nBlockHeight).isSome

variable (H : Hashes)

def scored (hashFor : Int32 → Option UInt256) (winner : CBlanknodePaymentWinner) :
    CBlanknodePaymentWinner :=
  match hashFor winner.nBlockHeight with
  | none => winner
  | some blockHash => { winner with score := calculateScore H blockHash winner.vin }

@[simp] theorem scored_nBlockHeight (hashFor : Int32 → Option UInt256) (winner :
    CBlanknodePaymentWinner) : (scored H hashFor winner).nBlockHeight = winner.nBlockHeight := by
  unfold scored
  cases hashFor winner.nBlockHeight <;> rfl

@[simp] theorem scored_payee (hashFor : Int32 → Option UInt256) (winner : CBlanknodePaymentWinner) :
    (scored H hashFor winner).payee = winner.payee := by
  unfold scored
  cases hashFor winner.nBlockHeight <;> rfl

@[simp] theorem scored_vin (hashFor : Int32 → Option UInt256) (winner : CBlanknodePaymentWinner) :
    (scored H hashFor winner).vin = winner.vin := by
  unfold scored
  cases hashFor winner.nBlockHeight <;> rfl

theorem getBlockHash_stable (pindexBest : Option CBlockIndex) (memo : StdMap Int UInt256)
    (k a : Int) :
    (getBlockHash pindexBest (getBlockHash pindexBest memo k).2 a).1 =
      (getBlockHash pindexBest memo a).1 := by
  cases pindexBest with
  | none => rfl
  | some pindexBest => exact Memo.ask_stable memo (findBlockHash pindexBest) _ _

variable (memo : StdMap Int UInt256)

theorem blockHashFor_stable (k : Int) :
    env.blockHashFor (getBlockHash env.pindexBest memo k).2 = env.blockHashFor memo :=
  funext fun _ => getBlockHash_stable env.pindexBest memo k _

/-- The score of a message as a number. -/
abbrev CBlanknodePaymentWinner.points (winner : CBlanknodePaymentWinner) : Nat :=
  winner.score.toNat

theorem overwriteWinner_eq (winnerIn : CBlanknodePaymentWinner)
    (vWinning : List CBlanknodePaymentWinner) :
    overwriteWinner winnerIn vWinning =
      Election.overwrite CBlanknodePaymentWinner.nBlockHeight CBlanknodePaymentWinner.points
        winnerIn vWinning := by
  induction vWinning with
  | nil => rfl
  | cons winner rest ih =>
    rw [overwriteWinner, Election.overwrite, ih]
    simp only [UInt64.lt_iff_toNat_lt]
    split
    next hc =>
      -- the overwritten entry keeps its height, which is that of the message
      rw [hc.1]
    next => rfl

variable (st : CBlanknodePayments)

/-- **What `AddWinningBlanknode` does** to the winners, once the message is
recorded as seen. -/
theorem addWinningBlanknode_eq (winner : CBlanknodePaymentWinner)
    (hseen : st.mapSeenBlanknodeVotes.contains (winner.getHash C.toHashes) = true) :
    (addWinningBlanknode env st winner).1 =
      ⟨st.mapSeenBlanknodeVotes,
        if scorable (env.blockHashFor st.mapCacheBlockHashes) winner then
          Election.offer CBlanknodePaymentWinner.nBlockHeight CBlanknodePaymentWinner.points
            st.vWinning (scored C.toHashes (env.blockHashFor st.mapCacheBlockHashes) winner)
        else st.vWinning,
        (getBlockHash env.pindexBest st.mapCacheBlockHashes
          (winner.nBlockHeight.toInt - 576)).2⟩ := by
  have hans : (getBlockHash env.pindexBest st.mapCacheBlockHashes
      (winner.nBlockHeight.toInt - 576)).1 =
      env.blockHashFor st.mapCacheBlockHashes winner.nBlockHeight := rfl
  unfold addWinningBlanknode scored scorable Election.offer
  dsimp only
  rw [hans]
  cases env.blockHashFor st.mapCacheBlockHashes winner.nBlockHeight with
  | none => rfl
  | some blockHash =>
    dsimp only
    have hrecorded : ∀ v, StdMap.insertNew st.mapSeenBlanknodeVotes
        (CBlanknodePaymentWinner.getHash C.toHashes { winner with
          score := calculateScore C.toHashes blockHash winner.vin }) v =
        st.mapSeenBlanknodeVotes := fun v => StdMap.insertNew_of_contains hseen v
    rw [if_pos (show (some blockHash).isSome = true from rfl), ← overwriteWinner_eq, hrecorded]
    cases overwriteWinner _ st.vWinning with
    | some vWinning => rfl
    | none =>
      have hheld : (Election.holder CBlanknodePaymentWinner.nBlockHeight st.vWinning
          winner.nBlockHeight).isSome =
          st.vWinning.any fun w => w.nBlockHeight == winner.nBlockHeight := isSome_find?
      rw [hheld]
      dsimp only
      split <;> rfl

theorem admits_iff {env : PaymentsEnv C} (hdl : env.isInitialBlockDownload = false)
    {pindexBest : CBlockIndex} (hbest : env.pindexBest = some pindexBest)
    (winner : CBlanknodePaymentWinner) :
    env.admits winner = true ↔
      ¬ (winner.nBlockHeight.toInt < pindexBest.nHeight - 10 ∨
        winner.nBlockHeight.toInt > pindexBest.nHeight + 20) ∧
      ¬ winner.vin.nSequence ≠ 0xffffffff ∧ env.checkSignature winner = true := by
  rw [PaymentsEnv.admits, hdl, hbest]
  simp only [Bool.not_false, Bool.true_and, Option.any_some, Bool.and_eq_true, decide_eq_true_eq,
    beq_iff_eq, not_not]
  constructor
  · rintro ⟨⟨⟨hlow, hhigh⟩, hseq⟩, hcheck⟩
    exact ⟨by omega, hseq, hcheck⟩
  · rintro ⟨hrange, hseq, hcheck⟩
    exact ⟨⟨⟨by omega, by omega⟩, hseq⟩, hcheck⟩

theorem processSnw_eq (winner : CBlanknodePaymentWinner) :
    (processSnw env st winner).1 =
      if st.mapSeenBlanknodeVotes.contains (winner.getHash C.toHashes) = false ∧
          env.admits winner = true then
        (addWinningBlanknode env { st with
          mapSeenBlanknodeVotes := StdMap.insertNew st.mapSeenBlanknodeVotes
            (winner.getHash C.toHashes) winner } winner).1
      else st := by
  unfold processSnw
  cases hdl : env.isInitialBlockDownload with
  | true =>
    rw [if_pos rfl, if_neg (by simp [PaymentsEnv.admits, hdl])]
  | false =>
    rw [if_neg (by decide)]
    cases hbest : env.pindexBest with
    | none => rw [if_neg (by simp [PaymentsEnv.admits, hbest])]
    | some pindexBest =>
      have hadmits := admits_iff hdl hbest winner
      dsimp only
      by_cases hseen : st.mapSeenBlanknodeVotes.contains (winner.getHash C.toHashes) = true
      · rw [if_pos hseen, if_neg fun h => by rw [hseen] at h; cases h.1]
      · rw [if_neg hseen]
        by_cases hrange : winner.nBlockHeight.toInt < pindexBest.nHeight - 10 ∨
            winner.nBlockHeight.toInt > pindexBest.nHeight + 20
        · rw [if_pos hrange, if_neg fun h => (hadmits.mp h.2).1 hrange]
        · rw [if_neg hrange]
          by_cases hseq : winner.vin.nSequence ≠ 0xffffffff
          · rw [if_pos hseq, if_neg fun h => (hadmits.mp h.2).2.1 hseq]
          · rw [if_neg hseq]
            cases hcheck : env.checkSignature winner with
            | false =>
              rw [if_pos (by decide), if_neg]
              intro h
              rw [(hadmits.mp h.2).2.2] at hcheck
              cases hcheck
            | true =>
              have hgo : st.mapSeenBlanknodeVotes.contains (winner.getHash C.toHashes) =
                  false ∧ env.admits winner = true :=
                ⟨Bool.eq_false_iff.mpr hseen, hadmits.mpr ⟨hrange, hseq, hcheck⟩⟩
              rw [if_neg (by decide), if_pos hgo]

/-! ## §2. Runs. -/

/-- The messages that reach the winners, out of a sequence of deliveries. -/
def counted (seen : UInt256 → Bool) (msgs : List CBlanknodePaymentWinner) :
    List CBlanknodePaymentWinner :=
  FirstWins.firsts (fun winner => winner.getHash C.toHashes) seen (msgs.filter env.admits)

/-- **The winners on a fixed chain** are the table of an election: of the messages
admitted the first of each hash counts, and the heights without a known block
hash stay out. -/
theorem deliverWinners_vWinning (msgs : List CBlanknodePaymentWinner) :
    (deliverWinners env st msgs).vWinning =
    (((counted env (fun k => st.mapSeenBlanknodeVotes.contains k) msgs).filter
    (scorable (env.blockHashFor st.mapCacheBlockHashes))).map
    (scored C.toHashes (env.blockHashFor st.mapCacheBlockHashes))).foldl (Election.offer
    CBlanknodePaymentWinner.nBlockHeight CBlanknodePaymentWinner.points) st.vWinning := by
  induction msgs generalizing st with
  | nil => rfl
  | cons winner msgs ih =>
    have hrun : deliverWinners env st (winner :: msgs) =
        deliverWinners env (processSnw env st winner).1 msgs := rfl
    rw [hrun, ih, processSnw_eq]
    by_cases hadm : env.admits winner = true
    · by_cases hseen : st.mapSeenBlanknodeVotes.contains (winner.getHash C.toHashes) = true
      · rw [if_neg (by rw [hseen]; exact fun h => nomatch h.1), counted, counted,
          filter_cons_of_pos hadm, FirstWins.firsts, if_pos hseen]
      · -- the first of its hash: it is recorded, then offered
        rw [if_pos ⟨Bool.eq_false_iff.mpr hseen, hadm⟩, addWinningBlanknode_eq,
          blockHashFor_stable, counted, counted, filter_cons_of_pos hadm,
          FirstWins.firsts, if_neg hseen]
        · simp only [StdMap.contains_insertNew]
          by_cases hknown : scorable (env.blockHashFor st.mapCacheBlockHashes) winner = true
          · rw [if_pos hknown, filter_cons_of_pos hknown, map_cons, foldl_cons]
          · rw [if_neg hknown, filter_cons_of_neg hknown]
        · rw [StdMap.contains_insertNew, beq_self_eq_true, Bool.or_true]
    · rw [if_neg fun h => hadm h.2, counted, counted, filter_cons_of_neg hadm]

variable (msgs : List CBlanknodePaymentWinner) (nBlockHeight : Int32)

/-- Who is elected for a height, and with which payee and input. -/
def elected : Option CBlanknodePaymentWinner :=
  Election.winner (fun winner => winner.getHash C.toHashes) CBlanknodePaymentWinner.nBlockHeight
    (fun winner => (scored C.toHashes (env.blockHashFor mapCacheBlockHashes) winner).points)
    (msgs.filter env.admits) nBlockHeight

theorem getBlockPayee_deliver
    :
    (deliverWinners env (.start memo) msgs).getBlockPayee nBlockHeight =
      if (env.blockHashFor memo nBlockHeight).isSome then
        (elected env memo msgs nBlockHeight).map fun winner => (winner.payee, winner.vin)
      else none := by
  have hnew : (fun k : UInt256 => (∅ : StdMap UInt256 CBlanknodePaymentWinner).contains k) =
      fun _ => false := by
    funext k
    rw [StdMap.contains_eq, StdMap.get_empty]
    rfl
  have hpayee : ∀ st : CBlanknodePayments, st.getBlockPayee nBlockHeight =
      (Election.holder CBlanknodePaymentWinner.nBlockHeight st.vWinning nBlockHeight).map
        fun winner => (winner.payee, winner.vin) := fun _ => rfl
  rw [hpayee, deliverWinners_vWinning]
  dsimp only [CBlanknodePayments.start]
  rw [hnew, Election.holder_offerAll, filter_map, Election.argmax_map, Option.map_map,
    filter_filter]
  have hat : ∀ winner : CBlanknodePaymentWinner,
      (((fun w => w.nBlockHeight == nBlockHeight) ∘
          scored C.toHashes (env.blockHashFor memo)) winner &&
            scorable (env.blockHashFor memo) winner) =
        ((winner.nBlockHeight == nBlockHeight) && (env.blockHashFor memo nBlockHeight).isSome) := by
    intro winner
    rw [Function.comp_apply, scored_nBlockHeight, scorable]
    by_cases h : winner.nBlockHeight = nBlockHeight
    · rw [h]
    · rw [beq_eq_false_iff_ne.mpr h, Bool.false_and, Bool.false_and]
  simp only [hat]
  cases env.blockHashFor memo nBlockHeight with
  | none => simp
  | some blockHash =>
    simp only [Option.isSome_some, Bool.and_true, if_pos]
    unfold elected Election.winner counted
    apply congrArg₂ Option.map
    · funext winner
      simp
    · rfl

theorem deliverWinners_nodup : ((deliverWinners env
    (.start memo) msgs).vWinning.map CBlanknodePaymentWinner.nBlockHeight).Nodup := by
  rw [deliverWinners_vWinning]
  exact Election.offerAll_nodup _ _ _ nodup_nil

/-! ## §3. Agreement. -/

/-- The set of messages leaves nothing to their order, at any height whose block
hash is known. -/
def PayeesSettled : Prop :=
  ∀ nBlockHeight, (env.blockHashFor mapCacheBlockHashes nBlockHeight).isSome = true →
    Election.SettledAt (fun winner => winner.getHash C.toHashes)
      CBlanknodePaymentWinner.nBlockHeight
      (fun winner => (scored C.toHashes (env.blockHashFor mapCacheBlockHashes) winner).points)
      (fun winner => (winner.payee, winner.vin)) (msgs.filter env.admits) nBlockHeight

/-- **Payment winners.**  On a fixed chain, from start-up, all deliveries of a set
of messages lead to the same payee and input for every height, and to at most one
winner a height, exactly when the set is settled. -/
theorem payees_agree_iff (memo : StdMap Int UInt256) (msgs : List CBlanknodePaymentWinner) :
    ((∀ ds ds', Election.Delivers msgs ds → Election.Delivers msgs ds' → ∀ nBlockHeight,
        (deliverWinners env (.start memo) ds).getBlockPayee nBlockHeight =
          (deliverWinners env (.start memo) ds').getBlockPayee nBlockHeight) ∧
      ∀ ds, ((deliverWinners env (.start memo) ds).vWinning.map
        CBlanknodePaymentWinner.nBlockHeight).Nodup) ↔
      PayeesSettled env memo msgs := by
  constructor
  · rintro ⟨h, _⟩ nBlockHeight hknown
    refine (Election.winner_settled_iff _ _ _ _ _ _).mp ?_
    intro ds ds' hd hd'
    obtain ⟨all, hall, rfl⟩ := hd.exists_filter
    obtain ⟨all', hall', rfl⟩ := hd'.exists_filter
    have heq := h all all' hall hall' nBlockHeight
    rw [getBlockPayee_deliver, getBlockPayee_deliver, if_pos hknown, if_pos hknown] at heq
    exact heq
  · intro h
    refine ⟨?_, deliverWinners_nodup env memo⟩
    intro ds ds' hd hd' nBlockHeight
    rw [getBlockPayee_deliver, getBlockPayee_deliver]
    by_cases hknown : (env.blockHashFor memo nBlockHeight).isSome = true
    · rw [if_pos hknown, if_pos hknown]
      exact (Election.winner_settled_iff _ _ _ _ _ _).mpr (h nBlockHeight hknown) _ _
        (hd.filter env.admits) (hd'.filter env.admits)
    · rw [if_neg hknown, if_neg hknown]

/-! ## §4. Two outputs of one transaction. -/

def samplePaymentsEnv : PaymentsEnv sampleCrypto where
  isInitialBlockDownload := false
  pindexBest := some (sampleChain [2])
  mainPubKey := leBytes 32 5
  masterPrivKey := some (5 : UInt256)

def sampleWinner (prevout : COutPoint) (payee : CScript) : CBlanknodePaymentWinner :=
  (samplePaymentsEnv.sign ⟨nBlockHeight, ⟨prevout, [], [], 0xffffffff⟩, payee, [], 0⟩).getD
    ⟨0, ⟨⟨0, 0⟩, [], [], 0⟩, [], [], 0⟩

/-- Blanknodes with their collateral in the outputs `0` and `1` of one
transaction: nodes that hear of them in different order pay different ones. -/
theorem payees_disagree :
    let first := sampleWinner 2 ⟨9, 0⟩ [OP_1]
    let second := sampleWinner 2 ⟨9, 1⟩ [OP_16]
    ¬ ((∀ ds ds', Election.Delivers [first, second] ds → Election.Delivers [first, second] ds' →
          ∀ nBlockHeight,
            (deliverWinners samplePaymentsEnv (.start ∅) ds).getBlockPayee nBlockHeight =
              (deliverWinners samplePaymentsEnv (.start ∅) ds').getBlockPayee nBlockHeight) ∧
        ∀ ds, ((deliverWinners samplePaymentsEnv (.start ∅) ds).vWinning.map
          CBlanknodePaymentWinner.nBlockHeight).Nodup) := by
  intro first second h
  have hswap : Election.Delivers [first, second] [second, first] := by
    intro m
    rw [mem_pair, mem_pair, or_comm]
  have heq := h.1 [first, second] [second, first] (fun _ => Iff.rfl) hswap 2
  have hne : (deliverWinners samplePaymentsEnv (.start ∅) [first, second]).getBlockPayee 2 ≠
      (deliverWinners samplePaymentsEnv (.start ∅) [second, first]).getBlockPayee 2 := by
    decide +kernel
  exact hne heq

-- outputs of two transactions: the order does not matter
example :
    let msgs := [sampleWinner 2 ⟨9, 0⟩ [OP_1], sampleWinner 2 ⟨10, 1⟩ [OP_16]]
    msgs.filter samplePaymentsEnv.admits = msgs ∧
      Election.SettledAt (fun winner => winner.getHash sampleCrypto.toHashes)
        CBlanknodePaymentWinner.nBlockHeight
        (fun winner => (scored sampleCrypto.toHashes (samplePaymentsEnv.blockHashFor ∅)
          winner).points)
        (fun winner => (winner.payee, winner.vin)) msgs 2 := by
  decide +kernel

end Fantom.Blanknode
