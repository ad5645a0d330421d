/-
  Fantom.InstantX.Votes — Which votes of a sequence are counted.

  `mapTxLockVote` is consulted, and written, before a vote is validated, and its key leaves out
  signature and height.  So of all vote messages with one hash only the first is looked at.

  * `votes_counted_iff` — when every valid vote of a sequence is counted.
-/
import Fantom.InstantX.Effects

namespace Fantom.InstantX

open Core Lib Blanknode List

variable {C : Crypto}

/-- A run of `txlvote` messages. -/
def deliverVotes (st : IXState) (msgs : List (IXEnv C × CConsensusVote)) : IXState :=
  run ixStep st (msgs.map fun m => (m.1, IXEvent.txlvote m.2))

/-- Signed by a blanknode of this list whose rank for the height of the vote is
at most `INSTANTX_SIGNATURES_TOTAL`. -/
def validVote (C : Crypto) (man : CBlanknodeMan) (v : CConsensusVote) : Bool :=
  let n := man.getBlanknodeRank C.toHashes v.vinBlanknode v.nBlockHeight
    MIN_INSTANTX_PROTO_VERSION true
  n != -1 && !(n > INSTANTX_SIGNATURES_TOTAL) &&
    match man.find v.vinBlanknode with
    | none => false
    | some sn => verifyMessage C sn.pubkey2 v.vchBlankNodeSignature v.strMessage

theorem voteValid_eq {env : IXEnv C} {man : CBlanknodeMan} (hman : env.snodeman = man)
    (v : CConsensusVote) : voteValid env v = validVote C man v := by
  subst hman
  rfl

/-! ## §1. The votes of every lock. -/

/-- The handler is enabled for every message, and the blanknode list stays. -/
def FixedList (man : CBlanknodeMan) (msgs : List (IXEnv C × CConsensusVote)) : Prop :=
  ∀ m ∈ msgs, m.1.enabled = true ∧ m.1.snodeman = man

/-- **The votes of a lock after any sequence of vote messages**: those it had,
then the valid ones among the first messages with their hash. -/
theorem votesOf_deliverVotes {man : CBlanknodeMan} {msgs : List (IXEnv C × CConsensusVote)}
    (hfix : FixedList man msgs) (st : IXState) (h : UInt256) :
    (deliverVotes st msgs).votesOf h = st.votesOf h ++
      (FirstWins.firsts CConsensusVote.getHash (fun k => st.mapTxLockVote.contains k)
        (msgs.map Prod.snd)).filter fun v => validVote C man v && v.txHash == h := by
  -- induction on the messages; the recorded hashes are the seen keys
  induction msgs generalizing st with
  | nil => simp [deliverVotes, FirstWins.firsts]
  | cons m msgs ih =>
    obtain ⟨env, v⟩ := m
    obtain ⟨hen, hman⟩ := hfix _ mem_cons_self
    have hrest := ih (fun m hm => hfix m (mem_cons_of_mem _ hm))
    show (deliverVotes (processTxlvote env st v).1 msgs).votesOf h = _
    rw [hrest, processTxlvote_votesOf, processTxlvote_seen, map_cons, FirstWins.firsts]
    rw [voteFresh, show env.enabled = true from hen, Bool.true_and]
    cases hs : st.mapTxLockVote.contains v.getHash with
    | true => simp
    | false =>
      have hseen : (fun k => (st.mapTxLockVote.insert v.getHash v).contains k) =
          fun k => st.mapTxLockVote.contains k || v.getHash == k := by
        funext k
        rw [StdMap.contains_eq, StdMap.get_insert, StdMap.contains_eq]
        by_cases hk : v.getHash = k
        · simp [hk]
        · simp [hk]
      simp only [Bool.not_false, if_true, true_and, Bool.false_eq_true, if_false]
      rw [hseen, filter_cons]
      rw [voteValid_eq hman]
      split
      next hv => rw [if_pos (by simpa using hv), append_assoc]; rfl
      next hv => rw [if_neg (by simpa using hv)]

/-- No message stands in the way of this vote: it is counted already, or its hash
is new and the first message with its hash is the vote itself. -/
def NotShadowed (st : IXState) (msgs : List (IXEnv C × CConsensusVote)) (v : CConsensusVote) :
    Prop :=
  v ∈ st.votesOf v.txHash ∨ (st.mapTxLockVote.contains v.getHash = false ∧
    (msgs.map Prod.snd).find? (fun w => w.getHash == v.getHash) = some v)

instance (st : IXState) (msgs : List (IXEnv C × CConsensusVote)) (v : CConsensusVote) :
    Decidable (NotShadowed st msgs v) :=
  inferInstanceAs (Decidable (_ ∨ _))

theorem mem_votesOf_deliverVotes {man : CBlanknodeMan}
    {msgs : List (IXEnv C × CConsensusVote)} (hfix : FixedList man msgs) (st : IXState)
    {v : CConsensusVote} (hv : validVote C man v = true) :
    v ∈ (deliverVotes st msgs).votesOf v.txHash ↔ NotShadowed st msgs v := by
  rw [votesOf_deliverVotes hfix, mem_append, mem_filter, FirstWins.mem_firsts]
  unfold NotShadowed
  simp [hv]

/-! ## §2. When every valid vote is counted. -/

/-- **Suppressed votes.**  For a fixed blanknode list, every valid vote of a
sequence ends up in the lock of its transaction exactly when none of them is
shadowed by another message with its hash; and then the votes of a lock are
those it had and the valid votes of the sequence, in whatever order and among
whatever else they came. -/
theorem votes_counted_iff (man : CBlanknodeMan) (st : IXState)
    (msgs : List (IXEnv C × CConsensusVote)) (hfix : FixedList man msgs) :
    ((∀ m ∈ msgs, validVote C man m.2 = true → m.2 ∈ (deliverVotes st msgs).votesOf m.2.txHash) ↔
      ∀ m ∈ msgs, validVote C man m.2 = true → NotShadowed st msgs m.2) ∧
    ((∀ m ∈ msgs, validVote C man m.2 = true → NotShadowed st msgs m.2) →
      ∀ h v, v ∈ (deliverVotes st msgs).votesOf h ↔
        v ∈ st.votesOf h ∨ (v.txHash = h ∧ validVote C man v = true ∧ ∃ m ∈ msgs, m.2 = v)) := by
  constructor
  · constructor
    · intro hall m hm hv
      exact (mem_votesOf_deliverVotes hfix st hv).mp (hall m hm hv)
    · intro hall m hm hv
      exact (mem_votesOf_deliverVotes hfix st hv).mpr (hall m hm hv)
  · intro hall h v
    constructor
    · intro hmem
      rw [votesOf_deliverVotes hfix, mem_append, mem_filter,
        FirstWins.mem_firsts] at hmem
      rcases hmem with hmem | ⟨⟨_, hfind⟩, hcond⟩
      · exact .inl hmem
      · rw [Bool.and_eq_true, beq_iff_eq] at hcond
        obtain ⟨m, hm, he⟩ := mem_map.mp (mem_of_find?_eq_some hfind)
        exact .inr ⟨hcond.2, hcond.1, m, hm, he⟩
    · intro hmem
      rcases hmem with hmem | ⟨rfl, hv, m, hm, rfl⟩
      · rw [votesOf_deliverVotes hfix]
        exact mem_append_left _ hmem
      · exact (mem_votesOf_deliverVotes hfix st hv).mpr (hall m hm hv)

def sampleVotes : List (IXEnv sampleCrypto × CConsensusVote) :=
  [sampleVote 1 77 94, sampleVote 1 77 94, sampleVote 2 77 95].map fun v =>
    (sampleIXEnv 1500000000 true, v)

theorem sampleIXEnv_enabled : (sampleIXEnv 1500000000 true).enabled = true := by
  decide +kernel

theorem sampleVotes_fixed : FixedList sampleBlanknodes sampleVotes := by
  intro m hm
  obtain ⟨v, -, rfl⟩ := mem_map.mp hm
  exact ⟨sampleIXEnv_enabled, rfl⟩

theorem votes_counted_sample :
    (∀ m ∈ sampleVotes, validVote sampleCrypto sampleBlanknodes m.2 = true →
      NotShadowed IXState.empty sampleVotes m.2) ∧
    ∀ m ∈ sampleVotes, validVote sampleCrypto sampleBlanknodes m.2 = true →
      m.2 ∈ (deliverVotes IXState.empty sampleVotes).votesOf m.2.txHash := by
  have hclear : ∀ m ∈ sampleVotes, validVote sampleCrypto sampleBlanknodes m.2 = true →
      NotShadowed IXState.empty sampleVotes m.2 := by decide +kernel
  exact ⟨hclear, (votes_counted_iff sampleBlanknodes IXState.empty sampleVotes
    sampleVotes_fixed).1.mpr hclear⟩

/-- A copy of a valid vote without its signature, delivered first, keeps the
valid vote out of its lock. -/
theorem vote_suppressed :
    let good := sampleVote 1 77 94
    let forged := { good with vchBlankNodeSignature := [] }
    let env := sampleIXEnv 1500000000 true
    (env.enabled = true ∧ env.snodeman = sampleBlanknodes) ∧
      validVote sampleCrypto sampleBlanknodes good = true ∧
      good ∉ (deliverVotes IXState.empty [(env, forged), (env, good)]).votesOf good.txHash ∧
      good ∈ (deliverVotes IXState.empty [(env, good), (env, forged)]).votesOf good.txHash := by
  refine ⟨⟨sampleIXEnv_enabled, rfl⟩, ?_⟩
  decide +kernel

end Fantom.InstantX
