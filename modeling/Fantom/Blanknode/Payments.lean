/-
  Fantom.Blanknode.Payments — Who is paid in which block: `GetBlockHash` with the map it keeps its
  answers in, and the messages that elect a payee.

  * `hashes_track_iff` — over runs of tip changes and calls, when the answers are those of the chain.

  The map is never cleared, so an answer outlives the chain it was worked out on.
-/
import Fantom.Chain.CheckBlock
import Fantom.Lib.Cached
import Fantom.Script.Text

namespace Fantom.Blanknode

open Core Lib Script

/-! ## §1. One call. -/

/-- The loop from the best block down, with `n` blocks behind. -/
def readBack (nBlocksAgo : Int) : Int → CBlockIndex → Option UInt256
  -- the genesis block is not read: the loop wants a height above zero
  | _, .root _ => none
  | n, .child pprev data =>
    if n ≥ nBlocksAgo then some data.hash else readBack nBlocksAgo (n + 1) pprev

variable (pindexBest : CBlockIndex) (nBlockHeight : Int)

/-- The answer worked out on the chain of `pindexBest`. -/
def findBlockHash : Option UInt256 :=
  if pindexBest.nHeight = 0 ∨ (pindexBest.nHeight : Int) + 1 < nBlockHeight then none
  else
    readBack (if nBlockHeight > 0 then pindexBest.nHeight + 1 - nBlockHeight else 0) 0 pindexBest

def getBlockHash (pindexBest : Option CBlockIndex) (mapCacheBlockHashes : StdMap Int UInt256)
    (nBlockHeight : Int) : Option UInt256 × StdMap Int UInt256 :=
  match pindexBest with
  | none => (none, mapCacheBlockHashes)
  | some pindexBest =>
    let nBlockHeight := if nBlockHeight = 0 then (pindexBest.nHeight : Int) else nBlockHeight
    Memo.ask mapCacheBlockHashes nBlockHeight (findBlockHash pindexBest nBlockHeight)

/-! ## §2. What an answer should be. -/

/-- The hash belongs to the block of the best chain below this height. -/
def HashBelow (hash : UInt256) : Prop :=
  ∃ q ∈ pindexBest.branch, (q.nHeight : Int) = nBlockHeight - 1 ∧ q.getBlockHash = hash

theorem readBack_eq_some {nBlocksAgo n : Int} {p : CBlockIndex} {hash : UInt256}
    (h : readBack nBlocksAgo n p = some hash) (hn : n ≤ nBlocksAgo) :
    ∃ q ∈ p.branch, (q.nHeight : Int) = p.nHeight - (nBlocksAgo - n) ∧ q.getBlockHash = hash := by
  -- induction on the chain below the block
  induction p generalizing n with
  | root data => cases h
  | child pprev data ih =>
    rw [readBack] at h
    split at h
    next hge =>
      refine ⟨.child pprev data, CBlockIndex.self_mem_branch _, ?_, Option.some.inj h⟩
      rw [show nBlocksAgo - n = 0 by omega, Int.sub_zero]
    next hlt =>
      obtain ⟨q, hq, hheight, hhash⟩ := ih h (by omega)
      refine ⟨q, List.mem_cons_of_mem _ hq, ?_, hhash⟩
      have : ((CBlockIndex.child pprev data).nHeight : Int) = pprev.nHeight + 1 := rfl
      omega

theorem findBlockHash_below {pindexBest : CBlockIndex} {nBlockHeight : Int} {hash : UInt256}
    (h : findBlockHash pindexBest nBlockHeight = some hash) (h1 : 1 ≤ nBlockHeight) :
    HashBelow pindexBest nBlockHeight hash := by
  unfold findBlockHash at h
  split at h
  next => cases h
  next hc =>
    rw [if_pos (by omega)] at h
    obtain ⟨q, hq, hheight, hhash⟩ := readBack_eq_some h (by omega)
    exact ⟨q, hq, by omega, hhash⟩

/-! ## §3. Runs. -/

/-- The best block and the kept answers. -/
structure HashState where
  pindexBest : Option CBlockIndex
  mapCacheBlockHashes : StdMap Int UInt256

/-- An extension or a reorganisation to a best block, or a call. -/
inductive HashEvent
  | newBest (pindex : CBlockIndex)
  | getBlockHash (nBlockHeight : Int)

variable (s : HashState)

def HashState.step : HashEvent → HashState
  | .newBest pindex => { s with pindexBest := some pindex }
  | .getBlockHash nBlockHeight =>
    { s with mapCacheBlockHashes :=
      (Blanknode.getBlockHash s.pindexBest s.mapCacheBlockHashes nBlockHeight).2 }

/-- **Every answer tracks the best chain**: a hash returned for a height in
range is that of the ancestor of the best block below this height. -/
def HashesTrack : Prop :=
  ∀ pindexBest, s.pindexBest = some pindexBest → ∀ (nBlockHeight : Int) (hash : UInt256),
    1 ≤ nBlockHeight → nBlockHeight ≤ pindexBest.nHeight + 1 →
    (getBlockHash s.pindexBest s.mapCacheBlockHashes nBlockHeight).1 = some hash →
    HashBelow pindexBest nBlockHeight hash

/-- The new chain has, at every height in its range that has been asked for,
the block of the kept answer. -/
def KeepsAsked : HashEvent → Prop
  | .newBest pindex => ∀ (nBlockHeight : Int) (hash : UInt256),
      s.mapCacheBlockHashes[nBlockHeight]? = some hash → 1 ≤ nBlockHeight →
      nBlockHeight ≤ pindex.nHeight + 1 → HashBelow pindex nBlockHeight hash
  | .getBlockHash _ => True

/-- What a kept answer should be, for a height in range. -/
def GoodHash (hash : UInt256) : Prop :=
  1 ≤ nBlockHeight → nBlockHeight ≤ pindexBest.nHeight + 1 → HashBelow pindexBest nBlockHeight hash

theorem findBlockHash_good (hash : UInt256) (h : findBlockHash pindexBest nBlockHeight =
    some hash) : GoodHash pindexBest nBlockHeight hash :=
  fun h1 _ => findBlockHash_below h h1

theorem getBlockHash_of_pos {pindexBest : CBlockIndex} {memo : StdMap Int UInt256}
    {nBlockHeight : Int} (h1 : 1 ≤ nBlockHeight) :
    getBlockHash (some pindexBest) memo nBlockHeight =
      Memo.ask memo nBlockHeight (findBlockHash pindexBest nBlockHeight) := by
  unfold getBlockHash
  dsimp only
  rw [if_neg (by omega)]

theorem hashesTrack_some {pindexBest : CBlockIndex} {memo : StdMap Int UInt256} :
    HashesTrack ⟨some pindexBest, memo⟩ ↔ Memo.Holds (GoodHash pindexBest) memo := by
  rw [← Memo.ask_good_iff (findBlockHash_good pindexBest)]
  constructor
  · intro h k v hv h1 hk
    exact h pindexBest rfl k v h1 hk (by rwa [getBlockHash_of_pos h1])
  · intro h p hp k v h1 hk hv
    cases hp
    rw [getBlockHash_of_pos h1] at hv
    exact h k v hv h1 hk

/-- **The step lemma.**  From a state that tracks, a step leads to one that does
exactly when it keeps what has been asked for. -/
theorem hashesTrack_step {s : HashState} (hs : HashesTrack s) (e : HashEvent) :
    HashesTrack (s.step e) ↔ KeepsAsked s e := by
  cases e with
  | newBest pindex => exact hashesTrack_some
  | getBlockHash nBlockHeight =>
    obtain ⟨best, memo⟩ := s
    refine iff_of_true ?_ trivial
    cases best with
    | none => exact nofun
    | some pindexBest =>
      refine hashesTrack_some.mpr ?_
      exact (hashesTrack_some.mp hs).ask (findBlockHash_good pindexBest _)

/-- **`GetBlockHash` along a run.**  With no answer kept at the start, every
state of a run tracks its best chain exactly when no change of the best chain
replaces a block that has been asked for. -/
theorem hashes_track_iff (pindexBest : Option CBlockIndex) (events : List HashEvent) :
    (∀ done rest, events = done ++ rest → HashesTrack (run HashState.step ⟨pindexBest, ∅⟩ done)) ↔
      Along HashState.step KeepsAsked ⟨pindexBest, ∅⟩ events := by
  have hstart : HashesTrack ⟨pindexBest, ∅⟩ := by
    cases pindexBest with
    | none => exact nofun
    | some pindexBest => exact hashesTrack_some.mpr Memo.holds_empty
  constructor
  · intro h
    refine along_iff.mpr ?_
    rintro done e rest rfl
    refine (hashesTrack_step (h done (e :: rest) rfl) e).mp ?_
    rw [← run_concat HashState.step]
    exact h (done ++ [e]) rest (by simp)
  · rintro h done rest rfl
    exact run_invariant (I := HashesTrack) (fun s e hs he => (hashesTrack_step hs e).mpr he) hstart
      (along_append.mp h).1

/-! ## §4. A reorganisation. -/

def sampleChain (hashes : List UInt256) : CBlockIndex :=
  hashes.foldl (fun pprev hash => .child pprev ⟨hash, .first, 0, 2, 0, 0, 0, 0⟩)
    (.root ⟨1, .first, 0, 2, 0, 0, 0, 0⟩)

/-- Two blocks are connected and the upper one is asked for; then a branch of
three blocks replaces both. -/
def sampleReorganisation : List HashEvent :=
  [.newBest (sampleChain [2]), .newBest (sampleChain [2, 3]), .getBlockHash 3,
    .newBest (sampleChain [4, 5, 6])]

theorem hashes_stay_behind :
    ¬ ∀ done rest, sampleReorganisation = done ++ rest →
      HashesTrack (run HashState.step ⟨none, ∅⟩ done) := by
  intro h
  obtain ⟨q, hq, hheight, hhash⟩ := h sampleReorganisation [] rfl (sampleChain [4, 5, 6]) rfl 3 3
    (by decide) (by decide) (by decide +kernel)
  have hmem : ∀ q ∈ (sampleChain [4, 5, 6]).branch, q.nHeight = 2 → q.getBlockHash ≠ 3 := by
    decide +kernel
  exact hmem q hq (by omega) hhash

/-! ## §5. Messages. -/

/-- `a > b ? a - b : b - a`. -/
def distance (a b : UInt256) : UInt256 := if a > b then a - b else b - a

/-- `CBlanknodePaymentWinner::GetHash`: the height and the transaction of the
input are in it; the output number, the payee and the signature are not. -/
def CBlanknodePaymentWinner.getHash (H : Hashes) (winner : CBlanknodePaymentWinner) : UInt256 :=
  distance winner.vin.prevout.hash (H.hash (leBytes 4 winner.nBlockHeight.toUInt32.toNat))

def CBlanknodePaymentWinner.strMessage (winner : CBlanknodePaymentWinner) : List Char :=
  CTxIn.toText winner.vin ++ decimal winner.nBlockHeight.toInt ++ CScript.toText winner.payee

/-- `CBlanknodePayments::CalculateScore`: the low 64 bits of a distance. -/
def calculateScore (H : Hashes) (blockHash : UInt256) (vin : CTxIn) : UInt64 :=
  UInt64.ofNat (distance (H.hash (leBytes 32 vin.prevout.hash.toNat))
    (H.hash (leBytes 32 blockHash.toNat))).toNat

/-! ## §6. The node. -/

/-- What the handler reads and does not change. -/
structure PaymentsEnv (C : Crypto) where
  isInitialBlockDownload : Bool
  pindexBest : Option CBlockIndex
  /-- `CPubKey(ParseHex(strMainPubKey))`. -/
  mainPubKey : CPubKey
  /-- The key `SetKey` makes of `strMasterPrivKey`, when it makes one. -/
  masterPrivKey : Option C.CKey

/-- `mapSeenBlanknodeVotes`, `vWinning` and the answers `GetBlockHash` keeps. -/
structure CBlanknodePayments where
  mapSeenBlanknodeVotes : StdMap UInt256 CBlanknodePaymentWinner
  vWinning : List CBlanknodePaymentWinner
  mapCacheBlockHashes : StdMap Int UInt256

/-- At start-up nothing is seen and nobody is paid. -/
def CBlanknodePayments.start (mapCacheBlockHashes : StdMap Int UInt256) : CBlanknodePayments :=
  ⟨∅, [], mapCacheBlockHashes⟩

variable {C : Crypto} (env : PaymentsEnv C)

def PaymentsEnv.checkSignature (winner : CBlanknodePaymentWinner) : Bool :=
  verifyMessage C env.mainPubKey winner.vchSig winner.strMessage

/-- `CBlanknodePayments::Sign`: the message with its signature, or failure. -/
def PaymentsEnv.sign (winner : CBlanknodePaymentWinner) : Option CBlanknodePaymentWinner := do
  let key2 ← env.masterPrivKey
  let vchSig ← signMessage C winner.strMessage key2
  if verifyMessage C (C.getPubKey key2) vchSig winner.strMessage then
    some { winner with vchSig := vchSig }
  else none

/-- The loop of `AddWinningBlanknode`: the list with an entry overwritten, if one
is. -/
def overwriteWinner (winnerIn : CBlanknodePaymentWinner) :
    List CBlanknodePaymentWinner → Option (List CBlanknodePaymentWinner)
  | [] => none
  | winner :: rest =>
    if winner.nBlockHeight = winnerIn.nBlockHeight ∧ winner.score < winnerIn.score then
      some ({ winner with
        score := winnerIn.score
        vin := winnerIn.vin
        payee := winnerIn.payee
        vchSig := winnerIn.vchSig } :: rest)
    else (overwriteWinner winnerIn rest).map (winner :: ·)

variable (st : CBlanknodePayments)

/-- `CBlanknodePayments::AddWinningBlanknode`.  The score that came with the
message is replaced. -/
def addWinningBlanknode (winnerIn : CBlanknodePaymentWinner) : CBlanknodePayments × Bool :=
  let (blockHash, cache) :=
    getBlockHash env.pindexBest st.mapCacheBlockHashes (winnerIn.nBlockHeight.toInt - 576)
  let st := { st with mapCacheBlockHashes := cache }
  match blockHash with
  | none => (st, false)
  | some blockHash =>
    let winnerIn :=
      { winnerIn with score := calculateScore C.toHashes blockHash winnerIn.vin }
    let seen := StdMap.insertNew st.mapSeenBlanknodeVotes (winnerIn.getHash C.toHashes) winnerIn
    match overwriteWinner winnerIn st.vWinning with
    | some vWinning => ({ st with mapSeenBlanknodeVotes := seen, vWinning := vWinning }, true)
    | none =>
      if st.vWinning.any fun winner => winner.nBlockHeight == winnerIn.nBlockHeight then
        (st, false)
      else
        ({ st with mapSeenBlanknodeVotes := seen, vWinning := st.vWinning ++ [winnerIn] }, true)

/-- How `ProcessMessageBlanknodePayments` ended on `snw`. -/
inductive SnwOutcome where
  /-- Initial download, or no best block yet. -/
  | ignored
  /-- A message with this hash has been seen. -/
  | seen
  /-- More than 10 blocks back or 20 ahead. -/
  | outOfRange
  /-- Another sequence number, or an invalid signature: `Misbehaving(.., 100)`. -/
  | misbehaving (howmuch : Nat)
  /-- Recorded as seen, without effect on the winners. -/
  | notWinning
  | relayed
deriving DecidableEq, Repr

/-- `ProcessMessageBlanknodePayments` on the command `snw`. -/
def processSnw (winner : CBlanknodePaymentWinner) : CBlanknodePayments × SnwOutcome :=
  if env.isInitialBlockDownload then (st, .ignored)
  else
    match env.pindexBest with
    | none => (st, .ignored)
    | some pindexBest =>
      let hash := winner.getHash C.toHashes
      if st.mapSeenBlanknodeVotes.contains hash then (st, .seen)
      else if winner.nBlockHeight.toInt < pindexBest.nHeight - 10 ∨
          winner.nBlockHeight.toInt > pindexBest.nHeight + 20 then (st, .outOfRange)
      else if winner.vin.nSequence ≠ 0xffffffff then (st, .misbehaving 100)
      else if !env.checkSignature winner then (st, .misbehaving 100)
      else
        let st := { st with
          mapSeenBlanknodeVotes := StdMap.insertNew st.mapSeenBlanknodeVotes hash winner }
        let (st, added) := addWinningBlanknode env st winner
        (st, if added then .relayed else .notWinning)

/-- The state after a sequence of `snw` messages. -/
def deliverWinners (msgs : List CBlanknodePaymentWinner) : CBlanknodePayments :=
  run (fun st winner => (processSnw env st winner).1) st msgs

/-! ## §7. The readers. -/

def CBlanknodePayments.getBlockPayee (nBlockHeight : Int32) : Option (CScript × CTxIn) :=
  (st.vWinning.find? fun winner => winner.nBlockHeight == nBlockHeight).map
    fun winner => (winner.payee, winner.vin)

end Fantom.Blanknode
