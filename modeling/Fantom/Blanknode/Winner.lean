/-
  Fantom.Blanknode.Winner — `CBlanknodePayments::ProcessBlock`: the blanknode that a node proposes
  to pay.

  * `lastPayments`, `pick` — the choice of the blanknode,
  * `winner_proper_iff` — when the proposal is settled by the chain and the list, with the share of
    donations that the blanknode announced.

  The local `nHash` is never written: the `memcpy` that should fill it from the block hash has its
  arguments the other way round and overwrites the hash.
-/
import Fantom.Blanknode.Collateral
import Fantom.Blanknode.Registry

namespace Fantom.Blanknode

open Core Lib Chain Script List Option

/-! ## §1. The choice of a blanknode. -/

/-- What a call finds: the node, its list, its winners, and the bytes that the local
`nHash` happens to hold. -/
structure WinnerState (L : Type) where
  env : RegistryEnv L
  man : CBlanknodeRegistry
  vWinning : List CBlanknodePaymentWinner
  nHash : UInt32

variable {L : Type} (env : RegistryEnv L) (man : CBlanknodeRegistry)

/-- The list after `Check` has gone over it. -/
def CBlanknodeRegistry.checked : CBlanknodeRegistry :=
  { man with
    vBlanknodes :=
      ⟨man.check env, man.vBlanknodes.capacity, CBlanknodeRegistry.length_check_le env man⟩ }

/-- An entry after `FindOldestNotInVec`, which asks enabled ones for their age. -/
def CBlanknodeEntry.aged (sn : CBlanknodeEntry) : CBlanknodeEntry :=
  if sn.isEnabled then (sn.getBlanknodeInputAge env).2 else sn

/-- The list after `FindOldestNotInVec`, which checks it once more. -/
def CBlanknodeRegistry.searched : CBlanknodeRegistry :=
  { man with
    vBlanknodes := ⟨(man.check env).map (CBlanknodeEntry.aged env),
      man.vBlanknodes.capacity, by
        rw [length_map]
        exact CBlanknodeRegistry.length_check_le env man⟩ }

/-- `psn->nLastPaid = GetAdjustedTime()`, where `psn` is what `Find(vin)` finds. -/
def CBlanknodeRegistry.markPaid (nAdjustedTime : Int64) (vin : CTxIn) (man : CBlanknodeRegistry) :
    CBlanknodeRegistry :=
  { man with
    vBlanknodes := ⟨man.vBlanknodes.elems.modify
        (man.vBlanknodes.elems.findIdx fun sn => sn.vin.prevout == vin.prevout)
        fun sn => { sn with nLastPaid := nAdjustedTime },
      man.vBlanknodes.capacity, by
        rw [length_modify]
        exact man.vBlanknodes.size_le⟩ }

def CBlanknodeRegistry.countEnabled : Nat :=
  (man.check env).countP CBlanknodeEntry.isEnabled

/-- `vecLastPayments`: the last winners, latest first, until there are more than
`nMinimumAge` of them. -/
def lastPayments (nMinimumAge : Nat) (vWinning : List CBlanknodePaymentWinner) : List CTxIn :=
  (vWinning.reverse.take (nMinimumAge + 1)).map CBlanknodePaymentWinner.vin

/-- `Find` and then `Check` on what it finds, and whether that is enabled. -/
def CBlanknodeRegistry.findEnabled (vinLP : CTxIn) : Option CBlanknodeEntry :=
  (man.vBlanknodes.elems.zipIdx.find? fun sn => sn.1.vin.prevout == vinLP.prevout).bind fun sn =>
    (some (sn.1.check env sn.2)).filter CBlanknodeEntry.isEnabled

namespace WinnerState

variable (S : WinnerState L)

def nMinimumAge : Nat := S.man.countEnabled S.env

def vecLastPayments : List CTxIn := lastPayments S.nMinimumAge S.vWinning

/-- The first choice: the blanknode that has waited longest.  `CountEnabled` has checked
the list before. -/
def oldest : Option CBlanknodeEntry :=
  (S.man.checked S.env).findOldestNotInVec S.env S.vecLastPayments (Int32.ofNat S.nMinimumAge)
    S.env.accept.nAdjustedTime

/-- The second choice: the first active one, from the end of `vecLastPayments`. -/
def firstActive : Option CBlanknodeEntry :=
  S.vecLastPayments.reverse.findSome?
    (((S.man.checked S.env).searched S.env).findEnabled S.env)

end WinnerState

/-! ## §2. The proposal. -/

/-- `psn->donationPercentage > 0 && (nHash % 100) <= (unsigned int)psn->donationPercentage` -/
def drawn (nHash : UInt32) (psn : CBlanknodeEntry) : Bool :=
  decide (psn.donationPercentage > 0) && decide (nHash % 100 ≤ psn.donationPercentage.toUInt32)

/-- `CBlanknodePaymentWinner()`. -/
def CBlanknodePaymentWinner.null : CBlanknodePaymentWinner where
  nBlockHeight := 0
  vin := ⟨⟨0, 0xffffffff⟩, [], [], 0xffffffff⟩
  payee := []
  vchSig := []
  score := 0

variable (C : Crypto)

/-- The winner that pays `psn`. -/
def CBlanknodePaymentWinner.paying (nHash : UInt32) (nBlockHeight : Int32)
    (psn : CBlanknodeEntry) (newWinner : CBlanknodePaymentWinner) : CBlanknodePaymentWinner :=
  { newWinner with
    score := 0
    nBlockHeight := nBlockHeight
    vin := psn.vin
    payee :=
      if drawn nHash psn then psn.donationAddress
      else getScriptForDestination (.CKeyID <| getID C psn.pubkey) }

/-- The body of `ProcessBlock` up to `Sign`: `newWinner`, if there is one. -/
def WinnerState.proposal (S : WinnerState L) (nBlockHeight : Int32) :
    Option CBlanknodePaymentWinner :=
  let newWinner := match S.oldest with
    | none => CBlanknodePaymentWinner.null
    | some psn => CBlanknodePaymentWinner.null.paying C S.nHash nBlockHeight psn
  let newWinner :=
    if newWinner.nBlockHeight = 0 ∧ S.nMinimumAge > 0 then
      match S.firstActive with
      | none => newWinner
      | some psn => newWinner.paying C S.nHash nBlockHeight psn
    else newWinner
  if newWinner.nBlockHeight = 0 then none else some newWinner

def WinnerState.listAfter (S : WinnerState L) (nBlockHeight : Int32) : CBlanknodeRegistry :=
  let markPaid (psn : Option CBlanknodeEntry) (man : CBlanknodeRegistry) : CBlanknodeRegistry :=
    match psn with
    | none => man
    | some psn => man.markPaid S.env.accept.nAdjustedTime psn.vin
  let man := markPaid S.oldest ((S.man.checked S.env).searched S.env)
  if (S.oldest = none ∨ nBlockHeight = 0) ∧ S.nMinimumAge > 0 then markPaid S.firstActive man
  else man

/-- The members of `CBlanknodePayments` that `ProcessBlock` reads and writes. -/
structure ProposerState where
  payments : CBlanknodePayments
  enabled : Bool
  nLastBlockHeight : Int32

/-- `CBlanknodePayments::ProcessBlock`: the new state and list, and the message that is
relayed. -/
def processBlock (penv : PaymentsEnv C) (env : RegistryEnv L) (nHash : UInt32)
    (st : ProposerState) (man : CBlanknodeRegistry) (nBlockHeight : Int32) :
    (ProposerState × CBlanknodeRegistry) × Option CBlanknodePaymentWinner :=
  if nBlockHeight ≤ st.nLastBlockHeight then ((st, man), none)
  else if !st.enabled then ((st, man), none)
  else
    let S : WinnerState L := ⟨env, man, st.payments.vWinning, nHash⟩
    let (hash, cache) := getBlockHash penv.pindexBest st.payments.mapCacheBlockHashes
      (nBlockHeight.toInt - 10)
    let st := { st with payments := { st.payments with mapCacheBlockHashes := cache } }
    match hash with
    -- `CountEnabled` comes before this test
    | none => ((st, man.checked env), none)
    | some _ =>
      match (S.proposal C nBlockHeight).bind penv.sign with
      | none => ((st, S.listAfter nBlockHeight), none)
      | some newWinner =>
        match addWinningBlanknode penv st.payments newWinner with
        | (payments, false) => (({ st with payments }, S.listAfter nBlockHeight), none)
        | (payments, true) =>
          (({ st with payments, nLastBlockHeight := nBlockHeight },
            S.listAfter nBlockHeight), some newWinner)

/-! ## §3. Who is paid. -/

namespace WinnerState

variable (S : WinnerState L)

def pick (nBlockHeight : Int32) : Option CBlanknodeEntry :=
  if nBlockHeight = 0 then none
  else
    match S.oldest with
    | some psn => some psn
    | none => if S.nMinimumAge > 0 then S.firstActive else none

/-- **The proposal pays the blanknode that is picked**, from either of the choices. -/
theorem proposal_eq (nBlockHeight : Int32) :
    S.proposal C nBlockHeight =
      (S.pick nBlockHeight).map fun psn =>
        CBlanknodePaymentWinner.null.paying C S.nHash nBlockHeight psn := by
  have hnull : CBlanknodePaymentWinner.null.nBlockHeight = 0 := rfl
  have hpaying (psn : CBlanknodeEntry) (w : CBlanknodePaymentWinner) :
      (w.paying C S.nHash nBlockHeight psn).nBlockHeight = nBlockHeight := rfl
  unfold proposal pick
  cases S.oldest with
  | none =>
    by_cases hcount : S.nMinimumAge > 0
    · cases S.firstActive with
      | none => simp [hnull, hcount]
      | some psn =>
        -- a winner for height zero counts as none
        rcases eq_or_ne nBlockHeight 0 with rfl | hzero
        · simp [hnull, hpaying, hcount]
        · simp [hnull, hpaying, hcount, hzero]
    · simp [hnull, hcount]
  | some psn =>
    rcases eq_or_ne nBlockHeight 0 with rfl | hzero
    · by_cases hcount : S.nMinimumAge > 0
      · cases S.firstActive <;> simp [hpaying, hcount]
      · simp [hpaying, hcount]
    · simp [hpaying, hzero]

/-- How many of the 100 residues of `nHash` send the payment to the donation address. -/
def donationShare (psn : CBlanknodeEntry) : Nat :=
  (range 100).countP fun r => drawn (UInt32.ofNat r) psn

end WinnerState

/-! ## §4. What a call depends on. -/

variable {env env' : RegistryEnv L}

/-- **A second `Check` finds what the first one found**: only a spent collateral is
remembered, and it is found spent again. -/
theorem check_check_state (lockRecv : Bool) (st : CBlanknodeState) :
    (st.check env.accept env.collateralPubKey lockRecv env.db env.pindexBest env.pool
        env.free).check env.accept env.collateralPubKey lockRecv env.db env.pindexBest env.pool
        env.free =
      st.check env.accept env.collateralPubKey lockRecv env.db env.pindexBest env.pool
        env.free := by
  unfold CBlanknodeState.check
  cases lockRecv with
  | false => rfl
  | true =>
    simp only [Bool.not_true, Bool.false_eq_true, if_false]
    congr 1
    unfold findState CBlanknodeState.updatedWithin
    dsimp only
    split_ifs <;> simp_all

variable (i : Nat) (sn : CBlanknodeEntry)

theorem toState_check : (sn.check env i).toState = sn.toState.check env.accept env.collateralPubKey
    (env.lockRecv i) env.db env.pindexBest env.pool env.free := by
  unfold CBlanknodeEntry.check CBlanknodeState.check
  cases env.lockRecv i <;> rfl

theorem check_check : (sn.check env i).check env i = sn.check env i := by
  show { sn with activeState := _ } = { sn with activeState := _ }
  congr 1
  rw [toState_check, check_check_state]

theorem check_aged :
    (sn.aged env).check env i =
      { sn.aged env with activeState := (sn.check env i).activeState } := by
  have hstate : (sn.aged env).toState = sn.toState := by
    unfold CBlanknodeEntry.aged CBlanknodeEntry.getBlanknodeInputAge
    dsimp only
    split
    · split <;> rfl
    · rfl
  unfold CBlanknodeEntry.check
  rw [hstate]

theorem aged_activeState : (sn.aged env).activeState = sn.activeState := by
  unfold CBlanknodeEntry.aged CBlanknodeEntry.getBlanknodeInputAge
  dsimp only
  split
  · split <;> rfl
  · rfl

theorem check_aged_check : ((sn.check env i).aged env).check env i = (sn.check env i).aged env := by
  rw [check_aged, check_check, ← aged_activeState (sn.check env i)]

theorem checked_check : (man.checked env).check env = man.check env := by
  show (man.vBlanknodes.elems.mapIdx _).mapIdx _ = _
  rw [mapIdx_mapIdx]
  congr 1
  funext i sn
  exact check_check i sn

theorem findEnabled_searched (vinLP : CTxIn) :
    ((man.checked env).searched env).findEnabled env vinLP =
    (((man.check env).map (CBlanknodeEntry.aged env)).find? fun sn =>
    sn.vin.prevout == vinLP.prevout).filter CBlanknodeEntry.isEnabled := by
  have helems : ((man.checked env).searched env).vBlanknodes.elems =
      (man.check env).map (CBlanknodeEntry.aged env) :=
    congrArg (map (CBlanknodeEntry.aged env)) (checked_check man)
  unfold CBlanknodeRegistry.findEnabled
  rw [helems]
  -- the entry at every place passes its check unchanged
  have hsame : ∀ sn ∈ ((man.check env).map (CBlanknodeEntry.aged env)).zipIdx,
      sn.1.check env sn.2 = sn.1 := by
    rintro ⟨sn, i⟩ hmem
    have hget := mk_mem_zipIdx_iff_getElem?.mp hmem
    rw [getElem?_map, CBlanknodeRegistry.check, getElem?_mapIdx, Option.map_map] at hget
    obtain ⟨sn', -, rfl⟩ := map_eq_some_iff.mp hget
    exact check_aged_check i sn'
  generalize (man.check env).map (CBlanknodeEntry.aged env) = l at hsame ⊢
  have hfind : l.find? (fun sn => sn.vin.prevout == vinLP.prevout) =
      (l.zipIdx.find? fun sn => sn.1.vin.prevout == vinLP.prevout).map Prod.fst := by
    conv_lhs => rw [← zipIdx_map_fst 0 l]
    rw [find?_map]
    rfl
  rw [hfind]
  cases hzip : l.zipIdx.find? (fun sn => sn.1.vin.prevout == vinLP.prevout) with
  | none => rfl
  | some sn =>
    show (some (sn.1.check env sn.2)).filter CBlanknodeEntry.isEnabled = _
    rw [hsame sn (mem_of_find?_eq_some hzip)]
    rfl

/-! ## §5. The same chain and the same list. -/

def WinnerState.ClockInRange (S : WinnerState L) : Prop :=
  ∀ sn ∈ S.man.vBlanknodes.elems,
    (sn.secondsSincePayment S.env.accept.nAdjustedTime).toInt =
      S.env.accept.nAdjustedTime.toInt - sn.nLastPaid.toInt

/-- The same best chain, winners and blanknodes, of which `Check` says the same.  The
time may be another one. -/
structure WinnerState.SameInputs (S S' : WinnerState L) : Prop where
  pindexBest : S'.env.pindexBest = S.env.pindexBest
  getInputAge : S'.env.getInputAge = S.env.getInputAge
  vWinning : S'.vWinning = S.vWinning
  vBlanknodes : S'.man.vBlanknodes.elems = S.man.vBlanknodes.elems
  check : S'.man.check S'.env = S.man.check S.env
  clock : S'.env.accept.nAdjustedTime = S.env.accept.nAdjustedTime ∨
    S.ClockInRange ∧ S'.ClockInRange

theorem getBlanknodeInputAge_congr (hbest : env'.pindexBest = env.pindexBest)
    (hage : env'.getInputAge = env.getInputAge) (sn : CBlanknodeEntry) :
    sn.getBlanknodeInputAge env' = sn.getBlanknodeInputAge env := by
  unfold CBlanknodeEntry.getBlanknodeInputAge
  rw [hbest, hage]

/-- Waiting times at two moments are in the same order. -/
def SameOrder (now now' : Int64) (Paid : Int64 → Prop) : Prop :=
  ∀ a b, Paid a → Paid b → (now' - a < now' - b ↔ now - a < now - b)

theorem olderOf_congr (hbest : env'.pindexBest = env.pindexBest)
    (hage : env'.getInputAge = env.getInputAge) {now now' : Int64} {Paid : Int64 → Prop}
    (horder : SameOrder now now' Paid) (vVins : List CTxIn) (nMinimumAge : Int32)
    {pOldestBlanknode : Option CBlanknodeEntry} {sn : CBlanknodeEntry}
    (hold : ∀ oldest, pOldestBlanknode = some oldest → Paid oldest.nLastPaid)
    (hsn : Paid sn.nLastPaid) :
    CBlanknodeRegistry.olderOf env' vVins nMinimumAge now' pOldestBlanknode sn =
        CBlanknodeRegistry.olderOf env vVins nMinimumAge now pOldestBlanknode sn ∧
      ∀ oldest, CBlanknodeRegistry.olderOf env vVins nMinimumAge now pOldestBlanknode sn =
        some oldest → Paid oldest.nLastPaid := by
  have hpaid : Paid (sn.getBlanknodeInputAge env).2.nLastPaid := by
    rw [CBlanknodeRegistry.getBlanknodeInputAge_nLastPaid]
    exact hsn
  unfold CBlanknodeRegistry.olderOf
  rw [getBlanknodeInputAge_congr hbest hage]
  split
  · exact ⟨rfl, hold⟩
  split
  · exact ⟨rfl, hold⟩
  split
  · exact ⟨rfl, hold⟩
  cases pOldestBlanknode with
  | none =>
    refine ⟨rfl, ?_⟩
    rintro oldest ⟨⟩
    exact hpaid
  | some old =>
    have hlt : old.secondsSincePayment now' < sn.secondsSincePayment now' ↔
        old.secondsSincePayment now < sn.secondsSincePayment now :=
      horder _ _ (hold old rfl) hsn
    dsimp only
    constructor
    · rw [if_congr hlt rfl rfl]
    · split
      · rintro oldest ⟨⟩
        exact hpaid
      · rintro oldest ⟨⟩
        exact hold old rfl

theorem foldl_olderOf_congr (hbest : env'.pindexBest = env.pindexBest)
    (hage : env'.getInputAge = env.getInputAge) {now now' : Int64} {Paid : Int64 → Prop}
    (horder : SameOrder now now' Paid) (vVins : List CTxIn) (nMinimumAge : Int32)
    (l : List CBlanknodeEntry) (hl : ∀ sn ∈ l, Paid sn.nLastPaid)
    (pOldestBlanknode : Option CBlanknodeEntry)
    (hold : ∀ oldest, pOldestBlanknode = some oldest → Paid oldest.nLastPaid) :
    l.foldl (CBlanknodeRegistry.olderOf env' vVins nMinimumAge now') pOldestBlanknode =
      l.foldl (CBlanknodeRegistry.olderOf env vVins nMinimumAge now) pOldestBlanknode := by
  induction l generalizing pOldestBlanknode with
  | nil => rw [foldl_nil, foldl_nil]
  | cons sn l ih =>
    obtain ⟨hstep, hnext⟩ := olderOf_congr hbest hage horder vVins nMinimumAge hold
      (hl sn mem_cons_self)
    have hrest := ih (fun sn' hsn' => hl sn' (mem_cons_of_mem _ hsn'))
      (CBlanknodeRegistry.olderOf env vVins nMinimumAge now pOldestBlanknode sn) hnext
    rw [foldl_cons, foldl_cons, hstep, hrest]

namespace WinnerState

variable {S S' : WinnerState L}

theorem SameInputs.order (h : S.SameInputs S') :
    SameOrder S.env.accept.nAdjustedTime S'.env.accept.nAdjustedTime
      fun t => ∃ sn ∈ S.man.vBlanknodes.elems, sn.nLastPaid = t := by
  rintro _ _ ⟨a, ha, rfl⟩ ⟨b, hb, rfl⟩
  rcases h.clock with hnow | ⟨hrange, hrange'⟩
  · rw [hnow]
  · have ha' := hrange' a (h.vBlanknodes ▸ ha)
    have hb' := hrange' b (h.vBlanknodes ▸ hb)
    have ha := hrange a ha
    have hb := hrange b hb
    unfold CBlanknodeEntry.secondsSincePayment at ha hb ha' hb'
    rw [Int64.lt_iff_toInt_lt, Int64.lt_iff_toInt_lt, ha, hb, ha', hb']
    omega

theorem SameInputs.nMinimumAge (h : S.SameInputs S') : S'.nMinimumAge = S.nMinimumAge :=
  congrArg (countP CBlanknodeEntry.isEnabled) h.check

theorem SameInputs.vecLastPayments (h : S.SameInputs S') :
    S'.vecLastPayments = S.vecLastPayments := by
  unfold WinnerState.vecLastPayments
  rw [h.nMinimumAge, h.vWinning]

theorem nLastPaid_of_mem_check {sn : CBlanknodeEntry} (h : sn ∈ S.man.check S.env) :
    ∃ sn' ∈ S.man.vBlanknodes.elems, sn'.nLastPaid = sn.nLastPaid := by
  obtain ⟨i, hi, rfl⟩ := mem_mapIdx.mp h
  exact ⟨_, getElem_mem hi, rfl⟩

theorem SameInputs.oldest (h : S.SameInputs S') : S'.oldest = S.oldest := by
  unfold WinnerState.oldest CBlanknodeRegistry.findOldestNotInVec
  rw [checked_check, checked_check, h.check, h.vecLastPayments, h.nMinimumAge]
  refine foldl_olderOf_congr h.pindexBest h.getInputAge h.order _ _ _ ?_ none ?_
  · intro sn hsn
    exact nLastPaid_of_mem_check hsn
  · intro oldest hnone
    cases hnone

theorem SameInputs.firstActive (h : S.SameInputs S') : S'.firstActive = S.firstActive := by
  have haged : CBlanknodeEntry.aged S'.env = CBlanknodeEntry.aged S.env := by
    funext sn
    unfold CBlanknodeEntry.aged
    rw [getBlanknodeInputAge_congr h.pindexBest h.getInputAge]
  unfold WinnerState.firstActive
  rw [h.vecLastPayments]
  congr 1
  funext vinLP
  rw [findEnabled_searched, findEnabled_searched, h.check, haged]

/-- **The blanknode is settled by the chain and the list**, in both branches. -/
theorem SameInputs.pick (h : S.SameInputs S') (nBlockHeight : Int32) :
    S'.pick nBlockHeight = S.pick nBlockHeight := by
  unfold WinnerState.pick
  rw [h.oldest, h.nMinimumAge, h.firstActive]

end WinnerState

/-! ## §6. The draw. -/

theorem countP_range_le (k n : Nat) :
    (range n).countP (fun r => decide (r ≤ k)) = min n (k + 1) := by
  induction n with
  | zero => rfl
  | succ n ih =>
    rw [range_succ, countP_append, ih, countP_singleton]
    by_cases h : n ≤ k
    · rw [if_pos (decide_eq_true h)]
      omega
    · rw [if_neg (by rw [decide_eq_true_eq]; exact h)]
      omega

theorem drawn_residue {r : Nat} (hr : r < 100) {psn : CBlanknodeEntry}
    (h : 0 < psn.donationPercentage.toInt) :
    drawn (UInt32.ofNat r) psn = decide (r ≤ psn.donationPercentage.toInt.toNat) := by
  have hpos : 0 < psn.donationPercentage := Int32.lt_iff_toInt_lt.mpr h
  have hnat : (UInt32.ofNat r % 100).toNat = r := by
    rw [UInt32.toNat_mod, UInt32.toNat_ofNat_of_lt' (by unfold UInt32.size; omega)]
    exact Nat.mod_eq_of_lt hr
  unfold drawn
  rw [decide_eq_true hpos, Bool.true_and, Int32.toNat_toInt,
    ← Int32.toNat_toUInt32_of_le (Int32.le_of_lt hpos)]
  exact decide_eq_decide.mpr (by rw [UInt32.le_iff_toNat_le, hnat])

theorem donationShare_eq (psn : CBlanknodeEntry) :
    WinnerState.donationShare psn =
      if 0 < psn.donationPercentage.toInt then min 100 (psn.donationPercentage.toInt.toNat + 1)
      else 0 := by
  unfold WinnerState.donationShare
  by_cases h : 0 < psn.donationPercentage.toInt
  · rw [if_pos h, ← countP_range_le]
    apply countP_congr
    intro r hr
    rw [drawn_residue (mem_range.mp hr) h]
  · rw [if_neg h, countP_eq_zero]
    intro r _ hdrawn
    unfold drawn at hdrawn
    have hpos := of_decide_eq_true (Bool.and_eq_true_iff.mp hdrawn).1
    exact h (Int32.lt_iff_toInt_lt.mp hpos)

/-- **The share is the announced one for nothing and for everything only.** -/
theorem donationShare_iff (psn : CBlanknodeEntry) :
    (WinnerState.donationShare psn : Int) = psn.donationPercentage.toInt ↔
      psn.donationPercentage = 0 ∨ psn.donationPercentage = 100 := by
  rw [donationShare_eq, ← Int32.toInt_inj, ← Int32.toInt_inj, show (0 : Int32).toInt = 0 from rfl,
    show (100 : Int32).toInt = 100 from rfl]
  split <;> omega

theorem drawn_of_extreme (nHash nHash' : UInt32) {psn : CBlanknodeEntry}
    (h : psn.donationPercentage = 0 ∨ psn.donationPercentage = 100) :
    drawn nHash' psn = drawn nHash psn := by
  unfold drawn
  rcases h with h | h
  · rw [h]
    rfl
  · have hall (n : UInt32) : n % 100 ≤ (100 : Int32).toUInt32 := by
      rw [UInt32.le_iff_toNat_le, UInt32.toNat_mod]
      show n.toNat % 100 ≤ 100
      omega
    rw [h, decide_eq_true (hall nHash'), decide_eq_true (hall nHash)]

/-- The proposal is settled by the chain and the list, and the donation address gets the
share that was announced. -/
structure WinnerProper (C : Crypto) (S : WinnerState L) (nBlockHeight : Int32) : Prop where
  settled : ∀ S', S.SameInputs S' → S'.proposal C nBlockHeight = S.proposal C nBlockHeight
  share : ∀ psn, S.pick nBlockHeight = some psn →
    (WinnerState.donationShare psn : Int) = psn.donationPercentage.toInt

/-- **The winner is proper exactly when the blanknode that is picked donates nothing or
everything.** -/
theorem winner_proper_iff (C : Crypto) (S : WinnerState L) (nBlockHeight : Int32) :
    WinnerProper C S nBlockHeight ↔ ∀ psn, S.pick nBlockHeight = some psn →
      psn.donationPercentage = 0 ∨ psn.donationPercentage = 100 := by
  constructor
  · intro h psn hpick
    exact (donationShare_iff psn).mp (h.share psn hpick)
  · intro h
    refine ⟨?_, fun psn hpick => (donationShare_iff psn).mpr (h psn hpick)⟩
    intro S' hsame
    rw [S'.proposal_eq, S.proposal_eq, hsame.pick]
    cases hpick : S.pick nBlockHeight with
    | none => rfl
    | some psn =>
      rw [map_some, map_some]
      unfold CBlanknodePaymentWinner.paying
      rw [drawn_of_extreme S.nHash S'.nHash (h psn hpick)]

/-! ## §7. Half of the payments. -/

/-- A blanknode that announced to donate half of its payments.  It passes `Check`
without the probe of its collateral. -/
def sampleDonor : CBlanknodeEntry :=
  { CBlanknodeRegistry.sampleEntry 0 .BLANKNODE_ENABLED 50 with
    unitTest := true
    lastTimeSeen := collateralEnv.nAdjustedTime
    donationAddress := [OP_1]
    donationPercentage := 50 }

def sampleWinnerState (nHash : UInt32) : WinnerState Unit where
  env := { CBlanknodeRegistry.registryEnv with lockRecv := fun _ => true }
  man := { CBlanknodeRegistry.sampleRegistry with
    vBlanknodes := ⟨[sampleDonor], 4, by decide⟩ }
  vWinning := []
  nHash := nHash

/-- Two nodes with the same chain and list pay the donation address and the key of the
same blanknode, and 51 of the residues go to the donation. -/
theorem winner_by_chance :
    (sampleWinnerState 50).SameInputs (sampleWinnerState 51) ∧
      ((sampleWinnerState 50).proposal sampleCrypto 110).map CBlanknodePaymentWinner.payee =
        some [OP_1] ∧
      ((sampleWinnerState 51).proposal sampleCrypto 110).map CBlanknodePaymentWinner.payee =
        some (getScriptForDestination (.CKeyID <| getID sampleCrypto [])) ∧
      WinnerState.donationShare sampleDonor = 51 ∧
      ¬ WinnerProper sampleCrypto (sampleWinnerState 50) 110 := by
  refine ⟨⟨rfl, rfl, rfl, rfl, rfl, .inl rfl⟩, by decide +kernel, by decide +kernel,
    by decide +kernel, fun h => ?_⟩
  have hsettled := congrArg (Option.map CBlanknodePaymentWinner.payee)
    (h.settled (sampleWinnerState 51) ⟨rfl, rfl, rfl, rfl, rfl, .inl rfl⟩)
  exact absurd hsettled (by decide +kernel)

/-! ## §8. One winner for a height. -/

/-- A call of `ProcessBlock`.  Between two calls messages change the winners and the list. -/
structure ProposerCall (C : Crypto) (L : Type) where
  penv : PaymentsEnv C
  env : RegistryEnv L
  nHash : UInt32
  payments : CBlanknodePayments
  enabled : Bool
  man : CBlanknodeRegistry
  nBlockHeight : Int32

/-- The winners that a node relays, from `nLastBlockHeight` on. -/
def proposals {C : Crypto} : Int32 → List (ProposerCall C L) → List CBlanknodePaymentWinner
  | _, [] => []
  | nLastBlockHeight, call :: calls =>
    let r := processBlock C call.penv call.env call.nHash
      ⟨call.payments, call.enabled, nLastBlockHeight⟩ call.man call.nBlockHeight
    r.2.toList ++ proposals r.1.1.nLastBlockHeight calls

/-- **One call** relays a winner for a new height, which is the last one then. -/
theorem processBlock_height {C : Crypto} (penv : PaymentsEnv C) (env : RegistryEnv L)
    (nHash : UInt32) (st : ProposerState) (man : CBlanknodeRegistry) (nBlockHeight : Int32) :
    let r := processBlock C penv env nHash st man nBlockHeight
    (r.2 = none ∧ r.1.1.nLastBlockHeight = st.nLastBlockHeight) ∨
      ∃ w, r.2 = some w ∧ w.nBlockHeight = r.1.1.nLastBlockHeight ∧
        st.nLastBlockHeight < r.1.1.nLastBlockHeight := by
  dsimp only
  unfold processBlock
  split
  next => exact .inl ⟨rfl, rfl⟩
  next hnew =>
    split
    next => exact .inl ⟨rfl, rfl⟩
    next =>
      dsimp only
      split
      next => exact .inl ⟨rfl, rfl⟩
      next =>
        split
        next => exact .inl ⟨rfl, rfl⟩
        next newWinner hsigned =>
          obtain ⟨proposed, hproposal, hsign⟩ := bind_eq_some_iff.mp hsigned
          -- the proposal has the height of the call, and signing keeps it
          have hheight : newWinner.nBlockHeight = nBlockHeight := by
            rw [WinnerState.proposal_eq] at hproposal
            obtain ⟨psn, -, rfl⟩ := map_eq_some_iff.mp hproposal
            obtain ⟨key2, -, hsign⟩ := bind_eq_some_iff.mp hsign
            obtain ⟨vchSig, -, hsign⟩ := bind_eq_some_iff.mp hsign
            split at hsign
            · cases hsign
              rfl
            · cases hsign
          split
          next => exact .inl ⟨rfl, rfl⟩
          next => exact .inr ⟨newWinner, rfl, hheight, Int32.not_le.mp hnew⟩

/-- **A node never relays two winners for one height**, whatever happens between the calls. -/
theorem proposals_increase {C : Crypto} (nLastBlockHeight : Int32)
    (calls : List (ProposerCall C L)) :
    ((nLastBlockHeight :: (proposals nLastBlockHeight calls).map
      CBlanknodePaymentWinner.nBlockHeight)).Pairwise (· < ·) := by
  induction calls generalizing nLastBlockHeight with
  | nil => exact pairwise_singleton _ _
  | cons call calls ih =>
    have hcall := processBlock_height call.penv call.env call.nHash
      ⟨call.payments, call.enabled, nLastBlockHeight⟩ call.man call.nBlockHeight
    unfold proposals
    generalize processBlock C call.penv call.env call.nHash _ call.man call.nBlockHeight = r at hcall
    obtain ⟨⟨st, man⟩, winner⟩ := r
    have ih := ih st.nLastBlockHeight
    obtain ⟨rfl, hlast⟩ | ⟨w, rfl, hheight, hlt⟩ := hcall
    · rw [hlast] at ih
      show (nLastBlockHeight :: (proposals st.nLastBlockHeight calls).map _).Pairwise _
      rw [hlast]
      exact ih
    · show (nLastBlockHeight :: w.nBlockHeight ::
        (proposals st.nLastBlockHeight calls).map _).Pairwise _
      rw [hheight]
      refine pairwise_cons.mpr ⟨fun h hmem => ?_, ih⟩
      obtain rfl | hmem := mem_cons.mp hmem
      · exact hlt
      · exact Int32.lt_trans hlt ((pairwise_cons.mp ih).1 h hmem)

end Fantom.Blanknode
