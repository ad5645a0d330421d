/-
  Fantom.Zerosend.Session — The users of a session.

  * `Counted` — the invariant: as many collaterals as requests accepted, and as many users less
    those that `AddEntry` took off,
  * `session_accounts` — the accounts are right exactly as long as it took off none.
-/
import Fantom.Zerosend.Moves

namespace Fantom.Zerosend

open Core Chain Lib Script Pool CZerosendPool

variable {L : Type} (cfg : Config) (env : Surroundings L)

/-! ## §1. Counting. -/

variable (pool : CZerosendPool)

/-- There is no session: the pool is as `SetNull` leaves it. -/
def Closed : Prop :=
  pool.sessionUsers = 0 ∧ pool.vecSessionCollateral = [] ∧ pool.entries = []

instance (pool : CZerosendPool) : Decidable (Closed pool) := by
  unfold Closed
  infer_instance

/-- What happened since the session was opened: requests accepted, transactions that passed
the handler and failed in `AddEntry`, and entries that expired. -/
structure Tally where
  accepted : Nat
  refused : Nat
  dropped : Nat
deriving DecidableEq, Repr

/-- `CheckTimeout` drops a participant, whose entry is expired. -/
def dropsEntry : Bool :=
  pool.takesUsers && pool.entries.any (CZeroSendEntry.isExpired env.nNow)

def Tally.countSsa (t : Tally) (m : Ssa) : Tally :=
  if (pool.ssa cfg env m).2.accepted ≠ 1 then t
  else if pool.sessionUsers ≤ 0 then ⟨1, 0, 0⟩
  else { t with accepted := t.accepted + 1 }

def Tally.countSsi (t : Tally) (m : Ssi) : Tally :=
  if pool.refusedInAddEntry cfg env m then { t with refused := t.refused + 1 } else t

/-- The count of one event, in a pool that has a session after it. -/
def Tally.count (t : Tally) : Event → Tally
  | .ssa m => t.countSsa cfg env pool m
  | .ssi m => t.countSsi cfg env pool m
  | .checkTimeout => if dropsEntry env pool then { t with dropped := t.dropped + 1 } else t
  | .sss _ | .check | .checkForCompleteQueue => t

def tallyStep (s : CZerosendPool × Tally) (ev : Surroundings L × Event) : CZerosendPool × Tally :=
  let pool := step cfg s.1 ev
  (pool, if Closed pool then ⟨0, 0, 0⟩ else s.2.count cfg ev.1 s.1 ev.2)

/-! ## §2. What the checks of a pool keep. -/

/-- The users are left alone, or the session has ended. -/
def Kept (pool pool' : CZerosendPool) : Prop :=
  (pool'.sessionUsers = pool.sessionUsers ∧
    pool'.vecSessionCollateral = pool.vecSessionCollateral ∧
    (pool.entries = [] → pool'.entries = [])) ∨ Closed pool'

theorem Kept.refl : Kept pool pool := .inl ⟨rfl, rfl, id⟩

theorem Kept.trans {p q r : CZerosendPool} (h : Kept p q) (h' : Kept q r) : Kept p r := by
  rcases h' with ⟨husers, hcollateral, hentries⟩ | hclosed
  · rcases h with ⟨husers', hcollateral', hentries'⟩ | ⟨hzero, hnone, hempty⟩
    · exact .inl ⟨husers.trans husers', hcollateral.trans hcollateral', hentries ∘ hentries'⟩
    · exact .inr ⟨husers.trans hzero, hcollateral.trans hnone, hentries hempty⟩
  · exact .inr hclosed

variable {pool pool' : CZerosendPool} {t : Tally}

/-- **A move** keeps the users, or ends the session. -/
theorem Kept.of_move (h : Move (L := L) cfg pool pool') :
    Kept pool pool' := by
  have hstate (env : Surroundings L) (newState : PoolStatus) (pool : CZerosendPool) :
      Kept pool (pool.updateState cfg env newState) := by
    rcases updateState_cases cfg env newState pool with ⟨_, h⟩ | ⟨nTime, h⟩
    · rw [h]
      exact Kept.refl pool
    · rw [h]
      exact .inl ⟨rfl, rfl, id⟩
  cases h with
  | updateState env newState _ => exact hstate env newState pool
  | setNull env clearEverything => exact .inr ⟨rfl, rfl, rfl⟩
  | finalize env _ _ => exact (hstate env .SIGNING pool).trans (.inl ⟨rfl, rfl, id⟩)
  | erase env _ =>
    refine .inl ⟨rfl, rfl, fun hempty => ?_⟩
    dsimp only
    rw [hempty]
    rfl
  | eraseMine env => exact .inl ⟨rfl, rfl, id⟩

theorem Kept.of_moves (h : Moves (L := L) cfg pool pool') :
    Kept pool pool' := by
  induction h with
  | refl => exact Kept.refl pool
  | tail _ hmove ih => exact ih.trans (Kept.of_move cfg hmove)

theorem Kept.signAll (pool : CZerosendPool) (sigs : List CTxIn) :
    Kept pool (pool.signAll env sigs) := by
  induction sigs generalizing pool with
  | nil => exact Kept.refl pool
  | cons item sigs ih =>
    refine Kept.trans ?_ (ih (pool.addScriptSig env item).1)
    rw [addScriptSig_eq]
    split
    · refine .inl ⟨rfl, rfl, fun hempty => ?_⟩
      rw [CZerosendPool.signed, hempty]
      rfl
    · exact Kept.refl pool

theorem Kept.sss (pool : CZerosendPool) (m : Sss) : Kept pool (pool.sss cfg env m) := by
  rcases sss_cases cfg env pool m with h | h | h
  · rw [h]
    exact Kept.refl pool
  · rw [h]
    exact Kept.signAll env pool m.sigs
  · rw [h]
    exact (Kept.signAll env pool m.sigs).trans
      (Kept.of_moves cfg (check_moves cfg env _))

/-! ## §3. The accounts of a session. -/

/-- The accounts: the users are those who were accepted and not dropped, each has a collateral,
and there are not too many. -/
def AccountsRight (s : CZerosendPool × Tally) : Prop :=
  s.1.sessionUsers = s.2.accepted - s.2.dropped ∧
    s.1.sessionUsers = s.1.vecSessionCollateral.length ∧
    0 ≤ s.1.sessionUsers ∧ s.1.sessionUsers ≤ getMaxPoolTransactions cfg

/-- The invariant: what `AddEntry` takes off is what the users are short of the collaterals. -/
structure Counted (s : CZerosendPool × Tally) : Prop where
  collaterals : (s.1.vecSessionCollateral.length : Int) = s.2.accepted
  users : s.1.sessionUsers = s.2.accepted - s.2.refused
  nonneg : 0 ≤ s.1.sessionUsers
  le_max : s.1.sessionUsers ≤ getMaxPoolTransactions cfg
  closed : s.1.sessionUsers = 0 → Closed s.1 ∧ s.2 = ⟨0, 0, 0⟩

theorem two_le_max : 2 ≤ getMaxPoolTransactions cfg := by
  unfold getMaxPoolTransactions
  split <;> decide

theorem Counted.of_closed (h : Closed pool) :
    Counted cfg (pool, ⟨0, 0, 0⟩) := by
  have hmax := two_le_max cfg
  refine ⟨?_, h.1, Int.le_of_eq h.1.symm, ?_, fun _ => ⟨h, rfl⟩⟩
  · rw [h.2.1]
    rfl
  · dsimp only
    rw [h.1]
    omega

theorem Counted.kept {t' : Tally} (hI : Counted cfg (pool, t)) (hkept : Kept pool pool')
    (hopen : ¬ Closed pool') (haccepted : t'.accepted = t.accepted)
    (hrefused : t'.refused = t.refused) : Counted cfg (pool', t') := by
  obtain ⟨husers, hcollateral, hentries⟩ := hkept.resolve_right hopen
  refine ⟨?_, ?_, ?_, ?_, fun hzero => ?_⟩
  · dsimp only
    rw [hcollateral, haccepted]
    exact hI.collaterals
  · dsimp only
    rw [husers, haccepted, hrefused]
    exact hI.users
  · exact husers ▸ hI.nonneg
  · exact husers ▸ hI.le_max
  · -- without users there was no session before either
    have hbefore := (hI.closed (husers ▸ hzero)).1
    exact absurd ⟨hzero, hcollateral.trans hbefore.2.1, hentries hbefore.2.2⟩ hopen

theorem openSession_collateral (pool : CZerosendPool) (nDenom : Int32)
    (txCollateral : CTransaction) :
    (pool.openSession cfg env nDenom txCollateral).vecSessionCollateral =
      pool.vecSessionCollateral ++ [txCollateral] := by
  unfold CZerosendPool.openSession CZerosendPool.updateState
  dsimp only
  split <;> rfl

theorem openSession_users (pool : CZerosendPool) (nDenom : Int32) (txCollateral : CTransaction) :
    (pool.openSession cfg env nDenom txCollateral).sessionUsers = 1 := by
  unfold CZerosendPool.openSession CZerosendPool.updateState
  dsimp only
  split <;> rfl

theorem Counted.ssa (hI : Counted cfg (pool, t)) (m : Ssa)
    (hopen : ¬ Closed (pool.ssa cfg env m).1) :
    Counted cfg ((pool.ssa cfg env m).1, t.countSsa cfg env pool m) := by
  have hmax := two_le_max cfg
  obtain ⟨hcount, husers, hnonneg, hle, hclosed⟩ := hI
  dsimp only at hcount husers hnonneg hle hclosed
  unfold Tally.countSsa
  have hcases := ssa_cases cfg env pool m
  rw [atLeastNone_eq hnonneg, or_self] at hcases
  rcases hcases with
    ⟨hpool, hanswer⟩ | ⟨hzero, hanswer, hpool⟩ | ⟨hpos, hroom, hanswer, hpool⟩
  · rw [hpool] at hopen ⊢
    rcases hanswer with hanswer | hzero
    · rw [hanswer, if_pos (by decide)]
      exact ⟨hcount, husers, hnonneg, hle, hclosed⟩
    · exact absurd (hclosed hzero).1 hopen
  · -- a session is opened where there was none
    have hone := openSession_users cfg env pool m.nDenom m.txCollateral
    rw [hpool, hanswer, if_neg (by decide), if_pos (Int.le_of_eq hzero)]
    refine ⟨?_, ?_, ?_, ?_, ?_⟩ <;> dsimp only
    · rw [openSession_collateral, (hclosed hzero).1.2.1]
      rfl
    · rw [hone]
      rfl
    · omega
    · omega
    · intro h
      omega
  · rw [hpool, hanswer, if_neg (by decide), if_neg (by omega)]
    unfold CZerosendPool.joinSession
    refine ⟨?_, ?_, ?_, ?_, ?_⟩ <;> dsimp only
    · rw [List.length_append, List.length_singleton]
      omega
    · omega
    · omega
    · omega
    · intro h
      omega

theorem Counted.ssi (hI : Counted cfg (pool, t)) (m : Ssi)
    (hopen : ¬ Closed (pool.ssi cfg env m).1) :
    Counted cfg ((pool.ssi cfg env m).1, t.countSsi cfg env pool m) := by
  have hmax := two_le_max cfg
  obtain ⟨hcount, husers, hnonneg, hle, hclosed⟩ := hI
  dsimp only at hcount husers hnonneg hle hclosed
  unfold Tally.countSsi
  rcases ssi_cases cfg env pool m with
    ⟨hrefused, _, hpool⟩ | ⟨hrefused, _, hready, hpool⟩ | ⟨hrefused, _, hready, _, _, hpool⟩
  · rw [hpool, hrefused]
    exact ⟨hcount, husers, hnonneg, hle, hclosed⟩
  · rw [hpool, hrefused, if_pos rfl]
    refine ⟨?_, ?_, ?_, ?_, ?_⟩ <;> dsimp only
    · exact hcount
    · omega
    · omega
    · omega
    · intro h
      omega
  · rw [hpool] at hopen ⊢
    rw [hrefused, if_neg Bool.false_ne_true]
    have hadded : Counted cfg (pool.withEntry env m, t) := by
      refine ⟨hcount, husers, hnonneg, hle, fun h => ?_⟩
      unfold CZerosendPool.withEntry at h
      dsimp only at h
      omega
    have hcheck := Kept.of_moves cfg (check_moves cfg env (pool.withEntry env m))
    exact hadded.kept cfg hcheck hopen rfl rfl

theorem Counted.step {s : CZerosendPool × Tally} (hI : Counted cfg s)
    (ev : Surroundings L × Event) : Counted cfg (tallyStep cfg s ev) := by
  obtain ⟨pool, t⟩ := s
  obtain ⟨env, e⟩ := ev
  unfold tallyStep
  dsimp only
  split
  next hclosed => exact Counted.of_closed cfg hclosed
  next hopen =>
    cases e with
    | ssa m => exact hI.ssa cfg env m hopen
    | ssi m => exact hI.ssi cfg env m hopen
    | sss m => exact hI.kept cfg (Kept.sss cfg env pool m) hopen rfl rfl
    | check =>
      have hkept := Kept.of_moves cfg (check_moves cfg env pool)
      exact hI.kept cfg hkept hopen rfl rfl
    | checkTimeout =>
      have hkept := Kept.of_moves cfg (checkTimeout_moves cfg env pool)
      refine hI.kept cfg hkept hopen ?_ ?_
      · unfold Tally.count
        dsimp only
        split <;> rfl
      · unfold Tally.count
        dsimp only
        split <;> rfl
    | checkForCompleteQueue =>
      have hkept := Kept.of_moves cfg (checkForCompleteQueue_moves cfg env pool)
      exact hI.kept cfg hkept hopen rfl rfl

/-- **The accounts of a session.**  In every run there are never fewer than no users and never
too many, and the accounts are right exactly as long as, since the session was opened, nothing
was refused in `AddEntry` and nobody was dropped.  A transaction that is rejected leaves the pool
alone exactly if it was not refused there. -/
theorem session_accounts (evs : List (Surroundings L × Event)) :
    let s := run (tallyStep cfg) (newPool, (⟨0, 0, 0⟩ : Tally)) evs
    (0 ≤ s.1.sessionUsers ∧ s.1.sessionUsers ≤ getMaxPoolTransactions cfg) ∧
      (AccountsRight cfg s ↔ s.2.refused = 0 ∧ s.2.dropped = 0) ∧
      ∀ (env : Surroundings L) (m : Ssi), (s.1.ssi cfg env m).2.accepted = 0 →
        (((s.1.ssi cfg env m).1.sessionUsers = s.1.sessionUsers ∧
          (s.1.ssi cfg env m).1.entries = s.1.entries ∧
          (s.1.ssi cfg env m).1.state = s.1.state) ↔
        s.1.refusedInAddEntry cfg env m = false) := by
  intro s
  have hnew : Counted cfg (newPool, ⟨0, 0, 0⟩) := Counted.of_closed cfg ⟨rfl, rfl, rfl⟩
  have hI : Counted cfg s :=
    run_invariant (I := Counted cfg) (P := fun _ _ => True) (fun _ ev hI _ => hI.step cfg ev) hnew
      (along_of_forall (fun _ _ => trivial) _ _)
  obtain ⟨hcount, husers, hnonneg, hle, _⟩ := hI
  refine ⟨⟨hnonneg, hle⟩, ?_, ?_⟩
  · unfold AccountsRight
    constructor
    · rintro ⟨hdropped, hcollateral, _⟩
      omega
    · rintro ⟨hrefused, hdropped⟩
      exact ⟨by omega, by omega, hnonneg, hle⟩
  · intro env m hrejected
    rcases ssi_cases cfg env s.1 m with
      ⟨hrefused, _, hpool⟩ | ⟨hrefused, _, _, hpool⟩ | ⟨_, haccepted, _⟩
    · rw [hpool, hrefused]
      exact ⟨fun _ => rfl, fun _ => ⟨rfl, rfl, rfl⟩⟩
    · rw [hpool, hrefused]
      dsimp only
      refine ⟨fun h => ?_, fun h => by cases h⟩
      have := h.1
      omega
    · rw [haccepted] at hrejected
      cases hrejected

def strayRun : List (Surroundings Unit × Event) :=
  [mixingSsa, mixingSsa, (mixingEnv, .checkForCompleteQueue),
    (mixingEnv, .ssi (mixingSsi [mixingIn 1 0] (-1)))]

/-- **Anybody can take a user off**: the transaction is rejected, and there is one user for two
collaterals, though nobody has left. -/
theorem strayRun_users :
    (mixingPool.ssi mixingConfig mixingEnv (mixingSsi [mixingIn 1 0] (-1))).2.accepted = 0 ∧
      (run (tallyStep mixingConfig) (newPool, (⟨0, 0, 0⟩ : Tally)) strayRun).2 = ⟨2, 1, 0⟩ ∧
      (run (step mixingConfig) newPool strayRun).sessionUsers = 1 ∧
      (run (step mixingConfig) newPool strayRun).vecSessionCollateral.length = 2 := by
  decide +kernel

/-- So the accounts are wrong, and a transaction of an old version leaves them as wrong as they
are. -/
theorem session_accounts_strayRun :
    ¬ AccountsRight mixingConfig
        (run (tallyStep mixingConfig) (newPool, (⟨0, 0, 0⟩ : Tally)) strayRun) ∧
      (((run (tallyStep mixingConfig) (newPool, (⟨0, 0, 0⟩ : Tally)) strayRun).1.ssi mixingConfig
          mixingEnv ⟨0, [], 0, mixingCollateral, []⟩).1.sessionUsers =
        (run (tallyStep mixingConfig) (newPool, (⟨0, 0, 0⟩ : Tally)) strayRun).1.sessionUsers) := by
  obtain ⟨_, hright, hrejected⟩ := session_accounts mixingConfig strayRun
  refine ⟨fun h => absurd (hright.mp h).1 (by decide +kernel), ?_⟩
  have hold := hrejected mixingEnv ⟨0, [], 0, mixingCollateral, []⟩ (by decide +kernel)
  exact (hold.mpr (by decide +kernel)).1

end Fantom.Zerosend
