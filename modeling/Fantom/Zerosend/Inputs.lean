/-
  Fantom.Zerosend.Inputs — The outpoints that the mixed transaction spends.

  * `Distinct` — the invariant,
  * `mixed_distinct` — the mixed transaction spends nothing twice, and does where it is made of a
    reused outpoint.
-/
import Fantom.Zerosend.Moves

namespace Fantom.Zerosend

open Core Chain Lib Script Pool List Bool CZerosendPool

variable {L : Type} (cfg : Config) (env : Surroundings L)

/-! ## §1. Outpoints. -/

variable (entries : List CZeroSendEntry)

def outpointsOf : List COutPoint :=
  (inputsOf entries).map fun s => s.prevout

variable (pool : CZerosendPool)

/-- The transaction names an outpoint that an entry has, with another script or sequence
number. -/
def reuses (m : Ssi) : Bool :=
  m.vin.any fun txin => (inputsOf pool.entries).any fun s =>
    s.prevout == txin.prevout && !s.toCTxIn.eqv txin

def letsReuse (m : Ssi) : Bool :=
  accepts (pool.checkSsi cfg env m) &&
    accepts (pool.checkEntry cfg env m.vin m.nAmount m.txCollateral) && reuses pool m

theorem outpointsOf_withEntry (m : Ssi) : outpointsOf (pool.withEntry env m).entries =
    outpointsOf pool.entries ++ m.vin.map CTxIn.prevout := by
  unfold CZerosendPool.withEntry outpointsOf inputsOf CZeroSendEntry.add
  dsimp only
  rw [flatMap_append, flatMap_singleton, map_append, map_map]
  rfl

variable {pool : CZerosendPool} {m : Ssi}

theorem distinct_of_checkSsi {u : Unit} (h : pool.checkSsi cfg env m = .ok u) :
    (m.vin.map CTxIn.prevout).Nodup := by
  unfold CZerosendPool.checkSsi CZerosendPool.checkLikeTransaction at h
  simp only [bind_eq_ok, rejectIf_eq_ok] at h
  obtain ⟨_, _, _, _, _, _, _, _, _, _, _, _, _, _, _, _, hacceptable⟩ := h
  rw [not_eq_false'] at hacceptable
  exact distinct_of_checkTransaction (checkTransaction_of_acceptableInputs _ hacceptable)

theorem not_eqv_of_checkEntry {u : Unit}
    (h : pool.checkEntry cfg env m.vin m.nAmount m.txCollateral = .ok u) {txin : CTxIn}
    (hin : txin ∈ m.vin) {s : CTxSSIn} (hs : s ∈ inputsOf pool.entries) :
    s.toCTxIn.eqv txin = false := by
  simp only [CZerosendPool.checkEntry, bind_eq_ok, rejectIf_eq_ok, any_eq_false, not_eq_true] at h
  obtain ⟨_, _, _, _, _, _, hnone⟩ := h
  obtain ⟨v, hv, hsv⟩ := mem_flatMap.mp hs
  exact hnone txin hin v hv s hsv

/-- **An entry** that reuses nothing keeps the outpoints apart. -/
theorem withEntry_distinct (hcheck : pool.checkSsi cfg env m = .ok ())
    (hentry : pool.checkEntry cfg env m.vin m.nAmount m.txCollateral = .ok ())
    (hfresh : reuses pool m = false) (hdistinct : (outpointsOf pool.entries).Nodup) :
    (outpointsOf (pool.withEntry env m).entries).Nodup := by
  rw [outpointsOf_withEntry, nodup_append']
  refine ⟨hdistinct, distinct_of_checkSsi cfg env hcheck, ?_⟩
  intro o hold hnew
  obtain ⟨s, hs, rfl⟩ := mem_map.mp hold
  obtain ⟨txin, hin, hsame⟩ := mem_map.mp hnew
  refine eq_false_iff.mp hfresh (any_eq_true.mpr ⟨txin, hin, ?_⟩)
  refine any_eq_true.mpr ⟨s, hs, ?_⟩
  rw [not_eqv_of_checkEntry cfg env hentry hin hs, hsame, beq_self_eq_true]
  rfl

theorem withEntry_twice (h : reuses pool m = true) :
    ¬ (outpointsOf (pool.withEntry env m).entries).Nodup := by
  simp only [reuses, any_eq_true, and_eq_true, beq_iff_eq] at h
  obtain ⟨txin, hin, s, hs, hsame, _⟩ := h
  rw [outpointsOf_withEntry, nodup_append']
  rintro ⟨_, _, hdisjoint⟩
  exact hdisjoint (mem_map_of_mem hs) (hsame ▸ mem_map_of_mem hin)

/-! ## §2. The invariant. -/

/-- Neither the entries nor the final transaction have an outpoint twice. -/
structure Distinct (pool : CZerosendPool) : Prop where
  entries : (outpointsOf pool.entries).Nodup
  final : (pool.finalTransaction.vin.map CTxIn.prevout).Nodup

theorem prevout_eq_key (txins : List CTxIn) :
    txins.map CTxIn.prevout = (txins.map inputKey).map Prod.fst := by
  rw [map_map]
  rfl

theorem outpointsOf_eq_key :
    outpointsOf entries = ((inputsOf entries).map fun s => inputKey s.toCTxIn).map Prod.fst := by
  rw [outpointsOf, map_map]
  rfl

theorem mixed_perm :
    ((CZerosendPool.mixed env entries).vin.map CTxIn.prevout).Perm (outpointsOf entries) := by
  have hshuffled := (env.shuffleVin_perm (gathered env entries).vin).map CTxIn.prevout
  have hgathered : (gathered env entries).vin.map CTxIn.prevout = outpointsOf entries := by
    unfold gathered outpointsOf
    dsimp only
    rw [map_map]
    rfl
  exact hgathered ▸ hshuffled

theorem Distinct.updateState (h : Distinct pool) (newState : PoolStatus) :
    Distinct (pool.updateState cfg env newState) := by
  rcases updateState_cases cfg env newState pool with ⟨_, hsame⟩ | ⟨nTime, hset⟩
  · rw [hsame]
    exact h
  · rw [hset]
    exact ⟨h.entries, h.final⟩

theorem Distinct.move {pool' : CZerosendPool} (h : Distinct pool)
    (hmove : Move (L := L) cfg pool pool') : Distinct pool' := by
  cases hmove with
  | updateState env newState _ => exact h.updateState cfg env newState
  | setNull env clearEverything => exact ⟨nodup_nil, nodup_nil⟩
  | finalize env _ _ =>
    have hsigning := h.updateState cfg env .SIGNING
    exact ⟨hsigning.entries, (mixed_perm env _).nodup_iff.mpr hsigning.entries⟩
  | erase env _ =>
    have hsub := inputsOf_eraseExpired env.nNow pool.entries
    exact ⟨h.entries.sublist (hsub.map _), h.final⟩
  | eraseMine env => exact ⟨h.entries, h.final⟩

theorem Distinct.moves {pool' : CZerosendPool} (h : Distinct pool)
    (hmoves : Moves (L := L) cfg pool pool') : Distinct pool' := by
  induction hmoves with
  | refl => exact h
  | tail _ hmove ih => exact ih.move cfg hmove

theorem Distinct.signed (h : Distinct pool) (item : CTxIn) :
    Distinct (pool.signed item) := by
  obtain ⟨hentries, hfinal⟩ := h
  constructor
  · rw [outpointsOf_eq_key, signed_keys, ← outpointsOf_eq_key]
    exact hentries
  · rw [prevout_eq_key, signed_final_keys, ← prevout_eq_key]
    exact hfinal

theorem Distinct.signAll (h : Distinct pool) (sigs : List CTxIn) :
    Distinct (pool.signAll env sigs) := by
  induction sigs generalizing pool with
  | nil => exact h
  | cons item sigs ih =>
    have hsigned : Distinct (pool.addScriptSig env item).1 := by
      rw [addScriptSig_eq]
      split
      · exact h.signed item
      · exact h
    exact ih hsigned

theorem Distinct.sss (h : Distinct pool) (m : Sss) :
    Distinct (pool.sss cfg env m) := by
  rcases sss_cases cfg env pool m with hpool | hpool | hpool
  · rw [hpool]
    exact h
  · rw [hpool]
    exact h.signAll env m.sigs
  · rw [hpool]
    exact (h.signAll env m.sigs).moves cfg (check_moves cfg env _)

theorem Distinct.ssi (h : Distinct pool) (hfresh : letsReuse cfg env pool m = false) : Distinct
    (pool.ssi cfg env m).1 := by
  rcases ssi_cases cfg env pool m with
    ⟨_, _, hpool⟩ | ⟨_, _, _, hpool⟩ | ⟨_, _, _, hcheck, hentry, hpool⟩
  · rw [hpool]
    exact h
  · rw [hpool]
    exact ⟨h.entries, h.final⟩
  · rw [hpool]
    have hnone : reuses pool m = false := by
      rw [letsReuse, hcheck, hentry] at hfresh
      exact hfresh
    have hadded : Distinct (pool.withEntry env m) :=
      ⟨withEntry_distinct cfg env hcheck hentry hnone h.entries, h.final⟩
    exact hadded.moves cfg (check_moves cfg env _)

/-- **One event** keeps outpoints apart, if it does not let one in again. -/
theorem Distinct.step (h : Distinct pool) (ev : Surroundings L × Event)
    (hfresh : ∀ m, ev.2 = .ssi m → letsReuse cfg ev.1 pool m = false) :
    Distinct (step cfg pool ev) := by
  obtain ⟨env, e⟩ := ev
  cases e with
  | ssa m =>
    obtain ⟨hfinal, ⟨hentries, _⟩ | ⟨hentries, _⟩⟩ := ssa_entries cfg env pool m
    · exact ⟨hentries ▸ h.entries, hfinal ▸ h.final⟩
    · exact ⟨hentries ▸ nodup_nil, hfinal ▸ h.final⟩
  | ssi m => exact h.ssi cfg env (hfresh m rfl)
  | sss m => exact h.sss cfg env m
  | check => exact h.moves cfg (check_moves cfg env pool)
  | checkTimeout => exact h.moves cfg (checkTimeout_moves cfg env pool)
  | checkForCompleteQueue =>
    exact h.moves cfg (checkForCompleteQueue_moves cfg env pool)

/-! ## §3. What is spent. -/

theorem check_full (hnode : cfg.fBlankNode = true) (hstate : pool.state = .ACCEPTING_ENTRIES)
    (hfull : (pool.entries.length : Int) ≥ getMaxPoolTransactions cfg)
    (hunsigned : pool.signaturesComplete = false) :
    (pool.check cfg env).finalTransaction = CZerosendPool.mixed env pool.entries := by
  have hset (newState : PoolStatus) (pool : CZerosendPool)
      (h : ¬ (newState = .ERROR ∨ newState = .SUCCESS)) :
      ∃ nTime, pool.updateState cfg env newState =
        { pool with lastTimeChanged := nTime, state := newState } :=
    (updateState_cases cfg env newState pool).resolve_left fun hended => h hended.1
  have hmixed : ∃ pool', CZerosendPool.checkFinalize cfg env (CZerosendPool.checkFull cfg env pool) =
      pool' ∧ pool'.state = .SIGNING ∧ pool'.entries = pool.entries ∧
      pool'.finalTransaction = CZerosendPool.mixed env pool.entries := by
    obtain ⟨nTime, hready⟩ := hset .FINALIZE_TRANSACTION pool (by decide)
    obtain ⟨nTime', hsigning⟩ :=
      hset .SIGNING { pool with lastTimeChanged := nTime, state := .FINALIZE_TRANSACTION }
        (by decide)
    rw [CZerosendPool.checkFull, if_pos ⟨hstate, hfull⟩, hready]
    rw [CZerosendPool.checkFinalize, if_pos rfl, hsigning, if_pos hnode]
    exact ⟨_, rfl, rfl, rfl, rfl⟩
  obtain ⟨pool', hpool', hsigning, hentries, hfinal⟩ := hmixed
  have hwaits : CZerosendPool.checkSigned cfg env pool' = pool' := by
    refine if_neg fun h => ?_
    unfold CZerosendPool.signaturesComplete at h hunsigned
    rw [hentries, hunsigned] at h
    exact false_ne_true h.2
  have hgoesOn : CZerosendPool.checkEnded env pool' = pool' := by
    refine if_neg fun h => ?_
    rw [hsigning] at h
    exact h.1.elim PoolStatus.noConfusion PoolStatus.noConfusion
  rw [CZerosendPool.check, hpool', hwaits, hgoesOn, hfinal]

/-- **The mixed transaction** spends no outpoint twice, in every run in which no reused outpoint
is let in; and it does as soon as it is made with one. -/
theorem mixed_distinct (evs : List (Surroundings L × Event))
    (hfresh : Along (step cfg)
      (fun pool ev => ∀ m, ev.2 = .ssi m → letsReuse cfg ev.1 pool m = false) newPool evs) :
    let pool := run (step cfg) newPool evs
    (pool.finalTransaction.vin.map CTxIn.prevout).Nodup ∧
      ∀ (env : Surroundings L) (m : Ssi), pool.state = .ACCEPTING_ENTRIES →
        (pool.entries.length : Int) + 1 ≥ getMaxPoolTransactions cfg →
        letsReuse cfg env pool m = true →
        ¬ ((pool.ssi cfg env m).1.finalTransaction.vin.map CTxIn.prevout).Nodup := by
  intro pool
  have hdistinct : Distinct pool :=
    run_invariant (I := Distinct) (fun _ ev h hev => h.step cfg ev hev)
      ⟨nodup_nil, nodup_nil⟩ hfresh
  refine ⟨hdistinct.final, fun env m hstate hfull hreuse => ?_⟩
  simp only [letsReuse, and_eq_true] at hreuse
  obtain ⟨⟨hcheck, hentry⟩, hreuses⟩ := hreuse
  obtain ⟨_, hcheck⟩ := accepts_iff.mp hcheck
  obtain ⟨_, hentry⟩ := accepts_iff.mp hentry
  have hnode := (ready_of_checkSsi cfg env hcheck).1
  have hpool : (pool.ssi cfg env m).1 = CZerosendPool.check cfg env (pool.withEntry env m) := by
    unfold CZerosendPool.ssi CZerosendPool.addEntry
    rw [hcheck, hentry, hnode]
    rfl
  have hlength : ((pool.withEntry env m).entries.length : Int) ≥ getMaxPoolTransactions cfg := by
    rw [CZerosendPool.withEntry, length_append, length_singleton]
    omega
  have hunsigned : (pool.withEntry env m).signaturesComplete = false := by
    obtain ⟨txin, hin, _⟩ := any_eq_true.mp hreuses
    refine all_eq_false.mpr ⟨CTxSSIn.ofTxIn txin, ?_, false_ne_true⟩
    unfold CZerosendPool.withEntry inputsOf CZeroSendEntry.add
    rw [flatMap_append, flatMap_singleton]
    exact mem_append_right _ (mem_map_of_mem hin)
  have haccepting : (pool.withEntry env m).state = .ACCEPTING_ENTRIES := hstate
  rw [hpool, check_full cfg env hnode haccepting hlength hunsigned]
  exact fun hnodup => withEntry_twice env hreuses ((mixed_perm env _).nodup_iff.mp hnodup)

def reuseRun : List (Surroundings Unit × Event) :=
  [mixingSsa, mixingSsa, (mixingEnv, .checkForCompleteQueue),
    (mixingEnv, .ssi (mixingSsi [mixingIn 1 0] 100)),
    (mixingEnv, .ssi (mixingSsi [mixingIn 1 1] 100))]

/-- **An outpoint spent twice**: both transactions are accepted. -/
theorem reuseRun_twice :
    (run (step mixingConfig) newPool reuseRun).state = .SIGNING ∧
      ¬ ((run (step mixingConfig) newPool reuseRun).finalTransaction.vin.map
        CTxIn.prevout).Nodup := by
  decide +kernel

/-- With one transaction only, nothing is reused yet. -/
theorem mixed_distinct_one :
    letsReuse mixingConfig mixingEnv (run (step mixingConfig) newPool (reuseRun.take 4))
        (mixingSsi [mixingIn 1 1] 100) = true ∧
      ¬ (((run (step mixingConfig) newPool (reuseRun.take 4)).ssi mixingConfig mixingEnv
        (mixingSsi [mixingIn 1 1] 100)).1.finalTransaction.vin.map CTxIn.prevout).Nodup := by
  have hreuse : letsReuse mixingConfig mixingEnv
      (run (step mixingConfig) newPool (reuseRun.take 4)) (mixingSsi [mixingIn 1 1] 100) = true := by
    decide +kernel
  have hfresh : Along (step mixingConfig)
      (fun pool ev => ∀ m, ev.2 = .ssi m → letsReuse mixingConfig ev.1 pool m = false) newPool
      (reuseRun.take 4) := by
    refine ⟨fun m h => ?_, fun m h => ?_, fun m h => ?_, fun m h => ?_, trivial⟩
    · cases h
    · cases h
    · cases h
    · cases h
      decide +kernel
  have hmixed := mixed_distinct mixingConfig (reuseRun.take 4) hfresh
  exact ⟨hreuse, hmixed.2 mixingEnv _ (by decide +kernel) (by decide +kernel) hreuse⟩

end Fantom.Zerosend
