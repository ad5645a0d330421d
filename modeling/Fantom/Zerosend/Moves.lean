/-
  Fantom.Zerosend.Moves — What can happen to a pool, said once.

  * `ssa_cases`, `ssi_cases`, `sss_cases` — what the three handlers do,
  * `check_moves`, `checkTimeout_moves` — the checks make moves of a few kinds only.
-/
import Fantom.Zerosend.Mixing

namespace Fantom.Zerosend

open Core Chain Lib Script Pool List Bool Relation

variable {L : Type} (cfg : Config) (env : Surroundings L)

/-! ## §1. Signatures. -/

variable (pool : CZerosendPool)

variable (item : CTxIn)

def freshScript : Bool :=
  !(inputsOf pool.entries).any fun s => s.scriptSig == item.scriptSig

/-- The pool with a signature put in: wherever it is named in the final transaction, and in the
first entry that takes it. -/
def CZerosendPool.signed : CZerosendPool :=
  { pool with
    finalTransaction := { pool.finalTransaction with
      vin := pool.finalTransaction.vin.map (signWith item) }
    entries := (addSigEntries item pool.entries).getD pool.entries }

/-- **No signature is verified**: the input it is for would have to have its script already. -/
theorem signatureValid_of_fresh {pool : CZerosendPool} {item : CTxIn}
    (h : freshScript pool item = true) :
    pool.signatureValid env item.scriptSig item = true := by
  rw [freshScript, not_eq_true', any_eq_false] at h
  have hnone : ((inputsOf pool.entries).zipIdx.filter fun p => p.1.toCTxIn.eqv item) = [] := by
    rw [filter_eq_nil_iff]
    intro p hp heqv
    have hmem : p.1 ∈ inputsOf pool.entries := (mem_zipIdx' hp).2 ▸ getElem_mem _
    simp only [CTxIn.eqv, and_eq_true] at heqv
    exact h p.1 hmem heqv.1.2
  unfold CZerosendPool.signatureValid
  dsimp only
  rw [hnone]
  rfl

/-- **`AddScriptSig`**: a new script is put in, and no other. -/
theorem addScriptSig_eq :
    (pool.addScriptSig env item).1 =
      if freshScript pool item then pool.signed item else pool := by
  unfold CZerosendPool.addScriptSig
  cases hfresh : freshScript pool item with
  | false =>
    rw [freshScript, not_eq_false'] at hfresh
    rw [if_pos hfresh]
    rfl
  | true =>
    have hvalid := signatureValid_of_fresh env hfresh
    rw [freshScript, not_eq_true'] at hfresh
    rw [hfresh, hvalid]
    unfold CZerosendPool.signed
    dsimp only
    cases addSigEntries item pool.entries <;> rfl

def inputKey (txin : CTxIn) : COutPoint × UInt32 := (txin.prevout, txin.nSequence)

theorem names_iff {item txin : CTxIn} : names item txin = true ↔ inputKey txin = inputKey item := by
  unfold names inputKey
  rw [and_eq_true, beq_iff_eq, beq_iff_eq, Prod.mk.injEq]

theorem inputKey_signWith (item txin : CTxIn) : inputKey (signWith item txin) = inputKey txin := by
  unfold signWith
  split <;> rfl

theorem inputsOf_cons (e : CZeroSendEntry) (entries : List CZeroSendEntry) :
    inputsOf (e :: entries) = e.sev ++ inputsOf entries := rfl

theorem addSigLoop_some {item : CTxIn} {sev sev' : List CTxSSIn}
    (h : addSigLoop item sev = some sev') :
    ∃ before s after, sev = before ++ s :: after ∧
      sev' = before ++ ⟨signWith item s.toCTxIn, true⟩ :: after ∧
      names item s.toCTxIn = true ∧ s.fHasSig = false := by
  induction sev generalizing sev' with
  | nil => cases h
  | cons s sev ih =>
    unfold addSigLoop at h
    split at h
    next hnamed =>
      split at h
      next => cases h
      next hunsigned =>
        cases h
        exact ⟨[], s, sev, rfl, rfl, hnamed, by rwa [not_eq_true] at hunsigned⟩
    next =>
      obtain ⟨sev'', hloop, rfl⟩ := Option.map_eq_some_iff.mp h
      obtain ⟨before, t, after, rfl, rfl, hnamed, hunsigned⟩ := ih hloop
      exact ⟨s :: before, t, after, rfl, rfl, hnamed, hunsigned⟩

theorem addSigEntries_some {item : CTxIn} {entries entries' : List CZeroSendEntry}
    (h : addSigEntries item entries = some entries') :
    ∃ before s after, inputsOf entries = before ++ s :: after ∧
      inputsOf entries' = before ++ ⟨signWith item s.toCTxIn, true⟩ :: after ∧
      names item s.toCTxIn = true ∧ s.fHasSig = false := by
  induction entries generalizing entries' with
  | nil => cases h
  | cons e entries ih =>
    unfold addSigEntries at h
    split at h
    next e' he =>
      cases h
      obtain ⟨sev, hsev, rfl⟩ := Option.map_eq_some_iff.mp he
      obtain ⟨before, s, after, hbefore, hafter, hnamed, hunsigned⟩ := addSigLoop_some hsev
      refine ⟨before, s, after ++ inputsOf entries, ?_, ?_, hnamed, hunsigned⟩
      · rw [inputsOf_cons, hbefore, append_assoc, cons_append]
      · rw [inputsOf_cons, hafter, append_assoc, cons_append]
    next =>
      obtain ⟨rest, hrest, rfl⟩ := Option.map_eq_some_iff.mp h
      obtain ⟨before, s, after, hbefore, hafter, hnamed, hunsigned⟩ := ih hrest
      refine ⟨e.sev ++ before, s, after, ?_, ?_, hnamed, hunsigned⟩
      · rw [inputsOf_cons, hbefore, append_assoc]
      · rw [inputsOf_cons, hafter, append_assoc]

theorem signed_keys : (inputsOf (pool.signed item).entries).map (fun s => inputKey s.toCTxIn) =
    (inputsOf pool.entries).map fun s => inputKey s.toCTxIn := by
  unfold CZerosendPool.signed
  dsimp only
  cases h : addSigEntries item pool.entries with
  | none => rfl
  | some entries' =>
    obtain ⟨before, s, after, hbefore, hafter, _⟩ := addSigEntries_some h
    rw [Option.getD_some, hbefore, hafter]
    simp only [map_append, map_cons, inputKey_signWith]

theorem signed_final_keys : (pool.signed item).finalTransaction.vin.map inputKey =
    pool.finalTransaction.vin.map inputKey := by
  unfold CZerosendPool.signed
  dsimp only
  rw [List.map_map]
  exact map_congr_left fun txin _ => inputKey_signWith item txin

/-! ## §2. Moves. -/

/-- One change to a pool that is not the work of `ssa` or `ssi`. -/
inductive Move : CZerosendPool → CZerosendPool → Prop where
  /-- `UpdateState`, with what it takes to get there. -/
  | updateState (env : Surroundings L) (newState : PoolStatus) {pool : CZerosendPool}
      (h : pool.entries = [] ∨
        pool.takesUsers = true ∧
          (newState = .ACCEPTING_ENTRIES ∨ newState = .FINALIZE_TRANSACTION) ∨
        pool.state = .SIGNING ∧ pool.signaturesComplete = true ∧ newState = .TRANSMISSION ∨
        cfg.fBlankNode = false) :
      Move pool (pool.updateState cfg env newState)
  /-- `SetNull`. -/
  | setNull (env : Surroundings L) (clearEverything : Bool) {pool : CZerosendPool} :
      Move pool (pool.setNull env clearEverything)
  /-- The final transaction is made. -/
  | finalize (env : Surroundings L) {pool : CZerosendPool}
      (h : pool.state = .FINALIZE_TRANSACTION) (hnode : cfg.fBlankNode = true) :
      Move pool { pool.updateState cfg env .SIGNING with
        finalTransaction :=
          CZerosendPool.mixed env (pool.updateState cfg env .SIGNING).entries }
  /-- An expired entry is dropped. -/
  | erase (env : Surroundings L) {pool : CZerosendPool} (h : pool.takesUsers = true) :
      Move pool { pool with entries := CZerosendPool.eraseExpired env.nNow pool.entries }
  /-- So is one of a client. -/
  | eraseMine (env : Surroundings L) {pool : CZerosendPool} :
      Move pool { pool with myEntries := CZerosendPool.eraseExpired env.nNow pool.myEntries }

/-- Any number of changes. -/
abbrev Moves : CZerosendPool → CZerosendPool → Prop := ReflTransGen (Move (L := L) cfg)

namespace CZerosendPool

theorem updateState_cases (newState : PoolStatus) (pool : CZerosendPool) :
    ((newState = .ERROR ∨ newState = .SUCCESS) ∧ pool.updateState cfg env newState = pool) ∨
      ∃ nTime, pool.updateState cfg env newState =
        { pool with lastTimeChanged := nTime, state := newState } := by
  unfold updateState
  split
  next hended =>
    rw [and_eq_true, or_eq_true, beq_iff_eq, beq_iff_eq] at hended
    exact .inl ⟨hended.2, rfl⟩
  next => exact .inr ⟨_, rfl⟩

theorem inputsOf_eraseExpired (nNow : Int64) (entries : List CZeroSendEntry) :
    (inputsOf (eraseExpired nNow entries)).Sublist (inputsOf entries) := by
  induction entries with
  | nil => exact List.Sublist.refl []
  | cons e entries ih =>
    rw [eraseExpired, inputsOf_cons]
    split
    · exact sublist_append_right e.sev (inputsOf entries)
    · rw [inputsOf_cons]
      exact ih.append_left e.sev

theorem setNull_moves (newState : PoolStatus) (clearEverything : Bool) (pool : CZerosendPool) :
    Moves (L := L) cfg pool (updateState cfg env newState (pool.setNull env clearEverything)) :=
  (ReflTransGen.single (Move.setNull env clearEverything)).tail
    (Move.updateState env newState (.inl rfl))

theorem checkFinalTransaction_moves :
    Moves (L := L) cfg pool (checkFinalTransaction cfg env pool) := by
  unfold checkFinalTransaction
  split
  next => exact ReflTransGen.refl
  split
  next => exact setNull_moves cfg env .ACCEPTING_ENTRIES false pool
  split
  next => exact ReflTransGen.refl
  next => exact ReflTransGen.single (Move.setNull env true)

theorem checkFull_moves : Moves (L := L) cfg pool (checkFull cfg env pool) := by
  unfold checkFull
  split
  next hfull =>
    refine ReflTransGen.single (Move.updateState env _ (.inr (.inl ⟨?_, .inr rfl⟩)))
    rw [takesUsers, hfull.1]
    rfl
  next => exact ReflTransGen.refl

theorem checkFinalize_moves : Moves (L := L) cfg pool (checkFinalize cfg env pool) := by
  unfold checkFinalize
  split
  next hfinalize =>
    dsimp only
    split
    next hnode =>
      exact ReflTransGen.single (Move.finalize env hfinalize hnode)
    next hclient =>
      rw [not_eq_true] at hclient
      exact ReflTransGen.single (Move.updateState env _ (.inr (.inr (.inr hclient))))
  next => exact ReflTransGen.refl

theorem checkSigned_moves : Moves (L := L) cfg pool (checkSigned cfg env pool) := by
  unfold checkSigned
  split
  next hsigned =>
    have htransmission : Move (L := L) cfg pool (updateState cfg env .TRANSMISSION pool) :=
      Move.updateState env _ (.inr (.inr (.inl ⟨hsigned.1, hsigned.2, rfl⟩)))
    exact (checkFinalTransaction_moves cfg env _).head htransmission
  next => exact ReflTransGen.refl

theorem checkEnded_moves : Moves (L := L) cfg pool (checkEnded env pool) := by
  unfold checkEnded
  split
  next => exact ReflTransGen.single (Move.setNull env true)
  next => exact ReflTransGen.refl

theorem check_moves : Moves (L := L) cfg pool (pool.check cfg env) :=
  (((checkFull_moves cfg env _).trans (checkFinalize_moves cfg env _)).trans
    (checkSigned_moves cfg env _)).trans (checkEnded_moves cfg env _)

theorem checkForCompleteQueue_moves :
    Moves (L := L) cfg pool (pool.checkForCompleteQueue cfg env) := by
  unfold checkForCompleteQueue
  split
  next => exact ReflTransGen.refl
  split
  next hqueue =>
    refine ReflTransGen.single (Move.updateState env _ (.inr (.inl ⟨?_, .inl rfl⟩)))
    rw [takesUsers, hqueue.1]
    rfl
  next => exact ReflTransGen.refl

theorem endIfEmpty_moves : Moves (L := L) cfg pool (endIfEmpty env pool) := by
  unfold endIfEmpty
  split
  next => exact ReflTransGen.single (Move.setNull env true)
  next => exact ReflTransGen.refl

theorem dropExpired_moves {pool : CZerosendPool} (h : pool.takesUsers = true) :
    Moves (L := L) cfg pool (dropExpired cfg env pool) := by
  unfold dropExpired
  split
  next =>
    split
    next => exact (endIfEmpty_moves cfg env _).head (Move.erase env h)
    next => exact ReflTransGen.refl
  next =>
    split
    next => exact (endIfEmpty_moves cfg env _).head (Move.eraseMine env)
    next => exact ReflTransGen.refl

theorem checkQueueTimeout_moves : Moves (L := L) cfg pool (checkQueueTimeout cfg env pool) := by
  unfold checkQueueTimeout
  split
  next htakes =>
    have hdrop := dropExpired_moves cfg env htakes
    dsimp only
    split
    next => exact hdrop.tail (Move.setNull env true)
    next => exact hdrop
  next =>
    split
    next => exact setNull_moves cfg env .ERROR false pool
    next => exact ReflTransGen.refl

theorem checkSigningTimeout_moves : Moves (L := L) cfg pool (checkSigningTimeout cfg env pool) := by
  unfold checkSigningTimeout
  split
  next => exact setNull_moves cfg env .ERROR false pool
  next => exact ReflTransGen.refl

theorem checkTimeout_moves : Moves (L := L) cfg pool (pool.checkTimeout cfg env) := by
  unfold checkTimeout
  split
  next => exact ReflTransGen.refl
  dsimp only
  split
  next =>
    exact ((check_moves cfg env pool).trans (checkQueueTimeout_moves cfg env _)).trans
      (checkSigningTimeout_moves cfg env _)
  next =>
    exact (checkQueueTimeout_moves cfg env pool).trans (checkSigningTimeout_moves cfg env _)

/-! ## §3. The handlers. -/

/-- The signatures of a message, one after another. -/
def signAll (sigs : List CTxIn) : CZerosendPool :=
  run (fun pool item => (pool.addScriptSig env item).1) pool sigs

theorem sss_cases (m : Sss) : pool.sss cfg env m = pool ∨ pool.sss cfg env m =
    pool.signAll env m.sigs ∨ pool.sss cfg env m = check cfg env (pool.signAll env m.sigs) := by
  have hitems (sigs : List CTxIn) (st : CZerosendPool × Bool) :
      (sigs.foldl (sssItem env) st).1 = st.1.signAll env sigs := by
    induction sigs generalizing st with
    | nil => rfl
    | cons item sigs ih => exact ih (sssItem env st item)
  unfold sss
  split
  next => exact .inl rfl
  dsimp only
  rw [hitems]
  split
  next => exact .inr (.inr rfl)
  next => exact .inr (.inl rfl)

def atLeastNone : CZerosendPool :=
  { pool with sessionUsers := max pool.sessionUsers 0 }

theorem atLeastNone_eq {pool : CZerosendPool} (h : 0 ≤ pool.sessionUsers) :
    pool.atLeastNone = pool := by
  rw [atLeastNone, max_eq_left h]

theorem ssa_cases (m : Ssa) : (((pool.ssa cfg env m).1 = pool ∨ (pool.ssa cfg env m).1 =
    pool.atLeastNone) ∧ ((pool.ssa cfg env m).2.accepted = 0 ∨ pool.sessionUsers = 0)) ∨
    (pool.atLeastNone.sessionUsers = 0 ∧ (pool.ssa cfg env m).2.accepted = 1 ∧
    (pool.ssa cfg env m).1 = pool.atLeastNone.openSession cfg env m.nDenom m.txCollateral) ∨
    (0 < pool.sessionUsers ∧
    pool.sessionUsers < getMaxPoolTransactions cfg ∧ (pool.ssa cfg env m).2.accepted = 1 ∧
    (pool.ssa cfg env m).1 = pool.atLeastNone.joinSession env m.txCollateral) := by
  unfold ssa
  split
  next => exact .inl ⟨.inl rfl, .inl rfl⟩
  split
  next => exact .inl ⟨.inl rfl, .inl rfl⟩
  split
  next => exact .inl ⟨.inl rfl, .inl rfl⟩
  split
  next hrecent => exact .inl ⟨.inl rfl, .inr hrecent.1⟩
  unfold isCompatibleWithSession
  dsimp only
  split
  next => exact .inl ⟨.inl rfl, .inl rfl⟩
  split
  next => exact .inl ⟨.inl rfl, .inl rfl⟩
  split
  next hzero => exact .inr (.inl ⟨hzero, rfl, rfl⟩)
  next hsome =>
    split
    next => exact .inl ⟨.inr rfl, .inl rfl⟩
    next hroom =>
      split
      next => exact .inl ⟨.inr rfl, .inl rfl⟩
      split
      next => exact .inl ⟨.inr rfl, .inl rfl⟩
      exact .inr (.inr ⟨by omega, by omega, rfl, rfl⟩)

theorem ssa_entries (m : Ssa) : (pool.ssa cfg env m).1.finalTransaction = pool.finalTransaction ∧
    (((pool.ssa cfg env m).1.entries = pool.entries ∧ (pool.ssa cfg env m).1.state = pool.state) ∨
    ((pool.ssa cfg env m).1.entries = [] ∧ (pool.ssa cfg env m).1.state = .QUEUE)) := by
  rcases ssa_cases cfg env pool m with ⟨h | h, _⟩ | ⟨_, _, h⟩ | ⟨_, _, _, h⟩
  · rw [h]
    exact ⟨rfl, .inl ⟨rfl, rfl⟩⟩
  · rw [h]
    exact ⟨rfl, .inl ⟨rfl, rfl⟩⟩
  · rw [h]
    unfold openSession
    rcases updateState_cases cfg env .QUEUE _ with ⟨hended, _⟩ | ⟨nTime, hqueue⟩
    · exact (hended.elim PoolStatus.noConfusion PoolStatus.noConfusion)
    · rw [hqueue]
      exact ⟨rfl, .inr ⟨rfl, rfl⟩⟩
  · rw [h]
    exact ⟨rfl, .inl ⟨rfl, rfl⟩⟩

/-- `AddEntry` refuses the transaction, which the handler has let through. -/
def refusedInAddEntry (m : Ssi) : Bool :=
  accepts (pool.checkSsi cfg env m) &&
    !accepts (pool.checkEntry cfg env m.vin m.nAmount m.txCollateral)

def withEntry (m : Ssi) : CZerosendPool :=
  { pool with entries := pool.entries ++
      [CZeroSendEntry.add env.nNow m.vin m.nAmount m.txCollateral m.vout] }

theorem ready_of_checkSsi {pool : CZerosendPool} {m : Ssi} {u : Unit}
    (h : pool.checkSsi cfg env m = .ok u) :
    cfg.fBlankNode = true ∧ getMaxPoolTransactions cfg ≤ pool.sessionUsers := by
  simp only [checkSsi, bind_eq_ok, rejectIf_eq_ok] at h
  obtain ⟨_, _, _, hnode, _, hready, _⟩ := h
  unfold isSessionReady at hready
  simp only [not_eq_false', decide_eq_true_eq] at hnode hready
  exact ⟨hnode, hready⟩

theorem ssi_cases (m : Ssi) :
    (pool.refusedInAddEntry cfg env m = false ∧ (pool.ssi cfg env m).2.accepted = 0 ∧
      (pool.ssi cfg env m).1 = pool) ∨
    (pool.refusedInAddEntry cfg env m = true ∧ (pool.ssi cfg env m).2.accepted = 0 ∧
      getMaxPoolTransactions cfg ≤ pool.sessionUsers ∧
      (pool.ssi cfg env m).1 = { pool with sessionUsers := pool.sessionUsers - 1 }) ∨
    (pool.refusedInAddEntry cfg env m = false ∧ (pool.ssi cfg env m).2.accepted = 1 ∧
      getMaxPoolTransactions cfg ≤ pool.sessionUsers ∧ pool.checkSsi cfg env m = .ok () ∧
      pool.checkEntry cfg env m.vin m.nAmount m.txCollateral = .ok () ∧
      (pool.ssi cfg env m).1 = check cfg env (pool.withEntry env m)) := by
  unfold ssi refusedInAddEntry
  cases hcheck : pool.checkSsi cfg env m with
  | error e => exact .inl ⟨rfl, rfl, rfl⟩
  | ok u =>
    obtain ⟨hnode, hready⟩ := ready_of_checkSsi cfg env hcheck
    rw [addEntry, hnode]
    cases hentry : pool.checkEntry cfg env m.vin m.nAmount m.txCollateral with
    | error e => exact .inr (.inl ⟨rfl, rfl, hready, rfl⟩)
    | ok u => exact .inr (.inr ⟨rfl, rfl, hready, rfl, rfl, rfl⟩)

end CZerosendPool

end Fantom.Zerosend
