/-
  Fantom.Zerosend.Signatures — The signatures of the mixed transaction.

  * `Signing` — the invariant: the inputs that have a signature verify,
  * `signatures_verify` — all signatures verify when the transaction is sent, as long as nothing
    else was put in.
-/
import Fantom.Zerosend.Session

namespace Fantom.Zerosend

open Core Chain Lib Script Pool List CZerosendPool

variable {L : Type} (cfg : Config) (env : Surroundings L)

/-! ## §1. What a signature is good for. -/

section

variable (E : SigEnv) (prevOut : COutPoint → CScript)

/-- `VerifyScript` of a script for input `i`, on the output that the input spends. -/
def inputVerifies (tx : CTransaction) (i : Nat) (o : COutPoint) (scriptSig : CScript) : Bool :=
  accepts (verifyScript E.scriptHashes (signatureChecker E tx i) poolFlags scriptSig (prevOut o))

def AllVerify (tx : CTransaction) : Prop :=
  ∀ i txin, tx.vin[i]? = some txin →
    inputVerifies E prevOut tx i txin.prevout txin.scriptSig = true

/-- The item names an input of the final transaction, and its script verifies at each that it
names. -/
def ItemVerifies (pool : CZerosendPool) (item : CTxIn) : Prop :=
  (∃ txin ∈ pool.finalTransaction.vin, names item txin = true) ∧
    ∀ i txin, pool.finalTransaction.vin[i]? = some txin → names item txin = true →
      inputVerifies E prevOut pool.finalTransaction i txin.prevout item.scriptSig = true

theorem forall_zipIdx {α : Type} {xs : List α} {P : Nat → α → Prop} :
    (∀ p ∈ xs.zipIdx, P p.2 p.1) ↔ ∀ i x, xs[i]? = some x → P i x := by
  constructor
  · intro h i x hx
    exact h (x, i) (mem_zipIdx_iff_getElem?.mpr hx)
  · intro h p hp
    exact h p.2 p.1 (mem_zipIdx_iff_getElem?.mp hp)

instance (tx : CTransaction) : Decidable (AllVerify E prevOut tx) :=
  decidable_of_iff _ (forall_zipIdx (P := fun i (txin : CTxIn) =>
    inputVerifies E prevOut tx i txin.prevout txin.scriptSig = true))

instance (pool : CZerosendPool) (item : CTxIn) : Decidable (ItemVerifies E prevOut pool item) :=
  decidable_of_iff (_ ∧ _) (and_congr_right fun _ => forall_zipIdx (P := fun i (txin : CTxIn) =>
    names item txin = true →
      inputVerifies E prevOut pool.finalTransaction i txin.prevout item.scriptSig = true))

theorem inputVerifies_signed (pool : CZerosendPool) (item : CTxIn) (i : Nat) (o : COutPoint)
    (scriptSig : CScript) :
    inputVerifies E prevOut (pool.signed item).finalTransaction i o scriptSig =
      inputVerifies E prevOut pool.finalTransaction i o scriptSig := by
  have hscripts : (pool.finalTransaction.vin.map (signWith item)).map forgetScripts =
      pool.finalTransaction.vin.map forgetScripts := by
    rw [map_map]
    refine map_congr_left fun txin _ => ?_
    rw [Function.comp_apply]
    unfold signWith
    split <;> rfl
  unfold inputVerifies CZerosendPool.signed
  dsimp only
  rw [signatureChecker_scripts E pool.finalTransaction _ i hscripts]

end

/-! ## §2. What is put in. -/

/-- The script of the item is new, and it is put into the final transaction or an entry. -/
def enters (pool : CZerosendPool) (item : CTxIn) : Bool :=
  freshScript pool item &&
    (pool.finalTransaction.vin.any (fun txin => signWith item txin != txin) ||
      (addSigEntries item pool.entries).isSome)

theorem addSigEntries_ne {item : CTxIn} {entries entries' : List CZeroSendEntry}
    (h : addSigEntries item entries = some entries') : entries' ≠ entries := by
  rintro rfl
  obtain ⟨before, s, after, hbefore, hafter, _, hunsigned⟩ := addSigEntries_some h
  have hsame := append_cancel_left (hbefore.symm.trans hafter)
  have hs := congrArg CTxSSIn.fHasSig (cons.inj hsame).1
  rw [hunsigned] at hs
  cases hs

/-- **What `AddScriptSig` changes**: whatever comes with a new script. -/
theorem addScriptSig_ne_iff (pool : CZerosendPool) (item : CTxIn) :
    (pool.addScriptSig env item).1 ≠ pool ↔ enters pool item = true := by
  have hvin : pool.finalTransaction.vin.map (signWith item) = pool.finalTransaction.vin ↔
      pool.finalTransaction.vin.any (fun txin => signWith item txin != txin) = false := by
    rw [any_eq_false]
    constructor
    · intro h txin hin
      obtain ⟨i, hi, rfl⟩ := getElem_of_mem hin
      have hget := congrArg (fun vin : List CTxIn => vin[i]?) h
      simp only [getElem?_map, getElem?_eq_getElem hi, Option.map_some,
        Option.some.injEq] at hget
      rw [hget, bne_self_eq_false]
      exact Bool.false_ne_true
    · intro h
      refine (map_congr_left fun txin hin => ?_).trans (map_id _)
      have hsame := h txin hin
      rwa [bne_iff_ne, ne_eq, not_not] at hsame
  rw [addScriptSig_eq]
  unfold enters
  cases hfresh : freshScript pool item with
  | false => exact ⟨fun h => absurd rfl h, fun h => by cases h⟩
  | true =>
    rw [if_pos rfl, Bool.true_and, Bool.or_eq_true, ne_eq, not_iff_comm, not_or,
      Bool.not_eq_true, Bool.not_eq_true, ← hvin]
    unfold CZerosendPool.signed
    constructor
    · rintro ⟨hfinal, hentries⟩
      rw [Option.isSome_eq_false_iff, Option.isNone_iff_eq_none] at hentries
      rw [hfinal, hentries]
      rfl
    · intro hsame
      have hfinal := congrArg (fun p : CZerosendPool => p.finalTransaction.vin) hsame
      have hentries := congrArg entries hsame
      refine ⟨hfinal, ?_⟩
      dsimp only at hentries
      cases hadd : addSigEntries item pool.entries with
      | none => rfl
      | some entries' =>
        rw [hadd, Option.getD_some] at hentries
        exact absurd hentries (addSigEntries_ne hadd)

theorem addScriptSig_cases (pool : CZerosendPool) (item : CTxIn) :
    enters pool item = false ∧ (pool.addScriptSig env item).1 = pool ∨
      enters pool item = true ∧ (pool.addScriptSig env item).1 = pool.signed item := by
  cases henters : enters pool item with
  | false =>
    have hnot := (addScriptSig_ne_iff env pool item).not.mpr (Bool.eq_false_iff.mp henters)
    exact .inl ⟨rfl, not_not.mp hnot⟩
  | true =>
    refine .inr ⟨rfl, ?_⟩
    unfold enters at henters
    rw [addScriptSig_eq, if_pos (Bool.and_eq_true_iff.mp henters).1]

/-! ## §3. The invariant. -/

variable (E : SigEnv) (prevOut : COutPoint → CScript)

def ValidItem (pool : CZerosendPool) (item : CTxIn) : Prop :=
  enters pool item = true → ItemVerifies E prevOut pool item

def keysOf (entries : List CZeroSendEntry) : List (COutPoint × UInt32) :=
  (inputsOf entries).map fun s => inputKey s.toCTxIn

/-- The invariant: without users there is nothing; before the transaction is made nothing is
signed; its inputs are inputs of the entries, where they are signed they verify, and once it is
sent they all do. -/
structure Signing (pool : CZerosendPool) : Prop where
  idle : pool.sessionUsers ≤ 0 → pool.entries = [] ∧ pool.finalTransaction.vin = []
  early : pool.state ≠ .SIGNING → pool.state ≠ .TRANSMISSION →
    pool.finalTransaction.vin = [] ∧ ∀ s ∈ inputsOf pool.entries, s.fHasSig = false
  named : ∀ txin ∈ pool.finalTransaction.vin, inputKey txin ∈ keysOf pool.entries
  valid : ∀ s ∈ inputsOf pool.entries, s.fHasSig = true →
    ∀ i txin, pool.finalTransaction.vin[i]? = some txin → inputKey txin = inputKey s.toCTxIn →
      inputVerifies E prevOut pool.finalTransaction i txin.prevout txin.scriptSig = true
  sent : pool.state = .TRANSMISSION → AllVerify E prevOut pool.finalTransaction

variable {E prevOut}

variable {pool : CZerosendPool}

theorem Signing.complete (h : Signing E prevOut pool) (hcomplete : pool.signaturesComplete = true) :
    AllVerify E prevOut pool.finalTransaction := by
  intro i txin hi
  obtain ⟨s, hs, hkey⟩ := mem_map.mp (h.named txin (mem_of_getElem? hi))
  unfold signaturesComplete at hcomplete
  exact h.valid s hs (all_eq_true.mp hcomplete s hs) i txin hi hkey.symm

theorem Signing.of_nil (hentries : pool.entries = []) (hfinal : pool.finalTransaction.vin = []) :
    Signing E prevOut pool where
  idle _ := ⟨hentries, hfinal⟩
  early _ _ := ⟨hfinal, by rw [hentries]; exact forall_mem_nil _⟩
  named := by rw [hfinal]; exact forall_mem_nil _
  valid s hs := by rw [hentries] at hs; cases hs
  sent _ i txin hi := by rw [hfinal] at hi; cases hi

theorem Signing.of_early
    (hidle : pool.sessionUsers ≤ 0 → pool.entries = [] ∧ pool.finalTransaction.vin = [])
    (hfinal : pool.finalTransaction.vin = [])
    (hunsigned : ∀ s ∈ inputsOf pool.entries, s.fHasSig = false) : Signing E prevOut pool where
  idle := hidle
  early _ _ := ⟨hfinal, hunsigned⟩
  named := by rw [hfinal]; exact forall_mem_nil _
  valid s hs hsigned := by rw [hunsigned s hs] at hsigned; cases hsigned
  sent _ i txin hi := by rw [hfinal] at hi; cases hi

theorem takesUsers_state (h : pool.takesUsers = true) :
    pool.state ≠ .SIGNING ∧ pool.state ≠ .TRANSMISSION := by
  rw [takesUsers, Bool.or_eq_true, beq_iff_eq, beq_iff_eq] at h
  rcases h with h | h
  · rw [h]
    decide
  · rw [h]
    decide

theorem Signing.move {pool' : CZerosendPool} (hnode : cfg.fBlankNode = true)
    (h : Signing E prevOut pool) (hmove : Move (L := L) cfg pool pool') :
    Signing E prevOut pool' := by
  cases hmove with
  | updateState env newState hguard =>
    rcases updateState_cases cfg env newState pool with ⟨_, hsame⟩ | ⟨nTime, hset⟩
    · rw [hsame]
      exact h
    rw [hset]
    rcases hguard with hempty | ⟨htakes, hready⟩ | ⟨hstate, hcomplete, rfl⟩ | hclient
    · -- no entries, so no input of the transaction either
      refine Signing.of_nil hempty (eq_nil_iff_forall_not_mem.mpr fun txin hin => ?_)
      have hkey := h.named txin hin
      rw [hempty] at hkey
      cases hkey
    · have hstate := takesUsers_state htakes
      obtain ⟨hfinal, hunsigned⟩ := h.early hstate.1 hstate.2
      exact Signing.of_early h.idle hfinal hunsigned
    · exact ⟨h.idle, fun _ hnot => absurd rfl hnot, h.named, h.valid,
        fun _ => h.complete hcomplete⟩
    · rw [hnode] at hclient
      cases hclient
  | setNull env clearEverything => exact Signing.of_nil rfl rfl
  | finalize env hstate _ =>
    rcases updateState_cases cfg env .SIGNING pool with
      ⟨hended, _⟩ | ⟨nTime, hset⟩
    · exact hended.elim PoolStatus.noConfusion PoolStatus.noConfusion
    rw [hset]
    have hearly := h.early (by rw [hstate]; decide) (by rw [hstate]; decide)
    have hperm := env.shuffleVin_perm (gathered env pool.entries).vin
    refine ⟨fun hnone => ?_, fun hnot => absurd rfl hnot, fun txin hin => ?_, ?_, ?_⟩
    · obtain ⟨hempty, _⟩ := h.idle hnone
      refine ⟨hempty, ?_⟩
      rw [gathered, hempty] at hperm
      unfold mixed gathered
      rw [hempty]
      exact perm_nil.mp hperm
    · obtain ⟨s, hs, rfl⟩ := mem_map.mp (hperm.subset hin)
      exact mem_map_of_mem (f := fun s : CTxSSIn => inputKey s.toCTxIn) hs
    · intro s hs hsigned
      rw [hearly.2 s hs] at hsigned
      cases hsigned
    · intro hsent
      cases hsent
  | erase env htakes =>
    have hstate := takesUsers_state htakes
    obtain ⟨hfinal, hunsigned⟩ := h.early hstate.1 hstate.2
    refine Signing.of_early (fun hnone => ⟨?_, hfinal⟩) hfinal fun s hs => hunsigned s ?_
    · dsimp only
      rw [(h.idle hnone).1]
      rfl
    · exact (inputsOf_eraseExpired env.nNow pool.entries).subset hs
  | eraseMine env => exact ⟨h.idle, h.early, h.named, h.valid, h.sent⟩

theorem Signing.moves {pool' : CZerosendPool} (hnode : cfg.fBlankNode = true)
    (h : Signing E prevOut pool) (hmoves : Moves (L := L) cfg pool pool') :
    Signing E prevOut pool' := by
  induction hmoves with
  | refl => exact h
  | tail _ hmove ih => exact ih.move cfg hnode hmove

/-- **An item** that is a signature, if it is put in, keeps the signatures in order. -/
theorem Signing.item (h : Signing E prevOut pool) {item : CTxIn}
    (hvalid : ValidItem E prevOut pool item) :
    Signing E prevOut (pool.addScriptSig env item).1 := by
  rcases addScriptSig_cases env pool item with ⟨_, hpool⟩ | ⟨henters, hpool⟩
  · rw [hpool]
    exact h
  obtain ⟨⟨named, hnamed, _⟩, hverifies⟩ := hvalid henters
  have hsome : pool.finalTransaction.vin ≠ [] := ne_nil_of_mem hnamed
  -- an input of the transaction is as before, or it has the script of the item
  have hinput (i : Nat) (txin' : CTxIn)
      (hi : (pool.signed item).finalTransaction.vin[i]? = some txin') :
      (∃ txin, pool.finalTransaction.vin[i]? = some txin ∧ names item txin = false ∧
        txin' = txin) ∨
      (names item txin' = true ∧ inputVerifies E prevOut (pool.signed item).finalTransaction i
        txin'.prevout txin'.scriptSig = true) := by
    rw [CZerosendPool.signed, getElem?_map] at hi
    obtain ⟨txin, htxin, rfl⟩ := Option.map_eq_some_iff.mp hi
    cases hitem : names item txin with
    | false =>
      refine .inl ⟨txin, htxin, hitem, ?_⟩
      rw [signWith, hitem, if_neg Bool.false_ne_true]
    | true =>
      have hput := hverifies i txin htxin hitem
      rw [← inputVerifies_signed] at hput
      refine .inr ⟨?_, ?_⟩
      · rw [names_iff, inputKey_signWith]
        exact names_iff.mp hitem
      · rw [signWith, if_pos hitem]
        exact hput
  rw [hpool]
  refine ⟨fun hnone => ?_, fun hstate hstate' => ?_, fun txin hin => ?_, ?_, ?_⟩
  · exact absurd (h.idle hnone).2 hsome
  · exact absurd (h.early hstate hstate').1 hsome
  · have hkey : inputKey txin ∈ (pool.signed item).finalTransaction.vin.map inputKey :=
      mem_map_of_mem hin
    rw [signed_final_keys] at hkey
    obtain ⟨old, hold, hsame⟩ := mem_map.mp hkey
    rw [keysOf, signed_keys, ← hsame]
    exact h.named old hold
  · intro s hs hsigned i txin' hi hkey
    rcases hinput i txin' hi with ⟨txin, htxin, hother, rfl⟩ | ⟨_, hgood⟩
    · -- the input is not named, so neither is the one of the entry
      rw [inputVerifies_signed]
      refine h.valid s ?_ hsigned i txin' htxin hkey
      unfold CZerosendPool.signed at hs
      dsimp only at hs
      cases hadd : addSigEntries item pool.entries with
      | none =>
        rw [hadd] at hs
        exact hs
      | some entries' =>
        obtain ⟨before, t, after, hbefore, hafter, ht, _⟩ := addSigEntries_some hadd
        rw [hadd, Option.getD_some, hafter, mem_append, mem_cons] at hs
        rw [hbefore, mem_append, mem_cons]
        rcases hs with hs | rfl | hs
        · exact .inl hs
        · have hitem := (hkey.trans (inputKey_signWith item t.toCTxIn)).trans (names_iff.mp ht)
          rw [names_iff.mpr hitem] at hother
          cases hother
        · exact .inr (.inr hs)
    · exact hgood
  · intro hsent i txin' hi
    rcases hinput i txin' hi with ⟨txin, htxin, _, rfl⟩ | ⟨_, hgood⟩
    · rw [inputVerifies_signed]
      exact h.sent hsent i txin' htxin
    · exact hgood

variable (E prevOut)

/-- Every item of the message that is put in is a signature, in the pool that it meets. -/
def ValidItems (pool : CZerosendPool) (m : Sss) : Prop :=
  Along (fun pool item => (pool.addScriptSig env item).1) (ValidItem E prevOut) pool m.sigs

variable {E prevOut}

theorem Signing.signAll (h : Signing E prevOut pool) {m : Sss}
    (hvalid : ValidItems env E prevOut pool m) : Signing E prevOut (pool.signAll env m.sigs) :=
  run_invariant (I := Signing E prevOut) (fun _ _ h hvalid => h.item env hvalid) h hvalid

theorem Signing.ssa (h : Signing E prevOut pool) (m : Ssa) :
    Signing E prevOut (pool.ssa cfg env m).1 := by
  have hatLeast : Signing E prevOut pool.atLeastNone := by
    refine ⟨fun hnone => h.idle ?_, h.early, h.named, h.valid, h.sent⟩
    unfold atLeastNone at hnone
    exact (le_max_left _ _).trans hnone
  rcases ssa_cases cfg env pool m with
    ⟨hpool | hpool, _⟩ | ⟨hzero, _, hpool⟩ | ⟨hpos, _, _, hpool⟩
  · rw [hpool]
    exact h
  · rw [hpool]
    exact hatLeast
  · rw [hpool]
    have hfinal := (hatLeast.idle (Int.le_of_eq hzero)).2
    unfold openSession
    rcases updateState_cases cfg env .QUEUE _ with ⟨hended, _⟩ | ⟨nTime, hqueue⟩
    · exact hended.elim PoolStatus.noConfusion PoolStatus.noConfusion
    · rw [hqueue]
      exact Signing.of_nil rfl hfinal
  · rw [hpool]
    refine ⟨fun hnone => ?_, h.early, h.named, h.valid, h.sent⟩
    unfold joinSession atLeastNone at hnone
    dsimp only at hnone
    omega

theorem Signing.withEntry (h : Signing E prevOut pool) (m : Ssi)
    (hready : getMaxPoolTransactions cfg ≤ pool.sessionUsers) :
    Signing E prevOut (pool.withEntry env m) := by
  have hmax := two_le_max cfg
  have hinputs : inputsOf (pool.withEntry env m).entries =
      inputsOf pool.entries ++ m.vin.map CTxSSIn.ofTxIn := by
    unfold CZerosendPool.withEntry inputsOf CZeroSendEntry.add
    rw [flatMap_append, flatMap_singleton]
  have hold {s : CTxSSIn} (hs : s ∈ inputsOf (pool.withEntry env m).entries) :
      s ∈ inputsOf pool.entries ∨ s.fHasSig = false := by
    rw [hinputs, mem_append] at hs
    refine hs.imp_right fun hnew => ?_
    obtain ⟨txin, _, rfl⟩ := mem_map.mp hnew
    rfl
  refine ⟨fun hnone => ?_, fun hstate hstate' => ?_, fun txin hin => ?_, ?_, h.sent⟩
  · unfold CZerosendPool.withEntry at hnone
    dsimp only at hnone
    omega
  · obtain ⟨hfinal, hunsigned⟩ := h.early hstate hstate'
    exact ⟨hfinal, fun s hs => (hold hs).elim (hunsigned s) id⟩
  · rw [keysOf, hinputs, map_append]
    exact mem_append_left _ (h.named txin hin)
  · intro s hs hsigned
    rcases hold hs with hs | hunsigned
    · exact h.valid s hs hsigned
    · rw [hunsigned] at hsigned
      cases hsigned

theorem Signing.ssi (hnode : cfg.fBlankNode = true) (h : Signing E prevOut pool) (m : Ssi) :
    Signing E prevOut (pool.ssi cfg env m).1 := by
  have hmax := two_le_max cfg
  rcases ssi_cases cfg env pool m with
    ⟨_, _, hpool⟩ | ⟨_, _, hready, hpool⟩ | ⟨_, _, hready, _, _, hpool⟩
  · rw [hpool]
    exact h
  · rw [hpool]
    refine ⟨fun hnone => ?_, h.early, h.named, h.valid, h.sent⟩
    dsimp only at hnone
    omega
  · rw [hpool]
    exact (h.withEntry cfg env m hready).moves cfg hnode (check_moves cfg env _)

variable (E prevOut)

/-- What an `sss` puts in are signatures. -/
def ValidEvent (pool : CZerosendPool) (ev : Surroundings L × Event) : Prop :=
  ∀ m, ev.2 = .sss m → ValidItems ev.1 E prevOut pool m

variable {E prevOut}

/-- **One event** keeps the signatures in order. -/
theorem Signing.step (hnode : cfg.fBlankNode = true) (h : Signing E prevOut pool)
    (ev : Surroundings L × Event) (hvalid : ValidEvent E prevOut pool ev) : Signing E prevOut
    (step cfg pool ev) := by
  obtain ⟨env, e⟩ := ev
  cases e with
  | ssa m => exact h.ssa cfg env m
  | ssi m => exact h.ssi cfg env hnode m
  | sss m =>
    have hsigned := h.signAll env (hvalid m rfl)
    show Signing E prevOut (pool.sss cfg env m)
    rcases sss_cases cfg env pool m with hpool | hpool | hpool
    · rw [hpool]
      exact h
    · rw [hpool]
      exact hsigned
    · rw [hpool]
      exact hsigned.moves cfg hnode (check_moves cfg env _)
  | check => exact h.moves cfg hnode (check_moves cfg env pool)
  | checkTimeout => exact h.moves cfg hnode (checkTimeout_moves cfg env pool)
  | checkForCompleteQueue =>
    exact h.moves cfg hnode (checkForCompleteQueue_moves cfg env pool)

/-! ## §4. The transaction that is sent. -/

variable (E prevOut)

/-- **What is signed.**  Whatever state the pool is in, an item is only put in with a signature
exactly if it is not put in or is a signature.  If that is so of all items of a run and of the
next message, then every input verifies when all have signed, and after that. -/
theorem signatures_verify (hnode : cfg.fBlankNode = true)
    (evs : List (Surroundings L × Event)) :
    (∀ (env : Surroundings L) (pool : CZerosendPool) (item : CTxIn),
      ((pool.addScriptSig env item).1 ≠ pool → ItemVerifies E prevOut pool item) ↔
        enters pool item = false ∨ ItemVerifies E prevOut pool item) ∧
    (Along (step cfg) (ValidEvent E prevOut) newPool evs →
      ∀ (env : Surroundings L) (m : Sss),
        ValidItems env E prevOut (run (step cfg) newPool evs) m →
        let pool := (run (step cfg) newPool evs).signAll env m.sigs
        pool.state = .SIGNING ∧ pool.signaturesComplete = true ∨ pool.state = .TRANSMISSION →
          AllVerify E prevOut pool.finalTransaction) := by
  constructor
  · intro env pool item
    rw [addScriptSig_ne_iff]
    cases enters pool item with
    | false => exact ⟨fun _ => .inl rfl, fun _ h => by cases h⟩
    | true => exact ⟨fun h => .inr (h rfl), fun h _ => h.resolve_left Bool.noConfusion⟩
  · intro hvalid env m hitems pool hstate
    have hnew : Signing E prevOut newPool := Signing.of_nil rfl rfl
    have hrun : Signing E prevOut (run (step cfg) newPool evs) :=
      run_invariant (I := Signing E prevOut) (fun _ ev h hev => h.step cfg hnode ev hev) hnew hvalid
    have hsigned : Signing E prevOut pool := hrun.signAll env hitems
    rcases hstate with ⟨_, hcomplete⟩ | htransmission
    · exact hsigned.complete hcomplete
    · exact hsigned.sent htransmission

/-! ## §5. Two sample messages. -/

def mixingRun : List (Surroundings Unit × Event) :=
  [mixingSsa, mixingSsa, (mixingEnv, .checkForCompleteQueue),
    (mixingEnv, .ssi (mixingSsi [mixingIn 1 0] 100)),
    (mixingEnv, .ssi (mixingSsi [mixingIn 2 0] 100))]

def garbageItem (n : UInt32) : CTxIn :=
  { mixingIn n 0 with scriptSig := replicate n.toNat OP_RETURN }

def mixingOut (_ : COutPoint) : CScript := (keyHashOut (COIN + 1000)).scriptPubKey

def mixingSigEnv : SigEnv :=
  { sampleSigEnv with
    scriptHashes := { sampleScriptHashes with
      hash160 := fun _ => BitVec.ofNat 160 (ofLEBytes (replicate 20 7)) }
    verify := fun _ hash sig =>
      sig == [0x30, 6, 2, 1, 5, 2, 1, UInt8.ofNat (hash.toNat % 100 + 1)] }

def signedItem (nIn : Nat) (n : UInt32) : CTxIn :=
  let tx := (run (step mixingConfig) newPool mixingRun).finalTransaction
  let hash := signatureHash sampleHashes (mixingOut (mixingIn n 0).prevout) tx nIn 1
  { mixingIn n 0 with
    scriptSig :=
      CScript.push [0x30, 6, 2, 1, 5, 2, 1, UInt8.ofNat (hash.toNat % 100 + 1), SIGHASH_ALL] ++
        CScript.push (2 :: replicate 32 5) }

/-- The memory pool takes what verifies. -/
def mixingEnvVerifying : Surroundings Unit :=
  { mixingEnv with finalAccepted := fun tx => decide (AllVerify mixingSigEnv mixingOut tx) }

/-- **Garbage is put in**, and makes the transaction complete, so it is on its way to the memory
pool; that refuses it, and the session is over for all. -/
theorem garbage_completes :
    let pool := run (step mixingConfig) newPool mixingRun
    let items := [garbageItem 1, garbageItem 2]
    let complete := pool.signAll mixingEnvVerifying items
    let left := step mixingConfig pool (mixingEnvVerifying, .sss ⟨60020, items⟩)
    pool.state = .SIGNING ∧ (pool.addScriptSig mixingEnvVerifying (garbageItem 1)).1 ≠ pool ∧
      ¬ ItemVerifies mixingSigEnv mixingOut pool (garbageItem 1) ∧
      complete.signaturesComplete = true ∧
      (complete.updateState mixingConfig mixingEnvVerifying .TRANSMISSION).state = .TRANSMISSION ∧
      ¬ AllVerify mixingSigEnv mixingOut complete.finalTransaction ∧
      left.state = .ACCEPTING_ENTRIES ∧ pool.entries.length = 2 ∧ left.entries = [] := by
  decide +kernel

/-- Garbage is put in though it is no signature; two signatures make a transaction whose inputs
all verify. -/
theorem signatures_verify_mixing :
    ¬ (((run (step mixingConfig) newPool mixingRun).addScriptSig mixingEnv (garbageItem 1)).1 ≠
        run (step mixingConfig) newPool mixingRun →
        ItemVerifies mixingSigEnv mixingOut (run (step mixingConfig) newPool mixingRun)
          (garbageItem 1)) ∧
      AllVerify mixingSigEnv mixingOut
        ((run (step mixingConfig) newPool mixingRun).signAll mixingEnv
          [signedItem 0 1, signedItem 1 2]).finalTransaction := by
  have hnode : mixingConfig.fBlankNode = true := rfl
  obtain ⟨hitem, hverify⟩ :=
    signatures_verify (L := Unit) mixingConfig mixingSigEnv mixingOut hnode mixingRun
  constructor
  · intro hclaimed
    exact absurd ((hitem mixingEnv _ (garbageItem 1)).mp hclaimed) (by decide +kernel)
  · have hrun : Along (step mixingConfig) (ValidEvent mixingSigEnv mixingOut) newPool mixingRun := by
      refine ⟨fun m h => ?_, fun m h => ?_, fun m h => ?_, fun m h => ?_, fun m h => ?_, trivial⟩ <;>
        cases h
    have hitems : ValidItems mixingEnv mixingSigEnv mixingOut
        (run (step mixingConfig) newPool mixingRun)
        ⟨60020, [signedItem 0 1, signedItem 1 2]⟩ :=
      ⟨fun _ => by decide +kernel, fun _ => by decide +kernel, trivial⟩
    have hall := hverify hrun mixingEnv ⟨60020, [signedItem 0 1, signedItem 1 2]⟩ hitems
    dsimp only at hall
    exact hall (.inl (by decide +kernel))

end Fantom.Zerosend
