/-
  Fantom.Net.Alert — Alerts: which of them a node keeps, and what it warns of.

  * `processAlert` — one alert that arrives, `getWarnings` — what is shown,
  * `tidy_run` — no alert that is kept is cancelled by another one,
  * `compromised_iff` — the alert for a compromised key stands until one overrides it.

  The loop that cancels comes before the test whether the alert itself is cancelled, so that an
  alert which is refused has deleted others, and one that cancels those it is cancelled by is not
  refused.
-/
import Fantom.Core.Signer
import Fantom.Core.Wire
import Fantom.Lib.Runs

namespace Fantom.Net

open Core Lib List

/-! ## §1. Alerts. -/

/-- `CUnsignedAlert` -/
structure CUnsignedAlert where
  nVersion : Int32
  nRelayUntil : Int64
  nExpiration : Int64
  nID : Int32
  nCancel : Int32
  setCancel : StdSet Int32
  nMinVer : Int32
  nMaxVer : Int32
  setSubVer : StdSet (List UInt8)
  nPriority : Int32
  strComment : List UInt8
  strStatusBar : List UInt8
  strReserved : List UInt8

structure CAlert extends CUnsignedAlert where
  vchMsg : List UInt8
  vchSig : List UInt8

/-- `LIMITED_STRING` -/
def readLimitedString (limit : Nat) : Reader UInt8 (List UInt8) := do
  let size ← readCompactSize
  if size > limit then failure else readTake size

/-- `CUnsignedAlert::Unserialize` -/
def readUnsignedAlert : Reader UInt8 CUnsignedAlert := do
  let nVersion ← readInt32
  let nRelayUntil ← readInt64
  let nExpiration ← readInt64
  let nID ← readInt32
  let nCancel ← readInt32
  let setCancel ← unserializeVector readInt32
  let nMinVer ← readInt32
  let nMaxVer ← readInt32
  let setSubVer ← unserializeVector unserializeBytes
  let nPriority ← readInt32
  let strComment ← readLimitedString 65536
  let strStatusBar ← readLimitedString 256
  let strReserved ← readLimitedString 256
  return ⟨nVersion, nRelayUntil, nExpiration, nID, nCancel,
    setCancel.foldl (fun m n => m.insert n) ∅, nMinVer, nMaxVer,
    setSubVer.foldl (fun m s => m.insert s) ∅, nPriority, strComment, strStatusBar, strReserved⟩

def PROTOCOL_VERSION : Int32 := 60050

def maxInt : Int32 := 2147483647

/-- The text of the alert for a compromised key. -/
def urgent : List UInt8 :=
  textBytes "URGENT: Alert key compromised, upgrade required".toList

structure AlertEnv where
  hash : List UInt8 → UInt256
  /-- `Verify` of the alert key. -/
  verify : UInt256 → List UInt8 → Bool
  /-- `FormatSubVersion` of this node. -/
  strSubVer : List UInt8
  /-- The warning of a build that is no release. -/
  strPreRelease : List UInt8

namespace CAlert

variable (nAdjustedTime : Int64)

def isInEffect (alert : CAlert) : Bool :=
  decide (nAdjustedTime < alert.nExpiration)

/-- The part of `Cancels` without the time. -/
def covers (this : CAlert) (nID : Int32) : Bool :=
  decide (nID ≤ this.nCancel) || this.setCancel.contains nID

def cancels (this alert : CAlert) : Bool :=
  this.isInEffect nAdjustedTime && this.covers alert.nID

def appliesTo (nVersion : Int32) (strSubVer : List UInt8) (alert : CAlert) : Bool :=
  alert.isInEffect nAdjustedTime && decide (alert.nMinVer ≤ nVersion) &&
    decide (nVersion ≤ alert.nMaxVer) &&
      (alert.setSubVer.isEmpty || alert.setSubVer.contains strSubVer)

/-- What an alert of the reserved number has to be. -/
structure Reserved (alert : CAlert) : Prop where
  nExpiration : alert.nExpiration = 2147483647
  nCancel : alert.nCancel = maxInt - 1
  nMinVer : alert.nMinVer = 0
  nMaxVer : alert.nMaxVer = maxInt
  setSubVer : alert.setSubVer.isEmpty = true
  nPriority : alert.nPriority = maxInt
  strStatusBar : alert.strStatusBar = urgent

instance (alert : CAlert) : Decidable alert.Reserved :=
  decidable_of_iff (alert.nExpiration = 2147483647 ∧ alert.nCancel = maxInt - 1 ∧
      alert.nMinVer = 0 ∧ alert.nMaxVer = maxInt ∧ alert.setSubVer.isEmpty = true ∧
      alert.nPriority = maxInt ∧ alert.strStatusBar = urgent)
    ⟨fun ⟨h₁, h₂, h₃, h₄, h₅, h₆, h₇⟩ => ⟨h₁, h₂, h₃, h₄, h₅, h₆, h₇⟩,
      fun ⟨h₁, h₂, h₃, h₄, h₅, h₆, h₇⟩ => ⟨h₁, h₂, h₃, h₄, h₅, h₆, h₇⟩⟩

end CAlert

abbrev AlertMap := StdMap UInt256 CAlert

/-- An alert that is received, and the time then. -/
structure AlertMessage where
  vchMsg : List UInt8
  vchSig : List UInt8
  nAdjustedTime : Int64

variable (env : AlertEnv)

/-- `ProcessAlert` up to the lock: the alert, if it goes on; none for an exception of the stream. -/
def checkAlert (msg : AlertMessage) : Option (Option CAlert) :=
  if !env.verify (env.hash msg.vchMsg) msg.vchSig then some none
  else do
    let (alert, _) ← readUnsignedAlert msg.vchMsg
    let this : CAlert := ⟨alert, msg.vchMsg, msg.vchSig⟩
    if !this.isInEffect msg.nAdjustedTime then some none
    else if this.nID = maxInt ∧ ¬ this.Reserved then some none
    else some (some this)

/-- What the loop over `mapAlerts` leaves. -/
def keptBy (this : CAlert) (nAdjustedTime : Int64) (mapAlerts : AlertMap) : AlertMap :=
  mapAlerts.filter fun _ alert =>
    !this.cancels nAdjustedTime alert && alert.isInEffect nAdjustedTime

/-- `CAlert::ProcessAlert`.  The notifications are left out. -/
def processAlert (mapAlerts : AlertMap) (msg : AlertMessage) : Option Bool × AlertMap :=
  match checkAlert env msg with
  | none => (none, mapAlerts)
  | some none => (some false, mapAlerts)
  | some (some this) =>
    let mapAlerts := keptBy this msg.nAdjustedTime mapAlerts
    if mapAlerts.toList.any fun item => item.2.cancels msg.nAdjustedTime this then
      (some false, mapAlerts)
    else (some true, mapAlerts.insertIfNew (env.hash msg.vchMsg) this)

def alertStep (mapAlerts : AlertMap) (msg : AlertMessage) : AlertMap :=
  (processAlert env mapAlerts msg).2

/-- `GetWarnings`: the texts for the status bar and for RPC. -/
def getWarnings (nAdjustedTime : Int64) (fTestSafeMode : Bool) (strMiscWarning : List UInt8)
    (mapAlerts : AlertMap) : List UInt8 × List UInt8 :=
  let strRPC := if fTestSafeMode then textBytes "test".toList else []
  let start : Int32 × List UInt8 × List UInt8 :=
    if strMiscWarning ≠ [] then (1000, strMiscWarning, strRPC) else (0, env.strPreRelease, strRPC)
  (mapAlerts.foldl (fun r _ alert =>
    if alert.appliesTo nAdjustedTime PROTOCOL_VERSION env.strSubVer ∧ alert.nPriority > r.1 then
      (alert.nPriority, alert.strStatusBar, if alert.nPriority > 1000 then alert.strStatusBar
        else r.2.2)
    else r) start).2

/-! ## §2. One alert. -/

variable {env} {m : AlertMap} {msg : AlertMessage} {msgs : List AlertMessage} {this a : CAlert}
  {t : Int64} {hash : UInt256}

/-- An alert that gets to the loop over `mapAlerts`. -/
structure Admitted (env : AlertEnv) (msg : AlertMessage) (this : CAlert) : Prop where
  signed : this.vchMsg = msg.vchMsg ∧ env.verify (env.hash this.vchMsg) this.vchSig = true
  isInEffect : this.isInEffect msg.nAdjustedTime = true
  reserved : this.nID = maxInt → this.Reserved

theorem admitted_of_check (h : checkAlert env msg = some (some this)) : Admitted env msg this := by
  unfold checkAlert at h
  split at h
  next => cases h
  next hverify =>
    obtain ⟨⟨alert, rest⟩, -, h⟩ := Option.bind_eq_some_iff.mp h
    dsimp only at h
    split at h
    next => cases h
    next heffect =>
      split at h
      next => cases h
      next hreserved =>
        cases h
        refine ⟨⟨rfl, by simpa using hverify⟩, by simpa using heffect, fun hid => ?_⟩
        exact Decidable.not_not.mp fun hno => hreserved ⟨hid, hno⟩

theorem get_keptBy (hthis : this.isInEffect t = true) : (keptBy this t m)[hash]? = some a ↔
    m[hash]? = some a ∧ this.covers a.nID = false ∧ a.isInEffect t = true := by
  rw [keptBy, Std.ExtTreeMap.getElem?_filter', Option.filter_eq_some_iff]
  simp [CAlert.cancels, hthis]

theorem any_cancels_iff (h : ∀ (hash : UInt256) a, m[hash]? = some a → a.isInEffect t = true) :
    (m.toList.any fun item => item.2.cancels t this) = true ↔
      ∃ (hash : UInt256) (a : CAlert), m[hash]? = some a ∧ a.covers this.nID = true := by
  rw [any_eq_true]
  constructor
  · intro ⟨⟨hash, a⟩, hitem, hcancels⟩
    refine ⟨hash, a, Std.ExtTreeMap.mem_toList_iff_getElem?_eq_some.mp hitem, ?_⟩
    exact (Bool.and_eq_true_iff.mp hcancels).2
  · intro ⟨hash, a, hget, hcovers⟩
    refine ⟨⟨hash, a⟩, Std.ExtTreeMap.mem_toList_iff_getElem?_eq_some.mpr hget, ?_⟩
    exact Bool.and_eq_true_iff.mpr ⟨h hash a hget, hcovers⟩

/-- **What one message does**: nothing; or its alert goes over the others, and is refused if one
that is left covers it, else added. -/
theorem alertStep_cases (env : AlertEnv) (m : AlertMap) (msg : AlertMessage) :
    (alertStep env m msg = m ∧ ∀ this, checkAlert env msg ≠ some (some this)) ∨
      ∃ this, checkAlert env msg = some (some this) ∧
        (((∃ (hash : UInt256) (a : CAlert), (keptBy this msg.nAdjustedTime m)[hash]? = some a ∧
            a.covers this.nID = true) ∧ alertStep env m msg = keptBy this msg.nAdjustedTime m) ∨
          (∀ (hash : UInt256) (a : CAlert), (keptBy this msg.nAdjustedTime m)[hash]? = some a →
            a.covers this.nID = false) ∧
          alertStep env m msg =
            (keptBy this msg.nAdjustedTime m).insertIfNew (env.hash msg.vchMsg) this) := by
  unfold alertStep processAlert
  rcases hcheck : checkAlert env msg with _ | _ | this
  · exact .inl ⟨rfl, fun this h => nomatch h⟩
  · exact .inl ⟨rfl, fun this h => nomatch h⟩
  · have heffect := (admitted_of_check hcheck).isInEffect
    have hany := @any_cancels_iff (keptBy this msg.nAdjustedTime m) this _
      fun hash a hget => ((get_keptBy heffect).mp hget).2.2
    refine .inr ⟨this, rfl, ?_⟩
    dsimp only
    split
    next hcancelled => exact .inl ⟨hany.mp hcancelled, rfl⟩
    next hfree =>
      refine .inr ⟨fun hash a hget => ?_, rfl⟩
      exact Bool.eq_false_iff.mpr fun hcovers => hfree (hany.mpr ⟨hash, a, hget, hcovers⟩)

/-! ## §3. The alerts that are kept. -/

/-- Every alert is signed, under its hash, and not cancelled by another one. -/
structure Tidy (env : AlertEnv) (m : AlertMap) : Prop where
  hash : ∀ (hash : UInt256) (a : CAlert), m[hash]? = some a →
    env.hash a.vchMsg = hash ∧ env.verify hash a.vchSig = true
  uncovered : ∀ (hash hash' : UInt256) (a b : CAlert), m[hash]? = some a → m[hash']? = some b →
    hash ≠ hash' → a.covers b.nID = false

theorem tidy_keptBy (h : Tidy env m) (hthis : this.isInEffect t = true) :
    Tidy env (keptBy this t m) where
  hash hash a hget := h.hash hash a ((get_keptBy hthis).mp hget).1
  uncovered hash hash' a b hget hget' :=
    h.uncovered hash hash' a b ((get_keptBy hthis).mp hget).1 ((get_keptBy hthis).mp hget').1

theorem get_insertIfNew (m : AlertMap) (hash key : UInt256) (this : CAlert) :
    (m.insertIfNew hash this)[key]? = if hash = key ∧ ¬ hash ∈ m then some this else m[key]? := by
  rw [Std.ExtTreeMap.getElem?_insertIfNew]
  simp

/-- **No alert that is kept is cancelled by another one**, whatever comes at what time. -/
theorem tidy_run (env : AlertEnv) (msgs : List AlertMessage) :
    Tidy env (run (alertStep env) ∅ msgs) := by
  apply run_invariant (P := fun _ _ => True) ?_ ?_ (along_of_forall (fun _ _ => trivial) _ _)
  · intro m msg h _
    obtain ⟨hstep, -⟩ | ⟨this, hcheck, ⟨-, hstep⟩ | ⟨hfree, hstep⟩⟩ := alertStep_cases env m msg
    · rw [hstep]
      exact h
    · rw [hstep]
      exact tidy_keptBy h (admitted_of_check hcheck).isInEffect
    have hthis := admitted_of_check hcheck
    have hkept := tidy_keptBy h hthis.isInEffect
    rw [hstep]
    constructor
    · intro hash a hget
      rw [get_insertIfNew] at hget
      split at hget
      next hnew =>
        cases hget
        rw [← hnew.1, ← hthis.signed.1]
        exact ⟨rfl, hthis.signed.2⟩
      next => exact hkept.hash hash a hget
    · intro hash hash' a b hget hget' hne
      rw [get_insertIfNew] at hget hget'
      split at hget
      next hnew =>
        split at hget'
        next hnew' => exact absurd (hnew.1.symm.trans hnew'.1) hne
        next =>
          cases hget
          exact ((get_keptBy hthis.isInEffect).mp hget').2.1
      next =>
        split at hget'
        next =>
          cases hget'
          exact hfree hash a hget
        next => exact hkept.uncovered hash hash' a b hget hget' hne
  · constructor
    · intro hash a hget
      cases StdMap.get_empty (V := CAlert) hash ▸ hget
    · intro hash hash' a b hget
      cases StdMap.get_empty (V := CAlert) hash ▸ hget

/-! ## §4. The alert for a compromised key. -/

/-- Only alerts of the reserved number are kept, and there is one. -/
structure Compromised (m : AlertMap) : Prop where
  final : ∃ (hash : UInt256) (a : CAlert), m[hash]? = some a
  reserved : ∀ (hash : UInt256) (a : CAlert), m[hash]? = some a → a.nID = maxInt ∧ a.Reserved

/-- An alert with another number that cancels the reserved one, or comes when that has expired. -/
def Overrides (env : AlertEnv) (msg : AlertMessage) : Prop :=
  ∃ this, checkAlert env msg = some (some this) ∧ this.nID ≠ maxInt ∧
    (this.covers maxInt = true ∨ 2147483647 ≤ msg.nAdjustedTime)

theorem CAlert.Reserved.isInEffect_iff (h : a.Reserved) :
    a.isInEffect t = true ↔ ¬ 2147483647 ≤ t := by
  rw [CAlert.isInEffect, h.nExpiration, decide_eq_true_eq, Int64.not_le]

theorem CAlert.Reserved.covers (h : a.Reserved) {nID : Int32} (hid : nID ≠ maxInt) :
    a.covers nID = true := by
  rw [CAlert.covers, h.nCancel, Bool.or_eq_true, decide_eq_true_eq, Int32.le_iff_toInt_le]
  have hne : nID.toInt ≠ 2147483647 := fun heq => hid (Int32.toInt_inj.mp heq)
  have hlt := nID.toInt_lt
  rw [show (maxInt - 1).toInt = 2147483646 from rfl]
  omega

theorem compromised_step (h : Compromised m) :
    Compromised (alertStep env m msg) ↔ ¬ Overrides env msg := by
  obtain ⟨hstep, hnone⟩ | ⟨this, hcheck, hcases⟩ := alertStep_cases env m msg
  · rw [hstep]
    exact iff_of_true h fun ⟨this, hcheck, _⟩ => hnone this hcheck
  have hthis := admitted_of_check hcheck
  obtain ⟨hash, a, hget⟩ := h.final
  have hkept : ∀ (hash : UInt256) (a : CAlert),
      (keptBy this msg.nAdjustedTime m)[hash]? = some a → a.nID = maxInt ∧ a.Reserved :=
    fun hash a hget => h.reserved hash a ((get_keptBy hthis.isInEffect).mp hget).1
  by_cases hid : this.nID = maxInt
  · -- another alert of the reserved number
    refine iff_of_true ?_ fun ⟨that, hcheck', hne, _⟩ => ?_
    · obtain ⟨⟨hash, a, hget, -⟩, hstep⟩ | ⟨-, hstep⟩ := hcases
      · rw [hstep]
        exact ⟨⟨hash, a, hget⟩, hkept⟩
      rw [hstep]
      constructor
      · by_cases hmem : env.hash msg.vchMsg ∈ keptBy this msg.nAdjustedTime m
        · obtain ⟨a, hget⟩ := Option.isSome_iff_exists.mp
            (Std.ExtTreeMap.mem_iff_isSome_getElem?.mp hmem)
          exact ⟨_, a, by rw [get_insertIfNew, if_neg fun h => h.2 hmem, hget]⟩
        · exact ⟨_, this, by rw [get_insertIfNew, if_pos ⟨rfl, hmem⟩]⟩
      · intro hash a hget
        rw [get_insertIfNew] at hget
        split at hget
        next =>
          cases hget
          exact ⟨hid, hthis.reserved hid⟩
        next => exact hkept hash a hget
    · cases hcheck.symm.trans hcheck'
      exact hne hid
  · by_cases hover : this.covers maxInt = true ∨ 2147483647 ≤ msg.nAdjustedTime
    · -- none of the alerts is left, and this one is added
      have hempty : ∀ (hash : UInt256) (a : CAlert),
          (keptBy this msg.nAdjustedTime m)[hash]? ≠ some a := by
        intro hash a hget
        obtain ⟨hget, hfree, heffect⟩ := (get_keptBy hthis.isInEffect).mp hget
        obtain ⟨haid, hares⟩ := h.reserved hash a hget
        rw [haid] at hfree
        obtain hcovers | hlate := hover
        · exact absurd (hcovers.symm.trans hfree) (by decide)
        · exact hares.isInEffect_iff.mp heffect hlate
      refine iff_of_false (fun hcomp => ?_) fun hno => hno ⟨this, hcheck, hid, hover⟩
      obtain ⟨⟨hash, a, hget, -⟩, -⟩ | ⟨-, hstep⟩ := hcases
      · exact hempty hash a hget
      · rw [hstep] at hcomp
        obtain ⟨hash, a, hget⟩ := hcomp.final
        have hbad := hcomp.reserved hash a hget
        rw [get_insertIfNew] at hget
        split at hget
        next =>
          cases hget
          exact hid hbad.1
        next => exact hempty hash a hget
    · -- the alert is cancelled by those that are there
      rw [not_or] at hover
      have hsame : ∀ (hash : UInt256) (a : CAlert), m[hash]? = some a →
          (keptBy this msg.nAdjustedTime m)[hash]? = some a := by
        intro hash a hget
        obtain ⟨haid, hares⟩ := h.reserved hash a hget
        refine (get_keptBy hthis.isInEffect).mpr ⟨hget, ?_, hares.isInEffect_iff.mpr hover.2⟩
        rw [haid]
        exact Bool.eq_false_iff.mpr hover.1
      refine iff_of_true ?_ fun ⟨that, hcheck', _, hbad⟩ => ?_
      · obtain ⟨-, hstep⟩ | ⟨hfree, -⟩ := hcases
        · rw [hstep]
          exact ⟨⟨hash, a, hsame hash a hget⟩, hkept⟩
        · have hcovers := (h.reserved hash a hget).2.covers hid
          exact absurd (hcovers.symm.trans (hfree hash a (hsame hash a hget))) (by decide)
      · cases hcheck.symm.trans hcheck'
        exact hbad.elim hover.1 hover.2

/-- **The alert for a compromised key stands** in every state of a run exactly if it is there at
first and nothing overrides it. -/
theorem compromised_iff (env : AlertEnv) (m : AlertMap) (msgs : List AlertMessage) :
    (∀ done rest, msgs = done ++ rest → Compromised (run (alertStep env) m done)) ↔
      Compromised m ∧ ∀ msg ∈ msgs, ¬ Overrides env msg := by
  induction msgs generalizing m with
  | nil =>
    constructor
    · intro h
      exact ⟨h [] [] rfl, fun _ hmsg => nomatch hmsg⟩
    · intro h done rest heq
      rw [(append_eq_nil_iff.mp heq.symm).1]
      exact h.1
  | cons msg msgs ih =>
    have ih := ih (alertStep env m msg)
    rw [forall_mem_cons]
    constructor
    · intro h
      have hm : Compromised m := h [] _ rfl
      obtain ⟨hstep, hrest⟩ := ih.mp fun done rest heq => h (msg :: done) rest (by rw [heq]; rfl)
      exact ⟨hm, (compromised_step hm).mp hstep, hrest⟩
    · intro ⟨hm, hmsg, hrest⟩ done rest heq
      cases done with
      | nil => exact hm
      | cons first done =>
        obtain ⟨rfl, htail⟩ := cons.inj heq
        exact ih.mpr ⟨(compromised_step hm).mpr hmsg, hrest⟩ done rest htail

/-- **It is what the node warns of**, until it has expired. -/
theorem getWarnings_compromised (fTestSafeMode : Bool) (strMiscWarning : List UInt8)
    (h : Compromised m) (ht : t < 2147483647) :
    getWarnings env t fTestSafeMode strMiscWarning m = (urgent, urgent) := by
  have hall : ∀ item ∈ m.toList, item.2.Reserved := fun item hitem => (h.reserved _ _
    (Std.ExtTreeMap.mem_toList_iff_getElem?_eq_some.mp hitem)).2
  have hne : m.toList ≠ [] := by
    obtain ⟨hash, a, hget⟩ := h.final
    exact ne_nil_of_mem (Std.ExtTreeMap.mem_toList_iff_getElem?_eq_some.mpr hget)
  have happlies : ∀ a : CAlert, a.Reserved →
      a.appliesTo t PROTOCOL_VERSION env.strSubVer = true := by
    intro a ha
    rw [CAlert.appliesTo, ha.isInEffect_iff.mpr (Int64.not_le.mpr ht), ha.nMinVer, ha.nMaxVer,
      ha.setSubVer]
    rfl
  unfold getWarnings
  dsimp only
  rw [Std.ExtTreeMap.foldl_eq_foldl_toList]
  generalize hstart : ite (strMiscWarning ≠ []) _ _ = start
  have hlow : start.1 < maxInt := by
    rw [← hstart]
    split
    · exact show (1000 : Int32) < maxInt by decide
    · exact show (0 : Int32) < maxInt by decide
  generalize m.toList = l at hall hne
  cases l with
  | nil => exact absurd rfl hne
  | cons item l =>
    obtain ⟨hitem, hl⟩ := forall_mem_cons.mp hall
    rw [foldl_cons, if_pos ⟨happlies _ hitem, by rw [hitem.nPriority]; exact hlow⟩,
      hitem.nPriority, hitem.strStatusBar, if_pos (by decide)]
    -- no other one has a higher priority
    induction l with
    | nil => rfl
    | cons item l ih =>
      obtain ⟨hitem, hl⟩ := forall_mem_cons.mp hl
      rw [foldl_cons, if_neg fun hhigh => ?_]
      · exact ih (forall_mem_cons.mpr ⟨‹_›, hl⟩) (cons_ne_nil _ _) hl
      · rw [hitem.nPriority] at hhigh
        exact absurd hhigh.2 (by decide)

/-- **What a run of alerts cannot hide**: the warning stays as long as nothing overrides the alert
and it has not expired. -/
theorem getWarnings_run (fTestSafeMode : Bool) (strMiscWarning : List UInt8) (h : Compromised m)
    (hmsgs : ∀ msg ∈ msgs, ¬ Overrides env msg) (ht : t < 2147483647) :
    getWarnings env t fTestSafeMode strMiscWarning (run (alertStep env) m msgs) =
      (urgent, urgent) := by
  refine getWarnings_compromised fTestSafeMode strMiscWarning ?_ ht
  apply run_invariant (P := fun _ msg => ¬ Overrides env msg) ?_ h
  · rw [along_iff]
    intro done msg rest heq
    exact hmsgs msg (heq ▸ mem_append_right _ mem_cons_self)
  · exact fun m msg hm hmsg => (compromised_step hm).mpr hmsg

def finalAlert : CAlert where
  nVersion := 1
  nRelayUntil := 0
  nExpiration := 2147483647
  nID := maxInt
  nCancel := maxInt - 1
  setCancel := ∅
  nMinVer := 0
  nMaxVer := maxInt
  setSubVer := ∅
  nPriority := maxInt
  strComment := []
  strStatusBar := urgent
  strReserved := []
  vchMsg := []
  vchSig := []

/-- An alert that is not signed comes later. -/
theorem getWarnings_finalAlert :
    let env : AlertEnv := ⟨fun _ => 0, fun _ _ => false, [], []⟩
    getWarnings env 5 true [] (run (alertStep env) ((∅ : AlertMap).insert 0 finalAlert)
      [⟨[], [], 3⟩]) = (urgent, urgent) := by
  refine getWarnings_run true [] ⟨⟨0, finalAlert, StdMap.get_insert_self _ _ _⟩, ?_⟩ ?_ (by decide)
  · intro hash a hget
    rw [StdMap.get_insert] at hget
    split at hget
    next =>
      cases hget
      exact ⟨rfl, rfl, rfl, rfl, rfl, Std.ExtTreeSet.isEmpty_empty, rfl, rfl⟩
    next => cases StdMap.get_empty (V := CAlert) hash ▸ hget
  · intro msg hmsg ⟨this, hcheck, _⟩
    cases mem_singleton.mp hmsg
    cases hcheck

end Fantom.Net
