/-
  Fantom.Smsg.Database — `SecMsgDB`: the public keys and the messages that are kept in LevelDB, with
  a transaction over them.

  * `ErasedIsAbsent`, `txn_overlays_iff` — when they do.

  The database is open.  Each function scans the batch for itself; `ReadPK` and `ReadSmesg` take its
  answer that a key is erased, `ExistsPK` and `ExistsSmesg` go on to the database then.
-/
import Fantom.Chain.WriteBatch
import Fantom.Smsg.SecureMessage

namespace Fantom.Smsg

open Core Lib Chain.Leveldb

/-! ## §1. Values. -/

/-- `CPubKey`, with all of its array. -/
structure KeyArray where
  vch : Vector UInt8 65
deriving DecidableEq

def getLen (chHeader : UInt8) : Nat :=
  if chHeader = 2 ∨ chHeader = 3 then 33
  else if chHeader = 4 ∨ chHeader = 6 ∨ chHeader = 7 then 65
  else 0

namespace KeyArray

variable (pubkey : KeyArray)

def size : Nat := getLen pubkey.vch[0]

def serialize : List UInt8 :=
  writeCompactSize pubkey.size ++ pubkey.vch.toList.take pubkey.size

def overwrite (bs : List UInt8) : KeyArray :=
  ⟨.ofFn fun i => (bs[i.val]?).getD pubkey.vch[i]⟩

def invalidate : KeyArray := pubkey.overwrite [0xFF]

/-- `CPubKey::Unserialize` into the key, which keeps the bytes that are not read. -/
def unserialize (bs : List UInt8) : Option KeyArray :=
  (Prod.fst <$> (do
    let len ← readCompactSize
    if len ≤ 65 then
      let vch ← readTake len
      return pubkey.overwrite vch
    else
      -- skipped one by one
      let _ ← readTake len
      return pubkey.invalidate : Reader UInt8 KeyArray).run bs)

end KeyArray

/-- `SecMsgStored` -/
structure SmesgStored where
  timeReceived : Int64
  status : UInt8
  folderId : UInt16
  sAddrTo : List UInt8
  sAddrOutbox : List UInt8
  vchMessage : List UInt8
deriving DecidableEq

namespace SmesgStored

def serialize (smsgStored : SmesgStored) : List UInt8 :=
  leBytes 8 smsgStored.timeReceived.toUInt64.toNat ++ (leBytes 1 smsgStored.status.toNat ++
    (leBytes 2 smsgStored.folderId.toNat ++ (serializeBytes smsgStored.sAddrTo ++
      (serializeBytes smsgStored.sAddrOutbox ++ serializeBytes smsgStored.vchMessage))))

/-- `SecMsgStored` from its bytes. -/
def unserialize (bs : List UInt8) : Option SmesgStored :=
  (Prod.fst <$> (do
    let timeReceived ← readInt64
    let status ← readUInt8
    let folderId ← UInt16.ofNat <$> readNumber 2
    let sAddrTo ← unserializeBytes
    let sAddrOutbox ← unserializeBytes
    let vchMessage ← unserializeBytes
    return ⟨timeReceived, status, folderId, sAddrTo, sAddrOutbox, vchMessage⟩ :
      Reader UInt8 SmesgStored).run bs)

end SmesgStored

/-! ## §2. Keys. -/

/-- The key of a message: two letters, a timestamp and eight bytes more. -/
abbrev SmesgKey := Vector UInt8 18

/-- `ssKey << 'p' << 'k' << addr` -/
def pkKey (addr : UInt160) : Bytes := [112, 107] ++ leBytes 20 addr.toNat

theorem pkKey_ne (addr : UInt160) (chKey : SmesgKey) : chKey.toList ≠ pkKey addr := by
  intro h
  have hlen := congrArg List.length h
  simp [pkKey] at hlen

/-! ## §3. `SecMsgDB`. -/

structure SecMsgDB where
  pdb : Stored
  activeBatch : Option WriteBatch

namespace SecMsgDB

variable (db : SecMsgDB)

def txnBegin : Bool × SecMsgDB :=
  match db.activeBatch with
  | some _ => (true, db)
  | none => (true, { db with activeBatch := some [] })

/-- `TxnCommit`, with the status of the write. -/
def txnCommit (ok : Bool) (db : SecMsgDB) : Bool × SecMsgDB :=
  match db.activeBatch with
  | none => (false, db)
  | some batch => (ok, { pdb := if ok then replay db.pdb batch else db.pdb, activeBatch := none })

def txnAbort : Bool × SecMsgDB := (true, { db with activeBatch := none })

/-- The value that `ReadPK` and `ReadSmesg` unserialize, if they get to that.
`SecMsgBatchScanner` is `CBatchScanner` under another name. -/
def readValue (ssKey : Bytes) : Option Bytes :=
  match db.activeBatch with
  | some batch =>
    let scanner := scanBatch batch ssKey []
    let readFromDb := scanner.foundEntry == false
    if scanner.deleted then none
    else if readFromDb then db.pdb[ssKey]?
    else some scanner.foundValue
  | none => db.pdb[ssKey]?

/-- What `ExistsPK` and `ExistsSmesg` return for a key. -/
def existsKey (ssKey : Bytes) : Bool :=
  match db.activeBatch with
  | some batch =>
    let scanner := scanBatch batch ssKey []
    if scanner.foundEntry && !scanner.deleted then true else db.pdb[ssKey]?.isSome
  | none => db.pdb[ssKey]?.isSome

/-- A change goes into the batch, if there is one. -/
def change (c : Change Bytes Bytes) : SecMsgDB :=
  match db.activeBatch with
  | some batch => { db with activeBatch := some (batch ++ [c]) }
  | none => { db with pdb := c.apply db.pdb }

variable (addr : UInt160)

def readPK (pubkey : KeyArray) : Option KeyArray :=
  (db.readValue (pkKey addr)).bind pubkey.unserialize

def writePK (pubkey : KeyArray) : Bool × SecMsgDB :=
  (true, db.change (.put (pkKey addr) pubkey.serialize))

def existsPK : Bool := db.existsKey (pkKey addr)

variable (chKey : SmesgKey)

def readSmesg : Option SmesgStored :=
  (db.readValue chKey.toList).bind SmesgStored.unserialize

def writeSmesg (smsgStored : SmesgStored) : Bool × SecMsgDB :=
  (true, db.change (.put chKey.toList smsgStored.serialize))

def existsSmesg : Bool := db.existsKey chKey.toList

def eraseSmesg : Bool × SecMsgDB :=
  (true, db.change (.delete chKey.toList))

end SecMsgDB

/-- A call.  `ReadPK` is given the key that it reads into. -/
inductive DbCall where
  | readPK (addr : UInt160) (pubkey : KeyArray)
  | writePK (addr : UInt160) (pubkey : KeyArray)
  | existsPK (addr : UInt160)
  | readSmesg (chKey : SmesgKey)
  | writeSmesg (chKey : SmesgKey) (smsgStored : SmesgStored)
  | existsSmesg (chKey : SmesgKey)
  | eraseSmesg (chKey : SmesgKey)

/-- What a call returns: a read also gives what it has read. -/
inductive DbAnswer where
  | flag (b : Bool)
  | pubkey (found : Option KeyArray)
  | smesg (found : Option SmesgStored)
deriving DecidableEq

def SecMsgDB.call (db : SecMsgDB) : DbCall → DbAnswer × SecMsgDB
  | .readPK addr pubkey => (.pubkey (db.readPK addr pubkey), db)
  | .writePK addr pubkey => ((db.writePK addr pubkey).map .flag id)
  | .existsPK addr => (.flag (db.existsPK addr), db)
  | .readSmesg chKey => (.smesg (db.readSmesg chKey), db)
  | .writeSmesg chKey smsgStored => ((db.writeSmesg chKey smsgStored).map .flag id)
  | .existsSmesg chKey => (.flag (db.existsSmesg chKey), db)
  | .eraseSmesg chKey => ((db.eraseSmesg chKey).map .flag id)

def SecMsgDB.calls (db : SecMsgDB) : List DbCall → List DbAnswer × SecMsgDB
  | [] => ([], db)
  | c :: cs =>
    let (answer, db) := db.call c
    let (answers, db) := db.calls cs
    (answer :: answers, db)

/-! ## §4. A map. -/

def DbCall.change? : DbCall → Option (Change Bytes Bytes)
  | writePK addr pubkey => some (.put (pkKey addr) pubkey.serialize)
  | writeSmesg chKey smsgStored => some (.put chKey.toList smsgStored.serialize)
  | eraseSmesg chKey => some (.delete chKey.toList)
  | readPK _ _ | existsPK _ | readSmesg _ | existsSmesg _ => none

def mapAnswer (m : Stored) : DbCall → DbAnswer
  | .readPK addr pubkey => .pubkey (m[pkKey addr]?.bind pubkey.unserialize)
  | .existsPK addr => .flag m[pkKey addr]?.isSome
  | .readSmesg chKey => .smesg (m[chKey.toList]?.bind SmesgStored.unserialize)
  | .existsSmesg chKey => .flag m[chKey.toList]?.isSome
  | .writePK _ _ | .writeSmesg _ _ | .eraseSmesg _ => .flag true

def mapCalls (m : Stored) : List DbCall → List DbAnswer × Stored
  | [] => ([], m)
  | c :: cs =>
    let (answers, m') := mapCalls (replay m c.change?.toList) cs
    (mapAnswer m c :: answers, m')

/-- **The transaction is a faithful overlay**: from `TxnBegin` on the calls answer as the map of
the stored entries does, changed in order; `TxnCommit` leaves that map, and `TxnAbort` leaves the
entries as they were. -/
def Overlays (db : SecMsgDB) (cs : List DbCall) : Prop :=
  let (answers, ended) := db.txnBegin.2.calls cs
  answers = (mapCalls db.pdb cs).1 ∧
    ended.txnCommit true = (true, ⟨(mapCalls db.pdb cs).2, none⟩) ∧
    ended.txnAbort = (true, ⟨db.pdb, none⟩)

/-- The last of the calls that writes or erases the message erases it. -/
def ErasedLast (cs : List DbCall) (chKey : SmesgKey) : Prop :=
  lastChange (cs.filterMap DbCall.change?) chKey.toList = some none

/-- No `ExistsSmesg` is for a message that is stored, and that the calls before it have erased. -/
def ErasedIsAbsent (pdb : Stored) (cs : List DbCall) : Prop :=
  ∀ done chKey rest, cs = done ++ .existsSmesg chKey :: rest → ErasedLast done chKey →
    pdb[chKey.toList]? = none

/-! ## §5. One call. -/

variable {pdb : Stored} {batch : WriteBatch}

theorem readValue_batch (ssKey : Bytes) :
    SecMsgDB.readValue ⟨pdb, some batch⟩ ssKey = (replay pdb batch)[ssKey]? := by
  obtain ⟨-, htells⟩ := scanBatch_tells batch ssKey []
  rw [get_replay]
  unfold SecMsgDB.readValue
  dsimp only
  generalize lastChange batch ssKey = last at htells ⊢
  rcases last with _ | _ | v
  · -- not in the batch
    rw [htells.1, htells.2]
    rfl
  · rw [htells.2]
    rfl
  · rw [htells.1, htells.2.1, htells.2.2]
    rfl

theorem existsKey_batch (ssKey : Bytes) :
    SecMsgDB.existsKey ⟨pdb, some batch⟩ ssKey =
      if lastChange batch ssKey = some none then pdb[ssKey]?.isSome
      else (replay pdb batch)[ssKey]?.isSome := by
  obtain ⟨-, htells⟩ := scanBatch_tells batch ssKey []
  rw [get_replay]
  unfold SecMsgDB.existsKey
  dsimp only
  generalize lastChange batch ssKey = last at htells ⊢
  rcases last with _ | _ | v
  · rw [htells.1]
    simp
  · -- erased: the database is asked all the same
    rw [htells.1, htells.2]
    simp
  · rw [htells.1, htells.2.1]
    simp

theorem call_state (c : DbCall) :
    (SecMsgDB.call ⟨pdb, some batch⟩ c).2 = ⟨pdb, some (batch ++ c.change?.toList)⟩ := by
  cases c with
  | writePK addr pubkey => rfl
  | writeSmesg chKey smsgStored => rfl
  | eraseSmesg chKey => rfl
  | readPK addr pubkey | existsPK addr | readSmesg chKey | existsSmesg chKey =>
    simp [SecMsgDB.call, DbCall.change?]

def ErasesSmesg (batch : WriteBatch) : Prop :=
  ∀ addr, lastChange batch (pkKey addr) ≠ some none

theorem erasesSmesg_append (h : ErasesSmesg batch) (c : DbCall) :
    ErasesSmesg (batch ++ c.change?.toList) := by
  intro addr
  cases c with
  | readPK _ _ | existsPK _ | readSmesg _ | existsSmesg _ =>
    simpa [DbCall.change?] using h addr
  | writePK addr' pubkey =>
    show lastChange (batch ++ [_]) _ ≠ _
    rw [lastChange_concat]
    split
    · intro hnone
      cases hnone
    · exact h addr
  | writeSmesg chKey smsgStored =>
    have hne : ¬ (Change.put chKey.toList smsgStored.serialize).key = pkKey addr :=
      pkKey_ne addr chKey
    show lastChange (batch ++ [_]) _ ≠ _
    rw [lastChange_concat, if_neg hne]
    exact h addr
  | eraseSmesg chKey =>
    have hne : ¬ (Change.delete (V := Bytes) chKey.toList).key = pkKey addr :=
      pkKey_ne addr chKey
    show lastChange (batch ++ [_]) _ ≠ _
    rw [lastChange_concat, if_neg hne]
    exact h addr

/-- **One call** answers as the map does, unless it asks for a stored message that was erased. -/
theorem call_answer_iff (h : ErasesSmesg batch) (c : DbCall) :
    (SecMsgDB.call ⟨pdb, some batch⟩ c).1 = mapAnswer (replay pdb batch) c ↔
      ∀ chKey, c = .existsSmesg chKey → lastChange batch chKey.toList = some none →
        pdb[chKey.toList]? = none := by
  cases c with
  | writePK addr pubkey => exact ⟨fun _ => nofun, fun _ => rfl⟩
  | writeSmesg chKey smsgStored => exact ⟨fun _ => nofun, fun _ => rfl⟩
  | eraseSmesg chKey => exact ⟨fun _ => nofun, fun _ => rfl⟩
  | readPK addr pubkey =>
    refine ⟨fun _ => nofun, fun _ => ?_⟩
    show DbAnswer.pubkey _ = .pubkey _
    rw [SecMsgDB.readPK, readValue_batch]
  | readSmesg chKey =>
    refine ⟨fun _ => nofun, fun _ => ?_⟩
    show DbAnswer.smesg _ = .smesg _
    rw [SecMsgDB.readSmesg, readValue_batch]
  | existsPK addr =>
    refine ⟨fun _ => nofun, fun _ => ?_⟩
    show DbAnswer.flag _ = .flag _
    rw [SecMsgDB.existsPK, existsKey_batch, if_neg (h addr)]
  | existsSmesg chKey =>
    show DbAnswer.flag _ = .flag _ ↔ _
    rw [SecMsgDB.existsSmesg, existsKey_batch, DbAnswer.flag.injEq]
    by_cases hlast : lastChange batch chKey.toList = some none
    · have hgone : (replay pdb batch)[chKey.toList]? = none := by
        rw [get_replay, hlast]
        rfl
      rw [if_pos hlast, hgone]
      constructor
      · intro hflag chKey' heq _
        obtain rfl := DbCall.existsSmesg.inj heq
        have hfound : pdb[chKey.toList]?.isSome = false := hflag
        rwa [Option.isSome_eq_false_iff, Option.isNone_iff_eq_none] at hfound
      · intro habsent
        rw [habsent chKey rfl hlast]
    · rw [if_neg hlast]
      refine ⟨fun _ chKey' heq herased => ?_, fun _ => rfl⟩
      obtain rfl := DbCall.existsSmesg.inj heq
      exact absurd herased hlast

/-! ## §6. A transaction. -/

/-- The condition, by what the batch holds before the calls. -/
def AbsentFrom (pdb : Stored) (batch : WriteBatch) (cs : List DbCall) : Prop :=
  ∀ done chKey rest, cs = done ++ .existsSmesg chKey :: rest →
    lastChange (batch ++ done.filterMap DbCall.change?) chKey.toList = some none →
      pdb[chKey.toList]? = none

theorem filterMap_change_cons (c : DbCall) (cs : List DbCall) :
    batch ++ (c :: cs).filterMap DbCall.change? =
      (batch ++ c.change?.toList) ++ cs.filterMap DbCall.change? := by
  rw [List.append_assoc, List.filterMap_cons]
  cases c.change? <;> rfl

theorem absentFrom_cons {c : DbCall} {cs : List DbCall} :
    AbsentFrom pdb batch (c :: cs) ↔
      (∀ chKey, c = .existsSmesg chKey → lastChange batch chKey.toList = some none →
        pdb[chKey.toList]? = none) ∧
      AbsentFrom pdb (batch ++ c.change?.toList) cs := by
  constructor
  · intro h
    refine ⟨fun chKey heq hlast => ?_, fun done chKey rest hcs hlast => ?_⟩
    · refine h [] chKey cs (by rw [heq]; rfl) ?_
      rwa [List.filterMap_nil, List.append_nil]
    · refine h (c :: done) chKey rest (by rw [hcs]; rfl) ?_
      rwa [filterMap_change_cons]
  · intro ⟨hfirst, hrest⟩ done chKey rest hcs hlast
    cases done with
    | nil =>
      rw [List.filterMap_nil, List.append_nil] at hlast
      exact hfirst chKey (List.cons.inj hcs).1 hlast
    | cons d done =>
      obtain ⟨rfl, htail⟩ := List.cons.inj hcs
      rw [filterMap_change_cons] at hlast
      exact hrest done chKey rest htail hlast

/-- **A run of calls**: the entries stay as they are, the batch has the changes, and the answers
are those of the map under the condition. -/
theorem calls_batch (cs : List DbCall) : ∀ {batch : WriteBatch}, ErasesSmesg batch →
    (SecMsgDB.calls ⟨pdb, some batch⟩ cs).2 =
        ⟨pdb, some (batch ++ cs.filterMap DbCall.change?)⟩ ∧
      replay pdb (batch ++ cs.filterMap DbCall.change?) = (mapCalls (replay pdb batch) cs).2 ∧
      ((SecMsgDB.calls ⟨pdb, some batch⟩ cs).1 = (mapCalls (replay pdb batch) cs).1 ↔
        AbsentFrom pdb batch cs) := by
  induction cs with
  | nil =>
    intro batch _
    rw [List.filterMap_nil, List.append_nil]
    refine ⟨rfl, rfl, ⟨fun _ done chKey rest hcs => ?_, fun _ => rfl⟩⟩
    cases done <;> cases hcs
  | cons c cs ih =>
    intro batch hbatch
    obtain ⟨hstate, hmap, hanswers⟩ := ih (erasesSmesg_append hbatch c)
    have hanswer := @call_answer_iff pdb batch hbatch c
    have hnext : replay pdb (batch ++ c.change?.toList) =
        replay (replay pdb batch) c.change?.toList := List.foldl_append
    have hcalls : SecMsgDB.calls ⟨pdb, some batch⟩ (c :: cs) =
        ((SecMsgDB.call ⟨pdb, some batch⟩ c).1 ::
            (SecMsgDB.calls (SecMsgDB.call ⟨pdb, some batch⟩ c).2 cs).1,
          (SecMsgDB.calls (SecMsgDB.call ⟨pdb, some batch⟩ c).2 cs).2) := rfl
    have hmapCalls : mapCalls (replay pdb batch) (c :: cs) =
        (mapAnswer (replay pdb batch) c ::
            (mapCalls (replay (replay pdb batch) c.change?.toList) cs).1,
          (mapCalls (replay (replay pdb batch) c.change?.toList) cs).2) := rfl
    rw [hcalls, hmapCalls, call_state, filterMap_change_cons, absentFrom_cons, ← hanswer,
      ← hanswers, ← hnext, List.cons.injEq]
    exact ⟨hstate, hmap, Iff.rfl⟩

/-- **The transaction is a faithful overlay** exactly where no `ExistsSmesg` is for a stored message
that it has erased. -/
theorem txn_overlays_iff (db : SecMsgDB) (hbegin : db.activeBatch = none) (cs : List DbCall) :
    Overlays db cs ↔ ErasedIsAbsent db.pdb cs := by
  obtain ⟨pdb, activeBatch⟩ := db
  subst hbegin
  have hempty : ErasesSmesg [] := fun _ => nofun
  obtain ⟨hstate, hmap, hanswers⟩ := @calls_batch pdb cs [] hempty
  rw [replay_nil, List.nil_append] at *
  have hcond : AbsentFrom pdb [] cs ↔ ErasedIsAbsent pdb cs := Iff.rfl
  rw [← hcond, ← hanswers]
  show (_ ∧ _ ∧ _) ↔ _
  constructor
  · intro h
    exact h.1
  · intro h
    refine ⟨h, ?_, ?_⟩
    · show SecMsgDB.txnCommit true (SecMsgDB.calls ⟨pdb, some []⟩ cs).2 = _
      rw [hstate, SecMsgDB.txnCommit]
      dsimp only
      rw [if_pos rfl, hmap]
    · show SecMsgDB.txnAbort (SecMsgDB.calls ⟨pdb, some []⟩ cs).2 = _
      rw [hstate]
      rfl

def inboxKey : SmesgKey := .ofFn fun i => if i.val = 0 then 105 else if i.val = 1 then 109 else 7

def inboxMessage : SmesgStored := ⟨0, 1, 0, [65], [66], [1, 2, 3]⟩

def oneStored : SecMsgDB :=
  ⟨(∅ : Stored).insert inboxKey.toList inboxMessage.serialize, none⟩

def eraseThenAsk : List DbCall := [.eraseSmesg inboxKey, .existsSmesg inboxKey]

/-- **An erased message exists**, if it is stored. -/
theorem existsSmesg_after_erase : ¬ Overlays oneStored eraseThenAsk := by
  intro ⟨hanswers, _⟩
  have hcalls : (oneStored.txnBegin.2.calls eraseThenAsk).1 = [.flag true, .flag true] := by rfl
  have hmap : (mapCalls oneStored.pdb eraseThenAsk).1 = [.flag true, .flag false] := by rfl
  have hflags := hcalls.symm.trans (hanswers.trans hmap)
  simp at hflags

def eraseThenWrite : List DbCall :=
  [.eraseSmesg inboxKey, .readSmesg inboxKey, .writeSmesg inboxKey inboxMessage,
    .existsSmesg inboxKey]

theorem txn_overlays_iff_eraseThenWrite : Overlays oneStored eraseThenWrite := by
  refine (txn_overlays_iff oneStored rfl eraseThenWrite).mpr ?_
  show AbsentFrom oneStored.pdb [] eraseThenWrite
  rw [eraseThenWrite, absentFrom_cons, absentFrom_cons, absentFrom_cons, absentFrom_cons]
  refine ⟨fun _ heq => DbCall.noConfusion heq, fun _ heq => DbCall.noConfusion heq,
    fun _ heq => DbCall.noConfusion heq, fun chKey heq hlast => ?_, fun done chKey rest hcs => ?_⟩
  · obtain rfl := DbCall.existsSmesg.inj heq
    -- the last change of the message is the write
    have hwritten : lastChange [.delete inboxKey.toList,
        .put inboxKey.toList inboxMessage.serialize] inboxKey.toList =
          some (some inboxMessage.serialize) := by rfl
    have hne := hwritten.symm.trans hlast
    simp at hne
  · cases done <;> cases hcs

end Fantom.Smsg
