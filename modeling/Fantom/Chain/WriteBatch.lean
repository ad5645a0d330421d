/-
  Fantom.Chain.WriteBatch — `CTxDB` on the bytes of LevelDB: `Read`, `Write`, `Erase` and `Exists`
  with the batch of a transaction over the stored entries.

  * `txn_faithful_iff` — when they do.

  `Read` and `Exists` scan the batch in the same way, but only `Read` takes the answer that an entry
  is deleted.
-/
import Fantom.Lib.StdMap

namespace Fantom.Chain.Leveldb

open Lib List Option

/-! ## §1. The batch. -/

/-- The bytes of a key or a value: `ssKey.str()`. -/
abbrev Bytes := List UInt8

/-- The entries of a database. -/
abbrev Stored := StdMap Bytes Bytes

abbrev WriteBatch := List (Change Bytes Bytes)

/-- `CBatchScanner`. -/
structure CBatchScanner where
  needle : Bytes
  deleted : Bool
  foundValue : Bytes
  foundEntry : Bool

namespace CBatchScanner

variable (s : CBatchScanner)

def put (key value : Bytes) : CBatchScanner :=
  if key = s.needle then { s with foundEntry := true, deleted := false, foundValue := value } else s

def delete (key : Bytes) : CBatchScanner :=
  if key = s.needle then { s with foundEntry := true, deleted := true } else s

/-- `Iterate` calls a handler on each entry of the batch. -/
def handle : Change Bytes Bytes → CBatchScanner
  | .put key value => s.put key value
  | .delete key => s.delete key

end CBatchScanner

/-- `ScanBatch`: the scanner as it ends, with its `*value` and `*deleted`. -/
def scanBatch (activeBatch : WriteBatch) (key value : Bytes) : CBatchScanner :=
  activeBatch.foldl CBatchScanner.handle ⟨key, false, value, false⟩

/-- What a scanner tells of the last change of its key. -/
def CBatchScanner.Tells (s : CBatchScanner) : Option (Option Bytes) → Prop
  | none => s.foundEntry = false ∧ s.deleted = false
  | some none => s.foundEntry = true ∧ s.deleted = true
  | some (some v) => s.foundEntry = true ∧ s.deleted = false ∧ s.foundValue = v

/-- **What `ScanBatch` finds** is the last change of the key. -/
theorem scanBatch_tells (activeBatch : WriteBatch) (key value : Bytes) :
    (scanBatch activeBatch key value).needle = key ∧
      (scanBatch activeBatch key value).Tells (lastChange activeBatch key) := by
  induction activeBatch using reverseRecOn with
  | nil => exact ⟨rfl, rfl, rfl⟩
  | append_singleton batch c ih =>
    obtain ⟨hneedle, htells⟩ := ih
    have hscan : scanBatch (batch ++ [c]) key value = (scanBatch batch key value).handle c := by
      unfold scanBatch
      rw [foldl_append, foldl_cons, foldl_nil]
    rw [hscan, lastChange_concat]
    generalize scanBatch batch key value = s at hneedle htells
    by_cases hk : c.key = key
    · rw [if_pos hk]
      have hsame : c.key = s.needle := hk.trans hneedle.symm
      cases c with
      | put k v =>
        rw [show s.handle (.put k v) = _ from if_pos hsame]
        exact ⟨hneedle, rfl, rfl, rfl⟩
      | delete k =>
        rw [show s.handle (.delete k) = _ from if_pos hsame]
        exact ⟨hneedle, rfl, rfl⟩
    · rw [if_neg hk]
      have hother : ¬c.key = s.needle := fun h => hk (h.trans hneedle)
      cases c with
      | put k v =>
        rw [show s.handle (.put k v) = s from if_neg hother]
        exact ⟨hneedle, htells⟩
      | delete k =>
        rw [show s.handle (.delete k) = s from if_neg hother]
        exact ⟨hneedle, htells⟩

/-! ## §2. `CTxDB`. -/

/-- `CTxDB` over an open database. -/
structure CTxDB where
  pdb : Stored
  activeBatch : Option WriteBatch
  fReadOnly : Bool

namespace CTxDB

variable (txdb : CTxDB)

/-- `Read`, up to the bytes of the value. -/
def readBytes (key : Bytes) : Option Bytes :=
  match txdb.activeBatch with
  | some batch =>
    let scanner := scanBatch batch key []
    if scanner.deleted then none
    else if scanner.foundEntry then some scanner.foundValue
    else txdb.pdb[key]?
  | none => txdb.pdb[key]?

/-- `Exists` -/
def existsKey (key : Bytes) : Bool :=
  match txdb.activeBatch with
  | some batch =>
    let scanner := scanBatch batch key []
    if scanner.foundEntry && !scanner.deleted then true else txdb.pdb[key]?.isSome
  | none => txdb.pdb[key]?.isSome

/-- A change goes into the batch while there is one. -/
def change (c : Change Bytes Bytes) : CTxDB :=
  match txdb.activeBatch with
  | some batch => { txdb with activeBatch := some (batch ++ [c]) }
  | none => { txdb with pdb := c.apply txdb.pdb }

/-- `TxnBegin`, which asserts that there is no batch. -/
def txnBegin : Option CTxDB :=
  match txdb.activeBatch with
  | some _ => none
  | none => some { txdb with activeBatch := some [] }

/-- `TxnCommit`, which asserts that there is a batch: its verdict, by the status `fOk` of the
write. -/
def txnCommit (fOk : Bool) (txdb : CTxDB) : Option (Bool × CTxDB) :=
  match txdb.activeBatch with
  | none => none
  | some batch =>
    let pdb := if fOk then replay txdb.pdb batch else txdb.pdb
    some (fOk, { txdb with pdb, activeBatch := none })

def txnAbort : Bool × CTxDB := (true, { txdb with activeBatch := none })

end CTxDB

/-! ## §3. Calls. -/

/-- The types of values that are stored, with their serialization. -/
structure Codec where
  ι : Type
  V : ι → Type
  serialize : ∀ i, V i → Bytes
  unserialize : ∀ i, Bytes → Option (V i)

variable (C : Codec)

/-- A call, with the bytes of its key. -/
inductive Call where
  | Write (key : Bytes) (i : C.ι) (value : C.V i)
  | Erase (key : Bytes)
  | Read (key : Bytes) (i : C.ι)
  | Exists (key : Bytes)

/-- What a call returns: `Read` also gives the value. -/
inductive Answer where
  | value (i : C.ι) (found : Option (C.V i))
  | flag (ok : Bool)

variable {C}

def Call.change? : Call C → Option (Change Bytes Bytes)
  | Write key i value => some (.put key (C.serialize i value))
  | Erase key => some (.delete key)
  | Read _ _ | Exists _ => none

/-- One call on a `CTxDB`; `none` where an assertion fails, on a database that is opened
for reading. -/
def CTxDB.call (txdb : CTxDB) : Call C → Option (Answer C × CTxDB)
  | .Write key i value =>
    if txdb.fReadOnly then none
    else some (.flag true, txdb.change (.put key (C.serialize i value)))
  | .Erase key => if txdb.fReadOnly then none else some (.flag true, txdb.change (.delete key))
  | .Read key i => some (.value i ((txdb.readBytes key).bind (C.unserialize i)), txdb)
  | .Exists key => some (.flag (txdb.existsKey key), txdb)

def CTxDB.calls (txdb : CTxDB) : List (Call C) → Option (List (Answer C) × CTxDB)
  | [] => some ([], txdb)
  | c :: cs => do
    let (answer, txdb) ← txdb.call c
    let (answers, txdb) ← txdb.calls cs
    return (answer :: answers, txdb)

def mapCall (m : Stored) : Call C → Answer C × Stored
  | .Write key i value => (.flag true, m.insert key (C.serialize i value))
  | .Erase key => (.flag true, m.erase key)
  | .Read key i => (.value i (m[key]?.bind (C.unserialize i)), m)
  | .Exists key => (.flag m[key]?.isSome, m)

def mapCalls (m : Stored) : List (Call C) → List (Answer C) × Stored
  | [] => ([], m)
  | c :: cs => ((mapCall m c).1 :: (mapCalls (mapCall m c).2 cs).1, (mapCalls (mapCall m c).2 cs).2)

/-! ## §4. Answers. -/

/-- What the calls of a transaction rest on: a batch over the stored entries. -/
def overlaid (pdb : Stored) (batch : WriteBatch) (fReadOnly : Bool) : CTxDB :=
  ⟨pdb, some batch, fReadOnly⟩

variable {pdb : Stored} {batch : WriteBatch} {fReadOnly : Bool}

theorem readBytes_overlaid (key : Bytes) :
    (overlaid pdb batch fReadOnly).readBytes key = (replay pdb batch)[key]? := by
  obtain ⟨_, htells⟩ := scanBatch_tells batch key []
  rw [get_replay]
  dsimp only [overlaid, CTxDB.readBytes]
  generalize lastChange batch key = last at htells ⊢
  rcases last with _ | _ | v
  · rw [htells.1, htells.2]
    rfl
  · rw [htells.2]
    rfl
  · rw [htells.1, htells.2.1, htells.2.2]
    rfl

/-- **`Exists` forgets an erasure**, and answers for the stored entry then. -/
theorem existsKey_overlaid (key : Bytes) :
    (overlaid pdb batch fReadOnly).existsKey key =
      if lastChange batch key = some none then pdb[key]?.isSome
      else (replay pdb batch)[key]?.isSome := by
  obtain ⟨_, htells⟩ := scanBatch_tells batch key []
  rw [get_replay]
  dsimp only [overlaid, CTxDB.existsKey]
  generalize lastChange batch key = last at htells ⊢
  rcases last with _ | _ | v
  · rw [htells.1, if_neg nofun]
    rfl
  · rw [htells.1, htells.2, if_pos rfl]
    rfl
  · have hput : ¬some (some v) = (some none : Option (Option Bytes)) := nofun
    rw [htells.1, htells.2.1, if_neg hput]
    rfl

/-- A key that the calls before an `Exists` erased last is not stored. -/
def ErasedIsGone (pdb : Stored) (batch : WriteBatch) (cs : List (Call C)) : Prop :=
  ∀ done key rest, cs = done ++ .Exists key :: rest →
    lastChange (batch ++ done.filterMap Call.change?) key = some none → pdb[key]? = none

theorem call_overlaid {c : Call C} {answer : Answer C} {txdb' : CTxDB}
    (h : (overlaid pdb batch fReadOnly).call c = some (answer, txdb')) :
    txdb' = overlaid pdb (batch ++ c.change?.toList) fReadOnly ∧
      replay pdb (batch ++ c.change?.toList) = (mapCall (replay pdb batch) c).2 ∧
      (answer = (mapCall (replay pdb batch) c).1 ↔
        ∀ key, c = .Exists key → lastChange batch key = some none → pdb[key]? = none) := by
  cases c with
  | Write key i value =>
    dsimp only [CTxDB.call] at h
    split at h
    · cases h
    · cases h
      exact ⟨rfl, replay_concat _ _ _, ⟨fun _ => nofun, fun _ => rfl⟩⟩
  | Erase key =>
    dsimp only [CTxDB.call] at h
    split at h
    · cases h
    · cases h
      exact ⟨rfl, replay_concat _ _ _, ⟨fun _ => nofun, fun _ => rfl⟩⟩
  | Read key i =>
    cases h
    rw [show (Call.Read key i : Call C).change?.toList = [] from rfl, append_nil]
    refine ⟨rfl, rfl, ⟨fun _ => nofun, fun _ => ?_⟩⟩
    rw [readBytes_overlaid]
    rfl
  | Exists key =>
    cases h
    rw [show (Call.Exists key : Call C).change?.toList = [] from rfl, append_nil]
    refine ⟨rfl, rfl, ?_⟩
    rw [existsKey_overlaid]
    dsimp only [mapCall]
    by_cases hlast : lastChange batch key = some none
    · have hnone : (replay pdb batch)[key]? = none := by
        rw [get_replay, hlast]
        rfl
      rw [if_pos hlast, hnone]
      constructor
      · intro hflag key' heq _
        obtain rfl := Call.Exists.inj heq
        have hnone' : pdb[key]?.isSome = false := Answer.flag.inj hflag
        rwa [isSome_eq_false_iff, isNone_iff_eq_none] at hnone'
      · intro hgone
        rw [hgone key rfl hlast]
    · rw [if_neg hlast]
      refine ⟨fun _ key' heq herased => ?_, fun _ => rfl⟩
      obtain rfl := Call.Exists.inj heq
      exact absurd herased hlast

theorem erasedIsGone_cons {c : Call C} {cs : List (Call C)} :
    ErasedIsGone pdb batch (c :: cs) ↔
      (∀ key, c = .Exists key → lastChange batch key = some none → pdb[key]? = none) ∧
        ErasedIsGone pdb (batch ++ c.change?.toList) cs := by
  have hbatch (done : List (Call C)) : batch ++ (c :: done).filterMap Call.change? =
      (batch ++ c.change?.toList) ++ done.filterMap Call.change? := by
    rw [append_assoc, filterMap_cons]
    cases c.change? <;> rfl
  constructor
  · intro h
    refine ⟨fun key heq => ?_, fun done key rest hcs hlast => ?_⟩
    · intro hlast
      refine h [] key cs (by rw [heq]; rfl) ?_
      rw [filterMap_nil, append_nil]
      exact hlast
    · refine h (c :: done) key rest (by rw [hcs]; rfl) ?_
      rw [hbatch]
      exact hlast
  · rintro ⟨hfirst, hrest⟩ done key rest hcs hlast
    cases done with
    | nil =>
      refine hfirst key (cons.inj hcs).1 ?_
      rw [filterMap_nil, append_nil] at hlast
      exact hlast
    | cons d done =>
      obtain ⟨rfl, htail⟩ := cons.inj hcs
      rw [hbatch] at hlast
      exact hrest done key rest htail hlast

theorem calls_overlaid {cs : List (Call C)} {answers : List (Answer C)} {txdb' : CTxDB}
    (h : (overlaid pdb batch fReadOnly).calls cs = some (answers, txdb')) :
    txdb' = overlaid pdb (batch ++ cs.filterMap Call.change?) fReadOnly ∧
      replay pdb (batch ++ cs.filterMap Call.change?) = (mapCalls (replay pdb batch) cs).2 ∧
      (answers = (mapCalls (replay pdb batch) cs).1 ↔ ErasedIsGone pdb batch cs) := by
  induction cs generalizing batch answers with
  | nil =>
    cases h
    rw [filterMap_nil, append_nil]
    refine ⟨rfl, rfl, ⟨fun _ done key rest hcs => ?_, fun _ => rfl⟩⟩
    cases done <;> cases hcs
  | cons c cs ih =>
    obtain ⟨⟨answer, txdb1⟩, hcall, h⟩ := bind_eq_some_iff.mp h
    obtain ⟨⟨rest, txdb2⟩, hrest, h⟩ := bind_eq_some_iff.mp h
    cases h
    obtain ⟨rfl, hmap, hanswer⟩ := call_overlaid hcall
    obtain ⟨hstate, hmaps, hanswers⟩ := ih hrest
    have hbatch : batch ++ (c :: cs).filterMap Call.change? =
        (batch ++ c.change?.toList) ++ cs.filterMap Call.change? := by
      rw [append_assoc, filterMap_cons]
      cases c.change? <;> rfl
    rw [hbatch, erasedIsGone_cons, ← hanswer, ← hanswers, hmap] at *
    refine ⟨hstate, hmaps, ?_⟩
    dsimp only [mapCalls]
    rw [cons.injEq]

/-! ## §5. A transaction. -/

/-- The calls between `TxnBegin` and the end of the transaction answer as the stored map
changed in order does; a commit stores that map, and an abort leaves it as it was. -/
def Faithful (txdb : CTxDB) (cs : List (Call C)) : Prop :=
  ∀ begun answers ended, txdb.txnBegin = some begun → begun.calls cs = some (answers, ended) →
    answers = (mapCalls txdb.pdb cs).1 ∧
      ended.txnCommit true = some (true, { txdb with pdb := (mapCalls txdb.pdb cs).2 }) ∧
      ended.txnAbort = (true, txdb)

/-- **A transaction is faithful** unless it asks `Exists` for a stored key that it erased. -/
theorem txn_faithful_iff (txdb begun ended : CTxDB) (cs : List (Call C))
    (answers : List (Answer C)) (hbegin : txdb.txnBegin = some begun)
    (hcalls : begun.calls cs = some (answers, ended)) :
    Faithful txdb cs ↔ ErasedIsGone txdb.pdb [] cs := by
  obtain ⟨pdb, activeBatch, fReadOnly⟩ := txdb
  cases activeBatch with
  | some batch => cases hbegin
  | none =>
    have hbegun : begun = overlaid pdb [] fReadOnly := (Option.some.inj hbegin).symm
    rw [hbegun] at hcalls
    obtain ⟨hended, hmaps, hanswers⟩ := calls_overlaid hcalls
    rw [replay_nil, nil_append] at *
    constructor
    · intro h
      exact hanswers.mp (h begun answers ended hbegin (hbegun ▸ hcalls)).1
    · intro hgone begun' answers' ended' hbegin' hcalls'
      obtain rfl := Option.some.inj (hbegin.symm.trans hbegin')
      rw [hbegun, hcalls] at hcalls'
      cases hcalls'
      refine ⟨hanswers.mpr hgone, ?_, ?_⟩
      · rw [hended]
        dsimp only [overlaid, CTxDB.txnCommit]
        rw [if_pos rfl, hmaps]
      · rw [hended]
        rfl

def rawCodec : Codec := ⟨Unit, fun _ => Bytes, fun _ v => v, fun _ v => some v⟩

def storedOne : CTxDB := ⟨(∅ : Stored).insert [7] [1], none, false⟩

def eraseAndAsk : List (Call rawCodec) := [.Erase [7], .Exists [7]]

/-- **An erased key exists**, if it is stored. -/
theorem exists_after_erase : ¬Faithful storedOne eraseAndAsk := by
  intro h
  have hrun : (overlaid storedOne.pdb [] false).calls eraseAndAsk =
      some ([.flag true, .flag true], overlaid storedOne.pdb [.delete [7]] false) := by
    rfl
  have hanswers := (h _ _ _ rfl hrun).1
  have hmap : (mapCalls storedOne.pdb eraseAndAsk).1 = [.flag true, .flag false] := by
    rfl
  rw [hmap] at hanswers
  cases hanswers

def eraseAndWrite : List (Call rawCodec) :=
  [.Erase [7], .Read [7] (), .Write [7] () [2], .Exists [7], .Read [7] ()]

theorem txn_faithful_iff_eraseAndWrite : Faithful storedOne eraseAndWrite := by
  refine (txn_faithful_iff storedOne (overlaid storedOne.pdb [] false)
    (overlaid storedOne.pdb [.delete [7], .put [7] [2]] false) eraseAndWrite
    [.flag true, .value () none, .flag true, .flag true, .value () (some [2])] rfl rfl).mpr ?_
  refine erasedIsGone_cons.mpr ⟨nofun, erasedIsGone_cons.mpr ⟨nofun, ?_⟩⟩
  refine erasedIsGone_cons.mpr ⟨nofun, erasedIsGone_cons.mpr ⟨?_, ?_⟩⟩
  · rintro key heq hlast
    obtain rfl := Call.Exists.inj heq
    exact absurd hlast (by decide)
  · refine erasedIsGone_cons.mpr ⟨nofun, fun done key rest hcs => ?_⟩
    cases done <;> cases hcs

end Fantom.Chain.Leveldb
