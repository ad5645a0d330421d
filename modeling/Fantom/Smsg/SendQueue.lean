/-
  Fantom.Smsg.SendQueue — The messages that wait in the database to be sent, and the thread that
  works through them.

  * `Distinguishable`, `queues_iff` — the messages that are queued so.

  The key has the bytes of the pointer to the payload, and those of the timestamp the lowest first.
-/
import Fantom.Smsg.Database

namespace Fantom.Smsg

open Core Lib Chain.Leveldb List

/-! ## §1. The queue. -/

/-- What a value has to be to be read again. -/
structure SmesgStored.Readable (smsgStored : SmesgStored) : Prop where
  sAddrTo : smsgStored.sAddrTo.length ≤ MAX_SIZE
  sAddrOutbox : smsgStored.sAddrOutbox.length ≤ MAX_SIZE
  vchMessage : smsgStored.vchMessage.length ≤ MAX_SIZE

/-- A message as it is written: its timestamp, the address of its payload in memory, and the
value. -/
structure Entry where
  timestamp : Int64
  pPayload : UInt64
  smsgStored : SmesgStored
  readable : smsgStored.Readable

variable (sPrefix : UInt8 × UInt8)

variable (e : Entry)

/-- `chKey`, of two letters, `&smsg.timestamp` and `&smsg.pPayload`. -/
def Entry.keyBytes : Bytes :=
  sPrefix.1 :: sPrefix.2 ::
    (leBytes 8 e.timestamp.toUInt64.toNat ++ leBytes 8 e.pPayload.toNat)

def Entry.key : SmesgKey :=
  ⟨(e.keyBytes sPrefix).toArray, by simp [Entry.keyBytes]⟩

def queuePrefix : UInt8 × UInt8 := (113, 109)

def outboxPrefix : UInt8 × UInt8 := (115, 109)

/-- A successful `SecureMsgSend`: the message, and the copy for an own address, if there is one. -/
structure Send where
  queued : Entry
  copy : Option Entry

/-- The writes of `SecureMsgSend`. -/
def sendSmesg (db : SecMsgDB) (s : Send) : SecMsgDB :=
  let db := (db.writeSmesg (s.queued.key queuePrefix) s.queued.smsgStored).2
  match s.copy with
  | none => db
  | some e => (db.writeSmesg (e.key outboxPrefix) e.smsgStored).2

/-- `NextSmesg` again and again, from where the iterator is. -/
def nextSmesgs (sPrefix : UInt8 × UInt8) : List (Bytes × Bytes) → List (SmesgKey × SmesgStored)
  | [] => []
  | (key, value) :: it =>
    if h : key.length = 18 ∧ key.take 2 = [sPrefix.1, sPrefix.2] then
      match SmesgStored.unserialize value with
      | some smsgStored => (⟨key.toArray, by simp [h.1]⟩, smsgStored) :: nextSmesgs sPrefix it
      | none => []
    else []

/-- The messages under a prefix: `it->Seek(prefix)`, and `NextSmesg` from there. -/
def smesgsUnder (pdb : Stored) : List (SmesgKey × SmesgStored) :=
  nextSmesgs sPrefix
    (pdb.toList.dropWhile fun e => compare e.1 [sPrefix.1, sPrefix.2] == .lt)

/-- The loop of `ThreadSecureMsgPow` over what the iterator gives: the messages that it has
visited.  `SecureMsgSetHash` returns 2 when the node stops. -/
def powLoop (setHash : SmesgStored → Nat) :
    List (SmesgKey × SmesgStored) → SecMsgDB → List (SmesgKey × SmesgStored) × SecMsgDB
  | [], db => ([], db)
  | (chKey, smsgStored) :: it, db =>
    if setHash smsgStored = 2 then ([(chKey, smsgStored)], db)
    else
      let (visited, db) := powLoop setHash it (db.eraseSmesg chKey).2
      ((chKey, smsgStored) :: visited, db)

/-- A round of `ThreadSecureMsgPow`.  The iterator goes over the database as it was. -/
def powRound (setHash : SmesgStored → Nat) (db : SecMsgDB) :
    List (SmesgKey × SmesgStored) × SecMsgDB :=
  powLoop setHash (smesgsUnder queuePrefix db.pdb) db

def keyTime (chKey : SmesgKey) : Int64 :=
  (UInt64.ofNat (ofLEBytes ((chKey.toList.drop 2).take 8))).toInt64

/-- **The queue loses nothing and keeps order**: after the calls, with no round of the thread
between them, a round visits each message once and those with smaller timestamps first, and the
outbox has each copy. -/
structure Queues (setHash : SmesgStored → Nat) (db : SecMsgDB) (sends : List Send) : Prop where
  visited : (powRound setHash (sends.foldl sendSmesg db)).1.Perm
    (sends.map fun s => (s.queued.key queuePrefix, s.queued.smsgStored))
  outbox : (smesgsUnder outboxPrefix (sends.foldl sendSmesg db).pdb).Perm
    ((sends.filterMap Send.copy).map fun e => (e.key outboxPrefix, e.smsgStored))
  order : (powRound setHash (sends.foldl sendSmesg db)).1.Pairwise
    fun a b => keyTime a.1 ≤ keyTime b.1

/-- The timestamp with the address of the payload tells messages apart, and copies, and of the
bytes of two timestamps those of the smaller one come first. -/
structure Distinguishable (sends : List Send) : Prop where
  queued : (sends.map fun s => (s.queued.timestamp, s.queued.pPayload)).Nodup
  copies : ((sends.filterMap Send.copy).map fun e => (e.timestamp, e.pPayload)).Nodup
  order : ∀ s ∈ sends, ∀ s' ∈ sends, s.queued.timestamp < s'.queued.timestamp →
    compare (leBytes 8 s.queued.timestamp.toUInt64.toNat)
      (leBytes 8 s'.queued.timestamp.toUInt64.toNat) = .lt

def NoSmesgs (pdb : Stored) : Prop :=
  ∀ (key value : Bytes), pdb[key]? = some value →
    key.take 2 ≠ [queuePrefix.1, queuePrefix.2] ∧ key.take 2 ≠ [outboxPrefix.1, outboxPrefix.2]

/-! ## §2. Keys in order. -/

variable {smsgStored : SmesgStored} {l : List (Bytes × Bytes)} {pdb : Stored}

theorem unserialize_serialize (h : smsgStored.Readable) :
    SmesgStored.unserialize smsgStored.serialize = some smsgStored := by
  unfold SmesgStored.unserialize SmesgStored.serialize
  have hfolder : Format (fun n : UInt16 => leBytes 2 n.toNat) (UInt16.ofNat <$> readNumber 2)
      (fun _ => True) id :=
    format_ofNumber UInt16.toNat_lt (fun _ => UInt16.ofNat_toNat)
      fun _ hn => UInt16.toNat_ofNat_of_lt hn
  have hlast := format_bytes.reads smsgStored.vchMessage [] h.vchMessage
  rw [append_nil] at hlast
  rw [run_bind_of_eq (format_int64.reads smsgStored.timeReceived _ trivial),
    run_bind_of_eq (format_uint8.reads smsgStored.status _ trivial),
    run_bind_of_eq (hfolder.reads smsgStored.folderId _ trivial),
    run_bind_of_eq (format_bytes.reads smsgStored.sAddrTo _ h.sAddrTo),
    run_bind_of_eq (format_bytes.reads smsgStored.sAddrOutbox _ h.sAddrOutbox),
    run_bind_of_eq hlast]
  rfl

theorem take_of_between {k r : Bytes} (as : Bytes) (hlow : compare k as ≠ .lt)
    (hhigh : compare k (as ++ r) ≠ .gt) : k.take as.length = as := by
  induction as generalizing k with
  | nil => simp
  | cons a as ih =>
    cases k with
    | nil => exact absurd List.compare_nil_cons hlow
    | cons x k =>
      rw [List.compare_cons_cons] at hlow
      rw [cons_append, List.compare_cons_cons] at hhigh
      cases hx : compare x a with
      | lt =>
        rw [hx] at hlow
        exact absurd rfl hlow
      | gt =>
        rw [hx] at hhigh
        exact absurd rfl hhigh
      | eq =>
        obtain rfl := Std.LawfulEqOrd.eq_of_compare hx
        rw [hx] at hlow hhigh
        rw [length_cons, take_succ_cons, ih hlow hhigh]

theorem compare_append {x y : Bytes} (hlen : x.length = y.length) (hne : x ≠ y) (u v : Bytes) :
    compare (x ++ u) (y ++ v) = compare x y := by
  induction x generalizing y with
  | nil => exact absurd (eq_nil_of_length_eq_zero hlen.symm).symm hne
  | cons a x ih =>
    cases y with
    | nil => cases hlen
    | cons b y =>
      rw [cons_append, cons_append, List.compare_cons_cons, List.compare_cons_cons]
      by_cases hab : a = b
      · subst hab
        rw [ih (Nat.succ.inj hlen) fun h => hne (congrArg _ h)]
      · have hne' : compare a b ≠ .eq := fun h => hab (Std.LawfulEqOrd.eq_of_compare h)
        cases hcmp : compare a b with
        | lt => rfl
        | gt => rfl
        | eq => exact absurd hcmp hne'

variable {sPrefix : UInt8 × UInt8}

theorem key_toList : (e.key sPrefix).toList = e.keyBytes sPrefix := rfl

theorem toUInt64_inj {t t' : Int64} (h : t.toUInt64 = t'.toUInt64) : t = t' :=
  congrArg UInt64.toInt64 h

theorem leBytes_eq_iff {m n : UInt64} : leBytes 8 m.toNat = leBytes 8 n.toNat ↔ m = n := by
  refine ⟨fun h => ?_, fun h => h ▸ rfl⟩
  have hnum := congrArg ofLEBytes h
  rw [ofLEBytes_leBytes m.toNat_lt, ofLEBytes_leBytes n.toNat_lt] at hnum
  exact UInt64.toNat_inj.mp hnum

/-- **The key** is the timestamp and the address. -/
theorem key_eq_iff {e e' : Entry} : e.key sPrefix = e'.key sPrefix ↔
    (e.timestamp, e.pPayload) = (e'.timestamp, e'.pPayload) := by
  have hbytes : e.key sPrefix = e'.key sPrefix ↔ e.keyBytes sPrefix = e'.keyBytes sPrefix :=
    ⟨fun h => congrArg Vector.toList h, fun h => by unfold Entry.key; simp [h]⟩
  rw [hbytes, Entry.keyBytes, Entry.keyBytes, List.cons.injEq, List.cons.injEq,
    and_iff_right rfl, and_iff_right rfl]
  constructor
  · intro h
    obtain ⟨htime, haddress⟩ := append_inj h (by simp)
    rw [Prod.mk.injEq]
    exact ⟨toUInt64_inj (leBytes_eq_iff.mp htime), leBytes_eq_iff.mp haddress⟩
  · intro h
    obtain ⟨htime, haddress⟩ := Prod.mk.inj h
    rw [htime, haddress]

theorem keyTime_key : keyTime (e.key sPrefix) = e.timestamp := by
  rw [keyTime, key_toList]
  show (UInt64.ofNat (ofLEBytes ((leBytes 8 _ ++ leBytes 8 _).take 8))).toInt64 = _
  rw [take_left' (leBytes_length 8 _), ofLEBytes_leBytes e.timestamp.toUInt64.toNat_lt,
    UInt64.ofNat_toNat]
  rfl

theorem compare_key {e e' : Entry} (hne : e.timestamp ≠ e'.timestamp) :
    compare (e.key sPrefix).toList (e'.key sPrefix).toList =
      compare (leBytes 8 e.timestamp.toUInt64.toNat) (leBytes 8 e'.timestamp.toUInt64.toNat) := by
  have hbytes : leBytes 8 e.timestamp.toUInt64.toNat ≠ leBytes 8 e'.timestamp.toUInt64.toNat :=
    fun h => hne (toUInt64_inj (leBytes_eq_iff.mp h))
  rw [key_toList, key_toList, Entry.keyBytes, Entry.keyBytes, List.compare_cons_cons,
    List.compare_cons_cons, Std.ReflOrd.compare_self, Std.ReflOrd.compare_self]
  exact compare_append (by simp) hbytes _ _

/-! ## §3. The iterator. -/

/-- Every key with the prefix is that of a message. -/
def SmesgsOnly (sPrefix : UInt8 × UInt8) (l : List (Bytes × Bytes)) : Prop :=
  ∀ e ∈ l, e.1.take 2 = [sPrefix.1, sPrefix.2] →
    e.1.length = 18 ∧ (SmesgStored.unserialize e.2).isSome

theorem nextSmesgs_sound (hsorted : l.Pairwise fun a b => compare a.1 b.1 = .lt) :
    ((nextSmesgs sPrefix l).Pairwise fun a b => compare a.1.toList b.1.toList = .lt) ∧
      ∀ e ∈ nextSmesgs sPrefix l, e.1.toList.take 2 = [sPrefix.1, sPrefix.2] ∧
        ∃ value, (e.1.toList, value) ∈ l ∧ SmesgStored.unserialize value = some e.2 := by
  induction l with
  | nil => exact ⟨.nil, fun e h => (nomatch h)⟩
  | cons kv l ih =>
    obtain ⟨key, value⟩ := kv
    obtain ⟨hfirst, hrest⟩ := pairwise_cons.mp hsorted
    obtain ⟨hpairs, hthere⟩ := ih hrest
    rw [nextSmesgs]
    split
    next hkey =>
      split
      next smsgStored hvalue =>
        constructor
        · refine pairwise_cons.mpr ⟨fun e he => ?_, hpairs⟩
          obtain ⟨-, v, hv, -⟩ := hthere e he
          exact hfirst _ hv
        · intro e he
          obtain rfl | he := mem_cons.mp he
          · exact ⟨hkey.2, value, mem_cons_self, hvalue⟩
          · obtain ⟨htake, v, hv, hread⟩ := hthere e he
            exact ⟨htake, v, mem_cons_of_mem _ hv, hread⟩
      next => exact ⟨.nil, fun e h => (nomatch h)⟩
    next => exact ⟨.nil, fun e h => (nomatch h)⟩

theorem nextSmesgs_complete {chKey : SmesgKey} {value : Bytes}
    (hsorted : l.Pairwise fun a b => compare a.1 b.1 = .lt) (honly : SmesgsOnly sPrefix l)
    (hlow : ∀ e ∈ l, compare e.1 [sPrefix.1, sPrefix.2] ≠ .lt) (hmem : (chKey.toList, value) ∈ l)
    (htake : chKey.toList.take 2 = [sPrefix.1, sPrefix.2])
    (hread : SmesgStored.unserialize value = some smsgStored) :
    (chKey, smsgStored) ∈ nextSmesgs sPrefix l := by
  induction l with
  | nil => cases hmem
  | cons kv l ih =>
    obtain ⟨key, v⟩ := kv
    obtain ⟨hfirst, hrest⟩ := pairwise_cons.mp hsorted
    have hcut : key.take 2 = [sPrefix.1, sPrefix.2] := by
      obtain heq | hlater := mem_cons.mp hmem
      · rw [← (Prod.mk.inj heq).1]
        exact htake
      · have hbelow : compare key chKey.toList = .lt := hfirst _ hlater
        rw [← take_append_drop 2 chKey.toList, htake] at hbelow
        exact take_of_between _ (hlow _ mem_cons_self) (by rw [hbelow]; exact nofun)
    obtain ⟨hlen, hsome⟩ := honly _ mem_cons_self hcut
    obtain ⟨found, hfound⟩ := Option.isSome_iff_exists.mp hsome
    rw [nextSmesgs, dif_pos ⟨hlen, hcut⟩]
    dsimp only at hfound
    rw [hfound]
    obtain heq | hlater := mem_cons.mp hmem
    · obtain ⟨hkey, rfl⟩ := Prod.mk.inj heq
      obtain rfl := Option.some.inj (hread.symm.trans hfound)
      refine mem_cons.mpr (.inl (Prod.ext ?_ rfl))
      apply Vector.toList_inj.mp
      exact hkey
    · exact mem_cons_of_mem _ (ih hrest (fun e he => honly e (mem_cons_of_mem _ he))
        (fun e he => hlow e (mem_cons_of_mem _ he)) hlater)

theorem mem_seek {p : Bytes} (hsorted : l.Pairwise fun a b => compare a.1 b.1 = .lt)
    (e : Bytes × Bytes) :
    e ∈ (l.dropWhile fun e => compare e.1 p == .lt) ↔ e ∈ l ∧ compare e.1 p ≠ .lt := by
  induction l with
  | nil => simp
  | cons x l ih =>
    obtain ⟨hfirst, hrest⟩ := pairwise_cons.mp hsorted
    by_cases hx : compare x.1 p = .lt
    · rw [dropWhile_cons_of_pos (by simp [hx]), ih hrest, mem_cons]
      refine ⟨fun h => ⟨.inr h.1, h.2⟩, fun h => ⟨h.1.resolve_left ?_, h.2⟩⟩
      intro heq
      exact h.2 (heq ▸ hx)
    · rw [dropWhile_cons_of_neg (by simp [hx])]
      refine ⟨fun h => ⟨h, fun hlt => ?_⟩, And.left⟩
      obtain rfl | hlater := mem_cons.mp h
      · exact hx hlt
      · exact hx (Std.TransCmp.lt_trans (hfirst e hlater) hlt)

theorem not_lt_of_take {key : Bytes} {a b : UInt8} (h : key.take 2 = [a, b]) :
    compare key [a, b] ≠ .lt := by
  rw [← take_append_drop 2 key, h, cons_append, cons_append,
    List.compare_cons_cons, List.compare_cons_cons, Std.ReflOrd.compare_self,
    Std.ReflOrd.compare_self]
  cases key.drop 2 with
  | nil => exact nofun
  | cons c r =>
    show compare (c :: r) [] ≠ .lt
    rw [List.compare_cons_nil]
    exact nofun

theorem smesgsUnder_sorted (pdb : Stored) :
    (smesgsUnder sPrefix pdb).Pairwise fun a b => compare a.1.toList b.1.toList = .lt :=
  (nextSmesgs_sound (Std.ExtTreeMap.ordered_keys_toList.sublist
    (dropWhile_suffix _).sublist)).1

theorem mem_smesgsUnder (honly : SmesgsOnly sPrefix pdb.toList) {chKey : SmesgKey} :
    (chKey, smsgStored) ∈ smesgsUnder sPrefix pdb ↔
      chKey.toList.take 2 = [sPrefix.1, sPrefix.2] ∧
        pdb[chKey.toList]?.bind SmesgStored.unserialize = some smsgStored := by
  have hsorted : pdb.toList.Pairwise fun a b => compare a.1 b.1 = .lt :=
    Std.ExtTreeMap.ordered_keys_toList
  have hrest := hsorted.sublist
    (dropWhile_suffix fun e => compare e.1 [sPrefix.1, sPrefix.2] == .lt).sublist
  constructor
  · intro h
    obtain ⟨htake, value, hmem, hread⟩ := (nextSmesgs_sound hrest).2 _ h
    have hget := Std.ExtTreeMap.mem_toList_iff_getElem?_eq_some.mp ((mem_seek hsorted _).mp hmem).1
    rw [hget]
    exact ⟨htake, hread⟩
  · intro ⟨htake, hread⟩
    obtain ⟨value, hget, hvalue⟩ := Option.bind_eq_some_iff.mp hread
    have hmem := Std.ExtTreeMap.mem_toList_iff_getElem?_eq_some.mpr hget
    refine nextSmesgs_complete hrest ?_ ?_ ((mem_seek hsorted _).mpr ⟨hmem, ?_⟩) htake hvalue
    · intro e he
      exact honly e ((mem_seek hsorted e).mp he).1
    · intro e he
      exact ((mem_seek hsorted e).mp he).2
    · exact not_lt_of_take htake

/-! ## §4. The calls. -/

def written (sPrefix : UInt8 × UInt8) (es : List Entry) : List (SmesgKey × SmesgStored) :=
  es.map fun e => (e.key sPrefix, e.smsgStored)

variable (sends : List Send)

def writes : List (SmesgKey × SmesgStored) :=
  sends.flatMap fun s => (s.queued.key queuePrefix, s.queued.smsgStored) ::
    (s.copy.map fun e => (e.key outboxPrefix, e.smsgStored)).toList

def writeAll (pdb : Stored) (ws : List (SmesgKey × SmesgStored)) : Stored :=
  ws.foldl (fun pdb w => pdb.insert w.1.toList w.2.serialize) pdb

theorem foldl_sendSmesg :
    ∀ pdb : Stored, sends.foldl sendSmesg ⟨pdb, none⟩ = ⟨writeAll pdb (writes sends), none⟩ := by
  induction sends with
  | nil => exact fun _ => rfl
  | cons s sends ih =>
    intro pdb
    have hfirst : sendSmesg ⟨pdb, none⟩ s = ⟨writeAll pdb (writes [s]), none⟩ := by
      obtain ⟨queued, copy⟩ := s
      cases copy with
      | none => rfl
      | some e => rfl
    have happend : writes (s :: sends) = writes [s] ++ writes sends := by
      simp [writes]
    rw [foldl_cons, hfirst, ih, happend, writeAll, writeAll, writeAll, foldl_append]

theorem get_writeAll_of_not_mem {key : Bytes} (ws : List (SmesgKey × SmesgStored)) :
    ∀ {pdb : Stored}, (∀ w ∈ ws, w.1.toList ≠ key) → (writeAll pdb ws)[key]? = pdb[key]? := by
  induction ws with
  | nil => exact fun _ => rfl
  | cons w ws ih =>
    intro pdb h
    have hrest := @ih (pdb.insert w.1.toList w.2.serialize) fun w' hw' =>
      h w' (mem_cons_of_mem _ hw')
    exact hrest.trans (StdMap.get_insert_ne _ _ (h w mem_cons_self))

theorem get_writeAll_of_mem {w : SmesgKey × SmesgStored} (ws : List (SmesgKey × SmesgStored)) :
    ∀ {pdb : Stored}, (ws.map Prod.fst).Nodup → w ∈ ws →
      (writeAll pdb ws)[w.1.toList]? = some w.2.serialize := by
  induction ws with
  | nil => exact fun _ h => (nomatch h)
  | cons w' ws ih =>
    intro pdb hnodup hmem
    obtain ⟨hnot, hrest⟩ := nodup_cons.mp hnodup
    obtain rfl | hlater := mem_cons.mp hmem
    · refine (get_writeAll_of_not_mem ws fun w' hw' heq => ?_).trans (StdMap.get_insert_self _ _ _)
      exact hnot (mem_map.mpr ⟨w', hw', Vector.toList_inj.mp heq⟩)
    · exact ih hrest hlater

def HasPrefix (sPrefix : UInt8 × UInt8) (w : SmesgKey × SmesgStored) : Prop :=
  w.1.toList.take 2 = [sPrefix.1, sPrefix.2]

instance (w : SmesgKey × SmesgStored) : Decidable (HasPrefix sPrefix w) :=
  inferInstanceAs (Decidable (_ = _))

theorem nodup_smesgsUnder (pdb : Stored) : ((smesgsUnder sPrefix pdb).map Prod.fst).Nodup := by
  rw [List.Nodup, pairwise_map]
  refine (smesgsUnder_sorted pdb).imp fun {a b} hlt heq => ?_
  rw [heq, Std.ReflOrd.compare_self] at hlt
  cases hlt

/-- **With keys of its own each write is found**, and nothing else is. -/
theorem smesgsUnder_perm {ws : List (SmesgKey × SmesgStored)} (hnodup : (ws.map Prod.fst).Nodup)
    (hread : ∀ w ∈ ws, w.2.Readable)
    (hnone : ∀ key value : Bytes, pdb[key]? = some value → key.take 2 ≠ [sPrefix.1, sPrefix.2]) :
    (smesgsUnder sPrefix (writeAll pdb ws)).Perm (ws.filter fun w => HasPrefix sPrefix w) := by
  have hget {key value : Bytes} (h : (writeAll pdb ws)[key]? = some value)
      (htake : key.take 2 = [sPrefix.1, sPrefix.2]) :
      ∃ w ∈ ws, w.1.toList = key ∧ w.2.serialize = value := by
    by_cases hkey : ∃ w ∈ ws, w.1.toList = key
    · obtain ⟨w, hw, rfl⟩ := hkey
      rw [get_writeAll_of_mem ws hnodup hw] at h
      exact ⟨w, hw, rfl, Option.some.inj h⟩
    · rw [get_writeAll_of_not_mem ws fun w hw heq => hkey ⟨w, hw, heq⟩] at h
      exact absurd htake (hnone key value h)
  have honly : SmesgsOnly sPrefix (writeAll pdb ws).toList := by
    intro ⟨key, value⟩ he htake
    obtain ⟨w, hw, rfl, rfl⟩ := hget (Std.ExtTreeMap.mem_toList_iff_getElem?_eq_some.mp he) htake
    exact ⟨w.1.length_toList, by rw [unserialize_serialize (hread w hw)]; rfl⟩
  refine (perm_ext_iff_of_nodup (nodup_smesgsUnder _).of_map
    (hnodup.of_map.filter _)).mpr fun ⟨chKey, smsgStored⟩ => ?_
  rw [mem_smesgsUnder honly, mem_filter, decide_eq_true_iff, and_comm]
  refine and_congr_left fun htake => ⟨fun h => ?_, fun hw => ?_⟩
  · obtain ⟨value, hvalue, hfound⟩ := Option.bind_eq_some_iff.mp h
    obtain ⟨w, hw, hkey, rfl⟩ := hget hvalue htake
    rw [unserialize_serialize (hread w hw)] at hfound
    have heq : w = (chKey, smsgStored) :=
      Prod.ext (Vector.toList_inj.mp hkey) (Option.some.inj hfound)
    exact heq ▸ hw
  · rw [get_writeAll_of_mem ws hnodup hw]
    exact unserialize_serialize (hread _ hw)

theorem writes_perm : (writes sends).Perm (written queuePrefix (sends.map Send.queued) ++
    written outboxPrefix (sends.filterMap Send.copy)) := by
  induction sends with
  | nil => exact .nil
  | cons s sends ih =>
    have happend : writes (s :: sends) = (s.queued.key queuePrefix, s.queued.smsgStored) ::
        ((s.copy.map fun e => (e.key outboxPrefix, e.smsgStored)).toList ++ writes sends) := by
      simp [writes]
    rw [happend, map_cons]
    refine List.Perm.cons _ ?_
    obtain ⟨queued, copy⟩ := s
    cases copy with
    | none => exact ih
    | some e => exact (ih.cons _).trans perm_middle.symm

theorem hasPrefix_written {es : List Entry} {p : UInt8 × UInt8} {w : SmesgKey × SmesgStored}
    (hw : w ∈ written p es) : HasPrefix sPrefix w ↔ p = sPrefix := by
  obtain ⟨e, -, rfl⟩ := mem_map.mp hw
  show [p.1, p.2] = [sPrefix.1, sPrefix.2] ↔ _
  simp [Prod.ext_iff]

theorem filter_written (p : UInt8 × UInt8) (es : List Entry) :
    (written p es).filter (fun w => HasPrefix sPrefix w) =
      if p = sPrefix then written p es else [] := by
  split
  next heq => exact filter_eq_self.mpr fun w hw => by simpa using (hasPrefix_written hw).mpr heq
  next hne => exact filter_eq_nil_iff.mpr fun w hw => by simpa using (hasPrefix_written hw).not.mpr hne

theorem nodup_written_iff {es : List Entry} : ((written sPrefix es).map Prod.fst).Nodup ↔
    (es.map fun e => (e.timestamp, e.pPayload)).Nodup := by
  simp only [written, map_map, List.Nodup, pairwise_map, Function.comp_apply, ne_eq,
    key_eq_iff]

theorem powLoop_visited {setHash : SmesgStored → Nat} (hruns : ∀ smsgStored, setHash smsgStored ≠ 2)
    (it : List (SmesgKey × SmesgStored)) : ∀ db, (powLoop setHash it db).1 = it := by
  induction it with
  | nil => exact fun _ => rfl
  | cons e it ih =>
    intro db
    rw [powLoop, if_neg (hruns e.2)]
    exact congrArg _ (ih _)

theorem smesgsUnder_sends (hnone : NoSmesgs pdb) {sends : List Send}
    (hqueued : ((written queuePrefix (sends.map Send.queued)).map Prod.fst).Nodup)
    (hcopies : ((written outboxPrefix (sends.filterMap Send.copy)).map Prod.fst).Nodup) :
    (smesgsUnder queuePrefix (writeAll pdb (writes sends))).Perm
        (written queuePrefix (sends.map Send.queued)) ∧
      (smesgsUnder outboxPrefix (writeAll pdb (writes sends))).Perm
        (written outboxPrefix (sends.filterMap Send.copy)) := by
  have hperm := writes_perm sends
  have hnodup : ((writes sends).map Prod.fst).Nodup := by
    rw [(hperm.map Prod.fst).nodup_iff, map_append]
    refine hqueued.append hcopies fun chKey hq ho => ?_
    obtain ⟨w, hw, rfl⟩ := mem_map.mp hq
    obtain ⟨w', hw', heq⟩ := mem_map.mp ho
    have htake : HasPrefix outboxPrefix w := by
      rw [HasPrefix, ← heq]
      exact (hasPrefix_written hw').mpr rfl
    exact absurd ((hasPrefix_written hw).mp htake) (by decide)
  have hread : ∀ w ∈ writes sends, w.2.Readable := by
    intro w hw
    obtain hw | hw := mem_append.mp (hperm.mem_iff.mp hw)
    · obtain ⟨e, -, rfl⟩ := mem_map.mp hw
      exact e.readable
    · obtain ⟨e, -, rfl⟩ := mem_map.mp hw
      exact e.readable
  have hcut (sPrefix : UInt8 × UInt8) := (hperm.filter fun w => HasPrefix sPrefix w).trans
    (.of_eq (by rw [filter_append, filter_written, filter_written]))
  constructor
  · refine (smesgsUnder_perm hnodup hread fun key value h => (hnone key value h).1).trans ?_
    simpa [queuePrefix, outboxPrefix] using hcut queuePrefix
  · refine (smesgsUnder_perm hnodup hread fun key value h => (hnone key value h).2).trans ?_
    simpa [queuePrefix, outboxPrefix] using hcut outboxPrefix

def Before (a b : SmesgKey × SmesgStored) : Prop :=
  compare a.1.toList b.1.toList = .lt ∧ keyTime a.1 ≤ keyTime b.1

theorem order_iff {sends : List Send} {visited : List (SmesgKey × SmesgStored)}
    (hperm : visited.Perm (written queuePrefix (sends.map Send.queued)))
    (hsorted : visited.Pairwise fun a b => compare a.1.toList b.1.toList = .lt) :
    (visited.Pairwise fun a b => keyTime a.1 ≤ keyTime b.1) ↔
      ∀ s ∈ sends, ∀ s' ∈ sends, s.queued.timestamp < s'.queued.timestamp →
        compare (leBytes 8 s.queued.timestamp.toUInt64.toNat)
          (leBytes 8 s'.queued.timestamp.toUInt64.toNat) = .lt := by
  have hmem (s : Send) (hs : s ∈ sends) :
      (s.queued.key queuePrefix, s.queued.smsgStored) ∈ visited :=
    hperm.mem_iff.mpr (mem_map_of_mem (mem_map_of_mem hs))
  constructor
  · intro htimes s hs s' hs' hlt
    have hne : s.queued.timestamp ≠ s'.queued.timestamp := Int64.ne_of_lt hlt
    have hkeys : s.queued.key queuePrefix ≠ s'.queued.key queuePrefix := fun heq =>
      hne (Prod.mk.inj (key_eq_iff.mp heq)).1
    -- one of the two comes first
    have hboth : visited.Pairwise fun a b => Before a b ∨ Before b a :=
      (hsorted.and htimes).imp fun h => .inl h
    have hsymm : Std.Symm fun a b => Before a b ∨ Before b a := ⟨fun _ _ h => h.symm⟩
    obtain ⟨hfirst, -⟩ | ⟨-, hle⟩ := hboth.forall (hmem s hs) (hmem s' hs')
      fun heq => hkeys (congrArg Prod.fst heq)
    · rw [← @compare_key queuePrefix _ _ hne]
      exact hfirst
    · rw [keyTime_key, keyTime_key] at hle
      exact absurd hlt (Int64.not_lt.mpr hle)
  · intro horder
    refine hsorted.imp_of_mem fun {a b} ha hb hlt => ?_
    obtain ⟨e, he, rfl⟩ := mem_map.mp (hperm.mem_iff.mp ha)
    obtain ⟨e', he', rfl⟩ := mem_map.mp (hperm.mem_iff.mp hb)
    obtain ⟨s, hs, rfl⟩ := mem_map.mp he
    obtain ⟨s', hs', rfl⟩ := mem_map.mp he'
    rw [keyTime_key, keyTime_key]
    refine Int64.not_lt.mp fun hless => ?_
    have hback := horder s' hs' s hs hless
    rw [← @compare_key queuePrefix _ _ (Int64.ne_of_lt hless)] at hback
    exact absurd (Std.TransCmp.lt_trans hlt hback) (by simp)

/-- **The messages that are queued without loss and in order**, where all wait for one round. -/
theorem queues_iff (setHash : SmesgStored → Nat)
    (hruns : ∀ smsgStored, setHash smsgStored ≠ 2) (db : SecMsgDB)
    (hbatch : db.activeBatch = none) (hnone : NoSmesgs db.pdb) (sends : List Send) :
    Queues setHash db sends ↔ Distinguishable sends := by
  obtain ⟨pdb, activeBatch⟩ := db
  subst hbatch
  have hend := foldl_sendSmesg sends pdb
  have hround : (powRound setHash (sends.foldl sendSmesg ⟨pdb, none⟩)).1 =
      smesgsUnder queuePrefix (writeAll pdb (writes sends)) := by
    rw [hend, powRound, powLoop_visited hruns]
  have hqueued : ((written queuePrefix (sends.map Send.queued)).map Prod.fst).Nodup ↔
      (sends.map fun s => (s.queued.timestamp, s.queued.pPayload)).Nodup := by
    rw [nodup_written_iff, map_map]
    rfl
  have hentries : written queuePrefix (sends.map Send.queued) =
      sends.map fun s => (s.queued.key queuePrefix, s.queued.smsgStored) := map_map
  have hsorted := @smesgsUnder_sorted queuePrefix (writeAll pdb (writes sends))
  constructor
  · intro ⟨hvisited, houtbox, horder⟩
    rw [hround, ← hentries] at hvisited
    rw [hround] at horder
    rw [hend] at houtbox
    have hcopies := (houtbox.map Prod.fst).nodup_iff.mp (nodup_smesgsUnder _)
    refine ⟨hqueued.mp ?_, nodup_written_iff.mp hcopies, (order_iff hvisited hsorted).mp horder⟩
    exact (hvisited.map Prod.fst).nodup_iff.mp (nodup_smesgsUnder _)
  · intro ⟨hpairs, hcopies, horder⟩
    obtain ⟨hvisited, houtbox⟩ := smesgsUnder_sends hnone (hqueued.mpr hpairs)
      (nodup_written_iff.mpr hcopies)
    refine ⟨?_, ?_, ?_⟩
    · rw [hround, ← hentries]
      exact hvisited
    · rw [hend]
      exact houtbox
    · rw [hround]
      exact (order_iff hvisited hsorted).mpr horder

def entryAt (timestamp : Int64) (pPayload : UInt64) (letter : UInt8) : Entry where
  timestamp := timestamp
  pPayload := pPayload
  smsgStored := ⟨timestamp, 0, 0, [letter], [], [letter]⟩
  readable := ⟨by simp [MAX_SIZE], by simp [MAX_SIZE], by simp [MAX_SIZE]⟩

theorem noSmesgs_empty : NoSmesgs ∅ := by
  intro key value h
  rw [StdMap.get_empty] at h
  cases h

def atOnce : SmesgStored → Nat := fun _ => 0

/-- **Two messages of one second** whose payloads were at one address, as the first was freed: the
second overwrites the first.  Of two messages, one second apart, the later one is visited first. -/
theorem queue_overwrites :
    ¬ Queues atOnce ⟨∅, none⟩ [⟨entryAt 1700000000 4096 65, none⟩,
        ⟨entryAt 1700000000 4096 66, none⟩] ∧
      ¬ Queues atOnce ⟨∅, none⟩ [⟨entryAt 1700000255 4096 65, none⟩,
        ⟨entryAt 1700000256 8192 66, none⟩] := by
  constructor
  · intro h
    have hlength := h.visited.length_eq
    exact absurd hlength (by decide +kernel)
  · intro h
    exact absurd h.order (by decide +kernel)

theorem queues_iff_twoSent : Queues atOnce ⟨∅, none⟩ [⟨entryAt 1700000000 4096 65, none⟩,
    ⟨entryAt 1700000001 4096 66, some (entryAt 1700000001 8192 67)⟩] :=
  (queues_iff atOnce (fun _ => Nat.zero_ne_add_one 1) ⟨∅, none⟩ rfl noSmesgs_empty _).mpr
    ⟨by decide, by decide, by decide⟩

end Fantom.Smsg
