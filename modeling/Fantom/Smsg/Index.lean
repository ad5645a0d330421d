/-
  Fantom.Smsg.Index — The tokens of the message store against its files.

  * `Indexed`, `Inv` — a bucket's tokens are the places of the messages in its file,
  * `index_matches_iff` — the runs in which tokens and files match.

  A message with a payload of less than 8 bytes is stored, but the scan of its file at the start
  takes its payload for a header.  A scan of the buckets removes the files that it has read, and
  leaves their tokens.  A round of the thread that erases a bucket does not return.
-/
import Fantom.Smsg.Store
import Fantom.Lib.Runs

namespace Fantom.Smsg

open Core Lib SmsgStore List StdMap Std.ExtTreeMap

/-! ## §1. What is to hold. -/

/-- The tokens that have not expired lead to their messages, and are found again at a start. -/
structure IndexMatches (st : SmsgStore) : Prop where
  retrieves : ∀ bucket tokenSet token, st.smsgBuckets[bucket]? = some tokenSet →
    expired st.now bucket = false → TokenSet.Has tokenSet token →
    ∃ m : Message, st.secureMsgRetrieve token = some m.bytes ∧
      m.smsg.timestamp = token.timestamp ∧ m.pPayload.take 8 = token.sample.toList
  rebuilds : ∀ bucket, expired st.now bucket = false →
    st.restart.tokenSet bucket = st.tokenSet bucket

def Appends (st : SmsgStore) (m : Message) : Prop :=
  st.inTime m = true ∧ (st.tokenSet m.bucket).contains m.key = false

/-- A message that is appended to a bucket that has not expired has at least 8 bytes of
payload; the buckets are scanned when none that has not expired has a token; the thread comes
round when no bucket has expired. -/
def Keeps (hmac : HmacSha256) (st : SmsgStore) : Event → Prop
  | .store m => secureMsgValidate hmac m.smsg m.pPayload = 0 → Appends st m →
      expired st.now m.bucket = false → 8 ≤ m.pPayload.length
  | .scanBuckets isLocked => isLocked = false →
      ∀ bucket, expired st.now bucket = false → st.tokenSet bucket = ∅
  | .expire => ∀ bucket tokenSet, st.smsgBuckets[bucket]? = some tokenSet →
      expired st.now bucket = false
  | _ => True

/-! ## §2. The scan of a file. -/

theorem sampleOf_toList {pPayload : List UInt8} (h : 8 ≤ pPayload.length) :
    (sampleOf pPayload).toList = pPayload.take 8 := by
  rw [sampleOf, dif_pos h]
  rfl

theorem readSecureMessage_bytes (m : Message) (rest : List UInt8) :
    readSecureMessage.run (m.bytes ++ rest) = some (m.smsg, m.pPayload ++ rest) := by
  rw [Message.bytes, append_assoc]
  exact format_secureMessage.reads m.smsg _ trivial

theorem scanTokens_nil (ofs : Nat) (tokenSet : TokenSet) :
    scanTokens ofs [] tokenSet = tokenSet := by
  rw [scanTokens]
  rfl

variable {m : Message} {st : SmsgStore} {token : SecMsgToken}

theorem scanTokens_message (hlong : 8 ≤ m.pPayload.length) (ofs : Nat) (rest : List UInt8)
    (tokenSet : TokenSet) :
    scanTokens ofs (m.bytes ++ rest) tokenSet =
      scanTokens (ofs + m.bytes.length) rest (StdMap.insertNew tokenSet m.key ofs) := by
  have hsize := m.size
  -- the payload is its sample, and what `fseek` passes
  have hpayload : m.pPayload ++ rest =
      (sampleOf m.pPayload).toList ++ (m.pPayload.drop 8 ++ rest) := by
    rw [sampleOf_toList hlong, ← append_assoc, take_append_drop]
  have hsample : (readVector 8).run (m.pPayload ++ rest) =
      some (sampleOf m.pPayload, m.pPayload.drop 8 ++ rest) := by
    rw [hpayload]
    exact (format_vector_bytes 8).reads _ _ trivial
  have hbeyond : (m.pPayload.drop 8 ++ rest).drop (m.smsg.nPayload.toNat - 8) = rest := by
    have hlen : (m.pPayload.drop 8).length = m.smsg.nPayload.toNat - 8 := by
      rw [length_drop, hsize]
    exact drop_left' hlen
  have hnot : ¬ m.smsg.nPayload < 8 := by
    rw [UInt32.lt_iff_toNat_lt]
    show ¬ m.smsg.nPayload.toNat < 8
    omega
  rw [scanTokens]
  split
  next h =>
    rw [readSecureMessage_bytes] at h
    cases h
  next smsg payload h =>
    rw [readSecureMessage_bytes] at h
    cases h
    rw [if_neg hnot]
    split
    next h =>
      rw [hsample] at h
      cases h
    next sample beyond h =>
      rw [hsample] at h
      cases h
      rw [hbeyond, Message.bytes_length, Nat.add_assoc]
      rfl

/-- **The scan of a file** of messages with 8 bytes of payload finds the place of each. -/
theorem scanTokens_places {ms : List Message} (hlong : ∀ m ∈ ms, 8 ≤ m.pPayload.length)
    (ofs : Nat) (tokenSet : TokenSet) :
    scanTokens ofs (ms.flatMap Message.bytes) tokenSet =
      index Message.key tokenSet (places Message.bytes ofs ms) := by
  induction ms generalizing ofs tokenSet with
  | nil => exact scanTokens_nil ofs tokenSet
  | cons m ms ih =>
    rw [flatMap_cons, scanTokens_message (hlong m mem_cons_self),
      ih fun x hx => hlong x (mem_cons_of_mem m hx)]
    rfl

/-! ## §3. Reading a message back. -/

theorem secureMsgRetrieve_eq {file rest : List UInt8}
    (hfile : st.files[bucketOf token.timestamp]? = some file)
    (hdrop : file.drop token.offset = m.bytes ++ rest) :
    st.secureMsgRetrieve token = some m.bytes := by
  have hpayload := readTake_append m.pPayload rest
  rw [m.size] at hpayload
  rw [secureMsgRetrieve, hfile]
  show (readSecureMessage.run (file.drop token.offset) >>= _) = _
  rw [hdrop, readSecureMessage_bytes]
  show ((readTake m.smsg.nPayload.toNat).run (m.pPayload ++ rest) >>= _) = _
  rw [hpayload]
  rfl

theorem secureMsgRetrieve_none (hfile : st.files[bucketOf token.timestamp]? = none) :
    st.secureMsgRetrieve token = none := by
  rw [secureMsgRetrieve, hfile]
  rfl

/-! ## §4. The invariant. -/

/-- The file is messages behind one another, and the tokens are their places. -/
def Indexed (bucket : Int) (file : List UInt8) (tokenSet : TokenSet) : Prop :=
  ∃ ms : List Message, file = ms.flatMap Message.bytes ∧
    tokenSet = index Message.key ∅ (places Message.bytes 0 ms) ∧
    ∀ m ∈ ms, m.bucket = bucket ∧ 8 ≤ m.pPayload.length

/-- The buckets that have not expired are indexed. -/
def Inv (st : SmsgStore) : Prop :=
  ∀ bucket, expired st.now bucket = false →
    Indexed bucket (fileAt st.files bucket) (st.tokenSet bucket)

theorem indexed_nil (bucket : Int) : Indexed bucket [] ∅ :=
  ⟨[], rfl, rfl, forall_mem_nil _⟩

theorem inv_start (now : Int) : Inv (start now) := by
  intro bucket _
  have hfile : fileAt (start now).files bucket = [] := by
    show ((∅ : StdMap Int (List UInt8))[bucket]?).getD [] = []
    rw [get_empty]
    rfl
  have htokens : (start now).tokenSet bucket = ∅ := by
    show ((∅ : StdMap Int TokenSet)[bucket]?).getD ∅ = ∅
    rw [get_empty]
    rfl
  rw [hfile, htokens]
  exact indexed_nil bucket

section Indexed

variable {bucket : Int} {file : List UInt8} {tokenSet : TokenSet}

theorem Indexed.at_offset (h : Indexed bucket file tokenSet) (ht : tokenSet.Has token) :
    ∃ (m : Message) (rest : List UInt8), file.drop token.offset = m.bytes ++ rest ∧
      m.key = token.toSecMsgKey ∧ m.bucket = bucket ∧ 8 ≤ m.pPayload.length := by
  obtain ⟨ms, rfl, rfl, hms⟩ := h
  obtain ⟨m, hplace, hkey⟩ := get_index_places ht
  obtain ⟨rest, hread⟩ := format_message.read_place hplace trivial
  obtain ⟨before, after, heq, -⟩ := mem_places hplace
  have hm : m ∈ ms := by
    rw [heq]
    exact mem_append_right _ mem_cons_self
  exact ⟨m, rest, (format_message.takes _ _ _ hread).1, hkey, hms m hm⟩

theorem Indexed.scanTokens (h : Indexed bucket file tokenSet) :
    SmsgStore.scanTokens 0 file ∅ = tokenSet := by
  obtain ⟨ms, rfl, rfl, hms⟩ := h
  exact scanTokens_places (fun m hm => (hms m hm).2) 0 ∅

theorem Indexed.append (h : Indexed bucket file tokenSet) (hbucket : m.bucket = bucket)
    (hlong : 8 ≤ m.pPayload.length) :
    Indexed bucket (file ++ m.bytes) (StdMap.insertNew tokenSet m.key file.length) := by
  obtain ⟨ms, rfl, rfl, hms⟩ := h
  refine ⟨ms ++ [m], ?_, ?_, forall_mem_append.mpr ⟨hms, forall_mem_singleton.mpr ⟨hbucket, hlong⟩⟩⟩
  · rw [flatMap_append, flatMap_cons, flatMap_nil, append_nil]
  · rw [places_concat, index_concat, Nat.zero_add]

end Indexed

/-! ## §5. The buckets after one event. -/

theorem tokenSet_insert (st : SmsgStore) (files wlFiles : StdMap Int (List UInt8)) (bucket b : Int)
    (s : TokenSet) :
    SmsgStore.tokenSet ⟨st.now, files, wlFiles, st.smsgBuckets.insert bucket s⟩ b =
      if bucket = b then s else st.tokenSet b := by
  show ((st.smsgBuckets.insert bucket s)[b]?).getD ∅ = _
  rw [get_insert]
  split <;> rfl

theorem fileAt_insert (files : StdMap Int (List UInt8)) (bucket b : Int) (file : List UInt8) :
    fileAt (files.insert bucket file) b = if bucket = b then file else fileAt files b := by
  rw [fileAt, get_insert]
  split <;> rfl

theorem get_filter_of {V : Type} {m : StdMap Int V} {p : Int → V → Bool} {b : Int}
    (h : ∀ v, p b v = true) : (m.filter p)[b]? = m[b]? := by
  rw [Std.ExtTreeMap.getElem?_filter']
  cases hb : m[b]? with
  | none => rfl
  | some v => simp [h]

theorem get_unexpired {V : Type} {now : Int} {m : StdMap Int V} {b : Int}
    (h : expired now b = false) : (unexpired now m)[b]? = m[b]? :=
  get_filter_of fun _ => by rw [h]; rfl

theorem tokenSet_restart (st : SmsgStore) {bucket : Int} (h : expired st.now bucket = false) :
    st.restart.tokenSet bucket = scanTokens 0 (fileAt st.files bucket) ∅ := by
  have hempty : SmsgStore.tokenSet { st with smsgBuckets := ∅ } bucket = ∅ := by
    show ((∅ : StdMap Int TokenSet)[bucket]?).getD ∅ = ∅
    rw [get_empty]
    rfl
  show ((StdMap.overlay (∅ : StdMap Int TokenSet) ((unexpired st.now st.files).map
    fun fileTime file => scanTokens 0 file
      (SmsgStore.tokenSet { st with smsgBuckets := ∅ } fileTime)))[bucket]?).getD ∅ = _
  rw [get_overlay, get_empty, Option.or_none, Std.ExtTreeMap.getElem?_map,
    get_unexpired h, fileAt]
  cases hfile : st.files[bucket]? with
  | none => exact (scanTokens_nil 0 ∅).symm
  | some file =>
    show scanTokens 0 file _ = _
    rw [hempty]
    rfl

theorem fileAt_restart (st : SmsgStore) {bucket : Int} (h : expired st.now bucket = false) :
    fileAt st.restart.files bucket = fileAt st.files bucket := by
  show ((unexpired st.now st.files)[bucket]?).getD [] = _
  rw [get_unexpired h]
  rfl

theorem get_of_has {bucket : Int} (h : TokenSet.Has (st.tokenSet bucket) token) :
    ∃ tokenSet, st.smsgBuckets[bucket]? = some tokenSet ∧ TokenSet.Has tokenSet token := by
  unfold SmsgStore.tokenSet at h
  cases hset : st.smsgBuckets[bucket]? with
  | none =>
    rw [hset] at h
    exact absurd ((get_empty _).symm.trans h) (by simp)
  | some tokenSet =>
    rw [hset] at h
    exact ⟨tokenSet, rfl, h⟩

theorem secureMsgStore_cases (st : SmsgStore) (m : Message) :
    (st.secureMsgStore m).2.now = st.now ∧
    ((¬ Appends st m ∧ ∀ b, fileAt (st.secureMsgStore m).2.files b = fileAt st.files b ∧
        (st.secureMsgStore m).2.tokenSet b = st.tokenSet b) ∨
      (Appends st m ∧ ∀ b,
        (fileAt (st.secureMsgStore m).2.files b =
          if m.bucket = b then fileAt st.files b ++ m.bytes else fileAt st.files b) ∧
        (st.secureMsgStore m).2.tokenSet b =
          if m.bucket = b then
            StdMap.insertNew (st.tokenSet b) m.key (fileAt st.files b).length
          else st.tokenSet b)) := by
  unfold secureMsgStore
  by_cases htime : st.inTime m = true
  · rw [if_neg (by simp [htime])]
    dsimp only
    by_cases hknown : (st.tokenSet m.bucket).contains m.key = true
    · rw [if_pos hknown]
      refine ⟨rfl, .inl ⟨fun h => ?_, fun b => ⟨rfl, ?_⟩⟩⟩
      · rw [h.2] at hknown
        cases hknown
      · rw [tokenSet_insert]
        split
        next heq => rw [heq]
        next => rfl
    · rw [if_neg hknown]
      refine ⟨rfl, .inr ⟨⟨htime, Bool.not_eq_true _ ▸ hknown⟩, fun b => ⟨?_, ?_⟩⟩⟩
      · show fileAt (st.files.insert m.bucket _) b = _
        rw [fileAt_insert]
        split
        next heq => rw [heq]
        next => rfl
      · rw [tokenSet_insert]
        split
        next heq => rw [heq]
        next => rfl
  · rw [if_pos (by simp [htime])]
    exact ⟨rfl, .inl ⟨fun h => htime h.1, fun b => ⟨rfl, rfl⟩⟩⟩

/-! ## §6. The steps. -/

theorem expired_mono {now bucket : Int} {seconds : Nat}
    (h : expired (now + seconds) bucket = false) : expired now bucket = false := by
  simp only [expired, decide_eq_false_iff_not] at h ⊢
  omega

theorem inv_store (hI : Inv st)
    (hlong : Appends st m → expired st.now m.bucket = false → 8 ≤ m.pPayload.length) :
    Inv (st.secureMsgStore m).2 := by
  obtain ⟨hnow, ⟨-, hsame⟩ | ⟨happends, hmore⟩⟩ := secureMsgStore_cases st m
  · intro b hb
    rw [hnow] at hb
    rw [(hsame b).1, (hsame b).2]
    exact hI b hb
  · intro b hb
    rw [hnow] at hb
    rw [(hmore b).1, (hmore b).2]
    by_cases heq : m.bucket = b
    · rw [if_pos heq, if_pos heq]
      refine (hI b hb).append heq (hlong happends ?_)
      rw [heq]
      exact hb
    · rw [if_neg heq, if_neg heq]
      exact hI b hb

theorem SmsgStore.threadSecureMsg_ok {st st' : SmsgStore} (h : st.threadSecureMsg = .ok st') :
    st' = st := by
  unfold threadSecureMsg at h
  split at h
  · cases h
  · exact (Except.ok.inj h).symm

/-- A round of the thread returns exactly if no bucket has expired. -/
theorem keeps_expire_iff {hmac : HmacSha256} :
    Keeps hmac st .expire ↔ st.threadSecureMsg = .ok st := by
  have hany : (st.smsgBuckets.toList.any fun e => expired st.now e.1) = false ↔
      Keeps hmac st .expire := by
    rw [any_eq_false]
    constructor
    · intro h bucket tokenSet hget
      have hmem := mem_toList_iff_getElem?_eq_some.mpr hget
      exact eq_false_of_ne_true (h (bucket, tokenSet) hmem)
    · rintro h ⟨bucket, tokenSet⟩ hmem
      rw [h bucket tokenSet (mem_toList_iff_getElem?_eq_some.mp hmem)]
      decide
  rw [← hany, threadSecureMsg]
  split
  next h => exact ⟨fun hnot => absurd (h.symm.trans hnot) (by decide), nofun⟩
  next h => exact ⟨fun _ => rfl, fun _ => eq_false_of_ne_true h⟩

/-- **One event** that meets its condition returns, and keeps the invariant. -/
theorem inv_step {hmac : HmacSha256} {e : Event} (hI : Inv st) (hkeeps : Keeps hmac st e) :
    Returns (step hmac st e) Inv := by
  cases e with
  | wait seconds => exact .ok fun b hb => hI b (expired_mono hb)
  | store m =>
    refine .ok ?_
    rw [storeValid]
    split
    next hvalid => exact inv_store hI (hkeeps hvalid)
    next => exact hI
  | storeUnscanned m =>
    refine .ok ?_
    unfold secureMsgStoreUnscanned
    split
    · exact hI
    · exact hI
  | scanBuckets isLocked =>
    refine .ok ?_
    cases isLocked with
    | true => exact hI
    | false =>
      intro b hb
      have hfile : fileAt (∅ : StdMap Int (List UInt8)) b = [] := by
        rw [fileAt, get_empty]
        rfl
      have htokens : st.tokenSet b = ∅ := hkeeps rfl b hb
      show Indexed b (fileAt ∅ b) (st.tokenSet b)
      rw [hfile, htokens]
      exact indexed_nil b
  | walletUnlocked isLocked =>
    refine .ok ?_
    cases isLocked with
    | true => exact hI
    | false => exact hI
  | expire => exact ⟨st, keeps_expire_iff.mp hkeeps, hI⟩
  | restart =>
    refine .ok fun b hb => ?_
    have hindexed := hI b hb
    rw [fileAt_restart st hb, tokenSet_restart st hb, hindexed.scanTokens]
    exact hindexed

theorem matches_of_inv (hI : Inv st) : IndexMatches st where
  retrieves := by
    intro bucket tokenSet token hbucket hexpired ht
    have htokens : st.tokenSet bucket = tokenSet := by
      rw [SmsgStore.tokenSet, hbucket]
      rfl
    have hindexed := hI bucket hexpired
    rw [htokens] at hindexed
    obtain ⟨m, rest, hdrop, hkey, hm, hlong⟩ := hindexed.at_offset ht
    have htimestamp : m.smsg.timestamp = token.timestamp := congrArg SecMsgKey.timestamp hkey
    have hsample : sampleOf m.pPayload = token.sample := congrArg SecMsgKey.sample hkey
    refine ⟨m, ?_, htimestamp, ?_⟩
    · -- a file that is not there has no message at any offset
      cases hfile : st.files[bucket]? with
      | none =>
        rw [fileAt, hfile] at hdrop
        have hlen := congrArg length hdrop
        rw [length_append, Message.bytes_length, SMSG_HDR_LEN, length_drop] at hlen
        simp only [Option.getD_none, length_nil] at hlen
        omega
      | some file =>
        rw [fileAt, hfile] at hdrop
        refine secureMsgRetrieve_eq ?_ hdrop
        rw [← htimestamp, show bucketOf m.smsg.timestamp = bucket from hm]
        exact hfile
    · rw [← sampleOf_toList hlong, hsample]
  rebuilds := by
    intro bucket hexpired
    rw [tokenSet_restart st hexpired, (hI bucket hexpired).scanTokens]

/-- **An event that does not meet its condition** leaves a token that leads nowhere, or does not
return. -/
theorem keeps_of_matches {hmac : HmacSha256} {e : Event}
    (h : Returns (step hmac st e) IndexMatches) : Keeps hmac st e := by
  obtain ⟨st', hst', h⟩ := h
  cases e with
  | store m =>
    intro hvalid happends hexpired
    cases hst'
    rw [storeValid, if_pos hvalid] at h
    obtain ⟨hnow, ⟨hnot, -⟩ | ⟨-, hmore⟩⟩ := secureMsgStore_cases st m
    · exact absurd happends hnot
    have hfile := (hmore m.bucket).1
    have htokens := (hmore m.bucket).2
    rw [if_pos rfl] at hfile htokens
    generalize hst : (st.secureMsgStore m).2 = st' at h hnow hfile htokens
    generalize hofs : (fileAt st.files m.bucket).length = ofs at htokens
    -- the token of the message, at the end of the file as it was
    have hnew : TokenSet.Has (st'.tokenSet m.bucket) ⟨m.key, ofs⟩ := by
      have hnone := contains_eq_false_iff.mp happends.2
      rw [htokens]
      show (StdMap.insertNew _ _ _)[m.key]? = _
      rw [get_insertNew, if_pos rfl, hnone]
      rfl
    obtain ⟨tokenSet, hset, hhas⟩ := get_of_has hnew
    rw [← hnow] at hexpired
    obtain ⟨m', hretrieve, -, hsample⟩ := h.retrieves m.bucket tokenSet _ hset hexpired hhas
    have hdrop : (fileAt st'.files m.bucket).drop ofs = m.bytes ++ [] := by
      rw [hfile, ← hofs, drop_left, append_nil]
    have hbucket : st'.files[bucketOf (SecMsgToken.mk m.key ofs).timestamp]? =
        st'.files[m.bucket]? := rfl
    cases hget : st'.files[m.bucket]? with
    | none =>
      have hnone : st'.secureMsgRetrieve ⟨m.key, ofs⟩ = none :=
        secureMsgRetrieve_none (hbucket.trans hget)
      rw [hnone] at hretrieve
      cases hretrieve
    | some file =>
      rw [fileAt, hget] at hdrop
      have hback : st'.secureMsgRetrieve ⟨m.key, ofs⟩ = some m.bytes :=
        secureMsgRetrieve_eq (hbucket.trans hget) hdrop
      rw [hback, Option.some.injEq] at hretrieve
      -- what is retrieved is the message, which has then 8 bytes
      have hread := format_message.reads m [] trivial
      rw [hretrieve, format_message.reads m' [] trivial] at hread
      obtain ⟨hm, -⟩ := Prod.mk.inj (Option.some.inj hread)
      obtain rfl : m' = m := hm
      have hlen := congrArg length hsample
      rw [Vector.length_toList, length_take] at hlen
      omega
  | scanBuckets isLocked =>
    intro hlocked bucket hexpired
    subst hlocked
    cases hst'
    apply Std.ExtTreeMap.ext_getElem?
    intro key
    rw [get_empty]
    cases hkey : (st.tokenSet bucket)[key]? with
    | none => rfl
    | some ofs =>
      have hhas : TokenSet.Has (st.tokenSet bucket) ⟨key, ofs⟩ := hkey
      obtain ⟨tokenSet, hset, hhas⟩ := get_of_has hhas
      obtain ⟨m, hretrieve, -⟩ := h.retrieves bucket tokenSet ⟨key, ofs⟩ hset hexpired hhas
      -- the file was removed
      rw [secureMsgRetrieve_none (get_empty _)] at hretrieve
      cases hretrieve
  | wait seconds => trivial
  | storeUnscanned m => trivial
  | walletUnlocked isLocked => trivial
  | expire =>
    obtain rfl := threadSecureMsg_ok hst'
    exact keeps_expire_iff.mpr hst'
  | restart => trivial

/-- **The index of the message store.**  In every state of a run the tokens and the files match
if and only if each message that was appended to a bucket had at least 8 bytes of payload, the
buckets were scanned only when none held a token, expired buckets left aside, and the thread came
round only when none had expired. -/
theorem index_matches_iff (hmac : HmacSha256) (now : Int) (events : List Event) :
    (∀ done rest, events = done ++ rest →
      Returns (run (proceed hmac) (.ok (start now)) done) IndexMatches) ↔
      Along (proceed hmac) (fun x e => Returns x fun st => Keeps hmac st e) (.ok (start now))
        events := by
  refine states_iff (I := fun x => Returns x Inv) (Q := fun _ => True)
    (fun _ hI => hI.mono fun _ => matches_of_inv) (fun _ _ _ => trivial) ?_ ?_
    (.ok (inv_start now)) trivial
  · rintro x e ⟨st, rfl, hI⟩ hkeeps -
    exact inv_step hI (hkeeps.of_ok rfl)
  · rintro x e ⟨st, rfl, hI⟩ hmatches
    exact .ok (keeps_of_matches hmatches)

def sampleMessage : Message where
  smsg :=
    { hash := #v[116, 135, 81, 202]
      version := #v[1, 0]
      flags := 0
      timestamp := 1700000000
      iv := Vector.replicate 16 0
      cpkR := Vector.replicate 33 0
      mac := Vector.replicate 32 0
      nonse := #v[0x0a, 0xa1, 0x01, 0x00]
      nPayload := 8 }
  pPayload := [1, 2, 3, 4, 5, 6, 7, 8]
  size := rfl

def shortMessage : Message where
  smsg :=
    { sampleMessage.smsg with
      hash := #v[55, 114, 47, 201]
      nonse := #v[0xbb, 0x26, 0x00, 0x00]
      nPayload := 3 }
  pPayload := [1, 2, 3]
  size := rfl

def sampleHmac : HmacSha256 := fun key _ =>
  if key = civ sampleMessage.smsg then
    #v[116, 135, 81, 202, 155, 248, 106, 131, 68, 141, 192, 222, 46, 79, 179, 251, 28, 143, 2, 127,
      222, 108, 59, 144, 223, 157, 151, 253, 68, 114, 0, 0]
  else
    #v[55, 114, 47, 201, 169, 159, 163, 115, 68, 64, 96, 67, 153, 136, 175, 199, 189, 66, 140, 213,
      93, 148, 184, 15, 174, 24, 117, 56, 213, 222, 0, 0]

/-- The buckets are scanned while one holds a token; a message of 3 bytes is stored; a bucket
expires. -/
theorem index_lost :
    ¬ Returns (run (proceed sampleHmac) (.ok (start 1700000000))
        [.store sampleMessage, .scanBuckets false]) IndexMatches ∧
      ¬ Returns (run (proceed sampleHmac) (.ok (start 1700000000)) [.store shortMessage])
        IndexMatches ∧
      run (proceed sampleHmac) (.ok (start 1700000000))
        [.store sampleMessage, .wait 172801, .expire] = .error .dangling := by
  refine ⟨fun h => ?_, fun h => ?_, ?_⟩
  · have hkeeps : Keeps sampleHmac ((start 1700000000).secureMsgStore sampleMessage).2
        (.scanBuckets false) := keeps_of_matches h
    have hempty := hkeeps rfl 1699999800 (by decide +kernel)
    have htoken : (((start 1700000000).secureMsgStore sampleMessage).2.tokenSet
        1699999800).isEmpty = false := by
      decide +kernel
    rw [hempty] at htoken
    cases htoken
  · have hkeeps : Keeps sampleHmac (start 1700000000) (.store shortMessage) := keeps_of_matches h
    have hlong := hkeeps (by decide +kernel) ⟨by decide +kernel, by decide +kernel⟩
      (by decide +kernel)
    exact absurd hlong (by decide)
  · rfl

end Fantom.Smsg
