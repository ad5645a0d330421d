/-
  Fantom.Smsg.Bunch — What a bunch of complete messages leaves in the store, and what the peer is
  charged for it.

  * `bunch_takesEach_iff` — the bunches of which every message is taken, and charged for once.

  The loop does not go on behind a message that it does not store. It looks at an invalid one again
  in each round that is left, and ends at one that is expired or known.
-/
import Fantom.Smsg.InBounds

namespace Fantom.Smsg

open Core Lib List Nat

variable {C : SmsgCrypto} {B : AddressTexts} {hmac : HmacSha256}

/-! ## §1. Each message by itself. -/

/-- The store after the messages, each of which is stored if it is valid, in time and not known. -/
def storeEach (hmac : HmacSha256) (st : SmsgStore) (ms : List Message) : SmsgStore :=
  ms.foldl (fun st m => st.storeValid m hmac) st

def charge (hmac : HmacSha256) (m : Message) : Nat :=
  let rv := secureMsgValidate hmac m.smsg m.pPayload
  if rv = 0 then 0 else if rv = 2 then 10 else 1

/-- No message suppresses another one: the files and the tokens are those of each message by
itself, and the peer is charged once for each that is invalid. -/
structure TakesEach (hmac : HmacSha256) (st : SmsgState C) (pfrom : Peer) (ms : List Message)
    (pfrom' : Peer) (st' : SmsgState C) : Prop where
  files : st'.files = (storeEach hmac st.toSmsgStore ms).files
  smsgBuckets : st'.smsgBuckets = (storeEach hmac st.toSmsgStore ms).smsgBuckets
  charged : pfrom'.nMisbehavior = pfrom.nMisbehavior + (ms.map (charge hmac)).sum

def Taken (hmac : HmacSha256) (st : SmsgStore) (m : Message) : Prop :=
  secureMsgValidate hmac m.smsg m.pPayload = 0 ∧ Appends st m

instance (st : SmsgStore) (m : Message) : Decidable (Taken hmac st m) :=
  inferInstanceAs (Decidable (_ ∧ _ = true ∧ _ = false))

/-- Behind the first message that is not taken there is none to take, and none to charge for but
as much as for this one each. -/
def Independent (hmac : HmacSha256) : SmsgStore → List Message → Prop
  | _, [] => True
  | st, m :: rest =>
    if Taken hmac st m then Independent hmac (st.secureMsgStore m).2 rest
    else (∀ m' ∈ rest, ¬ Taken hmac st m') ∧
      (rest.map (charge hmac)).sum = rest.length * charge hmac m

def bunch (bktTime : Int64) (ms : List Message) : List UInt8 :=
  leBytes 4 ms.length ++ (leBytes 8 bktTime.toUInt64.toNat ++ ms.flatMap Message.bytes)

def BucketInTime (now : Int) (bktTime : Int64) : Prop :=
  ¬ bktTime.toInt > now + SMSG_TIME_LEEWAY ∧ ¬ bktTime.toInt < now - SMSG_RETENTION

instance (now : Int) (bktTime : Int64) : Decidable (BucketInTime now bktTime) :=
  inferInstanceAs (Decidable (_ ∧ _))

/-- The bunches that each message is treated by itself of: an empty one is charged for, and of one
for another time nothing is looked at. -/
def BunchIndependent (hmac : HmacSha256) (st : SmsgStore) (bktTime : Int64) (ms : List Message) :
    Prop :=
  if BucketInTime st.now bktTime then ms ≠ [] ∧ Independent hmac st ms
  else ∀ m ∈ ms, ¬ Taken hmac st m ∧ charge hmac m = 0

/-! ## §2. What is not taken. -/

theorem charge_eq_zero_iff {m : Message} :
    charge hmac m = 0 ↔ secureMsgValidate hmac m.smsg m.pPayload = 0 := by
  unfold charge
  dsimp only
  split
  next hvalid => simp [hvalid]
  next hinvalid =>
    split
    · simp [hinvalid]
    · simp [hinvalid]

theorem secureMsgStore_dropped {st : SmsgStore} {m : Message} (h : ¬ Appends st m) :
    (st.secureMsgStore m).2 = st := by
  unfold SmsgStore.secureMsgStore
  split
  · rfl
  next htime =>
    dsimp only
    split
    next hknown =>
      -- the bucket of a token that is known is there
      have hsame : st.smsgBuckets.insert m.bucket (st.tokenSet m.bucket) = st.smsgBuckets := by
        unfold SmsgStore.tokenSet at hknown ⊢
        cases hget : st.smsgBuckets[m.bucket]? with
        | none =>
          rw [hget] at hknown
          simp at hknown
        | some tokenSet =>
          apply Std.ExtTreeMap.ext_getElem?
          intro b
          rw [StdMap.get_insert]
          split
          next heq => rw [← heq, hget]; rfl
          next => rfl
      rw [hsame]
    next hnew => exact absurd ⟨by simpa using htime, Bool.not_eq_true _ ▸ hnew⟩ h

theorem storeValid_not_taken {st : SmsgStore} {m : Message} (h : ¬ Taken hmac st m) :
    st.storeValid m hmac = st := by
  show (if _ then (st.secureMsgStore m).2 else st) = st
  split
  next hvalid => exact secureMsgStore_dropped fun happends => h ⟨hvalid, happends⟩
  next => rfl

theorem storeValid_taken {st : SmsgStore} {m : Message} (h : Taken hmac st m) :
    st.storeValid m hmac = (st.secureMsgStore m).2 := if_pos h.1

theorem contains_storeValid (st : SmsgStore) (m : Message) {b : Int} {k : SecMsgKey}
    (h : (st.tokenSet b).contains k = true ∨ (Taken hmac st m ∧ b = m.bucket ∧ k = m.key)) :
    ((st.storeValid m hmac).tokenSet b).contains k = true := by
  by_cases htaken : Taken hmac st m
  · rw [storeValid_taken htaken]
    obtain ⟨-, ⟨hnot, -⟩ | ⟨-, hcases⟩⟩ := secureMsgStore_cases st m
    · exact absurd htaken.2 hnot
    · rw [(hcases b).2]
      split
      next =>
        rw [StdMap.contains_insertNew]
        rcases h with h | ⟨-, -, rfl⟩
        · simp [h]
        · simp
      next hb => exact h.resolve_right fun h => hb h.2.1.symm
  · rw [storeValid_not_taken htaken]
    exact h.resolve_right fun h => htaken h.1

variable (ms : List Message)

theorem contains_storeEach {b : Int} {k : SecMsgKey} : ∀ {st : SmsgStore},
    (st.tokenSet b).contains k = true → ((storeEach hmac st ms).tokenSet b).contains k = true := by
  induction ms with
  | nil => exact id
  | cons m ms ih =>
    intro st h
    exact ih (contains_storeValid st m (.inl h))

theorem storeEach_same_iff {st : SmsgStore} :
    (∀ m ∈ ms, ¬ Taken hmac st m) ↔ (storeEach hmac st ms).files = st.files ∧
    (storeEach hmac st ms).smsgBuckets = st.smsgBuckets := by
  induction ms with
  | nil => simp [storeEach]
  | cons m ms ih =>
    rw [forall_mem_cons]
    show _ ↔ (storeEach hmac (st.storeValid m hmac) ms).files = _ ∧
      (storeEach hmac (st.storeValid m hmac) ms).smsgBuckets = _
    by_cases htaken : Taken hmac st m
    · refine ⟨fun h => absurd htaken h.1, fun h => ?_⟩
      -- its token is there in the end, and was not
      have hcontains : ((storeEach hmac _ ms).tokenSet _).contains _ = true :=
        contains_storeEach ms (contains_storeValid st m (.inr ⟨htaken, rfl, rfl⟩))
      rw [SmsgStore.tokenSet, h.2] at hcontains
      have hnew : ((st.smsgBuckets[m.bucket]?).getD ∅).contains m.key = false := htaken.2.2
      rw [hcontains] at hnew
      cases hnew
    · rw [storeValid_not_taken htaken, and_iff_right htaken]
      exact ih

/-! ## §3. The loop. -/

/-- The store as the loop leaves it, and what it charges. -/
def loopEnd (hmac : HmacSha256) : SmsgStore → List Message → SmsgStore × Nat
  | st, [] => (st, 0)
  | st, m :: rest =>
    if Taken hmac st m then loopEnd hmac (st.secureMsgStore m).2 rest
    else (st, (rest.length + 1) * charge hmac m)

theorem loopEnd_wlFiles : ∀ {st : SmsgStore} {wlFiles},
    loopEnd hmac { st with wlFiles := wlFiles } ms =
      ({ (loopEnd hmac st ms).1 with wlFiles := wlFiles }, (loopEnd hmac st ms).2) := by
  induction ms with
  | nil => exact rfl
  | cons m rest ih =>
    intro st wlFiles
    have hstore : (({ st with wlFiles := wlFiles } : SmsgStore).secureMsgStore m).2 =
        { (st.secureMsgStore m).2 with wlFiles := wlFiles } := by
      unfold SmsgStore.secureMsgStore SmsgStore.inTime SmsgStore.tokenSet
      dsimp only
      split
      · rfl
      · split
        · rfl
        · rfl
    have htaken : Taken hmac { st with wlFiles := wlFiles } m ↔ Taken hmac st m := Iff.rfl
    rw [loopEnd, loopEnd, hstore, ih]
    by_cases h : Taken hmac st m
    · rw [if_pos h, if_pos (htaken.mpr h)]
    · rw [if_neg h, if_neg fun h' => h (htaken.mp h')]

/-- **The loop against each message by itself.** -/
theorem loopEnd_iff :
    ∀ {st : SmsgStore}, ((loopEnd hmac st ms).1.files = (storeEach hmac st ms).files ∧
    (loopEnd hmac st ms).1.smsgBuckets = (storeEach hmac st ms).smsgBuckets ∧
    (loopEnd hmac st ms).2 = (ms.map (charge hmac)).sum) ↔ Independent hmac st ms := by
  induction ms with
  | nil =>
    intro st
    exact ⟨fun _ => trivial, fun _ => ⟨rfl, rfl, rfl⟩⟩
  | cons m rest ih =>
    intro st
    have hstep : storeEach hmac st (m :: rest) =
        storeEach hmac (st.storeValid m hmac) rest := rfl
    rw [hstep, loopEnd, Independent, map_cons, sum_cons]
    by_cases h : Taken hmac st m
    · rw [if_pos h, if_pos h, storeValid_taken h, charge_eq_zero_iff.mpr h.1, zero_add]
      exact ih
    · rw [if_neg h, if_neg h, storeValid_not_taken h, storeEach_same_iff, and_assoc]
      dsimp only
      have hsum : (rest.length + 1) * charge hmac m =
          charge hmac m + (rest.map (charge hmac)).sum ↔
            (rest.map (charge hmac)).sum = rest.length * charge hmac m := by
        rw [succ_mul]
        omega
      rw [hsum]
      exact and_congr eq_comm (and_congr_left fun _ => eq_comm)

variable {vchData : List UInt8}

theorem receiveLoop_invalid {n rv : Nat} (hhdr : ¬ (vchData.length + 2 ^ 64 - n) % 2 ^ 64 <
    SMSG_HDR_LEN) (hval : validateAt hmac vchData n = .ok rv) (hrv : rv ≠ 0) (left : Nat) :
    ∀ {pfrom : Peer} {st : SmsgState C}, receiveLoop B hmac vchData left ⟨n, pfrom, st⟩ =
      .ok ⟨n, pfrom.misbehaving (left * if rv = 2 then 10 else 1), st⟩ := by
  induction left with
  | zero =>
    intro pfrom st
    rw [zero_mul]
    rfl
  | succ left ih =>
    intro pfrom st
    rw [receiveLoop, if_neg hhdr, hval, ok_bind, if_pos hrv, ih, succ_mul]
    simp only [Peer.misbehaving, add_assoc, add_comm]

theorem scan_store {n rv : Nat} {st st' : SmsgState C} {m : Message}
    (h : secureMsgScanMessage B vchData n st m = .ok (rv, st')) :
    st'.toSmsgStore = { st.toSmsgStore with wlFiles := st'.wlFiles } := by
  have hunscanned (store : SmsgStore) : (store.secureMsgStoreUnscanned m).2 =
      { store with wlFiles := (store.secureMsgStoreUnscanned m).2.wlFiles } := by
    unfold SmsgStore.secureMsgStoreUnscanned
    split
    · rfl
    · rfl
  unfold secureMsgScanMessage at h
  split at h
  · cases h
    exact hunscanned st.toSmsgStore
  obtain ⟨own, -, h⟩ := bind_eq_ok.mp h
  cases own with
  | none =>
    cases h
    rfl
  | some addressTo =>
    obtain ⟨sample, -, h⟩ := bind_eq_ok.mp h
    dsimp only at h
    split at h
    · cases h
      rfl
    · cases h
      rfl

theorem receiveLoop_messages (hmax : vchData.length < 2 ^ 64) (ms : List Message) :
    ∀ {s s' : ReceiveLoop C}, vchData.drop s.n = ms.flatMap Message.bytes →
      receiveLoop B hmac vchData ms.length s = .ok s' →
      s'.st.toSmsgStore =
          { (loopEnd hmac s.st.toSmsgStore ms).1 with wlFiles := s'.st.wlFiles } ∧
        s'.pfrom.nMisbehavior = s.pfrom.nMisbehavior + (loopEnd hmac s.st.toSmsgStore ms).2 := by
  -- induction on the messages that are left
  induction ms with
  | nil =>
    intro s s' _ h
    cases h
    exact ⟨rfl, rfl⟩
  | cons m rest ih =>
    intro s s' hdata h
    rw [flatMap_cons] at hdata
    have hlen := congrArg List.length hdata
    rw [length_drop, length_append, m.bytes_length] at hlen
    have hhdr : ¬ (vchData.length + 2 ^ 64 - s.n) % 2 ^ 64 < SMSG_HDR_LEN := by
      have hpos : 0 < SMSG_HDR_LEN := by decide
      omega
    rw [loopEnd]
    by_cases hvalid : secureMsgValidate hmac m.smsg m.pPayload = 0
    · rw [length_cons, receiveLoop, if_neg hhdr, validateAt_message hdata, ok_bind,
        if_neg (not_not.mpr hvalid), messageAt_eq hdata, ok_bind, store_false] at h
      dsimp only at h
      by_cases happends : Appends s.st.toSmsgStore m
      · have hstored : (s.st.toSmsgStore.secureMsgStore m).1 = 0 :=
          (store_eq s.st m).mpr happends
        rw [if_neg (not_not.mpr hstored)] at h
        obtain ⟨⟨rv, st⟩, hscan, h⟩ := bind_eq_ok.mp h
        have hdrop : vchData.drop (s.n + (SMSG_HDR_LEN + m.smsg.nPayload.toNat)) =
            rest.flatMap Message.bytes := by
          rw [← drop_drop, hdata, ← m.bytes_length, drop_left]
        have hrest := ih hdrop h
        rw [scan_store hscan, loopEnd_wlFiles] at hrest
        rw [if_pos ⟨hvalid, happends⟩]
        exact hrest
      · have hdropped : (s.st.toSmsgStore.secureMsgStore m).1 ≠ 0 := fun hstored =>
          happends ((store_eq s.st m).mp hstored)
        rw [if_pos hdropped, secureMsgStore_dropped happends] at h
        cases h
        rw [if_neg fun htaken => happends htaken.2, charge_eq_zero_iff.mpr hvalid]
        exact ⟨rfl, rfl⟩
    · rw [receiveLoop_invalid hhdr (validateAt_message hdata) hvalid] at h
      cases h
      have hnot : ¬ Taken hmac s.st.toSmsgStore m := fun htaken => hvalid htaken.1
      have hcharge : charge hmac m =
          if secureMsgValidate hmac m.smsg m.pPayload = 2 then 10 else 1 := if_neg hvalid
      rw [if_neg hnot, hcharge]
      exact ⟨rfl, rfl⟩

/-! ## §4. The bunch. -/

variable (bktTime : Int64)

theorem bunch_drop (ms : List Message) : (bunch bktTime ms).drop 12 = ms.flatMap Message.bytes := by
  have hfour : (leBytes 4 ms.length).length = 4 := leBytes_length 4 _
  have height : (leBytes 8 bktTime.toUInt64.toNat).length = 8 := leBytes_length 8 _
  rw [bunch, ← append_assoc, drop_left']
  rw [length_append, hfour, height]

theorem bunch_length {ms : List Message} (hfew : ms.length ≤ 500) :
    12 ≤ (bunch bktTime ms).length ∧ (bunch bktTime ms).length < 2 ^ 64 := by
  have hsum : (ms.flatMap Message.bytes).length ≤ ms.length * (SMSG_HDR_LEN + 2 ^ 32) := by
    clear hfew
    induction ms with
    | nil => simp
    | cons m rest ih =>
      have hsize := m.smsg.nPayload.toNat_lt
      rw [flatMap_cons, length_append, m.bytes_length, length_cons, succ_mul]
      omega
  have hbound := mul_le_mul_right (SMSG_HDR_LEN + 2 ^ 32) hfew
  have hhdr : SMSG_HDR_LEN = 104 := rfl
  rw [bunch, length_append, length_append, leBytes_length, leBytes_length]
  omega

theorem bunch_reads {ms : List Message} (hfew : ms.length ≤ 500) : readCount (bunch bktTime ms) 0 =
    .ok (UInt32.ofNat ms.length) ∧ readTime (bunch bktTime ms) 4 = .ok bktTime.toInt := by
  have hlen := (bunch_length bktTime hfew).1
  have hcount : ((bunch bktTime ms).drop 0).take 4 = leBytes 4 ms.length :=
    take_left' (leBytes_length 4 _)
  have htime : ((bunch bktTime ms).drop 4).take 8 = leBytes 8 bktTime.toUInt64.toNat := by
    rw [bunch, drop_left' (leBytes_length 4 _), take_left' (leBytes_length 8 _)]
  constructor
  · rw [readCount, readIn, if_pos (by omega), hcount]
    show Except.ok (UInt32.ofNat (ofLEBytes (leBytes 4 ms.length))) = _
    rw [ofLEBytes_leBytes (by omega)]
  · rw [readTime, readIn, if_pos (by omega), htime]
    show Except.ok (UInt64.ofNat (ofLEBytes (leBytes 8 bktTime.toUInt64.toNat))).toInt64.toInt = _
    rw [ofLEBytes_leBytes bktTime.toUInt64.toNat_lt, UInt64.ofNat_toNat]
    rfl

/-- **Where one message does not suppress another**: the bunches that leave what each message
leaves by itself, and are charged for as each message is. -/
theorem bunch_takesEach_iff (B : AddressTexts) (hmac : HmacSha256) (st st' : SmsgState C)
    (pfrom pfrom' : Peer) (bktTime : Int64) (ms : List Message) (hfew : ms.length ≤ 500)
    (h : secureMsgReceive B hmac st pfrom (bunch bktTime ms) = .ok (pfrom', st')) :
    TakesEach hmac st pfrom ms pfrom' st' ↔ BunchIndependent hmac st.toSmsgStore bktTime ms := by
  obtain ⟨hlong, hmax⟩ := bunch_length bktTime hfew
  obtain ⟨hcount, htime⟩ := bunch_reads bktTime hfew
  have hsize : ms.length < UInt32.size := lt_of_le_of_lt hfew (by decide)
  have hnum : (UInt32.ofNat ms.length).toNat = ms.length := UInt32.toNat_ofNat_of_lt hsize
  rw [secureMsgReceive, if_neg (not_lt.mpr hlong), hcount, ok_bind, htime, ok_bind] at h
  unfold BunchIndependent
  by_cases hin : BucketInTime st.now bktTime
  · rw [if_neg hin.1, if_neg hin.2] at h
    rw [if_pos hin]
    by_cases hnil : ms = []
    · -- an empty bunch
      subst hnil
      have hzero : UInt32.ofNat ([] : List Message).length = 0 := rfl
      rw [if_pos (.inl hzero)] at h
      cases h
      refine ⟨fun htakes => ?_, fun hnot => absurd rfl hnot.1⟩
      have hcharged := htakes.charged
      simp [Peer.misbehaving] at hcharged
    · have hsome : ¬ (UInt32.ofNat ms.length = 0 ∨ UInt32.ofNat ms.length > 500) := by
        have hpos := length_pos_iff.mpr hnil
        rintro (hzero | hmany)
        · rw [hzero] at hnum
          simp at hnum
          omega
        · have hlt : 500 < (UInt32.ofNat ms.length).toNat := hmany
          omega
      rw [if_neg hsome, hnum] at h
      obtain ⟨s, hloop, h⟩ := bind_eq_ok.mp h
      obtain ⟨hstore, hcharged⟩ := receiveLoop_messages hmax ms (bunch_drop bktTime ms) hloop
      -- the bucket is hashed, which changes no token
      have hend : pfrom' = s.pfrom ∧ st'.toSmsgStore = s.st.toSmsgStore := by
        split at h
        · cases h
          exact ⟨rfl, rfl⟩
        · cases h
          exact ⟨rfl, rfl⟩
      rw [← loopEnd_iff, and_iff_right hnil]
      have hfiles : st'.files = (loopEnd hmac st.toSmsgStore ms).1.files := by
        rw [hend.2, hstore]
      have hbuckets : st'.smsgBuckets = (loopEnd hmac st.toSmsgStore ms).1.smsgBuckets := by
        rw [hend.2, hstore]
      constructor
      · intro htakes
        refine ⟨hfiles ▸ htakes.files, hbuckets ▸ htakes.smsgBuckets, ?_⟩
        have hsum := htakes.charged
        rw [hend.1, hcharged] at hsum
        exact add_left_cancel hsum
      · intro ⟨hf, hb, hsum⟩
        refine ⟨hfiles.trans hf, hbuckets.trans hb, ?_⟩
        rw [hend.1, hcharged, hsum]
  · have hsame : pfrom' = pfrom ∧ st' = st := by
      split at h
      · cases h
        exact ⟨rfl, rfl⟩
      next hlate =>
        split at h
        · cases h
          exact ⟨rfl, rfl⟩
        next hearly => exact absurd ⟨hlate, hearly⟩ hin
    obtain ⟨rfl, rfl⟩ := hsame
    rw [if_neg hin]
    constructor
    · intro htakes m hm
      have hnone := (storeEach_same_iff ms).mpr ⟨htakes.files.symm, htakes.smsgBuckets.symm⟩
      have hsum : (ms.map (charge hmac)).sum = 0 := by
        have := htakes.charged
        omega
      exact ⟨hnone m hm, List.sum_eq_zero_iff_forall_eq_nat.mp hsum _ (mem_map_of_mem hm)⟩
    · intro hall
      have hkept := (@storeEach_same_iff hmac ms st'.toSmsgStore).mp fun m hm => (hall m hm).1
      refine ⟨hkept.1.symm, hkept.2.symm, ?_⟩
      have hzero : ms.map (charge hmac) = ms.map fun _ => 0 :=
        map_congr_left fun m hm => (hall m hm).2
      rw [hzero]
      simp

def easyHmac : HmacSha256 := fun _ _ => .replicate 32 0

def easyMessage (version : UInt8) : Message where
  smsg := ⟨.replicate 4 0, #v[version, 1], 0, 1700000000, .replicate 16 0, .replicate 33 0,
    .replicate 32 0, .replicate 4 0, 0⟩
  pPayload := []
  size := rfl

def easyNode : SmsgState sampleSmsgCrypto := SmsgState.start sampleNode 1700000000

def outcome (x : Except Fault (Peer × SmsgState C)) : Option (Nat × Bool) :=
  match x with
  | .ok (pfrom, st) => some (pfrom.nMisbehavior, st.files.isEmpty)
  | .error _ => none

theorem outcome_eq_some {x : Except Fault (Peer × SmsgState C)} {n : Nat} {none : Bool}
    (h : outcome x = some (n, none)) : ∃ pfrom st, x = .ok (pfrom, st) ∧ pfrom.nMisbehavior = n := by
  cases x with
  | error e => cases h
  | ok r => exact ⟨r.1, r.2, rfl, congrArg Prod.fst (Option.some.inj h)⟩

/-- **A message of another version suppresses a valid one** behind it, and is charged for twice. -/
theorem bunch_suppressed :
    outcome (secureMsgReceive sampleTexts easyHmac easyNode ⟨7, 0, {}⟩
        (bunch 1700000000 [easyMessage 2, easyMessage 1])) = some (2, true) ∧
      ¬ ∀ (pfrom' : Peer) (st' : SmsgState sampleSmsgCrypto) (ms : List Message),
        ms.length ≤ 500 → secureMsgReceive sampleTexts easyHmac easyNode ⟨7, 0, {}⟩
          (bunch 1700000000 ms) = .ok (pfrom', st') →
        TakesEach easyHmac easyNode ⟨7, 0, {}⟩ ms pfrom' st' := by
  have hrun : outcome (secureMsgReceive sampleTexts easyHmac easyNode ⟨7, 0, {}⟩
      (bunch 1700000000 [easyMessage 2, easyMessage 1])) = some (2, true) := by
    decide +kernel
  refine ⟨hrun, fun h => ?_⟩
  obtain ⟨pfrom', st', hreturns, hcharge⟩ := outcome_eq_some hrun
  have hcharged := (h pfrom' st' _ (by simp) hreturns).charged
  rw [hcharge] at hcharged
  exact absurd hcharged (by decide)

/-- A valid message, and one of another version at the end of the bunch. -/
theorem bunch_takesEach_iff_badLast : ∃ pfrom' st', secureMsgReceive sampleTexts easyHmac easyNode
      ⟨7, 0, {}⟩ (bunch 1700000000 [easyMessage 1, easyMessage 2]) = .ok (pfrom', st') ∧
    TakesEach easyHmac easyNode ⟨7, 0, {}⟩ [easyMessage 1, easyMessage 2] pfrom' st' := by
  have hrun : outcome (secureMsgReceive sampleTexts easyHmac easyNode ⟨7, 0, {}⟩
      (bunch 1700000000 [easyMessage 1, easyMessage 2])) = some (1, false) := by
    decide +kernel
  obtain ⟨pfrom', st', hreturns, -⟩ := outcome_eq_some hrun
  refine ⟨pfrom', st', hreturns, (bunch_takesEach_iff sampleTexts easyHmac easyNode st' ⟨7, 0, {}⟩
    pfrom' 1700000000 _ (by simp) hreturns).mpr ?_⟩
  have hin : BucketInTime easyNode.now 1700000000 := by decide
  have htaken : Taken easyHmac easyNode.toSmsgStore (easyMessage 1) := by decide +kernel
  have hbad : ¬ Taken easyHmac (easyNode.toSmsgStore.secureMsgStore (easyMessage 1)).2
      (easyMessage 2) := fun h => absurd h.1 (by decide)
  rw [BunchIndependent, if_pos hin, Independent, if_pos htaken, Independent, if_neg hbad]
  exact ⟨cons_ne_nil _ _, fun _ h => (nomatch h), rfl⟩

end Fantom.Smsg
