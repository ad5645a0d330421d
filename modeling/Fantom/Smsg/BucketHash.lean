/-
  Fantom.Smsg.BucketHash — Whether the hashes that a node advertises are those of its buckets.

  * `hashes_current` — the buckets are current in every run of such bunches.
-/
import Fantom.Smsg.InBounds

namespace Fantom.Smsg

open Core Lib List

variable {C : SmsgCrypto}

/-! ## §1. Runs. -/

/-- A node, and when each of its buckets was last inserted into. -/
structure Observed (C : SmsgCrypto) where
  st : SmsgState C
  inserted : Int → Option Int

def grown (before after : TokenSet) : Bool := after.toList.any fun e => !before.contains e.1

def observe (o : Observed C) (st' : SmsgState C) : Observed C where
  st := st'
  inserted b :=
    if st'.smsgBuckets.contains b then
      if grown (o.st.tokenSet b) (st'.tokenSet b) then some st'.now else o.inserted b
    else none

variable (B : AddressTexts)

def observedStep (hmac : HmacSha256) (o : Option (Observed C)) (e : NetEvent) :
    Option (Observed C) :=
  o.bind fun o => (netStep B hmac o.st e).map (observe o)

/-- A node without buckets. -/
structure Fresh (o : Observed C) : Prop where
  smsgBuckets : o.st.smsgBuckets = ∅
  bucketInfo : ∀ b, o.st.bucketInfo b = {}
  inserted : ∀ b, o.inserted b = none

/-- The bucket's hash is that of its samples, and it is not older than the last insertion. -/
structure Current (o : Observed C) (b : Int) : Prop where
  hash : (o.st.bucketInfo b).hash = hashSamples (o.st.tokenSet b)
  timeChanged : ∀ t, o.inserted b = some t → t ≤ (o.st.bucketInfo b).timeChanged

/-! ## §2. The conditions. -/

/-- All messages that the loop stores, of the bunch with as many rounds left, are of the
bucket. -/
def AllOf (hmac : HmacSha256) (st : SmsgState C) (left : Nat) (data : List UInt8) (bucket : Int) :
    Prop :=
  ∀ done m rest, data = done.flatMap Message.bytes ++ (m.bytes ++ rest) → done.length < left →
    Passed B hmac st done → secureMsgValidate hmac m.smsg m.pPayload = 0 → st.inTime m = true →
    (st.tokenSet m.bucket).contains m.key = false → m.key ∉ done.map Message.key →
    m.bucket = bucket

/-- The messages of a bunch that are stored are of the bucket that the bunch names. -/
def Files (hmac : HmacSha256) (st : SmsgState C) : NetEvent → Prop
  | .receive _ .smsgMsg vRecv =>
    ∀ vchData nBunch bktTime, readData vRecv = .ok vchData → readCount vchData 0 = .ok nBunch →
      readTime vchData 4 = .ok bktTime → ¬ bktTime > st.now + SMSG_TIME_LEEWAY →
      ¬ bktTime < st.now - SMSG_RETENTION → ¬ (nBunch = 0 ∨ nBunch > 500) →
      AllOf B hmac st nBunch.toNat (vchData.drop 12) bktTime
  | _ => True

/-- The times are neither too old nor in the future. -/
def Interesting (st : SmsgState C) (time : Int) : Prop :=
  ¬ time < st.now - SMSG_RETENTION ∧ ¬ time > st.now + SMSG_TIME_LEEWAY

/-- The buckets that "smsgInv" lists with messages, and the one that "smsgHave" lists, are
there. -/
def Knows (st : SmsgState C) : NetEvent → Prop
  | .receive _ .smsgInv vRecv =>
    ∀ vchData nInvBuckets i time ncontent, readData vRecv = .ok vchData →
      readCount vchData 0 = .ok nInvBuckets → i < nInvBuckets.toNat →
      readTime vchData (4 + 16 * i) = .ok time →
      readCount vchData (4 + 16 * i + 8) = .ok ncontent → Interesting st time →
      ¬ ncontent < 1 → st.smsgBuckets.contains time = true
  | .receive _ .smsgHave vRecv =>
    ∀ vchData time, readData vRecv = .ok vchData → readTime vchData 0 = .ok time →
      Interesting st time → st.smsgBuckets.contains time = true
  | _ => True

/-! ## §3. What one event does to one bucket. -/

/-- The two have one hash, of one time. -/
structure SameHash (info info' : BucketInfo) : Prop where
  hash : info'.hash = info.hash
  timeChanged : info'.timeChanged = info.timeChanged

theorem SameHash.refl (info : BucketInfo) : SameHash info info := ⟨rfl, rfl⟩

theorem SameHash.trans {info info' info'' : BucketInfo} (h : SameHash info info')
    (h' : SameHash info' info'') : SameHash info info'' :=
  ⟨h'.hash.trans h.hash, h'.timeChanged.trans h.timeChanged⟩

/-- **What can happen to a bucket**: nothing, it is made, it is hashed, or it is dropped. -/
inductive Effect (known : Prop) (st st' : SmsgState C) (b : Int) : Prop where
  | same (hget : st'.smsgBuckets[b]? = st.smsgBuckets[b]?)
      (hinfo : SameHash (st.bucketInfo b) (st'.bucketInfo b))
  | made (hunknown : ¬ known) (hnone : st.smsgBuckets[b]? = none)
      (hsome : st'.smsgBuckets[b]? = some (∅ : TokenSet))
  | hashed (hhash : (st'.bucketInfo b).hash = hashSamples (st'.tokenSet b))
      (htime : (st'.bucketInfo b).timeChanged = st'.now)
  | gone (hnone : st'.smsgBuckets[b]? = none)

/-- Nothing but new buckets, and their locks. -/
structure Touched (known : Prop) (st st' : SmsgState C) : Prop where
  now : st'.now = st.now
  info : ∀ b, SameHash (st.bucketInfo b) (st'.bucketInfo b)
  buckets : ∀ b : Int, st'.smsgBuckets[b]? = st.smsgBuckets[b]? ∨
    (¬ known ∧ st.smsgBuckets[b]? = none ∧ st'.smsgBuckets[b]? = some (∅ : TokenSet))

theorem Touched.refl (known : Prop) (st : SmsgState C) : Touched known st st :=
  ⟨rfl, fun _ => .refl _, fun _ => .inl rfl⟩

variable {known : Prop} {st' : SmsgState C} {m : Message}

theorem Touched.effect {st : SmsgState C} (h : Touched known st st') (b : Int) :
    Effect known st st' b := by
  obtain hget | ⟨hunknown, hnone, hsome⟩ := h.buckets b
  · exact .same hget (h.info b)
  · exact .made hunknown hnone hsome

theorem Touched.touch {st : SmsgState C} (h : Touched known st st') {time : Int}
    (hknown : known → st.smsgBuckets.contains time = true) :
    Touched known st (st'.touch time) := by
  refine ⟨h.now, h.info, fun b => ?_⟩
  show (st'.smsgBuckets.insert time (st'.tokenSet time))[b]? = _ ∨
    (_ ∧ _ ∧ (st'.smsgBuckets.insert time (st'.tokenSet time))[b]? = _)
  rw [StdMap.get_insert]
  by_cases hb : time = b
  · subst hb
    rw [if_pos rfl]
    unfold SmsgStore.tokenSet
    obtain hget | ⟨hunknown, hnone, hsome⟩ := h.buckets time
    · cases hold : st.smsgBuckets[time]? with
      | none =>
        -- the bucket is new
        refine .inr ⟨fun hk => ?_, rfl, by rw [hget, hold]; rfl⟩
        obtain ⟨ts, hts⟩ := StdMap.contains_iff.mp (hknown hk)
        rw [hold] at hts
        cases hts
      | some ts =>
        left
        rw [hget, hold]
        rfl
    · right
      exact ⟨hunknown, hnone, by rw [hsome]; rfl⟩
  · rw [if_neg hb]
    exact h.buckets b

theorem Touched.setInfo {st : SmsgState C} (h : Touched known st st') (b : Int) {info : BucketInfo}
    (hinfo : SameHash (st'.bucketInfo b) info) :
    Touched known st (st'.setInfo b info) := by
  refine ⟨h.now, fun b' => ?_, h.buckets⟩
  show SameHash _ (if b' = b then info else st'.bucketInfo b')
  by_cases hb : b' = b
  · subst hb
    rw [if_pos rfl]
    exact (h.info b').trans hinfo
  · rw [if_neg hb]
    exact h.info b'

/-! ## §4. The handlers. -/

variable {B : AddressTexts} {hmac : HmacSha256} {st : SmsgState C} {pfrom : Peer}
  {vchData : List UInt8} {handled : Handled C}

theorem touched_invEntry {i : Nat} {s s' : InvLoop C} (hknown : known → ∀ time ncontent, readTime
    vchData (4 + 16 * i) = .ok time → readCount vchData (4 + 16 * i + 8) = .ok ncontent →
    Interesting st time → ¬ ncontent < 1 → st.smsgBuckets.contains time = true)
    (hs : Touched known st s.st) (h : invEntry vchData i s = .ok s') : Touched known st s'.st := by
  obtain ⟨time, htime, h⟩ := bind_eq_ok.mp h
  obtain ⟨ncontent, hcount, h⟩ := bind_eq_ok.mp h
  obtain ⟨hash, -, h⟩ := bind_eq_ok.mp h
  split at h
  next =>
    split at h
    · cases h
      exact hs
    · cases h
      exact hs
  next hold =>
    split at h
    next =>
      cases h
      exact hs
    next hnew =>
      split at h
      next =>
        cases h
        exact hs
      next hsome =>
        have htouch : Touched known st (s.st.touch time) := by
          refine hs.touch fun hk => ?_
          rw [hs.now] at hold hnew
          exact hknown hk time ncontent htime hcount ⟨hold, hnew⟩ hsome
        dsimp only at h
        split at h
        · cases h
          exact htouch
        · split at h
          · cases h
            exact htouch
          · cases h
            exact htouch

theorem touched_smsgInv {vRecv : List UInt8} (hdata : readData vRecv = .ok vchData)
    (h : smsgInv st pfrom vchData = .ok handled) :
    Touched (Knows st (.receive pfrom .smsgInv vRecv)) st handled.st := by
  have hsame := Touched.refl (Knows st (.receive pfrom .smsgInv vRecv)) st
  unfold smsgInv at h
  split at h
  · cases h
    exact hsame
  split at h
  · cases h
    exact hsame
  obtain ⟨nInvBuckets, hcount, h⟩ := bind_eq_ok.mp h
  split at h
  · cases h
    exact hsame
  split at h
  · cases h
    exact hsame
  obtain ⟨s, hloop, h⟩ := bind_eq_ok.mp h
  have hs : Touched (Knows st (.receive pfrom .smsgInv vRecv)) st s.st := by
    refine forLoop_rule (I := fun s => Touched _ st s.st) ?_ hsame hloop
    intro i s s' hi hs hentry
    refine touched_invEntry (fun hk time ncontent htime hn hin hone => ?_) hs hentry
    exact hk vchData nInvBuckets i time ncontent hdata hcount (by omega) htime hn hin hone
  split at h
  · cases h
    exact hs
  split at h
  · cases h
    exact hs
  · cases h
    exact hs

theorem touched_smsgHave {vRecv : List UInt8} (hdata : readData vRecv = .ok vchData)
    (h : smsgHave st pfrom vchData = .ok handled) :
    Touched (Knows st (.receive pfrom .smsgHave vRecv)) st handled.st := by
  have hsame := Touched.refl (Knows st (.receive pfrom .smsgHave vRecv)) st
  unfold smsgHave at h
  split at h
  · cases h
    exact hsame
  obtain ⟨time, htime, h⟩ := bind_eq_ok.mp h
  split at h
  · cases h
    exact hsame
  next hold =>
  split at h
  · cases h
    exact hsame
  next hnew =>
  have htouch : Touched (Knows st (.receive pfrom .smsgHave vRecv)) st (st.touch time) :=
    hsame.touch fun hk => hk vchData time hdata htime ⟨hold, hnew⟩
  dsimp only at h
  split at h
  · cases h
    exact htouch
  obtain ⟨wanted, -, h⟩ := bind_eq_ok.mp h
  split at h
  · cases h
    exact htouch.setInfo time ⟨rfl, rfl⟩
  · cases h
    exact htouch

theorem smsgShow_st (h : smsgShow st pfrom vchData = .ok handled) : handled.st = st := by
  unfold smsgShow at h
  split at h
  · cases h
    rfl
  obtain ⟨nBuckets, -, h⟩ := bind_eq_ok.mp h
  split at h
  · cases h
    rfl
  obtain ⟨pushed, -, h⟩ := bind_eq_ok.mp h
  cases h
  rfl

theorem smsgWant_st (h : smsgWant st pfrom vchData = .ok handled) : handled.st = st := by
  unfold smsgWant at h
  split at h
  · cases h
    rfl
  obtain ⟨time, -, h⟩ := bind_eq_ok.mp h
  split at h
  · cases h
    rfl
  obtain ⟨s, -, h⟩ := bind_eq_ok.mp h
  split at h
  · cases h
    rfl
  · cases h
    rfl

theorem smsgMatch_st (h : smsgMatch st pfrom vchData = .ok handled) : handled.st = st := by
  unfold smsgMatch at h
  split at h
  · cases h
    rfl
  obtain ⟨time, -, h⟩ := bind_eq_ok.mp h
  cases h
  rfl

theorem smsgIgnore_st (h : smsgIgnore st pfrom vchData = .ok handled) : handled.st = st := by
  unfold smsgIgnore at h
  split at h
  · cases h
    rfl
  obtain ⟨time, -, h⟩ := bind_eq_ok.mp h
  cases h
  rfl

/-! ## §5. A bunch. -/

/-- Nothing but tokens of one bucket. -/
structure FiledIn (bucket : Int) (st st' : SmsgState C) : Prop where
  now : st'.now = st.now
  info : st'.bucketInfo = st.bucketInfo
  others : ∀ b, b ≠ bucket → st'.smsgBuckets[b]? = st.smsgBuckets[b]?
  there : st.smsgBuckets.contains bucket = true → st'.smsgBuckets.contains bucket = true

theorem FiledIn.refl (bucket : Int) (st : SmsgState C) : FiledIn bucket st st :=
  ⟨rfl, rfl, fun _ _ => rfl, id⟩

theorem FiledIn.trans {bucket : Int} {st st'' : SmsgState C} (h : FiledIn bucket st st')
    (h' : FiledIn bucket st' st'') : FiledIn bucket st st'' :=
  ⟨h'.now.trans h.now, h'.info.trans h.info, fun b hb => (h'.others b hb).trans (h.others b hb),
    fun hc => h'.there (h.there hc)⟩

theorem Leaves.filedIn {st : SmsgState C} (h : Leaves st st') (bucket : Int) :
    FiledIn bucket st st' := by
  refine ⟨h.now, h.bucketInfo, fun b _ => ?_, fun hc => ?_⟩
  · rw [h.smsgBuckets]
  · rw [h.smsgBuckets]
    exact hc

theorem secureMsgStore_buckets (store : SmsgStore) (m : Message) :
    (store.secureMsgStore m).2.now = store.now ∧
      (∀ b, b ≠ m.bucket → (store.secureMsgStore m).2.smsgBuckets[b]? = store.smsgBuckets[b]?) ∧
      (((store.secureMsgStore m).1 ≠ 0 ∧
          (store.secureMsgStore m).2.smsgBuckets[m.bucket]? = store.smsgBuckets[m.bucket]?) ∨
        ((store.secureMsgStore m).1 = 0 ∧
          (store.secureMsgStore m).2.smsgBuckets.contains m.bucket = true)) := by
  have hother (ts : TokenSet) (b : Int) (hb : b ≠ m.bucket) :
      (store.smsgBuckets.insert m.bucket ts)[b]? = store.smsgBuckets[b]? :=
    StdMap.get_insert_ne _ _ (Ne.symm hb)
  unfold SmsgStore.secureMsgStore
  split
  · exact ⟨rfl, fun _ _ => rfl, .inl ⟨Nat.one_ne_zero, rfl⟩⟩
  dsimp only
  split
  next hknown =>
    refine ⟨rfl, hother _, .inl ⟨Nat.one_ne_zero, ?_⟩⟩
    -- a bucket with a token is there
    show (store.smsgBuckets.insert m.bucket _)[m.bucket]? = _
    rw [StdMap.get_insert_self]
    unfold SmsgStore.tokenSet at hknown ⊢
    cases hget : store.smsgBuckets[m.bucket]? with
    | none =>
      rw [hget, StdMap.contains_iff] at hknown
      obtain ⟨v, hv⟩ := hknown
      exact absurd ((StdMap.get_empty _).symm.trans hv) (by simp)
    | some ts => rfl
  · refine ⟨rfl, hother _, .inr ⟨rfl, ?_⟩⟩
    exact StdMap.contains_iff.mpr ⟨_, StdMap.get_insert_self _ _ _⟩

theorem filedIn_unstored (h : (st.store m false).1 ≠ 0) (bucket : Int) :
    FiledIn bucket st (st.store m false).2 := by
  rw [store_false] at h ⊢
  obtain ⟨hnow, hothers, ⟨-, hsame⟩ | ⟨hstored, -⟩⟩ := secureMsgStore_buckets st.toSmsgStore m
  · have hget (b : Int) :
        (st.toSmsgStore.secureMsgStore m).2.smsgBuckets[b]? = st.smsgBuckets[b]? := by
      by_cases hb : b = m.bucket
      · rw [hb]
        exact hsame
      · exact hothers b hb
    refine ⟨hnow, rfl, fun b _ => hget b, fun hc => ?_⟩
    rw [StdMap.contains_iff] at hc ⊢
    show ∃ v, (st.toSmsgStore.secureMsgStore m).2.smsgBuckets[bucket]? = some v
    rw [hget]
    exact hc
  · exact absurd hstored h

theorem filedIn_stored (h : (st.store m false).1 = 0) :
    FiledIn m.bucket st (st.store m false).2 := by
  rw [store_false] at h ⊢
  obtain ⟨hnow, hothers, ⟨hunstored, -⟩ | ⟨-, hthere⟩⟩ := secureMsgStore_buckets st.toSmsgStore m
  · exact absurd h hunstored
  · exact ⟨hnow, rfl, hothers, fun _ => hthere⟩

theorem messageAt_eq_ok {n : Nat} (h : messageAt vchData n = .ok m) :
    ∃ rest, vchData.drop n = m.bytes ++ rest := by
  unfold messageAt at h
  split at h
  next m' rest hread =>
    cases h
    exact ⟨rest, (format_message.takes _ _ _ hread).1⟩
  next => cases h

theorem AllOf.tail {left : Nat} {rest : List UInt8} {bucket : Int}
    (h : AllOf B hmac st (left + 1) (m.bytes ++ rest) bucket) (hf : Follows st st' m)
    (hm : Passes B hmac st m) : AllOf B hmac st' left rest bucket := by
  intro done m' rest' hrest hlt hdone hvalid hin hnew hfresh
  have hdata : m.bytes ++ rest = (m :: done).flatMap Message.bytes ++ (m'.bytes ++ rest') := by
    rw [flatMap_cons, append_assoc, hrest]
  have hin' : st.inTime m' = true := by
    unfold SmsgStore.inTime at hin ⊢
    rw [hf.now] at hin
    exact hin
  rw [← Bool.not_eq_true, hf.tokens, not_or, Bool.not_eq_true] at hnew
  refine h (m :: done) m' rest' hdata (Nat.succ_lt_succ hlt) ((passed_cons hf hm).mpr hdone) hvalid
    hin' hnew.2 ?_
  rw [map_cons, mem_cons, not_or]
  refine ⟨fun heq => hnew.1 ⟨?_, heq⟩, hfresh⟩
  exact congrArg bucketOf (congrArg SecMsgKey.timestamp heq)

/-- **The loop over a bunch** files in the bucket that the bunch names. -/
theorem filedIn_receiveLoop {bucket : Int} {left : Nat} {s s' : ReceiveLoop C}
    (hall : AllOf B hmac s.st left (vchData.drop s.n) bucket)
    (h : receiveLoop B hmac vchData left s = .ok s') : FiledIn bucket s.st s'.st := by
  -- induction on the rounds that are left
  induction left generalizing s with
  | zero =>
    obtain rfl := Except.ok.inj h
    exact .refl _ _
  | succ left ih =>
    unfold receiveLoop at h
    split at h
    · obtain rfl := Except.ok.inj h
      exact .refl _ _
    obtain ⟨rv, hval, h⟩ := bind_eq_ok.mp h
    split at h
    · -- dropped
      refine ih (s := ⟨s.n, s.pfrom.misbehaving (if rv = 2 then 10 else 1), s.st⟩) ?_ h
      intro done m rest hdata hlt
      exact hall done m rest hdata (Nat.lt_succ_of_lt hlt)
    next hrv =>
      obtain ⟨m, hmessage, h⟩ := bind_eq_ok.mp h
      obtain ⟨rest, hdata⟩ := messageAt_eq_ok hmessage
      rw [validateAt_message hdata] at hval
      have hvalid : secureMsgValidate hmac m.smsg m.pPayload = 0 :=
        (Except.ok.inj hval).trans (not_not.mp hrv)
      dsimp only at h
      split at h
      next hunstored =>
        obtain rfl := Except.ok.inj h
        exact filedIn_unstored hunstored bucket
      next hstored =>
        have hstored := not_not.mp hstored
        have hf := follows_store hstored
        obtain ⟨hin, hnew⟩ := (store_eq s.st m).mp hstored
        obtain ⟨⟨rv', st'⟩, hscan, h⟩ := bind_eq_ok.mp h
        obtain ⟨e, -, herror, -⟩ | ⟨hscanned, ⟨-, -, herror⟩ | ⟨-, rv'', st'', hok, hleaves⟩⟩ :=
          secureMsgScanMessage_cases B vchData s.n (s.st.store m false).2 m
        · rw [herror] at hscan
          cases hscan
        · rw [herror] at hscan
          cases hscan
        rw [hok] at hscan
        obtain ⟨rfl, rfl⟩ := Prod.mk.inj (Except.ok.inj hscan)
        rw [hf.isLocked, hf.node, hf.smsgAddresses] at hscanned
        rw [hdata] at hall
        -- the message is of the bucket, and so is the rest
        have hbucket : m.bucket = bucket :=
          hall [] m rest rfl (Nat.succ_pos left) (passed_nil s.st) hvalid hin hnew
            not_mem_nil
        have htail := hall.tail (hf.leaves hleaves) ⟨hvalid, hin, hnew, hscanned⟩
        have hdrop : vchData.drop (s.n + (SMSG_HDR_LEN + m.smsg.nPayload.toNat)) = rest := by
          rw [← m.bytes_length, ← drop_drop, hdata, drop_left]
        have hfirst : FiledIn bucket s.st st'' :=
          hbucket ▸ (filedIn_stored hstored).trans (hleaves.filedIn m.bucket)
        refine hfirst.trans (ih ?_ h)
        show AllOf B hmac st'' left (vchData.drop _) bucket
        rw [hdrop]
        exact htail

/-! ## §6. One event. -/

theorem effect_secureMsgReceive {vRecv : List UInt8} {pfrom' : Peer} (known : Prop)
    (hdata : readData vRecv = .ok vchData)
    (hfiles : Files B hmac st (.receive pfrom .smsgMsg vRecv))
    (h : secureMsgReceive B hmac st pfrom vchData = .ok (pfrom', st')) :
    st'.now = st.now ∧ ∀ b, Effect known st st' b := by
  have hsame : Touched known st st := .refl known st
  unfold secureMsgReceive at h
  split at h
  · cases h
    exact ⟨rfl, hsame.effect⟩
  obtain ⟨nBunch, hcount, h⟩ := bind_eq_ok.mp h
  obtain ⟨bktTime, htime, h⟩ := bind_eq_ok.mp h
  split at h
  · cases h
    exact ⟨rfl, hsame.effect⟩
  next hlate =>
  split at h
  · cases h
    exact ⟨rfl, hsame.effect⟩
  next hearly =>
  split at h
  · -- a lock is released
    cases h
    split
    · have hlock : SameHash (st.bucketInfo bktTime) { st.bucketInfo bktTime with nLockCount := 0 } :=
        ⟨rfl, rfl⟩
      exact ⟨rfl, (hsame.setInfo bktTime hlock).effect⟩
    · exact ⟨rfl, hsame.effect⟩
  next hcounts =>
  obtain ⟨s, hloop, h⟩ := bind_eq_ok.mp h
  have hall := hfiles vchData nBunch bktTime hdata hcount htime hlate hearly hcounts
  have hfiled : FiledIn bktTime st s.st :=
    filedIn_receiveLoop (s := ⟨12, pfrom, st⟩) hall hloop
  have hother {b : Int} (hb : b ≠ bktTime) (info : BucketInfo)
      (hinfo : SameHash (s.st.bucketInfo b) info) : SameHash (st.bucketInfo b) info := by
    rw [hfiled.info] at hinfo
    exact hinfo
  split at h
  next =>
    cases h
    refine ⟨hfiled.now, fun b => ?_⟩
    by_cases hb : b = bktTime
    · -- the bucket that was named is hashed
      subst hb
      refine .hashed ?_ ?_
      · show BucketInfo.hash (if b = b then _ else _) = _
        rw [if_pos rfl]
        rfl
      · show BucketInfo.timeChanged (if b = b then _ else _) = _
        rw [if_pos rfl]
        rfl
    · refine .same (hfiled.others b hb) ?_
      show SameHash _ (if b = bktTime then _ else if b = bktTime then _ else s.st.bucketInfo b)
      rw [if_neg hb, if_neg hb, hfiled.info]
      exact .refl _
  next habsent =>
    cases h
    refine ⟨hfiled.now, fun b => .same ?_ (hfiled.info ▸ .refl _)⟩
    by_cases hb : b = bktTime
    · -- it is not there, and was not
      subst hb
      have hbefore : ¬ st.smsgBuckets.contains b = true := fun hc => habsent (hfiled.there hc)
      rw [Bool.not_eq_true, StdMap.contains_eq_false_iff] at habsent hbefore
      rw [habsent, hbefore]
    · exact hfiled.others b hb

theorem effect_secureMsgPow (known : Prop) (h : secureMsgPow B st m = .ok st') : st'.now = st.now ∧
    ∀ b, Effect known st st' b := by
  obtain ⟨hnow, hothers, hcases⟩ := secureMsgStore_buckets st.toSmsgStore m
  unfold secureMsgPow SmsgState.store at h
  dsimp only at h
  obtain ⟨hunstored, hsame⟩ | ⟨hstored, hthere⟩ := hcases
  · rw [if_pos hunstored, if_neg (fun hc => hunstored hc.1)] at h
    cases h
    refine ⟨hnow, fun b => .same ?_ (.refl _)⟩
    by_cases hb : b = m.bucket
    · rw [hb]
      exact hsame
    · exact hothers b hb
  · rw [if_neg (not_not.mpr hstored), if_pos ⟨hstored, rfl⟩] at h
    obtain ⟨⟨rv, st1⟩, hscan, h⟩ := bind_eq_ok.mp h
    cases h
    obtain ⟨e, -, herror, -⟩ | ⟨-, ⟨-, -, herror⟩ | ⟨-, rv', st2, hok, hleaves⟩⟩ :=
      secureMsgScanMessage_cases B m.bytes 0
        (SmsgState.hashBucket { st with toSmsgStore := (st.toSmsgStore.secureMsgStore m).2 }
          m.bucket) m
    · rw [herror] at hscan
      cases hscan
    · rw [herror] at hscan
      cases hscan
    rw [hok] at hscan
    cases hscan
    refine ⟨hleaves.now.trans hnow, fun b => ?_⟩
    by_cases hb : b = m.bucket
    · subst hb
      refine .hashed ?_ ?_
      · rw [SmsgStore.tokenSet, hleaves.bucketInfo, hleaves.smsgBuckets]
        show BucketInfo.hash (if m.bucket = m.bucket then _ else _) = _
        rw [if_pos rfl]
        rfl
      · rw [hleaves.bucketInfo, hleaves.now]
        show BucketInfo.timeChanged (if m.bucket = m.bucket then _ else _) = _
        rw [if_pos rfl]
        rfl
    · refine .same ?_ ?_
      · rw [hleaves.smsgBuckets]
        exact hothers b hb
      · rw [hleaves.bucketInfo]
        show SameHash _ (if b = m.bucket then _ else st.bucketInfo b)
        rw [if_neg hb]
        exact .refl _

theorem effect_threadRound {st : SmsgState C} {round : SmsgState C × List Int}
    (h : threadRound st = .ok round) (known : Prop) :
    st.now ≤ round.1.now ∧ ∀ b, Effect known st round.1 b := by
  obtain ⟨smsgStore, hstore, h⟩ := bind_eq_ok.mp h
  obtain rfl := SmsgStore.threadSecureMsg_ok hstore
  cases h
  refine ⟨le_refl _, fun b => .same rfl ?_⟩
  show SameHash _ (if _ then (st.bucketInfo b).tick else _)
  unfold BucketInfo.tick
  split
  · split
    · exact ⟨rfl, rfl⟩
    · exact ⟨rfl, rfl⟩
  · exact ⟨rfl, rfl⟩

theorem effect_rebuild (st : SmsgState C) (known : Prop) (b : Int) :
    Effect known st st.rebuild b := by
  cases hc : st.toSmsgStore.restart.smsgBuckets.contains b with
  | true =>
    have hinfo : st.rebuild.bucketInfo b =
        { timeChanged := st.now, hash := hashSamples (st.toSmsgStore.restart.tokenSet b) } :=
      if_pos hc
    refine .hashed ?_ ?_
    · rw [hinfo]
      rfl
    · rw [hinfo]
      rfl
  | false => exact .gone (StdMap.contains_eq_false_iff.mp hc)

theorem effect_netStep {e : NetEvent} (hfiles : Files B hmac st e)
    (h : netStep B hmac st e = some st') :
    st.now ≤ st'.now ∧ ∀ b, Effect (Knows st e) st st' b := by
  cases e with
  | wait seconds =>
    cases h
    refine ⟨?_, fun b => .same rfl (.refl _)⟩
    show st.now ≤ st.now + seconds
    omega
  | send m =>
    simp only [netStep] at h
    split at h
    next st1 hpow =>
      cases h
      obtain ⟨hnow, heffect⟩ := effect_secureMsgPow (Knows st (.send m)) hpow
      exact ⟨hnow.ge, heffect⟩
    next => cases h
  | tick =>
    simp only [netStep] at h
    split at h
    next round hround =>
      cases h
      exact effect_threadRound hround _
    next => cases h
  | configure isLocked smsgAddresses =>
    cases h
    exact ⟨le_refl _, fun b => .same rfl (.refl _)⟩
  | restart =>
    cases h
    exact ⟨le_refl _, effect_rebuild st _⟩
  | receive pfrom strCommand vRecv =>
    have hsame : ∀ b, Effect (Knows st (.receive pfrom strCommand vRecv)) st st b :=
      fun b => .same rfl (.refl _)
    simp only [netStep] at h
    split at h
    next handled hhandled =>
      cases h
      have hleft {f : List UInt8 → Except Fault (Handled C)}
          (hf : ∀ vchData, f vchData = .ok handled → handled.st = st)
          (h : readData vRecv >>= f = .ok handled) :
          st.now ≤ handled.st.now ∧
            ∀ b, Effect (Knows st (.receive pfrom strCommand vRecv)) st handled.st b := by
        obtain ⟨vchData, -, h⟩ := bind_eq_ok.mp h
        rw [hf vchData h]
        exact ⟨le_refl _, hsame⟩
      cases strCommand with
      | smsgInv =>
        obtain ⟨vchData, hdata, h⟩ := bind_eq_ok.mp hhandled
        have htouched := touched_smsgInv hdata h
        exact ⟨htouched.now.ge, htouched.effect⟩
      | smsgHave =>
        obtain ⟨vchData, hdata, h⟩ := bind_eq_ok.mp hhandled
        have htouched := touched_smsgHave hdata h
        exact ⟨htouched.now.ge, htouched.effect⟩
      | smsgMsg =>
        obtain ⟨vchData, hdata, h⟩ := bind_eq_ok.mp hhandled
        obtain ⟨⟨pfrom', st'⟩, hreceive, h⟩ := bind_eq_ok.mp h
        cases h
        obtain ⟨hnow, heffect⟩ := effect_secureMsgReceive _ hdata hfiles hreceive
        exact ⟨hnow.ge, heffect⟩
      | smsgShow => exact hleft (fun _ => smsgShow_st) hhandled
      | smsgWant => exact hleft (fun _ => smsgWant_st) hhandled
      | smsgMatch => exact hleft (fun _ => smsgMatch_st) hhandled
      | smsgIgnore => exact hleft (fun _ => smsgIgnore_st) hhandled
      | smsgPing =>
        cases hhandled
        exact ⟨le_refl _, hsame⟩
      | smsgPong =>
        cases hhandled
        exact ⟨le_refl _, hsame⟩
      | smsgDisabled =>
        cases hhandled
        exact ⟨le_refl _, hsame⟩
      | unknown =>
        cases hhandled
        exact ⟨le_refl _, hsame⟩
    next =>
      cases h
      exact ⟨le_refl _, hsame⟩
    next => cases h

/-! ## §7. Runs. -/

theorem not_grown (tokenSet : TokenSet) : grown tokenSet tokenSet = false := by
  rw [grown, any_eq_false]
  intro e he
  have hget := Std.ExtTreeMap.mem_toList_iff_getElem?_eq_some.mp he
  have hcontains : tokenSet.contains e.1 = true := StdMap.contains_iff.mpr ⟨e.2, hget⟩
  rw [hcontains]
  decide

def Filled (st : SmsgState C) (b : Int) : Prop := (st.tokenSet b).isEmpty = false

/-- No bucket is inserted into in the future; those that hold messages are current, and the
others as well where `all`. -/
structure HashInv (all : Prop) (o : Observed C) : Prop where
  past : ∀ b t, o.inserted b = some t → t ≤ o.st.now
  current : ∀ b, o.st.smsgBuckets.contains b = true → all ∨ Filled o.st b → Current o b

theorem hashInv_fresh (all : Prop) {o : Observed C} (h : Fresh o) : HashInv all o := by
  refine ⟨fun b t ht => ?_, fun b hc _ => ?_⟩
  · rw [h.inserted] at ht
    cases ht
  · rw [h.smsgBuckets, StdMap.contains_iff] at hc
    obtain ⟨ts, hts⟩ := hc
    rw [StdMap.get_empty] at hts
    cases hts

theorem tokenSet_of_get {st : SmsgState C} {b : Int}
    (h : st'.smsgBuckets[b]? = st.smsgBuckets[b]?) : st'.tokenSet b = st.tokenSet b := by
  unfold SmsgStore.tokenSet
  rw [h]

/-- **What an event does to a bucket keeps it current**, but for a new bucket. -/
theorem hashInv_observe {all : Prop} {o : Observed C} (hall : all → known) (hI : HashInv all o)
    (hnow : o.st.now ≤ st'.now) (heffect : ∀ b, Effect known o.st st' b) :
    HashInv all (observe o st') := by
  have hpast : ∀ b t, (observe o st').inserted b = some t → t ≤ st'.now := by
    intro b t ht
    change (if st'.smsgBuckets.contains b = true then _ else none) = some t at ht
    split at ht
    · split at ht
      · exact (Option.some.inj ht).ge
      · have := hI.past b t ht
        omega
    · cases ht
  refine ⟨hpast, fun b hc hlive => ?_⟩
  change st'.smsgBuckets.contains b = true at hc
  change all ∨ Filled st' b at hlive
  have hthere : ∃ ts, st'.smsgBuckets[b]? = some ts := StdMap.contains_iff.mp hc
  cases heffect b with
  | same hget hinfo =>
    have htokens := tokenSet_of_get hget
    have hbefore : o.st.smsgBuckets.contains b = true := by
      rw [StdMap.contains_iff, ← hget]
      exact hthere
    have hold : Current o b := by
      refine hI.current b hbefore (hlive.imp_right fun h => ?_)
      unfold Filled at h ⊢
      rw [← htokens]
      exact h
    refine ⟨?_, fun t ht => ?_⟩
    · show (st'.bucketInfo b).hash = hashSamples (st'.tokenSet b)
      rw [hinfo.hash, htokens]
      exact hold.hash
    · change (if st'.smsgBuckets.contains b = true then
        (if grown (o.st.tokenSet b) (st'.tokenSet b) = true then _ else o.inserted b)
          else none) = some t at ht
      rw [hc, if_pos rfl, htokens, not_grown, if_neg (by decide)] at ht
      show t ≤ (st'.bucketInfo b).timeChanged
      rw [hinfo.timeChanged]
      exact hold.timeChanged t ht
  | made hunknown hnone hsome =>
    -- a new bucket has no messages
    obtain h | h := hlive
    · exact absurd (hall h) hunknown
    · unfold Filled SmsgStore.tokenSet at h
      rw [hsome] at h
      cases h
  | hashed hhash htime =>
    refine ⟨hhash, fun t ht => ?_⟩
    show t ≤ (st'.bucketInfo b).timeChanged
    rw [htime]
    exact hpast b t ht
  | gone hnone =>
    obtain ⟨ts, hts⟩ := hthere
    rw [hnone] at hts
    cases hts

/-- The state, if there is one, has the invariant. -/
def Always (P : Observed C → Prop) (o : Option (Observed C)) : Prop := ∀ o', o = some o' → P o'

theorem hashInv_run (all : Prop) {P : SmsgState C → NetEvent → Prop}
    (hfiles : ∀ st e, P st e → Files B hmac st e) (hknows : all → ∀ st e, P st e → Knows st e)
    {o : Observed C} (h0 : Fresh o) {evs : List NetEvent}
    (halong : Along (observedStep B hmac) (fun o e => Always (fun o => P o.st e) o) (some o) evs) :
    Always (HashInv all) (run (observedStep B hmac) (some o) evs) := by
  refine run_invariant ?_ ?_ halong
  · rintro o e hI hP o' ho'
    obtain ⟨o1, rfl, hmap⟩ := Option.bind_eq_some_iff.mp ho'
    obtain ⟨st', hstep, rfl⟩ := Option.map_eq_some_iff.mp hmap
    have he : P o1.st e := hP o1 rfl
    obtain ⟨hnow, heffect⟩ := effect_netStep (hfiles _ _ he) hstep
    exact hashInv_observe (fun h => hknows h _ _ he) (hI o1 rfl) hnow heffect
  · rintro o' ho'
    cases ho'
    exact hashInv_fresh all h0

/-- A state that a node without buckets comes to, by events that all meet `P`. -/
def Reached (B : AddressTexts) (hmac : HmacSha256) (P : SmsgState C → NetEvent → Prop)
    (o : Observed C) : Prop :=
  ∃ start evs, Fresh start ∧ run (observedStep B hmac) (some start) evs = some o ∧
    Along (observedStep B hmac) (fun o e => Always (fun o => P o.st e) o) (some start) evs

theorem samples_of_keys {tokens tokens' : TokenSet} (h : tokens.keys = tokens'.keys) :
    hashSamples tokens = hashSamples tokens' := by
  have hsamples (t : TokenSet) : samples t = t.keys.map fun k => k.sample.toList := by
    rw [← Std.ExtTreeMap.map_fst_toList_eq_keys, map_map]
    rfl
  unfold hashSamples
  rw [hsamples, hsamples, h]

theorem advertised_filled {st : SmsgState C} {lastMatched b : Int} {n : Nat} {hash : UInt32}
    (h : (b, n, hash) ∈ advertised st lastMatched) :
    st.smsgBuckets.contains b = true ∧ Filled st b ∧ hash = (st.bucketInfo b).hash := by
  obtain ⟨e, he, heq⟩ := mem_map.mp h
  obtain ⟨hmem, hshown⟩ := mem_filter.mp he
  obtain ⟨rfl, hrest⟩ := Prod.mk.inj heq
  cases hrest
  have hget := Std.ExtTreeMap.mem_toList_iff_getElem?_eq_some.mp hmem
  refine ⟨StdMap.contains_iff.mpr ⟨e.2, hget⟩, ?_, rfl⟩
  rw [Bool.not_eq_true', Bool.or_eq_false_iff] at hshown
  unfold Filled SmsgStore.tokenSet
  rw [hget]
  show e.2.isEmpty = false
  have hsize := of_decide_eq_false hshown.2
  rw [Std.ExtTreeMap.isEmpty_eq_size_beq_zero, beq_eq_false_iff_ne]
  omega

/-- **The hashes that are advertised.**  In every state of a run whose bunches file in the
bucket that they name, the buckets that hold messages are current; all buckets are, if the peers
name only buckets that there are.  So two nodes with the same tokens advertise the same hash. -/
theorem hashes_current (C : SmsgCrypto) (B : AddressTexts) (hmac : HmacSha256) :
    (∀ o : Observed C, Reached B hmac (Files B hmac) o →
        ∀ b, o.st.smsgBuckets.contains b = true → Filled o.st b → Current o b) ∧
      (∀ o : Observed C, Reached B hmac (fun st e => Files B hmac st e ∧ Knows st e) o →
        ∀ b, o.st.smsgBuckets.contains b = true → Current o b) ∧
      ∀ o o' : Observed C, Reached B hmac (Files B hmac) o → Reached B hmac (Files B hmac) o' →
        ∀ b lastMatched lastMatched' n n' hash hash',
          (o.st.tokenSet b).keys = (o'.st.tokenSet b).keys →
          (b, n, hash) ∈ advertised o.st lastMatched →
          (b, n', hash') ∈ advertised o'.st lastMatched' → hash = hash' := by
  have hfilled (o : Observed C) (h : Reached B hmac (Files B hmac) o) (b : Int)
      (hc : o.st.smsgBuckets.contains b = true) (hb : Filled o.st b) : Current o b := by
    obtain ⟨start, evs, hfresh, hrun, halong⟩ := h
    have hI := hashInv_run False (fun _ _ h => h) (fun h => h.elim) hfresh halong o hrun
    exact hI.current b hc (.inr hb)
  refine ⟨hfilled, fun o h b hc => ?_, ?_⟩
  · obtain ⟨start, evs, hfresh, hrun, halong⟩ := h
    have hfiles : ∀ st e, Files B hmac st e ∧ Knows st e → Files B hmac (C := C) st e :=
      fun _ _ h => h.1
    have hI := hashInv_run True hfiles (fun _ _ _ h => h.2) hfresh halong o hrun
    exact hI.current b hc (.inl trivial)
  · intro o o' h h' b _ _ n n' hash hash' hkeys hshown hshown'
    obtain ⟨hc, hb, rfl⟩ := advertised_filled hshown
    obtain ⟨hc', hb', rfl⟩ := advertised_filled hshown'
    rw [(hfilled o h b hc hb).hash, (hfilled o' h' b hc' hb').hash, samples_of_keys hkeys]

/-- A bunch of one message, which is of the bucket 1699999800. -/
def bunchNaming (bktTime : Int) : NetEvent :=
  .receive ⟨7, 0, {}⟩ .smsgMsg (124 :: (leBytes 4 1 ++ (timeBytes bktTime ++ sampleMessage.bytes)))

def strayBunch : NetEvent := bunchNaming 1699999200

def strayStart : Observed sampleSmsgCrypto :=
  ⟨SmsgState.start sampleNode 1700000000, fun _ => none⟩

theorem files_bunchNaming : Files sampleTexts sampleHmac strayStart.st (bunchNaming 1699999800) := by
  intro vchData nBunch bktTime hdata hcount htime _ _ _
  have hsent : readData (124 :: (leBytes 4 1 ++ (timeBytes 1699999800 ++ sampleMessage.bytes))) =
      .ok (leBytes 4 1 ++ (timeBytes 1699999800 ++ sampleMessage.bytes)) := by
    decide +kernel
  obtain rfl := Except.ok.inj (hdata.symm.trans hsent)
  obtain rfl : nBunch = 1 := Except.ok.inj (hcount.symm.trans (by decide +kernel))
  obtain rfl : bktTime = 1699999800 := Except.ok.inj (htime.symm.trans (by decide +kernel))
  intro done m rest heq hfew _ _ _ _ _
  obtain rfl : done = [] := length_eq_zero_iff.mp (Nat.lt_one_iff.mp hfew)
  -- the message is read from what was sent
  have hbytes : sampleMessage.bytes ++ [] = m.bytes ++ rest := heq
  have hread := format_message.reads m rest trivial
  rw [← hbytes, format_message.reads sampleMessage [] trivial] at hread
  obtain rfl : sampleMessage = m := (Prod.mk.inj (Option.some.inj hread)).1
  decide +kernel

/-- **A peer files a message in the bucket that it names.**  The hash of the bucket is that of its
sample, also after a round of the thread. -/
theorem hashes_current_filed :
    ∃ o, run (observedStep sampleTexts sampleHmac) (some strayStart)
        [bunchNaming 1699999800, .tick] = some o ∧
      Filled o.st 1699999800 ∧ Current o 1699999800 := by
  have hend : (run (observedStep sampleTexts sampleHmac) (some strayStart)
      [bunchNaming 1699999800, .tick]).map (fun o =>
        (o.st.smsgBuckets.contains 1699999800, (o.st.tokenSet 1699999800).isEmpty)) =
      some (true, false) := by
    decide +kernel
  obtain ⟨o, hrun, hvalues⟩ := Option.map_eq_some_iff.mp hend
  obtain ⟨hthere, hfilled⟩ := Prod.mk.inj hvalues
  refine ⟨o, hrun, hfilled, (hashes_current _ _ _).1 o ⟨strayStart, _, ⟨rfl, fun _ => rfl,
    fun _ => rfl⟩, hrun, fun o ho => ?_, fun _ _ => trivial, trivial⟩ _ hthere hfilled⟩
  cases ho
  exact files_bunchNaming

/-- **A peer files a message in a bucket that it does not name.**  The bucket that it is in keeps
the hash 0. -/
theorem hash_stale :
    Fresh strayStart ∧
      ∃ o, run (observedStep sampleTexts sampleHmac) (some strayStart) [strayBunch] = some o ∧
        o.st.smsgBuckets.contains 1699999800 = true ∧ Filled o.st 1699999800 ∧
          ¬ Current o 1699999800 := by
  have hend : (run (observedStep sampleTexts sampleHmac) (some strayStart) [strayBunch]).map
      (fun o => (o.st.smsgBuckets.contains 1699999800, (o.st.tokenSet 1699999800).isEmpty,
        (o.st.bucketInfo 1699999800).hash, hashSamples (o.st.tokenSet 1699999800))) =
      some (true, false, 0, 1227495065) := by
    decide +kernel
  obtain ⟨o, hrun, hvalues⟩ := Option.map_eq_some_iff.mp hend
  obtain ⟨hthere, hrest⟩ := Prod.mk.inj hvalues
  obtain ⟨hfilled, hrest⟩ := Prod.mk.inj hrest
  obtain ⟨hzero, hsamples⟩ := Prod.mk.inj hrest
  refine ⟨⟨rfl, fun _ => rfl, fun _ => rfl⟩, o, hrun, hthere, hfilled, fun hcurrent => ?_⟩
  have hhash := hcurrent.hash
  rw [hzero, hsamples] at hhash
  exact absurd hhash (by decide)

end Fantom.Smsg
