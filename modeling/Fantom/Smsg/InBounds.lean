/-
  Fantom.Smsg.InBounds — Whether the handlers read only what was received.

  * `in_bounds_iff` — all commands.
-/
import Fantom.Smsg.Authentic
import Fantom.Smsg.Handlers
import Fantom.Smsg.Index

namespace Fantom.Smsg

open Core Lib List

variable {C : SmsgCrypto} {B : AddressTexts} {hmac : HmacSha256} {vchData : List UInt8}

/-- No byte is read outside of the data. -/
abbrev Inside {α : Type} (x : Except Fault α) : Prop := Never .outside x fun _ => True

/-! ## §1. Single reads. -/

variable {o n i : Nat} {st st' : SmsgState C} {m : Message} {rest : List UInt8}

theorem never_readIn {P : List UInt8 → Prop} :
    Never .outside (readIn vchData o n) P ↔
      o + n ≤ vchData.length ∧ P ((vchData.drop o).take n) := by
  unfold readIn
  by_cases h : o + n ≤ vchData.length
  · simp [h]
  · simp [h]

theorem inside_readTime : Inside (readTime vchData o) ↔ o + 8 ≤ vchData.length := by
  rw [Inside, readTime, never_map, never_readIn]
  simp

theorem inside_readCount : Inside (readCount vchData o) ↔ o + 4 ≤ vchData.length := by
  rw [Inside, readCount, never_map, never_readIn]
  simp

theorem inside_readToken (h : o + 16 ≤ vchData.length) :
    Inside (readToken vchData o) := by
  rw [Inside, readToken, never_bind, never_readIn]
  refine ⟨by omega, ?_⟩
  rw [never_bind, never_readIn]
  exact ⟨by omega, trivial⟩

theorem Inside.bind {α β : Type} {x : Except Fault α} {f : α → Except Fault β} {P : β → Prop}
    (hx : Inside x) (hf : ∀ a, Never .outside (f a) P) : Never .outside (x >>= f) P := by
  rw [never_bind]
  exact hx.mono fun a _ => hf a

theorem inside_readData (vRecv : List UInt8) : Inside (readData vRecv) := by
  unfold readData
  split
  · trivial
  · intro h
    cases h

/-! ## §2. The handlers whose guards hold. -/

theorem inside_invEntry (hi : 4 + 16 * i + 16 ≤ vchData.length) (s : InvLoop C) :
    Inside (invEntry vchData i s) := by
  unfold invEntry
  refine (inside_readTime.mpr (by omega)).bind fun time => ?_
  refine (inside_readCount.mpr (by omega)).bind fun ncontent => ?_
  refine (inside_readCount.mpr (by omega)).bind fun hash => ?_
  -- nothing is read behind the three fields
  dsimp only
  repeat' split
  all_goals trivial

theorem never_smsgInv (st : SmsgState C) (pfrom : Peer) (vchData : List UInt8) :
    Inside (smsgInv st pfrom vchData) := by
  unfold smsgInv
  split
  · trivial
  next hfour =>
    split
    · trivial
    refine (inside_readCount.mpr (by omega)).bind fun nInvBuckets => ?_
    split
    · trivial
    next hmost =>
      split
      · trivial
      next hsize =>
        -- at most 289 buckets: `4 + nInvBuckets * 16` does not wrap
        have hfew : nInvBuckets.toNat ≤ 289 := by
          have hconst : SMSG_RETENTION / SMSG_BUCKET_LEN + 1 = 289 := by decide
          omega
        have hnat : (4 + nInvBuckets * 16).toNat = 4 + nInvBuckets.toNat * 16 := by
          rw [UInt32.toNat_add, UInt32.toNat_mul]
          show (4 + nInvBuckets.toNat * 16 % 2 ^ 32) % 2 ^ 32 = _
          omega
        rw [hnat] at hsize
        have hloop : Inside (forLoop (invEntry vchData) 0 nInvBuckets.toNat
            (⟨pfrom, st, [], 0⟩ : InvLoop C)) :=
          never_forLoop (fun j s hj _ => inside_invEntry (by omega) s) trivial
        refine hloop.bind fun s => ?_
        repeat' split
        all_goals trivial

theorem inside_haveEntry (hi : 8 + 16 * i + 16 ≤ vchData.length) (tokenSet : TokenSet)
    (wanted : List UInt8) : Inside (haveEntry tokenSet vchData i wanted) := by
  unfold haveEntry
  refine (inside_readToken hi).bind fun token => ?_
  split
  · trivial
  · rw [never_bind, never_readIn]
    exact ⟨hi, trivial⟩

theorem never_smsgHave (st : SmsgState C) (pfrom : Peer) (vchData : List UInt8) :
    Inside (smsgHave st pfrom vchData) := by
  unfold smsgHave
  split
  · trivial
  next height =>
    refine (inside_readTime.mpr (by omega)).bind fun time => ?_
    dsimp only
    split
    · trivial
    · split
      · trivial
      · split
        · trivial
        · have hloop : Inside (forLoop (haveEntry ((st.touch time).tokenSet time) vchData) 0
              ((vchData.length - 8) / 16) []) :=
            never_forLoop (fun j s hj _ => inside_haveEntry (by omega) _ s) trivial
          refine hloop.bind fun wanted => ?_
          split
          · trivial
          · trivial

theorem inside_wantEntry (hi : 8 + 16 * i + 16 ≤ vchData.length) (st : SmsgState C)
    (tokenSet : TokenSet) (s : WantLoop) : Inside (wantEntry st tokenSet vchData i s) := by
  unfold wantEntry
  split
  · trivial
  · refine (inside_readToken hi).bind fun token => ?_
    split
    · trivial
    · trivial

theorem never_smsgWant (st : SmsgState C) (pfrom : Peer) (vchData : List UInt8) :
    Inside (smsgWant st pfrom vchData) := by
  unfold smsgWant
  split
  · trivial
  next height =>
    refine (inside_readTime.mpr (by omega)).bind fun time => ?_
    split
    · trivial
    next tokenSet _ =>
      have hloop : Inside (forLoop (wantEntry st tokenSet vchData) 0 ((vchData.length - 8) / 16)
          ⟨0, [], false⟩) :=
        never_forLoop (fun j s hj _ => inside_wantEntry (by omega) st tokenSet s) trivial
      refine hloop.bind fun s => ?_
      split
      · trivial
      · trivial

theorem never_smsgMatch (st : SmsgState C) (pfrom : Peer) (vchData : List UInt8) :
    Inside (smsgMatch st pfrom vchData) := by
  unfold smsgMatch
  split
  · trivial
  · exact (inside_readTime.mpr (by omega)).bind fun time => trivial

theorem never_smsgIgnore (st : SmsgState C) (pfrom : Peer) (vchData : List UInt8) :
    Inside (smsgIgnore st pfrom vchData) := by
  unfold smsgIgnore
  split
  · trivial
  · exact (inside_readTime.mpr (by omega)).bind fun time => trivial

/-! ## §3. The guard that wraps. -/

theorem readTime_cases (vchData : List UInt8) (o : Nat) :
    (o + 8 ≤ vchData.length ∧ ∃ time, readTime vchData o = .ok time) ∨
      (vchData.length < o + 8 ∧ readTime vchData o = .error .outside) := by
  unfold readTime readIn
  by_cases h : o + 8 ≤ vchData.length
  · exact .inl ⟨h, _, by rw [if_pos h]; rfl⟩
  · exact .inr ⟨by omega, by rw [if_neg h]; rfl⟩

theorem showEntry_eq_ok {pushed pushed' : List (Command × List UInt8)}
    (h : showEntry st vchData i pushed = .ok pushed') : 4 + 8 * i + 8 ≤ vchData.length := by
  obtain ⟨hle, -⟩ | ⟨-, hout⟩ := readTime_cases vchData (4 + 8 * i)
  · exact hle
  · rw [showEntry, hout] at h
    cases h

theorem inside_showEntry (hi : 4 + 8 * i + 8 ≤ vchData.length)
    (pushed : List (Command × List UInt8)) : Inside (showEntry st vchData i pushed) := by
  unfold showEntry
  refine (inside_readTime.mpr hi).bind fun time => ?_
  split
  · trivial
  · trivial

theorem showEntry_outside {pushed : List (Command × List UInt8)} {e : Fault}
    (h : showEntry st vchData i pushed = .error e) : e = .outside := by
  obtain ⟨-, time, htime⟩ | ⟨-, hout⟩ := readTime_cases vchData (4 + 8 * i)
  · cases hfound : st.smsgBuckets[time]? with
    | none => simp [showEntry, htime, hfound, bind, Except.bind, pure, Except.pure] at h
    | some tokenSet => simp [showEntry, htime, hfound, bind, Except.bind, pure, Except.pure] at h
  · rw [showEntry, hout] at h
    exact (Except.error.inj h).symm

variable {left : Nat} {m' : Message} {smsg : SecureMessage} {behind : List UInt8}

theorem forLoop_outside {σ : Type} {f : Nat → σ → Except Fault σ} {s : σ} {e : Fault}
    (hf : ∀ j s e, f j s = .error e → e = .outside) (h : forLoop f i left s = .error e) :
    e = .outside := by
  induction left generalizing i s with
  | zero => cases h
  | succ left ih =>
    change (f i s >>= forLoop f (i + 1) left) = .error e at h
    cases hfirst : f i s with
    | error e' =>
      rw [hfirst] at h
      exact (Except.error.inj h) ▸ hf i s e' hfirst
    | ok s' =>
      rw [hfirst] at h
      exact ih h

theorem inside_showLoop_iff (st : SmsgState C) (n : Nat) (hfour : 4 ≤ vchData.length) :
    Inside (forLoop (showEntry st vchData) 0 n []) ↔ 4 + 8 * n ≤ vchData.length := by
  constructor
  · intro h
    cases hloop : forLoop (showEntry st vchData) 0 n [] with
    | error e =>
      rw [hloop] at h
      exact absurd (forLoop_outside (fun _ _ _ he => showEntry_outside he) hloop) h
    | ok pushed =>
      by_cases hn : n = 0
      · omega
      · -- the last round has read
        obtain ⟨_, _, hlast⟩ := forLoop_eq_ok hloop (Nat.zero_le (n - 1)) (by omega)
        have := showEntry_eq_ok hlast
        omega
  · intro h
    exact never_forLoop (fun j s hj _ => inside_showEntry (by omega) s) trivial

/-- What "smsgShow" needs: where its guard lets the data pass, less than 2^29 buckets. -/
def ShowFits (vchData : List UInt8) : Prop :=
  ∀ nBuckets, readCount vchData 0 = .ok nBuckets →
    (4 + nBuckets * 8).toNat ≤ vchData.length → nBuckets.toNat < 2 ^ 29

/-- **"smsgShow"** stays inside exactly if its guard does not wrap. -/
theorem never_smsgShow_iff (st : SmsgState C) (pfrom : Peer) (hmax : vchData.length ≤ MAX_SIZE) :
    Inside (smsgShow st pfrom vchData) ↔ ShowFits vchData := by
  have hconst : MAX_SIZE = 2 ^ 25 := by decide
  unfold smsgShow
  by_cases hfour : vchData.length < 4
  · rw [if_pos hfour]
    refine ⟨fun _ nBuckets hcount => ?_, fun _ => trivial⟩
    -- no count is read
    unfold readCount readIn at hcount
    rw [if_neg (by omega)] at hcount
    cases hcount
  · rw [if_neg hfour]
    obtain ⟨nBuckets, hcount⟩ : ∃ nBuckets, readCount vchData 0 = .ok nBuckets := by
      refine ⟨UInt32.ofNat (ofLEBytes ((vchData.drop 0).take 4)), ?_⟩
      rw [readCount, readIn, if_pos (by omega)]
      rfl
    rw [hcount]
    show Inside (if vchData.length < (4 + nBuckets * 8).toNat then _ else _) ↔ _
    by_cases hguard : vchData.length < (4 + nBuckets * 8).toNat
    · rw [if_pos hguard]
      refine ⟨fun _ n hn hle => ?_, fun _ => trivial⟩
      obtain rfl := Except.ok.inj (hn.symm.trans hcount)
      omega
    · rw [if_neg hguard]
      have hshow : Inside (forLoop (showEntry st vchData) 0 nBuckets.toNat [] >>= fun pushed =>
          (pure ⟨true, pfrom, st, pushed⟩ : Except Fault (Handled C))) ↔
            4 + 8 * nBuckets.toNat ≤ vchData.length := by
        rw [← inside_showLoop_iff st _ (by omega), Inside, never_bind]
        exact Iff.rfl
      rw [hshow]
      have hnat : (4 + nBuckets * 8).toNat = (4 + nBuckets.toNat * 8) % 2 ^ 32 := by
        rw [UInt32.toNat_add, UInt32.toNat_mul]
        show (4 + nBuckets.toNat * 8 % 2 ^ 32) % 2 ^ 32 = _
        omega
      constructor
      · intro hle n hn _
        obtain rfl := Except.ok.inj (hn.symm.trans hcount)
        omega
      · intro hfits
        have := hfits nBuckets hcount (by omega)
        omega

/-! ## §4. The messages of a bunch. -/

/-- A message that the loop goes on behind: it is valid, and stored, and `SecureMsgDecrypt` makes
an end of it. -/
structure Passes (B : AddressTexts) (hmac : HmacSha256) (st : SmsgState C) (m : Message) :
    Prop where
  valid : secureMsgValidate hmac m.smsg m.pPayload = 0
  inTime : st.inTime m = true
  new : (st.tokenSet m.bucket).contains m.key = false
  scanned : st.isLocked = false → ∃ own, ownAddress B st.toNode m st.smsgAddresses ⟨0, [], []⟩ =
    .ok own

/-- Messages that the loop has gone through, one after another. -/
structure Passed (B : AddressTexts) (hmac : HmacSha256) (st : SmsgState C) (done : List Message) :
    Prop where
  each : ∀ m ∈ done, Passes B hmac st m
  distinct : (done.map Message.key).Nodup

def Owned (B : AddressTexts) (st : SmsgState C) (m : Message) : Prop :=
  st.isLocked = false ∧
    ∃ addressTo, ownAddress B st.toNode m st.smsgAddresses ⟨0, [], []⟩ = .ok (some addressTo)

/-- A header at the front of `rest` whose payload is hashed has it behind it. -/
def PayloadThere (rest : List UInt8) : Prop :=
  ∀ smsg behind, readSecureMessage.run rest = some (smsg, behind) → smsg.protocol = 1 →
    smsg.nPayload.toNat ≤ SMSG_MAX_MSG_WORST → smsg.nPayload.toNat ≤ behind.length

/-- **What a bunch needs**: of each message that is come to behind others, with a round left, the
payload, and 8 bytes if it goes to the inbox. -/
def Fits (B : AddressTexts) (hmac : HmacSha256) (st : SmsgState C) (left : Nat)
    (data : List UInt8) : Prop :=
  ∀ done rest, data = done.flatMap Message.bytes ++ rest → done.length < left →
    Passed B hmac st done → PayloadThere rest ∧
      ∀ m behind, rest = m.bytes ++ behind → Passed B hmac st (done ++ [m]) → Owned B st m →
        8 ≤ m.pPayload.length + behind.length

/-- What there is of `st` after `m` was stored and scanned. -/
structure Follows (st st' : SmsgState C) (m : Message) : Prop where
  now : st'.now = st.now
  isLocked : st'.isLocked = st.isLocked
  node : st'.toNode = st.toNode
  smsgAddresses : st'.smsgAddresses = st.smsgAddresses
  tokens : ∀ b k, (st'.tokenSet b).contains k = true ↔
    (b = m.bucket ∧ k = m.key) ∨ (st.tokenSet b).contains k = true

theorem bytes_inj {rest' : List UInt8} (h : m.bytes ++ rest = m'.bytes ++ rest') : m
    = m' ∧ rest = rest' := by
  have hread := format_message.reads m rest trivial
  rw [h, format_message.reads m' rest' trivial] at hread
  obtain ⟨hm, hrest⟩ := Prod.mk.inj (Option.some.inj hread)
  exact ⟨hm.symm, hrest.symm⟩

theorem passes_follows (hf : Follows st st' m) :
    Passes B hmac st' m' ↔ Passes B hmac st m' ∧ m.key ≠ m'.key := by
  have htime : st'.inTime m' = st.inTime m' := by
    unfold SmsgStore.inTime
    rw [hf.now]
  have hnew : (st'.tokenSet m'.bucket).contains m'.key = false ↔
      (st.tokenSet m'.bucket).contains m'.key = false ∧ m.key ≠ m'.key := by
    rw [← Bool.not_eq_true, hf.tokens, not_or, Bool.not_eq_true, and_comm]
    refine and_congr_right fun _ => not_congr ⟨fun h => h.2.symm, fun h => ⟨?_, h.symm⟩⟩
    -- messages with one key have one timestamp
    have hstamp := congrArg SecMsgKey.timestamp h
    exact congrArg bucketOf hstamp.symm
  constructor
  · rintro ⟨hvalid, hin, hfresh, hscan⟩
    rw [hf.isLocked, hf.node, hf.smsgAddresses] at hscan
    exact ⟨⟨hvalid, htime ▸ hin, (hnew.mp hfresh).1, hscan⟩, (hnew.mp hfresh).2⟩
  · rintro ⟨⟨hvalid, hin, hfresh, hscan⟩, hne⟩
    refine ⟨hvalid, htime ▸ hin, hnew.mpr ⟨hfresh, hne⟩, ?_⟩
    rw [hf.isLocked, hf.node, hf.smsgAddresses]
    exact hscan

theorem passed_cons {done : List Message} (hf : Follows st st' m) (hm : Passes B hmac st m) :
    Passed B hmac st (m :: done) ↔ Passed B hmac st' done := by
  constructor
  · rintro ⟨heach, hdistinct⟩
    rw [map_cons, nodup_cons] at hdistinct
    refine ⟨fun m' hm' => (passes_follows hf).mpr ⟨heach m' (mem_cons_of_mem m hm'), ?_⟩,
      hdistinct.2⟩
    intro heq
    exact hdistinct.1 (heq ▸ mem_map_of_mem hm')
  · rintro ⟨heach, hdistinct⟩
    refine ⟨fun m' hm' => ?_, ?_⟩
    · rcases mem_cons.mp hm' with rfl | hm'
      · exact hm
      · exact ((passes_follows hf).mp (heach m' hm')).1
    · rw [map_cons, nodup_cons]
      refine ⟨fun hmem => ?_, hdistinct⟩
      obtain ⟨m', hm', heq⟩ := mem_map.mp hmem
      exact ((passes_follows hf).mp (heach m' hm')).2 heq.symm

theorem passed_nil (st : SmsgState C) : Passed B hmac st [] :=
  ⟨fun _ h => (nomatch h), nodup_nil⟩

theorem owned_follows (hf : Follows st st' m) :
    Owned B st' m' ↔ Owned B st m' := by
  unfold Owned
  rw [hf.isLocked, hf.node, hf.smsgAddresses]

theorem payloadThere_message (m : Message) (rest : List UInt8) :
    PayloadThere (m.bytes ++ rest) := by
  intro smsg behind hread _ _
  rw [Message.bytes, append_assoc, format_secureMessage.reads m.smsg _ trivial] at hread
  cases hread
  show m.smsg.nPayload.toNat ≤ _
  rw [length_append, m.size]
  omega

theorem fits_cons (hf : Follows st st' m) (hm : Passes B hmac st m) :
    Fits B hmac st (left + 1) (m.bytes ++ rest) ↔
      (Owned B st m → 8 ≤ m.pPayload.length + rest.length) ∧ Fits B hmac st' left rest := by
  have hone : Passed B hmac st [m] := (passed_cons hf hm).mpr (passed_nil st')
  constructor
  · intro h
    refine ⟨(h [] _ rfl (Nat.succ_pos left) (passed_nil st)).2 m rest rfl hone, ?_⟩
    intro done rest' hrest hlt hdone
    have hdata : m.bytes ++ rest = (m :: done).flatMap Message.bytes ++ rest' := by
      rw [flatMap_cons, append_assoc, hrest]
    obtain ⟨hthere, hown⟩ := h (m :: done) rest' hdata (Nat.succ_lt_succ hlt)
      ((passed_cons hf hm).mpr hdone)
    refine ⟨hthere, fun m' behind hbehind hpassed howned => ?_⟩
    exact hown m' behind hbehind ((passed_cons hf hm).mpr hpassed) ((owned_follows hf).mp howned)
  · rintro ⟨hown, hfits⟩ done rest' hdata hlt hdone
    cases done with
    | nil =>
      obtain rfl : m.bytes ++ rest = rest' := hdata
      refine ⟨payloadThere_message m rest, fun m' behind hbehind _ howned => ?_⟩
      obtain ⟨rfl, rfl⟩ := bytes_inj hbehind
      exact hown howned
    | cons m' done =>
      rw [flatMap_cons, append_assoc] at hdata
      obtain ⟨rfl, hrest⟩ := bytes_inj hdata
      obtain ⟨hthere, hown'⟩ := hfits done rest' hrest (Nat.lt_of_succ_lt_succ hlt)
        ((passed_cons hf hm).mp hdone)
      refine ⟨hthere, fun m'' behind hbehind hpassed howned => ?_⟩
      exact hown' m'' behind hbehind ((passed_cons hf hm).mp hpassed)
        ((owned_follows hf).mpr howned)

theorem fits_stop {data : List UInt8}
    (hstop : ∀ m rest, data = m.bytes ++ rest → ¬ Passes B hmac st m) :
    Fits B hmac st left data ↔ (0 < left → PayloadThere data) := by
  constructor
  · intro h hpos
    exact (h [] data rfl hpos (passed_nil st)).1
  · intro h done rest hdata hlt hdone
    cases done with
    | nil =>
      obtain rfl : data = rest := hdata
      refine ⟨h hlt, fun m behind hbehind hpassed _ => ?_⟩
      exact absurd (hpassed.each m mem_cons_self) (hstop m behind hbehind)
    | cons m done =>
      rw [flatMap_cons, append_assoc] at hdata
      exact absurd (hdone.each m mem_cons_self) (hstop m _ hdata)

/-! ## §5. The loop over a bunch. -/

theorem headerAt_eq (h : readSecureMessage.run (vchData.drop n) = some (smsg, behind)) :
    headerAt vchData n = .ok smsg := by
  rw [headerAt, h]

theorem messageAt_eq (h : vchData.drop n = m.bytes ++ rest) : messageAt vchData n = .ok m := by
  rw [messageAt, h, format_message.reads m rest trivial]
  rfl

theorem readSecureMessage_message (m : Message) (rest : List UInt8) :
    readSecureMessage.run (m.bytes ++ rest) = some (m.smsg, m.pPayload ++ rest) := by
  rw [Message.bytes, append_assoc]
  exact format_secureMessage.reads m.smsg _ trivial

theorem validateAt_message (h : vchData.drop n = m.bytes ++ rest) :
    validateAt hmac vchData n = .ok (secureMsgValidate hmac m.smsg m.pPayload) := by
  have hheader : headerAt vchData n = .ok m.smsg :=
    headerAt_eq (by rw [h]; exact readSecureMessage_message m rest)
  rw [validateAt, hheader, ok_bind, messageAt_eq h, ok_bind]
  by_cases hversion : m.smsg.protocol ≠ 1
  · rw [if_pos hversion, secureMsgValidate, if_pos hversion]
    rfl
  · rw [if_neg hversion]
    by_cases hlarge : m.smsg.nPayload.toNat > SMSG_MAX_MSG_WORST
    · rw [if_pos hlarge, secureMsgValidate, if_neg hversion, if_pos hlarge]
      rfl
    · rw [if_neg hlarge]
      rfl

theorem exists_message {data : List UInt8} (h : readSecureMessage.run data = some (smsg, behind)) :
    (∃ (m : Message) (rest : List UInt8), data = m.bytes ++ rest ∧ m.smsg = smsg) ∨
      behind.length < smsg.nPayload.toNat := by
  by_cases hle : smsg.nPayload.toNat ≤ behind.length
  · refine .inl ⟨⟨smsg, behind.take smsg.nPayload.toNat, length_take_of_le hle⟩,
      behind.drop smsg.nPayload.toNat, ?_, rfl⟩
    rw [Message.bytes, append_assoc, take_append_drop]
    exact (format_secureMessage.takes data smsg behind h).1
  · exact .inr (by omega)

/-- **`SecureMsgValidate`** at the front of `rest`: it reads outside, or it drops the header, or
there is a message. -/
theorem validateAt_cases (hmac : HmacSha256)
    (h : readSecureMessage.run (vchData.drop n) = some (smsg, behind)) :
    (¬ PayloadThere (vchData.drop n) ∧ validateAt hmac vchData n = .error .outside) ∨
      (PayloadThere (vchData.drop n) ∧ (∃ rv, rv ≠ 0 ∧ validateAt hmac vchData n = .ok rv) ∧
        ∀ (m : Message) rest, vchData.drop n = m.bytes ++ rest →
          secureMsgValidate hmac m.smsg m.pPayload ≠ 0) ∨
      ∃ (m : Message) (rest : List UInt8), vchData.drop n = m.bytes ++ rest ∧
        secureMsgValidate hmac m.smsg m.pPayload = 0 := by
  obtain ⟨m, rest, hdata, rfl⟩ | hcut := exists_message h
  · by_cases hvalid : secureMsgValidate hmac m.smsg m.pPayload = 0
    · exact .inr (.inr ⟨m, rest, hdata, hvalid⟩)
    · refine .inr (.inl ⟨hdata ▸ payloadThere_message m rest,
        ⟨_, hvalid, validateAt_message hdata⟩, fun m' rest' hdata' => ?_⟩)
      obtain ⟨rfl, -⟩ := bytes_inj (hdata.symm.trans hdata')
      exact hvalid
  · -- the payload is cut: nothing is read of it, or too much
    have hnone : ∀ (m : Message) rest, vchData.drop n ≠ m.bytes ++ rest := by
      intro m rest hdata
      rw [hdata, readSecureMessage_message] at h
      cases h
      rw [length_append, m.size] at hcut
      omega
    have hmessage : messageAt vchData n = .error .outside := by
      unfold messageAt
      split
      next m rest hread => exact absurd (format_message.takes _ m rest hread).1 (hnone m rest)
      next => rfl
    have hthere : PayloadThere (vchData.drop n) ↔
        ¬ (smsg.protocol = 1 ∧ smsg.nPayload.toNat ≤ SMSG_MAX_MSG_WORST) := by
      constructor
      · rintro hthere ⟨hversion, hlarge⟩
        have := hthere smsg behind h hversion hlarge
        omega
      · intro hdropped smsg' behind' h' hversion hlarge
        rw [h] at h'
        cases h'
        exact absurd ⟨hversion, hlarge⟩ hdropped
    have hval : validateAt hmac vchData n =
        if smsg.protocol ≠ 1 then .ok 4
        else if smsg.nPayload.toNat > SMSG_MAX_MSG_WORST then .ok 5 else .error .outside := by
      rw [validateAt, headerAt_eq h, ok_bind, hmessage]
      rfl
    by_cases hversion : smsg.protocol ≠ 1
    · refine .inr (.inl ⟨hthere.mpr fun h => hversion h.1, ⟨4, by decide, ?_⟩,
        fun m rest hdata => absurd hdata (hnone m rest)⟩)
      rw [hval, if_pos hversion]
    · by_cases hlarge : smsg.nPayload.toNat > SMSG_MAX_MSG_WORST
      · refine .inr (.inl ⟨hthere.mpr fun h => by omega, ⟨5, by decide, ?_⟩,
          fun m rest hdata => absurd hdata (hnone m rest)⟩)
        rw [hval, if_neg hversion, if_pos hlarge]
      · refine .inl ⟨fun h => hthere.mp h ⟨not_not.mp hversion, by omega⟩, ?_⟩
        rw [hval, if_neg hversion, if_neg hlarge]

theorem store_eq (st : SmsgState C) (m : Message) :
    (st.store m false).1 = 0 ↔
      st.inTime m = true ∧ (st.tokenSet m.bucket).contains m.key = false := by
  show (st.toSmsgStore.secureMsgStore m).1 = 0 ↔ _
  unfold SmsgStore.secureMsgStore
  cases hin : st.inTime m with
  | false => simp
  | true =>
    cases hknown : (st.tokenSet m.bucket).contains m.key with
    | true => simp [hknown]
    | false => simp [hknown]

theorem store_false (st : SmsgState C) (m : Message) :
    st.store m false = ((st.toSmsgStore.secureMsgStore m).1,
      { st with toSmsgStore := (st.toSmsgStore.secureMsgStore m).2 }) := by
  have hfalse : ¬ ((st.toSmsgStore.secureMsgStore m).1 = 0 ∧ false = true) := fun h => nomatch h.2
  unfold SmsgState.store
  exact congrArg (Prod.mk _) (if_neg hfalse)

theorem follows_store (h : (st.store m false).1 = 0) :
    Follows st (st.store m false).2 m := by
  have happends : Appends st.toSmsgStore m := (store_eq st m).mp h
  obtain ⟨hnow, ⟨hnot, -⟩ | ⟨-, hcases⟩⟩ := secureMsgStore_cases st.toSmsgStore m
  · exact absurd happends hnot
  · rw [store_false]
    refine ⟨hnow, rfl, rfl, rfl, fun b k => ?_⟩
    show (((st.toSmsgStore.secureMsgStore m).2).tokenSet b).contains k = true ↔ _
    rw [(hcases b).2]
    by_cases hb : m.bucket = b
    · rw [if_pos hb, StdMap.contains_insertNew, Bool.or_eq_true, beq_iff_eq, or_comm,
        and_iff_right hb.symm, eq_comm]
    · rw [if_neg hb]
      exact ⟨.inr, fun h => h.resolve_left fun h => hb h.1.symm⟩

/-- What a scan leaves of the state: all but the inbox, and the files for a locked wallet. -/
structure Leaves (st st' : SmsgState C) : Prop where
  now : st'.now = st.now
  smsgBuckets : st'.smsgBuckets = st.smsgBuckets
  bucketInfo : st'.bucketInfo = st.bucketInfo
  isLocked : st'.isLocked = st.isLocked
  node : st'.toNode = st.toNode
  smsgAddresses : st'.smsgAddresses = st.smsgAddresses

theorem Follows.leaves {st1 : SmsgState C} (hf : Follows st st1 m) (hl : Leaves st1 st') :
    Follows st st' m := by
  refine ⟨hl.now.trans hf.now, hl.isLocked.trans hf.isLocked, hl.node.trans hf.node,
    hl.smsgAddresses.trans hf.smsgAddresses, fun b k => ?_⟩
  rw [← hf.tokens b k]
  unfold SmsgStore.tokenSet
  rw [hl.smsgBuckets]

theorem leaves_storeUnscanned (st : SmsgState C) (m : Message) :
    Leaves st { st with toSmsgStore := (st.toSmsgStore.secureMsgStoreUnscanned m).2 } := by
  have hstore : (st.toSmsgStore.secureMsgStoreUnscanned m).2.now = st.now ∧
      (st.toSmsgStore.secureMsgStoreUnscanned m).2.smsgBuckets = st.smsgBuckets := by
    unfold SmsgStore.secureMsgStoreUnscanned
    split
    · exact ⟨rfl, rfl⟩
    · exact ⟨rfl, rfl⟩
  exact ⟨hstore.1, hstore.2, rfl, rfl, rfl, rfl⟩

/-- **`SecureMsgScanMessage`** of the message at the front of the data: it needs 8 bytes of an own
message. -/
theorem secureMsgScanMessage_cases (B : AddressTexts) (vchData : List UInt8) (n : Nat)
    (st : SmsgState C) (m : Message) :
    (∃ e, e ≠ .outside ∧ secureMsgScanMessage B vchData n st m = .error e ∧
        st.isLocked = false ∧
        ∀ own, ownAddress B st.toNode m st.smsgAddresses ⟨0, [], []⟩ ≠ .ok own) ∨
      ((st.isLocked = false →
          ∃ own, ownAddress B st.toNode m st.smsgAddresses ⟨0, [], []⟩ = .ok own) ∧
        ((Owned B st m ∧ vchData.length < n + SMSG_HDR_LEN + 8 ∧
            secureMsgScanMessage B vchData n st m = .error .outside) ∨
          ((Owned B st m → n + SMSG_HDR_LEN + 8 ≤ vchData.length) ∧
            ∃ rv st', secureMsgScanMessage B vchData n st m = .ok (rv, st') ∧
              Leaves st st'))) := by
  unfold secureMsgScanMessage
  by_cases hlocked : st.isLocked = true
  · rw [if_pos hlocked]
    refine .inr ⟨fun h => ?_, .inr ⟨fun howned => ?_, _, _, rfl, leaves_storeUnscanned st m⟩⟩
    · rw [h] at hlocked
      cases hlocked
    · rw [howned.1] at hlocked
      cases hlocked
  · rw [if_neg hlocked]
    rw [Bool.not_eq_true] at hlocked
    cases hown : ownAddress B st.toNode m st.smsgAddresses ⟨0, [], []⟩ with
    | error a =>
      refine .inl ⟨.other a, by simp, rfl, hlocked, fun own h => ?_⟩
      cases h
    | ok own =>
      refine .inr ⟨fun _ => ⟨own, rfl⟩, ?_⟩
      have hsame : Leaves st st := ⟨rfl, rfl, rfl, rfl, rfl, rfl⟩
      cases own with
      | none =>
        refine .inr ⟨fun howned => ?_, 0, st, rfl, hsame⟩
        obtain ⟨-, addressTo, haddress⟩ := howned
        rw [hown] at haddress
        cases haddress
      | some addressTo =>
        have howned : Owned B st m := ⟨hlocked, addressTo, hown⟩
        show (_ ∧ _ ∧ (readIn vchData (n + SMSG_HDR_LEN) 8 >>= _) = _) ∨
          (_ ∧ ∃ rv st', (readIn vchData (n + SMSG_HDR_LEN) 8 >>= _) = _ ∧ _)
        unfold readIn
        by_cases height : n + SMSG_HDR_LEN + 8 ≤ vchData.length
        · rw [if_pos height]
          refine .inr ⟨fun _ => height, ?_⟩
          rw [ok_bind]
          dsimp only
          split
          · exact ⟨0, st, rfl, hsame⟩
          · exact ⟨0, _, rfl, rfl, rfl, rfl, rfl, rfl, rfl⟩
        · rw [if_neg height]
          exact .inl ⟨howned, by omega, rfl⟩

/-- **The loop over a bunch** stays inside exactly if what it needs is there. -/
theorem never_receiveLoop_iff (B : AddressTexts) (hmac : HmacSha256)
    (hmax : vchData.length ≤ MAX_SIZE) (left : Nat) (s : ReceiveLoop C)
    (hn : s.n ≤ vchData.length) :
    Inside (receiveLoop B hmac vchData left s) ↔ Fits B hmac s.st left (vchData.drop s.n) := by
  have hconst : MAX_SIZE = 2 ^ 25 := by decide
  -- induction on the rounds that are left
  induction left generalizing s with
  | zero => exact ⟨fun _ done _ _ hlt => absurd hlt (Nat.not_lt_zero _), fun _ => trivial⟩
  | succ left ih =>
    have hsize : (vchData.length + 2 ^ 64 - s.n) % 2 ^ 64 = vchData.length - s.n := by omega
    unfold receiveLoop
    rw [hsize]
    by_cases hhdr : vchData.length - s.n < SMSG_HDR_LEN
    · -- there is no header
      rw [if_pos hhdr]
      have hshort : (vchData.drop s.n).length < SMSG_HDR_LEN := by
        rw [length_drop]
        exact hhdr
      rw [fits_stop]
      · refine ⟨fun _ _ smsg behind hread => ?_, fun _ => trivial⟩
        have := length_of_readSecureMessage hread
        omega
      · intro m rest hdata
        rw [hdata, length_append, m.bytes_length] at hshort
        omega
    · rw [if_neg hhdr]
      have hlong : SMSG_HDR_LEN ≤ (vchData.drop s.n).length := by
        rw [length_drop]
        omega
      obtain ⟨smsg, hread⟩ := fixed_readSecureMessage (vchData.drop s.n) hlong
      obtain ⟨hcut, hval⟩ | ⟨hthere, ⟨rv, hrv, hval⟩, hinvalid⟩ | ⟨m, rest, hdata, hvalid⟩ :=
        validateAt_cases hmac hread
      · -- the payload is cut
        rw [hval]
        refine ⟨fun h => absurd rfl h, fun h => ?_⟩
        exact absurd (h [] _ rfl (Nat.succ_pos left) (passed_nil s.st)).1 hcut
      · -- the message is dropped, and the next round finds it again
        have hstop : ∀ m rest, vchData.drop s.n = m.bytes ++ rest → ¬ Passes B hmac s.st m :=
          fun m rest hdata hpasses => hinvalid m rest hdata hpasses.valid
        rw [hval, ok_bind, if_pos hrv]
        have hagain := ih { s with pfrom := s.pfrom.misbehaving (if rv = 2 then 10 else 1) } hn
        refine hagain.trans ?_
        rw [fits_stop hstop, fits_stop hstop]
        exact ⟨fun _ _ => hthere, fun _ _ => hthere⟩
      · rw [validateAt_message hdata, ok_bind, hvalid, if_neg (by decide), messageAt_eq hdata,
          ok_bind]
        by_cases hstored : (s.st.store m false).1 = 0
        · have hf := follows_store hstored
          obtain ⟨hin, hnew⟩ := (store_eq s.st m).mp hstored
          have hlen : vchData.length = s.n + (SMSG_HDR_LEN + m.smsg.nPayload.toNat) +
              rest.length := by
            have h := congrArg length hdata
            rw [length_drop, length_append, m.bytes_length] at h
            omega
          have height : s.n + SMSG_HDR_LEN + 8 ≤ vchData.length ↔
              8 ≤ m.pPayload.length + rest.length := by
            rw [m.size]
            omega
          dsimp only
          rw [if_neg (not_not.mpr hstored), hdata]
          obtain ⟨e, he, hscan, hlocked, hown⟩ | ⟨hscanned, hscan⟩ :=
            secureMsgScanMessage_cases B vchData s.n (s.st.store m false).2 m
          · -- `SecureMsgDecrypt` makes no end of it
            rw [hscan, fits_stop]
            · exact ⟨fun _ _ => payloadThere_message m rest, fun _ => he⟩
            · intro m' rest' hdata' hpasses
              obtain ⟨rfl, -⟩ := bytes_inj hdata'
              rw [hf.isLocked] at hlocked
              rw [hf.node, hf.smsgAddresses] at hown
              obtain ⟨own, h⟩ := hpasses.scanned hlocked
              exact hown own h
          · rw [hf.isLocked, hf.node, hf.smsgAddresses] at hscanned
            have hpasses : Passes B hmac s.st m := ⟨hvalid, hin, hnew, hscanned⟩
            obtain ⟨howned, hless, hout⟩ | ⟨howned, rv, st', hok, hleaves⟩ := hscan
            · -- 8 bytes are copied of less
              rw [hout, fits_cons hf hpasses]
              refine ⟨fun h => absurd rfl h, fun h => ?_⟩
              have := height.mpr (h.1 ((owned_follows hf).mp howned))
              omega
            · have hdrop :
                  vchData.drop (s.n + (SMSG_HDR_LEN + m.smsg.nPayload.toNat)) = rest := by
                rw [← m.bytes_length, ← drop_drop, hdata, drop_left]
              have hle : s.n + (SMSG_HDR_LEN + m.smsg.nPayload.toNat) ≤ vchData.length := by omega
              have hbehind := ih ⟨s.n + (SMSG_HDR_LEN + m.smsg.nPayload.toNat), s.pfrom, st'⟩ hle
              rw [hok, ok_bind, fits_cons (hf.leaves hleaves) hpasses]
              refine hbehind.trans ?_
              show Fits B hmac st' left (vchData.drop _) ↔ _
              rw [hdrop]
              refine ⟨fun h => ⟨fun h' => ?_, h⟩, And.right⟩
              exact height.mp (howned ((owned_follows hf).mpr h'))
        · -- the message is not stored, and the loop ends
          dsimp only
          rw [if_pos hstored, hdata, fits_stop]
          · exact ⟨fun _ _ => payloadThere_message m rest, fun _ => trivial⟩
          · intro m' rest' hdata' hpasses
            obtain ⟨rfl, -⟩ := bytes_inj hdata'
            exact hstored ((store_eq s.st m).mpr ⟨hpasses.inTime, hpasses.new⟩)

/-! ## §6. All commands. -/

/-- What "smsgMsg" needs, if its bunch is gone through. -/
def MsgFits (B : AddressTexts) (hmac : HmacSha256) (st : SmsgState C) (vchData : List UInt8) :
    Prop :=
  ∀ nBunch bktTime, 12 ≤ vchData.length → readCount vchData 0 = .ok nBunch →
    readTime vchData 4 = .ok bktTime → ¬ bktTime > st.now + SMSG_TIME_LEEWAY →
    ¬ bktTime < st.now - SMSG_RETENTION → ¬ (nBunch = 0 ∨ nBunch > 500) →
    Fits B hmac st nBunch.toNat (vchData.drop 12)

theorem readCount_eq (vchData : List UInt8) (h : o + 4 ≤ vchData.length) :
    ∃ n, readCount vchData o = .ok n := by
  refine ⟨UInt32.ofNat (ofLEBytes ((vchData.drop o).take 4)), ?_⟩
  rw [readCount, readIn, if_pos h]
  rfl

theorem inside_secureMsgReceive_iff (st : SmsgState C) (pfrom : Peer)
    (hmax : vchData.length ≤ MAX_SIZE) :
    Inside (secureMsgReceive B hmac st pfrom vchData) ↔ MsgFits B hmac st vchData := by
  unfold secureMsgReceive
  by_cases htwelve : vchData.length < 12
  · rw [if_pos htwelve]
    exact ⟨fun _ _ _ h => by omega, fun _ => trivial⟩
  rw [if_neg htwelve]
  obtain ⟨nBunch, hcount⟩ := readCount_eq vchData (o := 0) (by omega)
  obtain ⟨-, bktTime, htime⟩ | ⟨h, -⟩ := readTime_cases vchData 4
  · rw [hcount, ok_bind, htime, ok_bind]
    have hneeds : MsgFits B hmac st vchData ↔ (¬ bktTime > st.now + SMSG_TIME_LEEWAY →
        ¬ bktTime < st.now - SMSG_RETENTION → ¬ (nBunch = 0 ∨ nBunch > 500) →
        Fits B hmac st nBunch.toNat (vchData.drop 12)) := by
      constructor
      · intro h
        exact h nBunch bktTime (by omega) hcount htime
      · intro h n time _ hn ht
        obtain rfl := Except.ok.inj (hcount.symm.trans hn)
        obtain rfl := Except.ok.inj (htime.symm.trans ht)
        exact h
    rw [hneeds]
    by_cases hlate : bktTime > st.now + SMSG_TIME_LEEWAY
    · rw [if_pos hlate]
      exact ⟨fun _ h => absurd hlate h, fun _ => trivial⟩
    rw [if_neg hlate]
    by_cases hearly : bktTime < st.now - SMSG_RETENTION
    · rw [if_pos hearly]
      exact ⟨fun _ _ h => absurd hearly h, fun _ => trivial⟩
    rw [if_neg hearly]
    by_cases hinvalid : nBunch = 0 ∨ nBunch > 500
    · rw [if_pos hinvalid]
      exact ⟨fun _ _ _ h => absurd hinvalid h, fun _ => trivial⟩
    rw [if_neg hinvalid]
    have hloop := never_receiveLoop_iff B hmac hmax nBunch.toNat
      (⟨12, pfrom, st⟩ : ReceiveLoop C) (by show 12 ≤ _; omega)
    rw [Inside, never_bind]
    constructor
    · intro h _ _ _
      exact hloop.mp (h.mono fun _ _ => trivial)
    · intro h
      refine (hloop.mpr (h hlate hearly hinvalid)).mono fun s _ => ?_
      split
      · trivial
      · trivial
  · omega

def StaysInside (B : AddressTexts) (hmac : HmacSha256) (st : SmsgState C) (strCommand : Command)
    (vRecv : List UInt8) : Prop :=
  ∀ vchData, readData vRecv = .ok vchData →
    (strCommand = .smsgShow → ShowFits vchData) ∧
      (strCommand = .smsgMsg → MsgFits B hmac st vchData)

theorem readData_length {vRecv : List UInt8} (h : readData vRecv = .ok vchData) :
    vchData.length ≤ MAX_SIZE := by
  unfold readData at h
  split at h
  next vch rest hread =>
    cases h
    exact (format_bytes.takes _ _ _ hread).2
  next => cases h

theorem inside_readData_bind {β : Type} {vRecv : List UInt8} {f : List UInt8 → Except Fault β} :
    Inside (readData vRecv >>= f) ↔
      ∀ vchData, readData vRecv = .ok vchData → Inside (f vchData) := by
  have hread := inside_readData vRecv
  cases h : readData vRecv with
  | ok vchData =>
    constructor
    · rintro hf _ heq
      cases heq
      exact hf
    · intro hf
      exact hf vchData rfl
  | error e =>
    rw [h] at hread
    exact ⟨fun _ _ h => (nomatch h), fun _ => hread⟩

/-- **Which data is read inside.**  Whatever a peer sends, `SecureMsgReceiveData` reads no byte
outside of it, exactly if the guard of "smsgShow" does not wrap, and a bunch has the payloads
that it is hashed by, and 8 bytes for each message that goes to the inbox. -/
theorem in_bounds_iff (B : AddressTexts) (hmac : HmacSha256) (st : SmsgState C) (pfrom : Peer)
    (strCommand : Command) (vRecv : List UInt8) :
    Inside (secureMsgReceiveData B hmac st pfrom strCommand vRecv) ↔
      StaysInside B hmac st strCommand vRecv := by
  have hother (f : List UInt8 → Except Fault (Handled C)) (hf : ∀ vchData, Inside (f vchData))
      (hshow : strCommand ≠ .smsgShow) (hmsg : strCommand ≠ .smsgMsg) :
      Inside (readData vRecv >>= f) ↔ StaysInside B hmac st strCommand vRecv :=
    ⟨fun _ _ _ => ⟨fun h => absurd h hshow, fun h => absurd h hmsg⟩,
      fun _ => inside_readData_bind.mpr fun vchData _ => hf vchData⟩
  have hnone : (∀ h : Handled C, Inside (.ok h)) := fun _ => trivial
  cases strCommand with
  | smsgInv => exact hother _ (never_smsgInv st pfrom) (by decide) (by decide)
  | smsgHave => exact hother _ (never_smsgHave st pfrom) (by decide) (by decide)
  | smsgWant => exact hother _ (never_smsgWant st pfrom) (by decide) (by decide)
  | smsgMatch => exact hother _ (never_smsgMatch st pfrom) (by decide) (by decide)
  | smsgIgnore => exact hother _ (never_smsgIgnore st pfrom) (by decide) (by decide)
  | smsgShow =>
    show Inside (readData vRecv >>= smsgShow st pfrom) ↔ _
    rw [inside_readData_bind]
    constructor
    · intro h vchData hdata
      refine ⟨fun _ => ?_, fun h => (nomatch h)⟩
      exact (never_smsgShow_iff st pfrom (readData_length hdata)).mp (h vchData hdata)
    · intro h vchData hdata
      exact (never_smsgShow_iff st pfrom (readData_length hdata)).mpr ((h vchData hdata).1 rfl)
  | smsgMsg =>
    show Inside (readData vRecv >>= _) ↔ _
    rw [inside_readData_bind]
    have hreturn (vchData : List UInt8) : Inside (secureMsgReceive B hmac st pfrom vchData >>=
        fun p => (pure ⟨true, p.1, p.2, []⟩ : Except Fault (Handled C))) ↔
          Inside (secureMsgReceive B hmac st pfrom vchData) := never_bind
    constructor
    · intro h vchData hdata
      refine ⟨fun h => (nomatch h), fun _ => ?_⟩
      exact (inside_secureMsgReceive_iff st pfrom (readData_length hdata)).mp
        ((hreturn vchData).mp (h vchData hdata))
    · intro h vchData hdata
      have hmsg := (h vchData hdata).2 rfl
      exact (hreturn vchData).mpr
        ((inside_secureMsgReceive_iff st pfrom (readData_length hdata)).mpr hmsg)
  | smsgPing => exact ⟨fun _ _ _ => ⟨nofun, nofun⟩, fun _ => trivial⟩
  | smsgPong => exact ⟨fun _ _ _ => ⟨nofun, nofun⟩, fun _ => trivial⟩
  | smsgDisabled => exact ⟨fun _ _ _ => ⟨nofun, nofun⟩, fun _ => trivial⟩
  | unknown => exact ⟨fun _ _ _ => ⟨nofun, nofun⟩, fun _ => trivial⟩

def cutHeader : SecureMessage :=
  { sampleSent.1 with nPayload := 100 }

def isOutside {α : Type} : Except Fault α → Bool
  | .error .outside => true
  | _ => false

theorem not_inside {α : Type} {x : Except Fault α} (h : isOutside x = true) : ¬ Inside x := by
  intro hinside
  match x, h with
  | .error .outside, _ => exact hinside rfl

/-- **Two peers.**  One asks to be shown 2^29 buckets, and sends none of their times; one sends a
bunch of one message, and only its header. -/
theorem reads_outside :
    ¬ Inside (secureMsgReceiveData sampleTexts sampleSmsgCrypto.hmacSha256
        (SmsgState.start sampleNode 1700000000) ⟨7, 0, {}⟩ .smsgShow [4, 0, 0, 0, 32]) ∧
      ¬ Inside (secureMsgReceiveData sampleTexts sampleSmsgCrypto.hmacSha256
        (SmsgState.start sampleNode 1700000000) ⟨7, 0, {}⟩ .smsgMsg
        (116 :: (leBytes 4 1 ++ (timeBytes 1700000000 ++ cutHeader.bytes)))) := by
  constructor
  · exact not_inside (by decide +kernel)
  · exact not_inside (by decide +kernel)

end Fantom.Smsg
