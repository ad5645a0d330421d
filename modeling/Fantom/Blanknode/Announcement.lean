/-
  Fantom.Blanknode.Announcement — `ssee`: a blanknode announces itself, and what its signature
  authorises.

  * `SharesText`, `strMessage_eq_iff` — the announcements that share a text,
  * `announcement_binds_iff` — the announcements that a signature authorises: the input
    is not in the text.
-/
import Fantom.Blanknode.Payments
import Fantom.Script.Signature

namespace Fantom.Blanknode

open Core Lib Script InstantX List

/-! ## §1. Messages. -/

/-- `CService`: the 16 bytes of an address, and a port. -/
structure CService where
  ip : List UInt8
  port : UInt16
deriving DecidableEq, Repr

def pchIPv4 : List UInt8 := replicate 10 0 ++ [0xff, 0xff]

def pchOnionCat : List UInt8 := [0xfd, 0x87, 0xd8, 0x7e, 0xeb, 0x43]

def pchGarliCat : List UInt8 := [0xfd, 0x60, 0xdb, 0x4d, 0xdd, 0xb5]

/-- `CService::ToString`, around what `ToStringIP` has of the system. -/
def CService.toText (toStringIP : List UInt8 → List Char) (addr : CService) : List Char :=
  if pchIPv4.isPrefixOf addr.ip || pchOnionCat.isPrefixOf addr.ip ||
      pchGarliCat.isPrefixOf addr.ip then
    toStringIP addr.ip ++ [':'] ++ decimal addr.port.toNat
  else ['['] ++ toStringIP addr.ip ++ [']', ':'] ++ decimal addr.port.toNat

/-- The bytes from `begin()` to `end()` of a `CPubKey`: as many as its header says, or none. -/
def KeyBytes (vch : CPubKey) : Prop := vch = [] ∨ pubKeyIsValid vch = true

instance (vch : CPubKey) : Decidable (KeyBytes vch) := by
  unfold KeyBytes
  infer_instance

/-- The message `ssee`. -/
structure Ssee where
  vin : CTxIn
  addr : CService
  vchSig : List UInt8
  sigTime : Int64
  pubkey : CPubKey
  pubkey2 : CPubKey
  count : Int32
  lastUpdated : Int64
  protocolVersion : Int32
  donationAddress : CScript
  donationPercentage : Int32
  keyBytes : KeyBytes pubkey
  keyBytes2 : KeyBytes pubkey2

/-- `std::string(pubkey.begin(), pubkey.end())` -/
def rawText (vch : CPubKey) : List Char := vch.map fun b => Char.ofNat b.toNat

def Ssee.headText (toStringIP : List UInt8 → List Char) (m : Ssee) : List Char :=
  m.addr.toText toStringIP ++ decimal m.sigTime.toInt

def Ssee.tailText (m : Ssee) : List Char :=
  decimal m.protocolVersion.toInt ++ CScript.toText m.donationAddress ++
    decimal m.donationPercentage.toInt

def Ssee.strMessage (toStringIP : List UInt8 → List Char) (m : Ssee) : List Char :=
  m.headText toStringIP ++ (rawText m.pubkey ++ (rawText m.pubkey2 ++ m.tailText))

/-! ## §2. The handler. -/

def MIN_SN_PROTO_VERSION : Int32 := 60020

def BLANKNODE_MIN_SSEE_SECONDS : Int32 := 5 * 60

def BLANKNODE_MIN_CONFIRMATIONS : Int := 15

/-- `CBlanknode`, as far as the handler reads and writes it. -/
structure AnnouncedBlanknode where
  vin : CTxIn
  addr : CService
  pubkey : CPubKey
  pubkey2 : CPubKey
  sig : List UInt8
  sigTime : Int64
  lastTimeSeen : Int64
  protocolVersion : Int32
  donationAddress : CScript
  donationPercentage : Int32
deriving DecidableEq, Repr

/-- What the handler reads and does not change. -/
structure SseeEnv (C : Crypto) where
  fLiteMode : Bool
  isInitialBlockDownload : Bool
  nAdjustedTime : Int64
  toStringIP : List UInt8 → List Char
  fBlankNode : Bool
  /-- `activeBlanknode.vin` and `.pubKeyBlanknode`. -/
  activeVin : CTxIn
  activePubKey : CPubKey
  /-- `IsVinAssociatedWithPubkey`. -/
  isVinAssociatedWithPubkey : CTxIn → CPubKey → Bool
  /-- What `AcceptableInputs` says to the transaction that tries the input. -/
  inputsAcceptable : CTxIn → Bool
  getInputAge : CTxIn → Int
  /-- The time of the block in which the input has its confirmations, if its block is known. -/
  confirmedTime : CTxIn → Option Int64

/-- How the handler ended. -/
inductive SseeOutcome where
  | ignored
  | misbehaving (howmuch : Nat)
  /-- The blanknode is known, and has a newer announcement or was seen just now. -/
  | known
  | updated
  | added
deriving DecidableEq, Repr

variable {C : Crypto} (env : SseeEnv C) (m : Ssee)

/-- `VerifyMessage` of the handler. -/
def SseeEnv.verifies : Bool :=
  verifyMessage C m.pubkey m.vchSig (m.strMessage env.toStringIP)

/-- What an announcement of a listed entry changes in it. -/
def AnnouncedBlanknode.update (psn : AnnouncedBlanknode) : AnnouncedBlanknode :=
  { psn with
    pubkey2 := m.pubkey2
    sigTime := m.sigTime
    sig := m.vchSig
    protocolVersion := m.protocolVersion
    addr := m.addr
    donationAddress := m.donationAddress
    donationPercentage := m.donationPercentage }

/-- `CBlanknode(addr, vin, ..)`, seen at `lastUpdated`; a donation to a script hash is dropped. -/
def AnnouncedBlanknode.ofSsee : AnnouncedBlanknode where
  vin := m.vin
  addr := m.addr
  pubkey := m.pubkey
  pubkey2 := m.pubkey2
  sig := m.vchSig
  sigTime := m.sigTime
  lastTimeSeen := if m.lastUpdated = 0 then env.nAdjustedTime else m.lastUpdated
  protocolVersion := m.protocolVersion
  donationAddress := if CScript.isPayToScriptHash m.donationAddress then [] else m.donationAddress
  donationPercentage :=
    if CScript.isPayToScriptHash m.donationAddress then 0 else m.donationPercentage

/-- A known blanknode: whether the message counts as seen, and as newer. -/
def refresh (psn : AnnouncedBlanknode) (m : Ssee) : AnnouncedBlanknode × SseeOutcome :=
  if m.count = -1 ∧ psn.pubkey = m.pubkey ∧
      ¬ env.nAdjustedTime - psn.lastTimeSeen < BLANKNODE_MIN_SSEE_SECONDS.toInt64 then
    let psn := { psn with lastTimeSeen := env.nAdjustedTime }
    if psn.sigTime < m.sigTime then (psn.update m, .updated) else (psn, .known)
  else (psn, .known)

/-- The loop of `Find`, and what is done with the blanknode that it finds. -/
def refreshFirst (m : Ssee) :
    List AnnouncedBlanknode → Option (List AnnouncedBlanknode × SseeOutcome)
  | [] => none
  | psn :: rest =>
    if psn.vin.prevout = m.vin.prevout then
      let (psn, outcome) := refresh env psn m
      some (psn :: rest, outcome)
    else (refreshFirst m rest).map fun r => (psn :: r.1, r.2)

/-- Whether this node waits to be started with this key. -/
def SseeEnv.awaits : Bool :=
  env.fBlankNode && env.activeVin.eqv ⟨COutPoint.null, [], [], 0xffffffff⟩ &&
    m.pubkey2 == env.activePubKey

/-- An announcement of an entry that is not listed. -/
def announceNew (list : List AnnouncedBlanknode) (m : Ssee) :
    List AnnouncedBlanknode × SseeOutcome :=
  if !env.isVinAssociatedWithPubkey m.vin m.pubkey then (list, .misbehaving 100)
  else if !env.inputsAcceptable m.vin then (list, .ignored)
  else if env.getInputAge m.vin < BLANKNODE_MIN_CONFIRMATIONS then (list, .misbehaving 20)
  else if (env.confirmedTime m.vin).any fun time => time > m.sigTime then (list, .ignored)
  else if list.any fun psn => psn.vin.prevout == m.vin.prevout then (list, .known)
  else (list ++ [.ofSsee env m], .added)

/-- `ProcessMessage` on the command `ssee`.  The scripts of the two keys always have the right
size. -/
def processSsee (list : List AnnouncedBlanknode) (m : Ssee) :
    List AnnouncedBlanknode × SseeOutcome :=
  if env.fLiteMode || env.isInitialBlockDownload then (list, .ignored)
  else if m.sigTime > env.nAdjustedTime + 60 * 60 then (list, .ignored)
  else if m.donationPercentage < 0 ∨ m.donationPercentage > 100 then (list, .ignored)
  else if m.protocolVersion < MIN_SN_PROTO_VERSION then (list, .ignored)
  else if !m.vin.scriptSig.isEmpty then (list, .ignored)
  else if !env.verifies m then (list, .misbehaving 100)
  else if env.awaits m then announceNew env list m
  else (refreshFirst env m list).getD (announceNew env list m)

/-! ## §3. Announcements with the same text. -/

/-- The announcements share a text: both keys are there to cut it, or neither is. -/
def SharesText (toStringIP : List UInt8 → List Char) (m m' : Ssee) : Prop :=
  m.pubkey2 = m'.pubkey2 ∧
    if m.pubkey = [] ∧ m.pubkey2 = [] then
      m.headText toStringIP ++ m.tailText = m'.headText toStringIP ++ m'.tailText
    else m.headText toStringIP = m'.headText toStringIP ∧ m.tailText = m'.tailText

instance (toStringIP : List UInt8 → List Char) (m m' : Ssee) :
    Decidable (SharesText toStringIP m m') := by
  unfold SharesText
  infer_instance

/-- They differ in what the signature should be for. -/
def Ssee.Differs (m m' : Ssee) : Prop :=
  m.vin.prevout ≠ m'.vin.prevout ∨ m.addr ≠ m'.addr ∨ m.sigTime ≠ m'.sigTime ∨
    m.pubkey2 ≠ m'.pubkey2 ∨ m.protocolVersion ≠ m'.protocolVersion ∨
    m.donationAddress ≠ m'.donationAddress ∨ m.donationPercentage ≠ m'.donationPercentage

instance (m m' : Ssee) : Decidable (m.Differs m') := by
  unfold Ssee.Differs
  infer_instance

/-- A printed character, as keys do not begin with. -/
def Printed (c : Char) : Prop := 32 ≤ c.toNat ∧ c.toNat < 128

instance (c : Char) : Decidable (Printed c) := by
  unfold Printed
  infer_instance

instance (t : List Char) : Decidable (∀ c ∈ t, Printed c) := decidableBAll _ t

variable {t s s' : List Char} {toStringIP : List UInt8 → List Char} {k k' : CPubKey}

theorem printed_of_textChar (h : ∀ c ∈ t, TextChar c) : ∀ c ∈ t, Printed c :=
  fun c hc => ⟨(h c hc).1, (h c hc).2.1⟩

theorem printed_append (hs : ∀ c ∈ s, Printed c) (ht : ∀ c ∈ t, Printed c) :
    ∀ c ∈ s ++ t, Printed c := fun c hc => (mem_append.mp hc).elim (hs c) (ht c)

theorem decimal_printed (n : Int) : ∀ c ∈ decimal n, Printed c :=
  printed_of_textChar (decimal_textChar n)

theorem headText_printed (hprinted : ∀ ip, ∀ c ∈ toStringIP ip, Printed c) (m : Ssee) :
    ∀ c ∈ m.headText toStringIP, Printed c := by
  refine printed_append ?_ (decimal_printed _)
  unfold CService.toText
  split
  · exact printed_append (printed_append (hprinted _) (by decide)) (decimal_printed _)
  · exact printed_append (printed_append (printed_append (by decide) (hprinted _)) (by decide))
      (decimal_printed _)

theorem tailText_printed : ∀ c ∈ m.tailText, Printed c :=
  printed_append (printed_append (decimal_printed _) (printed_of_textChar (toText_textChar _)))
    (decimal_printed _)

theorem rawText_toNat (b : UInt8) : (Char.ofNat b.toNat).toNat = b.toNat :=
  ofNat_toNat_byte _ b.toNat_lt

theorem rawText_inj (h : rawText k = rawText k') : k = k' := by
  refine map_injective_iff.mpr (fun b b' hb => ?_) h
  have hnat := congrArg Char.toNat hb
  rw [rawText_toNat, rawText_toNat] at hnat
  exact UInt8.toNat_inj.mp hnat

theorem key_head (h : pubKeyIsValid k = true) :
    ∃ b rest, k = b :: rest ∧ ¬ Printed (Char.ofNat b.toNat) ∧ k.length = pubKeyLen b := by
  unfold pubKeyIsValid at h
  cases k with
  | nil => cases h
  | cons b rest =>
    simp only [Bool.and_eq_true, bne_iff_ne, ne_eq, beq_iff_eq] at h
    refine ⟨b, rest, rfl, ?_, h.2.symm⟩
    rw [Printed, rawText_toNat]
    intro hprinted
    refine h.1 ?_
    have hlow (n : UInt8) (hn : n.toNat < 32) : ¬ b = n := by
      rintro rfl
      omega
    rw [pubKeyLen, if_neg (not_or.mpr ⟨hlow 2 (by decide), hlow 3 (by decide)⟩),
      if_neg (not_or.mpr ⟨hlow 4 (by decide), not_or.mpr ⟨hlow 6 (by decide),
        hlow 7 (by decide)⟩⟩)]

/-- **A key cuts the text**: what is printed before it, the key, and what comes after it. -/
theorem cut_at_key {t' : List Char} (hs : ∀ c ∈ s, Printed c) (hs' : ∀ c ∈ s', Printed c)
    (hk : pubKeyIsValid k = true) (hk' : pubKeyIsValid k' = true) :
    s ++ (rawText k ++ t) = s' ++ (rawText k' ++ t') ↔ s = s' ∧ k = k' ∧ t = t' := by
  refine ⟨fun h => ?_, fun ⟨hs, hk, ht⟩ => by rw [hs, hk, ht]⟩
  obtain ⟨b, rest, hb, hmark, hlength⟩ := key_head hk
  obtain ⟨b', rest', hb', hmark', hlength'⟩ := key_head hk'
  have hraw : s ++ Char.ofNat b.toNat :: (rawText rest ++ t) =
      s' ++ Char.ofNat b'.toNat :: (rawText rest' ++ t') := by
    rw [hb, hb'] at h
    exact h
  obtain ⟨hsame, hfirst, hrest⟩ := (append_mark_inj (p := fun c => ¬ Printed c)
    (fun c hc => not_not.mpr (hs c hc)) (fun c hc => not_not.mpr (hs' c hc)) hmark hmark').mp hraw
  have hbyte : [b] = [b'] := rawText_inj (congrArg (fun c => [c]) hfirst)
  have hlengths : (rawText rest).length = (rawText rest').length := by
    rw [hb, length_cons] at hlength
    rw [hb', length_cons, ← (cons.inj hbyte).1] at hlength'
    unfold rawText
    rw [length_map, length_map]
    omega
  obtain ⟨hkeys, htail⟩ := append_inj hrest hlengths
  refine ⟨hsame, ?_, htail⟩
  rw [hb, hb', (cons.inj hbyte).1, rawText_inj hkeys]

theorem printed_ne_key (hs : ∀ c ∈ s, Printed c) (hk : pubKeyIsValid k = true) : s ≠ s' ++
    (rawText k ++ t) := by
  rintro rfl
  obtain ⟨b, rest, rfl, hmark, _⟩ := key_head hk
  refine hmark (hs _ (mem_append_right _ (mem_append_left _ ?_)))
  exact mem_cons_self

/-- **The second key cuts the text**, if there is one. -/
theorem cut_at_key2 {t' : List Char} (hs : ∀ c ∈ s, Printed c) (hs' : ∀ c ∈ s', Printed c)
    (ht : ∀ c ∈ t, Printed c) (ht' : ∀ c ∈ t', Printed c) (hk : KeyBytes k) (hk' : KeyBytes k') :
    s ++ (rawText k ++ t) = s' ++ (rawText k' ++ t') ↔
      k = k' ∧ if k = [] then s ++ t = s' ++ t' else s = s' ∧ t = t' := by
  rcases hk with rfl | hk
  · rcases hk' with rfl | hk'
    · rw [if_pos rfl]
      exact ⟨fun h => ⟨rfl, h⟩, And.right⟩
    · refine ⟨fun h => ?_, fun ⟨h, _⟩ => ?_⟩
      · exact absurd h
          (printed_ne_key (printed_append hs (printed_append (forall_mem_nil _) ht)) hk')
      · rw [← h] at hk'
        cases hk'
  · have hne : k ≠ [] := by
      rintro rfl
      cases hk
    rw [if_neg hne]
    rcases hk' with rfl | hk'
    · refine ⟨fun h => ?_, fun ⟨h, _⟩ => absurd h hne⟩
      exact absurd h.symm
        (printed_ne_key (printed_append hs' (printed_append (forall_mem_nil _) ht')) hk)
    · rw [cut_at_key hs hs' hk hk']
      exact ⟨fun ⟨hs, hk, ht⟩ => ⟨hk, hs, ht⟩, fun ⟨hk, hs, ht⟩ => ⟨hs, hk, ht⟩⟩

/-- **Announcements with the same text**, under one key. -/
theorem Ssee.strMessage_eq_iff (hprinted : ∀ ip, ∀ c ∈ toStringIP ip, Printed c) {m m' : Ssee}
    (hkey : m.pubkey = m'.pubkey) :
    m.strMessage toStringIP = m'.strMessage toStringIP ↔ SharesText toStringIP m m' := by
  have hhead := headText_printed hprinted m
  have hhead' := headText_printed hprinted m'
  have htail := tailText_printed m
  have htail' := tailText_printed m'
  unfold Ssee.strMessage SharesText
  rw [← hkey]
  rcases m.keyBytes with hnone | hvalid
  · rw [hnone]
    have hcut := cut_at_key2 hhead hhead' htail htail' m.keyBytes2 m'.keyBytes2
    rw [show rawText [] = [] from rfl, nil_append, nil_append, hcut]
    simp only [true_and]
  · have hne : ¬ (m.pubkey = [] ∧ m.pubkey2 = []) := by
      rintro ⟨hnone, _⟩
      rw [hnone] at hvalid
      cases hvalid
    have hcut : rawText m.pubkey2 ++ m.tailText = rawText m'.pubkey2 ++ m'.tailText ↔
        m.pubkey2 = m'.pubkey2 ∧ m.tailText = m'.tailText := by
      have hfront : ∀ c ∈ ([] : List Char), Printed c := forall_mem_nil _
      have hboth := cut_at_key2 hfront hfront htail htail' m.keyBytes2 m'.keyBytes2
      rw [nil_append, nil_append, nil_append, nil_append] at hboth
      rw [hboth]
      simp only [true_and, ite_self]
    rw [if_neg hne, cut_at_key hhead hhead' hvalid hvalid, hcut]
    constructor
    · rintro ⟨hheads, _, hkeys, htails⟩
      exact ⟨hkeys, hheads, htails⟩
    · rintro ⟨hkeys, hheads, htails⟩
      exact ⟨hheads, rfl, hkeys, htails⟩

/-! ## §4. What a signature authorises. -/

theorem rawText_byte (k : CPubKey) : ∀ c ∈ rawText k, c.toNat < 256 := by
  intro c hc
  obtain ⟨b, _, rfl⟩ := mem_map.mp hc
  rw [rawText_toNat]
  exact b.toNat_lt

theorem Ssee.strMessage_byte (hprinted : ∀ ip, ∀ c ∈ toStringIP ip, Printed c) (m : Ssee) :
    ∀ c ∈ m.strMessage toStringIP, c.toNat < 256 := by
  have hbyte {t : List Char} (ht : ∀ c ∈ t, Printed c) : ∀ c ∈ t, c.toNat < 256 :=
    fun c hc => (ht c hc).2.trans (by decide)
  intro c hc
  unfold Ssee.strMessage at hc
  rcases mem_append.mp hc with hc | hc
  · exact hbyte (headText_printed hprinted m) c hc
  rcases mem_append.mp hc with hc | hc
  · exact rawText_byte _ c hc
  rcases mem_append.mp hc with hc | hc
  · exact rawText_byte _ c hc
  · exact hbyte (tailText_printed m) c hc

theorem verifies_of_changed {list : List AnnouncedBlanknode} {m : Ssee}
    (h : (processSsee env list m).1 ≠ list) : env.verifies m = true := by
  by_contra hnot
  rw [Bool.not_eq_true] at hnot
  refine h ?_
  rw [processSsee, hnot]
  split
  · rfl
  split
  · rfl
  split
  · rfl
  split
  · rfl
  split
  · rfl
  · rfl

/-- **What the signature of an announcement authorises.**  Under one key, two announcements that
differ have different texts exactly if they do not share one.  An unforgeable signature verifies
for the announcements that share its text, and no other changes the list with it. -/
theorem announcement_binds_iff (toStringIP : List UInt8 → List Char)
    (hprinted : ∀ ip, ∀ c ∈ toStringIP ip, Printed c) (m m' : Ssee)
    (hkey : m.pubkey = m'.pubkey) :
    ((m.Differs m' → m.strMessage toStringIP ≠ m'.strMessage toStringIP) ↔
      ¬ (m.Differs m' ∧ SharesText toStringIP m m')) ∧
    ∀ (C : Crypto) (env : SseeEnv C), env.toStringIP = toStringIP → env.verifies m = true →
      (∀ s, verifyMessage C m.pubkey m.vchSig s = true →
        textBytes s = textBytes (m.strMessage toStringIP)) →
      m'.vchSig = m.vchSig →
      (env.verifies m' = true ↔ SharesText toStringIP m m') ∧
        ∀ list, (processSsee env list m').1 ≠ list → SharesText toStringIP m m' := by
  have htext := Ssee.strMessage_eq_iff hprinted hkey
  refine ⟨by rw [not_and, ← htext], ?_⟩
  rintro C env rfl hsigned hforge hsig
  have hverifies : env.verifies m' = true ↔ SharesText env.toStringIP m m' := by
    unfold SseeEnv.verifies at hsigned ⊢
    rw [hsig, ← hkey]
    constructor
    · intro hverified
      refine htext.mp (textBytes_inj (m.strMessage_byte hprinted) (m'.strMessage_byte hprinted) ?_)
      exact (hforge _ hverified).symm
    · intro hshared
      rw [← htext.mpr hshared]
      exact hsigned
  exact ⟨hverifies, fun list hchanged => hverifies.mp (verifies_of_changed env hchanged)⟩

/-! ## §5. Two sample announcements. -/

def sampleToStringIP (ip : List UInt8) : List Char :=
  (ip.drop 12).flatMap fun b => decimal b.toNat ++ ['.']

theorem sampleToStringIP_printed : ∀ ip, ∀ c ∈ sampleToStringIP ip, Printed c := by
  intro ip c hc
  obtain ⟨b, _, hb⟩ := mem_flatMap.mp hc
  exact printed_append (decimal_printed b.toNat) (by decide) c hb

def announce (prevout : COutPoint) (donationPercentage : Int32) : Ssee where
  vin := ⟨prevout, [], [], 0xffffffff⟩
  addr := ⟨pchIPv4 ++ [1, 2, 3, 4], 8765⟩
  vchSig := replicate 65 27
  sigTime := 1400000000
  pubkey := 2 :: replicate 32 7
  pubkey2 := 3 :: replicate 32 8
  count := -1
  lastUpdated := 0
  protocolVersion := 60020
  donationAddress := []
  donationPercentage := donationPercentage
  keyBytes := by decide
  keyBytes2 := by decide

def sampleSseeEnv :
    SseeEnv (singleTextCrypto ((announce ⟨9, 0⟩ 0).strMessage sampleToStringIP)) where
  fLiteMode := false
  isInitialBlockDownload := false
  nAdjustedTime := 1400000500
  toStringIP := sampleToStringIP
  fBlankNode := false
  activeVin := ⟨⟨5, 0⟩, [], [], 0xffffffff⟩
  activePubKey := []
  isVinAssociatedWithPubkey _ _ := true
  inputsAcceptable _ := true
  getInputAge _ := 20
  confirmedTime _ := none

def otherBlanknode : AnnouncedBlanknode where
  vin := ⟨⟨8, 0⟩, [], [], 0xffffffff⟩
  addr := ⟨pchIPv4 ++ [5, 6, 7, 8], 8765⟩
  pubkey := 2 :: replicate 32 7
  pubkey2 := 3 :: replicate 32 9
  sig := []
  sigTime := 1300000000
  lastTimeSeen := 1300000000
  protocolVersion := 60020
  donationAddress := []
  donationPercentage := 0

/-- **An announcement for another input**: its signature moves the other blanknode of the key to
the address that was announced. -/
theorem announcement_moved :
    (announce ⟨9, 0⟩ 0).Differs (announce ⟨8, 0⟩ 0) ∧
      (announce ⟨9, 0⟩ 0).strMessage sampleToStringIP =
        (announce ⟨8, 0⟩ 0).strMessage sampleToStringIP ∧
      sampleSseeEnv.verifies (announce ⟨9, 0⟩ 0) = true ∧
      (processSsee sampleSseeEnv [otherBlanknode] (announce ⟨8, 0⟩ 0)).2 = .updated ∧
      (processSsee sampleSseeEnv [otherBlanknode] (announce ⟨8, 0⟩ 0)).1.map
        AnnouncedBlanknode.addr = [(announce ⟨9, 0⟩ 0).addr] := by
  decide +kernel

/-- A signature for one donation is not one for another. -/
theorem announcement_binds_donation :
    (announce ⟨9, 0⟩ 0).strMessage sampleToStringIP ≠
        (announce ⟨9, 0⟩ 5).strMessage sampleToStringIP ∧
      ∀ list, (processSsee sampleSseeEnv list (announce ⟨9, 0⟩ 5)).1 = list := by
  have hkey : (announce ⟨9, 0⟩ 0).pubkey = (announce ⟨9, 0⟩ 5).pubkey := rfl
  have hdiffers : (announce ⟨9, 0⟩ 0).Differs (announce ⟨9, 0⟩ 5) := by decide
  have hnot : ¬ SharesText sampleToStringIP (announce ⟨9, 0⟩ 0) (announce ⟨9, 0⟩ 5) := by
    decide +kernel
  obtain ⟨htexts, hbinds⟩ := announcement_binds_iff sampleToStringIP sampleToStringIP_printed
    (announce ⟨9, 0⟩ 0) (announce ⟨9, 0⟩ 5) hkey
  obtain ⟨_, hchanges⟩ := hbinds _ sampleSseeEnv rfl (by decide +kernel)
    (fun s hs => singleTextCrypto_unforgeable hs) rfl
  refine ⟨htexts.mpr (fun h => hnot h.2) hdiffers, fun list => ?_⟩
  by_contra hchanged
  exact hnot (hchanges list hchanged)

end Fantom.Blanknode
