/-
  Fantom.Blanknode.CacheRead — What a list of blanknodes holds after `sncache.dat` was read into it.

  * `Storable`, `reload_iff` — the lists that are read back as they were written,
  * `cacheRead_exact` — the two together.
-/
import Fantom.Blanknode.CacheFile

namespace Fantom.Blanknode.Cache

open Core Lib Market List Nat

/-! ## §1. What is written is read back. -/

theorem CBlanknode.codec_norm (sn : CBlanknode) :
    CBlanknode.codec.norm sn = { sn with vin := sn.vin.wire } := rfl

/-- The vectors of an entry are within `MAX_SIZE`, and it has nothing that is not written. -/
structure CBlanknode.Written (sn : CBlanknode) : Prop where
  scriptSig : sn.vin.scriptSig.length ≤ MAX_SIZE
  prevPubKey : sn.vin.prevPubKey = []
  sig : sn.sig.length ≤ MAX_SIZE
  donationAddress : sn.donationAddress.length ≤ MAX_SIZE

theorem CBlanknode.kept_iff (sn : CBlanknode) : CBlanknode.codec.Kept sn ↔ sn.Written := by
  constructor
  · intro h
    obtain ⟨⟨-, hscript, -, -, -, hsig, -, -, -, -, -, -, -, -, -, -, haddr, -⟩, hnorm⟩ := h
    rw [codec_norm] at hnorm
    have hvin : sn.vin.wire = sn.vin := congrArg BlanknodeFields.vin hnorm
    exact ⟨hscript, (congrArg CTxIn.prevPubKey hvin).symm, hsig, haddr⟩
  · intro h
    refine ⟨⟨trivial, h.scriptSig, ⟨trivial, trivial⟩, trivial, trivial, h.sig, trivial, trivial,
      trivial, trivial, trivial, trivial, trivial, trivial, trivial, trivial, h.donationAddress,
      trivial, trivial, trivial, trivial, trivial, trivial⟩, ?_⟩
    have hvin : sn.vin.wire = sn.vin := by
      rw [CTxIn.wire, ← h.prevPubKey]
    rw [codec_norm, hvin]

/-- The sizes of a list are within `MAX_SIZE`, and its entries are as they are written. -/
structure Contents.Written (c : Contents) : Prop where
  vBlanknodes : c.vBlanknodes.length ≤ MAX_SIZE ∧ ∀ sn ∈ c.vBlanknodes, sn.Written
  mAskedUsForBlanknodeList : c.mAskedUsForBlanknodeList.size ≤ MAX_SIZE
  mWeAskedForBlanknodeList : c.mWeAskedForBlanknodeList.size ≤ MAX_SIZE
  mWeAskedForBlanknodeListEntry : c.mWeAskedForBlanknodeListEntry.size ≤ MAX_SIZE

theorem askedList_norm (m : StdMap Net.CNetAddr Int64) : askedList.norm m = m :=
  Codec.stdMap_norm_of_eq (fun _ => rfl) m

theorem askedEntries_norm (m : StdMap COutPoint Int64) : askedEntries.norm m = m :=
  Codec.stdMap_norm_of_eq (fun _ => rfl) m

theorem Contents.codec_norm (c : Contents) :
    Contents.codec.norm c = { c with vBlanknodes := c.vBlanknodes.map CBlanknode.codec.norm } := by
  have h : Contents.codec.norm c = ⟨c.vBlanknodes.map CBlanknode.codec.norm,
      askedList.norm c.mAskedUsForBlanknodeList, askedList.norm c.mWeAskedForBlanknodeList,
      askedEntries.norm c.mWeAskedForBlanknodeListEntry, c.nSsqCount⟩ := rfl
  rw [h, askedList_norm, askedList_norm, askedEntries_norm]

theorem Contents.kept_iff (c : Contents) : Contents.codec.Kept c ↔ c.Written := by
  have hall : (∀ sn ∈ c.vBlanknodes, CBlanknode.codec.Kept sn) ↔ ∀ sn ∈ c.vBlanknodes, sn.Written :=
    forall₂_congr fun sn _ => CBlanknode.kept_iff sn
  constructor
  · intro h
    obtain ⟨⟨-, ⟨hsize, hok⟩, hus, hwe, hentry, -⟩, hnorm⟩ := h
    rw [codec_norm] at hnorm
    have hmap : c.vBlanknodes.map CBlanknode.codec.norm = c.vBlanknodes :=
      congrArg Contents.vBlanknodes hnorm
    have hnormal := map_inj_left.mp (hmap.trans (map_id _).symm)
    exact ⟨⟨hsize, hall.mp fun sn hsn => ⟨hok sn hsn, hnormal sn hsn⟩⟩, hus.1, hwe.1, hentry.1⟩
  · intro h
    have hkept := hall.mpr h.vBlanknodes.2
    have htrivial {α : Type} (l : List α) : ∀ p ∈ l, True ∧ True := fun _ _ => ⟨trivial, trivial⟩
    refine ⟨⟨trivial, ⟨h.vBlanknodes.1, fun sn hsn => (hkept sn hsn).1⟩,
      ⟨h.mAskedUsForBlanknodeList, htrivial _⟩, ⟨h.mWeAskedForBlanknodeList, htrivial _⟩,
      ⟨h.mWeAskedForBlanknodeListEntry, htrivial _⟩, trivial⟩, ?_⟩
    have hmap : c.vBlanknodes.map CBlanknode.codec.norm = c.vBlanknodes :=
      (map_congr_left fun sn hsn => (hkept sn hsn).2).trans (map_id _)
    rw [codec_norm, hmap]

/-! ## §2. A stream that goes on. -/

theorem prefixed_readByte {α : Type} (make : UInt8 → α) {bs rest : List UInt8} {a : α}
    (h : (make <$> readByte).run bs = some (a, rest)) (more : List UInt8) :
    (make <$> readByte).run (bs ++ more) = some (a, rest ++ more) := by
  cases bs with
  | nil => cases h
  | cons b bs =>
    cases h
    rfl

theorem prefixed_pubKey : pubKey.Prefixed := by
  intro mem bs key rest h more
  have hget (bs : List UInt8) : StateT.run get bs = some (bs, bs) := rfl
  -- the length is read, and so many bytes are taken, whatever the key then is
  obtain ⟨left, rest1, hleft, h1⟩ := run_bind_eq_some.mp h
  obtain ⟨rfl, rfl⟩ := Prod.mk.inj (Option.some.inj ((hget bs).symm.trans hleft))
  obtain ⟨len, rest2, hlen, h2⟩ := run_bind_eq_some.mp h1
  have hlen' : readCompactSize.run (bs ++ more) = some (len, rest2 ++ more) :=
    Codec.stable_ofFormat format_compactSize () bs len rest2 hlen more
  have htake {vch rest : List UInt8} (hvch : (readTake len).run rest2 = some (vch, rest)) :
      (readTake len).run (rest2 ++ more) = some (vch, rest ++ more) := by
    obtain ⟨rfl, rfl⟩ := readTake_eq_some hvch
    rw [append_assoc]
    exact readTake_append vch (rest ++ more)
  show ∃ key', (readPubKey mem).run (bs ++ more) = some (key', rest ++ more)
  rw [readPubKey, run_bind_of_eq (hget _), run_bind_of_eq hlen']
  split at h2
  next hle =>
    obtain ⟨vch, rest3, hvch, h3⟩ := run_bind_eq_some.mp h2
    obtain ⟨-, rfl⟩ := run_pure_eq_some.mp h3
    rw [if_pos hle, run_bind_of_eq (htake hvch)]
    exact ⟨_, rfl⟩
  next hgt =>
    obtain ⟨vch, rest3, hvch, h3⟩ := run_bind_eq_some.mp h2
    obtain ⟨-, rfl⟩ := run_pure_eq_some.mp h3
    rw [if_neg hgt, run_bind_of_eq (htake hvch)]
    exact ⟨_, rfl⟩

theorem stable_compactSize : compactSize.Stable := Codec.stable_ofFormat format_compactSize

theorem prefixed_version : version.Prefixed :=
  fun _ _ _ _ h more => ⟨(), prefixed_readByte _ h more⟩

theorem prefixed_bool : bool.Prefixed := fun _ _ b _ h more => ⟨b, prefixed_readByte _ h more⟩

theorem prefixed_int32 : int32.Prefixed := (Codec.stable_ofFormat format_int32).prefixed

theorem prefixed_int64 : int64.Prefixed := (Codec.stable_ofFormat format_int64).prefixed

theorem prefixed_bytes : bytes.Prefixed := (Codec.stable_ofFormat format_bytes).prefixed

theorem prefixed_netAddr : netAddr.Prefixed := (Codec.stable_ofFormat format_netAddr).prefixed

theorem prefixed_service : service.Prefixed :=
  (prefixed_netAddr.seq (Codec.stable_ofFormat format_port).prefixed).record _ _ _

theorem prefixed_blanknode : CBlanknode.codec.Prefixed := by
  refine Codec.Prefixed.record ?_ _ _ _
  exact prefixed_version.seq <| (Codec.stable_ofNorm format_txIn).prefixed.seq <|
    prefixed_service.seq <| prefixed_pubKey.seq <| prefixed_pubKey.seq <| prefixed_bytes.seq <|
    prefixed_int32.seq <| prefixed_int64.seq <| prefixed_int64.seq <| prefixed_int64.seq <|
    prefixed_int32.seq <| prefixed_int32.seq <| prefixed_bool.seq <| prefixed_bool.seq <|
    prefixed_int32.seq <| prefixed_int64.seq <| prefixed_bytes.seq <| prefixed_int32.seq <|
    prefixed_int32.seq <| prefixed_int64.seq <| prefixed_int32.seq <| prefixed_int32.seq
    prefixed_int64

/-- **A list is read from a stream that goes on behind it** as far as from one that ends. -/
theorem prefixed_contents : Contents.codec.Prefixed := by
  have hasked : askedList.Prefixed :=
    Codec.Prefixed.stdMap stable_compactSize (prefixed_netAddr.seq prefixed_int64)
  have hentries : askedEntries.Prefixed :=
    Codec.Prefixed.stdMap stable_compactSize
      ((Codec.stable_ofFormat format_outPoint).prefixed.seq prefixed_int64)
  refine Codec.Prefixed.record ?_ _ _ _
  exact prefixed_version.seq <|
    (Codec.Prefixed.vector stable_compactSize prefixed_blanknode).seq <|
    hasked.seq <| hasked.seq <| hentries.seq prefixed_int64

/-! ## §3. The list that is filled. -/

variable (B : Build) (M : Machine)

/-- A list after `c` was read into it. -/
structure CBlanknodeMan.Holds (man : CBlanknodeMan) (c : Contents) (man' : CBlanknodeMan) :
    Prop where
  vBlanknodes : Filled M.growth B.batch man.vBlanknodes c.vBlanknodes man'.vBlanknodes
  mAskedUsForBlanknodeList : man'.mAskedUsForBlanknodeList = c.mAskedUsForBlanknodeList
  mWeAskedForBlanknodeList : man'.mWeAskedForBlanknodeList = c.mWeAskedForBlanknodeList
  mWeAskedForBlanknodeListEntry :
    man'.mWeAskedForBlanknodeListEntry = c.mWeAskedForBlanknodeListEntry
  nSsqCount : man'.nSsqCount = c.nSsqCount

/-- **Reading in place takes what a list takes**, and throws where there is none. -/
theorem CBlanknodeMan.unserialize_loads :
    Loads (CBlanknodeMan.unserialize B M) (Contents.codec.read M.mem) (Holds B M) := by
  have hvector := loadVector_loads M.torn M.growth B.batch_pos compactSize CBlanknode.codec M.mem
  have hasked := loadMap_loads compactSize (netAddr.seq int64) M.mem
  have hentries := loadMap_loads compactSize (outPoint.seq int64) M.mem
  have hall := (loads_skip (version.read M.mem)).andThen <|
    (hvector.field vBlanknodes fun man v => { man with vBlanknodes := v }).andThen <|
    (hasked.field mAskedUsForBlanknodeList
      fun man m => { man with mAskedUsForBlanknodeList := m }).andThen <|
    (hasked.field mWeAskedForBlanknodeList
      fun man m => { man with mWeAskedForBlanknodeList := m }).andThen <|
    (hentries.field mWeAskedForBlanknodeListEntry
      fun man m => { man with mWeAskedForBlanknodeListEntry := m }).andThen <|
    (loads_ofReader (int64.read M.mem)).field nSsqCount fun man n => { man with nSsqCount := n }
  refine (hall.map _).mono fun man c man' h => ?_
  obtain ⟨⟨⟨⟩, l, m, m', m'', n⟩, rfl, _, rfl, _, ⟨v, hv, rfl⟩, _, ⟨_, rfl, rfl⟩, _,
    ⟨_, rfl, rfl⟩, _, ⟨_, rfl, rfl⟩, _, rfl, rfl⟩ := h
  exact ⟨hv, rfl, rfl, rfl, rfl⟩

variable {B M} in
theorem CBlanknodeMan.Holds.contents_eq {before loaded : CBlanknodeMan} {c : Contents}
    (h : before.Holds B M c loaded)
    (hroom : c.vBlanknodes.length ≤ before.vBlanknodes.capacity ∨
      c.vBlanknodes.length ≤ B.batch) : loaded.contents = c :=
  Contents.ext (h.vBlanknodes.kept hroom) h.mAskedUsForBlanknodeList h.mWeAskedForBlanknodeList
    h.mWeAskedForBlanknodeListEntry h.nSsqCount

theorem CBlanknodeMan.unserialize_nSsqCount :
    (CBlanknodeMan.unserialize B M).KeptByThrow CBlanknodeMan.nSsqCount := by
  have hlast : (Loader.field nSsqCount (fun man n => { man with nSsqCount := n })
      (Loader.ofReader (int64.read M.mem))).KeptByThrow CBlanknodeMan.nSsqCount :=
    fun man bs h => Loader.keptByThrow_ofReader (int64.read M.mem) man.nSsqCount bs h
  exact .andThen (fun _ _ => rfl) <| .andThen (fun _ _ => rfl) <| .andThen (fun _ _ => rfl) <|
    .andThen (fun _ _ => rfl) <| .andThen (fun _ _ => rfl) hlast

/-! ## §4. The file in front of the list. -/

namespace CBlanknodeDB

theorem dataSize_of_lt {n : Nat} (h : n < 2 ^ 31) : dataSize (n + 32) = n := by
  have hback : Int32.ofNat (n + 32) - 32 = Int32.ofNat n := by
    rw [Int32.ofNat_add]
    exact Int32.add_sub_cancel ..
  rw [dataSize, hback, Int32.toInt_ofNat_of_lt h]
  rfl

theorem dataSize_lt (fileSize : Nat) : dataSize fileSize < 2 ^ 31 := by
  have hmax := (Int32.ofNat fileSize - 32).toInt_lt
  unfold dataSize
  omega

/-- The file begins with a checked header, behind which `body` is left of the stream. -/
def Headed (content : Option (List UInt8)) (body : List UInt8) : Prop :=
  ∃ vchData behind,
    content = some (vchData ++ (leBytes 32 (B.H.hash vchData).toNat ++ behind)) ∧
    dataSize (vchData ++ (leBytes 32 (B.H.hash vchData).toNat ++ behind)).length =
      vchData.length ∧
    vchData = serializeBytes strMagicMessage ++ (B.pchMessageStart.toList ++ body)

variable {content : Option (List UInt8)}

theorem readHeader_iff {body : List UInt8} :
    readHeader B content = .ok body ↔ Headed B content body := by
  constructor
  · intro h
    unfold readHeader at h
    split at h
    next => cases h
    next file =>
      split at h
      next => cases h
      next vchData hashIn behind hread =>
        obtain ⟨vchData', rest1, hdata, hread⟩ := run_bind_eq_some.mp hread
        obtain ⟨hashIn', rest2, hhash, hread⟩ := run_bind_eq_some.mp hread
        obtain ⟨heq, rfl⟩ := run_pure_eq_some.mp hread
        cases heq
        obtain ⟨hfile, hlen⟩ := readTake_eq_some hdata
        obtain ⟨rfl, -⟩ := format_uint256.takes _ _ _ hhash
        split at h
        next => cases h
        next hsame =>
          split at h
          next => cases h
          next strMagicMessageTmp rest hmessage =>
            obtain ⟨rfl, -⟩ := format_bytes.takes _ _ _ hmessage
            split at h
            next => cases h
            next hmagic =>
              split at h
              next => cases h
              next pchMsgTmp rest' hstart =>
                obtain ⟨rfl, -⟩ := readTake_eq_some hstart
                split at h
                next => cases h
                next hnumber =>
                  cases h
                  rw [Decidable.not_not] at hsame hmagic hnumber
                  subst hmagic hnumber hsame
                  exact ⟨_, _, congrArg some hfile, by rw [← hfile]; exact hlen.symm, rfl⟩
  · intro h
    obtain ⟨vchData, behind, rfl, hsize, hdata⟩ := h
    have hread : (readData vchData.length).run
        (vchData ++ (leBytes 32 (B.H.hash vchData).toNat ++ behind)) =
          some ((vchData, B.H.hash vchData), behind) := by
      rw [readData, run_bind_of_eq (readTake_append vchData _),
        run_bind_of_eq (format_uint256.reads (B.H.hash vchData) behind trivial)]
      rfl
    have hmessage : unserializeBytes.run vchData =
        some (strMagicMessage, B.pchMessageStart.toList ++ body) := by
      rw [hdata]
      exact format_bytes.reads strMagicMessage _ (by decide)
    have hstart : (readTake 4).run (B.pchMessageStart.toList ++ body) =
        some (B.pchMessageStart.toList, body) := by
      have htake := readTake_append B.pchMessageStart.toList body
      rw [Vector.length_toList] at htake
      exact htake
    simp only [readHeader, hsize, hread, hmessage, hstart, ne_eq, not_true_eq_false, if_false]

theorem readHeader_error {result : ReadResult} (h : readHeader B content = .error result) :
    result ≠ .Ok := by
  unfold readHeader at h
  repeat' split at h
  all_goals cases h
  all_goals decide

variable {B M}

theorem load_of_read {body rest : List UInt8} {c : Contents} (hbody : Headed B content body)
    (hread : (Contents.codec.read M.mem).run body = some (c, rest)) (man : CBlanknodeMan) :
    ∃ loaded, load B M content man = (.Ok, loaded) ∧ man.Holds B M c loaded := by
  obtain ⟨hleft, hholds⟩ := (CBlanknodeMan.unserialize_loads B M).loads man body c rest hread
  refine ⟨_, ?_, hholds⟩
  rw [load, (readHeader_iff B).mpr hbody]
  dsimp only
  rw [hleft]

theorem of_load_eq_ok {man loaded : CBlanknodeMan} (h : load B M content man = (.Ok, loaded)) :
    ∃ body c rest, Headed B content body ∧
      (Contents.codec.read M.mem).run body = some (c, rest) ∧ man.Holds B M c loaded := by
  cases hheader : readHeader B content with
  | error result =>
    rw [load, hheader] at h
    exact absurd (congrArg Prod.fst h) (readHeader_error B hheader)
  | ok body =>
    have hbody := (readHeader_iff B).mp hheader
    rw [load, hheader] at h
    dsimp only at h
    cases hleft : (CBlanknodeMan.unserialize B M man body).2 with
    | none =>
      rw [hleft] at h
      cases h
    | some rest =>
      rw [hleft] at h
      obtain ⟨c, hread, hholds⟩ := (CBlanknodeMan.unserialize_loads B M).of_loaded hleft
      cases h
      exact ⟨body, c, rest, hbody, hread, hholds⟩

/-! ## §5. A load that fails. -/

/-- `after` is empty, or as it was. -/
def NothingLoaded (before after : CBlanknodeMan) : Prop :=
  after.contents = Contents.empty ∨ after.contents = before.contents

theorem not_nothingLoaded {before after : CBlanknodeMan} {sn : CBlanknode}
    (hbefore : before.vBlanknodes.elems = [])
    (hafter : after.vBlanknodes.elems.head? = some sn) : ¬NothingLoaded before after := by
  intro h
  have hnil : after.vBlanknodes.elems = [] := by
    rcases h with hempty | hsame
    · exact congrArg Contents.vBlanknodes hempty
    · exact (congrArg Contents.vBlanknodes hsame).trans hbefore
  rw [hnil] at hafter
  cases hafter

/-- The checksum and both magic values are right, and something stands behind them, but no whole
list. -/
def Torn (B : Build) (M : Machine) (content : Option (List UInt8)) : Prop :=
  ∃ body, Headed B content body ∧ body ≠ [] ∧ (Contents.codec.read M.mem).run body = none

def roomForOne (vBlanknodes : List CBlanknode) (h : vBlanknodes.length ≤ 1) : CBlanknodeMan :=
  ⟨⟨vBlanknodes, 1, h⟩, ∅, ∅, ∅, 1⟩

/-- **A torn file leaves something in some list.** -/
theorem exists_torn (h : Torn B M content) :
    ∃ man, (load B M content man).1 = .IncorrectFormat ∧
      ¬NothingLoaded man (load B M content man).2 := by
  obtain ⟨body, hbody, hne, hread⟩ := h
  have hload (man : CBlanknodeMan) : load B M content man =
      (.IncorrectFormat, (CBlanknodeMan.unserialize B M man body).1) := by
    have hleft := (CBlanknodeMan.unserialize_loads B M).throws man body hread
    rw [load, (readHeader_iff B).mpr hbody]
    dsimp only
    rw [hleft]
  -- what was in the list makes no difference, since it is cleared
  have hsame : CBlanknodeMan.unserialize B M (roomForOne [.new 0 0] (le_refl 1)) body =
      CBlanknodeMan.unserialize B M (roomForOne [] (zero_le 1)) body := by
    cases body with
    | nil => exact absurd rfl hne
    | cons b body => rfl
  have hcount (man : CBlanknodeMan) (hman : man.nSsqCount = 1) :
      (CBlanknodeMan.unserialize B M man body).1.contents ≠ Contents.empty := by
    intro hempty
    have hkept := CBlanknodeMan.unserialize_nSsqCount B M man body
      ((CBlanknodeMan.unserialize_loads B M).throws man body hread)
    have hzero := congrArg Contents.nSsqCount hempty
    exact absurd (hman.symm.trans (hkept.symm.trans hzero)) (by decide)
  by_contra hnone
  push Not at hnone
  have hfull := hnone (roomForOne [.new 0 0] (le_refl 1))
  have hbare := hnone (roomForOne [] (zero_le 1))
  rw [hload] at hfull hbare
  have hone := (hfull rfl).resolve_left (hcount _ rfl)
  have hzero := (hbare rfl).resolve_left (hcount _ rfl)
  rw [hsame] at hone
  have hlists := congrArg Contents.vBlanknodes (hone.symm.trans hzero)
  cases hlists

/-- **A load that fails loads nothing**, whatever the list, exactly if the file is not torn. -/
theorem failed_load_iff :
    (∀ man, (load B M content man).1 ≠ .Ok → NothingLoaded man (load B M content man).2) ↔
      ¬Torn B M content := by
  constructor
  · intro hall htorn
    obtain ⟨man, hresult, hloaded⟩ := exists_torn htorn
    exact hloaded (hall man (by rw [hresult]; decide))
  · intro htorn man hfailed
    cases hheader : readHeader B content with
    | error result =>
      have hload : load B M content man = (result, man) := by
        rw [load, hheader]
      rw [hload]
      exact .inr rfl
    | ok body =>
      have hbody := (readHeader_iff B).mp hheader
      cases hread : (Contents.codec.read M.mem).run body with
      | none =>
        obtain rfl : body = [] := by
          by_contra hne
          exact htorn ⟨body, hbody, hne, hread⟩
        have hload : load B M content man = (.IncorrectFormat, man) := by
          rw [load, hheader]
          rfl
        rw [hload]
        exact .inr rfl
      | some p =>
        obtain ⟨loaded, hload, -⟩ := load_of_read hbody hread man
        rw [hload] at hfailed
        exact absurd rfl hfailed

/-! ## §6. What was written is loaded. -/

/-- `Read` of what `Write` produced succeeds with the same entries, on every machine and whatever
list it fills. -/
def Reloads (B : Build) (man : CBlanknodeMan) : Prop :=
  ∀ (M : Machine) (before : CBlanknodeMan), ∃ loaded,
    load B M (some (write B man)) before = (.Ok, loaded) ∧ loaded.contents = man.contents

/-- The list is as it is written, the entries fit one batch, and an `int` counts the bytes. -/
structure Storable (B : Build) (man : CBlanknodeMan) : Prop where
  written : man.contents.Written
  oneBatch : man.vBlanknodes.elems.length ≤ B.batch
  length : (dataOf B man).length < 2 ^ 31

variable {man : CBlanknodeMan}

theorem headed_write (h : (dataOf B man).length < 2 ^ 31) :
    Headed B (some (write B man)) (Contents.codec.write man.contents) := by
  refine ⟨dataOf B man, [], ?_, ?_, rfl⟩
  · rw [append_nil]
    rfl
  · rw [append_nil, length_append, leBytes_length, dataSize_of_lt h]

theorem Storable.reloads (h : Storable B man) : Reloads B man := by
  intro M before
  have hread := ((Contents.kept_iff man.contents).mpr h.written).reads M.mem []
  rw [append_nil] at hread
  obtain ⟨loaded, hload, hholds⟩ := load_of_read (headed_write h.length) hread before
  exact ⟨loaded, hload, hholds.contents_eq (.inr h.oneBatch)⟩

/-- A machine whose clock stands, and that makes no more room than it has to. -/
def tightMachine (nAdjustedTime : Int64) : Machine where
  mem _ := Vector.replicate 64 0
  torn sn _ := sn
  built _ := (0, 0)
  now _ _ := nAdjustedTime
  newCapacity _ := 0

def withRoom (n : Nat) : CBlanknodeMan := ⟨⟨[], n, zero_le n⟩, ∅, ∅, ∅, 0⟩

theorem Reloads.written (h : Reloads B man) :
    man.contents.Written ∧ ∃ body rest, Headed B (some (write B man)) body ∧
      (Contents.codec.read (tightMachine 0).mem).run body = some (man.contents, rest) := by
  obtain ⟨loaded, hload, hsame⟩ := h (tightMachine 0) (withRoom man.vBlanknodes.elems.length)
  obtain ⟨body, c, rest, hbody, hread, hholds⟩ := of_load_eq_ok hload
  have hlen : c.vBlanknodes.length ≤ man.vBlanknodes.elems.length := by
    rw [← hholds.vBlanknodes.length]
    exact le_of_eq (congrArg (fun c => c.vBlanknodes.length) hsame)
  obtain rfl : man.contents = c := hsame.symm.trans (hholds.contents_eq (.inl hlen))
  exact ⟨(Contents.kept_iff _).mp (Contents.codec.takes _ _ _ _ hread), body, rest, hbody, hread⟩

theorem Reloads.length (h : Reloads B man) : (dataOf B man).length < 2 ^ 31 := by
  obtain ⟨hwritten, body, rest, ⟨vchData, behind, hfile, hsize, hdata⟩, hread⟩ := h.written
  by_contra hlong
  have hshort : vchData.length < (dataOf B man).length := by
    have hmax := dataSize_lt (vchData ++ (leBytes 32 (B.H.hash vchData).toNat ++ behind)).length
    omega
  -- so what is read is the front of what was written, and the list ends behind it
  have hprefix : vchData <+: dataOf B man :=
    prefix_of_prefix_length_le ⟨_, (Option.some.inj hfile).symm⟩ ⟨_, rfl⟩
      (le_of_lt hshort)
  obtain ⟨more, hmore⟩ := hprefix
  have hmore' : body ++ more = Contents.codec.write man.contents := by
    rw [hdata, append_assoc, append_assoc] at hmore
    exact append_cancel_left (append_cancel_left hmore)
  obtain ⟨c, hagain⟩ := prefixed_contents _ _ _ _ hread more
  have hall := ((Contents.kept_iff man.contents).mpr hwritten).reads (tightMachine 0).mem []
  rw [append_nil, ← hmore', hagain] at hall
  have hnil := append_eq_nil_iff.mp (Prod.mk.inj (Option.some.inj hall)).2
  rw [← hmore, hnil.2, append_nil] at hshort
  exact absurd hshort (lt_irrefl _)

theorem Reloads.oneBatch (h : Reloads B man) : man.vBlanknodes.elems.length ≤ B.batch := by
  by_contra hmany
  obtain ⟨sn, l, hl⟩ : ∃ sn l, man.vBlanknodes.elems = sn :: l :=
    exists_cons_of_length_pos (by omega)
  -- a time at which the first entry was not paid
  obtain ⟨t, ht⟩ : ∃ t : Int64, sn.nLastPaid ≠ t := by
    by_cases hzero : sn.nLastPaid = 0
    · exact ⟨1, by rw [hzero]; decide⟩
    · exact ⟨0, hzero⟩
  obtain ⟨loaded, hload, hsame⟩ := h (tightMachine t) (withRoom 0)
  have hread := ((Contents.kept_iff man.contents).mpr h.written.1).reads (tightMachine t).mem []
  rw [append_nil] at hread
  obtain ⟨loaded', hload', hholds⟩ := load_of_read (headed_write h.length) hread (withRoom 0)
  obtain rfl : loaded = loaded' := congrArg Prod.snd (hload.symm.trans hload')
  obtain ⟨n, copied, hhead⟩ :=
    hholds.vBlanknodes.copied (Nat.lt_of_not_le hmany) rfl fun _ => rfl
  have helems : loaded.vBlanknodes.elems = sn :: l :=
    (congrArg Contents.vBlanknodes hsame).trans hl
  rw [helems] at hhead
  exact ht (congrArg BlanknodeFields.nLastPaid (Option.some.inj hhead))

/-- **The lists that are loaded as they were written.** -/
theorem reload_iff : Reloads B man ↔ Storable B man :=
  ⟨fun h => ⟨h.written.1, h.oneBatch, h.length⟩, Storable.reloads⟩

/-! ## §7. `Read`. -/

section Read

variable {L : Type} {env : RegistryEnv L} {now : Nat → Nat → Int64}
  {content : Option (List UInt8)} {man : CBlanknodeMan}

theorem read_fst : (read B M env now content man).1 = (load B M content man).1 := by
  unfold read
  split
  next heq => rw [heq]
  next => rfl

theorem read_of_failed (h : (load B M content man).1 ≠ .Ok) :
    read B M env now content man = load B M content man := by
  unfold read
  split
  next heq =>
    rw [heq] at h
    exact absurd rfl h
  next => rfl

theorem failed_read_iff :
    (∀ man, (read B M env now content man).1 ≠ .Ok →
      NothingLoaded man (read B M env now content man).2) ↔ ¬Torn B M content := by
  rw [← failed_load_iff]
  refine forall_congr' fun man => ?_
  rw [read_fst]
  refine imp_congr_right fun hfailed => ?_
  rw [read_of_failed hfailed]

end Read

/-- **The cache loads all or nothing** exactly if its file is not torn, and it loads what was
written exactly if that is storable. -/
theorem cacheRead_exact {L : Type} (B : Build) :
    (∀ (M : Machine) (env : RegistryEnv L) (now : Nat → Nat → Int64)
        (content : Option (List UInt8)),
      (∀ man, (read B M env now content man).1 ≠ .Ok →
        NothingLoaded man (read B M env now content man).2) ↔ ¬Torn B M content) ∧
      ∀ man, Reloads B man ↔ Storable B man :=
  ⟨fun _ _ _ _ => failed_read_iff, fun _ => reload_iff⟩

theorem sampleBatch_pos : 0 < 10000 := by decide

def sampleBuild : Build where
  H := sampleHashes
  pchMessageStart := #v[0x1f, 0x22, 0x05, 0x31]
  batch := 10000
  batch_pos := sampleBatch_pos

def halfData : List UInt8 :=
  serializeBytes strMagicMessage ++ (sampleBuild.pchMessageStart.toList ++
    (0 :: 2 :: CBlanknode.codec.write (.new 5 7)))

def halfFile : List UInt8 := halfData ++ leBytes 32 (sampleBuild.H.hash halfData).toNat

/-- **A load that fails fills the list.**  The result is `IncorrectFormat`, and the first blanknode
is there. -/
theorem halfFile_fills :
    (read sampleBuild (tightMachine 9) CBlanknodeRegistry.registryEnv (fun _ _ => 9)
        (some halfFile) (withRoom 0)).1 = .IncorrectFormat ∧
      (read sampleBuild (tightMachine 9) CBlanknodeRegistry.registryEnv (fun _ _ => 9)
        (some halfFile) (withRoom 0)).2.vBlanknodes.elems.head? = some (.new 5 7) ∧
      ¬NothingLoaded (withRoom 0) (read sampleBuild (tightMachine 9)
        CBlanknodeRegistry.registryEnv (fun _ _ => 9) (some halfFile) (withRoom 0)).2 := by
  have hhead : (read sampleBuild (tightMachine 9) CBlanknodeRegistry.registryEnv (fun _ _ => 9)
      (some halfFile) (withRoom 0)).2.vBlanknodes.elems.head? = some (.new 5 7) := by
    decide +kernel
  exact ⟨by decide +kernel, hhead, not_nothingLoaded rfl hhead⟩

end CBlanknodeDB

end Fantom.Blanknode.Cache
