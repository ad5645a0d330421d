/-
  Fantom.Market.Listings — Whether the listings that a node keeps stay those that were signed.

  * `StoredValid` — every entry is under its hash and rightly signed, the index by category holds
    just these listings, and a peer takes what is relayed,
  * `stored_valid_iff` — over every run of messages.

  The hash of a listing covers its `nStatus`, which messages change in place, and the index holds
  copies, ordered by the hash of the inner listing.
-/
import Fantom.Market.Arrival

namespace Fantom.Market

open Core Lib MarketState Option StdMap Bool Std.ExtTreeMap

/-! ## §1. The index by category. -/

/-- The set of a category, empty where there is none. -/
def MarketState.category (st : MarketState) (c : StdString) : StdMap UInt256 CSignedMarketListing :=
  (st.mapListingsByCategory[c]?).getD ∅

/-- Every listing of a set is under the hash of its inner listing, in the category `c`. -/
def Keyed (H : Hashes) (st : MarketState) : Prop :=
  ∀ (c : StdString) (inner : UInt256) (l : CSignedMarketListing),
    (st.category c)[inner]? = some l → l.listing.getHash H = inner

/-- Under each category are exactly the stored listings of it. -/
def Indexed (st : MarketState) : Prop :=
  ∀ (c : StdString) (l : CSignedMarketListing),
    (∃ inner : UInt256, (st.category c)[inner]? = some l) ↔
      l.listing.sCategory = c ∧ ∃ h : UInt256, st.mapListings[h]? = some l

variable {H : Hashes} {st : MarketState} {l : CSignedMarketListing} {o : MarketObject}
  {st' : MarketState}

theorem Indexed.get (hi : Indexed st) (hk : Keyed H st) {h : UInt256}
    (hl : st.mapListings[h]? = some l) :
    (st.category l.listing.sCategory)[l.listing.getHash H]? = some l := by
  obtain ⟨inner, hinner⟩ := (hi l.listing.sCategory l).mpr ⟨rfl, h, hl⟩
  rw [hk _ _ _ hinner]
  exact hinner

theorem category_updateAt (st st' : MarketState) (c : StdString)
    (f : StdMap UInt256 CSignedMarketListing → StdMap UInt256 CSignedMarketListing)
    (h : st'.mapListingsByCategory = StdMap.updateAt st.mapListingsByCategory c ∅ f)
    (a : StdString) : st'.category a = if c = a then f (st.category a) else st.category a := by
  unfold category
  rw [h, get_updateAt]
  by_cases hc : c = a
  · rw [if_pos hc, if_pos hc]
    rfl
  · rw [if_neg hc, if_neg hc]

/-! ## §2. What a peer takes. -/

variable (C : MarketCrypto)

/-- An object that a peer takes when it is relayed to it. -/
structure Taken (o : MarketObject) : Prop where
  heard : o.1.unheard = false
  strings : o.1.codec.Ok o.2
  whole : Whole o.1 o.2
  checked : checkSignature C o.2 = true

variable {C}

theorem taken_iff (o : MarketObject) :
    (∀ mem, accepted C mem (message o).1 (message o).2 = some o) ↔ Taken C o := by
  have hfilter : ∀ mem, accepted C mem (message o).1 (message o).2 = some o ↔
      readMessage mem (message o).1 (message o).2 = some o ∧ checkSignature C o.2 = true := by
    intro mem
    unfold accepted
    exact filter_eq_some_iff
  constructor
  · intro h
    have hread := (hfilter (fun _ => .replicate 64 0)).mp (h _)
    have hparts := (readMessage_iff _ o).mp hread.1
    exact ⟨hparts.1, hparts.2.1, hparts.2.2, hread.2⟩
  · intro h mem
    exact (hfilter mem).mpr ⟨(readMessage_iff mem o).mpr ⟨h.heard, h.strings, h.whole⟩, h.checked⟩

theorem accepted_spec {mem : Memory} {strCommand : String} {vRecv : List UInt8}
    (h : accepted C mem strCommand vRecv = some o) :
    o.1.codec.Ok o.2 ∧ Whole o.1 o.2 ∧ checkSignature C o.2 = true := by
  obtain ⟨hread, hcheck⟩ := filter_eq_some_iff.mp h
  obtain ⟨k, -, hrest⟩ := bind_eq_some_iff.mp hread
  obtain ⟨p, hp, hsome⟩ := bind_eq_some_iff.mp hrest
  cases hsome
  have hback := k.codec.takes mem _ p.1 p.2 hp
  exact ⟨hback.1, (norm_eq_iff k p.1).mp hback.2, hcheck⟩

theorem mem_inventory {nTime : Int64} {st : MarketState} :
    o ∈ inventory nTime st ↔
      objectDate o.1 o.2 ≥ nTime ∧ ∃ h : UInt256, (st.maps o.1)[h]? = some o.2 := by
  obtain ⟨k, o⟩ := o
  simp only [inventory, List.mem_flatMap, List.mem_filterMap]
  constructor
  · intro ⟨k', _, p, hp, hsome⟩
    split at hsome
    next hdate =>
      obtain ⟨rfl, heq⟩ := Sigma.mk.inj (Option.some.inj hsome)
      obtain rfl := eq_of_heq heq
      exact ⟨hdate, p.1, mem_toList_iff_getElem?_eq_some.mp hp⟩
    next => cases hsome
  · intro ⟨hdate, h, hh⟩
    refine ⟨k, ?_, (h, o), mem_toList_iff_getElem?_eq_some.mpr hh, if_pos hdate⟩
    cases k <;> decide

variable (C) in
def AllTaken (st : MarketState) : Prop :=
  ∀ (k : Kind) (h : UInt256) (o : k.Obj), (st.maps k)[h]? = some o → Taken C ⟨k, o⟩

theorem allTaken_keep (ht : AllTaken C st) {k : Kind} {o : k.Obj} (ho : Taken C ⟨k, o⟩) :
    AllTaken C (st.keep C.toHashes k o) := by
  intro k' h o' ho'
  by_cases hk : k' = k
  · subst hk
    rw [keep_maps_self] at ho'
    rcases of_get_insertNew ho' with hold | ⟨-, rfl⟩
    · exact ht k' h o' hold
    · exact ho
  · rw [keep_maps_ne _ _ _ hk] at ho'
    exact ht k' h o' ho'

theorem allTaken_editRequest (ht : AllTaken C st) {env : MarketEnv} {id : UInt256}
    {r : CBuyRequest} {f : CBuyRequest → CBuyRequest} (hr : st.mapBuyRequests[id]? = some r)
    (hf : Taken C ⟨.buyRequest, f r⟩) : AllTaken C (st.editRequest env id f) := by
  intro k h o ho
  by_cases hk : k = .buyRequest
  · subst hk
    change (st.editRequest env id f).mapBuyRequests[h]? = some o at ho
    rw [editRequest_mapBuyRequests, get_updateAt] at ho
    split at ho
    next heq =>
        subst heq
        rw [hr] at ho
        cases ho
        exact hf
    next => exact ht .buyRequest h o ho
  · rw [editRequest_maps_ne _ _ _ _ hk] at ho
    exact ht k h o ho

theorem buyRequest_ok_iff (r : CBuyRequest) :
    CBuyRequest.codec.Ok r ↔ r.vchSig.length ≤ MAX_SIZE ∧ r.rawTx.length ≤ MAX_SIZE ∧
      r.escrowAddress.length ≤ MAX_SIZE := by
  simp [CBuyRequest.codec, Codec.record, Codec.seq, Codec.ofFormat, int32, int64, uint256, bytes,
    pubKey]

theorem taken_request {r r' : CBuyRequest} (hr : Taken C ⟨.buyRequest, r⟩)
    (hsame : r'.buyerKey = r.buyerKey ∧ r'.listingId = r.listingId ∧ r'.vchSig = r.vchSig)
    (hraw : r'.rawTx.length ≤ MAX_SIZE) (hescrow : r'.escrowAddress.length ≤ MAX_SIZE) :
    Taken C ⟨.buyRequest, r'⟩ where
  heard := rfl
  strings := by
    have hsig := ((buyRequest_ok_iff r).mp hr.strings).1
    refine (buyRequest_ok_iff r').mpr ⟨?_, hraw, hescrow⟩
    rw [hsame.2.2]
    exact hsig
  whole := trivial
  checked := by
    show r'.buyerKey.verify C r'.listingId r'.vchSig = true
    rw [hsame.1, hsame.2.1, hsame.2.2]
    exact hr.checked

/-! ## §3. Valid states. -/

variable (C)

/-- **The stored listings are valid.** -/
structure StoredValid (st : MarketState) : Prop where
  /-- An entry is under its hash, and rightly signed. -/
  sound : ∀ (h : UInt256) (l : CSignedMarketListing), st.mapListings[h]? = some l →
    getHash C.toHashes (k := .listing) l = h ∧ checkSignature C (k := .listing) l = true
  indexed : Indexed st
  /-- What is relayed in answer to "mktinv" a peer takes. -/
  relayed : ∀ nTime, ∀ o ∈ inventory nTime st, ∀ mem,
    accepted C mem (message o).1 (message o).2 = some o
  /-- A listing that is cancelled is in neither map. -/
  cancels : ∀ cancel : CCancelListing,
    (receiveCancelListing C.toHashes cancel st).mapListings[cancel.listingId]? = none ∧
      ∀ (c : StdString) (inner : UInt256) (l : CSignedMarketListing),
        ((receiveCancelListing C.toHashes cancel st).category c)[inner]? = some l →
          getHash C.toHashes (k := .listing) l ≠ cancel.listingId

/-- What makes it so. -/
structure Consistent (st : MarketState) : Prop where
  keyed : Keyed C.toHashes st
  sound : ∀ (h : UInt256) (l : CSignedMarketListing), st.mapListings[h]? = some l →
    getHash C.toHashes (k := .listing) l = h ∧ checkSignature C (k := .listing) l = true
  indexed : Indexed st
  taken : AllTaken C st

variable {C}

theorem StoredValid.taken (h : StoredValid C st) : AllTaken C st := by
  intro k hash o ho
  refine (taken_iff ⟨k, o⟩).mp fun mem => ?_
  refine h.relayed Int64.minValue ⟨k, o⟩ (mem_inventory.mpr ⟨?_, hash, ho⟩) mem
  exact Int64.minValue_le _

theorem Consistent.of_same (h : Consistent C st) (hl : st'.mapListings = st.mapListings)
    (hc : st'.mapListingsByCategory = st.mapListingsByCategory) (ht : AllTaken C st') :
    Consistent C st' where
  keyed := by
    unfold Keyed category
    rw [hc]
    exact h.keyed
  sound := by
    rw [hl]
    exact h.sound
  indexed := by
    unfold Indexed category
    rw [hl, hc]
    exact h.indexed
  taken := ht

/-! ## §4. Cancellations and new listings. -/

theorem Consistent.stored (hs : Consistent C st) {c : StdString} {inner : UInt256}
    {x : CSignedMarketListing} (hx : (st.category c)[inner]? = some x) :
    x.listing.sCategory = c ∧
      st.mapListings[getHash C.toHashes (k := .listing) x]? = some x := by
  obtain ⟨hcat, h, hstored⟩ := (hs.indexed c x).mp ⟨inner, hx⟩
  refine ⟨hcat, ?_⟩
  rw [(hs.sound h x hstored).1]
  exact hstored

theorem Consistent.category_cancel_iff (hs : Consistent C st) (cancel : CCancelListing)
    (c : StdString) (inner : UInt256) (x : CSignedMarketListing) :
    ((receiveCancelListing C.toHashes cancel st).category c)[inner]? = some x ↔
      (st.category c)[inner]? = some x ∧
        getHash C.toHashes (k := .listing) x ≠ cancel.listingId := by
  cases hknown : st.mapListings[cancel.listingId]? with
  | none =>
    have hsame := receiveCancelListing_byCategory_of_unknown C.toHashes hknown
    have hcat : (receiveCancelListing C.toHashes cancel st).category c = st.category c := by
      unfold category
      rw [hsame]
    rw [hcat]
    constructor
    · intro hx
      refine ⟨hx, fun heq => ?_⟩
      have hstored := (hs.stored hx).2
      rw [heq, hknown] at hstored
      cases hstored
    · intro hx
      exact hx.1
  | some l =>
    have hl := hs.sound cancel.listingId l hknown
    -- the one listing of this hash is `l`
    have honly : ∀ {a : StdString} {i : UInt256} {y : CSignedMarketListing},
        (st.category a)[i]? = some y →
        getHash C.toHashes (k := .listing) y = cancel.listingId → y = l := by
      intro a i y hy heq
      have hstored := (hs.stored hy).2
      rw [heq, hknown] at hstored
      exact (Option.some.inj hstored).symm
    rw [category_updateAt st _ l.listing.sCategory _
      (receiveCancelListing_byCategory_of_known C.toHashes hknown)]
    by_cases hcat : l.listing.sCategory = c
    · rw [if_pos hcat, get_erase]
      by_cases hinner : l.listing.getHash C.toHashes = inner
      · rw [if_pos hinner]
        constructor
        · intro hx
          cases hx
        · intro hx
          have hget := hs.indexed.get hs.keyed hknown
          rw [hcat, hinner, hx.1] at hget
          cases hget
          exact absurd hl.1 hx.2
      · rw [if_neg hinner]
        constructor
        · intro hx
          refine ⟨hx, fun heq => hinner ?_⟩
          rw [← honly hx heq]
          exact hs.keyed c inner x hx
        · intro hx
          exact hx.1
    · rw [if_neg hcat]
      constructor
      · intro hx
        refine ⟨hx, fun heq => hcat ?_⟩
        rw [← honly hx heq]
        exact (hs.stored hx).1
      · intro hx
        exact hx.1

theorem Consistent.cancel (hs : Consistent C st) {cancel : CCancelListing}
    (ho : Taken C ⟨.cancelListing, cancel⟩) :
    Consistent C (receiveCancelListing C.toHashes cancel st) where
  keyed := by
    intro c inner l hl
    exact hs.keyed c inner l ((hs.category_cancel_iff cancel c inner l).mp hl).1
  sound := by
    intro h l hl
    rw [receiveCancelListing_mapListings, get_erase] at hl
    split at hl
    next => cases hl
    next => exact hs.sound h l hl
  indexed := by
    intro c l
    constructor
    · intro ⟨held, hheld⟩
      obtain ⟨hold, hne⟩ := (hs.category_cancel_iff cancel c held l).mp hheld
      obtain ⟨hcat, hstored⟩ := hs.stored hold
      refine ⟨hcat, getHash C.toHashes (k := .listing) l, ?_⟩
      rw [receiveCancelListing_mapListings, get_erase, if_neg (Ne.symm hne)]
      exact hstored
    · intro ⟨hcat, h, hh⟩
      rw [receiveCancelListing_mapListings, get_erase] at hh
      split at hh
      next => cases hh
      next hne =>
        obtain ⟨inner, hinner⟩ := (hs.indexed c l).mpr ⟨hcat, h, hh⟩
        refine ⟨inner, (hs.category_cancel_iff cancel c inner l).mpr ⟨hinner, ?_⟩⟩
        rw [(hs.sound h l hh).1]
        exact Ne.symm hne
  taken := by
    intro k h o hko
    by_cases hl : k = .listing
    · subst hl
      change (receiveCancelListing C.toHashes cancel st).mapListings[h]? = some o at hko
      rw [receiveCancelListing_mapListings, get_erase] at hko
      split at hko
      next => cases hko
      next => exact hs.taken .listing h o hko
    · by_cases hc : k = .cancelListing
      · subst hc
        rw [receiveCancelListing_mapCancelListings] at hko
        rcases of_get_insertNew hko with hold | ⟨-, rfl⟩
        · exact hs.taken .cancelListing h o hold
        · exact ho
      · rw [receiveCancelListing_maps_ne _ _ _ hl hc] at hko
        exact hs.taken k h o hko

theorem Consistent.category_new (l : CSignedMarketListing)
    (hindex : st'.mapListingsByCategory = st.indexed C.toHashes l) (c : StdString) :
    st'.category c = if l.listing.sCategory = c then
      StdMap.insertNew (st.category c) (l.listing.getHash C.toHashes) l else st.category c :=
  category_updateAt st st' l.listing.sCategory _ hindex c

theorem Consistent.insert (hs : Consistent C st) (ho : Taken C ⟨.listing, l⟩)
    (hnew : st.mapListings.contains (getHash C.toHashes (k := .listing) l) = false) (hfresh : ∀ (h :
    UInt256) (l' : CSignedMarketListing), st.mapListings[h]? = some l' → l'.listing.sCategory =
    l.listing.sCategory → l'.listing.getHash C.toHashes ≠ l.listing.getHash C.toHashes)
    (hmap : st'.mapListings = st.mapListings.insert (getHash C.toHashes (k := .listing) l) l)
    (hother : ∀ k, k ≠ .listing → st'.maps k = st.maps k)
    (hindex : st'.mapListingsByCategory = st.indexed C.toHashes l) : Consistent C st' := by
  have hcategory := Consistent.category_new (C := C) l hindex
  have hnone : st.mapListings[getHash C.toHashes (k := .listing) l]? = none :=
    contains_eq_false_iff.mp hnew
  have hfree : (st.category l.listing.sCategory)[l.listing.getHash C.toHashes]? = none := by
    cases hx : (st.category l.listing.sCategory)[l.listing.getHash C.toHashes]? with
    | none => rfl
    | some x =>
      obtain ⟨hcat, hstored⟩ := hs.stored hx
      exact absurd (hs.keyed _ _ _ hx) (hfresh _ x hstored hcat)
  -- a set holds what it held, and the new listing if it is of this category
  have hmem : ∀ (c : StdString) (inner : UInt256) (x : CSignedMarketListing),
      (st'.category c)[inner]? = some x ↔ (st.category c)[inner]? = some x ∨
        (l.listing.sCategory = c ∧ l.listing.getHash C.toHashes = inner ∧ l = x) := by
    intro c inner x
    rw [hcategory]
    by_cases hcat : l.listing.sCategory = c
    · rw [if_pos hcat, get_insertNew]
      by_cases hinner : l.listing.getHash C.toHashes = inner
      · rw [← hcat, ← hinner, if_pos rfl, hfree]
        simp
      · simp [hinner]
    · simp [hcat]
  refine ⟨?_, ?_, ?_, ?_⟩
  · intro c inner x hx
    rcases (hmem c inner x).mp hx with hold | ⟨-, hinner, rfl⟩
    · exact hs.keyed c inner x hold
    · exact hinner
  · intro h x hx
    rw [hmap, get_insert] at hx
    split at hx
    next heq =>
      cases hx
      exact ⟨heq, ho.checked⟩
    next => exact hs.sound h x hx
  · intro c x
    constructor
    · intro ⟨held, hheld⟩
      rcases (hmem c held x).mp hheld with hold | ⟨hcat, -, rfl⟩
      · obtain ⟨hcat, hstored⟩ := hs.stored hold
        refine ⟨hcat, getHash C.toHashes (k := .listing) x, ?_⟩
        rw [hmap, get_insert_ne]
        · exact hstored
        · intro heq
          rw [heq, hstored] at hnone
          cases hnone
      · refine ⟨hcat, getHash C.toHashes (k := .listing) l, ?_⟩
        rw [hmap, get_insert_self]
    · intro ⟨hcat, h, hh⟩
      rw [hmap, get_insert] at hh
      split at hh
      next =>
        cases hh
        exact ⟨_, (hmem c _ l).mpr (.inr ⟨hcat, rfl, rfl⟩)⟩
      next =>
        obtain ⟨inner, hinner⟩ := (hs.indexed c x).mpr ⟨hcat, h, hh⟩
        exact ⟨inner, (hmem c inner x).mpr (.inl hinner)⟩
  · intro k h o hko
    by_cases hk : k = .listing
    · subst hk
      change st'.mapListings[h]? = some o at hko
      rw [hmap, get_insert] at hko
      split at hko
      next =>
        cases hko
        exact ho
      next => exact hs.taken .listing h o hko
    · rw [hother k hk] at hko
      exact hs.taken k h o hko

theorem Consistent.valid (hs : Consistent C st) : StoredValid C st where
  sound := hs.sound
  indexed := hs.indexed
  relayed := by
    intro nTime o ho
    obtain ⟨-, h, hh⟩ := mem_inventory.mp ho
    exact (taken_iff o).mpr (hs.taken o.1 h o.2 hh)
  cancels := by
    intro cancel
    constructor
    · rw [receiveCancelListing_mapListings, get_erase, if_pos rfl]
    · intro c inner l hl
      exact ((hs.category_cancel_iff cancel c inner l).mp hl).2

/-! ## §5. The messages that keep it so. -/

variable (C) in
/-- **What keeps the listings valid.**  A listing has an inner listing that its category does
not have yet; a release names a known request, and where the listing of this request is
known it names a known listing, which is not ours or is locked already; delivery details, refund
requests and escrow payments, which no peer takes, do not come. -/
def KeepsValid (env : MarketEnv) (st : MarketState) : MarketObject → Prop
  | ⟨.listing, l⟩ =>
    st.mapListings.contains (getHash C.toHashes (k := .listing) l) = false →
    st.cancelled (getHash C.toHashes (k := .listing) l) = false →
    ∀ (h : UInt256) (l' : CSignedMarketListing), st.mapListings[h]? = some l' →
      l'.listing.sCategory = l.listing.sCategory →
        l'.listing.getHash C.toHashes ≠ l.listing.getHash C.toHashes
  | ⟨.escrowRelease, e⟩ =>
    ∃ r, st.mapBuyRequests[e.requestId]? = some r ∧
      (st.mapListings.contains r.listingId = true →
        ∃ l, st.mapListings[e.listingId]? = some l ∧
          (mineListing C.toHashes env l = true →
            l.listing.nStatus = BUY_STATUS.ESCROW_LOCK.toInt))
  | ⟨.deliveryDetails, _⟩ => False
  | ⟨.refundRequest, _⟩ => False
  | ⟨.escrowPayment, _⟩ => False
  | ⟨.buyRequest, _⟩ => True
  | ⟨.buyAccept, _⟩ => True
  | ⟨.buyReject, _⟩ => True
  | ⟨.cancelListing, _⟩ => True
  | ⟨.paymentRequest, _⟩ => True

variable {env : MarketEnv}

theorem Consistent.buyRequest (hs : Consistent C st) {r : CBuyRequest}
    (ho : Taken C ⟨.buyRequest, r⟩) :
    Consistent C (receiveBuyRequest C.toHashes env r st).1 := by
  rw [receiveBuyRequest_fst]
  split
  · exact hs
  have hkept : AllTaken C ((st.setMap .buyRequest (st.mapBuyRequests.insert r.requestId
      r)).write .buyRequest) := by
    intro k h o hko
    by_cases hk : k = .buyRequest
    · subst hk
      rw [write_maps, setMap_maps_self, get_insert] at hko
      split at hko
      next =>
        cases hko
        exact ho
      next => exact hs.taken .buyRequest h o hko
    · rw [write_maps, setMap_maps_ne _ _ hk] at hko
      exact hs.taken k h o hko
  have hmap : ((st.setMap .buyRequest (st.mapBuyRequests.insert r.requestId r)).write
      .buyRequest).mapListings = st.mapListings :=
    setMap_maps_ne st (k := .buyRequest) (st.mapBuyRequests.insert r.requestId r)
      (show Kind.listing ≠ .buyRequest by decide)
  exact hs.of_same hmap rfl hkept

theorem Consistent.tellBuyer (hs : Consistent C st) {k : Kind} {o : k.Obj} (ho : Taken C ⟨k, o⟩)
    (hl : .listing ≠ k) (id : UInt256) (f : CBuyRequest → CBuyRequest)
    (hf : ∀ r, Taken C ⟨.buyRequest, r⟩ → Taken C ⟨.buyRequest, f r⟩) :
    Consistent C (MarketState.tellBuyer C.toHashes env (st.keep C.toHashes k o) id f).1 := by
  have hkept : Consistent C (st.keep C.toHashes k o) :=
    hs.of_same (keep_mapListings _ st o hl) (keep_byCategory _ st k o) (allTaken_keep hs.taken ho)
  obtain ⟨r, hr, -, htold⟩ | ⟨-, htold⟩ :=
    tellBuyer_cases C.toHashes env (st.keep C.toHashes k o) id f
  · rw [htold]
    have hmap : ((st.keep C.toHashes k o).editRequest env id f).mapListings =
        (st.keep C.toHashes k o).mapListings :=
      editRequest_maps_ne env _ id f (show Kind.listing ≠ .buyRequest by decide)
    exact hkept.of_same hmap rfl
      (allTaken_editRequest hkept.taken hr (hf r (hkept.taken .buyRequest id r hr)))
  · rw [htold]
    exact hkept

theorem Consistent.accept (hs : Consistent C st) {a : CBuyAccept} (ho : Taken C ⟨.buyAccept, a⟩) :
    Consistent C (receiveBuyAccept C.toHashes env a st).1 := by
  have haddress : a.escrowAddress.length ≤ MAX_SIZE := by
    have hok : CBuyAccept.codec.Ok a := ho.strings
    simp [CBuyAccept.codec, Codec.record, Codec.seq, Codec.ofFormat, int32, int64, uint256, bytes,
      pubKey] at hok
    exact hok.2.2
  refine hs.tellBuyer ho (by decide) a.buyRequestId _ fun r hr => ?_
  exact taken_request hr ⟨rfl, rfl, rfl⟩ ((buyRequest_ok_iff r).mp hr.strings).2.1 haddress

theorem Consistent.reject (hs : Consistent C st) {j : CBuyReject} (ho : Taken C ⟨.buyReject, j⟩) :
    Consistent C (receiveBuyReject C.toHashes env j st).1 := by
  refine hs.tellBuyer ho (by decide) j.buyRequestId _ fun r hr => ?_
  have hok := (buyRequest_ok_iff r).mp hr.strings
  exact taken_request hr ⟨rfl, rfl, rfl⟩ hok.2.1 hok.2.2

theorem Consistent.payment (hs : Consistent C st) {p : CPaymentRequest}
    (ho : Taken C ⟨.paymentRequest, p⟩) :
    Consistent C (receivePaymentRequest C.toHashes env p st).1 := by
  have hraw : p.rawTx.length ≤ MAX_SIZE := by
    have hok : CPaymentRequest.codec.Ok p := ho.strings
    simp [CPaymentRequest.codec, Codec.record, Codec.seq, Codec.ofFormat, int32, int64, uint256,
      bytes, pubKey] at hok
    exact hok.2.2
  refine hs.tellBuyer ho (by decide) p.requestId _ fun r hr => ?_
  exact taken_request hr ⟨rfl, rfl, rfl⟩ hraw ((buyRequest_ok_iff r).mp hr.strings).2.2

theorem Consistent.listing (hs : Consistent C st) (ho : Taken C ⟨.listing, l⟩)
    (hkeeps : KeepsValid C env st ⟨.listing, l⟩) :
    Consistent C (receiveListing C.toHashes l st) := by
  by_cases hknown : st.mapListings.contains (getHash C.toHashes (k := .listing) l) = true
  · rw [receiveListing_of_known C.toHashes (.inl hknown)]
    exact hs
  by_cases hcancelled : st.cancelled (getHash C.toHashes (k := .listing) l) = true
  · rw [receiveListing_of_known C.toHashes (.inr hcancelled)]
    exact hs
  rw [not_eq_true] at hknown hcancelled
  rw [receiveListing_of_new C.toHashes hknown hcancelled]
  refine hs.insert ho hknown (hkeeps hknown hcancelled) ?_ ?_ rfl
  · exact setMap_maps_self st .listing _
  · intro k hk
    exact setMap_maps_ne st _ hk

theorem Consistent.release (hs : Consistent C st) {e : CEscrowRelease}
    (ho : Taken C ⟨.escrowRelease, e⟩) (hkeeps : KeepsValid C env st ⟨.escrowRelease, e⟩) :
    Consistent C (receiveEscrowRelease C.toHashes env e st).1 := by
  obtain ⟨r, hr, hlisting⟩ := hkeeps
  have hmaps := receiveEscrowRelease_maps C.toHashes env e st
  have hreleased : released env e st = r := by
    rw [released, hr]
    rfl
  rw [hreleased] at hmaps
  have hsame : (receiveEscrowRelease C.toHashes env e st).1.mapListings = st.mapListings := by
    rw [hmaps.1]
    cases hknown : st.mapListings.contains r.listingId with
    | false => rfl
    | true =>
      obtain ⟨l, hl, hstatus⟩ := hlisting hknown
      rw [if_pos rfl, hl]
      refine updateAt_same hl ?_
      show (if mineListing C.toHashes env l = true then _ else _) = l
      split
      next hmine =>
        by_contra hne
        exact setStatus_ne_iff.mp hne (hstatus hmine)
      next => rfl
  refine hs.of_same hsame (receiveEscrowRelease_byCategory C.toHashes env e st) ?_
  intro k h o hko
  by_cases hl : k = .listing
  · subst hl
    change (receiveEscrowRelease C.toHashes env e st).1.mapListings[h]? = some o at hko
    rw [hsame] at hko
    exact hs.taken .listing h o hko
  by_cases hb : k = .buyRequest
  · subst hb
    change (receiveEscrowRelease C.toHashes env e st).1.mapBuyRequests[h]? = some o at hko
    rw [hmaps.2, get_updateAt] at hko
    split at hko
    next heq =>
      subst heq
      rw [hr] at hko
      cases hko
      have hold := hs.taken .buyRequest _ r hr
      have hok := (buyRequest_ok_iff r).mp hold.strings
      exact taken_request hold ⟨rfl, rfl, rfl⟩ hok.2.1 hok.2.2
    next => exact hs.taken .buyRequest h o hko
  · rw [receiveEscrowRelease_maps_ne C.toHashes env e st hl hb] at hko
    exact allTaken_keep hs.taken ho k h o hko

/-- **A message that meets the condition** leaves a consistent state consistent. -/
theorem Consistent.receive (hs : Consistent C st) (hok : o.1.codec.Ok o.2) (hwhole : Whole o.1 o.2)
    (hcheck : checkSignature C o.2 = true) (hkeeps : KeepsValid C env st o) :
    Consistent C (MarketState.receive C.toHashes env o.1 o.2 st).1 := by
  obtain ⟨k, o⟩ := o
  cases k with
  | listing => exact hs.listing ⟨rfl, hok, hwhole, hcheck⟩ hkeeps
  | buyRequest => exact hs.buyRequest ⟨rfl, hok, hwhole, hcheck⟩
  | buyAccept => exact hs.accept ⟨rfl, hok, hwhole, hcheck⟩
  | buyReject => exact hs.reject ⟨rfl, hok, hwhole, hcheck⟩
  | cancelListing => exact hs.cancel ⟨rfl, hok, hwhole, hcheck⟩
  | deliveryDetails => exact hkeeps.elim
  | refundRequest => exact hkeeps.elim
  | escrowRelease => exact hs.release ⟨rfl, hok, hwhole, hcheck⟩ hkeeps
  | escrowPayment => exact hkeeps.elim
  | paymentRequest => exact hs.payment ⟨rfl, hok, hwhole, hcheck⟩

/-! ## §6. The messages that do not. -/

theorem unheard_kept {k : Kind} (hk : k.unheard = true) {o : k.Obj}
    (hmap : st'.maps k = (st.keep C.toHashes k o).maps k) : ¬ StoredValid C st' := by
  intro hvalid
  have hin : (st'.maps k).contains (getHash C.toHashes o) = true := by
    rw [hmap, keep_maps_self, contains_insertNew]
    simp
  obtain ⟨o', ho'⟩ := contains_iff.mp hin
  have hheard : k.unheard = false := (hvalid.taken k _ o' ho').heard
  rw [hk] at hheard
  cases hheard

theorem StoredValid.fresh (hs : Consistent C st) (hvalid : StoredValid C st')
    (hnew : st.mapListings.contains (getHash C.toHashes (k := .listing) l) = false)
    (hmap : st'.mapListings = st.mapListings.insert (getHash C.toHashes (k := .listing) l) l)
    (hindex : st'.mapListingsByCategory = st.indexed C.toHashes l) {h : UInt256}
    {l' : CSignedMarketListing} (hl' : st.mapListings[h]? = some l')
    (hcat : l'.listing.sCategory = l.listing.sCategory) :
    l'.listing.getHash C.toHashes ≠ l.listing.getHash C.toHashes := by
  intro heq
  -- the set has `l'` there, and keeps it
  have hold : (st.category l.listing.sCategory)[l.listing.getHash C.toHashes]? = some l' := by
    rw [← hcat, ← heq]
    exact hs.indexed.get hs.keyed hl'
  have hne : l ≠ l' := by
    intro hll
    subst hll
    rw [(hs.sound h l hl').1] at hnew
    rw [contains_eq_false_iff, hl'] at hnew
    cases hnew
  have hstored : st'.mapListings[getHash C.toHashes (k := .listing) l]? = some l := by
    rw [hmap, get_insert_self]
  obtain ⟨inner, hinner⟩ := (hvalid.indexed l.listing.sCategory l).mpr ⟨rfl, _, hstored⟩
  rw [Consistent.category_new (C := C) l hindex, if_pos rfl] at hinner
  rcases of_get_insertNew hinner with hthere | ⟨hin, -⟩
  · rw [contains_eq_false_iff, (hs.stored hthere).2] at hnew
    cases hnew
  · rw [← hin, get_insertNew_of_some hold] at hinner
    exact hne (Option.some.inj hinner).symm

theorem StoredValid.listing (hs : Consistent C st)
    (hvalid : StoredValid C (receiveListing C.toHashes l st)) :
    KeepsValid C env st ⟨.listing, l⟩ := by
  intro hknown hcancelled h l' hl' hcat
  rw [receiveListing_of_new C.toHashes hknown hcancelled] at hvalid
  exact hvalid.fresh hs hknown (setMap_maps_self st .listing _) rfl hl' hcat

theorem StoredValid.known {e : CEscrowRelease}
    (hvalid : StoredValid C (receiveEscrowRelease C.toHashes env e st).1) :
    ∃ r, st.mapBuyRequests[e.requestId]? = some r := by
  have hmade := (congrArg (fun m : StdMap UInt256 CBuyRequest => m[e.requestId]?)
    (receiveEscrowRelease_maps C.toHashes env e st).2).trans (get_updateAt ..)
  rw [if_pos rfl] at hmade
  cases hr : st.mapBuyRequests[e.requestId]? with
  | some r => exact ⟨r, rfl⟩
  | none =>
    rw [hr] at hmade
    have hchecked := (hvalid.taken .buyRequest _ _ hmade).checked
    exact absurd hchecked false_ne_true

theorem StoredValid.release (hs : Consistent C st) {e : CEscrowRelease}
    (hvalid : StoredValid C (receiveEscrowRelease C.toHashes env e st).1) :
    KeepsValid C env st ⟨.escrowRelease, e⟩ := by
  obtain ⟨r, hr⟩ := hvalid.known
  refine ⟨r, hr, fun hknown => ?_⟩
  have hmap := (receiveEscrowRelease_maps C.toHashes env e st).1
  rw [show released env e st = r by rw [released, hr]; rfl, if_pos hknown] at hmap
  have hmade := (congrArg (fun m : StdMap UInt256 CSignedMarketListing => m[e.listingId]?)
    hmap).trans (get_updateAt ..)
  rw [if_pos rfl] at hmade
  cases hl : st.mapListings[e.listingId]? with
  | none =>
    -- so has a listing that is made
    rw [hl] at hmade
    have hchecked := (hvalid.sound _ _ hmade).2
    change checkSignature C (k := .listing) (if _ then setStatus .ESCROW_LOCK (freshListing env)
      else freshListing env) = true at hchecked
    split at hchecked
    · exact absurd hchecked false_ne_true
    · exact absurd hchecked false_ne_true
  | some l =>
    refine ⟨l, rfl, fun hmine => ?_⟩
    rw [hl] at hmade
    change _ = some (if mineListing C.toHashes env l = true then setStatus .ESCROW_LOCK l
      else l) at hmade
    rw [if_pos hmine] at hmade
    -- the set holds `l` as it was
    have hold : ((receiveEscrowRelease C.toHashes env e st).1.category
        l.listing.sCategory)[l.listing.getHash C.toHashes]? = some l := by
      rw [category, receiveEscrowRelease_byCategory]
      exact hs.indexed.get hs.keyed hl
    obtain ⟨-, h, hh⟩ := (hvalid.indexed l.listing.sCategory l).mp ⟨_, hold⟩
    have hhash : e.listingId = h := (hs.sound _ l hl).1.symm.trans (hvalid.sound h l hh).1
    rw [← hhash, hmade] at hh
    by_contra hne
    exact setStatus_ne_iff.mpr hne (Option.some.inj hh)

/-- **A message after which the listings are valid** meets the condition. -/
theorem StoredValid.receive (hs : Consistent C st) (hwhole : Whole o.1 o.2)
    (hcheck : checkSignature C o.2 = true)
    (hvalid : StoredValid C (MarketState.receive C.toHashes env o.1 o.2 st).1) :
    KeepsValid C env st o := by
  obtain ⟨k, o⟩ := o
  cases k with
  | listing => exact hvalid.listing hs
  | escrowRelease => exact hvalid.release hs
  | deliveryDetails =>
    have hmap : (receiveDeliveryDetails C.toHashes env o st).1.maps .deliveryDetails =
        (st.keep C.toHashes .deliveryDetails o).maps .deliveryDetails :=
      tellSeller_maps_ne C.toHashes env _ _ _ _ (by decide)
    exact absurd hvalid (unheard_kept rfl hmap)
  | escrowPayment =>
    have hmap : (receiveEscrowPayment C.toHashes env o st).1.maps .escrowPayment =
        (st.keep C.toHashes .escrowPayment o).maps .escrowPayment := by
      refine (tellSeller_maps_ne C.toHashes env _ _ _ _ (by decide)).trans ?_
      rw [write_maps, editRequest_maps_ne _ _ _ _
        (show Kind.escrowPayment ≠ .buyRequest by decide)]
    exact absurd hvalid (unheard_kept rfl hmap)
  | refundRequest =>
    -- the signature of a refund request is not written, so none is accepted
    have hempty : CRefundRequest.vchSig o = [] := hwhole
    change PubKey.verify C _ _ (CRefundRequest.vchSig o) = true at hcheck
    rw [hempty, PubKey.verify_nil] at hcheck
    cases hcheck
  | _ => trivial

/-! ## §7. Runs. -/

/-- A message of a peer, and what the node finds when it comes. -/
structure PeerMessage where
  mem : Memory
  env : MarketEnv
  strCommand : String
  vRecv : List UInt8

variable (C)

def hear (st : MarketState) (m : PeerMessage) : MarketState :=
  (marketProcessMessage C m.mem m.env m.strCommand m.vRecv st).1

/-- What is accepted of a message meets the condition. -/
def HearsValid (st : MarketState) (m : PeerMessage) : Prop :=
  ∀ o, accepted C m.mem m.strCommand m.vRecv = some o → KeepsValid C m.env st o

theorem consistent_empty : Consistent C .empty where
  keyed _ _ _ h := by cases h
  sound _ _ h := by cases h
  indexed c l := by
    constructor
    · intro ⟨_, h⟩
      cases h
    · intro ⟨_, _, h⟩
      cases h
  taken _ _ _ h := by cases h

/-- **The stored listings stay valid**, in every state of a run of messages from the empty
node, exactly if what is accepted of each message meets the condition in the state it meets. -/
theorem stored_valid_iff (messages : List PeerMessage) :
    (∀ done rest, messages = done ++ rest → StoredValid C (run (hear C) .empty done)) ↔
      Along (hear C) (HearsValid C) .empty messages := by
  refine states_iff (I := Consistent C) (Q := fun _ => True) (fun _ h => h.valid)
    (fun _ _ _ => trivial) ?_ ?_ (consistent_empty C) trivial
  · intro st m hs hm _
    rw [hear, marketProcessMessage_fst]
    cases ho : accepted C m.mem m.strCommand m.vRecv with
    | none => exact hs
    | some o =>
      obtain ⟨hok, hwhole, hcheck⟩ := accepted_spec ho
      exact hs.receive hok hwhole hcheck (hm o ho)
  · intro st m hs hvalid o ho
    rw [hear, marketProcessMessage_fst, ho] at hvalid
    obtain ⟨-, hwhole, hcheck⟩ := accepted_spec ho
    exact hvalid.receive hs hwhole hcheck

def sellerMessage (strCommand : String) (vRecv : List UInt8) : PeerMessage where
  mem := sampleMemory
  env := { sampleMarketEnv with isMine := (· == (samplePubKey 1).getID sampleHashes) }
  strCommand := strCommand
  vRecv := vRecv

def sampleDetails : CDeliveryDetails :=
  let listingId := getHash sampleHashes (k := .listing) signedListing
  ⟨1, listingId, 7, [], 1700, samplePubKey 2, sampleSig 2 listingId⟩

def detailsRun : List PeerMessage :=
  [sellerMessage "mktlst" (Kind.listing.codec.write signedListing),
    sellerMessage "mktdel" (Kind.deliveryDetails.codec.write sampleDetails)]

/-- The status of the listing is changed, and with it its hash: it is under a hash that is not
its own, and its signature is not right. -/
theorem details_spoil_listing :
    ∃ l, (run (hear sampleMarketCrypto) .empty
        detailsRun).mapListings[sampleDetails.listingId]? = some l ∧
      getHash sampleHashes (k := .listing) l ≠ sampleDetails.listingId ∧
      checkSignature sampleMarketCrypto (k := .listing) l = false ∧
      ¬ StoredValid sampleMarketCrypto (run (hear sampleMarketCrypto) .empty detailsRun) := by
  have hentry : (run (hear sampleMarketCrypto) .empty
      detailsRun).mapListings[sampleDetails.listingId]? =
        some (setStatus .DELIVERY_DETAILS signedListing) := by
    decide +kernel
  have hhash : getHash sampleHashes (k := .listing) (setStatus .DELIVERY_DETAILS signedListing) ≠
      sampleDetails.listingId := by
    decide +kernel
  refine ⟨_, hentry, hhash, by decide +kernel, fun hvalid => ?_⟩
  exact hhash (hvalid.sound _ _ hentry).1

end Fantom.Market
