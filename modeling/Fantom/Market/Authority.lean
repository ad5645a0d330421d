/-
  Fantom.Market.Authority — Who can change a deal.  A message is signed by the key that it carries,
  and `Receive` does not compare that key with the seller of the listing, or with the buyer of the
  request.

  * `authority_kept_iff` — over every run.
-/
import Fantom.Market.Receive

namespace Fantom.Market

open Core Lib StdMap

variable (C : MarketCrypto) (env : MarketEnv)

/-! ## §1. Changes of the two maps. -/

def CBuyRequest.deal (r : CBuyRequest) : Int32 × StdString × StdString × UInt256 × UInt256 :=
  (r.nStatus, r.rawTx, r.escrowAddress, r.buyerEscrowLockTxHash, r.sellerEscrowLockTxHash)

section Changes

variable (auth : UInt256 → Prop)

/-- A listing that is removed or changed is one for which `auth` holds. -/
def ListingsKept (m m' : StdMap UInt256 CSignedMarketListing) : Prop :=
  ∀ (h : UInt256) (l : CSignedMarketListing), m[h]? = some l → m'[h]? ≠ some l → auth h

/-- A request whose deal is changed is one for a listing for which `auth` holds. -/
def DealsKept (m m' : StdMap UInt256 CBuyRequest) : Prop :=
  ∀ (id : UInt256) (r : CBuyRequest), m[id]? = some r →
    (m'[id]?).map CBuyRequest.deal ≠ some r.deal → auth r.listingId

def NoneCreated (m m' : StdMap UInt256 CBuyRequest) : Prop :=
  ∀ id : UInt256, m[id]? = none → m'[id]? = none

variable {auth}

theorem listingsKept_self (m : StdMap UInt256 CSignedMarketListing) : ListingsKept auth m m := by
  intro h l hl hne
  exact absurd hl hne

theorem dealsKept_self (m : StdMap UInt256 CBuyRequest) : DealsKept auth m m := by
  intro id r hr hne
  rw [hr] at hne
  exact absurd rfl hne

theorem noneCreated_self (m : StdMap UInt256 CBuyRequest) : NoneCreated m m := by
  intro id h
  exact h

theorem listingsKept_updateAt {m : StdMap UInt256 CSignedMarketListing} {id : UInt256}
    {fresh : CSignedMarketListing} {f : CSignedMarketListing → CSignedMarketListing} :
    ListingsKept auth m (StdMap.updateAt m id fresh f) ↔
      ∀ l, m[id]? = some l → f l ≠ l → auth id := by
  constructor
  · intro h l hl hne
    apply h id l hl
    rw [get_updateAt, if_pos rfl, hl]
    intro heq
    exact hne (Option.some.inj heq)
  · intro h a l hl hne
    rw [get_updateAt] at hne
    by_cases ha : id = a
    · subst ha
      rw [if_pos rfl, hl] at hne
      exact h l hl fun heq => hne (congrArg some heq)
    · rw [if_neg ha] at hne
      exact absurd hl hne

theorem listingsKept_erase {m : StdMap UInt256 CSignedMarketListing} {id : UInt256} :
    ListingsKept auth m (m.erase id) ↔ ∀ l, m[id]? = some l → auth id := by
  constructor
  · intro h l hl
    apply h id l hl
    rw [get_erase, if_pos rfl]
    simp
  · intro h a l hl hne
    rw [get_erase] at hne
    by_cases ha : id = a
    · subst ha
      exact h l hl
    · rw [if_neg ha] at hne
      exact absurd hl hne

theorem dealsKept_updateAt {m : StdMap UInt256 CBuyRequest} {id : UInt256} {fresh : CBuyRequest}
    {f : CBuyRequest → CBuyRequest} :
    DealsKept auth m (StdMap.updateAt m id fresh f) ↔
      ∀ r, m[id]? = some r → (f r).deal ≠ r.deal → auth r.listingId := by
  constructor
  · intro h r hr hne
    apply h id r hr
    rw [get_updateAt, if_pos rfl, hr]
    intro heq
    exact hne (Option.some.inj heq)
  · intro h a r hr hne
    rw [get_updateAt] at hne
    by_cases ha : id = a
    · subst ha
      rw [if_pos rfl, hr] at hne
      exact h r hr fun heq => hne (congrArg some heq)
    · rw [if_neg ha, hr] at hne
      exact absurd rfl hne

theorem noneCreated_updateAt {m : StdMap UInt256 CBuyRequest} {id : UInt256} {fresh : CBuyRequest}
    {f : CBuyRequest → CBuyRequest} :
    NoneCreated m (StdMap.updateAt m id fresh f) ↔ ∃ r, m[id]? = some r := by
  constructor
  · intro h
    cases hm : m[id]? with
    | some r => exact ⟨r, rfl⟩
    | none =>
      have hnone := h id hm
      rw [get_updateAt, if_pos rfl] at hnone
      cases hnone
  · intro ⟨r, hr⟩ a ha
    rw [get_updateAt, if_neg]
    · exact ha
    · intro heq
      rw [← heq, hr] at ha
      cases ha

end Changes

/-! ## §2. Who may change a deal. -/

/-- The buy request that a message of the buyer names. -/
def requestNamed : (k : Kind) → k.Obj → UInt256
  | .deliveryDetails, o => o.buyRequestId
  | .refundRequest, o => o.buyRequestId
  | .escrowRelease, o => o.requestId
  | .escrowPayment, o => o.requestId
  | _, _ => 0

variable (st : MarketState) (o : MarketObject)

/-- The message carries a valid signature by the party of the listing `h` that a message of
its kind is to come from: the seller, or the buyer of the request that it names. -/
def Authorised (h : UInt256) : Prop :=
  match o.1 with
  | .listing | .buyRequest => False
  | .cancelListing | .buyAccept | .buyReject | .paymentRequest =>
    ∃ l, st.mapListings[h]? = some l ∧ signedBy C l.listing.sellerKey o.2 = true
  | .deliveryDetails | .refundRequest | .escrowRelease | .escrowPayment =>
    ∃ r, st.mapBuyRequests[requestNamed o.1 o.2]? = some r ∧ r.listingId = h ∧
      signedBy C r.buyerKey o.2 = true

/-- **Only the parties change the deal**: between the states before and after the message. -/
structure AuthorityKept (st st' : MarketState) (o : MarketObject) : Prop where
  listings : ListingsKept (Authorised C st o) st.mapListings st'.mapListings
  deals : DealsKept (Authorised C st o) st.mapBuyRequests st'.mapBuyRequests
  created : o.1 ≠ .buyRequest → NoneCreated st.mapBuyRequests st'.mapBuyRequests

/-! ## §3. When a message is from the parties. -/

def OurRequest (requestId : UInt256) (r : CBuyRequest) : Prop :=
  st.mapBuyRequests[requestId]? = some r ∧ MarketState.mineRequest C.toHashes env r = true

def OurListing (listingId : UInt256) (l : CSignedMarketListing) : Prop :=
  st.mapListings[listingId]? = some l ∧ MarketState.mineListing C.toHashes env l = true

/-- The seller of a known listing has signed the message. -/
def SellerSigned (h : UInt256) : Prop :=
  ∃ l, st.mapListings[h]? = some l ∧ signedBy C l.listing.sellerKey o.2 = true

/-- A message on a buy request and on a listing: the request is known, its buyer has signed
the message if that changes the request, and the request is for the listing if that is ours
and has another status. -/
def BuyerSigned (listingId : UInt256) (nStatus : BUY_STATUS) (changes : CBuyRequest → Prop) :
    Prop :=
  ∃ r, st.mapBuyRequests[requestNamed o.1 o.2]? = some r ∧
    (changes r → signedBy C r.buyerKey o.2 = true) ∧
    ∀ l, OurListing C env st listingId l → l.listing.nStatus ≠ nStatus.toInt →
      r.listingId = listingId ∧ signedBy C r.buyerKey o.2 = true

/-- **When only the parties change the deal.**  What a message would change, it finds as it
wants it, or the key of the party whose listing or request it is verifies its signature. -/
def PartiesOnly : MarketObject → Prop
  | ⟨.listing, _⟩ => True
  | ⟨.buyRequest, _⟩ => True
  | ⟨.cancelListing, c⟩ =>
    ∀ l, st.mapListings[c.listingId]? = some l →
      SellerSigned C st ⟨.cancelListing, c⟩ c.listingId
  | ⟨.buyAccept, a⟩ =>
    ∀ r, OurRequest C env st a.buyRequestId r →
      ¬(r.nStatus = BUY_STATUS.BUY_ACCEPTED.toInt ∧ r.escrowAddress = a.escrowAddress ∧
        r.sellerEscrowLockTxHash = a.sellerEscrowLockTxHash) →
      SellerSigned C st ⟨.buyAccept, a⟩ r.listingId
  | ⟨.buyReject, j⟩ =>
    ∀ r, OurRequest C env st j.buyRequestId r → r.nStatus ≠ BUY_STATUS.BUY_REJECTED.toInt →
      SellerSigned C st ⟨.buyReject, j⟩ r.listingId
  | ⟨.paymentRequest, p⟩ =>
    ∀ r, OurRequest C env st p.requestId r →
      ¬(r.nStatus = BUY_STATUS.PAYMENT_REQUESTED.toInt ∧ r.rawTx = p.rawTx) →
      SellerSigned C st ⟨.paymentRequest, p⟩ r.listingId
  | ⟨.deliveryDetails, d⟩ =>
    ∀ l, OurListing C env st d.listingId l →
      l.listing.nStatus ≠ BUY_STATUS.DELIVERY_DETAILS.toInt →
      ∃ r, st.mapBuyRequests[d.buyRequestId]? = some r ∧ r.listingId = d.listingId ∧
        signedBy C r.buyerKey (k := .deliveryDetails) d = true
  | ⟨.refundRequest, f⟩ =>
    BuyerSigned C env st ⟨.refundRequest, f⟩ f.listingId .REFUND_REQUESTED fun r =>
      ¬(r.nStatus = BUY_STATUS.REFUND_REQUESTED.toInt ∧ r.rawTx = f.rawTx)
  | ⟨.escrowPayment, p⟩ =>
    BuyerSigned C env st ⟨.escrowPayment, p⟩ p.listingId .ESCROW_PAID fun r =>
      ¬(r.nStatus = BUY_STATUS.ESCROW_PAID.toInt ∧ r.rawTx = p.rawTx)
  | ⟨.escrowRelease, e⟩ =>
    ∃ r, st.mapBuyRequests[e.requestId]? = some r ∧
      (r.buyerEscrowLockTxHash ≠ e.buyerEscrowLockTxHash →
        signedBy C r.buyerKey (k := .escrowRelease) e = true) ∧
      (st.mapListings.contains r.listingId = true →
        MarketState.mineListing C.toHashes env
          ((st.mapListings[e.listingId]?).getD (MarketState.freshListing env)) = true →
        (r.nStatus ≠ BUY_STATUS.ESCROW_LOCK.toInt →
          signedBy C r.buyerKey (k := .escrowRelease) e = true) ∧
        ∀ l, st.mapListings[e.listingId]? = some l →
          l.listing.nStatus ≠ BUY_STATUS.ESCROW_LOCK.toInt →
          r.listingId = e.listingId ∧ signedBy C r.buyerKey (k := .escrowRelease) e = true)

open MarketState

section Steps

variable {C env} {st st0 : MarketState} {o : MarketObject}

/-- The maps of `st0`, where the object of the message is kept, are those of `st`. -/
structure SameDeals (st st0 : MarketState) : Prop where
  listings : st0.mapListings = st.mapListings
  requests : st0.mapBuyRequests = st.mapBuyRequests

theorem sameDeals_keep (st : MarketState) {k : Kind} (o : k.Obj) (hl : .listing ≠ k)
    (hr : .buyRequest ≠ k) : SameDeals st (st.keep C.toHashes k o) where
  listings := keep_mapListings C.toHashes st o hl
  requests := keep_mapBuyRequests C.toHashes st o hr

theorem authorityKept_same (h : SameDeals st st0) : AuthorityKept C st st0 o where
  listings := by
    rw [h.listings]
    exact listingsKept_self _
  deals := by
    rw [h.requests]
    exact dealsKept_self _
  created _ := by
    rw [h.requests]
    exact noneCreated_self _

theorem authorityKept_tellBuyer_iff (h : SameDeals st st0) (id : UInt256)
    (f : CBuyRequest → CBuyRequest) :
    AuthorityKept C st (tellBuyer C.toHashes env st0 id f).1 o ↔
      ∀ r, OurRequest C env st id r → (f r).deal ≠ r.deal → Authorised C st o r.listingId := by
  obtain ⟨r, hr, hmine, htold⟩ | ⟨hnot, htold⟩ := tellBuyer_cases C.toHashes env st0 id f
  · rw [htold]
    rw [h.requests] at hr
    have hlistings : ((st0.editRequest env id f).write .buyRequest).mapListings =
        st.mapListings :=
      (editRequest_maps_ne env st0 id f (by decide)).trans h.listings
    have hrequests : ((st0.editRequest env id f).write .buyRequest).mapBuyRequests =
        StdMap.updateAt st.mapBuyRequests id (freshRequest env) f := by
      rw [← h.requests]
      exact editRequest_mapBuyRequests env st0 id f
    constructor
    · intro hkept r' hr' hne
      have hdeals := hkept.deals
      rw [hrequests, dealsKept_updateAt] at hdeals
      exact hdeals r' hr'.1 hne
    · intro hcond
      refine ⟨?_, ?_, ?_⟩
      · rw [hlistings]
        exact listingsKept_self _
      · rw [hrequests, dealsKept_updateAt]
        intro r' hr' hne
        obtain rfl : r = r' := Option.some.inj (hr.symm.trans hr')
        exact hcond r ⟨hr, hmine⟩ hne
      · intro _
        rw [hrequests, noneCreated_updateAt]
        exact ⟨r, hr⟩
  · rw [htold]
    constructor
    · intro _ r hr _
      have hfalse := hnot r (by rw [h.requests]; exact hr.1)
      rw [hr.2] at hfalse
      cases hfalse
    · intro _
      exact authorityKept_same h

variable (C env) in
theorem listingsKept_tellSeller_iff (auth : UInt256 → Prop)
    (hl : st0.mapListings = st.mapListings) (id : UInt256) (nStatus : BUY_STATUS) (other : Bool) :
    ListingsKept auth st.mapListings
        (tellSeller C.toHashes env st0 id nStatus other).1.mapListings ↔
      ∀ l, OurListing C env st id l → l.listing.nStatus ≠ nStatus.toInt → auth id := by
  obtain ⟨l, hl0, hmine, htold⟩ | ⟨hnot, htold⟩ :=
    tellSeller_cases C.toHashes env st0 id nStatus other
  · have hlistings : ((st0.editListing env id (setStatus nStatus)).write .listing).mapListings =
        StdMap.updateAt st.mapListings id (freshListing env) (setStatus nStatus) := by
      rw [← hl]
      exact editListing_mapListings env st0 id (setStatus nStatus)
    rw [hl] at hl0
    rw [htold, hlistings, listingsKept_updateAt]
    constructor
    · intro h l' hl' hne
      exact h l' hl'.1 (setStatus_ne_iff.mpr hne)
    · intro h l' hl' hne
      obtain rfl : l = l' := Option.some.inj (hl0.symm.trans hl')
      exact h l ⟨hl0, hmine⟩ (setStatus_ne_iff.mp hne)
  · rw [htold, hl]
    constructor
    · intro _ l hl' _
      have hfalse := hnot l (by rw [hl]; exact hl'.1)
      rw [hl'.2] at hfalse
      cases hfalse
    · intro _
      exact listingsKept_self _

variable (C env st0) in
theorem tellSeller_mapBuyRequests (id : UInt256) (nStatus : BUY_STATUS) (other : Bool) :
    (tellSeller C.toHashes env st0 id nStatus other).1.mapBuyRequests = st0.mapBuyRequests := by
  obtain ⟨l, -, -, htold⟩ | ⟨-, htold⟩ := tellSeller_cases C.toHashes env st0 id nStatus other
  · rw [htold]
    exact editListing_maps_ne env st0 id (setStatus nStatus)
      (show Kind.buyRequest ≠ .listing by decide)
  · rw [htold]

theorem authorityKept_editThenTell_iff (st1 : MarketState) (hk : o.1 ≠ .buyRequest)
    (requestId : UInt256) (f : CBuyRequest → CBuyRequest)
    (hl : st1.mapListings = st.mapListings)
    (hr : st1.mapBuyRequests =
      StdMap.updateAt st.mapBuyRequests requestId (freshRequest env) f)
    (listingId : UInt256) (nStatus : BUY_STATUS) (other : Bool) :
    AuthorityKept C st (tellSeller C.toHashes env st1 listingId nStatus other).1 o ↔
      ∃ r, st.mapBuyRequests[requestId]? = some r ∧
        ((f r).deal ≠ r.deal → Authorised C st o r.listingId) ∧
        ∀ l, OurListing C env st listingId l → l.listing.nStatus ≠ nStatus.toInt →
          Authorised C st o listingId := by
  have hrequests := (tellSeller_mapBuyRequests C env st1 listingId nStatus other).trans hr
  have hlistings := listingsKept_tellSeller_iff C env (Authorised C st o) hl listingId nStatus other
  constructor
  · intro hkept
    have hcreated := hkept.created hk
    have hdeals := hkept.deals
    rw [hrequests, noneCreated_updateAt] at hcreated
    rw [hrequests, dealsKept_updateAt] at hdeals
    obtain ⟨r, hr0⟩ := hcreated
    exact ⟨r, hr0, hdeals r hr0, hlistings.mp hkept.listings⟩
  · intro ⟨r, hr0, hdeal, hlisting⟩
    refine ⟨hlistings.mpr hlisting, ?_, fun _ => ?_⟩
    · rw [hrequests, dealsKept_updateAt]
      intro r' hr' hne
      obtain rfl : r = r' := Option.some.inj (hr0.symm.trans hr')
      exact hdeal hne
    · rw [hrequests, noneCreated_updateAt]
      exact ⟨r, hr0⟩

end Steps

/-! ## §4. Kind by kind. -/

variable {C env} {st : MarketState}

theorem authorityKept_listing (l : CSignedMarketListing) :
    AuthorityKept C st (receiveListing C.toHashes l st) ⟨.listing, l⟩ := by
  cases hknown : st.mapListings.contains (getHash C.toHashes (k := .listing) l) with
  | true =>
    rw [receiveListing_of_known C.toHashes (.inl hknown)]
    exact authorityKept_same ⟨rfl, rfl⟩
  | false =>
    cases hcancelled : st.cancelled (getHash C.toHashes (k := .listing) l) with
    | true =>
      rw [receiveListing_of_known C.toHashes (.inr hcancelled)]
      exact authorityKept_same ⟨rfl, rfl⟩
    | false =>
      rw [receiveListing_of_new C.toHashes hknown hcancelled]
      have hnone := contains_eq_false_iff.mp hknown
      refine ⟨?_, dealsKept_self _, fun _ => noneCreated_self _⟩
      -- the entry is new, so no listing is changed
      intro h l' hl' hne
      exfalso
      apply hne
      show (st.mapListings.insert _ l)[h]? = _
      rw [get_insert_ne]
      · exact hl'
      · intro heq
        rw [← heq, hnone] at hl'
        cases hl'

theorem authorityKept_buyRequest (r : CBuyRequest) :
    AuthorityKept C st (receiveBuyRequest C.toHashes env r st).1 ⟨.buyRequest, r⟩ := by
  rw [receiveBuyRequest_fst]
  by_cases hknown : st.mapBuyRequests.contains r.requestId = true
  · rw [if_pos hknown]
    exact authorityKept_same ⟨rfl, rfl⟩
  rw [if_neg hknown]
  have hnone := contains_eq_false_iff.mp (Bool.eq_false_iff.mpr hknown)
  refine ⟨listingsKept_self _, ?_, fun h => absurd rfl h⟩
  intro id r' hr' hne
  exfalso
  apply hne
  show ((st.mapBuyRequests.insert r.requestId r)[id]?).map CBuyRequest.deal = _
  rw [get_insert_ne]
  · rw [hr']
    rfl
  · intro heq
    rw [← heq, hnone] at hr'
    cases hr'

theorem authorityKept_cancelListing_iff (c : CCancelListing) :
    AuthorityKept C st (receiveCancelListing C.toHashes c st) ⟨.cancelListing, c⟩ ↔
      PartiesOnly C env st ⟨.cancelListing, c⟩ := by
  have hlistings := receiveCancelListing_mapListings C.toHashes c st
  have hrequests : (receiveCancelListing C.toHashes c st).mapBuyRequests = st.mapBuyRequests :=
    receiveCancelListing_maps_ne C.toHashes c st (by decide) (by decide)
  constructor
  · intro hkept
    have hkept := hkept.listings
    rw [hlistings, listingsKept_erase] at hkept
    exact hkept
  · intro hcond
    refine ⟨?_, ?_, fun _ => ?_⟩
    · rw [hlistings, listingsKept_erase]
      exact hcond
    · rw [hrequests]
      exact dealsKept_self _
    · rw [hrequests]
      exact noneCreated_self _

theorem authorityKept_ofSeller_iff {k : Kind} (o : k.Obj) (hl : .listing ≠ k)
    (hr : .buyRequest ≠ k) (id : UInt256) (edit : CBuyRequest → CBuyRequest)
    {changes : CBuyRequest → Prop} (hchanges : ∀ r, (edit r).deal ≠ r.deal ↔ changes r) :
    AuthorityKept C st (tellBuyer C.toHashes env (st.keep C.toHashes k o) id edit).1 ⟨k, o⟩ ↔
      ∀ r, OurRequest C env st id r → changes r → Authorised C st ⟨k, o⟩ r.listingId := by
  rw [authorityKept_tellBuyer_iff (sameDeals_keep st o hl hr)]
  exact forall₂_congr fun r _ => imp_congr (hchanges r) Iff.rfl

theorem authorityKept_buyAccept_iff (a : CBuyAccept) :
    AuthorityKept C st (receiveBuyAccept C.toHashes env a st).1 ⟨.buyAccept, a⟩ ↔
      PartiesOnly C env st ⟨.buyAccept, a⟩ := by
  refine authorityKept_ofSeller_iff (k := .buyAccept) a (by decide) (by decide) a.buyRequestId
    (fun r => { r with
      escrowAddress := a.escrowAddress
      sellerEscrowLockTxHash := a.sellerEscrowLockTxHash
      nStatus := BUY_STATUS.BUY_ACCEPTED.toInt }) fun r => ?_
  simp only [CBuyRequest.deal, ne_eq, Prod.mk.injEq, true_and]
  grind

theorem authorityKept_buyReject_iff (j : CBuyReject) :
    AuthorityKept C st (receiveBuyReject C.toHashes env j st).1 ⟨.buyReject, j⟩ ↔
      PartiesOnly C env st ⟨.buyReject, j⟩ := by
  refine authorityKept_ofSeller_iff (k := .buyReject) j (by decide) (by decide) j.buyRequestId
    (fun r => { r with nStatus := BUY_STATUS.BUY_REJECTED.toInt }) fun r => ?_
  simp only [CBuyRequest.deal, ne_eq, Prod.mk.injEq, and_true]
  grind

theorem authorityKept_paymentRequest_iff (p : CPaymentRequest) :
    AuthorityKept C st (receivePaymentRequest C.toHashes env p st).1 ⟨.paymentRequest, p⟩ ↔
      PartiesOnly C env st ⟨.paymentRequest, p⟩ := by
  refine authorityKept_ofSeller_iff (k := .paymentRequest) p (by decide) (by decide) p.requestId
    (fun r => { r with rawTx := p.rawTx, nStatus := BUY_STATUS.PAYMENT_REQUESTED.toInt })
    fun r => ?_
  simp only [CBuyRequest.deal, ne_eq, Prod.mk.injEq, and_true]
  grind

theorem authorityKept_deliveryDetails_iff (d : CDeliveryDetails) :
    AuthorityKept C st (receiveDeliveryDetails C.toHashes env d st).1 ⟨.deliveryDetails, d⟩ ↔
      PartiesOnly C env st ⟨.deliveryDetails, d⟩ := by
  have hsame : SameDeals st (st.keep C.toHashes .deliveryDetails d) :=
    sameDeals_keep st (k := .deliveryDetails) d (by decide) (by decide)
  have hlistings := listingsKept_tellSeller_iff C env (Authorised C st ⟨.deliveryDetails, d⟩)
    hsame.listings d.listingId .DELIVERY_DETAILS env.noReturn
  have hrequests := (tellSeller_mapBuyRequests C env (st.keep C.toHashes .deliveryDetails d)
    d.listingId .DELIVERY_DETAILS env.noReturn).trans hsame.requests
  constructor
  · intro hkept
    exact hlistings.mp hkept.listings
  · intro hcond
    refine ⟨hlistings.mpr hcond, ?_, fun _ => ?_⟩
    · show DealsKept _ _ (tellSeller C.toHashes env _ _ _ _).1.mapBuyRequests
      rw [hrequests]
      exact dealsKept_self _
    · show NoneCreated _ (tellSeller C.toHashes env _ _ _ _).1.mapBuyRequests
      rw [hrequests]
      exact noneCreated_self _

theorem buyerSigned_iff {o : MarketObject} {requestId listingId : UInt256} {nStatus : BUY_STATUS}
    {changes changes' : CBuyRequest → Prop} (hchanges : ∀ r, changes r ↔ changes' r)
    (hid : requestNamed o.1 o.2 = requestId)
    (hauth : ∀ h, Authorised C st o h ↔ ∃ r, st.mapBuyRequests[requestId]? = some r ∧
      r.listingId = h ∧ signedBy C r.buyerKey o.2 = true) :
    (∃ r, st.mapBuyRequests[requestId]? = some r ∧
        (changes r → Authorised C st o r.listingId) ∧
        ∀ l, OurListing C env st listingId l → l.listing.nStatus ≠ nStatus.toInt →
          Authorised C st o listingId) ↔
      BuyerSigned C env st o listingId nStatus changes' := by
  have hnamed : ∀ (h : UInt256) (r : CBuyRequest), st.mapBuyRequests[requestId]? = some r →
      (Authorised C st o h ↔ r.listingId = h ∧ signedBy C r.buyerKey o.2 = true) := by
    intro h r hr
    rw [hauth]
    constructor
    · intro ⟨r', hr', hsigned⟩
      obtain rfl : r = r' := Option.some.inj (hr.symm.trans hr')
      exact hsigned
    · intro hsigned
      exact ⟨r, hr, hsigned⟩
  subst hid
  constructor
  · intro ⟨r, hr, hdeal, hlisting⟩
    refine ⟨r, hr, fun hch => ?_, fun l hl hne => ?_⟩
    · exact ((hnamed _ r hr).mp (hdeal ((hchanges r).mpr hch))).2
    · exact (hnamed _ r hr).mp (hlisting l hl hne)
  · intro ⟨r, hr, hdeal, hlisting⟩
    refine ⟨r, hr, fun hch => ?_, fun l hl hne => ?_⟩
    · exact (hnamed _ r hr).mpr ⟨rfl, hdeal ((hchanges r).mp hch)⟩
    · exact (hnamed _ r hr).mpr (hlisting l hl hne)

theorem authorityKept_ofBuyer_iff {k : Kind} (o : k.Obj) (hl : .listing ≠ k)
    (hr : .buyRequest ≠ k) (edit : CBuyRequest → CBuyRequest) (listingId : UInt256)
    (nStatus : BUY_STATUS) (other : Bool) {changes : CBuyRequest → Prop}
    (hchanges : ∀ r, (edit r).deal ≠ r.deal ↔ changes r)
    (hauth : ∀ h, Authorised C st ⟨k, o⟩ h ↔
      ∃ r, st.mapBuyRequests[requestNamed k o]? = some r ∧ r.listingId = h ∧
        signedBy C r.buyerKey o = true) :
    AuthorityKept C st (tellSeller C.toHashes env (((st.keep C.toHashes k o).editRequest env
        (requestNamed k o) edit).write .buyRequest) listingId nStatus other).1 ⟨k, o⟩ ↔
      BuyerSigned C env st ⟨k, o⟩ listingId nStatus changes := by
  have hsame : SameDeals st (st.keep C.toHashes k o) := sameDeals_keep st o hl hr
  have hlistings := (editRequest_maps_ne env (st.keep C.toHashes k o) (requestNamed k o) edit
    (show Kind.listing ≠ .buyRequest by decide)).trans hsame.listings
  have hrequests := editRequest_mapBuyRequests env (st.keep C.toHashes k o) (requestNamed k o) edit
  rw [hsame.requests] at hrequests
  have htell := authorityKept_editThenTell_iff (C := C) (o := ⟨k, o⟩)
    (((st.keep C.toHashes k o).editRequest env (requestNamed k o) edit).write .buyRequest)
    (Ne.symm hr) (requestNamed k o) edit hlistings hrequests listingId nStatus other
  exact htell.trans (buyerSigned_iff hchanges rfl hauth)

theorem authorityKept_refundRequest_iff (f : CRefundRequest) :
    AuthorityKept C st (receiveRefundRequest C.toHashes env f st).1 ⟨.refundRequest, f⟩ ↔
      PartiesOnly C env st ⟨.refundRequest, f⟩ := by
  refine authorityKept_ofBuyer_iff (k := .refundRequest) f (by decide) (by decide) (fun r =>
    { r with nStatus := BUY_STATUS.REFUND_REQUESTED.toInt, rawTx := f.rawTx }) f.listingId
    .REFUND_REQUESTED false (fun r => ?_) fun h => Iff.rfl
  simp only [CBuyRequest.deal, ne_eq, Prod.mk.injEq, and_true]
  grind

theorem authorityKept_escrowPayment_iff (p : CEscrowPayment) :
    AuthorityKept C st (receiveEscrowPayment C.toHashes env p st).1 ⟨.escrowPayment, p⟩ ↔
      PartiesOnly C env st ⟨.escrowPayment, p⟩ := by
  refine authorityKept_ofBuyer_iff (k := .escrowPayment) p (by decide) (by decide) (fun r =>
    { r with rawTx := p.rawTx, nStatus := BUY_STATUS.ESCROW_PAID.toInt }) p.listingId
    .ESCROW_PAID env.noReturn (fun r => ?_) fun h => Iff.rfl
  simp only [CBuyRequest.deal, ne_eq, Prod.mk.injEq, and_true]
  grind

theorem authorityKept_escrowRelease_iff (e : CEscrowRelease) :
    AuthorityKept C st (receiveEscrowRelease C.toHashes env e st).1 ⟨.escrowRelease, e⟩ ↔
      PartiesOnly C env st ⟨.escrowRelease, e⟩ := by
  obtain ⟨hlistings, hrequests⟩ := receiveEscrowRelease_maps C.toHashes env e st
  -- once the request is known, its buyer is the party
  have hauth : ∀ (h : UInt256) (r : CBuyRequest), st.mapBuyRequests[e.requestId]? = some r →
      (Authorised C st ⟨.escrowRelease, e⟩ h ↔
        r.listingId = h ∧ signedBy C r.buyerKey (k := .escrowRelease) e = true) := by
    intro h r hr
    constructor
    · intro ⟨r', hr', hsigned⟩
      obtain rfl : r = r' := Option.some.inj (hr.symm.trans hr')
      exact hsigned
    · intro hsigned
      exact ⟨r, hr, hsigned⟩
  have hreleased : ∀ r, st.mapBuyRequests[e.requestId]? = some r → released env e st = r := by
    intro r hr
    rw [released, hr]
    rfl
  constructor
  · intro hkept
    have hl := hkept.listings
    have hd := hkept.deals
    have hc := hkept.created (by simp)
    rw [hrequests] at hd hc
    rw [dealsKept_updateAt] at hd
    rw [noneCreated_updateAt] at hc
    obtain ⟨r, hr⟩ := hc
    have hd := hd r hr
    rw [hauth _ r hr] at hd
    rw [hlistings, hreleased r hr] at hl
    rw [hreleased r hr] at hd
    refine ⟨r, hr, fun hne => (hd ?_).2, fun hknown hmine => ⟨fun hne => (hd ?_).2, ?_⟩⟩
    · intro heq
      exact hne (Prod.mk.inj (Prod.mk.inj (Prod.mk.inj (Prod.mk.inj heq).2).2).2).1.symm
    · intro heq
      rw [hknown, hmine] at heq
      exact hne (Prod.mk.inj heq).1.symm
    · intro l hentry hne
      rw [if_pos hknown, listingsKept_updateAt] at hl
      refine (hauth _ r hr).mp (hl l hentry ?_)
      rw [if_pos hmine]
      exact setStatus_ne_iff.mpr hne
  · intro ⟨r, hr, hlock, hstatus⟩
    refine ⟨?_, ?_, fun _ => ?_⟩
    · rw [hlistings, hreleased r hr]
      by_cases hknown : st.mapListings.contains r.listingId = true
      · rw [if_pos hknown, listingsKept_updateAt]
        intro l hentry hne
        by_cases hmine : mineListing C.toHashes env
            ((st.mapListings[e.listingId]?).getD (freshListing env)) = true
        · rw [if_pos hmine] at hne
          exact (hauth _ r hr).mpr ((hstatus hknown hmine).2 l hentry (setStatus_ne_iff.mp hne))
        · rw [if_neg hmine] at hne
          exact absurd rfl hne
      · rw [if_neg hknown]
        exact listingsKept_self _
    · rw [hrequests, dealsKept_updateAt, hreleased r hr]
      intro r' hr' hne
      obtain rfl : r = r' := Option.some.inj (hr.symm.trans hr')
      refine (hauth _ r hr).mpr ⟨rfl, ?_⟩
      by_cases hlocked : r.buyerEscrowLockTxHash = e.buyerEscrowLockTxHash
      · by_cases hboth : (st.mapListings.contains r.listingId &&
            mineListing C.toHashes env ((st.mapListings[e.listingId]?).getD (freshListing env))) =
              true
        · have hpair := Bool.and_eq_true_iff.mp hboth
          refine (hstatus hpair.1 hpair.2).1 fun heq => hne ?_
          unfold CBuyRequest.deal
          rw [if_pos hboth, heq, hlocked]
        · refine absurd ?_ hne
          unfold CBuyRequest.deal
          rw [if_neg hboth, hlocked]
      · exact hlock hlocked
    · rw [hrequests, noneCreated_updateAt]
      exact ⟨r, hr⟩

/-- **A message keeps to the authority of the parties exactly if it is from them.** -/
theorem authorityKept_receive_iff (st : MarketState) (o : MarketObject) :
    AuthorityKept C st (receive C.toHashes env o.1 o.2 st).1 o ↔ PartiesOnly C env st o := by
  obtain ⟨k, o⟩ := o
  cases k with
  | listing => exact iff_of_true (authorityKept_listing o) trivial
  | buyRequest => exact iff_of_true (authorityKept_buyRequest o) trivial
  | buyAccept => exact authorityKept_buyAccept_iff o
  | buyReject => exact authorityKept_buyReject_iff o
  | cancelListing => exact authorityKept_cancelListing_iff o
  | deliveryDetails => exact authorityKept_deliveryDetails_iff o
  | refundRequest => exact authorityKept_refundRequest_iff o
  | escrowRelease => exact authorityKept_escrowRelease_iff o
  | escrowPayment => exact authorityKept_escrowPayment_iff o
  | paymentRequest => exact authorityKept_paymentRequest_iff o

/-! ## §5. Runs. -/

variable (C) in
/-- What is accepted of a message keeps to the authority of the parties. -/
def MessageKept (st : MarketState) : MarketEvent → Prop
  | .message mem env strCommand vRecv =>
    ∀ o, accepted C mem strCommand vRecv = some o →
      AuthorityKept C st (marketProcessMessage C mem env strCommand vRecv st).1 o
  | .own _ _ => True

variable (C) in
def MessageFromParties (st : MarketState) : MarketEvent → Prop
  | .message mem env strCommand vRecv =>
    ∀ o, accepted C mem strCommand vRecv = some o → PartiesOnly C env st o
  | .own _ _ => True

theorem messageKept_iff (st : MarketState) (e : MarketEvent) :
    MessageKept C st e ↔ MessageFromParties C st e := by
  cases e with
  | own env o => exact Iff.rfl
  | message mem env strCommand vRecv =>
    refine forall₂_congr fun o ho => ?_
    rw [marketProcessMessage_fst, ho]
    exact authorityKept_receive_iff st o

theorem not_kept_of_stranger {mem : Memory} {strCommand : String} {vRecv : List UInt8}
    {c : CCancelListing} {l : CSignedMarketListing}
    (haccepted : accepted C mem strCommand vRecv = some ⟨.cancelListing, c⟩)
    (hl : st.mapListings[c.listingId]? = some l)
    (hsigned : signedBy C l.listing.sellerKey (k := .cancelListing) c = false) :
    ¬ MessageKept C st (.message mem env strCommand vRecv) := by
  intro hkept
  obtain ⟨l', hl', hsigned'⟩ := (messageKept_iff st _).mp hkept _ haccepted l hl
  obtain rfl : l = l' := Option.some.inj (hl.symm.trans hl')
  rw [show signedBy C l.listing.sellerKey (k := .cancelListing) c = true from hsigned'] at hsigned
  cases hsigned

/-- **Only the parties change a market deal**, over every run of messages and of objects of
the node's own, exactly if each message is from the parties in the state that it meets. -/
theorem authority_kept_iff (C : MarketCrypto) (evs : List MarketEvent) :
    Along (marketStep C) (MessageKept C) .empty evs ↔
      Along (marketStep C) (MessageFromParties C) .empty evs := by
  simp only [along_iff, messageKept_iff]

def foreignCancel : CCancelListing :=
  let listingId := getHash sampleHashes (k := .listing) signedListing
  ⟨1, listingId, samplePubKey 2, 1500, sampleSig 2 listingId⟩

/-- The listing of a seller goes, on the word of somebody else. -/
theorem listing_cancelled_by_stranger :
    ¬ Along (marketStep sampleMarketCrypto) (MessageKept sampleMarketCrypto) .empty
      [messageEvent ⟨.listing, signedListing⟩, messageEvent ⟨.cancelListing, foreignCancel⟩] := by
  intro ⟨_, hcancel, _⟩
  have haccepted : accepted sampleMarketCrypto sampleMemory "mktcan"
      (Kind.cancelListing.codec.write foreignCancel) = some ⟨.cancelListing, foreignCancel⟩ := by
    decide +kernel
  have hbefore : (marketStep sampleMarketCrypto .empty (messageEvent
      ⟨.listing, signedListing⟩)).mapListings[foreignCancel.listingId]? = some signedListing := by
    decide +kernel
  exact not_kept_of_stranger haccepted hbefore (by decide +kernel) hcancel

end Fantom.Market
