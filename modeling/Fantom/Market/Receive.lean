/-
  Fantom.Market.Receive — The state of a market node, its database, and what each message does to
  them.

  * `receiveListing`, `receiveCancelListing`, … — the ten `Receive` functions,
  * `marketProcessMessage` — a message of a peer.

  An object is kept under its hash, and a buy request under its `requestId`.
-/
import Fantom.Market.Objects

namespace Fantom.Market

open Core Lib Function StdMap

/-! ## §1. The state. -/

/-- What a `Receive` function finds outside the market: the keys of the wallet, the time,
what the `nStatus` of a new `CBuyRequest` happens to hold, and what a function gives that
ends without `return`. -/
structure MarketEnv where
  isMine : UInt160 → Bool
  time : Int64
  nStatus : Int32
  noReturn : Bool

/-- `mapListings`, `mapBuyRequests`, `mapBuyAccepts`, …, one of each kind; the sets of
`mapListingsByCategory`, which are ordered by the hash of the inner listing, as maps from
it; and the database. -/
structure MarketState where
  maps : (k : Kind) → StdMap UInt256 k.Obj
  mapListingsByCategory : StdMap StdString (StdMap UInt256 CSignedMarketListing)
  marketDB : StdMap (List UInt8) (List UInt8)

namespace MarketState

abbrev mapListings (st : MarketState) : StdMap UInt256 CSignedMarketListing := st.maps .listing

abbrev mapBuyRequests (st : MarketState) : StdMap UInt256 CBuyRequest := st.maps .buyRequest

/-- The node before its first message, with an empty database. -/
def empty : MarketState where
  maps _ := ∅
  mapListingsByCategory := ∅
  marketDB := ∅

def setMap (st : MarketState) (k : Kind) (m : StdMap UInt256 k.Obj) : MarketState :=
  { st with maps := update st.maps k m }

end MarketState

/-- The two letters under which a map is in the database. -/
def Kind.dbKey : Kind → List UInt8
  | listing => [109, 108]
  | buyRequest => [98, 114]
  | buyAccept => [98, 97]
  | buyReject => [98, 114]
  | cancelListing => [99, 108]
  | deliveryDetails => [100, 100]
  | refundRequest => [114, 114]
  | escrowRelease => [101, 114]
  | escrowPayment => [101, 112]
  | paymentRequest => [112, 114]

/-- `ReadCompactSize`, `WriteCompactSize`. -/
def compactSize : Codec.Size Memory UInt8 where
  toCodec := .ofFormat format_compactSize
  bound := MAX_SIZE
  ok_iff _ := Iff.rfl
  norm_eq _ := rfl

def mapBytes (k : Kind) (m : StdMap UInt256 k.Obj) : List UInt8 :=
  Codec.writeMap compactSize (uint256.seq k.codec) m

namespace MarketState

/-- `WriteListings(mapListings)`, `WriteBuyRequests(mapBuyRequests)`, … -/
def write (st : MarketState) (k : Kind) : MarketState :=
  { st with marketDB := st.marketDB.insert k.dbKey (mapBytes k (st.maps k)) }

@[simp] theorem setMap_maps_self (st : MarketState) (k : Kind) (m : StdMap UInt256 k.Obj) :
    (st.setMap k m).maps k = m := by
  unfold setMap
  exact update_self ..

variable {k : Kind} {st : MarketState}

theorem setMap_maps_ne (st : MarketState) {k' : Kind} (m : StdMap UInt256 k.Obj) (h : k' ≠ k) :
    (st.setMap k m).maps k' = st.maps k' := by
  unfold setMap
  exact update_of_ne h ..

@[simp] theorem setMap_byCategory (st : MarketState) (k : Kind) (m : StdMap UInt256 k.Obj) :
    (st.setMap k m).mapListingsByCategory = st.mapListingsByCategory := rfl

@[simp] theorem setMap_marketDB (st : MarketState) (k : Kind) (m : StdMap UInt256 k.Obj) :
    (st.setMap k m).marketDB = st.marketDB := rfl

@[simp] theorem write_maps (st : MarketState) (k : Kind) : (st.write k).maps = st.maps := rfl

@[simp] theorem write_byCategory (st : MarketState) (k : Kind) :
    (st.write k).mapListingsByCategory = st.mapListingsByCategory := rfl

variable (H : Hashes) (env : MarketEnv)

/-- What most `Receive` functions begin with: an object that is not there yet is kept under
its hash, and its map is written. -/
def keep (st : MarketState) (k : Kind) (o : k.Obj) : MarketState :=
  if (st.maps k).contains (getHash H o) then st
  else (st.setMap k ((st.maps k).insert (getHash H o) o)).write k

theorem keep_maps_self (st : MarketState) (k : Kind) (o : k.Obj) :
    (st.keep H k o).maps k = StdMap.insertNew (st.maps k) (getHash H o) o := by
  unfold keep StdMap.insertNew
  split
  · rfl
  · simp

theorem keep_maps_ne (st : MarketState) {k' : Kind} (o : k.Obj) (h : k' ≠ k) :
    (st.keep H k o).maps k' = st.maps k' := by
  unfold keep
  split
  · rfl
  · exact setMap_maps_ne st _ h

@[simp] theorem keep_byCategory (st : MarketState) (k : Kind) (o : k.Obj) :
    (st.keep H k o).mapListingsByCategory = st.mapListingsByCategory := by
  unfold keep
  split
  · rfl
  · rfl

/-- `CBuyRequest()` -/
def freshRequest : CBuyRequest where
  nVersion := 0
  listingId := 0
  nStatus := env.nStatus
  buyerKey := .invalid
  nDate := env.time
  requestId := 0
  vchSig := []
  buyerEscrowLockTxHash := 0
  sellerEscrowLockTxHash := 0
  rawTx := []
  escrowAddress := []

/-- `CSignedMarketListing()` -/
def freshListing : CSignedMarketListing where
  nVersion := 0
  listing :=
    { nVersion := 0, sCategory := [], sTitle := [], sDescription := [], sImageOneUrl := []
      sImageTwoUrl := [], nPrice := 0, nCreated := env.time, sellerKey := .invalid
      nStatus := BUY_STATUS.LISTED.toInt }
  vchListingSig := []

/-- `f(mapBuyRequests[requestId])` -/
def editRequest (st : MarketState) (requestId : UInt256) (f : CBuyRequest → CBuyRequest) :
    MarketState :=
  st.setMap .buyRequest (StdMap.updateAt st.mapBuyRequests requestId (freshRequest env) f)

/-- `f(mapListings[listingId])` -/
def editListing (st : MarketState) (listingId : UInt256)
    (f : CSignedMarketListing → CSignedMarketListing) : MarketState :=
  st.setMap .listing (StdMap.updateAt st.mapListings listingId (freshListing env) f)

/-- `….listing.nStatus = nStatus` -/
def setStatus (nStatus : BUY_STATUS) (l : CSignedMarketListing) : CSignedMarketListing :=
  { l with listing := { l.listing with nStatus := nStatus } }

theorem setStatus_ne_iff {nStatus : BUY_STATUS} {l : CSignedMarketListing} :
    setStatus nStatus l ≠ l ↔ l.listing.nStatus ≠ nStatus.toInt := by
  constructor
  · intro hne heq
    apply hne
    rw [setStatus, ← heq]
  · intro hne heq
    apply hne
    rw [← heq]
    rfl

def mineListing (l : CSignedMarketListing) : Bool := env.isMine (l.listing.sellerKey.getID H)

def mineRequest (r : CBuyRequest) : Bool := env.isMine (r.buyerKey.getID H)

/-- What applies to a buy request of ours: it is changed, and the requests are written. -/
def tellBuyer (st : MarketState) (requestId : UInt256) (f : CBuyRequest → CBuyRequest) :
    MarketState × Bool :=
  match st.mapBuyRequests[requestId]? with
  | some r =>
    if mineRequest H env r then ((st.editRequest env requestId f).write .buyRequest, true)
    else (st, env.noReturn)
  | none => (st, false)

/-- What applies to a listing of ours: its status is set, and the listings are written.
`other` is given back for a listing of somebody else. -/
def tellSeller (st : MarketState) (listingId : UInt256) (nStatus : BUY_STATUS) (other : Bool) :
    MarketState × Bool :=
  match st.mapListings[listingId]? with
  | some l =>
    if mineListing H env l then
      ((st.editListing env listingId (setStatus nStatus)).write .listing, true)
    else (st, other)
  | none => (st, false)

/-! What of the two maps that deals are kept in these change. -/

theorem keep_mapListings (st : MarketState) (o : k.Obj) (h : .listing ≠ k) :
    (st.keep H k o).mapListings = st.mapListings := keep_maps_ne H st o h

theorem keep_mapBuyRequests (st : MarketState) (o : k.Obj) (h : .buyRequest ≠ k) :
    (st.keep H k o).mapBuyRequests = st.mapBuyRequests := keep_maps_ne H st o h

theorem editRequest_mapBuyRequests (st : MarketState) (requestId : UInt256)
    (f : CBuyRequest → CBuyRequest) :
    (st.editRequest env requestId f).mapBuyRequests =
      StdMap.updateAt st.mapBuyRequests requestId (freshRequest env) f :=
  setMap_maps_self ..

theorem editRequest_maps_ne (st : MarketState) (requestId : UInt256) (f : CBuyRequest → CBuyRequest)
    (h : k ≠ .buyRequest) :
    (st.editRequest env requestId f).maps k = st.maps k :=
  setMap_maps_ne st _ h

theorem editListing_mapListings (st : MarketState) (listingId : UInt256)
    (f : CSignedMarketListing → CSignedMarketListing) :
    (st.editListing env listingId f).mapListings =
      StdMap.updateAt st.mapListings listingId (freshListing env) f :=
  setMap_maps_self ..

theorem editListing_maps_ne (st : MarketState) (listingId : UInt256)
    (f : CSignedMarketListing → CSignedMarketListing) (h : k ≠ .listing) :
    (st.editListing env listingId f).maps k = st.maps k :=
  setMap_maps_ne st _ h

theorem tellBuyer_cases (st : MarketState) (requestId : UInt256) (f : CBuyRequest → CBuyRequest) :
    (∃ r, st.mapBuyRequests[requestId]? = some r ∧ mineRequest H env r = true ∧
        (tellBuyer H env st requestId f).1 =
          (st.editRequest env requestId f).write .buyRequest) ∨
      ((∀ r, st.mapBuyRequests[requestId]? = some r → mineRequest H env r = false) ∧
        (tellBuyer H env st requestId f).1 = st) := by
  unfold tellBuyer
  cases hr : st.mapBuyRequests[requestId]? with
  | none =>
    refine .inr ⟨?_, rfl⟩
    intro r h
    cases h
  | some r =>
    show _ ∨ (_ ∧ (if mineRequest H env r = true then _ else _ : MarketState × Bool).1 = st)
    cases hmine : mineRequest H env r with
    | true => exact .inl ⟨r, rfl, hmine, by simp [hmine]⟩
    | false =>
      refine .inr ⟨?_, by simp⟩
      intro r' h
      cases h
      exact hmine

theorem tellSeller_cases (st : MarketState) (listingId : UInt256) (nStatus : BUY_STATUS)
    (other : Bool) :
    (∃ l, st.mapListings[listingId]? = some l ∧ mineListing H env l = true ∧
        (tellSeller H env st listingId nStatus other).1 =
          (st.editListing env listingId (setStatus nStatus)).write .listing) ∨
      ((∀ l, st.mapListings[listingId]? = some l → mineListing H env l = false) ∧
        (tellSeller H env st listingId nStatus other).1 = st) := by
  unfold tellSeller
  cases hl : st.mapListings[listingId]? with
  | none =>
    refine .inr ⟨?_, rfl⟩
    intro l h
    cases h
  | some l =>
    show _ ∨ (_ ∧ (if mineListing H env l = true then _ else _ : MarketState × Bool).1 = st)
    cases hmine : mineListing H env l with
    | true => exact .inl ⟨l, rfl, hmine, by simp [hmine]⟩
    | false =>
      refine .inr ⟨?_, by simp⟩
      intro l' h
      cases h
      exact hmine

theorem tellSeller_maps_ne (st : MarketState) (listingId : UInt256) (nStatus : BUY_STATUS)
    (other : Bool) (h : k ≠ .listing) :
    (tellSeller H env st listingId nStatus other).1.maps k = st.maps k := by
  obtain ⟨l, -, -, htold⟩ | ⟨-, htold⟩ := tellSeller_cases H env st listingId nStatus other
  · rw [htold]
    exact editListing_maps_ne env st listingId _ h
  · rw [htold]

/-! ## §2. The `Receive` functions. -/

def receivePaymentRequest (request : CPaymentRequest) (st : MarketState) : MarketState × Bool :=
  tellBuyer H env (st.keep H .paymentRequest request) request.requestId fun r =>
    { r with rawTx := request.rawTx, nStatus := BUY_STATUS.PAYMENT_REQUESTED.toInt }

def receiveEscrowPayment (escrow : CEscrowPayment) (st : MarketState) : MarketState × Bool :=
  let st := st.keep H .escrowPayment escrow
  let st := (st.editRequest env escrow.requestId fun r =>
    { r with rawTx := escrow.rawTx, nStatus := BUY_STATUS.ESCROW_PAID.toInt }).write .buyRequest
  tellSeller H env st escrow.listingId .ESCROW_PAID env.noReturn

variable (escrow : CEscrowRelease)

/-- `ReceiveEscrowRelease` -/
def receiveEscrowRelease (st : MarketState) : MarketState × Bool :=
  let st := st.keep H .escrowRelease escrow
  let st := (st.editRequest env escrow.requestId fun r =>
    { r with buyerEscrowLockTxHash := escrow.buyerEscrowLockTxHash }).write .buyRequest
  let listingId := ((st.mapBuyRequests[escrow.requestId]?).getD (freshRequest env)).listingId
  if st.mapListings.contains listingId then
    -- it is the listing of the release that is looked at, and made if there is none
    let st := st.editListing env escrow.listingId id
    if mineListing H env ((st.mapListings[escrow.listingId]?).getD (freshListing env)) then
      let st := st.editListing env escrow.listingId (setStatus .ESCROW_LOCK)
      let st := st.editRequest env escrow.requestId fun r =>
        { r with nStatus := BUY_STATUS.ESCROW_LOCK.toInt }
      ((st.write .buyRequest).write .listing, true)
    else (st, env.noReturn)
  else (st, false)

/-- `mapBuyRequests[escrow.requestId]` before the release. -/
def released (st : MarketState) : CBuyRequest :=
  (st.mapBuyRequests[escrow.requestId]?).getD (freshRequest env)

/-- The node with the release, and its hash in the request. -/
def withRelease (st : MarketState) : MarketState :=
  ((st.keep H .escrowRelease escrow).editRequest env escrow.requestId fun r =>
    { r with buyerEscrowLockTxHash := escrow.buyerEscrowLockTxHash }).write .buyRequest

theorem withRelease_maps_ne (st : MarketState) (hr : k ≠ .buyRequest) :
    (withRelease H env escrow st).maps k = (st.keep H .escrowRelease escrow).maps k := by
  have hedit := editRequest_maps_ne env (st.keep H .escrowRelease escrow) escrow.requestId
    (fun r => { r with buyerEscrowLockTxHash := escrow.buyerEscrowLockTxHash }) hr
  exact hedit

theorem withRelease_mapListings (st : MarketState) :
    (withRelease H env escrow st).mapListings = st.mapListings := by
  exact (withRelease_maps_ne H env escrow st (by decide)).trans
    (keep_mapListings H st (k := .escrowRelease) escrow (by decide))

theorem withRelease_mapBuyRequests (st : MarketState) :
    (withRelease H env escrow st).mapBuyRequests =
      StdMap.updateAt st.mapBuyRequests escrow.requestId (freshRequest env) fun r =>
        { r with buyerEscrowLockTxHash := escrow.buyerEscrowLockTxHash } := by
  have hedit := editRequest_mapBuyRequests env (st.keep H .escrowRelease escrow) escrow.requestId
    fun r => { r with buyerEscrowLockTxHash := escrow.buyerEscrowLockTxHash }
  rw [keep_mapBuyRequests H st (k := .escrowRelease) escrow (by decide)] at hedit
  exact hedit

/-- The three ways of a release: the listing of its request is not known, the listing that
it names is not ours, or it is. -/
theorem receiveEscrowRelease_cases (st : MarketState) :
    (st.mapListings.contains (released env escrow st).listingId = false ∧
      (receiveEscrowRelease H env escrow st).1 = withRelease H env escrow st) ∨
    (st.mapListings.contains (released env escrow st).listingId = true ∧
      mineListing H env ((st.mapListings[escrow.listingId]?).getD (freshListing env)) = false ∧
      (receiveEscrowRelease H env escrow st).1 =
        (withRelease H env escrow st).editListing env escrow.listingId id) ∨
    (st.mapListings.contains (released env escrow st).listingId = true ∧
      mineListing H env ((st.mapListings[escrow.listingId]?).getD (freshListing env)) = true ∧
      (receiveEscrowRelease H env escrow st).1 =
        ((((((withRelease H env escrow st).editListing env escrow.listingId id).editListing env
          escrow.listingId (setStatus .ESCROW_LOCK)).editRequest env escrow.requestId fun r =>
            { r with nStatus := BUY_STATUS.ESCROW_LOCK.toInt }).write .buyRequest).write
              .listing)) := by
  have hlisting : (((withRelease H env escrow st).mapBuyRequests[escrow.requestId]?).getD
      (freshRequest env)).listingId = (released env escrow st).listingId := by
    rw [withRelease_mapBuyRequests, get_updateAt, if_pos rfl]
    rfl
  have hedited : ((((withRelease H env escrow st).editListing env escrow.listingId
      id).mapListings[escrow.listingId]?).getD (freshListing env)) =
        (st.mapListings[escrow.listingId]?).getD (freshListing env) := by
    rw [editListing_mapListings, get_updateAt, if_pos rfl, withRelease_mapListings]
    rfl
  have hunfold : receiveEscrowRelease H env escrow st =
      if (withRelease H env escrow st).mapListings.contains
          (((withRelease H env escrow st).mapBuyRequests[escrow.requestId]?).getD
            (freshRequest env)).listingId then
        if mineListing H env ((((withRelease H env escrow st).editListing env escrow.listingId
            id).mapListings[escrow.listingId]?).getD (freshListing env)) then
          ((((((withRelease H env escrow st).editListing env escrow.listingId id).editListing env
            escrow.listingId (setStatus .ESCROW_LOCK)).editRequest env escrow.requestId fun r =>
              { r with nStatus := BUY_STATUS.ESCROW_LOCK.toInt }).write .buyRequest).write
                .listing, true)
        else ((withRelease H env escrow st).editListing env escrow.listingId id, env.noReturn)
      else (withRelease H env escrow st, false) := rfl
  rw [hunfold, hlisting, hedited, withRelease_mapListings]
  cases hknown : st.mapListings.contains (released env escrow st).listingId with
  | false => simp
  | true =>
    cases hmine : mineListing H env
        ((st.mapListings[escrow.listingId]?).getD (freshListing env)) with
    | false => simp
    | true => simp

theorem receiveEscrowRelease_maps (e : CEscrowRelease) (st : MarketState) :
    let known := st.mapListings.contains (released env e st).listingId
    let mine := mineListing H env ((st.mapListings[e.listingId]?).getD (freshListing env))
    (receiveEscrowRelease H env e st).1.mapListings =
        (if known then StdMap.updateAt st.mapListings e.listingId (freshListing env) fun l =>
          if mine then setStatus .ESCROW_LOCK l else l else st.mapListings) ∧
      (receiveEscrowRelease H env e st).1.mapBuyRequests =
        StdMap.updateAt st.mapBuyRequests e.requestId (freshRequest env) fun r =>
          { r with
            buyerEscrowLockTxHash := e.buyerEscrowLockTxHash
            nStatus := if known && mine then BUY_STATUS.ESCROW_LOCK.toInt else r.nStatus } := by
  have hlistings := withRelease_mapListings H env e st
  have hrequests := withRelease_mapBuyRequests H env e st
  obtain ⟨hknown, hst⟩ | ⟨hknown, hmine, hst⟩ | ⟨hknown, hmine, hst⟩ :=
    receiveEscrowRelease_cases H env e st
  · intro known mine
    rw [hst, show known = false from hknown]
    exact ⟨hlistings, hrequests⟩
  · intro known mine
    rw [hst, show known = true from hknown, show mine = false from hmine, editListing_mapListings,
      hlistings]
    refine ⟨rfl, ?_⟩
    exact (editListing_maps_ne env _ e.listingId id
      (show Kind.buyRequest ≠ .listing by decide)).trans hrequests
  · intro known mine
    rw [hst, show known = true from hknown, show mine = true from hmine]
    constructor
    · have hone := editRequest_maps_ne env
        (((withRelease H env e st).editListing env e.listingId id).editListing env
          e.listingId (setStatus .ESCROW_LOCK)) e.requestId
        (fun r => { r with nStatus := BUY_STATUS.ESCROW_LOCK.toInt })
        (show Kind.listing ≠ .buyRequest by decide)
      refine hone.trans ?_
      show mapListings _ = _
      rw [editListing_mapListings, editListing_mapListings, hlistings, updateAt_updateAt]
      rfl
    · have hlast := editRequest_mapBuyRequests env
        (((withRelease H env e st).editListing env e.listingId id).editListing env e.listingId
          (setStatus .ESCROW_LOCK)) e.requestId
        (fun r => { r with nStatus := BUY_STATUS.ESCROW_LOCK.toInt })
      have htwo : (((withRelease H env e st).editListing env e.listingId id).editListing env
          e.listingId (setStatus .ESCROW_LOCK)).mapBuyRequests =
            (withRelease H env e st).mapBuyRequests :=
        (editListing_maps_ne env _ _ _ (show Kind.buyRequest ≠ .listing by decide)).trans
          (editListing_maps_ne env _ _ _ (show Kind.buyRequest ≠ .listing by decide))
      rw [htwo, hrequests, updateAt_updateAt] at hlast
      exact hlast

theorem receiveEscrowRelease_maps_ne (e : CEscrowRelease) (st : MarketState) (hl : k ≠ .listing)
    (hr : k ≠ .buyRequest) :
    (receiveEscrowRelease H env e st).1.maps k = (st.keep H .escrowRelease e).maps k := by
  have hwith := withRelease_maps_ne H env e st hr
  have hedit := editListing_maps_ne env (withRelease H env e st) e.listingId id hl
  obtain ⟨-, hst⟩ | ⟨-, -, hst⟩ | ⟨-, -, hst⟩ := receiveEscrowRelease_cases H env e st
  · rw [hst]
    exact hwith
  · rw [hst]
    exact hedit.trans hwith
  · rw [hst, write_maps, write_maps, editRequest_maps_ne _ _ _ _ hr,
      editListing_maps_ne _ _ _ _ hl]
    exact hedit.trans hwith

theorem receiveEscrowRelease_byCategory (e : CEscrowRelease) (st : MarketState) :
    (receiveEscrowRelease H env e st).1.mapListingsByCategory = st.mapListingsByCategory := by
  have hwith : (withRelease H env e st).mapListingsByCategory = st.mapListingsByCategory :=
    keep_byCategory H st .escrowRelease e
  obtain ⟨-, hst⟩ | ⟨-, -, hst⟩ | ⟨-, -, hst⟩ := receiveEscrowRelease_cases H env e st
  · rw [hst]
    exact hwith
  · rw [hst]
    exact hwith
  · rw [hst]
    exact hwith

def receiveBuyAccept (accept : CBuyAccept) (st : MarketState) : MarketState × Bool :=
  tellBuyer H env (st.keep H .buyAccept accept) accept.buyRequestId fun r =>
    { r with
      escrowAddress := accept.escrowAddress
      sellerEscrowLockTxHash := accept.sellerEscrowLockTxHash
      nStatus := BUY_STATUS.BUY_ACCEPTED.toInt }

def receiveBuyReject (reject : CBuyReject) (st : MarketState) : MarketState × Bool :=
  tellBuyer H env (st.keep H .buyReject reject) reject.buyRequestId fun r =>
    { r with nStatus := BUY_STATUS.BUY_REJECTED.toInt }

def receiveDeliveryDetails (details : CDeliveryDetails) (st : MarketState) : MarketState × Bool :=
  tellSeller H env (st.keep H .deliveryDetails details) details.listingId .DELIVERY_DETAILS
    env.noReturn

def receiveRefundRequest (refund : CRefundRequest) (st : MarketState) : MarketState × Bool :=
  let st := st.keep H .refundRequest refund
  let st := (st.editRequest env refund.buyRequestId fun r =>
    { r with nStatus := BUY_STATUS.REFUND_REQUESTED.toInt, rawTx := refund.rawTx }).write
      .buyRequest
  tellSeller H env st refund.listingId .REFUND_REQUESTED false

variable (cancel : CCancelListing)

/-- `ReceiveCancelListing` -/
def receiveCancelListing (st : MarketState) : MarketState :=
  let st := match st.mapListings[cancel.listingId]? with
    | some l =>
      { st.setMap .listing (st.mapListings.erase cancel.listingId) with
        mapListingsByCategory := StdMap.updateAt st.mapListingsByCategory l.listing.sCategory ∅
          (·.erase (l.listing.getHash H)) }
    | none => st
  let st := st.setMap .cancelListing
    (StdMap.insertNew (st.maps .cancelListing) (getHash H (k := .cancelListing) cancel) cancel)
  (st.write .listing).write .cancelListing

def receiveBuyRequest (buyr : CBuyRequest) (st : MarketState) : MarketState × Bool :=
  let st := if st.mapBuyRequests.contains buyr.requestId then st
    else (st.setMap .buyRequest (st.mapBuyRequests.insert buyr.requestId buyr)).write .buyRequest
  match st.mapListings[buyr.listingId]? with
  | none => (st, false)
  | some l => (st, mineListing H env l)

/-- Whether a cancellation is known that names the listing. -/
def cancelled (st : MarketState) (listingId : UInt256) : Bool :=
  (st.maps .cancelListing).toList.any fun p => p.2.listingId == listingId

/-- `ReceiveListing` -/
def receiveListing (listing : CSignedMarketListing) (st : MarketState) : MarketState :=
  let hash := getHash H (k := .listing) listing
  if st.mapListings.contains hash then st
  else if st.cancelled hash then st
  else
    let st := (st.setMap .listing (st.mapListings.insert hash listing)).write .listing
    { st with
      mapListingsByCategory :=
        match st.mapListingsByCategory[listing.listing.sCategory]? with
        | none =>
          st.mapListingsByCategory.insert listing.listing.sCategory
            ((∅ : StdMap UInt256 CSignedMarketListing).insert (listing.listing.getHash H) listing)
        | some setListings =>
          st.mapListingsByCategory.insert listing.listing.sCategory
            (StdMap.insertNew setListings (listing.listing.getHash H) listing) }

theorem receiveBuyRequest_fst (buyr : CBuyRequest) (st : MarketState) :
    (receiveBuyRequest H env buyr st).1 =
      if st.mapBuyRequests.contains buyr.requestId then st
      else (st.setMap .buyRequest (st.mapBuyRequests.insert buyr.requestId buyr)).write
        .buyRequest := by
  have hreturn : ∀ st' : MarketState,
      (match st'.mapListings[buyr.listingId]? with
        | none => (st', false)
        | some l => (st', mineListing H env l)).1 = st' := by
    intro st'
    cases st'.mapListings[buyr.listingId]? with
    | none => rfl
    | some l => rfl
  exact hreturn _

theorem receiveListing_of_known {listing : CSignedMarketListing} (h : st.mapListings.contains
    (getHash H (k := .listing) listing) = true ∨ st.cancelled (getHash H (k := .listing) listing) =
    true) :
    receiveListing H listing st = st := by
  unfold receiveListing
  by_cases hknown : st.mapListings.contains (getHash H (k := .listing) listing) = true
  · rw [if_pos hknown]
  · rw [if_neg hknown, if_pos (h.resolve_left hknown)]

/-- The index of listings by category with one more listing. -/
def indexed (listing : CSignedMarketListing) (st : MarketState) :
    StdMap StdString (StdMap UInt256 CSignedMarketListing) :=
  StdMap.updateAt st.mapListingsByCategory listing.listing.sCategory ∅ fun setListings =>
    StdMap.insertNew setListings (listing.listing.getHash H) listing

theorem receiveListing_of_new {listing : CSignedMarketListing}
    (hknown : st.mapListings.contains (getHash H (k := .listing) listing) = false)
    (hcancelled : st.cancelled (getHash H (k := .listing) listing) = false) :
    receiveListing H listing st =
      { (st.setMap .listing (st.mapListings.insert (getHash H (k := .listing) listing)
          listing)).write .listing with
        mapListingsByCategory := st.indexed H listing } := by
  unfold receiveListing indexed StdMap.updateAt
  simp only [hknown, hcancelled, Bool.false_eq_true, if_false, write_byCategory,
    setMap_byCategory]
  cases st.mapListingsByCategory[listing.listing.sCategory]? with
  | none => rfl
  | some setListings => rfl

theorem receiveCancelListing_maps_ne (st : MarketState) (hl : k ≠ .listing)
    (hc : k ≠ .cancelListing) : (receiveCancelListing H cancel st).maps k = st.maps k := by
  simp only [receiveCancelListing, write_maps]
  rw [setMap_maps_ne _ _ hc]
  split
  · exact setMap_maps_ne st _ hl
  · rfl

theorem receiveCancelListing_mapListings (st : MarketState) :
    (receiveCancelListing H cancel st).mapListings = st.mapListings.erase cancel.listingId := by
  simp only [receiveCancelListing, mapListings, write_maps]
  rw [setMap_maps_ne _ _ (show Kind.listing ≠ .cancelListing by decide)]
  split
  next =>
      show (st.setMap .listing (st.mapListings.erase cancel.listingId)).maps .listing = _
      exact setMap_maps_self ..
  next hnone =>
      -- nothing is there to be erased
      apply Std.ExtTreeMap.ext_getElem?
      intro a
      show st.mapListings[a]? = (st.mapListings.erase cancel.listingId)[a]?
      rw [get_erase]
      by_cases ha : cancel.listingId = a
      · rw [if_pos ha, ← ha]
        exact hnone
      · rw [if_neg ha]

theorem receiveCancelListing_byCategory_of_known {cancel : CCancelListing}
    {l : CSignedMarketListing} (h : st.mapListings[cancel.listingId]? = some l) :
    (receiveCancelListing H cancel st).mapListingsByCategory =
      StdMap.updateAt st.mapListingsByCategory l.listing.sCategory ∅
        (·.erase (l.listing.getHash H)) := by
  rw [receiveCancelListing, h]
  rfl

theorem receiveCancelListing_byCategory_of_unknown {cancel : CCancelListing}
    (h : st.mapListings[cancel.listingId]? = none) :
    (receiveCancelListing H cancel st).mapListingsByCategory = st.mapListingsByCategory := by
  rw [receiveCancelListing, h]
  rfl

theorem receiveCancelListing_mapCancelListings (st : MarketState) :
    (receiveCancelListing H cancel st).maps .cancelListing =
    StdMap.insertNew (st.maps .cancelListing) (getHash H (k := .cancelListing) cancel) cancel := by
  simp only [receiveCancelListing, write_maps, setMap_maps_self]
  split
  next =>
      have hother := setMap_maps_ne st (k := .listing) (st.mapListings.erase cancel.listingId)
        (show Kind.cancelListing ≠ .listing by decide)
      exact congrArg (StdMap.insertNew · _ cancel) hother
  next => rfl

/-- The `Receive` function of each kind; two of them give nothing back. -/
def receive : (k : Kind) → k.Obj → MarketState → MarketState × Bool
  | .listing, o, st => (receiveListing H o st, false)
  | .buyRequest, o, st => receiveBuyRequest H env o st
  | .buyAccept, o, st => receiveBuyAccept H env o st
  | .buyReject, o, st => receiveBuyReject H env o st
  | .cancelListing, o, st => (receiveCancelListing H o st, false)
  | .deliveryDetails, o, st => receiveDeliveryDetails H env o st
  | .refundRequest, o, st => receiveRefundRequest H env o st
  | .escrowRelease, o, st => receiveEscrowRelease H env o st
  | .escrowPayment, o, st => receiveEscrowPayment H env o st
  | .paymentRequest, o, st => receivePaymentRequest H env o st

end MarketState

/-! ## §3. Messages. -/

/-- The command under which `BroadcastToAll` and `RelayTo` push an object. -/
def Kind.sent : Kind → String
  | listing => "mktlst"
  | buyRequest => "mktbuyr"
  | buyAccept => "mktbuya"
  | buyReject => "mktbuyj"
  | cancelListing => "mktcan"
  | deliveryDetails => "mktdet"
  | refundRequest => "mktref"
  | escrowRelease => "mktesc"
  | escrowPayment => "mktpay"
  | paymentRequest => "mktpayr"

def message (o : MarketObject) : String × List UInt8 := (o.1.sent, o.1.codec.write o.2)

/-- The kind that `MarketProcessMessage` reads for a command. -/
def Kind.received (strCommand : String) : Option Kind :=
  if strCommand = "mktlst" then some .listing
  else if strCommand = "mktbuyr" then some .buyRequest
  else if strCommand = "mktpayr" then some .paymentRequest
  else if strCommand = "mktbuya" then some .buyAccept
  else if strCommand = "mktbuyj" then some .buyReject
  else if strCommand = "mktdel" then some .deliveryDetails
  else if strCommand = "mktref" then some .refundRequest
  else if strCommand = "mktesc" then some .escrowRelease
  else if strCommand = "mktescp" then some .escrowPayment
  else if strCommand = "mktcan" then some .cancelListing
  else none

/-- `vRecv >> o`: the object of a message, unless its command is not known or reading throws. -/
def readMessage (mem : Memory) (strCommand : String) (vRecv : List UInt8) :
    Option MarketObject := do
  let k ← Kind.received strCommand
  let o ← (k.codec.read mem).run vRecv
  return ⟨k, o.1⟩

/-- What a message has for the peers. -/
inductive Effect where
  /-- `pfrom->setKnown.insert(hash)` -/
  | known (hash : UInt256)
  /-- `pfrom->Misbehaving(howmuch)` -/
  | misbehaving (howmuch : Nat)
  | broadcastToAll (o : MarketObject)
  /-- `RelayTo(pfrom)` -/
  | relayTo (o : MarketObject)
  deriving DecidableEq

def knownAs (H : Hashes) : (k : Kind) → k.Obj → UInt256
  | .buyRequest, buyr => buyr.requestId
  | .paymentRequest, payr => payr.requestId
  | k, o => getHash H (k := k) o

variable (C : MarketCrypto)

/-- What is done with an object: a listing is passed on whether or not its signature is
right, and a cancellation whatever `ReceiveCancelListing` did. -/
def processObject (env : MarketEnv) (o : MarketObject) (st : MarketState) :
    MarketState × List Effect :=
  let known := .known (knownAs C.toHashes o.1 o.2)
  if !checkSignature C o.2 then
    (st, if o.1 = .listing then [known, .misbehaving 20, .broadcastToAll o]
      else [known, .misbehaving 20])
  else
    let (st, found) := MarketState.receive C.toHashes env o.1 o.2 st
    (st, if found then [known] else [known, .broadcastToAll o])

/-- `nDate`, of a listing `nCreated`. -/
def objectDate : (k : Kind) → k.Obj → Int64
  | .listing, l => l.listing.nCreated
  | .buyRequest, o => o.nDate
  | .buyAccept, o => o.nDate
  | .buyReject, o => o.nDate
  | .cancelListing, o => o.nDate
  | .deliveryDetails, o => o.nDate
  | .refundRequest, o => o.nDate
  | .escrowRelease, o => o.nDate
  | .escrowPayment, o => o.nDate
  | .paymentRequest, o => o.nDate

/-- The kinds in the order in which the answer to "mktinv" goes over them. -/
def Kind.all : List Kind :=
  [listing, buyRequest, buyAccept, buyReject, cancelListing, deliveryDetails, refundRequest,
    escrowRelease, escrowPayment, paymentRequest]

/-- The objects that a node relays in answer to "mktinv". -/
def inventory (nTime : Int64) (st : MarketState) : List MarketObject :=
  Kind.all.flatMap fun k => (st.maps k).toList.filterMap fun p =>
    if objectDate k p.2 ≥ nTime then some ⟨k, p.2⟩ else none

variable (mem : Memory)

/-- `MarketProcessMessage`.  Where reading throws, the message is dropped. -/
def marketProcessMessage (env : MarketEnv)
    (strCommand : String) (vRecv : List UInt8) (st : MarketState) : MarketState × List Effect :=
  if strCommand = "mktinv" then
    match readInt64.run vRecv with
    | none => (st, [])
    | some (nTime, _) => (st, (inventory nTime st).map .relayTo)
  else
    match readMessage mem strCommand vRecv with
    | none => (st, [])
    | some o => processObject C env o st

/-- The object of a message whose signature is right. -/
def accepted (strCommand : String) (vRecv : List UInt8) : Option MarketObject :=
  (readMessage mem strCommand vRecv).filter fun o => checkSignature C o.2

theorem marketProcessMessage_fst (env : MarketEnv) (strCommand : String) (vRecv : List UInt8)
    (st : MarketState) : (marketProcessMessage C mem env strCommand vRecv st).1 =
    (accepted C mem strCommand vRecv).elim st fun o =>
    (MarketState.receive C.toHashes env o.1 o.2 st).1 := by
  unfold marketProcessMessage accepted
  by_cases hinv : strCommand = "mktinv"
  · rw [if_pos hinv, hinv]
    cases readInt64.run vRecv with
    | none => rfl
    | some p => rfl
  · rw [if_neg hinv]
    cases readMessage mem strCommand vRecv with
    | none => rfl
    | some o =>
      show (processObject C env o st).1 = _
      unfold processObject
      cases hcheck : checkSignature C o.2 with
      | true => simp [Option.filter, hcheck]
      | false => simp [Option.filter, hcheck]

/-! ## §4. Runs. -/

/-- What happens to a node: a message of a peer, or an object of its own. -/
inductive MarketEvent where
  | message (mem : Memory) (env : MarketEnv) (strCommand : String) (vRecv : List UInt8)
  | own (env : MarketEnv) (o : MarketObject)

def marketStep (st : MarketState) : MarketEvent → MarketState
  | .message mem env strCommand vRecv => (marketProcessMessage C mem env strCommand vRecv st).1
  | .own env o => (MarketState.receive C.toHashes env o.1 o.2 st).1

def sampleMarketEnv : MarketEnv := ⟨fun _ => false, 2000, 0, false⟩

def sampleMemory : Memory := fun _ => .replicate 64 0

def messageEvent (o : MarketObject) : MarketEvent :=
  .message sampleMemory sampleMarketEnv (message o).1 (message o).2

end Fantom.Market
