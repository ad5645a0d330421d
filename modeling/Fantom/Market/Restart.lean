/-
  Fantom.Market.Restart — Whether a node that starts again finds the market as it left it.

  * `survives_run` — over every run of `Receive` operations.

  Each map is written whole under two letters after a change of it; requests and rejects have the
  same two.
-/
import Fantom.Market.Arrival

namespace Fantom.Market

open Core Lib MarketState Function Std.ExtTreeMap StdMap

/-! ## §1. `MarketInit`. -/

variable (mem : Memory) (k : Kind)

/-- A value of the database, read as the map of a kind. -/
def readBytes (strValue : List UInt8) : StdMap UInt256 k.Obj :=
  Codec.readMap compactSize (uint256.seq k.codec) mem strValue

/-- `ReadListings(mapListings)`, `ReadBuyRequests(mapBuyRequests)`, … into empty maps. -/
def readStored (db : StdMap (List UInt8) (List UInt8)) (k : Kind) : StdMap UInt256 k.Obj :=
  (db[k.dbKey]?).elim ∅ (readBytes mem k)

/-- `Clean up any cancelled listings` -/
def cleanUp (listings : StdMap UInt256 CSignedMarketListing)
    (cancels : StdMap UInt256 CCancelListing) : StdMap UInt256 CSignedMarketListing :=
  cancels.toList.foldl
    (fun m p => if m.contains p.2.listingId then m.erase p.2.listingId else m) listings

/-- `Update category map` -/
def categories (H : Hashes) (listings : StdMap UInt256 CSignedMarketListing) :
    StdMap StdString (StdMap UInt256 CSignedMarketListing) :=
  listings.toList.foldl
    (fun cats p => updateAt cats p.2.listing.sCategory ∅ fun setListings =>
      insertNew setListings (p.2.listing.getHash H) p.2) ∅

/-- `MarketInit`, of a node that has just been started. -/
def marketInit (H : Hashes) (mem : Kind → Memory) (db : StdMap (List UInt8) (List UInt8)) :
    MarketState :=
  let maps := fun k => readStored (mem k) db k
  let listings := cleanUp (maps .listing) (maps .cancelListing)
  { maps := update maps .listing listings
    mapListingsByCategory := categories H listings
    marketDB := db }

/-- **The market survives a restart**: whatever the memory of the new process holds, each map
is as it was, and the listings are those that are not cancelled. -/
structure Survives (H : Hashes) (st : MarketState) : Prop where
  maps : ∀ mem k, k ≠ .listing → (marketInit H mem st.marketDB).maps k = st.maps k
  listings : ∀ mem, (marketInit H mem st.marketDB).mapListings =
    cleanUp st.mapListings (st.maps .cancelListing)

/-! ## §2. What is read back. -/

theorem get_cleanUp (listings : StdMap UInt256 CSignedMarketListing)
    (cancels : StdMap UInt256 CCancelListing) (a : UInt256) :
    (cleanUp listings cancels)[a]? =
      if a ∈ cancels.toList.map (fun p => p.2.listingId) then none else listings[a]? := by
  unfold cleanUp
  -- induction on the cancellations, for any listings
  generalize cancels.toList = l
  induction l generalizing listings with
  | nil => simp
  | cons p l ih =>
    rw [List.foldl_cons, ih]
    have hone : (if listings.contains p.2.listingId then listings.erase p.2.listingId
        else listings)[a]? = if p.2.listingId = a then none else listings[a]? := by
      cases hc : listings.contains p.2.listingId with
      | true => simp [get_erase]
      | false =>
        have hnone := contains_eq_false_iff.mp hc
        by_cases ha : p.2.listingId = a
        · rw [if_pos ha, ← ha]
          exact hnone
        · rw [if_neg ha]
          rfl
    rw [hone, List.map_cons]
    by_cases ha : p.2.listingId = a
    · simp [ha]
    · simp only [List.mem_cons, Ne.symm ha, ha, false_or, if_false]

/-- A map that is read back as it is: not too large, of objects that are written whole. -/
structure Storable (k : Kind) (m : StdMap UInt256 k.Obj) : Prop where
  size : m.size ≤ MAX_SIZE
  entries : ∀ (h : UInt256) (o : k.Obj), m[h]? = some o → k.codec.Ok o ∧ Whole k o

theorem kept_iff (h : UInt256) (o : k.Obj) : (uint256.seq k.codec :
    Codec Memory UInt8 (UInt256 × k.Obj)).Kept (h, o) ↔ k.codec.Ok o ∧ Whole k o := by
  rw [← norm_eq_iff]
  constructor
  · intro hk
    exact ⟨hk.1.2, (Prod.mk.inj hk.2).2⟩
  · intro hk
    exact ⟨⟨trivial, hk.1⟩, Prod.ext rfl hk.2⟩

theorem readBytes_mapBytes_iff (m : StdMap UInt256 k.Obj) :
    readBytes mem k (mapBytes k m) = m ↔ Storable k m := by
  unfold readBytes mapBytes
  rw [Codec.readMap_iff]
  constructor
  · intro h
    exact ⟨h.1, fun a o ho => (kept_iff k a o).mp (h.2 a o ho)⟩
  · intro h
    exact ⟨h.size, fun a o ho => (kept_iff k a o).mpr (h.entries a o ho)⟩

theorem storable_readBytes (strValue : List UInt8) : Storable k (readBytes mem k strValue) where
  size := Codec.size_readMap_le mem strValue
  entries h o ho := (kept_iff k h o).mp (Codec.kept_readMap ho)

/-! ## §3. Maps that are storable. -/

namespace Storable

variable {k : Kind} {m : StdMap UInt256 k.Obj}

theorem empty (k : Kind) : Storable k ∅ where
  size := by simp
  entries h o ho := by
    rw [get_empty] at ho
    cases ho

theorem insert (hm : Storable k m) {a : UInt256} {o : k.Obj} (ho : k.codec.Ok o ∧ Whole k o)
    (hsize : m.size < MAX_SIZE) : Storable k (m.insert a o) where
  size := by
    have hle : (m.insert a o).size ≤ m.size + 1 := size_insert_le
    omega
  entries h o' ho' := by
    rw [get_insert] at ho'
    split at ho'
    next =>
      cases ho'
      exact ho
    next => exact hm.entries h o' ho'

theorem erase (hm : Storable k m) (a : UInt256) : Storable k (m.erase a) where
  size := by
    have hle : (m.erase a).size ≤ m.size := size_erase_le
    have hsize := hm.size
    omega
  entries h o ho := by
    rw [get_erase] at ho
    split at ho
    next => cases ho
    next => exact hm.entries h o ho

theorem updateAt (hm : Storable k m) {a : UInt256} {o : k.Obj} (ha : m[a]? = some o)
    (fresh : k.Obj) {f : k.Obj → k.Obj} (hf : k.codec.Ok (f o) ∧ Whole k (f o)) :
    Storable k (updateAt m a fresh f) where
  size := by
    have hin : m.contains a = true := contains_iff.mpr ⟨o, ha⟩
    show (Std.ExtTreeMap.insert m a _).size ≤ _
    rw [size_insert, if_pos hin]
    exact hm.size
  entries h o' ho' := by
    rw [get_updateAt] at ho'
    split at ho'
    next heq =>
      rw [← heq, ha] at ho'
      cases ho'
      exact hf
    next => exact hm.entries h o' ho'

end Storable

/-! ## §4. States that survive. -/

/-- The kinds that have their two letters alone, the listings apart. -/
def Kind.own : Kind → Bool
  | listing => false
  | buyRequest => false
  | buyReject => false
  | _ => true

theorem dbKey_ne_of_own {k k' : Kind} (hk : k.own = true) (hne : k' ≠ k) : k'.dbKey ≠ k.dbKey := by
  cases k <;> cases k' <;> first | decide | exact absurd rfl hne | cases hk

theorem dbKey_ne_listing {k : Kind} (hk : k ≠ .listing) : k.dbKey ≠ Kind.listing.dbKey := by
  cases k <;> first | decide | exact absurd rfl hk

def Reads (st : MarketState) (k : Kind) : Prop :=
  ∀ mem, readStored mem st.marketDB k = st.maps k

/-- The listings that are not cancelled are what the database has, and all of them could be
written. -/
structure ListingsRead (st : MarketState) : Prop where
  read : ∀ (mem : Memory) (h : UInt256), st.cancelled h = false →
    (readStored mem st.marketDB .listing)[h]? = st.mapListings[h]?
  storable : Storable .listing st.mapListings

/-- **A state that survives**, part by part. -/
structure Durable (st : MarketState) : Prop where
  own : ∀ k, k.own = true → Reads st k
  requests : Reads st .buyRequest
  rejects : Reads st .buyReject
  listings : ListingsRead st

variable {H : Hashes} {env : MarketEnv} {st st' : MarketState} {k : Kind}

theorem Reads.storable (h : Reads st k) : Storable k (st.maps k) := by
  rw [← h fun _ => .replicate 64 0]
  unfold readStored
  cases st.marketDB[k.dbKey]? with
  | none => exact .empty k
  | some strValue => exact storable_readBytes _ k strValue

theorem Reads.of_same (h : Reads st k) (hmap : st'.maps k = st.maps k)
    (hdb : st'.marketDB[k.dbKey]? = st.marketDB[k.dbKey]?) : Reads st' k := by
  intro mem
  rw [readStored, hmap, hdb]
  exact h mem

theorem cancelled_eq_false_iff (st : MarketState) (h : UInt256) :
    st.cancelled h = false ↔ h ∉ (st.maps .cancelListing).toList.map (fun p => p.2.listingId) := by
  rw [cancelled, ← Bool.not_eq_true, List.any_eq_true, List.mem_map]
  simp only [beq_iff_eq]

theorem cancelled_congr (h : st'.maps .cancelListing = st.maps .cancelListing) (a : UInt256) :
    st'.cancelled a = st.cancelled a := by
  unfold cancelled
  rw [h]

theorem Durable.survives (hd : Durable st) : Survives H st where
  maps := by
    intro mem k hk
    show update _ _ _ k = _
    rw [update_of_ne hk]
    cases k with
    | listing => exact absurd rfl hk
    | buyRequest => exact hd.requests _
    | buyReject => exact hd.rejects _
    | _ => exact hd.own _ rfl _
  listings := by
    intro mem
    have hread : (marketInit H mem st.marketDB).mapListings =
        cleanUp (readStored (mem .listing) st.marketDB .listing)
          (readStored (mem .cancelListing) st.marketDB .cancelListing) := by
      unfold marketInit mapListings
      exact update_self (β := fun k => StdMap UInt256 (Kind.Obj k)) Kind.listing _
        (fun k => readStored (mem k) st.marketDB k)
    rw [hread]
    apply ext_getElem?
    intro a
    rw [get_cleanUp, get_cleanUp, hd.own .cancelListing rfl]
    by_cases ha : a ∈ (st.maps .cancelListing).toList.map (fun p => p.2.listingId)
    · rw [if_pos ha, if_pos ha]
    · rw [if_neg ha, if_neg ha]
      exact hd.listings.read _ a ((cancelled_eq_false_iff st a).mpr ha)

/-! ## §5. Writes. -/

def MarketState.store (st : MarketState) (k : Kind) (m : StdMap UInt256 k.Obj) : MarketState :=
  (st.setMap k m).write k

@[simp] theorem store_maps_self (st : MarketState) (k : Kind) (m : StdMap UInt256 k.Obj) :
    (st.store k m).maps k = m := setMap_maps_self st k m

theorem store_maps_ne (st : MarketState) {k k' : Kind} (m : StdMap UInt256 k.Obj) (h : k' ≠ k) :
    (st.store k m).maps k' = st.maps k' := setMap_maps_ne st m h

theorem store_marketDB (st : MarketState) (k : Kind) (m : StdMap UInt256 k.Obj) :
    (st.store k m).marketDB = st.marketDB.insert k.dbKey (mapBytes k m) := by
  show st.marketDB.insert k.dbKey (mapBytes k ((st.store k m).maps k)) = _
  rw [store_maps_self]

theorem store_marketDB_self (st : MarketState) (k : Kind) (m : StdMap UInt256 k.Obj) :
    (st.store k m).marketDB[k.dbKey]? = some (mapBytes k m) := by
  rw [store_marketDB, get_insert_self]

theorem store_marketDB_ne (st : MarketState) {k k' : Kind} (m : StdMap UInt256 k.Obj)
    (h : k.dbKey ≠ k'.dbKey) : (st.store k m).marketDB[k'.dbKey]? = st.marketDB[k'.dbKey]? := by
  rw [store_marketDB, get_insert_ne _ _ h]

theorem reads_store {m : StdMap UInt256 k.Obj} (hm : Storable k m) : Reads (st.store k m) k := by
  intro mem
  rw [readStored, store_marketDB_self, store_maps_self]
  exact (readBytes_mapBytes_iff mem k m).mpr hm

theorem Reads.store {k k' : Kind} (h : Reads st k') (m : StdMap UInt256 k.Obj) (hne : k' ≠ k)
    (hkey : k.dbKey ≠ k'.dbKey) : Reads (st.store k m) k' :=
  h.of_same (store_maps_ne st m hne) (store_marketDB_ne st m hkey)

/-- **A map that shares its two letters can be stored**: it is read back, and its bytes, read as
the other map, are this other map. -/
structure SharesKey (k k' : Kind) (m : StdMap UInt256 k.Obj) (m' : StdMap UInt256 k'.Obj) :
    Prop where
  storable : Storable k m
  other : ∀ mem, readBytes mem k' (mapBytes k m) = m'

theorem SharesKey.reads {k k' : Kind} {m : StdMap UInt256 k.Obj}
    (h : SharesKey k k' m (st.maps k')) (hne : k' ≠ k) (hkey : k.dbKey = k'.dbKey) :
    Reads (st.store k m) k' := by
  intro mem
  rw [readStored, ← hkey, store_marketDB_self, store_maps_ne st m hne]
  exact h.other mem

theorem ListingsRead.store (h : ListingsRead st) (m : StdMap UInt256 k.Obj) (hl : k ≠ .listing)
    (hc : k ≠ .cancelListing) : ListingsRead (st.store k m) where
  read := by
    intro mem a ha
    rw [cancelled_congr (store_maps_ne st m (Ne.symm hc))] at ha
    unfold readStored mapListings
    rw [store_marketDB_ne st m (dbKey_ne_listing hl), store_maps_ne st m (Ne.symm hl)]
    exact h.read mem a ha
  storable := by
    rw [mapListings, store_maps_ne st m (Ne.symm hl)]
    exact h.storable

theorem listingsRead_store {m : StdMap UInt256 Kind.listing.Obj} (hm : Storable .listing m) :
    ListingsRead (st.store .listing m) where
  read := by
    intro mem a _
    rw [reads_store (k := .listing) hm mem]
  storable := by
    rw [mapListings, store_maps_self]
    exact hm

theorem ne_of_own (hk : k.own = true) :
    .listing ≠ k ∧ .buyRequest ≠ k ∧ .buyReject ≠ k := by
  cases k <;> first | decide | cases hk

theorem Durable.store_own (hd : Durable st) (hk : k.own = true) (hc : k ≠ .cancelListing)
    {m : StdMap UInt256 k.Obj} (hm : Storable k m) : Durable (st.store k m) where
  own := by
    intro k' hk'
    by_cases hkk : k' = k
    · subst hkk
      exact reads_store hm
    · exact (hd.own k' hk').store m hkk (dbKey_ne_of_own hk' (Ne.symm hkk))
  requests := by
    have hne := (ne_of_own hk).2.1
    exact hd.requests.store m hne (Ne.symm (dbKey_ne_of_own hk hne))
  rejects := by
    have hne := (ne_of_own hk).2.2
    exact hd.rejects.store m hne (Ne.symm (dbKey_ne_of_own hk hne))
  listings := hd.listings.store m (Ne.symm (ne_of_own hk).1) hc

theorem Durable.store_listing (hd : Durable st) {m : StdMap UInt256 Kind.listing.Obj}
    (hm : Storable .listing m) : Durable (st.store .listing m) where
  own k' hk' :=
    (hd.own k' hk').store m (Ne.symm (ne_of_own hk').1) (dbKey_ne_of_own hk' (ne_of_own hk').1)
  requests := hd.requests.store m (by decide) (by decide)
  rejects := hd.rejects.store m (by decide) (by decide)
  listings := listingsRead_store hm

theorem store_requests (hown : ∀ k, k.own = true → Reads st k) (hl : ListingsRead st)
    {m : StdMap UInt256 Kind.buyRequest.Obj}
    (hm : SharesKey .buyRequest .buyReject m (st.maps .buyReject)) :
    Durable (st.store .buyRequest m) where
  own k' hk' := (hown k' hk').store m (Ne.symm (ne_of_own hk').2.1)
    (dbKey_ne_of_own hk' (ne_of_own hk').2.1)
  requests := reads_store hm.storable
  rejects := hm.reads (by decide) rfl
  listings := hl.store m (by decide) (by decide)

theorem Durable.store_rejects (hd : Durable st) {m : StdMap UInt256 Kind.buyReject.Obj}
    (hm : SharesKey .buyReject .buyRequest m st.mapBuyRequests) :
    Durable (st.store .buyReject m) where
  own k' hk' := (hd.own k' hk').store m (Ne.symm (ne_of_own hk').2.2)
    (dbKey_ne_of_own hk' (ne_of_own hk').2.2)
  requests := hm.reads (by decide) rfl
  rejects := reads_store hm.storable
  listings := hd.listings.store m (by decide) (by decide)

theorem Durable.of_same (hd : Durable st) (hmaps : st'.maps = st.maps)
    (hdb : st'.marketDB = st.marketDB) : Durable st' := by
  obtain ⟨maps, index, db⟩ := st
  obtain ⟨maps', index', db'⟩ := st'
  obtain rfl : maps' = maps := hmaps
  obtain rfl : db' = db := hdb
  exact ⟨hd.own, hd.requests, hd.rejects, ⟨hd.listings.read, hd.listings.storable⟩⟩

/-! ## §6. The operations that keep it so. -/

/-- An object that is not there yet can be kept: it is written whole, and there is room. -/
def Fits (H : Hashes) (st : MarketState) (k : Kind) (o : k.Obj) : Prop :=
  (st.maps k).contains (getHash H o) = false →
    k.codec.Ok o ∧ Whole k o ∧ (st.maps k).size < MAX_SIZE

/-- The buy requests can be stored with the rejects as they are. -/
def RequestsFit (requests : StdMap UInt256 CBuyRequest) (rejects : StdMap UInt256 CBuyReject) :
    Prop :=
  SharesKey .buyRequest .buyReject requests rejects

/-- They can after an edit, if the request is there and ours. -/
def EditFits (H : Hashes) (env : MarketEnv) (st : MarketState) (requestId : UInt256)
    (f : CBuyRequest → CBuyRequest) (rejects : StdMap UInt256 CBuyReject) : Prop :=
  ∀ r, st.mapBuyRequests[requestId]? = some r → mineRequest H env r = true →
    RequestsFit (updateAt st.mapBuyRequests requestId (freshRequest env) f) rejects

/-- **What keeps the market stored.**  The object fits; where buy requests or rejects are
written, they can be stored beside the other map as it then is; and a release, where the
listing of its request is known, names a listing that is known, or one that is ours or
cancelled and fits. -/
def StaysStored (H : Hashes) (env : MarketEnv) (st : MarketState) : MarketObject → Prop
  | ⟨.listing, l⟩ => st.cancelled (getHash H (k := .listing) l) = false → Fits H st .listing l
  | ⟨.buyRequest, r⟩ =>
    st.mapBuyRequests.contains r.requestId = false →
      RequestsFit (st.mapBuyRequests.insert r.requestId r) (st.maps .buyReject)
  | ⟨.buyAccept, a⟩ =>
    Fits H st .buyAccept a ∧
      EditFits H env st a.buyRequestId
        (fun r =>
          { r with
            escrowAddress := a.escrowAddress
            sellerEscrowLockTxHash := a.sellerEscrowLockTxHash
            nStatus := BUY_STATUS.BUY_ACCEPTED.toInt })
        (st.maps .buyReject)
  | ⟨.buyReject, j⟩ =>
    EditFits H env st j.buyRequestId
        (fun r => { r with nStatus := BUY_STATUS.BUY_REJECTED.toInt })
        (insertNew (st.maps .buyReject) (getHash H (k := .buyReject) j) j) ∧
      ((∀ r, st.mapBuyRequests[j.buyRequestId]? = some r → mineRequest H env r = false) →
        (st.maps .buyReject).contains (getHash H (k := .buyReject) j) = false →
          SharesKey .buyReject .buyRequest
            ((st.maps .buyReject).insert (getHash H (k := .buyReject) j) j) st.mapBuyRequests)
  | ⟨.cancelListing, c⟩ => Fits H st .cancelListing c
  | ⟨.deliveryDetails, d⟩ => Fits H st .deliveryDetails d
  | ⟨.refundRequest, f⟩ =>
    Fits H st .refundRequest f ∧
      RequestsFit
        (updateAt st.mapBuyRequests f.buyRequestId (freshRequest env) fun r =>
          { r with nStatus := BUY_STATUS.REFUND_REQUESTED.toInt, rawTx := f.rawTx })
        (st.maps .buyReject)
  | ⟨.escrowRelease, e⟩ =>
    let known := st.mapListings.contains (released env e st).listingId
    let mine := mineListing H env ((st.mapListings[e.listingId]?).getD (freshListing env))
    Fits H st .escrowRelease e ∧
      RequestsFit
        (updateAt st.mapBuyRequests e.requestId (freshRequest env) fun r =>
          { r with
            buyerEscrowLockTxHash := e.buyerEscrowLockTxHash
            nStatus := if known && mine then BUY_STATUS.ESCROW_LOCK.toInt else r.nStatus })
        (st.maps .buyReject) ∧
      (known = true → st.mapListings.contains e.listingId = false →
        (mine = true ∨ st.cancelled e.listingId = true) ∧ st.mapListings.size < MAX_SIZE)
  | ⟨.escrowPayment, p⟩ =>
    Fits H st .escrowPayment p ∧
      RequestsFit
        (updateAt st.mapBuyRequests p.requestId (freshRequest env) fun r =>
          { r with rawTx := p.rawTx, nStatus := BUY_STATUS.ESCROW_PAID.toInt })
        (st.maps .buyReject)
  | ⟨.paymentRequest, p⟩ =>
    Fits H st .paymentRequest p ∧
      EditFits H env st p.requestId
        (fun r => { r with rawTx := p.rawTx, nStatus := BUY_STATUS.PAYMENT_REQUESTED.toInt })
        (st.maps .buyReject)

theorem listing_ok_iff (l : CSignedMarketListing) :
    Kind.listing.codec.Ok l ↔
      (l.listing.sCategory.length ≤ MAX_SIZE ∧ l.listing.sTitle.length ≤ MAX_SIZE ∧
        l.listing.sDescription.length ≤ MAX_SIZE ∧ l.listing.sImageOneUrl.length ≤ MAX_SIZE ∧
        l.listing.sImageTwoUrl.length ≤ MAX_SIZE) ∧ l.vchListingSig.length ≤ MAX_SIZE := by
  simp [Kind.codec, CSignedMarketListing.codec, CMarketListing.codec, Codec.record, Codec.seq,
    Codec.ofFormat, int32, int64, bytes, pubKey]

theorem freshListing_ok (env : MarketEnv) : Kind.listing.codec.Ok (freshListing env) := by
  rw [listing_ok_iff]
  simp [freshListing]

theorem setStatus_ok {l : CSignedMarketListing} (h : Kind.listing.codec.Ok l)
    (nStatus : BUY_STATUS) : Kind.listing.codec.Ok (setStatus nStatus l) := by
  rw [listing_ok_iff] at h ⊢
  exact h

theorem Durable.keep (hd : Durable st) (hk : k.own = true) (hc : k ≠ .cancelListing) {o : k.Obj}
    (ho : Fits H st k o) : Durable (st.keep H k o) := by
  unfold MarketState.keep
  by_cases hin : (st.maps k).contains (getHash H o) = true
  · rw [if_pos hin]
    exact hd
  · rw [if_neg hin]
    obtain ⟨hok, hwhole, hsize⟩ := ho (Bool.not_eq_true _ ▸ hin)
    exact hd.store_own hk hc ((hd.own k hk).storable.insert ⟨hok, hwhole⟩ hsize)

theorem Durable.tellBuyer (hd : Durable st) {id : UInt256} {f : CBuyRequest → CBuyRequest}
    (hf : EditFits H env st id f (st.maps .buyReject)) :
    Durable (MarketState.tellBuyer H env st id f).1 := by
  obtain ⟨r, hr, hmine, htold⟩ | ⟨-, htold⟩ := tellBuyer_cases H env st id f
  · rw [htold]
    exact store_requests hd.own hd.listings (hf r hr hmine)
  · rw [htold]
    exact hd

theorem Durable.tellSeller (hd : Durable st) (id : UInt256) (nStatus : BUY_STATUS) (other : Bool) :
    Durable (MarketState.tellSeller H env st id nStatus other).1 := by
  obtain ⟨l, hl, -, htold⟩ | ⟨-, htold⟩ := tellSeller_cases H env st id nStatus other
  · rw [htold]
    have hok := setStatus_ok (hd.listings.storable.entries id l hl).1 nStatus
    exact hd.store_listing (hd.listings.storable.updateAt hl (freshListing env) ⟨hok, trivial⟩)
  · rw [htold]
    exact hd

section Kept

variable (hd : Durable st) (hk : k.own = true) (hc : k ≠ .cancelListing) {o : k.Obj}
  (ho : Fits H st k o) {id : UInt256} {f : CBuyRequest → CBuyRequest}

include hd hk hc ho

theorem durable_keep_tellBuyer (hf : EditFits H env st id f (st.maps .buyReject)) :
    Durable (MarketState.tellBuyer H env (st.keep H k o) id f).1 := by
  refine (hd.keep hk hc ho).tellBuyer ?_
  unfold EditFits
  rw [keep_mapBuyRequests H st o (ne_of_own hk).2.1, keep_maps_ne H st o (ne_of_own hk).2.2]
  exact hf

theorem durable_keep_requests
    (hf : RequestsFit (updateAt st.mapBuyRequests id (freshRequest env) f)
      (st.maps .buyReject)) :
    Durable (((st.keep H k o).editRequest env id f).write .buyRequest) := by
  have hkept := hd.keep hk hc ho
  refine store_requests hkept.own hkept.listings ?_
  rw [keep_mapBuyRequests H st o (ne_of_own hk).2.1, keep_maps_ne H st o (ne_of_own hk).2.2]
  exact hf

end Kept

theorem Durable.listing (hd : Durable st) {l : CSignedMarketListing}
    (h : StaysStored H env st ⟨.listing, l⟩) : Durable (receiveListing H l st) := by
  by_cases hknown : st.mapListings.contains (getHash H (k := .listing) l) = true
  · rw [receiveListing_of_known H (.inl hknown)]
    exact hd
  by_cases hcancelled : st.cancelled (getHash H (k := .listing) l) = true
  · rw [receiveListing_of_known H (.inr hcancelled)]
    exact hd
  rw [Bool.not_eq_true] at hknown hcancelled
  obtain ⟨hok, hwhole, hsize⟩ := h hcancelled hknown
  rw [receiveListing_of_new H hknown hcancelled]
  have hstored := hd.store_listing (m := st.mapListings.insert (getHash H (k := .listing) l) l)
    (hd.listings.storable.insert ⟨hok, hwhole⟩ hsize)
  exact hstored.of_same rfl rfl

theorem Durable.buyRequest (hd : Durable st) {r : CBuyRequest}
    (h : StaysStored H env st ⟨.buyRequest, r⟩) : Durable (receiveBuyRequest H env r st).1 := by
  rw [receiveBuyRequest_fst]
  by_cases hin : st.mapBuyRequests.contains r.requestId = true
  · rw [if_pos hin]
    exact hd
  · rw [if_neg hin]
    exact store_requests hd.own hd.listings (h (Bool.not_eq_true _ ▸ hin))

theorem Durable.reject (hd : Durable st) {j : CBuyReject}
    (h : StaysStored H env st ⟨.buyReject, j⟩) : Durable (receiveBuyReject H env j st).1 := by
  have hown : ∀ k, k.own = true → Reads (st.keep H .buyReject j) k := by
    intro k hk
    unfold MarketState.keep
    split
    · exact hd.own k hk
    · exact (hd.own k hk).store _ (Ne.symm (ne_of_own hk).2.2)
        (dbKey_ne_of_own hk (ne_of_own hk).2.2)
  have hlistings : ListingsRead (st.keep H .buyReject j) := by
    unfold MarketState.keep
    split
    · exact hd.listings
    · exact hd.listings.store _ (by decide) (by decide)
  have hrequests := keep_mapBuyRequests H st (k := .buyReject) j (by decide)
  have hrejects := keep_maps_self H st .buyReject j
  obtain ⟨hedit, hkeep⟩ := h
  unfold receiveBuyReject
  obtain ⟨r, hr, hmine, htold⟩ | ⟨hother, htold⟩ :=
    tellBuyer_cases H env (st.keep H .buyReject j) j.buyRequestId fun r =>
      { r with nStatus := BUY_STATUS.BUY_REJECTED.toInt }
  · -- the requests are written last
    rw [htold]
    refine store_requests hown hlistings ?_
    rw [hrequests, hrejects]
    rw [hrequests] at hr
    exact hedit r hr hmine
  · rw [htold]
    rw [hrequests] at hother
    unfold MarketState.keep
    by_cases hin : (st.maps .buyReject).contains (getHash H (k := .buyReject) j) = true
    · rw [if_pos hin]
      exact hd
    · rw [if_neg hin]
      exact hd.store_rejects (hkeep hother (Bool.not_eq_true _ ▸ hin))

theorem receiveCancelListing_marketDB (H : Hashes) (c : CCancelListing) (st : MarketState) :
    (receiveCancelListing H c st).marketDB =
      (st.marketDB.insert Kind.listing.dbKey
        (mapBytes .listing (receiveCancelListing H c st).mapListings)).insert
          Kind.cancelListing.dbKey
          (mapBytes .cancelListing ((receiveCancelListing H c st).maps .cancelListing)) := by
  unfold receiveCancelListing
  split
  · rfl
  · rfl

theorem Durable.cancel (hd : Durable st) {c : CCancelListing}
    (h : StaysStored H env st ⟨.cancelListing, c⟩) : Durable (receiveCancelListing H c st) := by
  have hdb := receiveCancelListing_marketDB H c st
  have hlistings := receiveCancelListing_mapListings H c st
  have hcancels := receiveCancelListing_mapCancelListings H c st
  -- what neither of the two writes is under
  have hother : ∀ k : Kind, k ≠ .listing → k ≠ .cancelListing → Reads st k →
      Reads (receiveCancelListing H c st) k := by
    intro k hl hc hk
    refine hk.of_same (receiveCancelListing_maps_ne H c st hl hc) ?_
    rw [hdb, get_insert_ne _ _ (Ne.symm (dbKey_ne_of_own (k := .cancelListing) rfl hc)),
      get_insert_ne _ _ (Ne.symm (dbKey_ne_listing hl))]
  have hstorable : Storable .cancelListing ((receiveCancelListing H c st).maps .cancelListing) := by
    have hold := (hd.own .cancelListing rfl).storable
    rw [hcancels]
    unfold insertNew
    by_cases hin : (st.maps .cancelListing).contains (getHash H (k := .cancelListing) c) = true
    · rw [if_pos hin]
      exact hold
    · rw [if_neg hin]
      obtain ⟨hok, hwhole, hsize⟩ := h (Bool.not_eq_true _ ▸ hin)
      exact hold.insert ⟨hok, hwhole⟩ hsize
  have hmap : Storable .listing (receiveCancelListing H c st).mapListings := by
    rw [hlistings]
    exact hd.listings.storable.erase c.listingId
  refine ⟨?_, hother _ (by decide) (by decide) hd.requests,
    hother _ (by decide) (by decide) hd.rejects, ⟨?_, hmap⟩⟩
  · intro k hk
    by_cases hc : k = .cancelListing
    · subst hc
      intro mem
      rw [readStored, hdb, get_insert_self]
      exact (readBytes_mapBytes_iff mem .cancelListing _).mpr hstorable
    · exact hother k (Ne.symm (ne_of_own hk).1) hc (hd.own k hk)
  · intro mem a _
    unfold readStored
    rw [hdb, get_insert_ne _ _ (dbKey_ne_listing (k := .cancelListing) (by decide)),
      get_insert_self]
    exact congrArg (fun m : StdMap UInt256 Kind.listing.Obj => m[a]?)
      ((readBytes_mapBytes_iff mem .listing _).mpr hmap)

theorem Durable.editListing (hd : Durable st) {a : UInt256}
    (ha : st.mapListings.contains a = false → st.cancelled a = true ∧
      st.mapListings.size < MAX_SIZE) : Durable (st.editListing env a id) := by
  have hmap := editListing_mapListings env st a id
  have hother : ∀ k : Kind, k ≠ .listing → Reads st k → Reads (st.editListing env a id) k :=
    fun k hk h => h.of_same (editListing_maps_ne env st a id hk) rfl
  refine ⟨fun k hk => hother k (Ne.symm (ne_of_own hk).1) (hd.own k hk),
    hother _ (by decide) hd.requests, hother _ (by decide) hd.rejects, ?_, ?_⟩
  · intro mem h hcancelled
    rw [cancelled_congr (editListing_maps_ne env st a id (by decide))] at hcancelled
    have hread := hd.listings.read mem h hcancelled
    rw [hmap]
    cases hl : st.mapListings[a]? with
    | some l =>
      rw [updateAt_same hl rfl]
      exact hread
    | none =>
      rw [get_updateAt, if_neg]
      · exact hread
      · intro heq
        rw [heq] at hl
        have hgone := (ha (heq ▸ contains_eq_false_iff.mpr hl)).1
        rw [heq, hcancelled] at hgone
        cases hgone
  · rw [hmap]
    cases hl : st.mapListings[a]? with
    | some l =>
      rw [updateAt_same hl rfl]
      exact hd.listings.storable
    | none =>
      rw [updateAt, hl]
      have hsize := (ha (contains_eq_false_iff.mpr hl)).2
      exact hd.listings.storable.insert ⟨freshListing_ok env, trivial⟩ hsize

theorem durable_withRelease (hd : Durable st) {e : CEscrowRelease}
    (ho : Fits H st .escrowRelease e)
    (hf : RequestsFit
      (updateAt st.mapBuyRequests e.requestId (freshRequest env) fun r =>
        { r with buyerEscrowLockTxHash := e.buyerEscrowLockTxHash }) (st.maps .buyReject)) :
    Durable (withRelease H env e st) :=
  durable_keep_requests hd (k := .escrowRelease) rfl (by decide) ho hf

theorem durable_locked (hd : Durable st) {e : CEscrowRelease}
    (hm : Storable .listing (receiveEscrowRelease H env e st).1.mapListings)
    (hf : RequestsFit (receiveEscrowRelease H env e st).1.mapBuyRequests (st.maps .buyReject))
    (ho : Fits H st .escrowRelease e)
    (hdb : ∃ bytes, (receiveEscrowRelease H env e st).1.marketDB =
      (((st.keep H .escrowRelease e).marketDB.insert Kind.buyRequest.dbKey bytes).insert
        Kind.buyRequest.dbKey
          (mapBytes .buyRequest (receiveEscrowRelease H env e st).1.mapBuyRequests)).insert
            Kind.listing.dbKey
              (mapBytes .listing (receiveEscrowRelease H env e st).1.mapListings)) :
    Durable (receiveEscrowRelease H env e st).1 := by
  obtain ⟨bytes, hdb⟩ := hdb
  have hkept := hd.keep (k := .escrowRelease) rfl (by decide) ho
  have hrejects : (st.keep H .escrowRelease e).maps .buyReject = st.maps .buyReject :=
    keep_maps_ne H st (k := .escrowRelease) e (by decide)
  have hrequests := store_requests hkept.own hkept.listings (hrejects ▸ hf)
  refine (hrequests.store_listing hm).of_same ?_ ?_
  · funext k
    by_cases hl : k = .listing
    · subst hl
      rw [store_maps_self]
    · rw [store_maps_ne _ _ hl]
      by_cases hq : k = .buyRequest
      · subst hq
        rw [store_maps_self]
      · rw [store_maps_ne _ _ hq, receiveEscrowRelease_maps_ne H env e st hl hq]
  · rw [hdb, store_marketDB, store_marketDB]
    apply ext_getElem?
    intro a
    simp only [get_insert]
    -- the second write of the requests is the one that stays
    by_cases ha : Kind.buyRequest.dbKey = a
    · simp only [if_pos ha]
    · simp only [if_neg ha]

theorem Durable.release (hd : Durable st) {e : CEscrowRelease}
    (h : StaysStored H env st ⟨.escrowRelease, e⟩) :
    Durable (receiveEscrowRelease H env e st).1 := by
  obtain ⟨ho, hf, hmade⟩ := h
  have hmaps := receiveEscrowRelease_maps H env e st
  obtain ⟨hknown, hst⟩ | ⟨hknown, hmine, hst⟩ | ⟨hknown, hmine, hst⟩ :=
    receiveEscrowRelease_cases H env e st
  · rw [hst]
    rw [hknown] at hf
    exact durable_withRelease hd ho hf
  · rw [hst]
    rw [hknown, hmine] at hf
    refine (durable_withRelease hd ho hf).editListing ?_
    rw [withRelease_mapListings]
    intro hnone
    obtain ⟨hmine' | hcancelled, hsize⟩ := hmade hknown hnone
    · rw [hmine] at hmine'
      cases hmine'
    · have hcancels : (withRelease H env e st).maps .cancelListing = st.maps .cancelListing :=
        (withRelease_maps_ne H env e st (by decide)).trans
          (keep_maps_ne H st (k := .escrowRelease) e (by decide))
      exact ⟨(cancelled_congr hcancels _).trans hcancelled, hsize⟩
  · refine durable_locked hd ?_ (hmaps.2 ▸ hf) ho ?_
    · have hmap := hmaps.1
      rw [hmine, if_pos hknown] at hmap
      rw [hmap]
      cases hl : st.mapListings[e.listingId]? with
      | some l =>
        have hok := setStatus_ok (hd.listings.storable.entries _ l hl).1 .ESCROW_LOCK
        exact hd.listings.storable.updateAt hl (freshListing env) ⟨hok, trivial⟩
      | none =>
        have hsize := (hmade hknown (contains_eq_false_iff.mpr hl)).2
        have hok := setStatus_ok (freshListing_ok env) .ESCROW_LOCK
        rw [updateAt, hl]
        show Storable .listing
          (st.mapListings.insert e.listingId (setStatus .ESCROW_LOCK (freshListing env)))
        exact hd.listings.storable.insert ⟨hok, trivial⟩ hsize
    · rw [hst]
      exact ⟨_, rfl⟩

/-- **An operation that meets the condition** leaves a durable state durable. -/
theorem Durable.receive (hd : Durable st) {o : MarketObject} (h : StaysStored H env st o) :
    Durable (MarketState.receive H env o.1 o.2 st).1 := by
  obtain ⟨k, o⟩ := o
  cases k with
  | listing => exact hd.listing h
  | buyRequest => exact hd.buyRequest h
  | buyAccept => exact durable_keep_tellBuyer hd (k := .buyAccept) rfl (by decide) h.1 h.2
  | buyReject => exact hd.reject h
  | cancelListing => exact hd.cancel h
  | deliveryDetails =>
    exact (hd.keep (k := .deliveryDetails) rfl (by decide) h).tellSeller _ _ _
  | refundRequest =>
    have hkept := durable_keep_requests hd (k := .refundRequest) rfl (by decide) h.1 h.2
    exact hkept.tellSeller _ _ _
  | escrowRelease => exact hd.release h
  | escrowPayment =>
    have hkept := durable_keep_requests hd (k := .escrowPayment) rfl (by decide) h.1 h.2
    exact hkept.tellSeller _ _ _
  | paymentRequest =>
    exact durable_keep_tellBuyer hd (k := .paymentRequest) rfl (by decide) h.1 h.2

/-! ## §7. Runs. -/

variable (H)

/-- A `Receive` operation, and what it finds. -/
def receiveStep (st : MarketState) (op : MarketEnv × MarketObject) : MarketState :=
  (MarketState.receive H op.1 op.2.1 op.2.2 st).1

theorem durable_empty : Durable .empty where
  own _ _ _ := rfl
  requests _ := rfl
  rejects _ := rfl
  listings := ⟨fun _ _ _ => rfl, .empty .listing⟩

/-- **The market survives a restart**, after any number of `Receive` operations from an empty
database, if each of them meets the condition in the state it meets. -/
theorem survives_run (ops : List (MarketEnv × MarketObject))
    (h : Along (receiveStep H) (fun st op => StaysStored H op.1 st op.2) .empty ops) :
    ∀ done rest, ops = done ++ rest → Survives H (run (receiveStep H) .empty done) := by
  intro done rest hops
  rw [hops, along_append] at h
  have hdurable : Durable (run (receiveStep H) .empty done) :=
    run_invariant (I := Durable) (fun st op (hd : Durable st) hop => hd.receive hop)
      durable_empty h.1
  exact hdurable.survives

def sellerEnv : MarketEnv :=
  { sampleMarketEnv with isMine := (· == (samplePubKey 1).getID sampleHashes) }

def shippedDetails : CDeliveryDetails where
  nVersion := 1
  listingId := getHash sampleHashes (k := .listing) signedListing
  buyRequestId := 7
  sDetails := [84]
  nDate := 1700
  buyerKey := samplePubKey 2
  vchSig := []

def sellerCancel : CCancelListing :=
  ⟨1, shippedDetails.listingId, samplePubKey 1, 1800, sampleSig 1 shippedDetails.listingId⟩

def sellerRun : List (MarketEnv × MarketObject) :=
  [(sellerEnv, ⟨.listing, signedListing⟩), (sellerEnv, ⟨.deliveryDetails, shippedDetails⟩),
    (sellerEnv, ⟨.cancelListing, sellerCancel⟩)]

theorem sellerRun_survives :
    Survives sampleHashes (run (receiveStep sampleHashes) .empty sellerRun) := by
  have hlisting : (Kind.listing.codec.read sampleMemory).run
      (Kind.listing.codec.write signedListing) = some (signedListing, []) := by
    decide +kernel
  have hdetails : (Kind.deliveryDetails.codec.read sampleMemory).run
      (Kind.deliveryDetails.codec.write shippedDetails) = some (shippedDetails, []) := by
    decide +kernel
  have hcancel : (Kind.cancelListing.codec.read sampleMemory).run
      (Kind.cancelListing.codec.write sellerCancel) = some (sellerCancel, []) := by
    decide +kernel
  refine survives_run sampleHashes sellerRun ⟨?_, ?_, ?_, trivial⟩ sellerRun [] rfl
  · intro _ _
    exact ⟨(Kind.listing.codec.takes _ _ _ _ hlisting).1, trivial, by decide +kernel⟩
  · intro _
    exact ⟨(Kind.deliveryDetails.codec.takes _ _ _ _ hdetails).1, trivial, by decide +kernel⟩
  · intro _
    exact ⟨(Kind.cancelListing.codec.takes _ _ _ _ hcancel).1, trivial, by decide +kernel⟩

def sampleRequest : CBuyRequest :=
  let listingId := getHash sampleHashes (k := .listing) signedListing
  { nVersion := 1, listingId, nStatus := BUY_STATUS.BUY_REQUESTED.toInt, buyerKey := samplePubKey 2
    nDate := 0xFF0000, requestId := 7, vchSig := sampleSig 2 listingId, buyerEscrowLockTxHash := 0
    sellerEscrowLockTxHash := 0, rawTx := [], escrowAddress := [] }

def sampleReject : CBuyReject where
  nVersion := 1
  listingId := sampleRequest.listingId
  buyRequestId := sampleRequest.requestId
  nDate := 1800
  sellerKey := samplePubKey 1
  vchSig := sampleSig 1 sampleRequest.listingId

def rejectRun : List (MarketEnv × MarketObject) :=
  [(sampleMarketEnv, ⟨.buyRequest, sampleRequest⟩), (sampleMarketEnv, ⟨.buyReject, sampleReject⟩)]

/-- The rejects are written over the buy requests: after a restart the request is gone. -/
theorem request_overwritten :
    (run (receiveStep sampleHashes) .empty rejectRun).mapBuyRequests[sampleRequest.requestId]? =
        some sampleRequest ∧
      (marketInit sampleHashes (fun _ => sampleMemory)
        (run (receiveStep sampleHashes) .empty rejectRun).marketDB).mapBuyRequests[
          sampleRequest.requestId]? = none ∧
      ¬ Survives sampleHashes (run (receiveStep sampleHashes) .empty rejectRun) := by
  have hthere : (run (receiveStep sampleHashes) .empty rejectRun).mapBuyRequests[
      sampleRequest.requestId]? = some sampleRequest := by
    decide +kernel
  have hgone : (marketInit sampleHashes (fun _ => sampleMemory)
      (run (receiveStep sampleHashes) .empty rejectRun).marketDB).mapBuyRequests[
        sampleRequest.requestId]? = none := by
    decide +kernel
  refine ⟨hthere, hgone, fun h => ?_⟩
  have hmaps := h.maps (fun _ => sampleMemory) .buyRequest (by decide)
  rw [mapBuyRequests, hmaps, hthere] at hgone
  cases hgone

end Fantom.Market
