/-
  Fantom.Market.Objects — What market nodes tell each other: ten kinds of objects, how they are
  written and read, hashed and signed.

  * `PubKey` — a key in an object, as its array of 65 bytes holds it.

  `CRefundRequest` is written without its `vchSig`, and `CEscrowPayment` without its `requestId`.
-/
import Fantom.Core.Wire
import Fantom.Lib.Codec
import Fantom.Script.Signature

namespace Fantom.Market

open Core Lib Script

/-! ## §1. Fields. -/

/-- `std::string`, as bytes. -/
abbrev StdString := List UInt8

/-- The hash functions, and OpenSSL: `CKey::Sign`, and `CECKey::Verify` of a signature that
is not empty by a key that is valid. -/
structure MarketCrypto extends Hashes where
  CKey : Type
  sign : CKey → UInt256 → Option (List UInt8)
  verify : CPubKey → UInt256 → List UInt8 → Bool

/-- `CPubKey`: as many bytes as the first of them says, or none. -/
@[ext]
structure PubKey where
  vch : CPubKey
  held : vch = [] ∨ pubKeyIsValid vch = true
  deriving DecidableEq

/-- `CPubKey()` -/
def PubKey.invalid : PubKey := ⟨[], .inl rfl⟩

def PubKey.ofArray (vch : List UInt8) : PubKey :=
  if h : pubKeyIsValid (vch.take (pubKeyLen (vch.headD 0xFF))) = true then ⟨_, .inr h⟩
  else .invalid

variable (H : Hashes)

def PubKey.getID (key : PubKey) : UInt160 := H.hash160 key.vch

def PubKey.verify (C : MarketCrypto) (key : PubKey) (hash : UInt256) (vchSig : List UInt8) :
    Bool :=
  if key.vch = [] then false
  else if vchSig = [] then false
  else C.verify key.vch hash vchSig

variable (C : MarketCrypto) (key : PubKey)

theorem PubKey.verify_nil (hash : UInt256) : key.verify C hash [] = false := by
  unfold PubKey.verify
  split
  · rfl
  · rfl

/-- The 64 bytes behind the first that the array of a key happens to hold before it is read,
for the key that is read with so many bytes left. -/
abbrev Memory := Nat → Vector UInt8 64

/-- `CPubKey::Unserialize` into a new key, whose first byte is 0xFF. -/
def readPubKey (mem : Memory) : Reader UInt8 PubKey := do
  let left ← get
  let len ← readCompactSize
  if len ≤ 65 then
    let vch ← readTake len
    return .ofArray (vch ++ (0xFF :: (mem left.length).toList).drop len)
  else
    -- the bytes are skipped one by one
    let _ ← readTake len
    return .invalid

theorem pubKeyLen_le (chHeader : UInt8) : pubKeyLen chHeader ≤ 65 := by
  unfold pubKeyLen
  split
  · omega
  · split
    · omega
    · omega

theorem PubKey.length_le : key.vch.length ≤ 65 := by
  obtain ⟨vch, rfl | hvalid⟩ := key
  · simp
  · cases vch with
    | nil => simp
    | cons chHeader vch =>
      have hlen := pubKeyLen_le chHeader
      simp [pubKeyIsValid] at hvalid
      show vch.length + 1 ≤ 65
      omega

theorem PubKey.ofArray_eq {array : List UInt8} {key : PubKey}
    (hvalid : pubKeyIsValid key.vch = true)
    (h : array.take (pubKeyLen (array.headD 0xFF)) = key.vch) : PubKey.ofArray array = key := by
  rw [PubKey.ofArray, dif_pos (by rw [h]; exact hvalid)]
  exact PubKey.ext h

theorem PubKey.ofArray_append (mem : Vector UInt8 64) :
    PubKey.ofArray (key.vch ++ (0xFF :: mem.toList).drop key.vch.length) = key := by
  obtain ⟨vch, rfl | hvalid⟩ := key
  · rfl
  · cases vch with
    | nil => cases hvalid
    | cons chHeader vch =>
      have hlen : pubKeyLen chHeader = (chHeader :: vch).length := by
        simp [pubKeyIsValid] at hvalid
        show _ = vch.length + 1
        omega
      have htake : ((chHeader :: vch) ++ (0xFF :: mem.toList).drop (chHeader :: vch).length).take
          (pubKeyLen chHeader) = chHeader :: vch := by
        rw [hlen, List.take_left]
      exact PubKey.ofArray_eq hvalid htake

def pubKey : Codec Memory UInt8 PubKey where
  write key := serializeBytes key.vch
  read := readPubKey
  Ok _ := True
  norm := id
  reads := by
    intro mem key rest _
    have hlen := key.length_le
    have hmax : (65 : Nat) ≤ MAX_SIZE := by decide
    have hsize := format_compactSize.reads key.vch.length (key.vch ++ rest) (by omega)
    unfold readPubKey serializeBytes
    rw [run_bind_of_eq (show StateT.run get _ = some (_, _) from rfl), List.append_assoc,
      run_bind_of_eq hsize, id_eq, if_pos hlen, run_bind_of_eq (readTake_append key.vch rest),
      key.ofArray_append]
    rfl
  takes _ _ _ _ _ := ⟨trivial, rfl⟩

def int32 : Codec Memory UInt8 Int32 := .ofFormat format_int32
def int64 : Codec Memory UInt8 Int64 := .ofFormat format_int64
def uint256 : Codec Memory UInt8 UInt256 := .ofFormat format_uint256

/-- A vector of bytes, or a string: its size, then its bytes. -/
def bytes : Codec Memory UInt8 (List UInt8) := .ofFormat format_bytes

/-! ## §2. The objects. -/

/-- `BUY_STATUS` -/
inductive BUY_STATUS where
  | LISTED
  | BUY_REQUESTED
  | BUY_ACCEPTED
  | BUY_REJECTED
  | ESCROW_LOCK
  | DELIVERY_DETAILS
  | ESCROW_PAID
  | REFUND_REQUESTED
  | REFUNDED
  | PAYMENT_REQUESTED
  deriving DecidableEq

/-- The number that a status is stored as. -/
def BUY_STATUS.toInt : BUY_STATUS → Int32
  | LISTED => 0
  | BUY_REQUESTED => 1
  | BUY_ACCEPTED => 2
  | BUY_REJECTED => 3
  | ESCROW_LOCK => 4
  | DELIVERY_DETAILS => 5
  | ESCROW_PAID => 6
  | REFUND_REQUESTED => 7
  | REFUNDED => 8
  | PAYMENT_REQUESTED => 9

instance : Coe BUY_STATUS Int32 := ⟨BUY_STATUS.toInt⟩

structure CCancelListing where
  nVersion : Int32
  listingId : UInt256
  sellerKey : PubKey
  nDate : Int64
  vchSig : List UInt8
  deriving DecidableEq

def CCancelListing.codec : Codec Memory UInt8 CCancelListing :=
  (int32.seq <| uint256.seq <| pubKey.seq <| int64.seq bytes).record
    (fun c => (c.nVersion, c.listingId, c.sellerKey, c.nDate, c.vchSig))
    (fun (nVersion, listingId, sellerKey, nDate, vchSig) =>
      { nVersion, listingId, sellerKey, nDate, vchSig })

/-- `CDeliveryDetails`: where the buyer wants the goods. -/
structure CDeliveryDetails where
  nVersion : Int32
  listingId : UInt256
  buyRequestId : UInt256
  sDetails : StdString
  nDate : Int64
  buyerKey : PubKey
  vchSig : List UInt8
  deriving DecidableEq

def CDeliveryDetails.codec : Codec Memory UInt8 CDeliveryDetails :=
  (int32.seq <| uint256.seq <| uint256.seq <| bytes.seq <| int64.seq <| pubKey.seq bytes).record
    (fun d => (d.nVersion, d.listingId, d.buyRequestId, d.sDetails, d.nDate, d.buyerKey, d.vchSig))
    (fun (nVersion, listingId, buyRequestId, sDetails, nDate, buyerKey, vchSig) =>
      { nVersion, listingId, buyRequestId, sDetails, nDate, buyerKey, vchSig })

/-- `CRefundRequest`: the buyer asks for the money back. -/
structure CRefundRequest where
  nVersion : Int32
  listingId : UInt256
  buyRequestId : UInt256
  nDate : Int64
  buyerKey : PubKey
  vchSig : List UInt8
  rawTx : StdString
  deriving DecidableEq

/-- `vchSig` is not written, and is empty in what is read. -/
def CRefundRequest.codec : Codec Memory UInt8 CRefundRequest :=
  (int32.seq <| uint256.seq <| uint256.seq <| int64.seq <| pubKey.seq bytes).record
    (fun r => (r.nVersion, r.listingId, r.buyRequestId, r.nDate, r.buyerKey, r.rawTx))
    (fun (nVersion, listingId, buyRequestId, nDate, buyerKey, rawTx) =>
      { nVersion, listingId, buyRequestId, nDate, buyerKey, vchSig := [], rawTx })

/-- `CPaymentRequest`: the seller asks for the money. -/
structure CPaymentRequest where
  nVersion : Int32
  raw : StdString
  nDate : Int64
  sellerKey : PubKey
  listingId : UInt256
  requestId : UInt256
  vchSig : List UInt8
  rawTx : StdString
  deriving DecidableEq

def CPaymentRequest.codec : Codec Memory UInt8 CPaymentRequest :=
  (int32.seq <| bytes.seq <| int64.seq <| pubKey.seq <| uint256.seq <| uint256.seq <|
      bytes.seq bytes).record
    (fun r => (r.nVersion, r.raw, r.nDate, r.sellerKey, r.listingId, r.requestId, r.vchSig,
      r.rawTx))
    (fun (nVersion, raw, nDate, sellerKey, listingId, requestId, vchSig, rawTx) =>
      { nVersion, raw, nDate, sellerKey, listingId, requestId, vchSig, rawTx })

/-- `CEscrowRelease`: the transaction with which the buyer locks. -/
structure CEscrowRelease where
  nVersion : Int32
  raw : StdString
  nDate : Int64
  buyerKey : PubKey
  listingId : UInt256
  requestId : UInt256
  vchSig : List UInt8
  buyerEscrowLockTxHash : UInt256
  deriving DecidableEq

def CEscrowRelease.codec : Codec Memory UInt8 CEscrowRelease :=
  (int32.seq <| bytes.seq <| int64.seq <| pubKey.seq <| uint256.seq <| uint256.seq <|
      bytes.seq uint256).record
    (fun r => (r.nVersion, r.raw, r.nDate, r.buyerKey, r.listingId, r.requestId, r.vchSig,
      r.buyerEscrowLockTxHash))
    (fun (nVersion, raw, nDate, buyerKey, listingId, requestId, vchSig, buyerEscrowLockTxHash) =>
      { nVersion, raw, nDate, buyerKey, listingId, requestId, vchSig, buyerEscrowLockTxHash })

/-- `CEscrowPayment`: the buyer has signed the payment. -/
structure CEscrowPayment where
  nVersion : Int32
  raw : StdString
  nDate : Int64
  buyerKey : PubKey
  vchSig : List UInt8
  listingId : UInt256
  requestId : UInt256
  rawTx : StdString
  deriving DecidableEq

/-- `requestId` is not written, and is 0 in what is read. -/
def CEscrowPayment.codec : Codec Memory UInt8 CEscrowPayment :=
  (int32.seq <| bytes.seq <| int64.seq <| pubKey.seq <| uint256.seq <| bytes.seq bytes).record
    (fun p => (p.nVersion, p.raw, p.nDate, p.buyerKey, p.listingId, p.vchSig, p.rawTx))
    (fun (nVersion, raw, nDate, buyerKey, listingId, vchSig, rawTx) =>
      { nVersion, raw, nDate, buyerKey, vchSig, listingId, requestId := 0, rawTx })

/-- `CBuyAccept`: the seller takes the request. -/
structure CBuyAccept where
  nVersion : Int32
  listingId : UInt256
  buyRequestId : UInt256
  nDate : Int64
  raw : StdString
  sellerKey : PubKey
  vchSig : List UInt8
  sellerEscrowLockTxHash : UInt256
  escrowAddress : StdString
  deriving DecidableEq

def CBuyAccept.codec : Codec Memory UInt8 CBuyAccept :=
  (int32.seq <| uint256.seq <| uint256.seq <| int64.seq <| bytes.seq <| pubKey.seq <|
      bytes.seq <| uint256.seq bytes).record
    (fun a => (a.nVersion, a.listingId, a.buyRequestId, a.nDate, a.raw, a.sellerKey, a.vchSig,
      a.sellerEscrowLockTxHash, a.escrowAddress))
    (fun (nVersion, listingId, buyRequestId, nDate, raw, sellerKey, vchSig,
        sellerEscrowLockTxHash, escrowAddress) =>
      { nVersion, listingId, buyRequestId, nDate, raw, sellerKey, vchSig, sellerEscrowLockTxHash,
        escrowAddress })

/-- `CBuyReject`: the seller turns the request down. -/
structure CBuyReject where
  nVersion : Int32
  listingId : UInt256
  buyRequestId : UInt256
  nDate : Int64
  sellerKey : PubKey
  vchSig : List UInt8
  deriving DecidableEq

def CBuyReject.codec : Codec Memory UInt8 CBuyReject :=
  (int32.seq <| uint256.seq <| uint256.seq <| int64.seq <| pubKey.seq bytes).record
    (fun r => (r.nVersion, r.listingId, r.buyRequestId, r.nDate, r.sellerKey, r.vchSig))
    (fun (nVersion, listingId, buyRequestId, nDate, sellerKey, vchSig) =>
      { nVersion, listingId, buyRequestId, nDate, sellerKey, vchSig })

/-- `CBuyRequest`: the buyer asks for a listing. -/
structure CBuyRequest where
  nVersion : Int32
  listingId : UInt256
  nStatus : Int32
  buyerKey : PubKey
  nDate : Int64
  requestId : UInt256
  vchSig : List UInt8
  buyerEscrowLockTxHash : UInt256
  sellerEscrowLockTxHash : UInt256
  rawTx : StdString
  escrowAddress : StdString
  deriving DecidableEq

def CBuyRequest.codec : Codec Memory UInt8 CBuyRequest :=
  (int32.seq <| uint256.seq <| int32.seq <| pubKey.seq <| int64.seq <| bytes.seq <|
      uint256.seq <| uint256.seq <| uint256.seq <| bytes.seq bytes).record
    (fun r => (r.nVersion, r.listingId, r.nStatus, r.buyerKey, r.nDate, r.vchSig, r.requestId,
      r.buyerEscrowLockTxHash, r.sellerEscrowLockTxHash, r.rawTx, r.escrowAddress))
    (fun (nVersion, listingId, nStatus, buyerKey, nDate, vchSig, requestId,
        buyerEscrowLockTxHash, sellerEscrowLockTxHash, rawTx, escrowAddress) =>
      { nVersion, listingId, nStatus, buyerKey, nDate, requestId, vchSig, buyerEscrowLockTxHash,
        sellerEscrowLockTxHash, rawTx, escrowAddress })

/-- `CMarketListing`: what is for sale. -/
structure CMarketListing where
  nVersion : Int32
  sCategory : StdString
  sTitle : StdString
  sDescription : StdString
  sImageOneUrl : StdString
  sImageTwoUrl : StdString
  nPrice : Int64
  nCreated : Int64
  sellerKey : PubKey
  nStatus : Int32
  deriving DecidableEq

def CMarketListing.codec : Codec Memory UInt8 CMarketListing :=
  (int32.seq <| bytes.seq <| bytes.seq <| bytes.seq <| bytes.seq <| bytes.seq <| int64.seq <|
      int64.seq <| pubKey.seq int32).record
    (fun l => (l.nVersion, l.sCategory, l.sTitle, l.sDescription, l.sImageOneUrl,
      l.sImageTwoUrl, l.nPrice, l.nCreated, l.sellerKey, l.nStatus))
    (fun (nVersion, sCategory, sTitle, sDescription, sImageOneUrl, sImageTwoUrl, nPrice,
        nCreated, sellerKey, nStatus) =>
      { nVersion, sCategory, sTitle, sDescription, sImageOneUrl, sImageTwoUrl, nPrice, nCreated,
        sellerKey, nStatus })

def CMarketListing.getHash (l : CMarketListing) : UInt256 :=
  H.hash (CMarketListing.codec.write l)

structure CSignedMarketListing where
  nVersion : Int32
  listing : CMarketListing
  vchListingSig : List UInt8
  deriving DecidableEq

def CSignedMarketListing.codec : Codec Memory UInt8 CSignedMarketListing :=
  (int32.seq <| CMarketListing.codec.seq bytes).record
    (fun l => (l.nVersion, l.listing, l.vchListingSig))
    (fun (nVersion, listing, vchListingSig) => { nVersion, listing, vchListingSig })

/-! ## §3. The ten kinds together. -/

/-- The kinds of messages. -/
inductive Kind where
  | listing
  | buyRequest
  | buyAccept
  | buyReject
  | cancelListing
  | deliveryDetails
  | refundRequest
  | escrowRelease
  | escrowPayment
  | paymentRequest
  deriving DecidableEq

/-- The class of a kind. -/
abbrev Kind.Obj : Kind → Type
  | listing => CSignedMarketListing
  | buyRequest => CBuyRequest
  | buyAccept => CBuyAccept
  | buyReject => CBuyReject
  | cancelListing => CCancelListing
  | deliveryDetails => CDeliveryDetails
  | refundRequest => CRefundRequest
  | escrowRelease => CEscrowRelease
  | escrowPayment => CEscrowPayment
  | paymentRequest => CPaymentRequest

instance : (k : Kind) → DecidableEq k.Obj
  | .listing => inferInstanceAs (DecidableEq CSignedMarketListing)
  | .buyRequest => inferInstanceAs (DecidableEq CBuyRequest)
  | .buyAccept => inferInstanceAs (DecidableEq CBuyAccept)
  | .buyReject => inferInstanceAs (DecidableEq CBuyReject)
  | .cancelListing => inferInstanceAs (DecidableEq CCancelListing)
  | .deliveryDetails => inferInstanceAs (DecidableEq CDeliveryDetails)
  | .refundRequest => inferInstanceAs (DecidableEq CRefundRequest)
  | .escrowRelease => inferInstanceAs (DecidableEq CEscrowRelease)
  | .escrowPayment => inferInstanceAs (DecidableEq CEscrowPayment)
  | .paymentRequest => inferInstanceAs (DecidableEq CPaymentRequest)

/-- Its `IMPLEMENT_SERIALIZE`. -/
def Kind.codec : (k : Kind) → Codec Memory UInt8 k.Obj
  | listing => CSignedMarketListing.codec
  | buyRequest => CBuyRequest.codec
  | buyAccept => CBuyAccept.codec
  | buyReject => CBuyReject.codec
  | cancelListing => CCancelListing.codec
  | deliveryDetails => CDeliveryDetails.codec
  | refundRequest => CRefundRequest.codec
  | escrowRelease => CEscrowRelease.codec
  | escrowPayment => CEscrowPayment.codec
  | paymentRequest => CPaymentRequest.codec

abbrev MarketObject := (k : Kind) × k.Obj

/-- `GetHash`: `SerializeHash(*this)`. -/
def getHash {k : Kind} (o : k.Obj) : UInt256 := H.hash (k.codec.write o)

/-! ## §4. Signatures. -/

/-- The key that an object names as its signer's. -/
def signerKey : (k : Kind) → k.Obj → PubKey
  | .listing, l => l.listing.sellerKey
  | .buyRequest, req => req.buyerKey
  | .buyAccept, req => req.sellerKey
  | .buyReject, req => req.sellerKey
  | .cancelListing, req => req.sellerKey
  | .deliveryDetails, req => req.buyerKey
  | .refundRequest, req => req.buyerKey
  | .escrowRelease, req => req.buyerKey
  | .escrowPayment, req => req.buyerKey
  | .paymentRequest, request => request.sellerKey

/-- What is signed: of a listing the inner listing, of a payment request all of it, its
signature included, and of the others the id of a listing. -/
def signedHash : (k : Kind) → k.Obj → UInt256
  | .listing, l => l.listing.getHash H
  | .buyRequest, req => req.listingId
  | .buyAccept, req => req.listingId
  | .buyReject, req => req.listingId
  | .cancelListing, req => req.listingId
  | .deliveryDetails, req => req.listingId
  | .refundRequest, req => req.listingId
  | .escrowRelease, req => req.listingId
  | .escrowPayment, req => req.listingId
  | .paymentRequest, request => getHash H (k := .paymentRequest) request

/-- The field with the signature. -/
def signature : (k : Kind) → k.Obj → List UInt8
  | .listing, l => l.vchListingSig
  | .buyRequest, req => req.vchSig
  | .buyAccept, req => req.vchSig
  | .buyReject, req => req.vchSig
  | .cancelListing, req => req.vchSig
  | .deliveryDetails, req => req.vchSig
  | .refundRequest, req => req.vchSig
  | .escrowRelease, req => req.vchSig
  | .escrowPayment, req => req.vchSig
  | .paymentRequest, request => request.vchSig

def withSignature (vchSig : List UInt8) : (k : Kind) → k.Obj → k.Obj
  | .listing, l => { l with vchListingSig := vchSig }
  | .buyRequest, req => { req with vchSig := vchSig }
  | .buyAccept, req => { req with vchSig := vchSig }
  | .buyReject, req => { req with vchSig := vchSig }
  | .cancelListing, req => { req with vchSig := vchSig }
  | .deliveryDetails, req => { req with vchSig := vchSig }
  | .refundRequest, req => { req with vchSig := vchSig }
  | .escrowRelease, req => { req with vchSig := vchSig }
  | .escrowPayment, req => { req with vchSig := vchSig }
  | .paymentRequest, request => { request with vchSig := vchSig }

/-- The signature of an object is one by `key`. -/
def signedBy {k : Kind} (o : k.Obj) : Bool :=
  key.verify C (signedHash C.toHashes k o) (signature k o)

/-- `CheckSignature`, of each kind. -/
def checkSignature {k : Kind} (o : k.Obj) : Bool :=
  signedBy C (signerKey k o) o

/-- `SignListing`, `SignBuyRequest`, …: by the key of the wallet for the key that the object
names, over the object as it is, and the result put into it. -/
def sign (C : MarketCrypto) (getKey : UInt160 → Option C.CKey) {k : Kind} (o : k.Obj) :
    Option k.Obj := do
  let key ← getKey ((signerKey k o).getID C.toHashes)
  let vchSig ← C.sign key (signedHash C.toHashes k o)
  return withSignature vchSig k o

/-! ## An executable instance.

A private key is the id of its public key, and a signature is this id and the hash it signs.
The public key `n` has `n` in its bytes. -/

def sampleMarketCrypto : MarketCrypto where
  toHashes := sampleHashes
  CKey := UInt160
  sign key hash := some (leBytes 20 key.toNat ++ leBytes 32 hash.toNat)
  verify vch hash vchSig :=
    vchSig == leBytes 20 (sampleHashes.hash160 vch).toNat ++ leBytes 32 hash.toNat

def samplePubKey (n : UInt8) : PubKey := ⟨2 :: List.replicate 32 n, .inr rfl⟩

def sampleWallet (n : UInt8) (keyID : UInt160) : Option UInt160 :=
  if keyID = (samplePubKey n).getID sampleHashes then some keyID else none

def sampleSig (n : UInt8) (hash : UInt256) : List UInt8 :=
  leBytes 20 ((samplePubKey n).getID sampleHashes).toNat ++ leBytes 32 hash.toNat

def sampleListing : CSignedMarketListing where
  nVersion := 1
  listing :=
    { nVersion := 1, sCategory := [67], sTitle := [84], sDescription := [], sImageOneUrl := []
      sImageTwoUrl := [], nPrice := 500, nCreated := 1000, sellerKey := samplePubKey 1
      nStatus := BUY_STATUS.LISTED.toInt }
  vchListingSig := []

def signedListing : CSignedMarketListing :=
  { sampleListing with vchListingSig := sampleSig 1 (sampleListing.listing.getHash sampleHashes) }

/-- `SignListing` gives that signature. -/
example : sign sampleMarketCrypto (sampleWallet 1) (k := .listing) sampleListing =
    some signedListing := by
  decide +kernel

end Fantom.Market
