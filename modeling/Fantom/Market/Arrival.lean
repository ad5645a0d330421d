/-
  Fantom.Market.Arrival — Whether what an honest node signs and broadcasts arrives at a peer.

  * `signed_arrives_iff`.

  Delivery details are sent as "mktdet" and awaited as "mktdel", escrow payments are sent as
  "mktpay" and awaited as "mktescp".
-/
import Fantom.Market.Receive

namespace Fantom.Market

open Core Lib

/-! ## §1. Commands, and what is read back. -/

/-- The kinds whose command a peer does not know. -/
def Kind.unheard : Kind → Bool
  | deliveryDetails => true
  | escrowPayment => true
  | _ => false

theorem received_sent (k : Kind) : Kind.received k.sent = if k.unheard then none else some k := by
  cases k <;> decide

/-- What is not written is empty: the signature of a refund request, and the id of the buy
request of an escrow payment. -/
def Whole : (k : Kind) → k.Obj → Prop
  | .refundRequest, o => o.vchSig = []
  | .escrowPayment, o => o.requestId = 0
  | _, _ => True

theorem norm_eq_iff (k : Kind) (o : k.Obj) : k.codec.norm o = o ↔ Whole k o := by
  cases k with
  | refundRequest =>
    constructor
    · intro h
      exact (congrArg CRefundRequest.vchSig h).symm
    · intro h
      have hempty : CRefundRequest.vchSig o = [] := h
      show CRefundRequest.mk _ _ _ _ _ [] _ = o
      rw [← hempty]
      rfl
  | escrowPayment =>
    constructor
    · intro h
      exact (congrArg CEscrowPayment.requestId h).symm
    · intro h
      have hzero : CEscrowPayment.requestId o = 0 := h
      show CEscrowPayment.mk _ _ _ _ _ _ 0 _ = o
      rw [← hzero]
      rfl
  | _ => exact iff_of_true rfl trivial

/-- **What a peer reads** of an object that is pushed is this object exactly if the peer
knows its command, its strings are not too long, and nothing of it is left out. -/
theorem readMessage_iff (mem : Memory) (o : MarketObject) :
    readMessage mem (message o).1 (message o).2 = some o ↔
      o.1.unheard = false ∧ o.1.codec.Ok o.2 ∧ Whole o.1 o.2 := by
  obtain ⟨k, o⟩ := o
  have hread : readMessage mem k.sent (k.codec.write o) =
      if k.unheard then none
      else ((k.codec.read mem).run (k.codec.write o)).map fun p => ⟨k, p.1⟩ := by
    rw [readMessage, received_sent]
    cases k.unheard with
    | true => rfl
    | false =>
      show ((k.codec.read mem).run (k.codec.write o) >>= fun p => some _) = _
      cases (k.codec.read mem).run (k.codec.write o) with
      | none => rfl
      | some p => rfl
  show readMessage mem k.sent (k.codec.write o) = _ ↔ _
  rw [hread, ← norm_eq_iff]
  cases hk : k.unheard with
  | true => simp
  | false =>
    constructor
    · intro h
      obtain ⟨p, hp, heq⟩ := Option.map_eq_some_iff.mp h
      obtain rfl : p.1 = o := by simpa using heq
      have hback := k.codec.takes mem _ p.1 p.2 hp
      exact ⟨rfl, hback.1, hback.2⟩
    · intro h
      have hback := k.codec.reads mem o [] h.2.1
      rw [List.append_nil, h.2.2] at hback
      rw [hback]
      rfl

/-! ## §2. Arrival. -/

variable (C : MarketCrypto)

/-- **The message arrives**: it is not refused for its size, the peer reads the object that was
sent (it keeps, hashes and relays all of it), finds its signature right, and charges nobody. -/
structure Arrives (o : MarketObject) : Prop where
  delivered : (message o).2.length ≤ MAX_SIZE
  read : ∀ mem, readMessage mem (message o).1 (message o).2 = some o
  checked : checkSignature C o.2 = true
  spared : ∀ mem env st howmuch,
    .misbehaving howmuch ∉ (marketProcessMessage C mem env (message o).1 (message o).2 st).2

/-- The private key that a wallet has for a public key is the one of that public key: what it
signs verifies. -/
def KeysVerify (getKey : UInt160 → Option C.CKey) : Prop :=
  ∀ (pubkey : PubKey) (key : C.CKey) (hash : UInt256) (vchSig : List UInt8),
    getKey (pubkey.getID C.toHashes) = some key → C.sign key hash = some vchSig →
      pubkey.verify C hash vchSig = true

/-- **What arrives** of the signed objects: those of the kinds with one command that are
written whole, not too large; of a payment request, whose hash covers its signature, one
where the signature happens to be right for the hash with it as well. -/
structure Travels (o : MarketObject) : Prop where
  delivered : (message o).2.length ≤ MAX_SIZE
  strings : o.1.codec.Ok o.2
  kind : o.1 ≠ .deliveryDetails ∧ o.1 ≠ .escrowPayment ∧ o.1 ≠ .refundRequest
  covered : o.1 = .paymentRequest →
    (signerKey o.1 o.2).verify C (getHash C.toHashes o.2) (signature o.1 o.2) = true

variable {C}

theorem signerKey_withSignature (vchSig : List UInt8) (k : Kind) (o : k.Obj) :
    signerKey k (withSignature vchSig k o) = signerKey k o := by
  cases k <;> rfl

theorem signature_withSignature (vchSig : List UInt8) (k : Kind) (o : k.Obj) :
    signature k (withSignature vchSig k o) = vchSig := by
  cases k <;> rfl

theorem signedHash_withSignature (H : Hashes) (vchSig : List UInt8) {k : Kind} (o : k.Obj)
    (hk : k ≠ .paymentRequest) :
    signedHash H k (withSignature vchSig k o) = signedHash H k o := by
  cases k <;> first | rfl | exact absurd rfl hk

theorem spared_of_read {mem : Memory} {env : MarketEnv} {st : MarketState} {o : MarketObject}
    (hread : readMessage mem (message o).1 (message o).2 = some o)
    (hcheck : checkSignature C o.2 = true) (howmuch : Nat) :
    .misbehaving howmuch ∉ (marketProcessMessage C mem env (message o).1 (message o).2 st).2 := by
  have hinv : (message o).1 ≠ "mktinv" := by
    obtain ⟨k, o⟩ := o
    show k.sent ≠ _
    cases k <;> decide
  rw [marketProcessMessage, if_neg hinv, hread]
  show _ ∉ (processObject C env o st).2
  rw [processObject, hcheck]
  cases hfound : (MarketState.receive C.toHashes env o.1 o.2 st).2 with
  | true => simp [hfound]
  | false => simp [hfound]

theorem checkSignature_of_sign {getKey : UInt160 → Option C.CKey} (hkeys : KeysVerify C getKey)
    {k : Kind} {o signed : k.Obj} (hsign : sign C getKey o = some signed)
    (hk : k ≠ .paymentRequest) : checkSignature C signed = true := by
  obtain ⟨key, hkey, hrest⟩ := Option.bind_eq_some_iff.mp hsign
  obtain ⟨vchSig, hsig, hsigned⟩ := Option.bind_eq_some_iff.mp hrest
  cases hsigned
  unfold checkSignature signedBy
  rw [signerKey_withSignature, signature_withSignature, signedHash_withSignature _ _ _ hk]
  exact hkeys _ key _ vchSig hkey hsig

/-- **A signed object arrives exactly if it travels.** -/
theorem signed_arrives_iff (C : MarketCrypto) (getKey : UInt160 → Option C.CKey)
    (hkeys : KeysVerify C getKey) {k : Kind} {o signed : k.Obj}
    (hsign : sign C getKey o = some signed) :
    Arrives C ⟨k, signed⟩ ↔ Travels C ⟨k, signed⟩ := by
  constructor
  · intro h
    have hread := (readMessage_iff (fun _ => .replicate 64 0) ⟨k, signed⟩).mp (h.read _)
    refine ⟨h.delivered, hread.2.1, ⟨?_, ?_, ?_⟩, ?_⟩
    · intro hk
      obtain rfl : k = .deliveryDetails := hk
      cases hread.1
    · intro hk
      obtain rfl : k = .escrowPayment := hk
      cases hread.1
    · -- without its signature, a refund request is not right
      intro hk
      obtain rfl : k = .refundRequest := hk
      have hempty : CRefundRequest.vchSig signed = [] := hread.2.2
      have hcheck := h.checked
      change (CRefundRequest.buyerKey signed).verify C _ (CRefundRequest.vchSig signed) = true
        at hcheck
      rw [hempty, PubKey.verify_nil] at hcheck
      cases hcheck
    · intro hk
      obtain rfl : k = .paymentRequest := hk
      exact h.checked
  · intro h
    have hread : ∀ mem, readMessage mem (message ⟨k, signed⟩).1 (message ⟨k, signed⟩).2 =
        some ⟨k, signed⟩ := by
      intro mem
      rw [readMessage_iff]
      have hkind := h.kind
      refine ⟨?_, h.strings, ?_⟩
      · cases k <;> first | rfl | exact absurd rfl hkind.1 | exact absurd rfl hkind.2.1
      · cases k <;> first | trivial | exact absurd rfl hkind.2.1 | exact absurd rfl hkind.2.2
    have hcheck : checkSignature C signed = true := by
      by_cases hk : k = .paymentRequest
      · subst hk
        exact h.covered rfl
      · exact checkSignature_of_sign hkeys hsign hk
    exact ⟨h.delivered, hread, hcheck, fun mem _ _ howmuch => spared_of_read (hread mem) hcheck
      howmuch⟩

/-! ## §3. An executable instance. -/

theorem sample_keysVerify : KeysVerify sampleMarketCrypto (sampleWallet 1) := by
  intro pubkey key hash vchSig hkey hsig
  unfold sampleWallet at hkey
  split at hkey
  next hid =>
    cases hkey
    cases hsig
    unfold PubKey.verify
    have hvch : pubkey.vch ≠ [] := by
      intro hempty
      change sampleHashes.hash160 pubkey.vch = _ at hid
      rw [hempty] at hid
      exact absurd hid (by decide +kernel)
    have hlen : leBytes 20 ((pubkey.getID sampleMarketCrypto.toHashes)).toNat ++
        leBytes 32 hash.toNat ≠ [] := by
      intro hnil
      have hzero := congrArg List.length hnil
      simp at hzero
    rw [if_neg hvch, if_neg hlen]
    exact beq_self_eq_true _
  next => cases hkey

/-- A signed listing arrives. -/
theorem sample_arrives : Arrives sampleMarketCrypto ⟨.listing, signedListing⟩ := by
  have hread : readMessage sampleMemory "mktlst" (Kind.listing.codec.write signedListing) =
      some ⟨.listing, signedListing⟩ := by
    decide +kernel
  have hstrings := ((readMessage_iff sampleMemory ⟨.listing, signedListing⟩).mp hread).2.1
  exact (signed_arrives_iff sampleMarketCrypto (sampleWallet 1) sample_keysVerify (k := .listing)
    (o := sampleListing) (by decide +kernel)).mpr
      ⟨by decide +kernel, hstrings, by decide, fun h => by cases h⟩

def sampleRefund : CRefundRequest :=
  ⟨1, getHash sampleHashes (k := .listing) signedListing, 7, 1600, samplePubKey 1, [], [1]⟩

def signedRefund : CRefundRequest :=
  { sampleRefund with vchSig := sampleSig 1 sampleRefund.listingId }

/-- A signed refund request does not arrive: who relays it is charged with misbehaviour. -/
theorem refund_charged :
    sign sampleMarketCrypto (sampleWallet 1) (k := .refundRequest) sampleRefund =
        some signedRefund ∧
      ¬ Arrives sampleMarketCrypto ⟨.refundRequest, signedRefund⟩ ∧
      .misbehaving 20 ∈ (marketProcessMessage sampleMarketCrypto sampleMemory sampleMarketEnv
        (message ⟨.refundRequest, signedRefund⟩).1 (message ⟨.refundRequest, signedRefund⟩).2
          .empty).2 := by
  have hcharged : .misbehaving 20 ∈ (marketProcessMessage sampleMarketCrypto sampleMemory
      sampleMarketEnv (message ⟨.refundRequest, signedRefund⟩).1
        (message ⟨.refundRequest, signedRefund⟩).2 .empty).2 := by
    decide +kernel
  refine ⟨by decide +kernel, ?_, hcharged⟩
  intro h
  exact h.spared _ _ _ 20 hcharged

end Fantom.Market
