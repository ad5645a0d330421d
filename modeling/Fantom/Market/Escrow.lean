/-
  Fantom.Market.Escrow — `PayEscrow` and `RefundEscrow`: the transactions that are to spend the two
  outputs in escrow.

  * `escrow_spent_iff` — when the outpoints are those in escrow.

  Half of the amount that is handed over is taken for the number of the output.
-/
import Fantom.Market.Receive
import Fantom.Market.SignMultiSig
import Fantom.Script.Destinations

namespace Fantom.Market

open Core Lib Chain Script Int64

/-! ## §1. The transactions. -/

variable (node : SigningNode)

/-- `CTxIn(COutPoint(hash, nAmount))`, the number of whose output is an `unsigned int`. -/
def escrowIn (hash : UInt256) (nAmount : Int64) : CTxIn :=
  ⟨⟨hash, nAmount.toUInt64.toUInt32⟩, [], [], 0xffffffff⟩

/-- `CTxOut(nAmount, scriptPubKey)`, to the address of a key. -/
def escrowOut (nAmount : Int64) (key : PubKey) : CTxOut :=
  ⟨nAmount, -10, CScript.setDestination (.CKeyID (key.getID node.chain.H))⟩

variable (buyerTxHash sellerTxHash : UInt256)

/-- `CTransaction rawTx`, with two inputs and these outputs. -/
def escrowTx (nOutput : Int64) (vout : List CTxOut) : CTransaction :=
  { CTransaction.null node.chain.nAdjustedTime.toUInt64.toUInt32 with
    vin := [escrowIn buyerTxHash nOutput, escrowIn sellerTxHash nOutput]
    vout }

/-- `PayEscrow` signs `tx`. -/
def PayEscrow (sellerKey : PubKey) (nValue : Int64) (tx : CTransaction) : Prop :=
  let nAmount := nValue
  let rawTx := escrowTx node buyerTxHash sellerTxHash (nAmount / 2)
    [escrowOut node nAmount sellerKey]
  SignMultiSig node (hexStr rawTx.serialize) tx

/-- `RefundEscrow` signs `tx`. -/
def RefundEscrow (sellerKey : PubKey) (nValue : Int64) (buyerKey : PubKey) (tx : CTransaction) :
    Prop :=
  let nAmount := nValue / 2
  let rawTx := escrowTx node buyerTxHash sellerTxHash nAmount
    [escrowOut node nAmount buyerKey, escrowOut node nAmount sellerKey]
  SignMultiSig node (hexStr rawTx.serialize) tx

/-- The call in `marketrequestpayment`. -/
def MarketRequestPayment (listing : CMarketListing) (buyRequest : CBuyRequest)
    (tx : CTransaction) : Prop :=
  PayEscrow node buyRequest.buyerEscrowLockTxHash buyRequest.sellerEscrowLockTxHash
    listing.sellerKey (2 * listing.nPrice) tx

/-- The call in `marketrequestrefund`. -/
def MarketRequestRefund (listing : CMarketListing) (buyRequest : CBuyRequest)
    (tx : CTransaction) : Prop :=
  RefundEscrow node buyRequest.buyerEscrowLockTxHash buyRequest.sellerEscrowLockTxHash
    listing.sellerKey (2 * listing.nPrice) buyRequest.buyerKey tx

/-! ## §2. What they are for. -/

/-- A transaction with one output in escrow, output `n`, worth the price and 0.01 coins. -/
structure EscrowLock (nPrice : Int64) (escrow : CScript) where
  tx : CTransaction
  n : Nat
  txout : CTxOut
  at_n : tx.vout[n]? = some txout
  scriptPubKey : txout.scriptPubKey = escrow
  value : txout.nValue.toInt = nPrice.toInt + 1000000
  money : moneyRange txout.nValue = true
  only : ∀ (j : Nat) (o : CTxOut), tx.vout[j]? = some o → o.scriptPubKey = escrow → j = n

def EscrowLock.IsAt {nPrice : Int64} {escrow : CScript} (H : Hashes)
    (lock : EscrowLock nPrice escrow) (o : COutPoint) : Prop :=
  o.hash = lock.tx.getHash H ∧ (lock.tx.vout[o.n.toNat]?).map CTxOut.scriptPubKey = some escrow

/-- A sale for which both have put their money in escrow. -/
structure EscrowDeal where
  listing : CMarketListing
  buyRequest : CBuyRequest
  escrow : CScript
  buyer : EscrowLock listing.nPrice escrow
  seller : EscrowLock listing.nPrice escrow
  buyer_hash : buyRequest.buyerEscrowLockTxHash = buyer.tx.getHash node.chain.H
  seller_hash : buyRequest.sellerEscrowLockTxHash = seller.tx.getHash node.chain.H

variable (deal : EscrowDeal node)

/-- The transaction spends both outputs in escrow, and no more than they are worth. -/
structure SpendsEscrow (tx : CTransaction) : Prop where
  vin : ∃ a b, tx.vin.map CTxIn.prevout = [a, b] ∧ deal.buyer.IsAt node.chain.H a ∧
    deal.seller.IsAt node.chain.H b
  vout : (tx.vout.map fun o => o.nValue.toInt).sum ≤
    deal.buyer.txout.nValue.toInt + deal.seller.txout.nValue.toInt

def PaysEqually (tx : CTransaction) : Prop :=
  ∃ nAmount, tx.vout = [escrowOut node nAmount deal.buyRequest.buyerKey,
    escrowOut node nAmount deal.listing.sellerKey]

def EscrowIsSpent : Prop :=
  (∃ tx, MarketRequestPayment node deal.listing deal.buyRequest tx ∧ SpendsEscrow node deal tx) ∧
    ∃ tx, MarketRequestRefund node deal.listing deal.buyRequest tx ∧ SpendsEscrow node deal tx ∧
      PaysEqually node deal tx

/-! ## §3. When they do it. -/

variable {node}

theorem escrowTx_sizesOk (nOutput : Int64) {vout : List CTxOut}
    (hlen : vout.length ≤ 2) (h : ∀ o ∈ vout, ∃ nAmount key, o = escrowOut node nAmount key) :
    (escrowTx node buyerTxHash sellerTxHash nOutput vout).SizesOk := by
  have hmax : MAX_SIZE = 33554432 := rfl
  refine ⟨⟨by simp [escrowTx, hmax], ?_⟩, by show vout.length ≤ _; omega, ?_⟩
  · intro i hi
    simp only [escrowTx, List.mem_cons, List.not_mem_nil, or_false] at hi
    rcases hi with rfl | rfl <;> simp [escrowIn]
  · intro o ho
    obtain ⟨nAmount, key, rfl⟩ := h o ho
    simp [escrowOut, CScript.setDestination, scriptVisitor, CScript.pushUint160, leBytes_length,
      hmax]

/-- **Signing** leaves the outpoints and the outputs. -/
theorem signed_parts {buyerTxHash sellerTxHash : UInt256} {nOutput : Int64} {vout : List CTxOut}
    (hlen : vout.length ≤ 2) (h : ∀ o ∈ vout, ∃ nAmount key, o = escrowOut node nAmount key) :
    (∃ tx, SignMultiSig node
        (hexStr (escrowTx node buyerTxHash sellerTxHash nOutput vout).serialize) tx) ∧
      ∀ tx, SignMultiSig node
          (hexStr (escrowTx node buyerTxHash sellerTxHash nOutput vout).serialize) tx →
        tx.vin.map CTxIn.prevout = [⟨buyerTxHash, nOutput.toUInt64.toUInt32⟩,
          ⟨sellerTxHash, nOutput.toUInt64.toUInt32⟩] ∧ tx.vout = vout := by
  obtain ⟨hex, hall⟩ := @signMultiSig_serialize node _
    (escrowTx_sizesOk buyerTxHash sellerTxHash nOutput hlen h)
  refine ⟨hex, fun tx htx => ?_⟩
  have hsame := hall tx htx
  constructor
  · have hvin := congrArg (List.map CTxIn.prevout) hsame.vin
    simpa [Function.comp_def, forgetScripts, CTransaction.wire, CTxIn.wire, escrowTx, escrowIn]
      using hvin
  · have hwire : ∀ o ∈ vout, o.wire = o := by
      intro o ho
      obtain ⟨nAmount, key, rfl⟩ := h o ho
      rfl
    rw [hsame.rest]
    show vout.map CTxOut.wire = vout
    exact (List.map_congr_left hwire).trans (List.map_id vout)

theorem toUInt32_toNat (x : Int64) : (x.toUInt64.toUInt32.toNat : Int) = x.toInt % 2 ^ 32 := by
  have hnat : x.toUInt64.toNat = x.toBitVec.toNat := rfl
  rw [UInt64.toNat_toUInt32, hnat, ← toInt_toBitVec, BitVec.toInt_eq_toNat_cond]
  split
  · omega
  · omega

variable {deal}

theorem EscrowLock.toInt_double {nPrice : Int64} {escrow : CScript}
    (lock : EscrowLock nPrice escrow) :
    (2 * nPrice).toInt = 2 * nPrice.toInt ∧ 2 * nPrice / 2 = nPrice := by
  obtain ⟨h0, h1⟩ := moneyRange_iff.mp lock.money
  have hmax : MAX_MONEY.toInt = 1000000000000000 := by decide
  have htwo : (2 : Int64).toInt = 2 := by decide
  have hvalue := lock.value
  have hdouble : (2 * nPrice).toInt = 2 * nPrice.toInt := by
    rw [toInt_mul, htwo, Int.bmod_eq_of_le] <;> omega
  refine ⟨hdouble, ?_⟩
  apply toInt_inj.mp
  rw [toInt_div_of_ne_right _ _ (by decide), hdouble, htwo,
    Int.mul_tdiv_cancel_left _ (by decide)]

/-- **An outpoint of this number** is the one in escrow exactly where the lock is there. -/
theorem EscrowLock.isAt_iff {nPrice : Int64} {escrow : CScript} {H : Hashes}
    (lock : EscrowLock nPrice escrow) {o : COutPoint} (hhash : o.hash = lock.tx.getHash H) :
    lock.IsAt H o ↔ o.n.toNat = lock.n := by
  constructor
  · intro ⟨_, hscript⟩
    obtain ⟨out, hout, hpays⟩ := Option.map_eq_some_iff.mp hscript
    exact lock.only _ out hout hpays
  · intro hn
    refine ⟨hhash, ?_⟩
    rw [hn, lock.at_n, Option.map_some, lock.scriptPubKey]

theorem spendsEscrow_iff {tx : CTransaction} {n : UInt32}
    (hvin : tx.vin.map CTxIn.prevout = [⟨deal.buyRequest.buyerEscrowLockTxHash, n⟩,
      ⟨deal.buyRequest.sellerEscrowLockTxHash, n⟩])
    (hvout : (tx.vout.map fun o => o.nValue.toInt).sum = 2 * deal.listing.nPrice.toInt) :
    SpendsEscrow node deal tx ↔ n.toNat = deal.buyer.n ∧ n.toNat = deal.seller.n := by
  have hbuyer := deal.buyer.isAt_iff (o := ⟨_, n⟩) deal.buyer_hash
  have hseller := deal.seller.isAt_iff (o := ⟨_, n⟩) deal.seller_hash
  constructor
  · intro ⟨⟨a, b, hab, ha, hb⟩, _⟩
    rw [hvin] at hab
    cases hab
    exact ⟨hbuyer.mp ha, hseller.mp hb⟩
  · intro ⟨ha, hb⟩
    refine ⟨⟨_, _, hvin, hbuyer.mpr ha, hseller.mpr hb⟩, ?_⟩
    rw [hvout, deal.buyer.value, deal.seller.value]
    omega

theorem marketRequestPayment_parts (deal : EscrowDeal node) :
    (∃ tx, MarketRequestPayment node deal.listing deal.buyRequest tx) ∧
      ∀ tx, MarketRequestPayment node deal.listing deal.buyRequest tx →
        (SpendsEscrow node deal tx ↔
          (deal.buyer.n : Int) = deal.listing.nPrice.toInt % 2 ^ 32 ∧
            (deal.seller.n : Int) = deal.listing.nPrice.toInt % 2 ^ 32) := by
  obtain ⟨hdouble, hhalf⟩ := deal.buyer.toInt_double
  have hindex := toUInt32_toNat deal.listing.nPrice
  obtain ⟨hex, hall⟩ := @signed_parts node deal.buyRequest.buyerEscrowLockTxHash
    deal.buyRequest.sellerEscrowLockTxHash deal.listing.nPrice
    [escrowOut node (2 * deal.listing.nPrice) deal.listing.sellerKey] (by simp) (by simp)
  unfold MarketRequestPayment PayEscrow
  simp only [hhalf]
  refine ⟨hex, fun tx htx => ?_⟩
  obtain ⟨hvin, hvout⟩ := hall tx htx
  rw [spendsEscrow_iff hvin (by simp [hvout, escrowOut, hdouble])]
  omega

theorem marketRequestRefund_parts (deal : EscrowDeal node) :
    (∃ tx, MarketRequestRefund node deal.listing deal.buyRequest tx) ∧
      ∀ tx, MarketRequestRefund node deal.listing deal.buyRequest tx →
        PaysEqually node deal tx ∧ (SpendsEscrow node deal tx ↔
          (deal.buyer.n : Int) = deal.listing.nPrice.toInt % 2 ^ 32 ∧
            (deal.seller.n : Int) = deal.listing.nPrice.toInt % 2 ^ 32) := by
  obtain ⟨_, hhalf⟩ := deal.buyer.toInt_double
  have hindex := toUInt32_toNat deal.listing.nPrice
  obtain ⟨hex, hall⟩ := @signed_parts node deal.buyRequest.buyerEscrowLockTxHash
    deal.buyRequest.sellerEscrowLockTxHash deal.listing.nPrice
    [escrowOut node deal.listing.nPrice deal.buyRequest.buyerKey,
      escrowOut node deal.listing.nPrice deal.listing.sellerKey] (by simp) (by simp)
  unfold MarketRequestRefund RefundEscrow
  simp only [hhalf]
  refine ⟨hex, fun tx htx => ?_⟩
  obtain ⟨hvin, hvout⟩ := hall tx htx
  refine ⟨⟨_, hvout⟩, ?_⟩
  rw [spendsEscrow_iff hvin (by simp [hvout, escrowOut]; omega)]
  omega

variable (deal) in
/-- **The money comes out of escrow** exactly where the number of its output is the price. -/
theorem escrow_spent_iff :
    EscrowIsSpent node deal ↔
      (deal.buyer.n : Int) = deal.listing.nPrice.toInt % 2 ^ 32 ∧
        (deal.seller.n : Int) = deal.listing.nPrice.toInt % 2 ^ 32 := by
  obtain ⟨⟨pay, hpay⟩, hpayAll⟩ := marketRequestPayment_parts deal
  obtain ⟨⟨refund, hrefund⟩, hrefundAll⟩ := marketRequestRefund_parts deal
  constructor
  · intro ⟨⟨tx, htx, hspends⟩, _⟩
    exact (hpayAll tx htx).mp hspends
  · intro hplace
    obtain ⟨hequal, hspends⟩ := hrefundAll refund hrefund
    exact ⟨⟨pay, hpay, (hpayAll pay hpay).mpr hplace⟩, refund, hrefund, hspends.mpr hplace, hequal⟩

/-- `OP_2`, the keys of the buyer and of the seller, `OP_2 OP_CHECKMULTISIG` -/
def sampleEscrow : CScript :=
  0x52 :: (CScript.push (2 :: List.replicate 32 5) ++ CScript.push (3 :: List.replicate 32 6) ++
    [0x52, OP_CHECKMULTISIG])

/-- A coin goes into escrow, with change behind it. -/
def sampleLock (coin : UInt256) : EscrowLock sampleListing.listing.nPrice sampleEscrow where
  tx := ⟨1, 1000, [⟨⟨coin, 0⟩, [OP_1], [], 0xffffffff⟩],
    [⟨1000500, -10, sampleEscrow⟩, ⟨7000000, -10, [OP_1]⟩], 0⟩
  n := 0
  txout := ⟨1000500, -10, sampleEscrow⟩
  at_n := rfl
  scriptPubKey := rfl
  value := by decide
  money := by decide
  only := by
    rintro (_ | _ | j) o hj hescrow
    · rfl
    · cases hj
      exact absurd hescrow (by decide)
    · cases hj

def sampleDeal : EscrowDeal emptyNode where
  listing := sampleListing.listing
  buyRequest := { MarketState.freshRequest sampleMarketEnv with
    buyerEscrowLockTxHash := (sampleLock 5).tx.getHash sampleChainHashes
    sellerEscrowLockTxHash := (sampleLock 6).tx.getHash sampleChainHashes }
  escrow := sampleEscrow
  buyer := sampleLock 5
  seller := sampleLock 6
  buyer_hash := rfl
  seller_hash := rfl

/-- The output in escrow is the first, but the one with the number 500 is to be spent. -/
theorem escrow_stays : ¬EscrowIsSpent emptyNode sampleDeal := by
  intro ⟨⟨tx, htx, hspends⟩, _⟩
  have hplace := ((marketRequestPayment_parts sampleDeal).2 tx htx).mp hspends
  exact absurd hplace.1 (by decide)

end Fantom.Market
