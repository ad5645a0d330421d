/-
  Fantom.Wallet.Reorder — `ReorderTransactions`: positions for the transactions and accounting
  entries that have none.

  * `reorderTransactions` — the items by time, and the loop over them, in `int64_t`,
  * `Positions.place`, `placed` — the position that the loop gives to an item, as a number,
  * `reorderLoop_cons`, `reorderLoop_eq_ok` — what a turn and the loop do where nothing overflows,
  * `Reordered` — all positions are set, in one strict order,
  * `reordered_iff_clear` — the items are reordered exactly if no turn of the loop comes too close.
-/
import Fantom.Core.Primitives
import Fantom.Lib.Returns
import Fantom.Lib.StdMultimap

namespace Fantom.Wallet.OrderPos

open Core Lib List Int64

/-! ## §1. The call. -/

/-- The members of `CWalletTx` that are read, and its `GetHash()`. -/
structure CWalletTx where
  hash : UInt256
  nTimeReceived : UInt32
  /-- -1 is no position. -/
  nOrderPos : Int64
deriving DecidableEq

/-- The members of `CAccountingEntry` that are read. -/
structure CAccountingEntry where
  strAccount : List UInt8
  nEntryNo : UInt64
  nTime : Int64
  nOrderPos : Int64
deriving DecidableEq

/-- The records of the wallet file that are read or written, in the order of their keys. -/
structure CWalletDB where
  tx : List CWalletTx
  acentry : List CAccountingEntry
  orderposnext : Option Int64
deriving DecidableEq

structure CWallet where
  /-- In the order of the hashes. -/
  mapWallet : List CWalletTx
  nOrderPosNext : Int64
  db : CWalletDB
deriving DecidableEq

/-- `TxPair`, in which one of the two pointers is set. -/
inductive TxPair
  | tx (wtx : CWalletTx)
  | entry (acentry : CAccountingEntry)
deriving DecidableEq

/-- `("tx", hash)` and `("acentry", strAccount, nEntryNo)`. -/
inductive RecordKey
  | tx (hash : UInt256)
  | acentry (strAccount : List UInt8) (nEntryNo : UInt64)
deriving DecidableEq

/-- The writes that succeed. -/
structure Writes where
  record : RecordKey → Bool
  orderposnext : Bool

namespace TxPair

/-- The key in `txByTime`. -/
def nTime : TxPair → Int
  | tx wtx => wtx.nTimeReceived.toNat
  | entry acentry => acentry.nTime.toInt

/-- `nOrderPos`, a reference to the position of the item. -/
def pos : TxPair → Int64
  | tx wtx => wtx.nOrderPos
  | entry acentry => acentry.nOrderPos

/-- The number that it is. -/
def nOrderPos (item : TxPair) : Int := item.pos.toInt

/-- The item at another position. -/
def moveTo (nOrderPos : Int64) : TxPair → TxPair
  | tx wtx => tx { wtx with nOrderPos }
  | entry acentry => entry { acentry with nOrderPos }

def key : TxPair → RecordKey
  | tx wtx => .tx wtx.hash
  | entry acentry => .acentry acentry.strAccount acentry.nEntryNo

/-- `ReorderTransactions` sees it. -/
def Listed : TxPair → Prop
  | tx _ => True
  | entry acentry => acentry.strAccount = []

end TxPair

/-- `ListAccountCreditDebit`; the account `*` is all accounts.  The records of an account stand
together, so that the cursor goes over all of them. -/
def listAccountCreditDebit (strAccount : List UInt8) (db : CWalletDB) : List CAccountingEntry :=
  db.acentry.filter fun acentry => strAccount = [42] || acentry.strAccount = strAccount

/-- `x` in the place of what has its key. -/
def put {α κ : Type} [DecidableEq κ] (key : α → κ) (x : α) (l : List α) : List α :=
  l.map fun y => if key y = key x then x else y

/-- How a call ends that does not return `DB_LOAD_OK`. -/
inductive Failure
  | DB_LOAD_FAIL
  /-- A signed overflow, which is undefined. -/
  | overflow
deriving DecidableEq

/-- An item that was changed, with its `WriteTx` or `WriteAccountingEntry`. -/
def write (io : Writes) (item : TxPair) (w : CWallet) : Except Failure CWallet :=
  if io.record item.key then
    .ok <| match item with
      | .tx wtx => { w with
          mapWallet := put CWalletTx.hash wtx w.mapWallet
          db := { w.db with tx := put CWalletTx.hash wtx w.db.tx } }
      | .entry acentry => { w with
          db := { w.db with
            acentry := put (fun e => (e.strAccount, e.nEntryNo)) acentry w.db.acentry } }
  else .error .DB_LOAD_FAIL

/-- A sum of `int64_t`. -/
def plus (nOrderPos : Int64) (n : Nat) : Except Failure Int64 :=
  if nOrderPos.toInt + n < 2 ^ 63 then .ok (Int64.ofInt (nOrderPos.toInt + n)) else .error .overflow

/-- The local variables of the loop. -/
structure Counters where
  nOrderPosNext : Int64
  nOrderPosOffsets : List Int64

/-- The loop over `txByTime`. -/
def reorderLoop (io : Writes) :
    List TxPair → Counters → CWallet → Except Failure (Counters × CWallet)
  | [], c, w => .ok (c, w)
  | item :: items, c, w =>
    if item.pos = -1 then do
      let nOrderPos := c.nOrderPosNext
      let nOrderPosNext ← plus nOrderPos 1
      let w ← write io (item.moveTo nOrderPos) w
      reorderLoop io items ⟨nOrderPosNext, c.nOrderPosOffsets ++ [nOrderPos]⟩ w
    else do
      let nOrderPosOff := c.nOrderPosOffsets.countP fun nOffsetStart => item.pos ≥ nOffsetStart
      let nOrderPos ← plus item.pos nOrderPosOff
      let c := { c with nOrderPosNext := max c.nOrderPosNext (← plus nOrderPos 1) }
      if nOrderPosOff = 0 then reorderLoop io items c w
      else do
        let w ← write io (item.moveTo nOrderPos) w
        reorderLoop io items c w

namespace CWallet

variable (w : CWallet)

/-- The items in the order in which they get into `txByTime`. -/
def items : List TxPair :=
  w.mapWallet.map .tx ++ (listAccountCreditDebit [] w.db).map .entry

def txByTime : StdMultimap Int TxPair :=
  w.items.foldl (fun m item => m.insert item.nTime item) []

/-- **`ReorderTransactions`**.  The result of `WriteOrderPosNext` is not looked at. -/
def reorderTransactions (io : Writes) (w : CWallet) : Except Failure CWallet := do
  let (c, w) ← reorderLoop io (w.txByTime.map Prod.snd) ⟨0, []⟩ w
  .ok { w with
    nOrderPosNext := c.nOrderPosNext
    db := { w.db with
      orderposnext := if io.orderposnext then some c.nOrderPosNext else w.db.orderposnext } }

/-- The transactions in memory and the accounting entries of all accounts. -/
def all : List TxPair := w.mapWallet.map .tx ++ w.db.acentry.map .entry

/-- The file has the positions of the transactions. -/
def FileAgrees : Prop :=
  w.db.tx.map (fun wtx => (wtx.hash, wtx.nOrderPos)) =
    w.mapWallet.map fun wtx => (wtx.hash, wtx.nOrderPos)

/-- A wallet as it is loaded. -/
structure Loaded (w : CWallet) : Prop where
  keys : (w.all.map TxPair.key).Nodup
  file : w.FileAgrees

def Distinct : Prop :=
  ((w.all.filter fun item => item.nOrderPos ≠ -1).map TxPair.nOrderPos).Nodup

/-- The positions of the accounting entries that are not listed. -/
def unseen (r : Int) : Prop := ∃ item ∈ w.all, ¬ item.Listed ∧ item.nOrderPos = r

end CWallet

/-- **Reordered**: `w'` has the items of `w` in one strict order, which keeps that of the positions
that were set. -/
structure Reordered (io : Writes) (w w' : CWallet) : Prop where
  isSet : ∀ item ∈ w'.all, item.nOrderPos ≠ -1
  distinct : (w'.all.map TxPair.nOrderPos).Nodup
  order : ∀ a ∈ w.all, ∀ b ∈ w.all, ∀ a' ∈ w'.all, ∀ b' ∈ w'.all, a.key = a'.key → b.key = b'.key →
    a.nOrderPos ≠ -1 → b.nOrderPos ≠ -1 → a.nOrderPos < b.nOrderPos → a'.nOrderPos < b'.nOrderPos
  next : ∀ item ∈ w'.all, item.nOrderPos < w'.nOrderPosNext.toInt
  file : w'.FileAgrees
  again : w'.reorderTransactions io = .ok w'

/-! ## §2. The positions that the loop gives. -/

/-- The counters of the loop, as numbers without a bound. -/
structure Positions where
  nOrderPosNext : Int
  nOrderPosOffsets : List Int

variable (s : Positions)

namespace Positions

/-- `nOrderPosOff` -/
def off (nOrderPos : Int) : Nat := s.nOrderPosOffsets.countP fun nOffsetStart =>
  nOrderPos ≥ nOffsetStart

/-- The position that the loop gives to an item with the position `p`. -/
def place (p : Int) : Int := if p = -1 then s.nOrderPosNext else p + s.off p

def after (p : Int) : Positions :=
  if p = -1 then ⟨s.nOrderPosNext + 1, s.nOrderPosOffsets ++ [s.nOrderPosNext]⟩
  else { s with nOrderPosNext := max s.nOrderPosNext (p + s.off p + 1) }

variable {s : Positions} {p q : Int}

theorem off_mono (h : p ≤ q) : s.off p ≤ s.off q := by
  apply countP_mono_left
  intro o _ ho
  simp only [decide_eq_true_eq] at ho ⊢
  omega

theorem place_lt_after : s.place p < (s.after p).nOrderPosNext := by
  unfold place after
  split
  · show s.nOrderPosNext < s.nOrderPosNext + 1
    omega
  · show p + (s.off p : Int) < max s.nOrderPosNext (p + s.off p + 1)
    omega

theorem next_le_after : s.nOrderPosNext ≤ (s.after p).nOrderPosNext := by
  unfold after
  split
  · show s.nOrderPosNext ≤ s.nOrderPosNext + 1
    omega
  · show s.nOrderPosNext ≤ max s.nOrderPosNext (p + s.off p + 1)
    omega

theorem off_after : (s.after p).off q =
    s.off q + if p = -1 ∧ s.nOrderPosNext ≤ q then 1 else 0 := by
  unfold after
  by_cases hp : p = -1
  · rw [if_pos hp]
    simp [off, hp]
  · rw [if_neg hp]
    simp [off, hp]

end Positions

/-- The items with the positions that the loop gives them. -/
def placed : Positions → List TxPair → List (TxPair × Int)
  | _, [] => []
  | s, item :: items => (item, s.place item.nOrderPos) :: placed (s.after item.nOrderPos) items

/-- The counters after the items. -/
def final (s : Positions) (items : List TxPair) : Positions :=
  (items.map TxPair.nOrderPos).foldl Positions.after s

variable {s : Positions} {item : TxPair} {items : List TxPair} {y : TxPair × Int}

theorem placed_map_fst : (placed s items).map Prod.fst = items := by
  induction items generalizing s with
  | nil => rfl
  | cons item items ih => rw [placed, map_cons, ih]

/-- An item without a position gets one above all before.  Others move up, by the insertion points
that were there at least, and by no others below the next position. -/
theorem placed_spec (h : y ∈ placed s items) :
    (y.1.nOrderPos = -1 → s.nOrderPosNext ≤ y.2) ∧
      (y.1.nOrderPos ≠ -1 → y.1.nOrderPos + s.off y.1.nOrderPos ≤ y.2 ∧
        (y.1.nOrderPos < s.nOrderPosNext → y.2 = y.1.nOrderPos + s.off y.1.nOrderPos)) := by
  induction items generalizing s with
  | nil => cases h
  | cons item items ih =>
    rw [placed, mem_cons] at h
    obtain rfl | h := h
    · show (item.nOrderPos = -1 → s.nOrderPosNext ≤ s.place item.nOrderPos) ∧
        (item.nOrderPos ≠ -1 → item.nOrderPos + s.off item.nOrderPos ≤ s.place item.nOrderPos ∧
          (item.nOrderPos < s.nOrderPosNext →
            s.place item.nOrderPos = item.nOrderPos + s.off item.nOrderPos))
      unfold Positions.place
      constructor
      · intro hnew
        rw [if_pos hnew]
      · intro hold
        rw [if_neg hold]
        exact ⟨le_refl _, fun _ => rfl⟩
    · obtain ⟨hnew, hold⟩ := ih h
      have hle := s.next_le_after (p := item.nOrderPos)
      constructor
      · intro hy
        exact le_trans hle (hnew hy)
      intro hy
      obtain ⟨hlow, heq⟩ := hold hy
      rw [Positions.off_after] at hlow heq
      split at hlow
      next hoff =>
        rw [if_pos hoff] at heq
        constructor
        · omega
        · intro hlt
          omega
      next hoff =>
        rw [if_neg hoff] at heq
        constructor
        · omega
        · intro hlt
          rw [heq (by omega)]
          rfl

theorem placed_order (h : y ∈ placed (s.after item.nOrderPos) items) :
    (y.1.nOrderPos = -1 → s.place item.nOrderPos < y.2) ∧
      (y.1.nOrderPos ≠ -1 → item.nOrderPos ≠ -1 →
        (item.nOrderPos < y.1.nOrderPos → s.place item.nOrderPos < y.2) ∧
        (y.1.nOrderPos < item.nOrderPos → y.2 < s.place item.nOrderPos)) := by
  obtain ⟨hnew, hold⟩ := placed_spec h
  have hlt := s.place_lt_after (p := item.nOrderPos)
  constructor
  · intro hy
    exact lt_of_lt_of_le hlt (hnew hy)
  intro hy hitem
  obtain ⟨hlow, heq⟩ := hold hy
  have hplace : s.place item.nOrderPos = item.nOrderPos + s.off item.nOrderPos := if_neg hitem
  rw [Positions.off_after, if_neg fun h => hitem h.1] at hlow heq
  rw [hplace] at hlt ⊢
  constructor
  · intro hbelow
    have := s.off_mono (le_of_lt hbelow)
    omega
  · intro habove
    have := s.off_mono (le_of_lt habove)
    rw [heq (by omega)]
    omega

theorem placed_lt {z : TxPair × Int} (hy : y ∈ placed s items) (hz : z ∈ placed s items)
    (hyp : y.1.nOrderPos ≠ -1) (hzp : z.1.nOrderPos ≠ -1) (hlt : y.1.nOrderPos < z.1.nOrderPos) :
    y.2 < z.2 := by
  induction items generalizing s with
  | nil => cases hy
  | cons item items ih =>
    rw [placed, mem_cons] at hy hz
    obtain rfl | hy := hy
    · obtain rfl | hz := hz
      · exact absurd hlt (lt_irrefl _)
      · exact ((placed_order hz).2 hzp hyp).1 hlt
    · obtain rfl | hz := hz
      · exact ((placed_order hy).2 hyp hzp).2 hlt
      · exact ih hy hz

theorem final_next : s.nOrderPosNext ≤ (final s items).nOrderPosNext ∧
    (∀ y ∈ placed s items, y.2 < (final s items).nOrderPosNext) ∧
    ((final s items).nOrderPosNext = s.nOrderPosNext ∨
      ∃ y ∈ placed s items, (final s items).nOrderPosNext = y.2 + 1) := by
  induction items generalizing s with
  | nil => exact ⟨le_refl _, fun y hy => (nomatch hy), .inl rfl⟩
  | cons item items ih =>
    obtain ⟨hle, hall, hlast⟩ := ih (s := s.after item.nOrderPos)
    show s.nOrderPosNext ≤ (final (s.after item.nOrderPos) items).nOrderPosNext ∧ _
    refine ⟨le_trans s.next_le_after hle, fun y hy => ?_, ?_⟩
    · rw [placed, mem_cons] at hy
      obtain rfl | hy := hy
      · exact lt_of_lt_of_le s.place_lt_after hle
      · exact hall y hy
    · show (final (s.after item.nOrderPos) items).nOrderPosNext = _ ∨ ∃ y ∈ _ :: _, _
      obtain hlast | ⟨y, hy, heq⟩ := hlast
      · by_cases hnext : (s.after item.nOrderPos).nOrderPosNext = s.nOrderPosNext
        · exact .inl (hlast.trans hnext)
        · refine .inr ⟨_, mem_cons_self, ?_⟩
          show (final (s.after item.nOrderPos) items).nOrderPosNext = s.place item.nOrderPos + 1
          rw [hlast]
          unfold Positions.after at hnext ⊢
          unfold Positions.place
          split at hnext
          next hnew => rw [if_pos hnew, if_pos hnew]
          next hold =>
            rw [if_neg hold, if_neg hold]
            dsimp only at hnext ⊢
            omega
      · exact .inr ⟨y, mem_cons_of_mem _ hy, heq⟩

/-! ## §3. Positions that are apart. -/

/-- From `s` on, no item is moved to an insertion point, or past a position of `others`, which are
those of the entries that the loop does not see; and in the end `nOrderPosNext` is above these. -/
def Clear (others : Int → Prop) : Positions → List TxPair → Prop
  | s, [] => ∀ r, others r → r ≠ -1 ∧ r < s.nOrderPosNext
  | s, item :: items =>
    (if item.nOrderPos = -1 then ¬ others s.nOrderPosNext
      else s.place item.nOrderPos ∉ s.nOrderPosOffsets ∧
        ∀ r, others r → item.nOrderPos < r → s.place item.nOrderPos < r) ∧
      Clear others (s.after item.nOrderPos) items

/-- The positions that are given, beside the insertion points before and the `others`. -/
structure Apart (others : Int → Prop) (s : Positions) (items : List TxPair) : Prop where
  distinct : (placed s items).Pairwise fun y z => y.2 ≠ z.2
  unseen : ∀ y ∈ placed s items, ¬ others y.2
  offsets : ∀ y ∈ placed s items, y.1.nOrderPos ≠ -1 → y.2 ∉ s.nOrderPosOffsets
  order : ∀ y ∈ placed s items, y.1.nOrderPos ≠ -1 → ∀ r, others r → y.1.nOrderPos < r → y.2 < r
  last : ∀ r, others r → r ≠ -1 ∧ r < (final s items).nOrderPosNext

variable {others : Int → Prop}

theorem mem_of_placed (h : y ∈ placed s items) : y.1 ∈ items := by
  have hfst := mem_map_of_mem (f := Prod.fst) h
  rwa [placed_map_fst] at hfst

theorem exists_placed (s : Positions) (h : item ∈ items) : ∃ y ∈ placed s items, y.1 = item :=
  mem_map.mp (by rwa [placed_map_fst])

theorem mem_offsets_after {p o : Int} : o ∈ (s.after p).nOrderPosOffsets ↔
    o ∈ s.nOrderPosOffsets ∨ p = -1 ∧ o = s.nOrderPosNext := by
  unfold Positions.after
  by_cases hp : p = -1
  · rw [if_pos hp]
    simp [hp]
  · rw [if_neg hp]
    simp [hp]

theorem Apart.tail (h : Apart others s (item :: items)) :
    Apart others (s.after item.nOrderPos) items where
  distinct := (pairwise_cons.mp h.distinct).2
  unseen y hy := h.unseen y (mem_cons_of_mem _ hy)
  offsets y hy hold hmem := by
    obtain hmem | ⟨hnew, heq⟩ := mem_offsets_after.mp hmem
    · exact h.offsets y (mem_cons_of_mem _ hy) hold hmem
    · -- the item has got this position
      apply (pairwise_cons.mp h.distinct).1 y hy
      show s.place item.nOrderPos = y.2
      rw [heq, Positions.place, if_pos hnew]
  order y hy := h.order y (mem_cons_of_mem _ hy)
  last := h.last

theorem Apart.cons (h : Apart others (s.after item.nOrderPos) items)
    (hold : ∀ x ∈ items, item.nOrderPos ≠ -1 → item.nOrderPos ≠ x.nOrderPos)
    (hnew : item.nOrderPos = -1 → ¬ others s.nOrderPosNext)
    (hmoved : item.nOrderPos ≠ -1 → ¬ others item.nOrderPos ∧
      s.place item.nOrderPos ∉ s.nOrderPosOffsets ∧
        ∀ r, others r → item.nOrderPos < r → s.place item.nOrderPos < r) :
    Apart others s (item :: items) where
  distinct := by
    refine pairwise_cons.mpr ⟨fun y hy => ?_, h.distinct⟩
    show s.place item.nOrderPos ≠ y.2
    obtain ⟨hfresh, horder⟩ := placed_order hy
    by_cases hyp : y.1.nOrderPos = -1
    · exact ne_of_lt (hfresh hyp)
    · by_cases hitem : item.nOrderPos = -1
      · intro heq
        apply h.offsets y hy hyp
        rw [← heq, Positions.place, if_pos hitem]
        exact mem_offsets_after.mpr (.inr ⟨hitem, rfl⟩)
      · obtain ⟨hbelow, habove⟩ := horder hyp hitem
        have hne := hold y.1 (mem_of_placed hy) hitem
        obtain hlt | hgt := lt_or_gt_of_ne hne
        · exact ne_of_lt (hbelow hlt)
        · exact ne_of_gt (habove hgt)
  unseen y hy := by
    rw [placed, mem_cons] at hy
    obtain rfl | hy := hy
    · show ¬ others (s.place item.nOrderPos)
      by_cases hitem : item.nOrderPos = -1
      · rw [Positions.place, if_pos hitem]
        exact hnew hitem
      · obtain ⟨hother, -, hpast⟩ := hmoved hitem
        intro hplace
        have heq : s.place item.nOrderPos = item.nOrderPos + s.off item.nOrderPos := if_neg hitem
        -- it has stayed, or it has been moved past itself
        by_cases hlt : item.nOrderPos < s.place item.nOrderPos
        · exact absurd (hpast _ hplace hlt) (lt_irrefl _)
        · apply hother
          rwa [show item.nOrderPos = s.place item.nOrderPos by omega]
    · exact h.unseen y hy
  offsets y hy hyp := by
    rw [placed, mem_cons] at hy
    obtain rfl | hy := hy
    · exact (hmoved hyp).2.1
    · exact fun hmem => h.offsets y hy hyp (mem_offsets_after.mpr (.inl hmem))
  order y hy hyp := by
    rw [placed, mem_cons] at hy
    obtain rfl | hy := hy
    · exact (hmoved hyp).2.2
    · exact h.order y hy hyp
  last := h.last

/-- **The positions are apart** exactly if the loop keeps clear. -/
theorem apart_iff (hold : items.Pairwise fun x y => x.nOrderPos ≠ -1 → x.nOrderPos ≠ y.nOrderPos)
    (hothers : ∀ x ∈ items, x.nOrderPos ≠ -1 → ¬ others x.nOrderPos) :
    Apart others s items ↔ Clear others s items := by
  induction items generalizing s with
  | nil =>
    refine ⟨fun h => h.last, fun h => ⟨.nil, ?_, ?_, ?_, h⟩⟩
    · exact fun y hy => nomatch hy
    · exact fun y hy => nomatch hy
    · exact fun y hy => nomatch hy
  | cons item items ih =>
    obtain ⟨hfirst, hrest⟩ := pairwise_cons.mp hold
    have ih := ih (s := s.after item.nOrderPos) hrest
      fun x hx => hothers x (mem_cons_of_mem _ hx)
    rw [Clear, ← ih]
    constructor
    · intro h
      refine ⟨?_, h.tail⟩
      have hhead := h.unseen _ mem_cons_self
      split
      next hnew =>
        rw [Positions.place, if_pos hnew] at hhead
        exact hhead
      next hitem =>
        have hmem : (item, s.place item.nOrderPos) ∈ placed s (item :: items) := mem_cons_self
        have hoffsets := h.offsets _ hmem hitem
        have horder := h.order _ hmem hitem
        dsimp only at hoffsets horder
        exact ⟨hoffsets, horder⟩
    · intro ⟨hhead, h⟩
      refine h.cons hfirst (fun hnew => ?_) fun hitem => ?_
      · rwa [if_pos hnew] at hhead
      · rw [if_neg hitem] at hhead
        exact ⟨hothers item mem_cons_self hitem, hhead⟩

/-! ## §4. The loop. -/

variable {io : Writes} {w w' : CWallet}

theorem key_moveTo (q : Int64) : (item.moveTo q).key = item.key := by
  cases item with
  | tx wtx => rfl
  | entry acentry => rfl

theorem nOrderPos_moveTo (q : Int64) : (item.moveTo q).nOrderPos = q.toInt := by
  cases item with
  | tx wtx => rfl
  | entry acentry => rfl

theorem moveTo_self : item.moveTo item.pos = item := by
  cases item with
  | tx wtx => rfl
  | entry acentry => rfl

section

variable {α κ : Type} [DecidableEq κ] {key : α → κ} {x y : α} {l : List α}

theorem map_key_put : (put key x l).map key = l.map key := by
  rw [put, map_map]
  refine map_congr_left fun y _ => ?_
  show key (if key y = key x then x else y) = key y
  split
  next h => exact h.symm
  next => rfl

theorem mem_put (hx : ∃ y ∈ l, key y = key x) :
    y ∈ put key x l ↔ y = x ∨ y ∈ l ∧ key y ≠ key x := by
  rw [put, mem_map]
  constructor
  · intro ⟨z, hz, heq⟩
    split at heq
    next => exact .inl heq.symm
    next hne => exact .inr ⟨heq ▸ hz, heq ▸ hne⟩
  · intro h
    obtain rfl | ⟨hy, hne⟩ := h
    · obtain ⟨z, hz, heq⟩ := hx
      exact ⟨z, hz, if_pos heq⟩
    · exact ⟨y, hy, if_neg hne⟩

theorem put_self (hl : (l.map key).Nodup) (hx : x ∈ l) : put key x l = l := by
  refine (map_congr_left fun y hy => ?_).trans (map_id l)
  split
  next h => exact inj_on_of_nodup_map hl hx hy h.symm
  next => rfl

theorem put_of_ne (h : ∀ y ∈ l, key y ≠ key x) : put key x l = l :=
  (map_congr_left fun y hy => if_neg (h y hy)).trans (map_id l)

theorem map_put {β κ' : Type} [DecidableEq κ'] {k : β → κ'} (f : α → β)
    (hkey : ∀ y, k (f y) = k (f x) ↔ key y = key x) :
    (put key x l).map f = put k (f x) (l.map f) := by
  rw [put, put, map_map, map_map]
  refine map_congr_left fun y _ => ?_
  show f (if key y = key x then x else y) = if k (f y) = k (f x) then f x else f y
  rw [apply_ite f]
  simp only [hkey]

end

/-- A write changes one item, in memory and in the file. -/
theorem write_eq_ok (h : write io item w = .ok w') :
    w'.all = put TxPair.key item w.all ∧ (w.FileAgrees → w'.FileAgrees) := by
  unfold write at h
  split at h
  next =>
    cases item with
    | tx wtx =>
      cases h
      constructor
      · show (put CWalletTx.hash wtx w.mapWallet).map TxPair.tx ++ w.db.acentry.map _ = _
        rw [CWallet.all, map_put (k := TxPair.key) _ fun y => by simp [TxPair.key],
          put, put, map_append]
        exact congrArg _ (put_of_ne (by simp [TxPair.key])).symm
      · intro hfile
        show (put CWalletTx.hash wtx w.db.tx).map _ = (put CWalletTx.hash wtx w.mapWallet).map _
        rw [map_put (k := Prod.fst) _ fun _ => Iff.rfl, hfile,
          map_put (k := Prod.fst) _ fun _ => Iff.rfl]
    | entry acentry =>
      cases h
      constructor
      · show w.mapWallet.map _ ++ (put _ acentry w.db.acentry).map TxPair.entry = _
        rw [CWallet.all, map_put (k := TxPair.key) _ fun y => by simp [TxPair.key],
          put, put, map_append]
        exact congrArg (· ++ _) (put_of_ne (by simp [TxPair.key])).symm
      · exact fun hfile => hfile
  next => cases h

/-- The counters as numbers. -/
def Counters.exact (c : Counters) : Positions :=
  ⟨c.nOrderPosNext.toInt, c.nOrderPosOffsets.map Int64.toInt⟩

variable {c c' : Counters}

theorem Counters.countP_eq : (c.nOrderPosOffsets.countP fun o => item.pos ≥ o) =
    c.exact.off item.nOrderPos := by
  rw [exact, Positions.off, countP_map]
  refine countP_congr fun o _ => ?_
  simp [TxPair.nOrderPos, le_iff_toInt_le]

theorem plus_eq_ok {a : Int64} {n : Nat} (h : a.toInt + n < 2 ^ 63) :
    ∃ b, plus a n = .ok b ∧ b.toInt = a.toInt + n :=
  ⟨_, if_pos h, toInt_ofInt_of_le (by have := a.le_toInt; omega) h⟩

theorem toInt_max (a b : Int64) : (max a b).toInt = max a.toInt b.toInt := by
  show (if a ≤ b then b else a).toInt = _
  split
  next h => rw [max_eq_right (le_iff_toInt_le.mp h)]
  next h =>
    rw [max_eq_left]
    rw [le_iff_toInt_le] at h
    omega

theorem pos_eq_iff : item.pos = -1 ↔ item.nOrderPos = -1 :=
  (toInt_inj (x := item.pos) (y := -1)).symm

/-- **One turn of the loop**, where nothing overflows: the counters do what the numbers do, and the
item is written where it moves. -/
theorem reorderLoop_cons (io : Writes) (items : List TxPair) (w : CWallet)
    (h : (c.exact.after item.nOrderPos).nOrderPosNext < 2 ^ 63) :
    ∃ (q : Int64) (c₁ : Counters), q.toInt = c.exact.place item.nOrderPos ∧
      c₁.exact = c.exact.after item.nOrderPos ∧
      reorderLoop io (item :: items) c w =
        (if item.pos ≠ -1 ∧ q = item.pos then .ok w else write io (item.moveTo q) w) >>=
          reorderLoop io items c₁ := by
  unfold Positions.after at h
  unfold reorderLoop Positions.place Positions.after
  by_cases hitem : item.pos = -1
  · rw [if_pos (pos_eq_iff.mp hitem)] at h
    rw [if_pos hitem, if_pos (pos_eq_iff.mp hitem), if_pos (pos_eq_iff.mp hitem)]
    obtain ⟨nOrderPosNext, hplus, hnext⟩ := plus_eq_ok (a := c.nOrderPosNext) (n := 1) h
    refine ⟨c.nOrderPosNext, ⟨nOrderPosNext, c.nOrderPosOffsets ++ [c.nOrderPosNext]⟩, rfl, ?_, ?_⟩
    · rw [Counters.exact, hnext, map_append]
      rfl
    · dsimp only
      rw [hplus, if_neg fun hmoved => hmoved.1 hitem]
      rfl
  · have hitem' := mt pos_eq_iff.mpr hitem
    rw [if_neg hitem'] at h
    rw [if_neg hitem, if_neg hitem', if_neg hitem', Counters.countP_eq]
    change max c.nOrderPosNext.toInt (item.pos.toInt + c.exact.off item.nOrderPos + 1) < 2 ^ 63 at h
    obtain ⟨q, hplus, hq⟩ := plus_eq_ok (a := item.pos) (n := c.exact.off item.nOrderPos) (by omega)
    obtain ⟨nOrderPosNext, hplus', hnext⟩ := plus_eq_ok (a := q) (n := 1) (by omega)
    refine ⟨q, { c with nOrderPosNext := max c.nOrderPosNext nOrderPosNext }, hq, ?_, ?_⟩
    · rw [Counters.exact, toInt_max, hnext, hq]
      rfl
    · have hstay : q = item.pos ↔ c.exact.off item.nOrderPos = 0 := by
        rw [← toInt_inj, hq]
        omega
      dsimp only
      rw [hplus, ok_bind, hplus', ok_bind]
      by_cases hoff : c.exact.off item.nOrderPos = 0
      · rw [if_pos hoff, if_pos ⟨hitem, hstay.mpr hoff⟩, ok_bind]
      · rw [if_neg hoff, if_neg fun hmoved => hoff (hstay.mp hmoved.2)]

/-- Where the next position does not fit, the turn overflows. -/
theorem reorderLoop_overflow (items : List TxPair) (w : CWallet)
    (h : ¬ (c.exact.after item.nOrderPos).nOrderPosNext < 2 ^ 63) :
    reorderLoop io (item :: items) c w = .error .overflow := by
  have hc := c.nOrderPosNext.toInt_lt
  unfold Positions.after at h
  unfold reorderLoop
  by_cases hitem : item.pos = -1
  · rw [if_pos (pos_eq_iff.mp hitem)] at h
    rw [if_pos hitem]
    dsimp only
    rw [plus, if_neg (show ¬ c.nOrderPosNext.toInt + ((1 : Nat) : Int) < 2 ^ 63 from h)]
    rfl
  · rw [if_neg (mt pos_eq_iff.mpr hitem)] at h
    rw [if_neg hitem, Counters.countP_eq]
    change ¬ max c.nOrderPosNext.toInt (item.pos.toInt + c.exact.off item.nOrderPos + 1) < 2 ^ 63
      at h
    dsimp only
    by_cases hfirst : item.pos.toInt + c.exact.off item.nOrderPos < 2 ^ 63
    · obtain ⟨q, hplus, hq⟩ := plus_eq_ok hfirst
      rw [hplus, ok_bind, plus, if_neg (by rw [hq]; omega)]
      rfl
    · rw [plus, if_neg hfirst]
      rfl

/-- **The loop** moves the items to their positions, and nothing else. -/
theorem reorderLoop_eq_ok (hkeys : (w.all.map TxPair.key).Nodup)
    (hitems : items.Pairwise fun x y => x.key ≠ y.key) (hmem : ∀ x ∈ items, x ∈ w.all)
    (h : reorderLoop io items c w = .ok (c', w')) :
    c'.exact = final c.exact items ∧ w'.all.map TxPair.key = w.all.map TxPair.key ∧
      (∀ item', item' ∈ w'.all ↔
        (∃ y ∈ placed c.exact items, y.1.moveTo (Int64.ofInt y.2) = item') ∨
          item' ∈ w.all ∧ ∀ x ∈ items, item'.key ≠ x.key) ∧
      (∀ y ∈ placed c.exact items, (Int64.ofInt y.2).toInt = y.2) ∧
      (w.FileAgrees → w'.FileAgrees) := by
  induction items generalizing c w with
  | nil =>
    cases h
    exact ⟨rfl, rfl, fun item' => by simp [placed], by simp [placed],
      fun hfile => hfile⟩
  | cons item items ih =>
    obtain ⟨hfirst, hrest⟩ := pairwise_cons.mp hitems
    have hitem := hmem item mem_cons_self
    have hfits : (c.exact.after item.nOrderPos).nOrderPosNext < 2 ^ 63 := by
      by_contra hfits
      rw [reorderLoop_overflow _ _ hfits] at h
      cases h
    obtain ⟨q, c₁, hq, hc₁, hturn⟩ := reorderLoop_cons io items w hfits
    have hofInt : Int64.ofInt (c.exact.place item.nOrderPos) = q := by rw [← hq, ofInt_toInt]
    rw [hturn] at h
    obtain ⟨w₁, hwrite, h⟩ := bind_eq_ok.mp h
    have hw₁ : w₁.all = put TxPair.key (item.moveTo q) w.all ∧
        (w.FileAgrees → w₁.FileAgrees) := by
      split at hwrite
      next hstay =>
        cases hwrite
        rw [hstay.2, moveTo_self]
        exact ⟨(put_self hkeys hitem).symm, fun hfile => hfile⟩
      next => exact write_eq_ok hwrite
    have hmem₁ : ∀ x, x ∈ w₁.all ↔ x = item.moveTo q ∨ x ∈ w.all ∧ x.key ≠ item.key := by
      intro x
      rw [hw₁.1, mem_put ⟨item, hitem, (key_moveTo _).symm⟩, key_moveTo]
    have hkeys₁ : w₁.all.map TxPair.key = w.all.map TxPair.key := by
      rw [hw₁.1]
      exact map_key_put
    obtain ⟨hc', hkeys', hall, hexact, hfile⟩ := ih (hkeys₁ ▸ hkeys) hrest (fun x hx =>
      (hmem₁ x).mpr (.inr ⟨hmem x (mem_cons_of_mem _ hx), (hfirst x hx).symm⟩)) h
    rw [hc₁] at hc' hall hexact
    refine ⟨hc', hkeys'.trans hkeys₁, fun item' => ?_, fun y hy => ?_,
      fun hagrees => hfile (hw₁.2 hagrees)⟩
    · rw [hall, hmem₁, placed, exists_mem_cons_iff, forall_mem_cons]
      dsimp only
      rw [hofInt]
      constructor
      · rintro (hplaced | ⟨heq | ⟨hthere, hne⟩, hothers⟩)
        · exact .inl (.inr hplaced)
        · exact .inl (.inl heq.symm)
        · exact .inr ⟨hthere, hne, hothers⟩
      · rintro ((heq | hplaced) | ⟨hthere, hne, hothers⟩)
        · -- the items behind have other keys
          refine .inr ⟨.inl heq.symm, fun x hx => ?_⟩
          rw [← heq, key_moveTo]
          exact hfirst x hx
        · exact .inl hplaced
        · exact .inr ⟨.inr ⟨hthere, hne⟩, hothers⟩
    · rw [placed, mem_cons] at hy
      obtain rfl | hy := hy
      · rw [hofInt, hq]
      · exact hexact y hy

/-- Where the last of the positions fits, nothing overflows. -/
theorem reorderLoop_fits (io : Writes) (items : List TxPair)
    (h : (final c.exact items).nOrderPosNext < 2 ^ 63) :
    reorderLoop io items c w ≠ .error .overflow := by
  induction items generalizing c w with
  | nil => nofun
  | cons item items ih =>
    have hle := (@final_next (c.exact.after item.nOrderPos) items).1
    have hfinal : final c.exact (item :: items) = final (c.exact.after item.nOrderPos) items := rfl
    rw [hfinal] at h
    obtain ⟨q, c₁, -, hc₁, hturn⟩ :=
      reorderLoop_cons io items w (lt_of_le_of_lt hle h)
    have hrest : ∀ w, reorderLoop io items c₁ w ≠ .error .overflow :=
      fun w => ih (by rw [hc₁]; exact h)
    rw [hturn]
    unfold write
    split
    next => exact hrest w
    next =>
      split
      · exact hrest _
      · nofun

theorem placed_again (hset : ∀ x ∈ items, x.nOrderPos ≠ -1) (hs : s.nOrderPosOffsets = []) :
    ∀ y ∈ placed s items, y.2 = y.1.nOrderPos := by
  induction items generalizing s with
  | nil => exact fun y hy => nomatch hy
  | cons item items ih =>
    have hitem := hset item mem_cons_self
    intro y hy
    rw [placed, mem_cons] at hy
    obtain rfl | hy := hy
    · show s.place item.nOrderPos = item.nOrderPos
      rw [Positions.place, if_neg hitem, Positions.off, hs]
      exact Int.add_zero _
    · refine ih (s := s.after item.nOrderPos) (fun x hx => hset x (mem_cons_of_mem _ hx)) ?_ y hy
      rw [Positions.after, if_neg hitem]
      exact hs

/-- Where all positions are set, the loop moves nothing. -/
theorem reorderLoop_again (io : Writes) (hset : ∀ x ∈ items, x.nOrderPos ≠ -1)
    (hc : c.nOrderPosOffsets = [])
    (h : (final c.exact items).nOrderPosNext < 2 ^ 63) :
    ∃ c', reorderLoop io items c w = .ok (c', w) ∧ c'.exact = final c.exact items := by
  induction items generalizing c with
  | nil => exact ⟨c, rfl, rfl⟩
  | cons item items ih =>
    have hitem := hset item mem_cons_self
    have hle := (@final_next (c.exact.after item.nOrderPos) items).1
    have hfinal : final c.exact (item :: items) = final (c.exact.after item.nOrderPos) items := rfl
    rw [hfinal] at h ⊢
    obtain ⟨q, c₁, hq, hc₁, hturn⟩ :=
      reorderLoop_cons io items w (lt_of_le_of_lt hle h)
    have hstay : q = item.pos := by
      rw [← toInt_inj, hq, Positions.place, if_neg hitem, Positions.off, Counters.exact, hc]
      exact Int.add_zero _
    have hc₁' : c₁.nOrderPosOffsets = [] := by
      have hoffsets := congrArg Positions.nOrderPosOffsets hc₁
      rw [Positions.after, if_neg hitem, Counters.exact, Counters.exact, hc] at hoffsets
      exact map_eq_nil_iff.mp hoffsets
    rw [← hc₁] at h ⊢
    obtain ⟨c', hloop, hc'⟩ := ih (fun x hx => hset x (mem_cons_of_mem _ hx)) hc₁' h
    refine ⟨c', ?_, hc'⟩
    rw [hturn, if_pos ⟨mt pos_eq_iff.mp hitem, hstay⟩]
    exact hloop

/-! ## §5. The items of a wallet. -/

theorem map_snd_txByTime : (w.txByTime.map Prod.snd).Perm w.items := by
  have hall : ∀ (l : List TxPair) (m : StdMultimap Int TxPair),
      ((l.foldl (fun m item => m.insert item.nTime item) m).map Prod.snd).Perm
        (l ++ m.map Prod.snd) := by
    intro l
    induction l with
    | nil => exact fun m => .refl _
    | cons item l ih =>
      intro m
      refine (ih _).trans ((((m.insert_perm item.nTime item).map Prod.snd).append_left l).trans ?_)
      exact perm_middle
  exact (hall w.items []).trans (by rw [map_nil, append_nil])

/-- **The items** of the loop are the listed ones. -/
theorem mem_txByTime : item ∈ w.txByTime.map Prod.snd ↔ item ∈ w.all ∧ item.Listed := by
  rw [map_snd_txByTime.mem_iff, CWallet.items, CWallet.all]
  cases item with
  | tx wtx => simp [TxPair.Listed]
  | entry acentry => simp [TxPair.Listed, listAccountCreditDebit]

theorem txByTime_keys (hw : w.Loaded) :
    (w.txByTime.map Prod.snd).Pairwise fun x y => x.key ≠ y.key := by
  refine pairwise_map.mp ((map_snd_txByTime.map TxPair.key).nodup_iff.mpr ?_)
  refine List.Nodup.sublist (List.Sublist.map _ ?_) hw.keys
  exact (List.Sublist.refl _).append (filter_sublist.map _)

theorem CWallet.Loaded.eq_of_key (hw : w.Loaded) {a b : TxPair} (ha : a ∈ w.all) (hb : b ∈ w.all)
    (h : a.key = b.key) : a = b :=
  inj_on_of_nodup_map hw.keys ha hb h

theorem CWallet.Distinct.eq_of_pos (hd : w.Distinct) {a b : TxPair} (ha : a ∈ w.all)
    (hb : b ∈ w.all) (hne : a.nOrderPos ≠ -1) (h : a.nOrderPos = b.nOrderPos) : a = b := by
  refine inj_on_of_nodup_map hd (mem_filter.mpr ⟨ha, ?_⟩)
    (mem_filter.mpr ⟨hb, ?_⟩) h
  · exact decide_eq_true hne
  · exact decide_eq_true (h ▸ hne)

/-! ## §6. When the items are reordered. -/

theorem listed_moveTo (q : Int64) : (item.moveTo q).Listed ↔ item.Listed := by
  cases item with
  | tx wtx => rfl
  | entry acentry => rfl

/-- What a call leaves: the listed items where the loop puts them, and the others. -/
structure Moved (w w' : CWallet) : Prop where
  keys : w'.all.map TxPair.key = w.all.map TxPair.key
  mem : ∀ item', item' ∈ w'.all ↔
    (∃ y ∈ placed ⟨0, []⟩ (w.txByTime.map Prod.snd), y.1.moveTo (Int64.ofInt y.2) = item') ∨
      item' ∈ w.all ∧ ¬ item'.Listed
  exact : ∀ y ∈ placed ⟨0, []⟩ (w.txByTime.map Prod.snd), (Int64.ofInt y.2).toInt = y.2
  next : w'.nOrderPosNext.toInt = (final ⟨0, []⟩ (w.txByTime.map Prod.snd)).nOrderPosNext
  file : w'.FileAgrees

theorem moved_of_eq_ok (hw : w.Loaded) (h : w.reorderTransactions io = .ok w') :
    Moved w w' := by
  obtain ⟨⟨c', w₁⟩, hloop, h⟩ := bind_eq_ok.mp h
  cases h
  obtain ⟨hc', hkeys, hall, hexact, hfile⟩ := reorderLoop_eq_ok hw.keys (txByTime_keys hw)
    (fun x hx => (mem_txByTime.mp hx).1) hloop
  refine ⟨hkeys, fun item' => (hall item').trans (or_congr_right ?_), hexact,
    congrArg Positions.nOrderPosNext hc', hfile hw.file⟩
  refine and_congr_right fun hthere => ⟨fun hothers hlisted => ?_, fun hlisted x hx hkey => ?_⟩
  · exact hothers item' (mem_txByTime.mpr ⟨hthere, hlisted⟩) rfl
  · obtain ⟨hx, hxl⟩ := mem_txByTime.mp hx
    exact hlisted (hw.eq_of_key hthere hx hkey ▸ hxl)

theorem Moved.loaded (hw : w.Loaded) (h : Moved w w') : w'.Loaded := ⟨h.keys ▸ hw.keys, h.file⟩

theorem Moved.placed_mem (h : Moved w w')
    (hy : y ∈ placed ⟨0, []⟩ (w.txByTime.map Prod.snd)) :
    y.1.moveTo (Int64.ofInt y.2) ∈ w'.all :=
  (h.mem _).mpr (.inl ⟨y, hy, rfl⟩)

theorem Moved.pos (h : Moved w w') (hy : y ∈ placed ⟨0, []⟩ (w.txByTime.map Prod.snd)) :
    (y.1.moveTo (Int64.ofInt y.2)).nOrderPos = y.2 := by
  rw [nOrderPos_moveTo, h.exact y hy]

theorem final_next_le {items' : List TxPair}
    (h : ∀ y ∈ placed s items, ∃ z ∈ placed s items', z.2 = y.2) :
    (final s items).nOrderPosNext ≤ (final s items').nOrderPosNext := by
  obtain ⟨hle, hall, -⟩ := @final_next s items'
  obtain ⟨-, -, hlast | ⟨y, hy, hlast⟩⟩ := @final_next s items
  · rw [hlast]
    exact hle
  · obtain ⟨z, hz, heq⟩ := h y hy
    have := hall z hz
    omega

/-- **A second call** changes nothing, where all positions are set. -/
theorem Moved.again (h : Moved w w') (hio : w.reorderTransactions io = .ok w')
    (hset : ∀ item ∈ w'.all, item.nOrderPos ≠ -1) : w'.reorderTransactions io = .ok w' := by
  have hnot : ∀ item ∈ w'.txByTime.map Prod.snd, item ∈ w'.all ∧
      ∃ y ∈ placed ⟨0, []⟩ (w.txByTime.map Prod.snd), y.2 = item.nOrderPos := by
    intro item hitem
    obtain ⟨hthere, hlisted⟩ := mem_txByTime.mp hitem
    obtain ⟨y, hy, rfl⟩ | ⟨-, hnot⟩ := (h.mem _).mp hthere
    · exact ⟨hthere, y, hy, (h.pos hy).symm⟩
    · exact absurd hlisted hnot
  have hplaced := placed_again (s := ⟨0, []⟩) (fun x hx => hset x (hnot x hx).1) rfl
  -- the positions of the loop are the same, and so is the next one
  have hnext : (final ⟨0, []⟩ (w'.txByTime.map Prod.snd)).nOrderPosNext =
      w'.nOrderPosNext.toInt := by
    rw [h.next]
    apply le_antisymm
    · refine final_next_le fun z hz => ?_
      obtain ⟨-, y, hy, heq⟩ := hnot _ (mem_of_placed hz)
      exact ⟨y, hy, heq.trans (hplaced z hz).symm⟩
    · refine final_next_le fun y hy => ?_
      have hlisted := (listed_moveTo (Int64.ofInt y.2)).mpr (mem_txByTime.mp (mem_of_placed hy)).2
      obtain ⟨z, hz, heq⟩ := exists_placed ⟨0, []⟩ (mem_txByTime.mpr ⟨h.placed_mem hy, hlisted⟩)
      exact ⟨z, hz, by rw [hplaced z hz, heq, h.pos hy]⟩
  obtain ⟨c', hloop, hc'⟩ := reorderLoop_again io (w := w') (c := ⟨0, []⟩)
    (fun x hx => hset x (hnot x hx).1) rfl (by
      show (final ⟨0, []⟩ _).nOrderPosNext < _
      rw [hnext]
      exact w'.nOrderPosNext.toInt_lt)
  have hc'' : c'.nOrderPosNext = w'.nOrderPosNext :=
    toInt_inj.mp ((congrArg Positions.nOrderPosNext hc').trans hnext)
  rw [CWallet.reorderTransactions, hloop, ok_bind]
  obtain ⟨⟨c₁, w₁⟩, -, hio⟩ := bind_eq_ok.mp hio
  cases hio
  show Except.ok { w₁ with nOrderPosNext := _, db := _ } = Except.ok _
  rw [hc'']
  cases io.orderposnext with
  | true => rfl
  | false => rfl

theorem Moved.apart_of_reordered (hw : w.Loaded) (h : Moved w w') (hr : Reordered io w w') :
    Apart w.unseen ⟨0, []⟩ (w.txByTime.map Prod.snd) := by
  constructor
  · have hkeys := txByTime_keys hw
    rw [← @placed_map_fst ⟨0, []⟩ (w.txByTime.map Prod.snd),
      pairwise_map] at hkeys
    refine hkeys.imp_of_mem fun {y z} hy hz hne heq => hne ?_
    have hsame := inj_on_of_nodup_map hr.distinct (h.placed_mem hy) (h.placed_mem hz)
      (by rw [h.pos hy, h.pos hz, heq])
    rw [← key_moveTo (Int64.ofInt y.2), hsame, key_moveTo]
  · intro y hy ⟨item, hitem, hlisted, hpos⟩
    have hsame := inj_on_of_nodup_map hr.distinct ((h.mem item).mpr (.inr ⟨hitem, hlisted⟩))
      (h.placed_mem hy) (by rw [hpos, h.pos hy])
    exact hlisted (hsame ▸ (listed_moveTo _).mpr (mem_txByTime.mp (mem_of_placed hy)).2)
  · exact fun y hy _ hmem => nomatch hmem
  · intro y hy hold r ⟨item, hitem, hlisted, hpos⟩ hlt
    have hitem' := (h.mem item).mpr (.inr ⟨hitem, hlisted⟩)
    have horder := hr.order _ (mem_txByTime.mp (mem_of_placed hy)).1 _ hitem _ (h.placed_mem hy) _
      hitem' (key_moveTo _).symm rfl hold (hr.isSet _ hitem') (by rw [hpos]; exact hlt)
    rwa [h.pos hy, hpos] at horder
  · intro r ⟨item, hitem, hlisted, hpos⟩
    have hitem' := (h.mem item).mpr (.inr ⟨hitem, hlisted⟩)
    rw [← hpos, ← h.next]
    exact ⟨hr.isSet _ hitem', hr.next _ hitem'⟩

theorem Moved.old (hw : w.Loaded) (h : Moved w w') {moved : TxPair} (hitem : item ∈ w.all)
    (hmoved : moved ∈ w'.all) (hkey : item.key = moved.key) :
    (item, moved.nOrderPos) ∈ placed ⟨0, []⟩ (w.txByTime.map Prod.snd) ∨
      w.unseen item.nOrderPos ∧ moved.nOrderPos = item.nOrderPos := by
  obtain ⟨y, hy, rfl⟩ | ⟨hthere, hlisted⟩ := (h.mem moved).mp hmoved
  · rw [key_moveTo] at hkey
    rw [h.pos hy, hw.eq_of_key hitem (mem_txByTime.mp (mem_of_placed hy)).1 hkey]
    exact .inl hy
  · rw [hw.eq_of_key hitem hthere hkey]
    exact .inr ⟨⟨moved, hthere, hlisted, rfl⟩, rfl⟩

theorem Moved.reordered_of_apart (hw : w.Loaded) (hdistinct : w.Distinct) (h : Moved w w')
    (hio : w.reorderTransactions io = .ok w')
    (ha : Apart w.unseen ⟨0, []⟩ (w.txByTime.map Prod.snd)) : Reordered io w w' := by
  have hset : ∀ item ∈ w'.all, item.nOrderPos ≠ -1 := by
    intro item hitem
    obtain ⟨y, hy, rfl⟩ | ⟨hthere, hlisted⟩ := (h.mem item).mp hitem
    · rw [h.pos hy]
      obtain ⟨hnew, hold⟩ := placed_spec hy
      by_cases hyp : y.1.nOrderPos = -1
      · have : 0 ≤ y.2 := hnew hyp
        omega
      · obtain ⟨hlow, heq⟩ := hold hyp
        by_cases hneg : y.1.nOrderPos < 0
        · rw [heq hneg]
          show y.1.nOrderPos + 0 ≠ -1
          omega
        · omega
    · exact (ha.last _ ⟨item, hthere, hlisted, rfl⟩).1
  constructor
  · exact hset
  · refine List.Nodup.map_on (fun a hitem b hitem' heq => ?_) (h.loaded hw).keys.of_map
    obtain ⟨y, hy, rfl⟩ | ⟨hthere, hlisted⟩ := (h.mem a).mp hitem
    · rw [h.pos hy] at heq
      obtain ⟨z, hz, rfl⟩ | ⟨hthere', hlisted'⟩ := (h.mem b).mp hitem'
      · rw [h.pos hz] at heq
        rw [inj_on_of_nodup_map (pairwise_map.mpr ha.distinct) hy hz heq]
      · exact absurd ⟨b, hthere', hlisted', heq.symm⟩ (ha.unseen y hy)
    · obtain ⟨z, hz, rfl⟩ | ⟨hthere', -⟩ := (h.mem b).mp hitem'
      · rw [h.pos hz] at heq
        exact absurd ⟨a, hthere, hlisted, heq⟩ (ha.unseen z hz)
      · exact hdistinct.eq_of_pos hthere hthere' (hset a hitem) heq
  · intro a ha' b hb' a' hmoved b' hmoved' hkey hkey' hold hold' hlt
    obtain hy | ⟨hunseen, heq⟩ := h.old hw ha' hmoved hkey
    · obtain hz | ⟨hunseen', heq'⟩ := h.old hw hb' hmoved' hkey'
      · exact placed_lt hy hz hold hold' hlt
      · rw [heq']
        exact ha.order _ hy hold _ hunseen' hlt
    · obtain hz | ⟨-, heq'⟩ := h.old hw hb' hmoved' hkey'
      · have hlow := ((placed_spec hz).2 hold').1
        dsimp only at hlow
        omega
      · omega
  · intro item hitem
    rw [h.next]
    obtain ⟨y, hy, rfl⟩ | ⟨hthere, hlisted⟩ := (h.mem item).mp hitem
    · rw [h.pos hy]
      exact final_next.2.1 y hy
    · exact (ha.last _ ⟨item, hthere, hlisted, rfl⟩).2
  · exact h.file
  · exact h.again hio hset

/-- **The items are reordered** exactly if the loop keeps clear. -/
theorem reordered_iff_clear (hw : w.Loaded) (hdistinct : w.Distinct)
    (h : w.reorderTransactions io = .ok w') :
    Reordered io w w' ↔ Clear w.unseen ⟨0, []⟩ (w.txByTime.map Prod.snd) := by
  have hmoved := moved_of_eq_ok hw h
  rw [← apart_iff]
  · exact ⟨fun hr => hmoved.apart_of_reordered hw hr,
      fun ha => hmoved.reordered_of_apart hw hdistinct h ha⟩
  · refine (txByTime_keys hw).imp_of_mem fun {x y} hx hy hne hold heq => hne ?_
    rw [hdistinct.eq_of_pos (mem_txByTime.mp hx).1 (mem_txByTime.mp hy).1 hold heq]
  · intro x hx hold ⟨item, hitem, hlisted, hpos⟩
    obtain ⟨hthere, hxl⟩ := mem_txByTime.mp hx
    exact hlisted (hdistinct.eq_of_pos hthere hitem hold hpos.symm ▸ hxl)

end Fantom.Wallet.OrderPos
