/-
  Fantom.Wallet.Aligned — When `ReorderTransactions` leaves one strict order.

  The loop compares the old position of an item with the insertion points so far, which are shifted
  themselves.  So an old position may be below an insertion point that belongs below it, and the
  item is then moved by too little.  Nothing of that kind happens where the positions are level.

  * `slot` — where a new item belongs: above all positions before it, and above the new items,
  * `below` — by how much an old position has to move,
  * `Level` — no old position is between the place of a new item and its slot,
  * `state_spec` — what the counters of the loop are, as long as the positions are level,
  * `level_of_clear` — where no position is left out, nothing but a level wallet is reordered,
  * `reordered_iff_aligned` — when the items are reordered.
-/
import Fantom.Wallet.Reorder
import Mathlib.Data.List.TakeWhile

namespace Fantom.Wallet.OrderPos

open List

/-! ## §1. Positions in the order of time. -/

/-- One above the highest of the positions. -/
def top (ps : List Int) : Int := ps.foldl (fun t p => max t (p + 1)) 0

/-- The same, with room for the items that have no position. -/
def slot (ps : List Int) : Int := top ps + ps.count (-1)

/-- The items without a position that come before all that is above `p`, or at `p`. -/
def below (ps : List Int) (p : Int) : Nat := (ps.takeWhile (· < p)).count (-1)

/-- `p` is not between the place of a new item in `ps` and the slot of that item. -/
def LevelAt (ps : List Int) (p : Int) : Prop := ∀ a, a ++ [-1] <+: ps → top a ≤ p → slot a ≤ p

/-- **Level**: no position is, of those that come after the new item. -/
def Level (ps : List Int) : Prop := ∀ pre p, pre ++ [p] <+: ps → p ≠ -1 → LevelAt pre p

variable {ps a pre : List Int} {p r : Int}

theorem top_concat : top (ps ++ [p]) = max (top ps) (p + 1) := foldl_append

theorem top_le_iff : top ps ≤ r ↔ 0 ≤ r ∧ ∀ p ∈ ps, p < r := by
  induction ps using reverseRecOn with
  | nil => simp [top]
  | append_singleton ps p ih =>
    rw [top_concat, max_le_iff, Int.add_one_le_iff, ih, and_assoc]
    simp [or_imp, forall_and]

theorem top_nonneg (ps : List Int) : 0 ≤ top ps := (top_le_iff.mp le_rfl).1

theorem lt_top (h : p ∈ ps) : p < top ps := (top_le_iff.mp le_rfl).2 p h

theorem top_eq (ps : List Int) : top ps = 0 ∨ ∃ p ∈ ps, top ps = p + 1 := by
  by_contra hnone
  rw [not_or] at hnone
  have hle : top ps ≤ top ps - 1 := by
    have := top_nonneg ps
    refine top_le_iff.mpr ⟨by omega, fun p hp => ?_⟩
    have hlt := lt_top hp
    have hne : top ps ≠ p + 1 := fun heq => hnone.2 ⟨p, hp, heq⟩
    omega
  omega

theorem top_mono (h : a <+: ps) : top a ≤ top ps :=
  top_le_iff.mpr ⟨top_nonneg _, fun _ hp => lt_top (h.subset hp)⟩

theorem below_append (h : top a ≤ r) (ps : List Int) :
    below (a ++ ps) r = a.count (-1) + below ps r := by
  have hall : ∀ p ∈ a, decide (p < r) = true :=
    fun p hp => decide_eq_true ((top_le_iff.mp h).2 p hp)
  rw [below, takeWhile_append_of_pos hall, count_append, below]

theorem below_of_top_le (h : top ps ≤ r) : below ps r = ps.count (-1) := by
  have happend := below_append h []
  rwa [append_nil] at happend

theorem below_append_of_lt (h : r < top a) (ps : List Int) : below (a ++ ps) r = below a r := by
  rcases lt_or_ge r 0 with hneg | hpos
  · -- a position below 0 moves by nothing
    have hnone : ∀ l, below l r = 0 := by
      intro l
      refine count_eq_zero.mpr fun hmem => ?_
      have hlt : (-1 : Int) < r := by simpa using mem_takeWhile_imp hmem
      omega
    rw [hnone, hnone]
  · have hlong : (a.takeWhile (· < r)).length ≠ a.length := by
      intro hlen
      have hall := takeWhile_eq_self_iff.mp ((takeWhile_sublist _).eq_of_length hlen)
      have hle := top_le_iff.mpr ⟨hpos, fun p hp => of_decide_eq_true (hall p hp)⟩
      omega
    rw [below, takeWhile_append, if_neg hlong, below]

theorem below_le (ps : List Int) (r : Int) : below ps r ≤ ps.count (-1) :=
  (takeWhile_sublist _).count_le _

theorem levelAt_concat : LevelAt (ps ++ [p]) r ↔
    LevelAt ps r ∧ (p = -1 → top ps ≤ r → slot ps ≤ r) := by
  constructor
  · refine fun h => ⟨fun a ha => h a (ha.trans (prefix_append _ _)), ?_⟩
    rintro rfl
    exact h ps (prefix_refl _)
  · rintro ⟨h, hlast⟩ a ha
    rcases prefix_concat_iff.mp ha with heq | ha
    · obtain ⟨rfl, hp⟩ := append_inj' heq rfl
      exact hlast (singleton_inj.mp hp).symm
    · exact h a ha

theorem level_concat : Level (ps ++ [p]) ↔ Level ps ∧ (p ≠ -1 → LevelAt ps p) := by
  constructor
  · refine fun h => ⟨fun pre q hpre => h pre q (hpre.trans (prefix_append _ _)), ?_⟩
    exact h ps p (prefix_refl _)
  · rintro ⟨h, hlast⟩ pre q hpre
    rcases prefix_concat_iff.mp hpre with heq | hpre
    · obtain ⟨rfl, hq⟩ := append_inj' heq rfl
      rw [singleton_inj.mp hq]
      exact hlast
    · exact h pre q hpre

theorem Level.initial (h : Level ps) (hpre : pre <+: ps) : Level pre :=
  fun a q ha => h a q (ha.trans hpre)

/-! ## §2. The counters of the loop. -/

/-- The counters of the loop after `ps`. -/
def state (ps : List Int) : Positions := ps.foldl Positions.after ⟨0, []⟩

theorem state_concat : state (ps ++ [p]) = (state ps).after p := foldl_append

/-- **The counters** as long as the positions are level: the next position, the insertion points,
and by how much a position moves. -/
theorem state_spec (h : Level ps) : (state ps).nOrderPosNext = slot ps ∧
    (∀ o, o ∈ (state ps).nOrderPosOffsets ↔ ∃ a, a ++ [-1] <+: ps ∧ slot a = o) ∧
    ∀ r, LevelAt ps r → (state ps).off r = below ps r := by
  induction ps using reverseRecOn with
  | nil => exact ⟨rfl, by simp [state], fun r _ => rfl⟩
  | append_singleton ps p ih =>
    obtain ⟨hps, hp⟩ := level_concat.mp h
    obtain ⟨hnext, hoffsets, hoff⟩ := ih hps
    have hcount := below_le ps p
    rw [state_concat]
    refine ⟨?_, fun o => ?_, fun r hr => ?_⟩
    · rw [Positions.after, slot, top_concat, count_append]
      split
      next hnew =>
        have := top_nonneg ps
        subst hnew
        dsimp only
        rw [hnext, slot, max_eq_left (by omega), count_singleton_self]
        omega
      next hold =>
        dsimp only
        rw [hnext, hoff p (hp hold), slot, count_singleton, if_neg (by simpa using hold)]
        rcases le_or_gt (top ps) p with hle | hlt
        · rw [below_of_top_le hle]
          omega
        · omega
    · rw [mem_offsets_after, hoffsets, hnext]
      constructor
      · rintro (⟨a, ha, rfl⟩ | ⟨rfl, rfl⟩)
        · exact ⟨a, ha.trans (prefix_append _ _), rfl⟩
        · exact ⟨ps, prefix_refl _, rfl⟩
      · rintro ⟨a, ha, rfl⟩
        rcases prefix_concat_iff.mp ha with heq | ha
        · obtain ⟨rfl, hnew⟩ := append_inj' heq rfl
          exact .inr ⟨(singleton_inj.mp hnew).symm, rfl⟩
        · exact .inl ⟨a, ha, rfl⟩
    · obtain ⟨hr, hlast⟩ := levelAt_concat.mp hr
      rw [Positions.off_after, hoff r hr, hnext]
      have hslot : top ps ≤ slot ps := by
        rw [slot]
        omega
      rcases le_or_gt (top ps) r with hle | hlt
      · rw [below_append hle, below_of_top_le hle]
        by_cases hnew : p = -1
        · have := top_nonneg ps
          rw [if_pos ⟨hnew, hlast hnew hle⟩, hnew]
          simp [below, show (-1 : Int) < r by omega]
        · have hnone : ([p].takeWhile (· < r)).count (-1) = 0 := count_eq_zero.mpr fun hmem =>
            hnew (mem_singleton.mp ((takeWhile_sublist _).subset hmem)).symm
          rw [if_neg fun hand => hnew hand.1, below, hnone]
      · rw [below_append_of_lt hlt, if_neg fun hand => by omega, Nat.add_zero]

/-- A position that has moved is at no slot. -/
theorem add_below_ne_slot (ha : a ++ [-1] <+: pre) : p + below pre p ≠ slot a := by
  obtain ⟨rest, rfl⟩ := ha
  rw [slot]
  rcases le_or_gt (top a) p with hle | hlt
  · have htop : top (a ++ [-1]) ≤ p := by
      have := top_nonneg a
      rw [top_concat]
      omega
    rw [below_append htop, count_append, count_singleton_self]
    omega
  · have := below_le a p
    rw [append_assoc, below_append_of_lt hlt]
    omega

theorem state_append (s : Positions) (l : List Int) (h : r < s.nOrderPosNext) :
    (l.foldl Positions.after s).off r = s.off r ∧
      ∀ o ∈ s.nOrderPosOffsets, o ∈ (l.foldl Positions.after s).nOrderPosOffsets := by
  induction l generalizing s with
  | nil => exact ⟨rfl, fun o ho => ho⟩
  | cons p l ih =>
    obtain ⟨hoff, hoffsets⟩ := ih (s.after p) (lt_of_lt_of_le h s.next_le_after)
    refine ⟨?_, fun o ho => hoffsets o (mem_offsets_after.mpr (.inl ho))⟩
    rw [foldl_cons, hoff, Positions.off_after, if_neg fun hand => by omega, Nat.add_zero]

/-! ## §3. When the loop keeps clear. -/

variable {others : Int → Prop} {items : List TxPair}

/-- One turn of the loop keeps clear. -/
def ClearAt (others : Int → Prop) (s : Positions) (p : Int) : Prop :=
  if p = -1 then ¬ others s.nOrderPosNext
  else s.place p ∉ s.nOrderPosOffsets ∧ ∀ r, others r → p < r → s.place p < r

theorem clear_iff_turns (s : Positions) : Clear others s items ↔
    (∀ pre p, pre ++ [p] <+: items.map TxPair.nOrderPos →
      ClearAt others (pre.foldl Positions.after s) p) ∧
    ∀ r, others r → r ≠ -1 ∧ r < (final s items).nOrderPosNext := by
  induction items generalizing s with
  | nil => simp [Clear, final]
  | cons item items ih =>
    rw [Clear, ih, ← and_assoc]
    refine and_congr_left' ⟨fun h pre p hpre => ?_, fun h => ⟨?_, fun pre p hpre => ?_⟩⟩
    · obtain ⟨hhead, hrest⟩ := h
      cases pre with
      | nil =>
        obtain rfl := (cons_prefix_cons.mp hpre).1
        exact hhead
      | cons q pre =>
        obtain ⟨rfl, htail⟩ := cons_prefix_cons.mp hpre
        exact hrest pre p htail
    · exact h [] _ (cons_prefix_cons.mpr ⟨rfl, nil_prefix⟩)
    · exact h (_ :: pre) p (cons_prefix_cons.mpr ⟨rfl, hpre⟩)

/-- What the positions `others`, which the loop does not see, have to be beside `ps`. -/
structure Beside (others : Int → Prop) (ps : List Int) : Prop where
  isSet : ∀ r, others r → r ≠ -1
  next : ∀ r, others r → r < slot ps
  /-- No new item gets one of them. -/
  new : ∀ a, a ++ [-1] <+: ps → ¬ others (slot a)
  /-- No item moves to one, or past it. -/
  old : ∀ pre p, pre ++ [p] <+: ps → p ≠ -1 → ∀ r, others r → p < r → p + below pre p < r

/-- **A level wallet** is clear exactly if the positions that the loop does not see are beside. -/
theorem clear_iff_beside (h : Level (items.map TxPair.nOrderPos)) :
    Clear others ⟨0, []⟩ items ↔ Beside others (items.map TxPair.nOrderPos) := by
  have hturn : ∀ pre p, pre ++ [p] <+: items.map TxPair.nOrderPos →
      (ClearAt others (state pre) p ↔ (p = -1 → ¬ others (slot pre)) ∧
        (p ≠ -1 → ∀ r, others r → p < r → p + below pre p < r)) := by
    intro pre p hpre
    obtain ⟨hnext, hoffsets, hoff⟩ := state_spec (h.initial ((prefix_append _ _).trans hpre))
    unfold ClearAt Positions.place
    by_cases hp : p = -1
    · rw [if_pos hp, hnext]
      simp [hp]
    · rw [if_neg hp, if_neg hp, hoff p (h pre p hpre hp), hoffsets]
      have hslot : ¬ ∃ a, a ++ [-1] <+: pre ∧ slot a = p + below pre p :=
        fun ⟨a, ha, heq⟩ => add_below_ne_slot ha heq.symm
      simp [hp, hslot]
  rw [clear_iff_turns, show (final ⟨0, []⟩ items).nOrderPosNext = _ from (state_spec h).1]
  constructor
  · rintro ⟨hall, hlast⟩
    exact ⟨fun r hr => (hlast r hr).1, fun r hr => (hlast r hr).2,
      fun a ha => ((hturn a (-1) ha).mp (hall a (-1) ha)).1 rfl,
      fun pre p hpre => ((hturn pre p hpre).mp (hall pre p hpre)).2⟩
  · rintro ⟨hset, hnext, hnew, hold⟩
    refine ⟨fun pre p hpre => (hturn pre p hpre).mpr ⟨?_, hold pre p hpre⟩,
      fun r hr => ⟨hset r hr, hnext r hr⟩⟩
    rintro rfl
    exact hnew pre hpre

/-! ## §4. Wallets in which no position is left out. -/

/-- A new item stands behind another one that has no room: then no later item has the position that
was next, as it would move to the slot of the new item. -/
theorem top_notMem (h : ∀ pre p, pre ++ [p] <+: ps → ClearAt others (state pre) p)
    (ha : a ++ [-1] <+: ps) (hl : Level a) (hat : LevelAt a (top a)) (hnew : -1 ∈ a) :
    top a ∉ ps := by
  intro hmem
  obtain ⟨hnext, -, hoff⟩ := state_spec hl
  have hnonneg := top_nonneg a
  have hlt : top a < (state a).nOrderPosNext := by
    have hcount := count_pos_iff.mpr hnew
    rw [hnext, slot]
    omega
  obtain ⟨rest, hrest⟩ := ha
  rw [← hrest, mem_append, mem_append, mem_singleton] at hmem
  obtain (hmem | hmem) | hmem := hmem
  · exact absurd (lt_top hmem) (lt_irrefl _)
  · omega
  obtain ⟨mid, post, rfl⟩ := append_of_mem hmem
  have hturn := h (a ++ -1 :: mid) (top a) ⟨post, by rw [← hrest]; simp⟩
  obtain ⟨hsame, -⟩ := state_append (state a) (-1 :: mid) hlt
  obtain ⟨-, hkept⟩ := state_append (r := top a) ((state a).after (-1)) mid
    (lt_of_lt_of_le hlt (state a).next_le_after)
  rw [ClearAt, if_neg (by omega), state, foldl_append] at hturn
  refine hturn.1 ?_
  rw [Positions.place, if_neg (by omega)]
  change top a + (((-1 :: mid).foldl Positions.after (state a)).off (top a) : Int) ∈
    (mid.foldl Positions.after ((state a).after (-1))).nOrderPosOffsets
  rw [hsame, hoff _ hat, below_of_top_le le_rfl]
  refine hkept _ (mem_offsets_after.mpr (.inr ⟨rfl, ?_⟩))
  rw [hnext, slot]

/-- Nor does an entry that the loop does not see: the first new item would come too close to it. -/
theorem not_other_top (h : ∀ pre p, pre ++ [p] <+: ps → ClearAt others (state pre) p)
    (ha : a <+: ps) (hl : Level a) (hnew : -1 ∈ a) : ¬ others (top a) := by
  intro hother
  obtain ⟨a₀, b₀, rfl, hnot⟩ := eq_append_cons_of_mem hnew
  have hsplit : a₀ ++ [-1] ++ b₀ = a₀ ++ -1 :: b₀ := by simp
  obtain ⟨hnext, -, -⟩ := state_spec (hl.initial (prefix_append _ _))
  rw [slot, count_eq_zero.mpr hnot] at hnext
  have hfirst := h a₀ (-1) (.trans ⟨b₀, hsplit⟩ ha)
  rw [ClearAt, if_pos rfl, hnext] at hfirst
  have hnonneg := top_nonneg a₀
  have hlt : top a₀ < top (a₀ ++ -1 :: b₀) := by
    refine lt_of_le_of_ne (top_mono (prefix_append _ _)) fun heq => hfirst ?_
    rw [heq]
    simpa using hother
  -- the highest of the old items comes after the first new one
  obtain hzero | ⟨q, hq, htop⟩ := top_eq (a₀ ++ -1 :: b₀)
  · omega
  rw [mem_append, mem_cons] at hq
  obtain hq | rfl | hq := hq
  · have := lt_top hq
    omega
  · omega
  obtain ⟨mid, post, rfl⟩ := append_of_mem hq
  have hturn := h (a₀ ++ -1 :: mid) q (.trans ⟨post, by simp⟩ ha)
  rw [ClearAt, if_neg (by omega)] at hturn
  have hplace := hturn.2 _ hother (by omega)
  obtain ⟨-, hkept⟩ := state_append (r := top a₀) ((state a₀).after (-1)) mid (by
    rw [Positions.after, if_pos rfl, hnext]
    show top a₀ < top a₀ + ((0 : Nat) : Int) + 1
    omega)
  have hoffset : top a₀ ∈ (state (a₀ ++ -1 :: mid)).nOrderPosOffsets := by
    rw [state, foldl_append]
    refine hkept _ (mem_offsets_after.mpr (.inr ⟨rfl, ?_⟩))
    rw [hnext]
    simp
  have hoff : 0 < (state (a₀ ++ -1 :: mid)).off q :=
    countP_pos_iff.mpr ⟨_, hoffset, decide_eq_true (by omega)⟩
  rw [Positions.place, if_neg (by omega)] at hplace
  omega

/-- **Where no position is left out**, the loop keeps clear of nothing but what is level. -/
theorem level_of_clear (hfull : ∀ p ∈ ps, ∀ k, 0 ≤ k → k ≤ p → k ∈ ps ∨ others k)
    (h : ∀ pre p, pre ++ [p] <+: ps → ClearAt others (state pre) p) : Level ps := by
  -- by induction on what is before the new item
  suffices hnew : ∀ n a, a.length = n → ∀ pre p, pre ++ [p] <+: ps → a ++ [-1] <+: pre →
      top a ≤ p → slot a ≤ p by
    exact fun pre p hpre _ a ha => hnew _ a rfl pre p hpre ha
  intro n
  induction n using Nat.strong_induction_on with
  | _ n ih =>
    rintro a rfl pre p hpre ha htop
    by_contra hlt
    have hps : a ++ [-1] <+: ps := ha.trans ((prefix_append _ _).trans hpre)
    have hbefore : ∀ a', a' ++ [-1] <+: a → ∀ pre p, pre ++ [p] <+: ps → a' ++ [-1] <+: pre →
        top a' ≤ p → slot a' ≤ p := fun a' ha' =>
      ih a'.length (by simpa using ha'.length_le) a' rfl
    have hlevel : Level a := fun pre p hpre _ a' ha' =>
      hbefore a' (ha'.trans ((prefix_append _ _).trans hpre)) pre p
        (hpre.trans ((prefix_append _ _).trans hps)) ha'
    have hcount : -1 ∈ a := by
      rw [← count_pos_iff]
      rw [slot] at hlt
      omega
    have hmem : p ∈ ps := hpre.subset (mem_append_right _ (mem_singleton_self p))
    rcases hfull p hmem (top a) (top_nonneg a) htop with hlisted | hother
    · refine top_notMem h hps hlevel (fun a' ha' => ?_) hcount hlisted
      -- the item that was next is after `a`
      obtain ⟨rest, rfl⟩ := (prefix_append _ _).trans hps
      obtain hin | hin := mem_append.mp hlisted
      · exact absurd (lt_top hin) (lt_irrefl _)
      · obtain ⟨mid, post, rfl⟩ := append_of_mem hin
        exact hbefore a' ha' (a ++ mid) _ ⟨post, by simp⟩ (ha'.trans (prefix_append _ _))
    · exact not_other_top h ((prefix_append _ _).trans hps) hlevel hcount hother

/-! ## §5. When the items are reordered. -/

namespace CWallet

variable (w : CWallet)

/-- The positions of the listed items, by time. -/
def positions : List Int := (w.txByTime.map Prod.snd).map TxPair.nOrderPos

/-- **Aligned**: the positions of the listed items are level, those of the others are beside, and
all slots are numbers of `int64_t`. -/
structure Aligned : Prop where
  level : Level w.positions
  beside : Beside w.unseen w.positions
  fits : slot w.positions < 2 ^ 63

/-- No position is left out below one that is set. -/
def Full : Prop := ∀ item ∈ w.all, item.nOrderPos ≠ -1 → ∀ k : Int, 0 ≤ k → k ≤ item.nOrderPos →
  ∃ item' ∈ w.all, item'.nOrderPos = k

end CWallet

variable {io : Writes} {w w' : CWallet}

theorem mem_positions (h : w.Full) (hp : p ∈ w.positions) {k : Int} (hk : 0 ≤ k) (hle : k ≤ p) :
    k ∈ w.positions ∨ w.unseen k := by
  obtain ⟨item, hitem, rfl⟩ := mem_map.mp hp
  obtain ⟨item', hitem', rfl⟩ := h item (mem_txByTime.mp hitem).1 (by omega) k hk hle
  by_cases hlisted : item'.Listed
  · exact .inl (mem_map_of_mem (mem_txByTime.mpr ⟨hitem', hlisted⟩))
  · exact .inr ⟨item', hitem', hlisted, rfl⟩

theorem next_eq_slot (hw : w.Loaded) (h : w.reorderTransactions io = .ok w')
    (hl : Level w.positions) : w'.nOrderPosNext.toInt = slot w.positions :=
  (moved_of_eq_ok hw h).next.trans (state_spec hl).1

/-- **An aligned wallet** is reordered, unless a write fails. -/
theorem reordered_of_aligned (io : Writes) (hw : w.Loaded) (hdistinct : w.Distinct)
    (h : w.Aligned) :
    w.reorderTransactions io = .error .DB_LOAD_FAIL ∨
      ∃ w', w.reorderTransactions io = .ok w' ∧ Reordered io w w' := by
  cases hcall : w.reorderTransactions io with
  | ok w' =>
    refine .inr ⟨w', rfl, (reordered_iff_clear hw hdistinct hcall).mpr ?_⟩
    exact (clear_iff_beside h.level).mpr h.beside
  | error e =>
    cases e with
    | DB_LOAD_FAIL => exact .inl rfl
    | overflow =>
      have hfits := reorderLoop_fits io (w.txByTime.map Prod.snd) (w := w) (c := ⟨0, []⟩)
        (lt_of_eq_of_lt (state_spec h.level).1 h.fits)
      rw [CWallet.reorderTransactions] at hcall
      cases hloop : reorderLoop io (w.txByTime.map Prod.snd) ⟨0, []⟩ w with
      | ok r =>
        rw [hloop] at hcall
        cases hcall
      | error e =>
        rw [hloop] at hcall
        cases hcall
        exact absurd hloop hfits

theorem aligned_of_reordered (hw : w.Loaded) (hdistinct : w.Distinct) (hfull : w.Full)
    (h : w.reorderTransactions io = .ok w') (hr : Reordered io w w') : w.Aligned := by
  have hclear := (reordered_iff_clear hw hdistinct h).mp hr
  have hmem : ∀ p ∈ w.positions, ∀ k, 0 ≤ k → k ≤ p → k ∈ w.positions ∨ w.unseen k :=
    fun p hp k hk hle => mem_positions hfull hp hk hle
  have hlevel := level_of_clear hmem ((clear_iff_turns _).mp hclear).1
  refine ⟨hlevel, (clear_iff_beside hlevel).mp hclear, ?_⟩
  rw [← next_eq_slot hw h hlevel]
  exact w'.nOrderPosNext.toInt_lt

/-- **The items are reordered** where the wallet is aligned; and where no position is left out, in
no other case. -/
theorem reordered_iff_aligned (hw : w.Loaded) (hdistinct : w.Distinct) :
    (w.Aligned → w.reorderTransactions io = .error .DB_LOAD_FAIL ∨
      ∃ w', w.reorderTransactions io = .ok w' ∧ Reordered io w w') ∧
    (w.Full → ∀ w', w.reorderTransactions io = .ok w' → (Reordered io w w' ↔ w.Aligned)) := by
  refine ⟨reordered_of_aligned io hw hdistinct, fun hfull w' h =>
    ⟨aligned_of_reordered hw hdistinct hfull h, fun ha => ?_⟩⟩
  obtain hfail | ⟨w'', hok, hr⟩ := reordered_of_aligned io hw hdistinct ha
  · rw [h] at hfail
    cases hfail
  · rw [h] at hok
    cases hok
    exact hr

def allWritten : Writes := ⟨fun _ => true, true⟩

/-- A transaction at 0, a later one without a position, and one at 5; and an accounting entry of a
named account at 3. -/
def upgraded : CWallet :=
  let txs : List CWalletTx := [⟨1, 1, 0⟩, ⟨2, 2, -1⟩, ⟨3, 3, 5⟩]
  ⟨txs, 0, ⟨txs, [⟨[97], 1, 4, 3⟩], none⟩⟩

theorem upgraded_aligned : upgraded.Aligned := by
  have hpositions : upgraded.positions = [0, -1, 5] := rfl
  have hturns : ∀ pre p, pre ++ [p] <+: [0, -1, (5 : Int)] →
      pre = [] ∧ p = 0 ∨ pre = [0] ∧ p = -1 ∨ pre = [0, -1] ∧ p = 5 := by
    intro pre p hpre
    rcases pre with _ | ⟨x, _ | ⟨y, _ | ⟨z, pre⟩⟩⟩ <;> simp_all
  have hunseen : ∀ r, upgraded.unseen r → r = 3 := by
    rintro r ⟨item, hitem, hlisted, rfl⟩
    simp only [upgraded, CWallet.all, map_cons, map_nil, cons_append,
      nil_append, mem_cons, not_mem_nil, or_false] at hitem
    obtain rfl | rfl | rfl | rfl := hitem
    · exact absurd trivial hlisted
    · exact absurd trivial hlisted
    · exact absurd trivial hlisted
    · rfl
  refine ⟨?_, ⟨fun r hr => ?_, fun r hr => ?_, fun a ha hr => ?_, fun pre p hpre hp r hr => ?_⟩, ?_⟩
  · rw [hpositions]
    intro pre p hpre hp a ha
    rcases hturns pre p hpre with ⟨rfl, rfl⟩ | ⟨rfl, rfl⟩ | ⟨rfl, rfl⟩
    · simp at ha
    · exact absurd rfl hp
    · -- the new item has the slot 1
      rcases hturns a (-1) (ha.trans (prefix_append [0, -1] [5])) with h | h | h
      · omega
      · rw [h.1]
        decide
      · omega
  · rw [hunseen r hr]
    decide
  · rw [hunseen r hr, hpositions]
    decide
  · rcases hturns a (-1) ha with h | h | h
    · omega
    · rw [h.1] at hr
      exact absurd (hunseen _ hr) (by decide)
    · omega
  · rw [hunseen r hr]
    rcases hturns pre p hpre with ⟨rfl, rfl⟩ | ⟨rfl, rfl⟩ | ⟨rfl, rfl⟩
    · decide
    · exact absurd rfl hp
    · decide
  · rw [hpositions]
    decide

theorem upgraded_reordered : ∃ w', upgraded.reorderTransactions allWritten = .ok w' ∧
    Reordered allWritten upgraded w' := by
  have hloaded : upgraded.Loaded := ⟨by decide, by unfold CWallet.FileAgrees; rfl⟩
  have hdistinct : upgraded.Distinct := by
    unfold CWallet.Distinct
    decide
  exact ((reordered_iff_aligned hloaded hdistinct).1 upgraded_aligned).resolve_left (by decide)

/-- A transaction at 0, two without a position, and the last one at 1. -/
def tied : CWallet :=
  let txs : List CWalletTx := [⟨1, 1, 0⟩, ⟨2, 2, -1⟩, ⟨3, 3, -1⟩, ⟨4, 4, 1⟩]
  ⟨txs, 0, ⟨txs, [], none⟩⟩

/-- **Two at one place**: the second transaction gets the position 1, the third one 2, and the last
one is moved from 1 to 2. -/
theorem two_at_one_place : tied.Loaded ∧ tied.Distinct ∧
    ∃ w', tied.reorderTransactions allWritten = .ok w' ∧ ¬ Reordered allWritten tied w' := by
  refine ⟨⟨by decide, by unfold CWallet.FileAgrees; rfl⟩, by unfold CWallet.Distinct; decide, _, rfl,
    fun hr => ?_⟩
  have hdistinct := hr.distinct
  revert hdistinct
  decide

end Fantom.Wallet.OrderPos
