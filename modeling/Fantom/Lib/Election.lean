/-
  Fantom.Lib.Election — Elections by messages: of all messages with one identity only the first is
  counted, and of the counted messages for a slot the first with the greatest score wins.

  * `offer`, `holder` — a table with one entry a slot, overwritten by strictly greater scores;
    `holder_offerAll`: it holds the first greatest message,
  * `winner_settled_iff` — when the outcome is the same for all orders and repetitions of a set of
    messages: no tie is left to the order, and no choice between messages of one identity.
-/
import Mathlib.Data.List.MinMax
import Fantom.Lib.KeyedMessages

namespace Fantom.Lib.Election

open List

variable {K S V T W : Type} [DecidableEq K] [DecidableEq S] [LinearOrder T]

/-! ## §1. The table. -/

section Table

variable (slot : V → S) (score : V → T)

variable (table : List V)

def holder (s : S) : Option V := table.find? fun w => slot w == s

/-- The table with the first entry replaced that is of the slot of `v` and has a
smaller score. -/
def overwrite (v : V) : List V → Option (List V)
  | [] => none
  | w :: ws =>
    if slot w = slot v ∧ score w < score v then some (v :: ws)
    else (overwrite v ws).map (w :: ·)

def offer (v : V) : List V :=
  match overwrite slot score v table with
  | some table => table
  | none => if (holder slot table (slot v)).isSome then table else table ++ [v]

/-- Keep the message held, unless the new one has a greater score. -/
abbrev better : Option V → V → Option V := argAux fun b c => score c < score b

variable {slot score}

theorem better_some {v w : V} :
    better score (some w) v = if score w < score v then some v else some w := rfl

omit [DecidableEq S] in
theorem holder_cons [DecidableEq S] (w : V) (ws : List V) (s : S) :
    holder slot (w :: ws) s = if slot w = s then some w else holder slot ws s := by
  unfold holder
  rw [find?_cons]
  by_cases h : slot w = s
  · rw [if_pos h, show (slot w == s) = true by simpa using h]
  · rw [if_neg h, show (slot w == s) = false by simpa using h]

theorem overwrite_eq_none {v : V} {ws : List V} (h : overwrite slot score v ws = none) (w : V)
    (hw : holder slot ws (slot v) = some w) : ¬ score w < score v := by
  induction ws with
  | nil => cases hw
  | cons u ws ih =>
    rw [overwrite] at h
    split at h
    next => cases h
    next hc =>
      rw [holder_cons] at hw
      split at hw
      next hs =>
        cases hw
        exact fun hlt => hc ⟨hs, hlt⟩
      next => exact ih (Option.map_eq_none_iff.mp h) hw

theorem overwrite_holder {v : V} {ws ws' : List V} (h : overwrite slot score v ws = some ws')
    (s : S) :
    holder slot ws' s =
      if slot v = s then better score (holder slot ws s) v else holder slot ws s := by
  induction ws generalizing ws' with
  | nil => cases h
  | cons w ws ih =>
    rw [overwrite] at h
    split at h
    next hc =>
      cases h
      rw [holder_cons, holder_cons, hc.1]
      by_cases hs : slot v = s
      · rw [if_pos hs, if_pos hs, if_pos hs, better_some, if_pos hc.2]
      · rw [if_neg hs, if_neg hs, if_neg hs]
    next hc =>
      obtain ⟨rest, hrest, rfl⟩ := Option.map_eq_some_iff.mp h
      rw [holder_cons, holder_cons, ih hrest]
      by_cases hw : slot w = s
      · rw [if_pos hw, if_pos hw]
        by_cases hs : slot v = s
        · -- the first entry of the slot is no smaller, so it stays in front
          rw [if_pos hs, better_some, if_neg fun hlt => hc ⟨hw.trans hs.symm, hlt⟩]
        · rw [if_neg hs]
      · rw [if_neg hw, if_neg hw]

theorem overwrite_slots {v : V} {ws ws' : List V} (h : overwrite slot score v ws = some ws') :
    ws'.map slot = ws.map slot := by
  induction ws generalizing ws' with
  | nil => cases h
  | cons w ws ih =>
    rw [overwrite] at h
    split at h
    next hc =>
      cases h
      rw [map_cons, map_cons, hc.1]
    next =>
      obtain ⟨rest, hrest, rfl⟩ := Option.map_eq_some_iff.mp h
      rw [map_cons, map_cons, ih hrest]

/-- **What one message does to the entry of a slot.** -/
theorem holder_offer (v : V) (s : S) :
    holder slot (offer slot score table v) s =
      if slot v = s then better score (holder slot table s) v else holder slot table s := by
  unfold offer
  cases ho : overwrite slot score v table with
  | some table' => exact overwrite_holder ho s
  | none =>
    show holder slot (if _ then _ else _) s = _
    cases hh : holder slot table (slot v) with
    | some w =>
      rw [if_pos (show (some w).isSome = true from rfl)]
      by_cases hs : slot v = s
      · subst hs
        rw [if_pos rfl, hh, better_some, if_neg (overwrite_eq_none ho w hh)]
      · rw [if_neg hs]
    | none =>
      rw [if_neg (by simp)]
      have happ : holder slot (table ++ [v]) s =
          (holder slot table s).or (holder slot [v] s) := find?_append
      rw [happ, holder_cons]
      by_cases hs : slot v = s
      · subst hs
        rw [if_pos rfl, if_pos rfl, hh]
        rfl
      · rw [if_neg hs, if_neg hs]
        exact Option.or_none

theorem offer_nodup {table : List V} (h : (table.map slot).Nodup) (v : V) :
    ((offer slot score table v).map slot).Nodup := by
  unfold offer
  cases ho : overwrite slot score v table with
  | some table' =>
    show (table'.map slot).Nodup
    rw [overwrite_slots ho]
    exact h
  | none =>
    show ((if _ then _ else _ : List V).map slot).Nodup
    split
    next => exact h
    next hh =>
      rw [map_append, map_singleton, nodup_append]
      refine ⟨h, pairwise_singleton _ _, ?_⟩
      intro a ha b hb heq
      obtain rfl := mem_singleton.mp hb
      obtain ⟨w, hw, hws⟩ := mem_map.mp ha
      refine hh (find?_isSome.mpr ⟨w, hw, ?_⟩)
      rw [hws, heq]
      exact beq_self_eq_true _

variable (slot score)

/-- **The table after a sequence of messages**: each slot holds the first of its
messages with the greatest score. -/
theorem holder_offerAll (vs : List V) (s : S) :
    holder slot (vs.foldl (offer slot score) []) s =
      (vs.filter fun v => slot v == s).argmax score := by
  induction vs using reverseRecOn with
  | nil => rfl
  | append_singleton vs v ih =>
    rw [foldl_append, foldl_cons, foldl_nil, holder_offer, ih, filter_append]
    by_cases hs : slot v = s
    · rw [if_pos hs, filter_cons_of_pos (by simpa using hs), filter_nil,
        argmax, argmax, foldl_append]
      rfl
    · rw [if_neg hs, filter_cons_of_neg (by simpa using hs), filter_nil,
        append_nil]

theorem argmax_map {U : Type} (g : U → V) (us : List U) :
    (us.map g).argmax score = (us.argmax fun u => score (g u)).map g := by
  induction us using reverseRecOn with
  | nil => rfl
  | append_singleton us u ih =>
    rw [map_append, map_singleton, argmax_concat, argmax_concat, ih]
    cases us.argmax fun u => score (g u) with
    | none => rfl
    | some c =>
      show (if _ then some (g u) else some (g c)) = Option.map g (if _ then some u else some c)
      rw [apply_ite (Option.map g)]
      rfl

theorem offerAll_nodup (vs : List V) {table : List V} (h : (table.map slot).Nodup) :
    ((vs.foldl (offer slot score) table).map slot).Nodup := by
  induction vs generalizing table with
  | nil => exact h
  | cons v vs ih => exact ih (offer_nodup h v)

end Table

/-! ## §2. Outcomes. -/

section Outcome

variable (ident : V → K) (slot : V → S) (score : V → T) (read : V → W)

/-- Who wins a slot after a sequence of messages. -/
def winner (ds : List V) (s : S) : Option V :=
  ((FirstWins.firsts ident (fun _ => false) ds).filter fun v => slot v == s).argmax score

/-- Each other identity has a message that does not beat `m`, so `m` wins its
slot for some order of the messages `M`. -/
def CanWin (M : List V) (m : V) : Prop :=
  ∀ c ∈ M, ident c ≠ ident m →
    ∃ c' ∈ M, ident c' = ident c ∧ (slot c' = slot m → score c' ≤ score m)

/-- All messages that can win the slot read the same, and if there is a message
for it then some identity has messages for it only. -/
def SettledAt (M : List V) (s : S) : Prop :=
  (∀ m ∈ M, ∀ m' ∈ M, slot m = s → slot m' = s → CanWin ident slot score M m →
    CanWin ident slot score M m' → read m = read m') ∧
  ((∃ m ∈ M, slot m = s) → ∃ c ∈ M, ∀ c' ∈ M, ident c' = ident c → slot c' = s)

/-- Every message of `M` is delivered, in any order and number, and no other. -/
def Delivers (M ds : List V) : Prop := ∀ m, m ∈ ds ↔ m ∈ M

instance (M : List V) (m : V) : Decidable (CanWin ident slot score M m) :=
  inferInstanceAs (Decidable (∀ c ∈ M, ident c ≠ ident m →
    ∃ c' ∈ M, ident c' = ident c ∧ (slot c' = slot m → score c' ≤ score m)))

instance [DecidableEq W] (M : List V) (s : S) : Decidable (SettledAt ident slot score read M s) :=
  have : Decidable (∀ m ∈ M, ∀ m' ∈ M, slot m = s → slot m' = s → CanWin ident slot score M m →
      CanWin ident slot score M m' → read m = read m') := inferInstance
  have : Decidable ((∃ m ∈ M, slot m = s) → ∃ c ∈ M, ∀ c' ∈ M, ident c' = ident c → slot c' = s) :=
    inferInstance
  instDecidableAnd

variable {ident slot score read} {M ds : List V} {s : S}

variable (ident) in
theorem exists_first (h : Delivers M ds) {c : V} (hc : c ∈ M) :
    ∃ c' ∈ FirstWins.firsts ident (fun _ => false) ds, c' ∈ M ∧ ident c' = ident c := by
  have hsome : (ds.find? fun w => ident w == ident c).isSome = true :=
    find?_isSome.mpr ⟨c, (h c).mpr hc, beq_self_eq_true _⟩
  obtain ⟨c', hc'⟩ := Option.isSome_iff_exists.mp hsome
  have hid : ident c' = ident c := by simpa using find?_some hc'
  refine ⟨c', (FirstWins.mem_firsts ident).mpr ⟨rfl, ?_⟩, (h c').mp (mem_of_find?_eq_some hc'),
    hid⟩
  rw [hid]
  exact hc'

theorem mem_of_firsts {v : V} (hv : v ∈ FirstWins.firsts ident (fun _ => false) ds) : v ∈ ds :=
  mem_of_find?_eq_some ((FirstWins.mem_firsts ident).mp hv).2

theorem winner_mem (hd : Delivers M ds) {m : V} (h : winner ident slot score ds s = some m) :
    m ∈ M ∧ slot m = s := by
  obtain ⟨hmem, hslot⟩ := mem_filter.mp (argmax_mem h)
  exact ⟨(hd m).mp (mem_of_firsts hmem), by simpa using hslot⟩

theorem winner_canWin (hd : Delivers M ds) {m : V}
    (h : winner ident slot score ds s = some m) : CanWin ident slot score M m := by
  intro c hc _
  obtain ⟨c', hfirst, hc', hid⟩ := exists_first ident hd hc
  refine ⟨c', hc', hid, ?_⟩
  intro hs
  have hat : (slot c' == s) = true := by simpa using hs.trans (winner_mem hd h).2
  exact le_of_mem_argmax (mem_filter.mpr ⟨hfirst, hat⟩) h

theorem winner_isSome (hd : Delivers M ds) {c : V} (hc : c ∈ M)
    (hall : ∀ c' ∈ M, ident c' = ident c → slot c' = s) :
    (winner ident slot score ds s).isSome = true := by
  obtain ⟨c', hfirst, hc', hid⟩ := exists_first ident hd hc
  rw [Option.isSome_iff_ne_none]
  intro hnone
  have hat := filter_eq_nil_iff.mp (argmax_eq_none.mp hnone) c' hfirst
  exact hat (by simpa using hall c' hc' hid)

theorem Delivers.filter (h : Delivers M ds) (p : V → Bool) :
    Delivers (M.filter p) (ds.filter p) := by
  intro m
  rw [mem_filter, mem_filter, h m]

theorem Delivers.exists_filter {p : V → Bool} (h : Delivers (M.filter p) ds) :
    ∃ ds', Delivers M ds' ∧ ds'.filter p = ds := by
  refine ⟨ds ++ M.filter fun m => !p m, ?_, ?_⟩
  · intro m
    rw [mem_append, h m, mem_filter, mem_filter]
    cases hp : p m <;> simp
  · have hall : ∀ m ∈ ds, p m = true := fun m hm => (mem_filter.mp ((h m).mp hm)).2
    rw [filter_append, filter_filter, filter_eq_self.mpr hall,
      filter_eq_nil_iff.mpr (by simp), append_nil]

/-- Deliver one chosen message of each identity first. -/
def chosenFirst (M : List V) (choose : V → V) : List V := M.map choose ++ M

theorem delivers_chosenFirst {choose : V → V} (hch : ∀ c ∈ M, choose c ∈ M) :
    Delivers M (chosenFirst M choose) := by
  intro m
  rw [chosenFirst, mem_append, mem_map]
  constructor
  · rintro (⟨c, hc, rfl⟩ | hm)
    · exact hch c hc
    · exact hm
  · exact .inr

theorem firsts_chosenFirst {choose : V → V} (hid : ∀ c ∈ M, ident (choose c) = ident c)
    {seen : K → Bool} {v : V} (hv : v ∈ FirstWins.firsts ident seen (chosenFirst M choose)) :
    seen (ident v) = false ∧ ∃ c ∈ M, v = choose c := by
  obtain ⟨hseen, hfind⟩ := (FirstWins.mem_firsts ident).mp hv
  refine ⟨hseen, ?_⟩
  rw [chosenFirst, find?_append, Option.or_eq_some_iff] at hfind
  rcases hfind with hfind | ⟨hnone, hfind⟩
  · obtain ⟨c, hc, hcv⟩ := mem_map.mp (mem_of_find?_eq_some hfind)
    exact ⟨c, hc, hcv.symm⟩
  · -- the chosen message of this identity comes before
    have hvM : v ∈ M := mem_of_find?_eq_some hfind
    have hnot := find?_eq_none.mp hnone (choose v) (mem_map_of_mem hvM)
    exact absurd (by simpa using hid v hvM) hnot

theorem argmax_cons_of_le {m : V} {l : List V} (h : ∀ v ∈ l, score v ≤ score m) :
    (m :: l).argmax score = some m := by
  rw [argmax_cons]
  cases hl : l.argmax score with
  | none => rfl
  | some c =>
    show (if score m < score c then some c else some m) = some m
    rw [if_neg (not_lt_of_ge (h c (argmax_mem hl)))]

theorem Delivers.cons (h : Delivers M ds) {m : V} (hm : m ∈ M) : Delivers M (m :: ds) := by
  intro v
  rw [mem_cons, h v]
  constructor
  · rintro (rfl | hv)
    · exact hm
    · exact hv
  · exact .inr

theorem CanWin.exists_winner {m : V} (hm : m ∈ M) (h : CanWin ident slot score M m) :
    ∃ ds, Delivers M ds ∧ winner ident slot score ds (slot m) = some m := by
  have hex : ∀ c, ∃ c', c ∈ M → c' ∈ M ∧ ident c' = ident c ∧
      (ident c ≠ ident m → slot c' = slot m → score c' ≤ score m) := by
    intro c
    by_cases hc : c ∈ M
    · by_cases hid : ident c = ident m
      · exact ⟨c, fun _ => ⟨hc, rfl, fun hne => absurd hid hne⟩⟩
      · obtain ⟨c', hc', hid', hle⟩ := h c hc hid
        exact ⟨c', fun _ => ⟨hc', hid', fun _ => hle⟩⟩
    · exact ⟨c, fun hc' => absurd hc' hc⟩
  obtain ⟨choose, hch⟩ := Classical.axiomOfChoice hex
  refine ⟨m :: chosenFirst M choose,
    (delivers_chosenFirst fun c hc => (hch c hc).1).cons hm, ?_⟩
  · rw [winner, FirstWins.firsts, if_neg (by simp), filter_cons_of_pos (by simp)]
    apply argmax_cons_of_le
    intro v hv
    obtain ⟨hfirst, hslot⟩ := mem_filter.mp hv
    obtain ⟨hseen, c, hc, rfl⟩ := firsts_chosenFirst (fun c hc => (hch c hc).2.1) hfirst
    obtain ⟨_, hid, hle⟩ := hch c hc
    refine hle ?_ (by simpa using hslot)
    rw [← hid]
    intro heq
    simp [heq] at hseen

theorem exists_no_winner (h : ∀ c ∈ M, ∃ c' ∈ M, ident c' = ident c ∧ slot c' ≠ s) :
    ∃ ds, Delivers M ds ∧ winner ident slot score ds s = none := by
  have hex : ∀ c, ∃ c', c ∈ M → c' ∈ M ∧ ident c' = ident c ∧ slot c' ≠ s := by
    intro c
    by_cases hc : c ∈ M
    · obtain ⟨c', hc'⟩ := h c hc
      exact ⟨c', fun _ => hc'⟩
    · exact ⟨c, fun hc' => absurd hc' hc⟩
  obtain ⟨choose, hch⟩ := Classical.axiomOfChoice hex
  refine ⟨chosenFirst M choose, delivers_chosenFirst fun c hc => (hch c hc).1, ?_⟩
  rw [winner, argmax_eq_none, filter_eq_nil_iff]
  intro v hv
  obtain ⟨_, c, hc, rfl⟩ := firsts_chosenFirst (fun c hc => (hch c hc).2.1) hv
  simpa using (hch c hc).2.2

theorem exists_some_winner {m : V} (hm : m ∈ M) :
    ∃ ds, Delivers M ds ∧ (winner ident slot score ds (slot m)).isSome = true := by
  refine ⟨m :: M, Delivers.cons (fun _ => Iff.rfl) hm, ?_⟩
  rw [Option.isSome_iff_ne_none]
  rw [winner, FirstWins.firsts, if_neg (by simp), filter_cons_of_pos (by simp), ne_eq,
    argmax_eq_none]
  exact cons_ne_nil _ _

variable (ident slot score read)

/-- **When the outcome is settled.**  What is read of the winner of a slot is the
same for all deliveries of a set of messages exactly when the set settles it. -/
theorem winner_settled_iff (M : List V) (s : S) :
    (∀ ds ds', Delivers M ds → Delivers M ds' →
      (winner ident slot score ds s).map read = (winner ident slot score ds' s).map read) ↔
    SettledAt ident slot score read M s := by
  constructor
  · intro h
    refine ⟨?_, ?_⟩
    · intro m hm m' hm' hs hs' hcan hcan'
      obtain ⟨ds, hd, hw⟩ := hcan.exists_winner hm
      obtain ⟨ds', hd', hw'⟩ := hcan'.exists_winner hm'
      have heq := h ds ds' hd hd'
      rw [← hs, hw, hs, ← hs', hw'] at heq
      exact Option.some.inj heq
    · rintro ⟨m, hm, hs⟩
      by_contra hno
      have hfree : ∀ c ∈ M, ∃ c' ∈ M, ident c' = ident c ∧ slot c' ≠ s := by
        intro c hc
        by_contra hc'
        refine hno ⟨c, hc, fun c' hm' hid => ?_⟩
        by_contra hne
        exact hc' ⟨c', hm', hid, hne⟩
      obtain ⟨ds, hd, hw⟩ :
          ∃ ds, Delivers M ds ∧ winner ident slot score ds s = none := exists_no_winner hfree
      obtain ⟨ds', hd', hw'⟩ :
          ∃ ds, Delivers M ds ∧ (winner ident slot score ds (slot m)).isSome = true :=
        exists_some_winner hm
      have heq := congrArg Option.isSome (h ds ds' hd hd')
      rw [hs] at hw'
      rw [hw, Option.isSome_map, Option.isSome_map, hw'] at heq
      cases heq
  · rintro ⟨htie, hbound⟩ ds ds' hd hd'
    cases hw : winner ident slot score ds s with
    | some m =>
      cases hw' : winner ident slot score ds' s with
      | some m' =>
        have hread := htie m (winner_mem hd hw).1 m' (winner_mem hd' hw').1
          (winner_mem hd hw).2 (winner_mem hd' hw').2 (winner_canWin hd hw)
          (winner_canWin hd' hw')
        rw [Option.map_some, Option.map_some, hread]
      | none =>
        obtain ⟨c, hc, hall⟩ := hbound ⟨m, winner_mem hd hw⟩
        have hsome : (winner ident slot score ds' s).isSome = true := winner_isSome hd' hc hall
        rw [hw'] at hsome
        cases hsome
    | none =>
      cases hw' : winner ident slot score ds' s with
      | some m' =>
        obtain ⟨c, hc, hall⟩ := hbound ⟨m', winner_mem hd' hw'⟩
        have hsome : (winner ident slot score ds s).isSome = true := winner_isSome hd hc hall
        rw [hw] at hsome
        cases hsome
      | none => rfl

-- messages are (identity, slot, score): a tie, and an identity with two slots
example :
    SettledAt (fun m : Nat × Nat × Nat => m.1) (fun m => m.2.1) (fun m => m.2.2) id
        [(1, 5, 8), (2, 5, 9)] 5 ∧
      ¬ SettledAt (fun m : Nat × Nat × Nat => m.1) (fun m => m.2.1) (fun m => m.2.2) id
        [(1, 5, 9), (2, 5, 9)] 5 ∧
      ¬ SettledAt (fun m : Nat × Nat × Nat => m.1) (fun m => m.2.1) (fun m => m.2.2) id
        [(1, 5, 9), (1, 6, 9)] 5 := by
  decide

end Outcome

end Fantom.Lib.Election
