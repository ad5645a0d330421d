/-
  Fantom.Lib.InPlace — Reading into an object that is there already.  A reader that throws has
  changed the object as far as it came.

  * `Loads` — a loader takes what a reader takes, and what it makes of the object,
  * `Loader.field`, `Loader.andThen` — one member, and one after another,
  * `Loader.KeptByThrow` — what is as it was where a loader throws.

  A vector makes room for a batch before it reads it; making room may copy what it has read.
-/
import Fantom.Lib.Codec
import Fantom.Lib.StdVector

namespace Fantom.Lib

open List Option

/-! ## §1. Loaders. -/

/-- Reads into an object. -/
abbrev Loader (σ β : Type) := σ → List β → σ × Option (List β)

variable {σ τ β α γ ρ : Type}

namespace Loader

variable (r : Reader β α)

def ofReader : Loader α β := fun a bs =>
  match r.run bs with
  | none => (a, none)
  | some (a', rest) => (a', some rest)

def skip : Loader σ β := fun s bs => (s, (r.run bs).map Prod.snd)

def field (get : σ → τ) (set : σ → τ → σ) (f : Loader τ β) : Loader σ β := fun s bs =>
  (set s (f (get s) bs).1, (f (get s) bs).2)

/-- One loader, and the other where the first has not thrown. -/
def andThen (f g : Loader σ β) : Loader σ β := fun s bs =>
  match (f s bs).2 with
  | none => ((f s bs).1, none)
  | some rest => g (f s bs).1 rest

variable {f : Loader σ β} {s : σ} {Q : σ → α → σ → Prop}

theorem andThen_of_throws (g : Loader σ β) {bs : List β} (h : (f s bs).2 = none) :
    f.andThen g s bs = ((f s bs).1, none) := by
  rw [andThen, h]

theorem andThen_of_loaded (g : Loader σ β) {bs rest : List β} (h : (f s bs).2 = some rest) :
    f.andThen g s bs = g (f s bs).1 rest := by
  rw [andThen, h]

/-- The loader leaves a part of the object as it is. -/
def Frames (get : σ → τ) (f : Loader σ β) : Prop := ∀ s bs, get (f s bs).1 = get s

def KeptByThrow (get : σ → τ) (f : Loader σ β) : Prop :=
  ∀ s bs, (f s bs).2 = none → get (f s bs).1 = get s

theorem KeptByThrow.andThen {get : σ → τ} {g : Loader σ β} (hf : f.Frames get)
    (hg : g.KeptByThrow get) : (f.andThen g).KeptByThrow get := by
  intro s bs h
  cases hleft : (f s bs).2 with
  | none =>
    rw [andThen_of_throws g hleft]
    exact hf s bs
  | some rest =>
    rw [andThen_of_loaded g hleft] at h ⊢
    exact (hg _ rest h).trans (hf s bs)

theorem keptByThrow_ofReader : (ofReader r).KeptByThrow id := by
  intro a bs h
  unfold ofReader at h ⊢
  cases hr : r.run bs with
  | none => rfl
  | some q =>
    rw [hr] at h
    cases h

end Loader

/-- `f` takes what `r` takes and throws where `r` fails.  `Q` says what it makes of the object. -/
structure Loads (f : Loader σ β) (r : Reader β α) (Q : σ → α → σ → Prop) : Prop where
  throws : ∀ s bs, r.run bs = none → (f s bs).2 = none
  loads : ∀ s bs a rest, r.run bs = some (a, rest) →
    (f s bs).2 = some rest ∧ Q s a (f s bs).1

theorem Loads.of_loaded {r : Reader β α} (h : Loads f r Q) {bs rest : List β}
    (hrest : (f s bs).2 = some rest) :
    ∃ a, r.run bs = some (a, rest) ∧ Q s a (f s bs).1 := by
  cases hr : r.run bs with
  | none =>
    rw [h.throws s bs hr] at hrest
    cases hrest
  | some p =>
    obtain ⟨hleft, hQ⟩ := h.loads s bs p.1 p.2 hr
    obtain rfl : p.2 = rest := Option.some.inj (hleft.symm.trans hrest)
    exact ⟨p.1, rfl, hQ⟩

theorem Loads.mono {r : Reader β α} {Q' : σ → α → σ → Prop} (h : Loads f r Q)
    (hQ : ∀ s a s', Q s a s' → Q' s a s') : Loads f r Q' where
  throws := h.throws
  loads s bs a rest hr := (h.loads s bs a rest hr).imp_right (hQ s a _)

variable (r : Reader β α)

theorem loads_ofReader : Loads (Loader.ofReader r) r fun _ a a' => a' = a where
  throws s bs h := by
    rw [Loader.ofReader, h]
  loads s bs a rest h := by
    rw [Loader.ofReader, h]
    exact ⟨rfl, rfl⟩

theorem loads_skip : Loads (Loader.skip r : Loader σ β) r fun s _ s' => s' = s where
  throws s bs h := by
    rw [Loader.skip, h]
    rfl
  loads s bs a rest h := by
    rw [Loader.skip, h]
    exact ⟨rfl, rfl⟩

theorem Loads.field {f : Loader τ β} {r : Reader β α} {Q : τ → α → τ → Prop} (h : Loads f r Q)
    (get : σ → τ) (set : σ → τ → σ) :
    Loads (Loader.field get set f) r fun s a s' => ∃ t, Q (get s) a t ∧ s' = set s t where
  throws s bs hr := h.throws (get s) bs hr
  loads s bs a rest hr := by
    obtain ⟨hleft, hQ⟩ := h.loads (get s) bs a rest hr
    exact ⟨hleft, _, hQ, rfl⟩

theorem Loads.andThen {g : Loader σ β} {r : Reader β α} {r' : Reader β γ} {Q' : σ → γ → σ → Prop}
    (h : Loads f r Q) (h' : Loads g r' Q') :
    Loads (f.andThen g) (do let a ← r; let b ← r'; return (a, b))
      fun s p s'' => ∃ s', Q s p.1 s' ∧ Q' s' p.2 s'' where
  throws s bs hr := by
    cases hf : r.run bs with
    | none => rw [Loader.andThen_of_throws g (h.throws s bs hf)]
    | some p =>
      rw [run_bind_of_eq hf] at hr
      have hg : r'.run p.2 = none := by
        cases hb : r'.run p.2 with
        | none => rfl
        | some q =>
          rw [run_bind_of_eq hb] at hr
          cases hr
      rw [Loader.andThen_of_loaded g (h.loads s bs p.1 p.2 hf).1]
      exact h'.throws _ p.2 hg
  loads s bs p rest hr := by
    obtain ⟨a, rest1, ha, hr⟩ := run_bind_eq_some.mp hr
    obtain ⟨b, rest2, hb, hr⟩ := run_bind_eq_some.mp hr
    obtain ⟨rfl, rfl⟩ := run_pure_eq_some.mp hr
    obtain ⟨hleft, hQ⟩ := h.loads s bs a rest1 ha
    obtain ⟨hleft', hQ'⟩ := h'.loads (f s bs).1 rest1 b rest2 hb
    rw [Loader.andThen_of_loaded g hleft]
    exact ⟨hleft', _, hQ, hQ'⟩

theorem Loads.map {r : Reader β α} (h : Loads f r Q) (make : α → γ) : Loads f (make <$> r) fun s c
    s' => ∃ a, c = make a ∧ Q s a s' where
  throws s bs hr := by
    rw [StateT.run_map] at hr
    exact h.throws s bs (map_eq_none_iff.mp hr)
  loads s bs c rest hr := by
    rw [StateT.run_map] at hr
    obtain ⟨p, hp, heq⟩ := map_eq_some_iff.mp hr
    cases heq
    obtain ⟨hleft, hQ⟩ := h.loads s bs p.1 p.2 hp
    exact ⟨hleft, p.1, rfl, hQ⟩

/-! ## §2. Maps. -/

section Maps

variable {K V : Type} [Ord K] [Std.TransOrd K]

/-- `n` entries, each inserted as it is read. -/
def loadEntries (r : Reader β (K × V)) : Nat → Loader (StdMap K V) β
  | 0, m, bs => (m, some bs)
  | n + 1, m, bs =>
    match r.run bs with
    | none => (m, none)
    | some (p, rest) => loadEntries r n (StdMap.insertNew m p.1 p.2) rest

def loadMap (size : Codec.Size ρ β) (c : Codec ρ β (K × V)) (env : ρ) : Loader (StdMap K V) β :=
  fun _ bs =>
    match (size.read env).run bs with
    | none => (∅, none)
    | some (n, rest) => loadEntries (c.read env) n ∅ rest

theorem loadEntries_loads (r : Reader β (K × V)) (n : Nat) :
    Loads (loadEntries r n) (readMany r n) fun m l m' =>
      m' = l.foldl (fun m p => StdMap.insertNew m p.1 p.2) m := by
  induction n with
  | zero =>
    constructor
    · intro m bs h
      cases h
    · intro m bs l rest h
      obtain ⟨rfl, rfl⟩ := run_pure_eq_some.mp h
      exact ⟨rfl, rfl⟩
  | succ n ih =>
    constructor
    · intro m bs h
      rw [loadEntries]
      cases hr : r.run bs with
      | none => rfl
      | some q =>
        refine ih.throws _ q.2 ?_
        cases hrest : (readMany r n).run q.2 with
        | none => rfl
        | some q' =>
          rw [readMany, run_bind_of_eq hr, run_bind_of_eq hrest] at h
          cases h
    · intro m bs l rest h
      obtain ⟨p, rest1, hp, h⟩ := run_bind_eq_some.mp h
      obtain ⟨l', rest2, hl, h⟩ := run_bind_eq_some.mp h
      obtain ⟨rfl, rfl⟩ := run_pure_eq_some.mp h
      rw [loadEntries, hp]
      exact ih.loads _ rest1 l' rest2 hl

variable [Std.LawfulEqOrd K] [DecidableEq K]

theorem loadMap_loads (size : Codec.Size ρ β) (c : Codec ρ β (K × V)) (env : ρ) :
    Loads (loadMap size c env) ((Codec.stdMap size c).read env) fun _ m m' => m' = m where
  throws m bs h := by
    have h' := map_eq_none_iff.mp ((StateT.run_map ..).symm.trans h)
    unfold loadMap
    cases hsize : (size.read env).run bs with
    | none => rfl
    | some q =>
      refine (loadEntries_loads (c.read env) q.1).throws ∅ q.2 ?_
      exact (run_bind_of_eq hsize).symm.trans h'
  loads m bs m' rest h := by
    obtain ⟨q, hq, heq⟩ := map_eq_some_iff.mp ((StateT.run_map ..).symm.trans h)
    cases heq
    obtain ⟨n, rest1, hn, hl⟩ := run_bind_eq_some.mp hq
    rw [loadMap, hn]
    exact (loadEntries_loads (c.read env) n).loads ∅ rest1 q.1 q.2 hl

end Maps

/-! ## §3. Vectors. -/

/-- The elements are read where they stand; the one whose reading throws is `torn`. -/
def loadEach (r : Reader β α) (torn : α → List β → α) : Loader (List α) β
  | [], bs => ([], some bs)
  | a :: l, bs =>
    match r.run bs with
    | none => (torn a bs :: l, none)
    | some (a', rest) => (a' :: (loadEach r torn l rest).1, (loadEach r torn l rest).2)

theorem length_loadEach (torn : α → List β → α) (l : List α) (bs : List β) :
    (loadEach r torn l bs).1.length = l.length := by
  induction l generalizing bs with
  | nil => rfl
  | cons a l ih =>
    rw [loadEach]
    cases r.run bs with
    | none => rfl
    | some q => exact congrArg Nat.succ (ih q.2)

theorem loadEach_throws {r : Reader β α} (torn : α → List β → α) {l : List α} {bs : List β}
    (h : (readMany r l.length).run bs = none) : (loadEach r torn l bs).2 = none := by
  induction l generalizing bs with
  | nil => cases h
  | cons a l ih =>
    rw [loadEach]
    cases hr : r.run bs with
    | none => rfl
    | some q =>
      refine ih ?_
      cases hrest : (readMany r l.length).run q.2 with
      | none => rfl
      | some q' =>
        rw [length_cons, readMany, run_bind_of_eq hr, run_bind_of_eq hrest] at h
        cases h

theorem loadEach_eq {r : Reader β α} (torn : α → List β → α) {l l' : List α} {bs rest : List β}
    (h : (readMany r l.length).run bs = some (l', rest)) :
    loadEach r torn l bs = (l', some rest) := by
  induction l generalizing bs l' with
  | nil =>
    obtain ⟨rfl, rfl⟩ := run_pure_eq_some.mp h
    rfl
  | cons a l ih =>
    obtain ⟨a', rest1, ha, h⟩ := run_bind_eq_some.mp h
    obtain ⟨l'', rest2, hl, h⟩ := run_bind_eq_some.mp h
    obtain ⟨rfl, rfl⟩ := run_pure_eq_some.mp h
    rw [loadEach, ha]
    show (a' :: (loadEach r torn l rest1).1, (loadEach r torn l rest1).2) = _
    rw [ih hl]

/-- How a vector grows: the capacity that is chosen for `n` elements, what is constructed at a
place, and the copy of the element at a place when room for `n` is made. -/
structure Growth (α : Type) where
  newCapacity : Nat → Nat
  new : Nat → α
  copy : Nat → Nat → α → α

variable (r : Reader β α) (torn : α → List β → α) (G : Growth α)

theorem length_loadEach_drop (i : Nat) (l : List α) (bs : List β) :
    (l.take i ++ (loadEach r torn (l.drop i) bs).1).length = l.length := by
  rw [length_append, length_loadEach, ← length_append, take_append_drop]

/-- `for (; i < v.size(); i++) Unserialize(is, v[i]);` -/
def loadFrom (i : Nat) : Loader (StdVector α) β := fun v bs =>
  (⟨v.elems.take i ++ (loadEach r torn (v.elems.drop i) bs).1, v.capacity,
      Nat.le_trans (Nat.le_of_eq (length_loadEach_drop r torn i v.elems bs)) v.size_le⟩,
    (loadEach r torn (v.elems.drop i) bs).2)

/-- `v.resize(nMid')`, and the elements from place `nMid` on are read. -/
def loadBatch (nMid nMid' : Nat) : Loader (StdVector α) β := fun v =>
  loadFrom r torn nMid (v.resize G.newCapacity (G.copy nMid') G.new nMid')

/-- `while (nMid < nSize)`, with room for `batch` more elements in each turn. -/
def loadBatches (batch nSize : Nat) : (fuel nMid : Nat) → Loader (StdVector α) β
  | 0, _, v, _ => (v, none)
  | fuel + 1, nMid, v, bs =>
    if nMid < nSize then
      (loadBatch r torn G nMid (min (nMid + batch) nSize)).andThen
        (loadBatches batch nSize fuel (min (nMid + batch) nSize)) v bs
    else (v, some bs)

/-- A vector, which is cleared first.  Every turn makes room for an element, so there are no more
turns than elements. -/
def loadVector (batch : Nat) (size : Codec.Size ρ β) (c : Codec ρ β α) (env : ρ) :
    Loader (StdVector α) β := fun v bs =>
  match (size.read env).run bs with
  | none => (v.clear, none)
  | some (nSize, rest) =>
    loadBatches (c.read env) torn G batch nSize (nSize + 1) 0 v.clear rest

variable {r}

section Batch

variable {nMid nMid' : Nat} {v : StdVector α} (hlen : v.elems.length = nMid) (hlt : nMid < nMid')
include hlen hlt

theorem length_resized_drop :
    ((v.resize G.newCapacity (G.copy nMid') G.new nMid').elems.drop nMid).length =
      nMid' - nMid := by
  rw [length_drop, StdVector.length_resize (by omega)]

theorem loadBatch_throws {bs : List β} (h : (readMany r (nMid' - nMid)).run bs = none) :
    (loadBatch r torn G nMid nMid' v bs).2 = none := by
  refine loadEach_throws torn ?_
  rw [length_resized_drop G hlen hlt]
  exact h

theorem loadBatch_loads {bs rest : List β} {l : List α}
    (h : (readMany r (nMid' - nMid)).run bs = some (l, rest)) :
    (loadBatch r torn G nMid nMid' v bs).2 = some rest ∧
      (loadBatch r torn G nMid nMid' v bs).1.elems =
        (v.resize G.newCapacity (G.copy nMid') G.new nMid').elems.take nMid ++ l := by
  have hread : loadEach r torn
      ((v.resize G.newCapacity (G.copy nMid') G.new nMid').elems.drop nMid) bs =
        (l, some rest) := by
    refine loadEach_eq torn ?_
    rw [length_resized_drop G hlen hlt]
    exact h
  exact ⟨congrArg Prod.snd hread, congrArg (fun p => _ ++ Prod.fst p) hread⟩

variable (r) in
theorem length_loadBatch (bs : List β) :
    (loadBatch r torn G nMid nMid' v bs).1.elems.length = nMid' :=
  (length_loadEach_drop r torn nMid _ bs).trans (StdVector.length_resize (by omega))

end Batch

section Loop

variable {batch nSize fuel nMid : Nat} {v : StdVector α} {bs rest : List β} {l : List α}

theorem readMany_batch (hle : nMid ≤ nSize) (batch : Nat) :
    readMany r (nSize - nMid) = do
      let xs ← readMany r (min (nMid + batch) nSize - nMid)
      let ys ← readMany r (nSize - min (nMid + batch) nSize)
      return xs ++ ys := by
  rw [← readMany_add]
  congr 1
  omega

theorem readMany_batch_eq_some (hle : nMid ≤ nSize)
    (h : (readMany r (nSize - nMid)).run bs = some (l, rest)) :
    ∃ xs ys rest', l = xs ++ ys ∧
      (readMany r (min (nMid + batch) nSize - nMid)).run bs = some (xs, rest') ∧
      (readMany r (nSize - min (nMid + batch) nSize)).run rest' = some (ys, rest) := by
  rw [readMany_batch hle batch] at h
  obtain ⟨xs, rest', hxs, h⟩ := run_bind_eq_some.mp h
  obtain ⟨ys, rest'', hys, h⟩ := run_bind_eq_some.mp h
  obtain ⟨rfl, rfl⟩ := run_pure_eq_some.mp h
  exact ⟨xs, ys, rest', rfl, hxs, hys⟩

theorem loadBatches_throws (hbatch : 0 < batch) (hlen : v.elems.length = nMid) (hle : nMid ≤ nSize)
    (h : (readMany r (nSize - nMid)).run bs = none) :
    (loadBatches r torn G batch nSize fuel nMid v bs).2 = none := by
  induction fuel generalizing nMid v bs with
  | zero => rfl
  | succ fuel ih =>
    have hlt : nMid < nSize := by
      refine Nat.lt_of_le_of_ne hle fun heq => ?_
      rw [heq, Nat.sub_self] at h
      cases h
    have hnext : nMid < min (nMid + batch) nSize := by omega
    rw [loadBatches, if_pos hlt]
    rw [readMany_batch hle batch] at h
    cases hhead : (readMany r (min (nMid + batch) nSize - nMid)).run bs with
    | none => rw [Loader.andThen_of_throws _ (loadBatch_throws torn G hlen hnext hhead)]
    | some q =>
      rw [run_bind_of_eq hhead] at h
      rw [Loader.andThen_of_loaded _ (loadBatch_loads torn G hlen hnext hhead).1]
      refine ih (length_loadBatch r torn G hlen hnext bs) (Nat.min_le_right ..) ?_
      cases htail : (readMany r (nSize - min (nMid + batch) nSize)).run q.2 with
      | none => rfl
      | some q' =>
        rw [run_bind_of_eq htail] at h
        cases h

theorem loadBatches_loads (hbatch : 0 < batch) (hlen : v.elems.length = nMid)
    (hle : nMid ≤ nSize) (hfuel : nSize < nMid + fuel)
    (h : (readMany r (nSize - nMid)).run bs = some (l, rest)) :
    (loadBatches r torn G batch nSize fuel nMid v bs).2 = some rest ∧
      (loadBatches r torn G batch nSize fuel nMid v bs).1.elems.length = nSize ∧
      (nSize ≤ v.capacity ∨ v.elems = [] ∧ nSize ≤ batch →
        (loadBatches r torn G batch nSize fuel nMid v bs).1.elems = v.elems ++ l) := by
  induction fuel generalizing nMid v bs l with
  | zero => omega
  | succ fuel ih =>
    rw [loadBatches]
    by_cases hlt : nMid < nSize
    · have hnext : nMid < min (nMid + batch) nSize := by omega
      obtain ⟨xs, ys, rest1, rfl, hxs, hys⟩ := readMany_batch_eq_some hle h
      obtain ⟨hleft, helems⟩ := loadBatch_loads torn G hlen hnext hxs
      have hlen' := length_loadBatch r torn G hlen hnext bs
      obtain ⟨hdone, hcount, hkept⟩ :=
        ih hlen' (Nat.min_le_right ..) (by omega) hys
      rw [if_pos hlt, Loader.andThen_of_loaded _ hleft]
      refine ⟨hdone, hcount, fun hroom => ?_⟩
      -- what is there before the turn is there after it
      have hbefore : (v.resize G.newCapacity (G.copy (min (nMid + batch) nSize)) G.new
          (min (nMid + batch) nSize)).elems.take nMid = v.elems := by
        have hall : min (nMid + batch) nSize ≤ v.capacity ∨ v.elems = [] :=
          hroom.imp (fun hcap => by omega) And.left
        rw [StdVector.resize_of_room (by omega) hall, ← hlen, take_left]
      have hroom' :
          nSize ≤ (loadBatch r torn G nMid (min (nMid + batch) nSize) v bs).1.capacity := by
        rcases hroom with hcap | ⟨hnil, hsmall⟩
        · exact Nat.le_trans hcap StdVector.capacity_le_resize
        · have hsize := (loadBatch r torn G nMid (min (nMid + batch) nSize) v bs).1.size_le
          rw [hlen'] at hsize
          omega
      rw [hkept (.inl hroom'), helems, hbefore, append_assoc]
    · obtain rfl : nMid = nSize := by omega
      rw [Nat.sub_self] at h
      obtain ⟨rfl, rfl⟩ := run_pure_eq_some.mp h
      rw [if_neg hlt]
      exact ⟨rfl, hlen, fun _ => (append_nil _).symm⟩

def HeadCopied (G : Growth α) (v : StdVector α) : Prop :=
  ∃ n a, v.elems.head? = some (G.copy n 0 a)

theorem exists_head_copied (n : Nat) {l : List α} (hl : l ≠ []) (new : List α) :
    ∃ a, (l.mapIdx (G.copy n) ++ new).head? = some (G.copy n 0 a) := by
  cases l with
  | nil => exact absurd rfl hl
  | cons a l =>
    refine ⟨a, ?_⟩
    rw [mapIdx_cons]
    rfl

theorem loadBatches_copied (hbatch : 0 < batch) (htight : ∀ n, G.newCapacity n = 0)
    (hlen : v.elems.length = nMid) (hcap : v.capacity = nMid) (hle : nMid ≤ nSize)
    (hfuel : nSize < nMid + fuel) (hfirst : nMid = 0 → batch < nSize)
    (hlater : 0 < nMid → nMid < nSize ∨ HeadCopied G v)
    (h : (readMany r (nSize - nMid)).run bs = some (l, rest)) :
    HeadCopied G (loadBatches r torn G batch nSize fuel nMid v bs).1 := by
  induction fuel generalizing nMid v bs l with
  | zero => omega
  | succ fuel ih =>
    rw [loadBatches]
    by_cases hlt : nMid < nSize
    · have hnext : nMid < min (nMid + batch) nSize := by omega
      obtain ⟨xs, ys, rest1, rfl, hxs, hys⟩ := readMany_batch_eq_some hle h
      obtain ⟨hleft, helems⟩ := loadBatch_loads torn G hlen hnext hxs
      have hlen' := length_loadBatch r torn G hlen hnext bs
      have hcap' : (loadBatch r torn G nMid (min (nMid + batch) nSize) v bs).1.capacity =
          min (nMid + batch) nSize := by
        show (v.resize _ _ _ _).capacity = _
        rw [StdVector.capacity_resize_of_full (by omega) (by omega), htight, Nat.max_zero]
      rw [if_pos hlt, Loader.andThen_of_loaded _ hleft]
      refine ih hlen' hcap' (Nat.min_le_right ..) (by omega) (by omega) (fun _ => ?_) hys
      by_cases hzero : nMid = 0
      · have hmore := hfirst hzero
        exact .inl (by omega)
      -- the elements from before the turn have been copied
      have hne : v.elems ≠ [] := by
        intro hnil
        rw [hnil] at hlen
        exact hzero hlen.symm
      have htake (copy : Nat → α → α) (new : List α) :
          (v.elems.mapIdx copy ++ new).take nMid = v.elems.mapIdx copy := by
        refine take_left' ?_
        rw [length_mapIdx, hlen]
      rw [StdVector.resize_of_full (by omega) (by omega), htake] at helems
      obtain ⟨a, ha⟩ := exists_head_copied G (min (nMid + batch) nSize) hne xs
      exact .inr ⟨_, a, helems ▸ ha⟩
    · obtain rfl : nMid = nSize := by omega
      rw [if_neg hlt]
      have hpos : 0 < nMid := by
        rcases Nat.eq_zero_or_pos nMid with hzero | hpos
        · have hmore := hfirst hzero
          omega
        · exact hpos
      exact (hlater hpos).resolve_left (Nat.lt_irrefl _)

end Loop

/-- What a vector holds after `l` was read into it. -/
structure Filled (G : Growth α) (batch : Nat) (v : StdVector α) (l : List α) (v' : StdVector α) :
    Prop where
  length : v'.elems.length = l.length
  kept : l.length ≤ v.capacity ∨ l.length ≤ batch → v'.elems = l
  copied : batch < l.length → v.capacity = 0 → (∀ n, G.newCapacity n = 0) → HeadCopied G v'

theorem loadVector_loads (torn : α → List β → α) (G : Growth α) {batch : Nat} (hbatch : 0 < batch)
    (size : Codec.Size ρ β) (c : Codec ρ β α) (env : ρ) :
    Loads (loadVector torn G batch size c env) ((Codec.vector size c).read env)
      (Filled G batch) where
  throws v bs h := by
    unfold loadVector
    cases hsize : (size.read env).run bs with
    | none => rfl
    | some q =>
      refine loadBatches_throws torn G hbatch rfl (Nat.zero_le _) ?_
      exact (run_bind_of_eq hsize).symm.trans h
  loads v bs l rest h := by
    obtain ⟨n, rest1, hn, h⟩ := run_bind_eq_some.mp h
    have hlen := (Codec.readMany_takes c env h).1
    rw [loadVector, hn]
    have hfuel : n < 0 + (n + 1) := by omega
    obtain ⟨hleft, hcount, hkept⟩ :=
      loadBatches_loads torn G (v := v.clear) hbatch rfl (Nat.zero_le n) hfuel h
    refine ⟨hleft, hcount.trans hlen.symm, fun hroom => ?_, fun hlarge hcap htight => ?_⟩
    · rw [hlen] at hroom
      exact hkept (hroom.imp_right fun hsmall => ⟨rfl, hsmall⟩)
    · rw [hlen] at hlarge
      exact loadBatches_copied torn G hbatch htight rfl hcap (Nat.zero_le n) hfuel (fun _ => hlarge)
        (fun hpos => absurd hpos (Nat.lt_irrefl 0)) h

end Fantom.Lib
