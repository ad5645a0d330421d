/-
  Fantom.Blocks.OrphanBlocks — The store of blocks that wait for their parents.

  * `getOrphanRoot_eq`, `wantedByOrphan_eq` — the walks back end at the first block of an orphan
    chain.

  Memory is explicit: a pointer is a number, and following one to an object that was deleted does
  not return.  Neither does a loop that goes round in circles.
-/
import Fantom.Blocks.AcceptBlock
import Fantom.Lib.StdMultimap

namespace Fantom.Blocks

open Core Chain Lib List StdMap Function

/-! ## §1. The store. -/

/-- `COrphanBlock`, with the block that `vchBlock` unserializes to. -/
structure COrphanBlock (H : Hashes) where
  hashBlock : UInt256
  hashPrev : UInt256
  stake : Stake
  vchBlock : CBlock
  hashBlock_eq : hashBlock = vchBlock.getHash H
  hashPrev_eq : hashPrev = vchBlock.hashPrevBlock
  stake_eq : stake = getProofOfStake vchBlock

/-- The object that `ProcessBlock` fills in for a block. -/
def COrphanBlock.new (H : Hashes) (b : CBlock) : COrphanBlock H where
  hashBlock := b.getHash H
  hashPrev := b.hashPrevBlock
  stake := getProofOfStake b
  vchBlock := b
  hashBlock_eq := rfl
  hashPrev_eq := rfl
  stake_eq := rfl

/-- `COrphanBlock*`. -/
abbrev Ptr : Type := Nat

/-- The globals of the store, over a heap with the objects that are not deleted. -/
structure OrphanBlocks (H : Hashes) where
  heap : Ptr → Option (COrphanBlock H)
  /-- The pointer that the next `new` returns. -/
  nextPtr : Ptr
  mapOrphanBlocks : StdMap UInt256 Ptr
  mapOrphanBlocksByPrev : StdMultimap UInt256 Ptr
  setStakeSeenOrphan : StdSet Stake

namespace OrphanBlocks

variable {H : Hashes}

def empty : OrphanBlocks H := ⟨fun _ => none, 0, ∅, [], ∅⟩

variable (s : OrphanBlocks H)

variable (p : Ptr)

/-- `*p` -/
def deref : Except Abort (COrphanBlock H) :=
  required (s.heap p) .dangling

/-- The step of `GetOrphanRoot`, between entries of the map. -/
def prevEntry (hash : UInt256) : Except Abort (Option UInt256) :=
  match s.mapOrphanBlocks[hash]? with
  | none => .ok none
  | some p =>
    (s.deref p).map fun o =>
      if s.mapOrphanBlocks.contains o.hashPrev then some o.hashPrev else none

def getOrphanRoot (hash : UInt256) : Except Abort UInt256 :=
  if !s.mapOrphanBlocks.contains hash then .ok hash
  else follow s.prevEntry .endless s.mapOrphanBlocks.size hash

/-- The step of `WantedByOrphan`, between objects. -/
def prevOrphan : Except Abort (Option Ptr) :=
  (s.deref p).map fun o => s.mapOrphanBlocks[o.hashPrev]?

def wantedByOrphan : Except Abort UInt256 := do
  let p ← follow s.prevOrphan .endless s.mapOrphanBlocks.size p
  let o ← s.deref p
  return o.hashPrev

variable (nMaxOrphanBlocks : Int64)

/-- `max((int64_t)0, GetArg("-maxorphanblocks", ..))` -/
def maxOrphans : Nat := nMaxOrphanBlocks.toInt.toNat

/-- The step of `PruneOrphanBlocks`, from an entry to one of its successors. -/
def successor (it : Nat) : Except Abort (Option Nat) :=
  match s.mapOrphanBlocksByPrev[it]? with
  | none => .error .dangling
  | some e => (s.deref e.2).map fun o => s.mapOrphanBlocksByPrev.find o.hashBlock

/-- The objects after `p` is deleted, and taken out of the map and the set. -/
def forget (o : COrphanBlock H) : OrphanBlocks H :=
  { s with
    heap := update s.heap p none
    mapOrphanBlocks := s.mapOrphanBlocks.erase o.hashBlock
    setStakeSeenOrphan := s.setStakeSeenOrphan.erase o.stake }

theorem forget_heap (p q : Ptr) (o : COrphanBlock H) :
    (s.forget p o).heap q = if q = p then none else s.heap q := by
  unfold forget
  exact update_apply ..

/-- `PruneOrphanBlocks`, when `insecure_rand` returns `nRand`. -/
def pruneOrphanBlocks (nRand : UInt32) (s : OrphanBlocks H) : Except Abort (OrphanBlocks H) :=
  if s.mapOrphanBlocksByPrev.length ≤ maxOrphans nMaxOrphanBlocks then .ok s
  else do
    let pos := nRand.toNat % s.mapOrphanBlocksByPrev.length
    let it ← follow s.successor .endless s.mapOrphanBlocksByPrev.length pos
    let e ← required s.mapOrphanBlocksByPrev[it]? .dangling
    let o ← s.deref e.2
    return { s.forget e.2 o with mapOrphanBlocksByPrev := s.mapOrphanBlocksByPrev.eraseIdx it }

/-- The object that `PruneOrphanBlocks` evicts, if it evicts one. -/
def evicted (nRand : UInt32) (s : OrphanBlocks H) : Option Ptr :=
  if s.mapOrphanBlocksByPrev.length ≤ maxOrphans nMaxOrphanBlocks then none
  else
    let pos := nRand.toNat % s.mapOrphanBlocksByPrev.length
    match follow s.successor .endless s.mapOrphanBlocksByPrev.length pos with
    | .error _ => none
    | .ok it => s.mapOrphanBlocksByPrev[it]?.map Prod.snd

theorem pruneOrphanBlocks_eq_ok {nMaxOrphanBlocks : Int64} {nRand : UInt32}
    {s s' : OrphanBlocks H} (h : s.pruneOrphanBlocks nMaxOrphanBlocks nRand = .ok s') :
    (s.evicted nMaxOrphanBlocks nRand = none ∧ s' = s) ∨
    ∃ it e o, s.evicted nMaxOrphanBlocks nRand = some e.2 ∧
      s.mapOrphanBlocksByPrev[it]? = some e ∧ s.heap e.2 = some o ∧
      s' = { s.forget e.2 o with
        mapOrphanBlocksByPrev := s.mapOrphanBlocksByPrev.eraseIdx it } := by
  unfold pruneOrphanBlocks at h
  unfold evicted
  split at h
  next hlimit =>
    cases h
    exact .inl ⟨if_pos hlimit, rfl⟩
  next hlimit =>
    obtain ⟨it, hfollow, h⟩ := bind_eq_ok.mp h
    obtain ⟨e, hget, h⟩ := bind_eq_ok.mp h
    obtain ⟨o, ho, h⟩ := bind_eq_ok.mp h
    cases h
    rw [required_eq_ok] at hget
    refine .inr ⟨it, e, o, ?_, hget, required_eq_ok.mp ho, rfl⟩
    rw [if_neg hlimit]
    dsimp only
    rw [hfollow]
    dsimp only
    rw [hget]
    rfl

/-- The insertion of a new orphan, and the pointer to it. -/
def insertOrphan (b : CBlock) : OrphanBlocks H :=
  let o := COrphanBlock.new H b
  { heap := update s.heap s.nextPtr (some o)
    nextPtr := s.nextPtr + 1
    mapOrphanBlocks := StdMap.insertNew s.mapOrphanBlocks o.hashBlock s.nextPtr
    mapOrphanBlocksByPrev := s.mapOrphanBlocksByPrev.insert o.hashPrev s.nextPtr
    setStakeSeenOrphan :=
      if b.isProofOfStake then s.setStakeSeenOrphan.insert o.stake else s.setStakeSeenOrphan }

theorem insertOrphan_heap (b : CBlock) (q : Ptr) :
    (s.insertOrphan b).heap q = if q = s.nextPtr then some (.new H b) else s.heap q := by
  unfold insertOrphan
  exact update_apply ..

end OrphanBlocks

/-! ## §2. The invariant. -/

variable {H : Hashes}

/-- Both maps hold the live objects, each under its own hashes. -/
structure Consistent (heap : Ptr → Option (COrphanBlock H)) (mapOrphanBlocks : StdMap UInt256 Ptr)
    (byPrev : StdMultimap UInt256 Ptr) : Prop where
  nodup : (byPrev.map Prod.snd).Nodup
  live : ∀ p, (heap p).isSome ↔ p ∈ byPrev.map Prod.snd
  byHash : ∀ h p, mapOrphanBlocks[h]? = some p ↔ ∃ o, heap p = some o ∧ o.hashBlock = h
  byPrev : ∀ h p, (h, p) ∈ byPrev → ∃ o, heap p = some o ∧ o.hashPrev = h

namespace Consistent

variable {heap : Ptr → Option (COrphanBlock H)} {m : StdMap UInt256 Ptr}
  {entries entries' : StdMultimap UInt256 Ptr}

theorem perm (h : Consistent heap m entries) (hp : entries.Perm entries') :
    Consistent heap m entries' where
  nodup := (hp.map Prod.snd).nodup_iff.mp h.nodup
  live p := (h.live p).trans (hp.map Prod.snd).mem_iff
  byHash := h.byHash
  byPrev k p hk := h.byPrev k p (hp.mem_iff.mpr hk)

variable {p : Ptr} {o : COrphanBlock H}

theorem stored (h : Consistent heap m entries) (ho : heap p = some o) : (o.hashPrev, p) ∈ entries ∧
    m[o.hashBlock]? = some p := by
  refine ⟨?_, (h.byHash _ _).mpr ⟨o, ho, rfl⟩⟩
  obtain ⟨⟨k, q⟩, hmem, rfl⟩ := mem_map.mp ((h.live p).mp (by rw [ho]; rfl))
  obtain ⟨o', ho', rfl⟩ := h.byPrev k q hmem
  obtain rfl := Option.some.inj (ho.symm.trans ho')
  exact hmem

theorem same_objects (h : Consistent heap m entries) :
    (m.toList.map Prod.snd).Perm (entries.map Prod.snd) := by
  have hget {k : UInt256} {p : Ptr} : (k, p) ∈ m.toList ↔ m[k]? = some p :=
    Std.ExtTreeMap.mem_toList_iff_getElem?_eq_some
  refine (perm_ext_iff_of_nodup ?_ h.nodup).mpr fun p => ?_
  · -- an object has one hash, so that two entries with one object are one entry
    refine List.Nodup.map_on ?_ ?_
    · rintro ⟨k, p⟩ hk ⟨k', p'⟩ hk' (rfl : p = p')
      obtain ⟨o, ho, rfl⟩ := (h.byHash k p).mp (hget.mp hk)
      obtain ⟨o', ho', rfl⟩ := (h.byHash k' p).mp (hget.mp hk')
      obtain rfl := Option.some.inj (ho.symm.trans ho')
      rfl
    · refine (Std.ExtTreeMap.distinct_keys_toList (t := m)).imp fun {e e'} hne heq => hne ?_
      rw [heq]
      exact Std.ReflCmp.compare_self
  · rw [← h.live p, mem_map]
    constructor
    · rintro ⟨⟨k, q⟩, hk, rfl⟩
      obtain ⟨o, ho, _⟩ := (h.byHash k q).mp (hget.mp hk)
      rw [ho]
      rfl
    · intro hp
      obtain ⟨o, ho⟩ := Option.isSome_iff_exists.mp hp
      exact ⟨(o.hashBlock, p), hget.mpr (h.stored ho).2, rfl⟩

theorem size_eq (h : Consistent heap m entries) : m.size = entries.length := by
  have hlen := h.same_objects.length_eq
  rwa [length_map, length_map, Std.ExtTreeMap.length_toList] at hlen

theorem remove {k : UInt256} (h : Consistent heap m ((k, p) :: entries)) (ho : heap p = some o) :
    Consistent (update heap p none) (m.erase o.hashBlock) entries := by
  have hnodup := h.nodup
  rw [map_cons, nodup_cons] at hnodup
  constructor
  · exact hnodup.2
  · intro q
    by_cases hq : q = p
    · subst hq
      simp [hnodup.1]
    · rw [update_of_ne hq, h.live q, map_cons, mem_cons]
      exact or_iff_right hq
  · intro hash q
    rw [get_erase]
    by_cases hq : q = p
    · subst hq
      rw [update_self]
      simp only [reduceCtorEq, false_and, exists_false, iff_false]
      split
      · exact nofun
      next hne =>
        intro hget
        obtain ⟨o', ho', rfl⟩ := (h.byHash hash q).mp hget
        exact hne (congrArg COrphanBlock.hashBlock (Option.some.inj (ho.symm.trans ho')))
    · rw [update_of_ne hq]
      split
      next heq =>
        -- the map has one pointer under this hash, and it is `p`
        subst heq
        refine ⟨nofun, fun hex => ?_⟩
        have hget := (h.byHash o.hashBlock q).mpr hex
        rw [(h.stored ho).2] at hget
        exact absurd (Option.some.inj hget).symm hq
      next => exact h.byHash hash q
  · intro hash q hmem
    have hq : q ≠ p := by
      rintro rfl
      exact hnodup.1 (mem_map.mpr ⟨(hash, q), hmem, rfl⟩)
    rw [update_of_ne hq]
    exact h.byPrev hash q (mem_cons_of_mem _ hmem)

theorem add (h : Consistent heap m entries) (hfresh : heap p = none)
    (hnew : m[o.hashBlock]? = none) :
    Consistent (update heap p (some o)) (m.insert o.hashBlock p)
      ((o.hashPrev, p) :: entries) := by
  have hp : p ∉ entries.map Prod.snd := by
    rw [← h.live p, hfresh]
    exact nofun
  constructor
  · rw [map_cons, nodup_cons]
    exact ⟨hp, h.nodup⟩
  · intro q
    rw [map_cons, mem_cons]
    by_cases hq : q = p
    · subst hq
      simp
    · rw [update_of_ne hq, h.live q]
      exact (or_iff_right hq).symm
  · intro hash q
    rw [get_insert]
    by_cases hq : q = p
    · subst hq
      rw [update_self]
      split
      next heq => simp [heq]
      next hne =>
        refine ⟨fun hget => ?_, ?_⟩
        · obtain ⟨o', ho', _⟩ := (h.byHash hash q).mp hget
          rw [hfresh] at ho'
          cases ho'
        · rintro ⟨o', ho', rfl⟩
          cases ho'
          exact absurd rfl hne
    · rw [update_of_ne hq]
      split
      next heq =>
        subst heq
        refine ⟨fun hget => absurd (Option.some.inj hget).symm hq, fun hex => ?_⟩
        rw [(h.byHash o.hashBlock q).mpr hex] at hnew
        cases hnew
      next => exact h.byHash hash q
  · intro hash q hmem
    rcases mem_cons.mp hmem with heq | hin
    · cases heq
      exact ⟨o, update_self .., rfl⟩
    · have hq : q ≠ p := by
        rintro rfl
        exact hp (mem_map.mpr ⟨(hash, q), hin, rfl⟩)
      rw [update_of_ne hq]
      exact h.byPrev hash q hin

end Consistent

/-- The invariant of the store. -/
structure Sound (s : OrphanBlocks H) : Prop where
  consistent : Consistent s.heap s.mapOrphanBlocks s.mapOrphanBlocksByPrev
  fresh : ∀ p, s.nextPtr ≤ p → s.heap p = none

/-- Parents come before their children in an order of hashes, so that no walk along
parents or children comes back. -/
def RankedBy (rank : UInt256 → Nat) (s : OrphanBlocks H) : Prop :=
  ∀ p o, s.heap p = some o → rank o.hashPrev < rank o.hashBlock

def Childless (s : OrphanBlocks H) (hash : UInt256) : Prop :=
  ∀ p o, s.heap p = some o → o.hashPrev ≠ hash

namespace Sound

variable {s : OrphanBlocks H} {rank : UInt256 → Nat}

theorem empty : Sound (OrphanBlocks.empty : OrphanBlocks H) where
  consistent :=
    { nodup := nodup_nil
      live := fun p => by simp [OrphanBlocks.empty]
      byHash := fun h p => by simp [OrphanBlocks.empty]
      byPrev := fun h p hmem => nomatch hmem }
  fresh _ _ := rfl

theorem deref_eq (h : s.heap p = some o) :
    s.deref p = .ok o := by
  rw [OrphanBlocks.deref, h]
  rfl

theorem childless_iff (h : Sound s) {hash : UInt256} :
    Childless s hash ↔ ∀ p, (hash, p) ∉ s.mapOrphanBlocksByPrev := by
  constructor
  · intro hno p hmem
    obtain ⟨o, ho, hprev⟩ := h.consistent.byPrev hash p hmem
    exact hno p o ho hprev
  · rintro hno p o ho rfl
    exact hno p (h.consistent.stored ho).1

/-! ### The walks. -/

theorem at_position (h : Sound s) {it : Nat} {e : UInt256 × Ptr}
    (hget : s.mapOrphanBlocksByPrev[it]? = some e) :
    ∃ o, s.heap e.2 = some o ∧ o.hashPrev = e.1 :=
  h.consistent.byPrev e.1 e.2 (mem_of_getElem? hget)

theorem successor_eq {it : Nat} {e : UInt256 × Ptr} (hget : s.mapOrphanBlocksByPrev[it]? = some e)
    (ho : s.heap e.2 = some o) :
    s.successor it = .ok (s.mapOrphanBlocksByPrev.find o.hashBlock) := by
  rw [OrphanBlocks.successor, hget]
  dsimp only
  rw [deref_eq ho]
  rfl

def rankAt (rank : UInt256 → Nat) (s : OrphanBlocks H) (it : Nat) : Nat :=
  ((s.mapOrphanBlocksByPrev[it]?.bind fun e => s.heap e.2).map fun o => rank o.hashBlock).getD 0

theorem rankAt_eq {it : Nat} {e : UInt256 × Ptr} (hget : s.mapOrphanBlocksByPrev[it]? = some e)
    (ho : s.heap e.2 = some o) :
    rankAt rank s it = rank o.hashBlock := by
  rw [rankAt, hget, Option.bind_some, ho]
  rfl

theorem follow_successor (h : Sound s) (hr : RankedBy rank s) {pos : Nat}
    (hpos : pos < s.mapOrphanBlocksByPrev.length) :
    ∃ it e o, follow s.successor .endless s.mapOrphanBlocksByPrev.length pos = .ok it ∧
      s.mapOrphanBlocksByPrev[it]? = some e ∧ s.heap e.2 = some o ∧
      Childless s o.hashBlock := by
  have hplace {it : Nat} (hit : it ∈ List.range s.mapOrphanBlocksByPrev.length) :
      ∃ e o, s.mapOrphanBlocksByPrev[it]? = some e ∧ s.heap e.2 = some o := by
    have hget := List.getElem?_eq_getElem (mem_range.mp hit)
    obtain ⟨o, ho, _⟩ := h.at_position hget
    exact ⟨_, o, hget, ho⟩
  have hends := follow_ends s.successor Abort.endless
    (fun a b => rankAt rank s a < rankAt rank s b) (fun a => Nat.lt_irrefl _)
    (fun a b c => Nat.lt_trans) (List.range s.mapOrphanBlocksByPrev.length) (fun a ha => ?_)
    (mem_range.mpr hpos) length_range.le
  · obtain ⟨it, hit, hfollow, hend⟩ := hends
    obtain ⟨e, o, hget, ho⟩ := hplace hit
    rw [successor_eq hget ho] at hend
    refine ⟨it, e, o, hfollow, hget, ho, h.childless_iff.mpr fun p hp => ?_⟩
    exact StdMultimap.find_eq_none (Except.ok.inj hend) p hp
  · obtain ⟨e, o, hget, ho⟩ := hplace ha
    refine ⟨_, successor_eq hget ho, fun b hb => ?_⟩
    obtain ⟨p, hp⟩ := StdMultimap.find_eq_some hb
    obtain ⟨o', ho', hprev⟩ := h.at_position hp
    have hlt := hr _ o' ho'
    rw [hprev] at hlt
    refine ⟨mem_range.mpr (List.getElem?_eq_some_iff.mp hp).1, ?_⟩
    rw [rankAt_eq hget ho, rankAt_eq hp ho']
    exact hlt

/-- **What `PruneOrphanBlocks` does**: nothing within the limit, else it deletes one block,
which has no child in the store. -/
theorem pruneOrphanBlocks_cases (h : Sound s) (hr : RankedBy rank s) (nMaxOrphanBlocks : Int64)
    (nRand : UInt32) :
    (s.mapOrphanBlocksByPrev.length ≤ OrphanBlocks.maxOrphans nMaxOrphanBlocks ∧
      s.pruneOrphanBlocks nMaxOrphanBlocks nRand = .ok s) ∨
    (OrphanBlocks.maxOrphans nMaxOrphanBlocks < s.mapOrphanBlocksByPrev.length ∧
      ∃ it e o, s.mapOrphanBlocksByPrev[it]? = some e ∧ s.heap e.2 = some o ∧
        Childless s o.hashBlock ∧
        s.pruneOrphanBlocks nMaxOrphanBlocks nRand = .ok { s.forget e.2 o with
          mapOrphanBlocksByPrev := s.mapOrphanBlocksByPrev.eraseIdx it }) := by
  unfold OrphanBlocks.pruneOrphanBlocks
  by_cases hlimit : s.mapOrphanBlocksByPrev.length ≤ OrphanBlocks.maxOrphans nMaxOrphanBlocks
  · exact .inl ⟨hlimit, if_pos hlimit⟩
  · refine .inr ⟨Nat.lt_of_not_le hlimit, ?_⟩
    have hpos : nRand.toNat % s.mapOrphanBlocksByPrev.length < s.mapOrphanBlocksByPrev.length :=
      Nat.mod_lt _ (by omega)
    obtain ⟨it, e, o, hfollow, hget, ho, hchild⟩ := h.follow_successor hr hpos
    refine ⟨it, e, o, hget, ho, hchild, ?_⟩
    rw [if_neg hlimit]
    dsimp only
    rw [hfollow, ok_bind, hget]
    rw [required, ok_bind, deref_eq ho]
    rfl

/-- `GetOrphanRoot` ends, at a stored block whose parent is not stored when the block it
starts from is stored. -/
theorem getOrphanRoot_eq (h : Sound s) (hr : RankedBy rank s) (hash : UInt256) :
    ∃ root, s.getOrphanRoot hash = .ok root ∧ (s.mapOrphanBlocks.contains hash = true →
      ∃ p o, s.heap p = some o ∧ o.hashBlock = root ∧
        s.mapOrphanBlocks.contains o.hashPrev = false) := by
  unfold OrphanBlocks.getOrphanRoot
  cases hstored : s.mapOrphanBlocks.contains hash with
  | false => exact ⟨hash, rfl, nofun⟩
  | true =>
    rw [if_neg (by decide)]
    have hstep {k : UInt256} (hk : k ∈ s.mapOrphanBlocks.keys) :
        ∃ p o, s.heap p = some o ∧ o.hashBlock = k ∧ s.prevEntry k =
          .ok (if s.mapOrphanBlocks.contains o.hashPrev then some o.hashPrev else none) := by
      obtain ⟨p, hp⟩ := contains_iff.mp (Std.ExtTreeMap.mem_keys.mp hk)
      obtain ⟨o, ho, hash⟩ := (h.consistent.byHash k p).mp hp
      refine ⟨p, o, ho, hash, ?_⟩
      rw [OrphanBlocks.prevEntry, hp]
      dsimp only
      rw [deref_eq ho]
      rfl
    obtain ⟨root, hroot, hfollow, hend⟩ := follow_ends s.prevEntry Abort.endless
      (fun a b => rank b < rank a) (fun a => Nat.lt_irrefl _)
      (fun a b c hab hbc => Nat.lt_trans hbc hab) s.mapOrphanBlocks.keys
      (fun k hk => by
        obtain ⟨p, o, ho, rfl, hprev⟩ := hstep hk
        refine ⟨_, hprev, fun b hb => ?_⟩
        split at hb
        next hcontains =>
          cases hb
          exact ⟨Std.ExtTreeMap.mem_keys.mpr hcontains, hr p o ho⟩
        next => cases hb)
      (Std.ExtTreeMap.mem_keys.mpr hstored) Std.ExtTreeMap.length_keys.le
    obtain ⟨p, o, ho, hash, hprev⟩ := hstep hroot
    refine ⟨root, hfollow, fun _ => ⟨p, o, ho, hash, ?_⟩⟩
    rw [hprev] at hend
    split at hend
    next => cases hend
    next hno => exact Bool.eq_false_iff.mpr hno

theorem wantedByOrphan_eq (h : Sound s) (hr : RankedBy rank s) (ho : s.heap p = some o) :
    ∃ wanted, s.wantedByOrphan p = .ok wanted ∧
      s.mapOrphanBlocks.contains wanted = false := by
  have hstep {q : Ptr} (hq : q ∈ s.mapOrphanBlocksByPrev.map Prod.snd) :
      ∃ o, s.heap q = some o ∧ s.prevOrphan q = .ok s.mapOrphanBlocks[o.hashPrev]? := by
    obtain ⟨o, ho⟩ := Option.isSome_iff_exists.mp ((h.consistent.live q).mpr hq)
    refine ⟨o, ho, ?_⟩
    rw [OrphanBlocks.prevOrphan, deref_eq ho]
    rfl
  have hrounds : (s.mapOrphanBlocksByPrev.map Prod.snd).length ≤ s.mapOrphanBlocks.size := by
    rw [length_map, h.consistent.size_eq]
  obtain ⟨q, hq, hfollow, hend⟩ := follow_ends s.prevOrphan Abort.endless
    (fun a b => ((s.heap b).map fun o => rank o.hashBlock).getD 0 <
      ((s.heap a).map fun o => rank o.hashBlock).getD 0) (fun a => Nat.lt_irrefl _)
    (fun a b c hab hbc => Nat.lt_trans hbc hab) (s.mapOrphanBlocksByPrev.map Prod.snd)
    (fun a ha => by
      obtain ⟨o, ho, hprev⟩ := hstep ha
      refine ⟨_, hprev, fun b hb => ?_⟩
      obtain ⟨o', ho', hhash⟩ := (h.consistent.byHash _ b).mp hb
      refine ⟨(h.consistent.live b).mp (by rw [ho']; rfl), ?_⟩
      rw [ho, ho', Option.map_some, Option.map_some, Option.getD_some, Option.getD_some, hhash]
      exact hr a o ho)
    ((h.consistent.live p).mp (by rw [ho]; rfl)) hrounds
  obtain ⟨o', ho', hprev⟩ := hstep hq
  rw [hprev] at hend
  refine ⟨o'.hashPrev, ?_, contains_eq_false_iff.mpr (Except.ok.inj hend)⟩
  rw [OrphanBlocks.wantedByOrphan, hfollow, ok_bind, deref_eq ho']
  rfl

end Sound

end Fantom.Blocks
