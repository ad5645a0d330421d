/-
  Fantom.Blocks.ExternalFile — `LoadExternalBlockFile`: the blocks of a file, each behind a message
  start and its size.

  * `loadExternalBlockFile_sound_iff` — the import is sound exactly where every move fits.
-/
import Fantom.Chain.BlockFiles
import Fantom.Lib.WhileLoop

namespace Fantom.Blocks.ExternalFile

open Core Lib Chain UInt32 Nat

/-! ## §1. The scan. -/

/-- What `ProcessBlock` does with a block. -/
inductive Answer where
  | accepts
  | refuses
  /-- It throws. -/
  | throws

/-- The message start is searched, or a block is to be read behind one. -/
inductive Phase where
  | search
  | load
deriving DecidableEq

/-- The variables of the scan, but for its position, with the blocks that `ProcessBlock` got and
their places in the file, the last one first. -/
structure Progress where
  phase : Phase
  nLoaded : Nat
  handed : List (Nat × CBlock)

structure Import extends Progress where
  nPos : UInt32

/-- What is returned, and what was handed on until then. -/
structure Imported where
  fLoaded : Bool
  handed : List (Nat × CBlock)

/-- `return nLoaded > 0` -/
def Progress.returns (p : Progress) : Imported := ⟨decide (p.nLoaded > 0), p.handed⟩

section Scan

variable (messageStart : Vector UInt8 4) (file : List UInt8)
  (processBlock : List (Nat × CBlock) → CBlock → Answer)

/-- The body of the `do` loop: how far it moves, where it does not leave the loops. -/
def searchMove (nPos : Nat) (p : Progress) : Except Imported (Nat × Progress) :=
  let pchData := (file.drop nPos).take 65536
  let nRead := pchData.length
  if nRead ≤ 8 then .error p.returns
  else
    match (pchData.take (nRead + 1 - 4)).idxOf? (messageStart.get 0) with
    | some nFind =>
      if (pchData.drop nFind).take 4 = messageStart.toList then
        .ok (nFind + 4, { p with phase := .load })
      else .ok (nFind + 1, p)
    | none => .ok (65536 - 4 + 1, p)

/-- What the `while` loop does behind a message start. -/
def loadMove (nPos : Nat) (p : Progress) : Except Imported (Nat × Progress) :=
  match readUInt32.run (file.drop nPos) with
  | none => .error p.returns
  | some (nSize, rest) =>
    if 0 < nSize ∧ nSize.toNat ≤ MAX_BLOCK_SIZE then
      match (CBlock.unserialize SER_DISK).run rest with
      | none => .error p.returns
      | some (block, _) =>
        let handed := (nPos + 4, block) :: p.handed
        match processBlock p.handed block with
        | .accepts => .ok (4 + nSize.toNat, ⟨.search, p.nLoaded + 1, handed⟩)
        | .refuses => .ok (0, ⟨.search, p.nLoaded, handed⟩)
        | .throws => .error { p with handed := handed }.returns
    else .ok (0, { p with phase := .search })

variable (s : Import)

def importMove : Except Imported (Nat × Progress) :=
  match s.phase with
  | .search => searchMove messageStart file s.nPos.toNat s.toProgress
  | .load => loadMove file processBlock s.nPos.toNat s.toProgress

/-- One move.  The position that stands for the end of the file is looked for by the `while` loop
only. -/
def importTurn : Import ⊕ Imported :=
  match importMove messageStart file processBlock s with
  | .error r => .inr r
  | .ok (n, p) =>
    let nPos := s.nPos + UInt32.ofNat n
    if nPos = 0xffffffff ∧ (s.phase = .load ∨ p.phase = .load) then .inr p.returns
    else .inl ⟨p, nPos⟩

def importStart : Import := ⟨⟨.search, 0, []⟩, 0⟩

def Reached : Prop :=
  ∃ n, WhileLoop.boundary (importTurn messageStart file processBlock) n importStart = some s

/-! ## §2. What is asked of the scan. -/

/-- One turn goes forward: the search strictly, and what is behind a message start is not left
backwards. -/
def Forward (s next : Import) : Prop :=
  match s.phase with
  | .search => s.nPos < next.nPos
  | .load => next.phase = .search ∧ s.nPos ≤ next.nPos

/-- **The scan is sound**: each of its turns goes forward, it ends, and no place in the file is
handed on twice. -/
structure Sound : Prop where
  forward : ∀ s next, Reached messageStart file processBlock s →
    importTurn messageStart file processBlock s = .inl next → Forward s next
  ends : ∃ r, WhileLoop.Ends (importTurn messageStart file processBlock) importStart r ∧
    (r.handed.map Prod.fst).Nodup

/-- The move from `s` stays in 32 bits. -/
def Fits : Prop :=
  ∀ n p, importMove messageStart file processBlock s = .ok (n, p) → s.nPos.toNat + n < 2 ^ 32

end Scan

/-! ## §3. One move. -/

section Moves

variable {messageStart : Vector UInt8 4} {file : List UInt8}
  {processBlock : List (Nat × CBlock) → CBlock → Answer}

/-- What a move of the search does: it goes on by at least one, behind a message start by four. -/
structure Searched (file : List UInt8) (nPos : Nat) (p : Progress) (n : Nat) (p' : Progress) :
    Prop where
  handed : p'.handed = p.handed
  forward : 0 < n
  start : p'.phase = .load → 4 ≤ n
  most : n ≤ 65536
  inside : nPos < file.length

theorem searchMove_spec {nPos n : Nat} {p p' : Progress} (hp : p.phase = .search)
    (h : searchMove messageStart file nPos p = .ok (n, p')) : Searched file nPos p n p' := by
  unfold searchMove at h
  simp only at h
  split at h
  next => cases h
  next hread =>
    have hinside : nPos < file.length := by
      rw [List.length_take, List.length_drop] at hread
      omega
    split at h
    next nFind hfind =>
      have hlt := (List.idxOf?_eq_some_iff.mp hfind).1
      rw [List.length_take, List.length_take] at hlt
      split at h
      next =>
        cases h
        exact ⟨rfl, by omega, fun _ => by omega, by omega, hinside⟩
      next =>
        cases h
        exact ⟨rfl, by omega, fun hload => (nomatch hp.symm.trans hload), by omega, hinside⟩
    next =>
      cases h
      exact ⟨rfl, by omega, fun hload => (nomatch hp.symm.trans hload), by omega, hinside⟩

/-- Nothing is handed on, or the block behind the size. -/
def HandsOn (nPos : Nat) (handed handed' : List (Nat × CBlock)) : Prop :=
  handed' = handed ∨ ∃ block, handed' = (nPos + 4, block) :: handed

/-- What is done behind a message start. -/
structure Loaded (file : List UInt8) (nPos : Nat) (p : Progress) (n : Nat) (p' : Progress) :
    Prop where
  phase : p'.phase = .search
  handed : HandsOn nPos p.handed p'.handed
  most : n ≤ 4 + MAX_BLOCK_SIZE
  inside : nPos < file.length

theorem loadMove_spec {nPos n : Nat} {p p' : Progress}
    (h : loadMove file processBlock nPos p = .ok (n, p')) : Loaded file nPos p n p' := by
  unfold loadMove at h
  split at h
  next => cases h
  next nSize rest hsize =>
    have hinside : nPos < file.length := by
      by_contra hge
      rw [List.drop_eq_nil_of_le (by omega)] at hsize
      cases hsize
    split at h
    next hblock =>
      split at h
      next => cases h
      next block _ _ =>
        simp only at h
        split at h
        next =>
          cases h
          exact ⟨rfl, .inr ⟨block, rfl⟩, by omega, hinside⟩
        next =>
          cases h
          exact ⟨rfl, .inr ⟨block, rfl⟩, by omega, hinside⟩
        next => cases h
    next =>
      cases h
      exact ⟨rfl, .inl rfl, by omega, hinside⟩

theorem searchMove_error {nPos : Nat} {p : Progress} {r : Imported}
    (h : searchMove messageStart file nPos p = .error r) : r.handed = p.handed := by
  unfold searchMove at h
  simp only at h
  split at h
  next => rw [← Except.error.inj h]; rfl
  next =>
    split at h
    next => split at h <;> cases h
    next => cases h

theorem loadMove_error {nPos : Nat} {p : Progress} {r : Imported}
    (h : loadMove file processBlock nPos p = .error r) : HandsOn nPos p.handed r.handed := by
  unfold loadMove at h
  split at h
  next => rw [← Except.error.inj h]; exact .inl rfl
  next =>
    split at h
    next =>
      split at h
      next => rw [← Except.error.inj h]; exact .inl rfl
      next block _ _ =>
        simp only at h
        split at h
        next => cases h
        next => cases h
        next => rw [← Except.error.inj h]; exact .inr ⟨block, rfl⟩
    next => cases h

end Moves

/-! ## §4. The run. -/

section Run

variable {messageStart : Vector UInt8 4} {file : List UInt8}
  {processBlock : List (Nat × CBlock) → CBlock → Answer} {s next : Import} {r : Imported}

/-- The places are different and in front of `bound`. -/
structure Behind (bound : Nat) (handed : List (Nat × CBlock)) : Prop where
  nodup : (handed.map Prod.fst).Nodup
  lt : ∀ entry ∈ handed, entry.1 < bound

theorem Behind.mono {bound bound' : Nat} {handed : List (Nat × CBlock)} (h : Behind bound handed)
    (hle : bound ≤ bound') : Behind bound' handed :=
  ⟨h.nodup, fun entry hentry => lt_of_lt_of_le (h.lt entry hentry) hle⟩

theorem Behind.handsOn {nPos : Nat} {handed handed' : List (Nat × CBlock)}
    (h : Behind (nPos + 4) handed) (hon : HandsOn nPos handed handed') :
    Behind (nPos + 5) handed' := by
  obtain rfl | ⟨block, rfl⟩ := hon
  · exact h.mono (by omega)
  · refine ⟨?_, fun entry hentry => ?_⟩
    · refine List.nodup_cons.mpr ⟨fun hmem => ?_, h.nodup⟩
      obtain ⟨entry, hentry, heq⟩ := List.mem_map.mp hmem
      exact absurd (h.lt entry hentry) (by rw [heq]; exact lt_irrefl _)
    · obtain rfl | hentry := List.mem_cons.mp hentry
      · exact lt_succ_self _
      · exact lt_succ_of_lt (h.lt entry hentry)

/-- **The invariant of the scan**: what was handed on is behind the position. -/
def Inv (s : Import) : Prop :=
  Behind (s.nPos.toNat + if s.phase = .load then 4 else 5) s.handed

def remaining (s : Import) : Nat :=
  2 * (2 ^ 32 - s.nPos.toNat) + if s.phase = .load then 1 else 0

theorem toNat_add_ofNat {nPos : UInt32} {n : Nat} (h : nPos.toNat + n < 2 ^ 32) :
    (nPos + UInt32.ofNat n).toNat = nPos.toNat + n := by
  rw [UInt32.toNat_add, toNat_ofNat', mod_eq_of_lt (by omega : n < 2 ^ 32),
    mod_eq_of_lt h]

theorem importTurn_inl
    (h : importTurn messageStart file processBlock s = .inl next) :
    ∃ n p, importMove messageStart file processBlock s = .ok (n, p) ∧
      next = ⟨p, s.nPos + UInt32.ofNat n⟩ := by
  unfold importTurn at h
  split at h
  next => cases h
  next n p hmove =>
    simp only at h
    split at h
    next => cases h
    next => exact ⟨n, p, hmove, (Sum.inl.inj h).symm⟩

/-- **One turn** that fits goes forward and keeps the invariant. -/
theorem importTurn_step (hinv : Inv s) (hfits : Fits messageStart file processBlock s)
    (h : importTurn messageStart file processBlock s = .inl next) :
    Forward s next ∧ Inv next ∧ remaining next < remaining s := by
  obtain ⟨n, p, hmove, rfl⟩ := importTurn_inl h
  have hpos := toNat_add_ofNat (hfits n p hmove)
  have hlt := (s.nPos + UInt32.ofNat n).toNat_lt
  unfold importMove at hmove
  unfold Forward Inv remaining at *
  cases hphase : s.phase with
  | search =>
    rw [hphase] at hmove hinv
    have hspec := searchMove_spec hphase hmove
    have hforward := hspec.forward
    refine ⟨lt_iff_toNat_lt.mpr (by simp only [hpos]; omega), ?_, ?_⟩
    · simp only [hpos, hspec.handed]
      refine Behind.mono hinv ?_
      cases hnext : p.phase with
      | search =>
        simp only [reduceCtorEq, ↓reduceIte]
        omega
      | load =>
        have := hspec.start hnext
        simp only [reduceCtorEq, ↓reduceIte]
        omega
    · simp only [hpos, reduceCtorEq, ↓reduceIte]
      split <;> omega
  | load =>
    rw [hphase] at hmove hinv
    have hspec := loadMove_spec hmove
    refine ⟨⟨hspec.phase, le_iff_toNat_le.mpr (by simp only [hpos]; omega)⟩, ?_, ?_⟩
    · simp only [hpos, hspec.phase, reduceCtorEq, ↓reduceIte]
      exact (hinv.handsOn hspec.handed).mono (by omega)
    · simp only [hpos, hspec.phase, reduceCtorEq, ↓reduceIte]
      omega

theorem importTurn_out (hinv : Inv s)
    (h : importTurn messageStart file processBlock s = .inr r) :
    (r.handed.map Prod.fst).Nodup := by
  unfold importTurn importMove at h
  unfold Inv at hinv
  cases hphase : s.phase with
  | search =>
    rw [hphase] at h hinv
    split at h
    next hmove =>
      cases h
      rw [searchMove_error hmove]
      exact hinv.nodup
    next n p hmove =>
      simp only at h
      split at h
      next =>
        cases h
        show (p.handed.map Prod.fst).Nodup
        rw [(searchMove_spec hphase hmove).handed]
        exact hinv.nodup
      next => cases h
  | load =>
    rw [hphase] at h hinv
    split at h
    next hmove =>
      cases h
      exact (hinv.handsOn (loadMove_error hmove)).nodup
    next n p hmove =>
      simp only at h
      split at h
      next =>
        cases h
        exact (hinv.handsOn (loadMove_spec hmove).handed).nodup
      next => cases h

theorem inv_importStart : Inv importStart :=
  ⟨List.nodup_nil, nofun⟩

theorem importMove_ok {n : Nat} {p : Progress}
    (h : importMove messageStart file processBlock s = .ok (n, p)) :
    n ≤ 4 + MAX_BLOCK_SIZE ∧ s.nPos.toNat < file.length := by
  unfold importMove at h
  cases hphase : s.phase with
  | search =>
    rw [hphase] at h
    have hspec := searchMove_spec hphase h
    exact ⟨hspec.most.trans (by decide), hspec.inside⟩
  | load =>
    rw [hphase] at h
    have hspec := loadMove_spec h
    exact ⟨hspec.most, hspec.inside⟩

/-- **No move wraps** in a file that is shorter than 4 GiB by the largest block. -/
theorem fits_of_length (h : file.length + (4 + MAX_BLOCK_SIZE) ≤ 2 ^ 32) (s : Import) :
    Fits messageStart file processBlock s := by
  intro n p hmove
  obtain ⟨hn, hinside⟩ := importMove_ok hmove
  omega

theorem fits_of_forward
    (hforward : ∀ next, importTurn messageStart file processBlock s = .inl next → Forward s next) :
    Fits messageStart file processBlock s := by
  intro n p hmove
  by_contra hwrap
  have hle := (importMove_ok hmove).1
  have hmax : 4 + MAX_BLOCK_SIZE < 2 ^ 32 := by decide
  have hs := s.nPos.toNat_lt
  have hpos : (s.nPos + UInt32.ofNat n).toNat = s.nPos.toNat + n - 2 ^ 32 := by
    rw [UInt32.toNat_add, toNat_ofNat', mod_eq_of_lt (by omega : n < 2 ^ 32)]
    omega
  have hnot : s.nPos + UInt32.ofNat n ≠ 0xffffffff := by
    intro heq
    have : (s.nPos + UInt32.ofNat n).toNat = 2 ^ 32 - 1 := by
      rw [heq]
      rfl
    omega
  have hturn : importTurn messageStart file processBlock s =
      .inl ⟨p, s.nPos + UInt32.ofNat n⟩ := by
    rw [importTurn, hmove]
    exact if_neg fun h => hnot h.1
  have hlt : (s.nPos + UInt32.ofNat n).toNat < s.nPos.toNat := by omega
  have := hforward _ hturn
  unfold Forward at this
  cases hphase : s.phase with
  | search =>
    rw [hphase] at this
    exact absurd (lt_iff_toNat_lt.mp this) (by simp only; omega)
  | load =>
    rw [hphase] at this
    exact absurd (le_iff_toNat_le.mp this.2) (by simp only; omega)

end Run

variable (messageStart : Vector UInt8 4) (file : List UInt8)
  (processBlock : List (Nat × CBlock) → CBlock → Answer)

/-- **The scan is sound exactly where every move stays in 32 bits.** -/
theorem loadExternalBlockFile_sound_iff :
    Sound messageStart file processBlock ↔
      ∀ s, Reached messageStart file processBlock s → Fits messageStart file processBlock s := by
  constructor
  · intro hsound s hs
    exact fits_of_forward fun next hturn => hsound.forward s next hs hturn
  intro hfits
  have hinv : ∀ s, Reached messageStart file processBlock s → Inv s := by
    intro s ⟨n, hn⟩
    -- with the invariant, that what is behind the turns so far is reached
    have hboth := WhileLoop.boundary_rule
      (I := fun s => Reached messageStart file processBlock s ∧ Inv s) ?_
      ⟨⟨0, rfl⟩, inv_importStart⟩ hn
    · exact hboth.2
    · intro s next ⟨⟨k, hk⟩, hs⟩ hturn
      exact ⟨⟨k + 1, WhileLoop.boundary_next hturn hk⟩,
        (importTurn_step hs (hfits s ⟨k, hk⟩) hturn).2.1⟩
  refine ⟨fun s next hs hturn => (importTurn_step (hinv s hs) (hfits s hs) hturn).1, ?_⟩
  refine WhileLoop.ends_of_measure (I := Reached messageStart file processBlock) remaining
    ?_ ?_ ⟨0, rfl⟩
  · intro s next hs hturn
    obtain ⟨n, hn⟩ := hs
    exact ⟨⟨n + 1, WhileLoop.boundary_next hturn hn⟩,
      (importTurn_step (hinv s ⟨n, hn⟩) (hfits s ⟨n, hn⟩) hturn).2.2⟩
  · intro s r hs hturn
    exact importTurn_out (hinv s hs) hturn

variable {messageStart file processBlock}

/-! ## §5. A file of zeros. -/

theorem searchMove_zeros (hstart : messageStart[0] ≠ 0) {size nPos : Nat} (h : nPos + 8 < size)
    (p : Progress) :
    searchMove messageStart (List.replicate size 0) nPos p = .ok (65536 - 4 + 1, p) := by
  have hread : ((List.replicate size (0 : UInt8)).drop nPos).take 65536 =
      List.replicate (min 65536 (size - nPos)) 0 := by
    rw [List.drop_replicate, List.take_replicate]
  have hnone : ((List.replicate (min 65536 (size - nPos)) (0 : UInt8)).take
      (min 65536 (size - nPos) + 1 - 4)).idxOf? (messageStart.get 0) = none := by
    rw [List.idxOf?_eq_none_iff, List.take_replicate]
    exact fun hmem => hstart (List.eq_of_mem_replicate hmem)
  simp only [searchMove, hread, List.length_replicate, hnone]
  exact if_neg (by omega)

/-- **More than 4 GiB of zeros are scanned for ever.** -/
theorem zeros_endless (hstart : messageStart[0] ≠ 0) {size : Nat} (hsize : 2 ^ 32 + 8 ≤ size)
    (r : Imported) :
    ¬ WhileLoop.Ends (importTurn messageStart (List.replicate size 0) processBlock)
      importStart r := by
  have hturn : ∀ s : Import, s.phase = .search →
      importTurn messageStart (List.replicate size 0) processBlock s =
        .inl ⟨s.toProgress, s.nPos + UInt32.ofNat (65536 - 4 + 1)⟩ := by
    intro s hs
    have hlt := s.nPos.toNat_lt
    have hmove : searchMove messageStart (List.replicate size 0) s.nPos.toNat s.toProgress =
        .ok (65536 - 4 + 1, s.toProgress) := searchMove_zeros hstart (by omega) s.toProgress
    unfold importTurn importMove
    rw [hs, hmove]
    exact if_neg fun h => by
      rw [hs] at h
      exact h.2.elim nofun nofun
  intro hend
  refine WhileLoop.Ends.rule (I := fun s => s.phase = .search) ?_ ?_ rfl hend
  · intro s next hs hnext
    rw [hturn s hs] at hnext
    rw [← Sum.inl.inj hnext]
    exact hs
  · intro s hs hout
    rw [hturn s hs] at hout
    cases hout

/-- The file of 4 GiB and eight bytes of zeros. -/
theorem loadExternalBlockFile_endless :
    ¬ Sound #v[0x1f, 0x22, 0x05, 0x31] (List.replicate (2 ^ 32 + 8) 0) (fun _ _ => .refuses) := by
  intro hsound
  obtain ⟨r, hr, _⟩ := hsound.ends
  exact zeros_endless (by decide) (le_refl _) r hr

end Fantom.Blocks.ExternalFile
