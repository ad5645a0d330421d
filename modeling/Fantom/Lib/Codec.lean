/-
  Fantom.Lib.Codec — Texts of records, where one list of fields gives the writer and the reader, and
  texts of maps.

  * `Codec.seq`, `Codec.record` — one field after another, and a record made of fields,
  * `Codec.readMap_iff` — which maps are read back,
  * `Codec.vector`, `Codec.stdMap` — whole vectors and maps as fields,
  * `Codec.Prefixed` — what was read is read with more behind it.

  A reader that runs into the end of its text, or is refused a size, keeps the entries it has read.
-/
import Fantom.Lib.Format

namespace Fantom.Lib

open List Option StdMap Std.ExtTreeMap

/-- A writer and a reader.  The reader may look at an environment, the memory that it reads
into. -/
structure Codec (ρ : Type) (β α : Type) where
  write : α → List β
  read : ρ → Reader β α
  /-- What the reader takes. -/
  Ok : α → Prop
  /-- A value as it is read back. -/
  norm : α → α
  reads : ∀ env a rest, Ok a → (read env).run (write a ++ rest) = some (norm a, rest)
  takes : ∀ env bs a rest, (read env).run bs = some (a, rest) → Ok a ∧ norm a = a

namespace Codec

variable {ρ β α γ : Type}

/-! ## §1. Fields. -/

/-- A format that reads back what was written. -/
def ofFormat {write : α → List β} {read : Reader β α} {Ok : α → Prop}
    (f : Format write read Ok id) : Codec ρ β α where
  write := write
  read _ := read
  Ok := Ok
  norm := id
  reads _ a rest hok := f.reads a rest hok
  takes _ bs a rest h := ⟨(f.takes bs a rest h).2, rfl⟩

/-- A field that is read back without what is not written. -/
def ofNorm {write : α → List β} {read : Reader β α} {Ok : α → Prop} {norm : α → α}
    (f : Format write read Ok norm) : Codec ρ β α where
  write := write
  read _ := read
  Ok := Ok
  norm := norm
  reads _ a rest hok := f.reads a rest hok
  takes _ bs a rest h := ⟨(f.takes bs a rest h).2, f.norm_of_read h⟩

/-- One value after another. -/
def seq (c : Codec ρ β α) (d : Codec ρ β γ) : Codec ρ β (α × γ) where
  write p := c.write p.1 ++ d.write p.2
  read env := do
    let a ← c.read env
    let b ← d.read env
    return (a, b)
  Ok p := c.Ok p.1 ∧ d.Ok p.2
  norm p := (c.norm p.1, d.norm p.2)
  reads := by
    intro env p rest hok
    rw [append_assoc, run_bind_of_eq (c.reads env p.1 _ hok.1),
      run_bind_of_eq (d.reads env p.2 rest hok.2)]
    rfl
  takes := by
    intro env bs p rest h
    obtain ⟨a, rest1, ha, h⟩ := run_bind_eq_some.mp h
    obtain ⟨b, rest2, hb, h⟩ := run_bind_eq_some.mp h
    obtain ⟨rfl, rfl⟩ := run_pure_eq_some.mp h
    have hfst := c.takes env bs a rest1 ha
    have hsnd := d.takes env rest1 b rest2 hb
    exact ⟨⟨hfst.1, hsnd.1⟩, Prod.ext hfst.2 hsnd.2⟩

/-- A record of the fields that `fields` takes from it, and `make` puts together.  What
`fields` leaves out is not written. -/
def record (c : Codec ρ β γ) (fields : α → γ) (make : γ → α)
    (h : ∀ t, fields (make t) = t := by intro; rfl) : Codec ρ β α where
  write a := c.write (fields a)
  read env := make <$> c.read env
  Ok a := c.Ok (fields a)
  norm a := make (c.norm (fields a))
  reads := by
    intro env a rest hok
    rw [StateT.run_map, c.reads env (fields a) rest hok]
    rfl
  takes := by
    intro env bs a rest hread
    rw [StateT.run_map] at hread
    obtain ⟨p, hp, heq⟩ := map_eq_some_iff.mp hread
    cases heq
    have ht := c.takes env bs p.1 p.2 hp
    rw [h]
    exact ⟨ht.1, congrArg make ht.2⟩

def Kept (c : Codec ρ β α) (a : α) : Prop := c.Ok a ∧ c.norm a = a

theorem Kept.reads {c : Codec ρ β α} {a : α} (h : c.Kept a) (env : ρ) (rest : List β) :
    (c.read env).run (c.write a ++ rest) = some (a, rest) := by
  rw [c.reads env a rest h.1, h.2]

/-! ## §2. Maps. -/

/-- How a number of entries is written; the reader is refused more than `bound`. -/
structure Size (ρ β : Type) extends Codec ρ β Nat where
  bound : Nat
  ok_iff : ∀ n, Ok n ↔ n ≤ bound
  norm_eq : ∀ n, norm n = n

variable {K V : Type} [Ord K] [Std.TransOrd K]

section Maps

variable (size : Size ρ β) (c : Codec ρ β (K × V))

def writeMap (m : StdMap K V) : List β := size.write m.size ++ m.toList.flatMap c.write

/-- `n` entries, each inserted unless its key is there. -/
def readEntries (env : ρ) : Nat → StdMap K V → List β → StdMap K V
  | 0, m, _ => m
  | n + 1, m, bs =>
    match (c.read env).run bs with
    | none => m
    | some (p, rest) => readEntries env n (StdMap.insertNew m p.1 p.2) rest

/-- What a map holds after it was read into: it is cleared first, and entries before the one
that cannot be read stay. -/
def readMap (env : ρ) (bs : List β) : StdMap K V :=
  match (size.read env).run bs with
  | none => ∅
  | some (n, rest) => readEntries c env n ∅ rest

end Maps

variable {size : Size ρ β} {c : Codec ρ β (K × V)} {env : ρ}

theorem readEntries_flatMap (env : ρ) {l : List (K × V)} (hl : ∀ p ∈ l, c.Kept p)
    (m : StdMap K V) (rest : List β) :
    readEntries c env l.length m (l.flatMap c.write ++ rest) =
      l.foldl (fun m p => StdMap.insertNew m p.1 p.2) m := by
  induction l generalizing m with
  | nil => rfl
  | cons p l ih =>
    have hp := (hl p mem_cons_self).reads env (l.flatMap c.write ++ rest)
    rw [flatMap_cons, append_assoc, length_cons, readEntries, hp]
    exact ih (fun q hq => hl q (mem_cons_of_mem p hq)) _

theorem size_readEntries_le (n : Nat) (m : StdMap K V) (bs : List β) :
    (readEntries c env n m bs).size ≤ m.size + n := by
  induction n generalizing m bs with
  | zero => exact Nat.le_refl _
  | succ n ih =>
    rw [readEntries]
    cases hread : (c.read env).run bs with
    | none => show m.size ≤ _; omega
    | some q =>
      have hstep := ih (StdMap.insertNew m q.1.1 q.1.2) q.2
      have hone := size_insertNew_le m q.1.1 q.1.2
      show (readEntries c env n _ q.2).size ≤ _
      omega

theorem size_readMap_le (env : ρ) (bs : List β) :
    (readMap size c env bs).size ≤ size.bound := by
  unfold readMap
  cases hread : (size.read env).run bs with
  | none =>
    show (∅ : StdMap K V).size ≤ _
    simp
  | some q =>
    have hn : q.1 ≤ size.bound := (size.ok_iff q.1).mp (size.takes env _ q.1 q.2 hread).1
    have hle : (readEntries c env q.1 ∅ q.2).size ≤ (∅ : StdMap K V).size + q.1 :=
      size_readEntries_le q.1 ∅ q.2
    have hempty : (∅ : StdMap K V).size = 0 := by simp
    show (readEntries c env q.1 ∅ q.2).size ≤ _
    omega

variable [Std.LawfulEqOrd K] [DecidableEq K]

theorem kept_readEntries (n : Nat) {m : StdMap K V} (bs : List β)
    (hm : ∀ k v, m[k]? = some v → c.Kept (k, v)) {k : K} {v : V}
    (h : (readEntries c env n m bs)[k]? = some v) : c.Kept (k, v) := by
  induction n generalizing m bs with
  | zero => exact hm k v h
  | succ n ih =>
    rw [readEntries] at h
    cases hread : (c.read env).run bs with
    | none =>
      rw [hread] at h
      exact hm k v h
    | some q =>
      rw [hread] at h
      refine ih q.2 (fun a w haw => ?_) h
      rw [get_insertNew] at haw
      by_cases ha : q.1.1 = a
      · rw [if_pos ha] at haw
        cases hold : m[a]? with
        | some w' =>
          rw [hold] at haw
          exact hm a w (hold.trans haw)
        | none =>
          rw [hold] at haw
          obtain rfl : q.1.2 = w := Option.some.inj haw
          subst ha
          exact c.takes env bs q.1 q.2 hread
      · rw [if_neg ha] at haw
        exact hm a w haw

theorem kept_readMap {bs : List β} {k : K} {v : V}
    (h : (readMap size c env bs)[k]? = some v) : c.Kept (k, v) := by
  unfold readMap at h
  cases hread : (size.read env).run bs with
  | none =>
    rw [hread] at h
    change (∅ : StdMap K V)[k]? = some v at h
    rw [get_empty] at h
    cases h
  | some q =>
    rw [hread] at h
    refine kept_readEntries q.1 q.2 (fun a w haw => ?_) h
    rw [get_empty] at haw
    cases haw

/-- **A map is read back** as it was exactly if it is not too large and each of its entries
is read back as it was. -/
theorem readMap_iff (env : ρ) (m : StdMap K V) :
    readMap size c env (writeMap size c m) = m ↔
      m.size ≤ size.bound ∧ ∀ k v, m[k]? = some v → c.Kept (k, v) := by
  constructor
  · intro h
    constructor
    · rw [← h]
      exact size_readMap_le env _
    · intro k v hkv
      rw [← h] at hkv
      exact kept_readMap hkv
  · intro ⟨hsize, hall⟩
    have hread := size.reads env m.size (m.toList.flatMap c.write) ((size.ok_iff _).mpr hsize)
    rw [size.norm_eq] at hread
    have hentries : ∀ p ∈ m.toList, c.Kept p := fun p hp =>
      hall p.1 p.2 (mem_toList_iff_getElem?_eq_some.mp hp)
    have hback := readEntries_flatMap env hentries ∅ []
    rw [append_nil, Std.ExtTreeMap.length_toList] at hback
    unfold readMap writeMap
    rw [hread]
    show readEntries c env m.size ∅ _ = m
    rw [hback]
    exact foldl_insertNew_toList m

/-! ## §3. Vectors and maps as fields. -/

theorem readMany_flatMap (c : Codec ρ β α) (env : ρ) {l : List α} (hl : ∀ a ∈ l, c.Ok a)
    (rest : List β) :
    (readMany (c.read env) l.length).run (l.flatMap c.write ++ rest) =
      some (l.map c.norm, rest) := by
  induction l with
  | nil => rfl
  | cons a l ih =>
    have hhead := c.reads env a (l.flatMap c.write ++ rest) (hl a mem_cons_self)
    have htail := ih fun b hb => hl b (mem_cons_of_mem a hb)
    rw [flatMap_cons, append_assoc, length_cons, readMany, run_bind_of_eq hhead,
      run_bind_of_eq htail]
    rfl

theorem readMany_takes (c : Codec ρ β α) (env : ρ) {n : Nat} {bs rest : List β} {l : List α}
    (h : (readMany (c.read env) n).run bs = some (l, rest)) :
    l.length = n ∧ (∀ a ∈ l, c.Ok a) ∧ l.map c.norm = l := by
  induction n generalizing bs l with
  | zero =>
    obtain ⟨rfl, rfl⟩ := run_pure_eq_some.mp h
    exact ⟨rfl, forall_mem_nil _, rfl⟩
  | succ n ih =>
    obtain ⟨a, rest1, ha, h⟩ := run_bind_eq_some.mp h
    obtain ⟨l', rest2, hl, h⟩ := run_bind_eq_some.mp h
    obtain ⟨rfl, rfl⟩ := run_pure_eq_some.mp h
    obtain ⟨hok, hnorm⟩ := c.takes env bs a rest1 ha
    obtain ⟨hlen, hoks, hnorms⟩ := ih hl
    refine ⟨congrArg Nat.succ hlen, forall_mem_cons.mpr ⟨hok, hoks⟩, ?_⟩
    rw [map_cons, hnorm, hnorms]

/-- A length, and so many values. -/
def vector (size : Size ρ β) (c : Codec ρ β α) : Codec ρ β (List α) where
  write l := size.write l.length ++ l.flatMap c.write
  read env := do
    let n ← size.read env
    readMany (c.read env) n
  Ok l := l.length ≤ size.bound ∧ ∀ a ∈ l, c.Ok a
  norm l := l.map c.norm
  reads := by
    intro env l rest hok
    have hsize := size.reads env l.length (l.flatMap c.write ++ rest) ((size.ok_iff _).mpr hok.1)
    rw [size.norm_eq] at hsize
    rw [append_assoc, run_bind_of_eq hsize, readMany_flatMap c env hok.2]
  takes := by
    intro env bs l rest h
    obtain ⟨n, rest1, hsize, h⟩ := run_bind_eq_some.mp h
    obtain ⟨rfl, hok, hnorm⟩ := readMany_takes c env h
    exact ⟨⟨(size.ok_iff _).mp (size.takes env _ _ _ hsize).1, hok⟩, hnorm⟩

/-- The entries, each inserted unless its key is there. -/
def ofEntries (l : List (K × V)) : StdMap K V :=
  l.foldl (fun m p => StdMap.insertNew m p.1 p.2) ∅

omit [Std.LawfulEqOrd K] [DecidableEq K] in
theorem size_ofEntries_le (l : List (K × V)) : (ofEntries l).size ≤ l.length := by
  suffices key : ∀ m : StdMap K V,
      (l.foldl (fun m p => StdMap.insertNew m p.1 p.2) m).size ≤ m.size + l.length by
    have hempty : (∅ : StdMap K V).size = 0 := by simp
    have hall := key ∅
    unfold ofEntries
    omega
  induction l with
  | nil => exact fun m => Nat.le_refl _
  | cons p l ih =>
    intro m
    have hstep := ih (StdMap.insertNew m p.1 p.2)
    have hone := size_insertNew_le m p.1 p.2
    rw [foldl_cons, length_cons]
    omega

theorem mem_of_ofEntries {l : List (K × V)} {k : K} {v : V} (h : (ofEntries l)[k]? = some v) :
    (k, v) ∈ l := by
  suffices key : ∀ m : StdMap K V,
      (l.foldl (fun m p => StdMap.insertNew m p.1 p.2) m)[k]? = some v →
        m[k]? = some v ∨ (k, v) ∈ l by
    refine (key ∅ h).resolve_left fun hnone => ?_
    rw [get_empty] at hnone
    cases hnone
  clear h
  induction l with
  | nil => exact fun m hm => .inl hm
  | cons p l ih =>
    intro m hm
    rcases ih _ hm with hold | hmem
    · rcases of_get_insertNew hold with hm | ⟨hk, hv⟩
      · exact .inl hm
      · subst hk hv
        exact .inr mem_cons_self
    · exact .inr (mem_cons_of_mem p hmem)

/-- The entries of a map, in the order of the keys. -/
def stdMap (size : Size ρ β) (c : Codec ρ β (K × V)) : Codec ρ β (StdMap K V) where
  write := writeMap size c
  read env := ofEntries <$> (vector size c).read env
  Ok m := m.size ≤ size.bound ∧ ∀ p ∈ m.toList, c.Ok p
  norm m := ofEntries (m.toList.map c.norm)
  reads := by
    intro env m rest hok
    have hlen : m.toList.length = m.size := length_toList
    have hwrite : writeMap size c m = (vector size c).write m.toList := by
      show size.write m.size ++ _ = size.write m.toList.length ++ _
      rw [hlen]
    rw [hwrite, StateT.run_map,
      (vector size c).reads env m.toList rest ⟨by rw [hlen]; exact hok.1, hok.2⟩]
    rfl
  takes := by
    intro env bs m rest h
    rw [StateT.run_map] at h
    obtain ⟨⟨l, rest1⟩, hl, heq⟩ := map_eq_some_iff.mp h
    cases heq
    obtain ⟨⟨hsize, hok⟩, hnorm⟩ := (vector size c).takes env bs l rest1 hl
    have hmem : ∀ p ∈ (ofEntries l).toList, p ∈ l := fun p hp =>
      mem_of_ofEntries (mem_toList_iff_getElem?_eq_some.mp hp)
    refine ⟨⟨Nat.le_trans (size_ofEntries_le l) hsize, fun p hp => hok p (hmem p hp)⟩, ?_⟩
    -- an entry that is read is normal, and so is each that the map keeps
    have hnormal : ∀ p ∈ l, c.norm p = p :=
      map_inj_left.mp (hnorm.trans (map_id l).symm)
    have hkept : (ofEntries l).toList.map c.norm = (ofEntries l).toList :=
      (map_congr_left fun p hp => hnormal p (hmem p hp)).trans (map_id _)
    show ofEntries ((ofEntries l).toList.map c.norm) = ofEntries l
    rw [hkept]
    exact foldl_insertNew_toList (ofEntries l)

theorem stdMap_norm_of_eq (hnorm : ∀ p, c.norm p = p) (m : StdMap K V) :
    (stdMap size c).norm m = m := by
  have hmap : m.toList.map c.norm = m.toList :=
    (map_congr_left fun p _ => hnorm p).trans (map_id _)
  show ofEntries (m.toList.map c.norm) = m
  rw [hmap]
  exact foldl_insertNew_toList m

/-! ## §4. With more behind. -/

/-- What is read is read with more behind it, and that much more is left. -/
def Stable (c : Codec ρ β α) : Prop :=
  ∀ env bs a rest, (c.read env).run bs = some (a, rest) →
    ∀ more, (c.read env).run (bs ++ more) = some (a, rest ++ more)

/-- The same, for a reader that may make another value of it. -/
def Prefixed (c : Codec ρ β α) : Prop :=
  ∀ env bs a rest, (c.read env).run bs = some (a, rest) →
    ∀ more, ∃ a', (c.read env).run (bs ++ more) = some (a', rest ++ more)

theorem Stable.prefixed {c : Codec ρ β α} (h : c.Stable) : c.Prefixed :=
  fun env bs a rest hread more => ⟨a, h env bs a rest hread more⟩

theorem stable_ofNorm {write : α → List β} {read : Reader β α} {Ok : α → Prop} {norm : α → α}
    (f : Format write read Ok norm) : (ofNorm f : Codec ρ β α).Stable := by
  intro env bs a rest hread more
  obtain ⟨rfl, hok⟩ := f.takes bs a rest hread
  have hback := f.reads a (rest ++ more) hok
  rw [f.norm_of_read hread] at hback
  rw [append_assoc]
  exact hback

theorem stable_ofFormat {write : α → List β} {read : Reader β α} {Ok : α → Prop}
    (f : Format write read Ok id) : (ofFormat f : Codec ρ β α).Stable :=
  fun env bs a rest => stable_ofNorm (ρ := ρ) f env bs a rest

theorem Prefixed.seq {c : Codec ρ β α} {d : Codec ρ β γ} (hc : c.Prefixed) (hd : d.Prefixed) :
    (c.seq d).Prefixed := by
  intro env bs p rest h more
  obtain ⟨a, rest1, ha, h⟩ := run_bind_eq_some.mp h
  obtain ⟨b, rest2, hb, h⟩ := run_bind_eq_some.mp h
  obtain ⟨-, rfl⟩ := run_pure_eq_some.mp h
  obtain ⟨a', ha'⟩ := hc env bs a rest1 ha more
  obtain ⟨b', hb'⟩ := hd env rest1 b rest2 hb more
  refine ⟨(a', b'), ?_⟩
  show StateT.run (do let a ← c.read env; let b ← d.read env; return (a, b)) _ = _
  rw [run_bind_of_eq ha', run_bind_of_eq hb']
  rfl

theorem Prefixed.record {c : Codec ρ β γ} (hc : c.Prefixed) (fields : α → γ) (make : γ → α)
    (h : ∀ t, fields (make t) = t) : (c.record fields make h).Prefixed := by
  intro env bs a rest hread more
  obtain ⟨p, hp, heq⟩ := map_eq_some_iff.mp ((StateT.run_map ..).symm.trans hread)
  cases heq
  obtain ⟨t, ht⟩ := hc env bs p.1 p.2 hp more
  refine ⟨make t, ?_⟩
  show StateT.run (make <$> c.read env) _ = _
  rw [StateT.run_map, ht]
  rfl

theorem Prefixed.many {c : Codec ρ β α} (hc : c.Prefixed) {env : ρ} {n : Nat}
    {bs rest : List β} {l : List α} (h : (readMany (c.read env) n).run bs = some (l, rest))
    (more : List β) :
    ∃ l', (readMany (c.read env) n).run (bs ++ more) = some (l', rest ++ more) := by
  induction n generalizing bs l with
  | zero =>
    obtain ⟨rfl, rfl⟩ := run_pure_eq_some.mp h
    exact ⟨[], rfl⟩
  | succ n ih =>
    obtain ⟨a, rest1, ha, h⟩ := run_bind_eq_some.mp h
    obtain ⟨l', rest2, hl, h⟩ := run_bind_eq_some.mp h
    obtain ⟨-, rfl⟩ := run_pure_eq_some.mp h
    obtain ⟨b, hb⟩ := hc env bs a rest1 ha more
    obtain ⟨l'', hl'⟩ := ih hl
    refine ⟨b :: l'', ?_⟩
    rw [readMany, run_bind_of_eq hb, run_bind_of_eq hl']
    rfl

theorem Prefixed.vector {c : Codec ρ β α} (hsize : size.Stable) (hc : c.Prefixed) :
    (vector size c).Prefixed := by
  intro env bs l rest h more
  obtain ⟨n, rest1, hn, h⟩ := run_bind_eq_some.mp h
  obtain ⟨l', hl⟩ := hc.many h more
  refine ⟨l', ?_⟩
  show StateT.run (do let n ← size.read env; readMany (c.read env) n) _ = _
  rw [run_bind_of_eq (hsize env bs n rest1 hn more), hl]

theorem Prefixed.stdMap (hsize : size.Stable) (hc : c.Prefixed) : (stdMap size c).Prefixed := by
  intro env bs m rest h more
  obtain ⟨p, hp, heq⟩ := map_eq_some_iff.mp ((StateT.run_map ..).symm.trans h)
  cases heq
  obtain ⟨l, hl⟩ := Prefixed.vector hsize hc env bs p.1 p.2 hp more
  refine ⟨ofEntries l, ?_⟩
  show StateT.run (ofEntries <$> (Codec.vector size c).read env) _ = _
  rw [StateT.run_map, hl]
  rfl

end Codec

end Fantom.Lib
