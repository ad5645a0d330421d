/-
  Fantom.Lib.Format — What is written and what is read back: a writer to lists of symbols, and a
  reader that takes symbols from the front of one.

  * `Format` — a reader takes back what a writer gave, and takes nothing else,
  * `Format.many` — elements one after another,
  * `Fixed` — a reader that takes as many symbols, whatever they are,
  * `Format.unique` — no value has two texts,
  * `PrefixFree` — no text is the beginning of another one.

  A reader may normalise what it reads (`norm`): some of a value may not be written.

  Records behind one another in a file, and an index from keys to the places where records begin:

  * `Format.read_place` — at its place a record reads back,
  * `index`, `get_index_places` — an entry of the index is the place of a record with its key.

  An entry of an index is made once: a later record with the same key does not move it.
-/
import Fantom.Lib.StdMap
import Mathlib.Data.List.Basic
import Mathlib.Tactic.Common

namespace Fantom.Lib

open List

universe u v

/-- Reads a value from the front of a list, or fails. -/
abbrev Reader (β α : Type u) := StateT (List β) Option α

variable {β α : Type u}

/-- The next `n` symbols. -/
def readTake (n : Nat) : Reader β (List β) := fun bs =>
  if n ≤ bs.length then some (bs.take n, bs.drop n) else none

/-- `n` values, one after another. -/
def readMany (r : Reader β α) : Nat → Reader β (List α)
  | 0 => pure []
  | n + 1 => do
    let x ← r
    let xs ← readMany r n
    return x :: xs

theorem readMany_add (r : Reader β α) (k n : Nat) :
    readMany r (k + n) = do
      let xs ← readMany r k
      let ys ← readMany r n
      return xs ++ ys := by
  induction k with
  | zero => simp [readMany]
  | succ k ih => simp [readMany, Nat.add_right_comm k 1 n, ih]

theorem readTake_append (xs rest : List β) :
    (readTake xs.length).run (xs ++ rest) = some (xs, rest) := by
  have hlen : xs.length ≤ (xs ++ rest).length := by
    rw [length_append]
    omega
  change (if xs.length ≤ (xs ++ rest).length then _ else _) = _
  rw [if_pos hlen, take_left, drop_left]

theorem readTake_eq_some {n : Nat} {bs xs rest : List β}
    (h : (readTake n).run bs = some (xs, rest)) : bs = xs ++ rest ∧ xs.length = n := by
  change (if n ≤ bs.length then _ else _) = _ at h
  split at h
  next hlen =>
    cases h
    exact ⟨(take_append_drop n bs).symm, length_take_of_le hlen⟩
  next => cases h

theorem readTake_add (k n : Nat) (bs : List β) :
    (readTake (k + n)).run bs = StateT.run (do
      let xs ← readTake k
      let ys ← readTake n
      return xs ++ ys) bs := by
  have hrun (k : Nat) (bs : List β) : (readTake k).run bs =
      if k ≤ bs.length then some (bs.take k, bs.drop k) else none := rfl
  rw [StateT.run_bind, hrun, hrun]
  by_cases hk : k ≤ bs.length
  · rw [if_pos hk]
    change _ = (StateT.run (readTake n >>= fun ys => pure (bs.take k ++ ys)) (bs.drop k))
    rw [StateT.run_bind, hrun]
    by_cases hn : n ≤ (bs.drop k).length
    · have hall : k + n ≤ bs.length := by
        rw [length_drop] at hn
        omega
      rw [if_pos hn, if_pos hall, take_add, ← drop_drop]
      rfl
    · have hall : ¬k + n ≤ bs.length := by
        rw [length_drop] at hn
        omega
      rw [if_neg hn, if_neg hall]
      rfl
  · rw [if_neg hk, if_neg (by omega)]
    rfl

theorem run_bind_eq_some {γ : Type u} {x : Reader β γ} {f : γ → Reader β α} {bs : List β}
    {p : α × List β} :
    (x >>= f).run bs = some p ↔ ∃ a rest, x.run bs = some (a, rest) ∧ (f a).run rest = some p := by
  rw [StateT.run_bind, Option.bind_eq_bind, Option.bind_eq_some_iff]
  exact ⟨fun ⟨q, hq, hp⟩ => ⟨q.1, q.2, hq, hp⟩, fun ⟨a, rest, hq, hp⟩ => ⟨(a, rest), hq, hp⟩⟩

theorem run_bind_of_eq {γ : Type u} {x : Reader β γ} {f : γ → Reader β α} {bs rest : List β}
    {a : γ} (h : x.run bs = some (a, rest)) : (x >>= f).run bs = (f a).run rest := by
  rw [StateT.run_bind, h]
  rfl

theorem run_pure_eq_some {a a' : α} {bs rest : List β} :
    (pure a : Reader β α).run bs = some (a', rest) ↔ a = a' ∧ bs = rest := by
  rw [StateT.run_pure, Option.pure_def, Option.some.injEq, Prod.mk.injEq]

/-- `read` takes back what `write` gave of the values with `Ok`, up to `norm`, and takes
nothing else. -/
structure Format (write : α → List β) (read : Reader β α) (Ok : α → Prop) (norm : α → α) :
    Prop where
  reads : ∀ a rest, Ok a → read.run (write a ++ rest) = some (norm a, rest)
  takes : ∀ bs a rest, read.run bs = some (a, rest) → bs = write a ++ rest ∧ Ok a

variable {write : α → List β} {read : Reader β α} {Ok : α → Prop} {norm : α → α}

/-- **No value has two texts**: what is taken for one value is one text. -/
theorem Format.unique (f : Format write read Ok norm) {taken taken' rest rest' : List β} {a : α}
    (h : read.run (taken ++ rest) = some (a, rest))
    (h' : read.run (taken' ++ rest') = some (a, rest')) : taken = taken' := by
  have htext := (f.takes _ a rest h).1
  have htext' := (f.takes _ a rest' h').1
  exact (append_cancel_right htext).trans (append_cancel_right htext').symm

theorem Format.norm_of_read (f : Format write read Ok norm) {bs rest : List β} {a : α}
    (h : read.run bs = some (a, rest)) : norm a = a := by
  obtain ⟨rfl, hok⟩ := f.takes bs a rest h
  have hback := f.reads a rest hok
  rw [hback] at h
  exact (Prod.mk.inj (Option.some.inj h)).1

theorem Format.reads_many (f : Format write read Ok norm) {xs : List α} (hxs : ∀ x ∈ xs, Ok x)
    (rest : List β) :
    (readMany read xs.length).run (xs.flatMap write ++ rest) = some (xs.map norm, rest) := by
  induction xs with
  | nil => rfl
  | cons x xs ih =>
    have hhead := f.reads x (xs.flatMap write ++ rest) (hxs x mem_cons_self)
    have htail := ih fun y hy => hxs y (mem_cons_of_mem x hy)
    rw [flatMap_cons, append_assoc, length_cons, readMany, run_bind_of_eq hhead,
      run_bind_of_eq htail]
    rfl

theorem Format.takes_many (f : Format write read Ok norm) {n : Nat} {bs rest : List β}
    {xs : List α} (h : (readMany read n).run bs = some (xs, rest)) :
    bs = xs.flatMap write ++ rest ∧ xs.length = n ∧ ∀ x ∈ xs, Ok x := by
  induction n generalizing bs xs with
  | zero =>
    obtain ⟨rfl, rfl⟩ := run_pure_eq_some.mp h
    exact ⟨rfl, rfl, forall_mem_nil _⟩
  | succ n ih =>
    obtain ⟨x, rest1, hx, h⟩ := run_bind_eq_some.mp h
    obtain ⟨ys, rest2, hys, h⟩ := run_bind_eq_some.mp h
    obtain ⟨rfl, rfl⟩ := run_pure_eq_some.mp h
    obtain ⟨hbs, hok⟩ := f.takes bs x rest1 hx
    obtain ⟨hrest, hlen, hall⟩ := ih hys
    refine ⟨?_, ?_, ?_⟩
    · rw [hbs, hrest, flatMap_cons, append_assoc]
    · rw [length_cons, hlen]
    · intro y hy
      rcases mem_cons.mp hy with rfl | hy
      · exact hok
      · exact hall y hy

/-! ## Texts one after another. -/

/-- Where texts of values with `Ok` go on, the values are the same up to `norm`, and so is what
follows. -/
def PrefixFree {γ : Type*} (write : α → List β) (Ok : α → Prop) (norm : α → γ) : Prop :=
  ∀ a b rest rest', Ok a → Ok b → write a ++ rest = write b ++ rest' →
    norm a = norm b ∧ rest = rest'

theorem prefixFree_of_reads
    (h : ∀ a rest, Ok a → read.run (write a ++ rest) = some (norm a, rest)) :
    PrefixFree write Ok norm := by
  intro a b rest rest' ha hb htext
  have hread := h a rest ha
  rw [htext, h b rest' hb] at hread
  obtain ⟨hnorm, hrest⟩ := Prod.mk.inj (Option.some.inj hread)
  exact ⟨hnorm.symm, hrest.symm⟩

theorem Format.prefixFree (f : Format write read Ok norm) : PrefixFree write Ok norm :=
  prefixFree_of_reads f.reads

theorem PrefixFree.many {γ : Type*} {norm : α → γ} (f : PrefixFree write Ok norm) {xs ys : List α}
    {rest rest' : List β} (hlen : xs.length = ys.length) (hxs : ∀ x ∈ xs, Ok x)
    (hys : ∀ y ∈ ys, Ok y) (h : xs.flatMap write ++ rest = ys.flatMap write ++ rest') :
    xs.map norm = ys.map norm ∧ rest = rest' := by
  induction xs generalizing ys with
  | nil =>
    obtain rfl := eq_nil_of_length_eq_zero hlen.symm
    exact ⟨rfl, h⟩
  | cons x xs ih =>
    cases ys with
    | nil => cases hlen
    | cons y ys =>
      rw [flatMap_cons, flatMap_cons, append_assoc, append_assoc] at h
      obtain ⟨hhead, h⟩ := f x y _ _ (hxs x mem_cons_self) (hys y mem_cons_self) h
      obtain ⟨htail, hrest⟩ := ih (Nat.succ.inj hlen)
        (fun z hz => hxs z (mem_cons_of_mem x hz))
        (fun z hz => hys z (mem_cons_of_mem y hz)) h
      rw [map_cons, map_cons, hhead, htail]
      exact ⟨rfl, hrest⟩

/-! ## Readers of a fixed size. -/

/-- `read` takes `n` symbols, whatever they are. -/
def Fixed (n : Nat) (read : Reader β α) : Prop :=
  ∀ bs, n ≤ bs.length → ∃ a, read.run bs = some (a, bs.drop n)

theorem fixed_take (n : Nat) : Fixed n (readTake n : Reader β (List β)) := by
  intro bs hn
  exact ⟨bs.take n, if_pos hn⟩

theorem fixed_pure (a : α) : Fixed 0 (pure a : Reader β α) := fun _ _ => ⟨a, rfl⟩

theorem Fixed.bind {γ : Type u} {n k : Nat} {x : Reader β γ} {f : γ → Reader β α}
    (hx : Fixed n x) (hf : ∀ a, Fixed k (f a)) : Fixed (n + k) (x >>= f) := by
  intro bs hlen
  obtain ⟨a, ha⟩ := hx bs (by omega)
  have hrest : k ≤ (bs.drop n).length := by
    rw [length_drop]
    omega
  obtain ⟨b, hb⟩ := hf a (bs.drop n) hrest
  refine ⟨b, ?_⟩
  rw [run_bind_of_eq ha, hb, drop_drop]

theorem Fixed.map {γ : Type u} {n : Nat} {x : Reader β γ} (hx : Fixed n x) (f : γ → α) :
    Fixed n (f <$> x) := by
  intro bs hlen
  obtain ⟨a, ha⟩ := hx bs hlen
  refine ⟨f a, ?_⟩
  rw [StateT.run_map, ha]
  rfl

variable {α β : Type u}

/-! ## Places in a file. -/

/-- The records, each with the place where it begins; the first begins at `start`. -/
def places (write : α → List β) (start : Nat) : List α → List (Nat × α)
  | [] => []
  | a :: as => (start, a) :: places write (start + (write a).length) as

section Places

variable {write : α → List β}

theorem places_concat (start : Nat) (as : List α) (a : α) :
    places write start (as ++ [a]) =
      places write start as ++ [(start + (as.flatMap write).length, a)] := by
  induction as generalizing start with
  | nil => rfl
  | cons x as ih =>
    have hlen : start + ((x :: as).flatMap write).length =
        start + (write x).length + (as.flatMap write).length := by
      rw [flatMap_cons, length_append]
      omega
    rw [hlen, cons_append, places, places, ih, cons_append]

theorem mem_places {start n : Nat} {as : List α} {a : α} (h : (n, a) ∈ places write start as) :
    ∃ before after, as = before ++ a :: after ∧ n = start + (before.flatMap write).length := by
  induction as generalizing start with
  | nil => cases h
  | cons x as ih =>
    rcases mem_cons.mp h with heq | hlater
    · cases heq
      exact ⟨[], as, rfl, rfl⟩
    · obtain ⟨before, after, rfl, hn⟩ := ih hlater
      refine ⟨x :: before, after, rfl, ?_⟩
      rw [flatMap_cons, length_append]
      omega

variable {read : Reader β α} {Ok : α → Prop} {norm : α → α}

theorem Format.read_place (f : Format write read Ok norm) {n : Nat} {as : List α} {a : α}
    (h : (n, a) ∈ places write 0 as) (hok : Ok a) :
    ∃ rest, read.run ((as.flatMap write).drop n) = some (norm a, rest) := by
  obtain ⟨before, after, rfl, hn⟩ := mem_places h
  refine ⟨after.flatMap write, ?_⟩
  rw [hn, Nat.zero_add, flatMap_append, drop_left, flatMap_cons]
  exact f.reads a _ hok

end Places

/-! ## Reading until it fails. -/

/-- Reads values one after another until one cannot be read; a reader that takes nothing is
not asked again. -/
def readAll (read : Reader β α) (bs : List β) : List α :=
  match read.run bs with
  | none => []
  | some (a, rest) => if rest.length < bs.length then a :: readAll read rest else [a]
termination_by bs.length

/-! ## An index. -/

section Index

variable {K : Type v} [Ord K] [Std.TransOrd K] [Std.LawfulEqOrd K] [DecidableEq K]
  (key : α → K)

/-- The places under the keys of their records, over what `m` has already. -/
def index (m : StdMap K Nat) (l : List (Nat × α)) : StdMap K Nat :=
  l.foldl (fun m e => StdMap.insertNew m (key e.2) e.1) m

variable {key}

omit [Std.LawfulEqOrd K] [DecidableEq K] in
theorem index_concat (m : StdMap K Nat) (l : List (Nat × α)) (n : Nat) (a : α) :
    index key m (l ++ [(n, a)]) = StdMap.insertNew (index key m l) (key a) n := by
  rw [index, foldl_append]
  rfl

theorem get_index {m : StdMap K Nat} {l : List (Nat × α)} {k : K} {n : Nat}
    (h : (index key m l)[k]? = some n) : m[k]? = some n ∨ ∃ a, (n, a) ∈ l ∧ key a = k := by
  induction l generalizing m with
  | nil => exact .inl h
  | cons e l ih =>
    rcases ih (m := StdMap.insertNew m (key e.2) e.1) h with hfirst | ⟨a, ha, hk⟩
    · rw [StdMap.get_insertNew] at hfirst
      split at hfirst
      next hk =>
        cases hm : m[k]? with
        | some n' =>
          rw [hm] at hfirst
          exact .inl hfirst
        | none =>
          rw [hm] at hfirst
          cases hfirst
          exact .inr ⟨e.2, mem_cons_self, hk⟩
      next => exact .inl hfirst
    · exact .inr ⟨a, mem_cons_of_mem e ha, hk⟩

/-- **An entry of the index of a file** is the place of a record with its key. -/
theorem get_index_places {write : α → List β} {as : List α} {k : K} {n : Nat}
    (h : (index key ∅ (places write 0 as))[k]? = some n) :
    ∃ a, (n, a) ∈ places write 0 as ∧ key a = k := by
  rcases get_index h with hempty | hplace
  · rw [StdMap.get_empty] at hempty
    cases hempty
  · exact hplace

end Index

end Fantom.Lib
