/-
  Fantom.Lib.Memory — Objects in memory, and pointers that may leave them.

  * `returns_load`, `returns_store`, `returns_copy`, `returns_copyUntil` — where no access is bad.

  A pointer is the distance from the beginning of its object.  `copyUntil` copies whole pieces, so
  that it may go beyond the end by a piece less one.
-/
import Fantom.Lib.Returns

namespace Fantom.Lib

namespace Memory

variable {β : Type}

/-! ## §1. Single accesses. -/

/-- The `n` elements at `p`. -/
def load (mem : List β) (p : Int) (n : Nat) : Except Abort (List β) :=
  if 0 ≤ p ∧ p + n ≤ mem.length then .ok ((mem.drop p.toNat).take n) else .error .dangling

/-- The object with other elements at `p`. -/
def store (mem : List β) (p : Int) (bs : List β) : Except Abort (List β) :=
  if 0 ≤ p ∧ p + bs.length ≤ mem.length then
    .ok (mem.take p.toNat ++ (bs ++ mem.drop (p.toNat + bs.length)))
  else .error .dangling

theorem returns_load {mem : List β} {p : Int} {n : Nat} (hp : 0 ≤ p) (hn : p + n ≤ mem.length) :
    Returns (load mem p n) fun bs => bs.length = n := by
  refine ⟨_, if_pos ⟨hp, hn⟩, ?_⟩
  show ((mem.drop p.toNat).take n).length = n
  rw [List.length_take, List.length_drop]
  omega

theorem load_outside {mem : List β} {p : Int} {n : Nat} (h : mem.length < p + n) :
    load mem p n = .error .dangling :=
  if_neg fun hin => by omega

theorem returns_store {mem bs : List β} {p : Int} (hp : 0 ≤ p)
    (hbs : p + bs.length ≤ mem.length) :
    Returns (store mem p bs) fun mem' => mem'.length = mem.length := by
  refine ⟨_, if_pos ⟨hp, hbs⟩, ?_⟩
  show (mem.take p.toNat ++ (bs ++ mem.drop (p.toNat + bs.length))).length = mem.length
  rw [List.length_append, List.length_append, List.length_take, List.length_drop]
  omega

/-! ## §2. Copies.

What is copied is in `obj mem`: the object that is written to, or another one. -/

section Copies

variable (obj : List β → List β)

/-- `memcpy`, of `n` elements from `s` to `d`. -/
def copy (n : Nat) (d s : Int) (mem : List β) : Except Abort (List β) := do
  let bs ← load (obj mem) s n
  store mem d bs

/-- Both pointers behind what was copied, and the object. -/
structure Copied (β : Type) where
  d : Int
  s : Int
  mem : List β

/-- `do { copy; d += n; s += n; } while (d < e)`, with the rounds that are left. -/
def copyUntil (n : Nat) (e : Int) : (left : Nat) → (d s : Int) → List β → Except Abort (Copied β)
  | 0, _, _, _ => .error .endless
  | left + 1, d, s, mem => do
    let mem ← copy obj n d s mem
    if d + n < e then copyUntil n e left (d + n) (s + n) mem else .ok ⟨d + n, s + n, mem⟩

variable {obj} {n N : Nat} {d s e : Int} {mem : List β}

theorem returns_copy (hN : (obj mem).length = N) (hs : 0 ≤ s) (hsn : s + n ≤ N) (hd : 0 ≤ d)
    (hdn : d + n ≤ mem.length) :
    Returns (copy obj n d s mem) fun mem' => mem'.length = mem.length := by
  refine (returns_load hs (by omega)).bind fun bs hbs => ?_
  exact returns_store hd (by omega)

/-- **A copy of pieces** stays inside, if its first piece and the last one before the end do. -/
theorem returns_copyUntil (hn : 0 < n)
    (hN : ∀ mem' : List β, mem'.length = mem.length → (obj mem').length = N) {left : Nat}
    (hleft : (e - d).toNat < left) (hs : 0 ≤ s) (hsn : s + n ≤ N) (hse : s + (e - d) + n ≤ N + 1)
    (hd : 0 ≤ d) (hdn : d + n ≤ mem.length) (hde : e + n ≤ mem.length + 1) :
    Returns (copyUntil obj n e left d s mem) fun r =>
      r.mem.length = mem.length ∧ r.s - r.d = s - d ∧ d ≤ r.d := by
  -- induction on the rounds that are left
  induction left generalizing d s mem with
  | zero => omega
  | succ left ih =>
    refine (returns_copy (hN mem rfl) hs hsn hd hdn).bind fun mem' hmem' => ?_
    split
    next hmore =>
      have hobj : ∀ m : List β, m.length = mem'.length → (obj m).length = N := by
        intro m hm
        exact hN m (hm.trans hmem')
      refine (ih hobj (by omega) (by omega) (by omega) (by omega) (by omega) (by omega)
        (by omega)).mono ?_
      rintro r ⟨hlen, hsame, hfar⟩
      exact ⟨hlen.trans hmem', by omega, by omega⟩
    next =>
      refine .ok ⟨hmem', ?_, ?_⟩
      · show (s + n) - (d + n) = s - d
        omega
      · show d ≤ d + n
        omega

end Copies

end Memory

end Fantom.Lib
