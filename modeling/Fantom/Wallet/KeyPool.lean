/-
  Fantom.Wallet.KeyPool — The pool of keys that the wallet has made ahead of their use.

  * `Integrity` — what is to hold of the keys,
  * `keyPool_integrity_iff` — the runs in which it does.

  An index for a new key is one above the largest index in `setKeyPool`.  An index that is reserved
  is not in `setKeyPool`.
-/
import Fantom.Core.Signer
import Fantom.Lib.Runs
import Fantom.Lib.StdMap

namespace Fantom.Wallet

open Core Lib List

/-! ## §1. The wallet. -/

/-- `CKeyPool`. -/
structure CKeyPool where
  nTime : Int64
  vchPubKey : CPubKey
deriving DecidableEq

/-- What the pool takes from the rest of the wallet. -/
structure KeyPoolEnv where
  C : Crypto
  /-- The `n`-th key of `GenerateNewKey`, in the `CKeyPool` that is made of it. -/
  newKey : Nat → CKeyPool
  /-- `GetArg("-keypool", 1000)` -/
  keypool : Int64

/-- The part of `CWallet` that the pool is in. -/
structure CWallet where
  setKeyPool : StdSet Int
  /-- The writes of `pool` records to the wallet file, and their erasures. -/
  walletdb : List (Change Int CKeyPool)
  /-- The keys that `HaveKey` finds. -/
  mapKeys : List UInt160
  /-- How many keys were made. -/
  nGenerated : Nat

namespace CWallet

/-- The `pool` records in the wallet file. -/
def pool (w : CWallet) : StdMap Int CKeyPool := replay ∅ w.walletdb

def writePool (nIndex : Int) (keypool : CKeyPool) (w : CWallet) : CWallet :=
  { w with walletdb := w.walletdb ++ [.put nIndex keypool] }

def erasePool (nIndex : Int) (w : CWallet) : CWallet :=
  { w with walletdb := w.walletdb ++ [.delete nIndex] }

/-- One above the last index in `setKeyPool`, and 1 where there is none. -/
def nEnd (w : CWallet) : Int :=
  match w.setKeyPool.toList.getLast? with
  | some last => last + 1
  | none => 1

variable (env : KeyPoolEnv)

variable (w : CWallet)

/-- `CKeyPool(GenerateNewKey())` -/
def generateNewKey : CKeyPool × CWallet :=
  let keypool := env.newKey w.nGenerated
  (keypool, { w with
    mapKeys := getID env.C keypool.vchPubKey :: w.mapKeys
    nGenerated := w.nGenerated + 1 })

/-- The body of the loop of `TopUpKeyPool`. -/
def addKey : CWallet :=
  let nEnd := w.nEnd
  let (keypool, w) := w.generateNewKey env
  let w := w.writePool nEnd keypool
  { w with setKeyPool := w.setKeyPool.insert nEnd }

/-- `while (setKeyPool.size() < size)`, at most `fuel` times around. -/
def addKeys (size : Nat) : Nat → CWallet → CWallet
  | 0, w => w
  | fuel + 1, w =>
    if w.setKeyPool.size < size then addKeys size fuel (w.addKey env) else w

/-- `nTargetSize`: an `unsigned int`. -/
def nTargetSize (nSize : UInt32) : UInt32 :=
  if nSize > 0 then nSize else UInt32.ofNat (max env.keypool.toInt 0).toNat

/-- The number of keys that `TopUpKeyPool` has to make. -/
def nMissing (nSize : UInt32) (w : CWallet) : Nat :=
  (nTargetSize env nSize + 1).toNat - w.setKeyPool.size

variable (fLocked : Bool)

def topUpKeyPool (nSize : UInt32) (w : CWallet) : Bool × CWallet :=
  if fLocked then (false, w)
  else (true, w.addKeys env (nTargetSize env nSize + 1).toNat (w.nMissing env nSize))

def haveKey (address : UInt160) (w : CWallet) : Bool := w.mapKeys.contains address

/-- `ReserveKeyFromKeyPool`, behind the top-up: the oldest key.  Where there is none,
`nIndex` stays at -1. -/
def takeOldest : Except String (Option (Int × CKeyPool)) × CWallet :=
  match w.setKeyPool.toList.head? with
  | none => (.ok none, w)
  | some nIndex =>
    let w := { w with setKeyPool := w.setKeyPool.erase nIndex }
    match w.pool[nIndex]? with
    | none => (.error "ReserveKeyFromKeyPool() : read failed", w)
    | some keypool =>
      if !w.haveKey (getID env.C keypool.vchPubKey) then
        (.error "ReserveKeyFromKeyPool() : unknown key in key pool", w)
      else if keypool.vchPubKey.isEmpty then
        (.error "assert(keypool.vchPubKey.IsValid())", w)
      else (.ok (some (nIndex, keypool)), w)

def reserveKeyFromKeyPool (w : CWallet) : Except String (Option (Int × CKeyPool)) × CWallet :=
  (if fLocked then w else (w.topUpKeyPool env fLocked 0).2).takeOldest env

/-- `KeepKey`, of a wallet with a file. -/
def keepKey (nIndex : Int) (w : CWallet) : CWallet := w.erasePool nIndex

def returnKey (nIndex : Int) (w : CWallet) : CWallet :=
  { w with setKeyPool := w.setKeyPool.insert nIndex }

/-! The indices of the new keys. -/

variable {nIndex : Int} {N k : Nat} {r : CReserveKey}

theorem lt_nEnd {w : CWallet} (h : nIndex ∈ w.setKeyPool) : nIndex < w.nEnd := by
  obtain ⟨last, hlast⟩ := Option.isSome_iff_exists.mp (Std.ExtTreeSet.isSome_max?_of_mem h)
  have hall := (Std.ExtTreeSet.max?_eq_some_iff_mem_and_forall.mp hlast).2
  have hle : nIndex ≤ last := Int.isLE_compare.mp (hall nIndex h)
  rw [Std.ExtTreeSet.max?_eq_getLast?_toList] at hlast
  simp only [nEnd, hlast]
  omega

theorem nEnd_notMem : w.nEnd ∉ w.setKeyPool :=
  fun h => absurd (lt_nEnd h) (lt_irrefl _)

theorem setKeyPool_addKey : (w.addKey env).setKeyPool = w.setKeyPool.insert w.nEnd := rfl

theorem mem_addKey {w : CWallet} :
    nIndex ∈ (w.addKey env).setKeyPool ↔ nIndex = w.nEnd ∨ nIndex ∈ w.setKeyPool := by
  rw [setKeyPool_addKey, Std.ExtTreeSet.mem_insert, Int.compare_eq_eq, eq_comm]

theorem size_addKey : (w.addKey env).setKeyPool.size = w.setKeyPool.size + 1 := by
  have hnew : w.setKeyPool.contains w.nEnd = true ↔ False :=
    iff_of_false (fun h => w.nEnd_notMem (Std.ExtTreeSet.contains_iff_mem.mp h)) not_false
  rw [setKeyPool_addKey, Std.ExtTreeSet.size_insert, if_neg hnew.mp]

theorem nEnd_addKey : (w.addKey env).nEnd = w.nEnd + 1 := by
  have hmax : (w.addKey env).setKeyPool.max? = some w.nEnd := by
    rw [Std.ExtTreeSet.max?_eq_some_iff_mem_and_forall]
    refine ⟨(mem_addKey env).mpr (.inl rfl), fun nIndex h => Int.isLE_compare.mpr ?_⟩
    rcases (mem_addKey env).mp h with rfl | h
    · exact le_refl _
    · exact (lt_nEnd h).le
  rw [Std.ExtTreeSet.max?_eq_getLast?_toList] at hmax
  show (match (w.addKey env).setKeyPool.toList.getLast? with
    | some last => last + 1
    | none => 1) = w.nEnd + 1
  rw [hmax]

/-- **The loop gives out consecutive indices.** -/
theorem mem_addKeys {size fuel : Nat} {w : CWallet} (h : w.setKeyPool.size + fuel ≤ size) : nIndex ∈
    (w.addKeys env size fuel).setKeyPool ↔
      nIndex ∈ w.setKeyPool ∨ w.nEnd ≤ nIndex ∧ nIndex < w.nEnd + fuel := by
  induction fuel generalizing w with
  | zero =>
    show nIndex ∈ w.setKeyPool ↔ _
    exact ⟨.inl, fun h => h.resolve_right (by omega)⟩
  | succ fuel ih =>
    have hlt : w.setKeyPool.size < size := by omega
    have hsize : (w.addKey env).setKeyPool.size + fuel ≤ size := by
      rw [size_addKey]
      omega
    rw [addKeys, if_pos hlt, ih hsize, mem_addKey, nEnd_addKey]
    constructor
    · rintro ((rfl | h) | ⟨h₁, h₂⟩)
      · exact .inr ⟨le_refl _, by omega⟩
      · exact .inl h
      · exact .inr ⟨by omega, by omega⟩
    · rintro (h | ⟨h₁, h₂⟩)
      · exact .inl (.inr h)
      · by_cases hfirst : nIndex = w.nEnd
        · exact .inl (.inl hfirst)
        · exact .inr ⟨by omega, by omega⟩

theorem le_nGenerated (size fuel : Nat) (w : CWallet) :
    w.nGenerated ≤ (w.addKeys env size fuel).nGenerated := by
  induction fuel generalizing w with
  | zero => exact le_refl _
  | succ fuel ih =>
    rw [addKeys]
    split
    · have hone : w.nGenerated ≤ (w.addKey env).nGenerated := Nat.le_succ _
      exact le_trans hone (ih (w.addKey env))
    · exact le_refl _

theorem le_nGenerated_topUp (nSize : UInt32) (w : CWallet) :
    w.nGenerated ≤ (w.topUpKeyPool env fLocked nSize).2.nGenerated := by
  cases fLocked with
  | true => exact le_refl _
  | false => exact le_nGenerated env _ _ w

end CWallet

/-! ## §2. The wallet and those who hold its keys. -/

/-- `CReserveKey`, while it holds a key. -/
structure CReserveKey where
  nIndex : Int
  vchPubKey : CPubKey
deriving DecidableEq

/-- What was done with a public key of the pool. -/
inductive Use where
  | handed (vchPubKey : CPubKey)
  | returned (vchPubKey : CPubKey)
deriving DecidableEq

/-- The wallet, its outstanding reservations, what was done with the keys so far and the
exceptions so far. -/
structure KeyPool where
  wallet : CWallet
  reserved : List CReserveKey
  uses : List Use
  thrown : List String

def KeyPool.empty : KeyPool := ⟨⟨∅, [], [], 0⟩, [], [], []⟩

/-- A call of the wallet; the holder is named by its place among the reservations. -/
inductive KeyPoolCall where
  | topUp (fLocked : Bool) (nSize : UInt32)
  | reserve (fLocked : Bool)
  | keep (holder : Nat)
  | giveBack (holder : Nat)

namespace KeyPool

variable (env : KeyPoolEnv)

variable (s : KeyPool)

/-- The pool after a call. -/
def step : KeyPoolCall → KeyPool
  | .topUp fLocked nSize => { s with wallet := (s.wallet.topUpKeyPool env fLocked nSize).2 }
  | .reserve fLocked =>
    match s.wallet.reserveKeyFromKeyPool env fLocked with
    | (.ok none, w) => { s with wallet := w }
    | (.ok (some (nIndex, keypool)), w) =>
      { s with
        wallet := w
        reserved := s.reserved ++ [⟨nIndex, keypool.vchPubKey⟩]
        uses := s.uses ++ [.handed keypool.vchPubKey] }
    | (.error what, w) => { s with wallet := w, thrown := s.thrown ++ [what] }
  | .keep holder =>
    match s.reserved[holder]? with
    | none => s
    | some r =>
      { s with wallet := s.wallet.keepKey r.nIndex, reserved := s.reserved.eraseIdx holder }
  | .giveBack holder =>
    match s.reserved[holder]? with
    | none => s
    | some r =>
      { s with
        wallet := s.wallet.returnKey r.nIndex
        reserved := s.reserved.eraseIdx holder
        uses := s.uses ++ [.returned r.vchPubKey] }

/-- The index is reserved, and its key is neither kept nor returned. -/
def Outstanding (nIndex : Int) : Prop := ∃ r ∈ s.reserved, r.nIndex = nIndex

/-- **The integrity of the pool.** -/
structure Integrity (s : KeyPool) : Prop where
  distinct : (s.reserved.map CReserveKey.nIndex).Nodup
  disjoint : ∀ r ∈ s.reserved, r.nIndex ∉ s.wallet.setKeyPool
  records : ∀ nIndex, nIndex ∈ s.wallet.pool ↔
    nIndex ∈ s.wallet.setKeyPool ∨ s.Outstanding nIndex
  /-- A record holds what was written when its key was made: every write that was not
  erased since is still there. -/
  written : ∀ nIndex keypool, Since (.put nIndex keypool) (.delete nIndex) s.wallet.walletdb →
    s.wallet.pool[nIndex]? = some keypool
  holder : ∀ r ∈ s.reserved,
    (s.wallet.pool[r.nIndex]?).map CKeyPool.vchPubKey = some r.vchPubKey
  /-- When a key was handed out, it was not out already. -/
  handedOnce : ∀ before after vchPubKey, s.uses = before ++ .handed vchPubKey :: after →
    ¬ Since (.handed vchPubKey) (.returned vchPubKey) before
  noThrow : s.thrown = []

def nNew : KeyPoolCall → Nat
  | .topUp false nSize => s.wallet.nMissing env nSize
  | .reserve false => s.wallet.nMissing env 0
  | _ => 0

/-- None of the indices that the call gives to new keys is reserved. -/
def Clear (call : KeyPoolCall) : Prop :=
  ∀ r ∈ s.reserved, ¬ (s.wallet.nEnd ≤ r.nIndex ∧ r.nIndex < s.wallet.nEnd + s.nNew env call)

/-- The first `N` keys are different: `MakeNewKey` draws each at random. -/
def Fresh (N : Nat) : Prop :=
  ∀ n < N, ∀ m < n, (env.newKey m).vchPubKey ≠ (env.newKey n).vchPubKey

/-! ## §3. What a top-up keeps. -/

variable (w : CWallet)

@[simp] theorem pool_writePool (nIndex : Int) (keypool : CKeyPool) :
    (w.writePool nIndex keypool).pool = w.pool.insert nIndex keypool :=
  replay_concat ∅ w.walletdb (.put nIndex keypool)

@[simp] theorem pool_erasePool (nIndex : Int) : (w.erasePool nIndex).pool = w.pool.erase nIndex :=
  replay_concat ∅ w.walletdb (.delete nIndex)

theorem pool_addKey : (w.addKey env).pool = w.pool.insert w.nEnd (env.newKey w.nGenerated) :=
  pool_writePool (w.generateNewKey env).2 w.nEnd (env.newKey w.nGenerated)

/-- The integrity of the pool, and what carries it through a run. -/
structure Inv (s : KeyPool) : Prop extends Integrity s where
  /-- Every record is of a key that was made. -/
  made : ∀ (nIndex : Int) keypool, s.wallet.pool[nIndex]? = some keypool →
    ∃ n < s.wallet.nGenerated, keypool = env.newKey n
  /-- A key has one record. -/
  oneRecord : ∀ (i j : Int) keypool keypool', s.wallet.pool[i]? = some keypool →
    s.wallet.pool[j]? = some keypool' → keypool.vchPubKey = keypool'.vchPubKey → i = j
  haveKeys : ∀ n < s.wallet.nGenerated,
    s.wallet.haveKey (getID env.C (env.newKey n).vchPubKey) = true
  /-- A key that was handed out was made. -/
  handedMade : ∀ vchPubKey, .handed vchPubKey ∈ s.uses →
    ∃ n < s.wallet.nGenerated, vchPubKey = (env.newKey n).vchPubKey
  /-- A key in `setKeyPool` is not out. -/
  idle : ∀ nIndex ∈ s.wallet.setKeyPool, ∀ keypool : CKeyPool,
    s.wallet.pool[nIndex]? = some keypool →
    ¬ Since (.handed keypool.vchPubKey) (.returned keypool.vchPubKey) s.uses

theorem inv_empty : Inv env .empty where
  distinct := nodup_nil
  disjoint := nofun
  records nIndex := by
    constructor
    · exact fun h => absurd h Std.ExtTreeMap.not_mem_empty
    · rintro (h | ⟨r, hr, -⟩)
      · exact absurd h Std.ExtTreeSet.not_mem_empty
      · exact absurd hr not_mem_nil
  written _ _ h := absurd h (not_since_nil _ _)
  holder := nofun
  handedOnce before after vchPubKey h := by
    have hlen := congrArg List.length h
    simp [KeyPool.empty] at hlen
  noThrow := rfl
  made nIndex keypool h := absurd h (by simp [KeyPool.empty, CWallet.pool])
  oneRecord i _ keypool _ h := absurd h (by simp [KeyPool.empty, CWallet.pool])
  haveKeys n h := absurd h (Nat.not_lt_zero n)
  handedMade _ h := absurd h not_mem_nil
  idle _ h := absurd h Std.ExtTreeSet.not_mem_empty

variable {env}

/-- An index with a record is in `setKeyPool` or outstanding; so `nEnd` has none where it is
not outstanding. -/
theorem Integrity.nEnd_free {s : KeyPool} (h : Integrity s)
    (hfree : ¬ s.Outstanding s.wallet.nEnd) :
    s.wallet.pool[s.wallet.nEnd]? = none := by
  by_contra hsome
  have hmem : s.wallet.nEnd ∈ s.wallet.pool := by
    rw [Std.ExtTreeMap.mem_iff_isSome_getElem?, Option.isSome_iff_ne_none]
    exact hsome
  rcases (h.records _).mp hmem with hset | hout
  · exact s.wallet.nEnd_notMem hset
  · exact hfree hout

/-- **One new key** keeps the invariant where its index is not reserved. -/
theorem inv_addKey (hfresh : Fresh env N) {s : KeyPool} (h : Inv env s)
    (hN : s.wallet.nGenerated < N) (hfree : ¬ s.Outstanding s.wallet.nEnd) :
    Inv env { s with wallet := s.wallet.addKey env } := by
  have hnone := h.toIntegrity.nEnd_free hfree
  -- a lookup finds the new record or an old one at another index
  have hget : ∀ i, (s.wallet.addKey env).pool[i]? =
      if s.wallet.nEnd = i then some (env.newKey s.wallet.nGenerated) else s.wallet.pool[i]? := by
    intro i
    rw [pool_addKey, StdMap.get_insert]
  have hold : ∀ i, i ∈ s.wallet.pool → s.wallet.nEnd ≠ i := by
    rintro i hi rfl
    rw [Std.ExtTreeMap.mem_iff_isSome_getElem?, hnone] at hi
    exact Bool.noConfusion hi
  -- the new key is none of those that were made before
  have hnew := hfresh s.wallet.nGenerated hN
  have hnewPool : ∀ (i : Int) (keypool : CKeyPool), s.wallet.pool[i]? = some keypool →
      keypool.vchPubKey ≠ (env.newKey s.wallet.nGenerated).vchPubKey := by
    intro i keypool hi
    obtain ⟨n, hn, rfl⟩ := h.made i keypool hi
    exact hnew n hn
  constructor
  constructor
  case distinct => exact h.distinct
  case disjoint =>
    intro r hr hin
    rcases (CWallet.mem_addKey env).mp hin with heq | hin
    · exact hfree ⟨r, hr, heq⟩
    · exact h.disjoint r hr hin
  case records =>
    intro i
    show i ∈ (s.wallet.addKey env).pool ↔
      i ∈ (s.wallet.addKey env).setKeyPool ∨ s.Outstanding i
    rw [pool_addKey, Std.ExtTreeMap.mem_insert, Int.compare_eq_eq, h.records,
      CWallet.mem_addKey, or_assoc, eq_comm]
  case written =>
    intro i keypool hlive
    show (s.wallet.addKey env).pool[i]? = some keypool
    rcases since_concat.mp hlive with heq | ⟨-, hlive⟩
    · obtain ⟨rfl, rfl⟩ := Change.put.inj heq
      rw [hget, if_pos rfl]
    · have hi := h.written i keypool hlive
      have hmem : i ∈ s.wallet.pool := by
        rw [Std.ExtTreeMap.mem_iff_isSome_getElem?, hi]
        rfl
      rw [hget, if_neg (hold i hmem), hi]
  case holder =>
    intro r hr
    have hne : s.wallet.nEnd ≠ r.nIndex := fun heq => hfree ⟨r, hr, heq.symm⟩
    show ((s.wallet.addKey env).pool[r.nIndex]?).map CKeyPool.vchPubKey = _
    rw [hget, if_neg hne]
    exact h.holder r hr
  case handedOnce => exact h.handedOnce
  case noThrow => exact h.noThrow
  case made =>
    intro i keypool hi
    rw [hget] at hi
    split at hi
    · exact ⟨s.wallet.nGenerated, Nat.lt_succ_self _, (Option.some.inj hi).symm⟩
    · obtain ⟨n, hn, hkey⟩ := h.made i keypool hi
      exact ⟨n, Nat.lt_succ_of_lt hn, hkey⟩
  case oneRecord =>
    intro i j keypool keypool' hi hj heq
    rw [hget] at hi hj
    split at hi <;> split at hj
    case isTrue.isTrue hi' hj' => exact hi'.symm.trans hj'
    case isTrue.isFalse =>
      cases hi
      exact absurd heq.symm (hnewPool j keypool' hj)
    case isFalse.isTrue =>
      cases hj
      exact absurd heq (hnewPool i keypool hi)
    case isFalse.isFalse => exact h.oneRecord i j keypool keypool' hi hj heq
  case haveKeys =>
    intro n hn
    show List.contains (_ :: s.wallet.mapKeys) _ = true
    rcases Nat.lt_succ_iff_lt_or_eq.mp hn with hn | rfl
    · rw [contains_cons, Bool.or_eq_true]
      exact .inr (h.haveKeys n hn)
    · rw [contains_cons, beq_self_eq_true, Bool.true_or]
  case handedMade =>
    intro vchPubKey hmem
    obtain ⟨n, hn, hkey⟩ := h.handedMade vchPubKey hmem
    exact ⟨n, Nat.lt_succ_of_lt hn, hkey⟩
  case idle =>
    intro i hin keypool hi hsince
    rw [hget] at hi
    split at hi
    · cases hi
      obtain ⟨n, hn, hkey⟩ := h.handedMade _ hsince.mem
      exact hnew n hn hkey.symm
    case isFalse hne =>
      rcases (CWallet.mem_addKey env).mp hin with heq | hin
      · exact hne heq.symm
      · exact h.idle i hin keypool hi hsince

/-- **The loop** keeps the invariant where none of its indices is reserved. -/
theorem inv_addKeys (hfresh : Fresh env N) {size fuel : Nat} {s : KeyPool} (h : Inv env s)
    (hN : (s.wallet.addKeys env size fuel).nGenerated ≤ N) (hfree : ∀ r ∈ s.reserved, ¬
    (s.wallet.nEnd ≤ r.nIndex ∧ r.nIndex < s.wallet.nEnd + (fuel : Nat))) :
    Inv env { s with wallet := s.wallet.addKeys env size fuel } := by
  induction fuel generalizing s with
  | zero => exact h
  | succ fuel ih =>
    rw [CWallet.addKeys] at hN ⊢
    split at hN
    case isTrue hlt =>
      rw [if_pos hlt]
      have hfirst : ¬ s.Outstanding s.wallet.nEnd := by
        rintro ⟨r, hr, heq⟩
        exact hfree r hr ⟨by omega, by omega⟩
      have hmade : s.wallet.nGenerated < N :=
        lt_of_lt_of_le (CWallet.le_nGenerated env _ fuel (s.wallet.addKey env)) hN
      refine ih (inv_addKey hfresh h hmade hfirst) hN fun r hr => ?_
      have hr' := hfree r hr
      show ¬ ((s.wallet.addKey env).nEnd ≤ r.nIndex ∧
        r.nIndex < (s.wallet.addKey env).nEnd + (fuel : Nat))
      rw [CWallet.nEnd_addKey]
      omega
    case isFalse hge =>
      rw [if_neg hge]
      exact h

theorem inv_topUp (hfresh : Fresh env N) {s : KeyPool} (h : Inv env s) {fLocked : Bool}
    {nSize : UInt32} (hN : (s.wallet.topUpKeyPool env fLocked nSize).2.nGenerated ≤ N)
    (hclear : Clear env s (.topUp fLocked nSize)) :
    Inv env { s with wallet := (s.wallet.topUpKeyPool env fLocked nSize).2 } := by
  cases fLocked with
  | true => exact h
  | false => exact inv_addKeys hfresh h hN hclear

/-! ## §4. What the other calls keep. -/

theorem Integrity.exists_record {s : KeyPool} (h : Integrity s)
    (hin : nIndex ∈ s.wallet.setKeyPool) : ∃ keypool, s.wallet.pool[nIndex]? = some keypool := by
  have hmem := (h.records nIndex).mpr (.inl hin)
  rw [Std.ExtTreeMap.mem_iff_isSome_getElem?] at hmem
  exact Option.isSome_iff_exists.mp hmem

/-- **The oldest key is handed out**; nothing is thrown. -/
theorem takeOldest_eq (hvalid : ∀ n, (env.newKey n).vchPubKey ≠ []) {s : KeyPool} (h : Inv env s)
    {keypool : CKeyPool} (hmin : s.wallet.setKeyPool.toList.head? = some nIndex)
    (hrecord : s.wallet.pool[nIndex]? = some keypool) :
    s.wallet.takeOldest env = (.ok (some (nIndex, keypool)),
      { s.wallet with setKeyPool := s.wallet.setKeyPool.erase nIndex }) := by
  obtain ⟨n, hn, rfl⟩ := h.made nIndex keypool hrecord
  have hhave := h.haveKeys n hn
  have hread : (CWallet.pool { s.wallet with
      setKeyPool := s.wallet.setKeyPool.erase nIndex })[nIndex]? = some (env.newKey n) := hrecord
  have hkeys : (CWallet.haveKey (getID env.C (env.newKey n).vchPubKey) { s.wallet with
      setKeyPool := s.wallet.setKeyPool.erase nIndex }) = true := hhave
  have hne : (env.newKey n).vchPubKey.isEmpty = false := by
    rw [isEmpty_eq_false_iff]
    exact hvalid n
  simp only [CWallet.takeOldest, hmin, hread, hkeys, hne, Bool.not_true, Bool.false_eq_true,
    if_false]

theorem mem_of_head? {t : StdSet Int} {i : Int} (h : t.toList.head? = some i) : i ∈ t := by
  rw [← Std.ExtTreeSet.min?_eq_head?_toList] at h
  exact Std.ExtTreeSet.min?_mem h

theorem mem_erase {t : StdSet Int} {i j : Int} : i ∈ t.erase j ↔ i ≠ j ∧ i ∈ t := by
  rw [Std.ExtTreeSet.mem_erase, ne_eq, Int.compare_eq_eq, ne_comm]

theorem inv_take {s : KeyPool} (h : Inv env s) {keypool : CKeyPool}
    (hin : nIndex ∈ s.wallet.setKeyPool) (hrecord : s.wallet.pool[nIndex]? = some keypool) :
    Inv env
      { s with
        wallet := { s.wallet with setKeyPool := s.wallet.setKeyPool.erase nIndex }
        reserved := s.reserved ++ [⟨nIndex, keypool.vchPubKey⟩]
        uses := s.uses ++ [.handed keypool.vchPubKey] } := by
  have hidle := h.idle nIndex hin keypool hrecord
  have hout : ∀ i, (∃ r ∈ s.reserved ++ [⟨nIndex, keypool.vchPubKey⟩], CReserveKey.nIndex r = i) ↔
      s.Outstanding i ∨ nIndex = i := by
    intro i
    simp only [mem_append, mem_singleton, or_and_right, exists_or, exists_eq_left]
    rfl
  constructor
  constructor
  case distinct =>
    rw [map_append, nodup_append]
    refine ⟨h.distinct, nodup_singleton _, ?_⟩
    intro i hi j hj heq
    obtain ⟨r, hr, rfl⟩ := mem_map.mp hi
    rw [map_cons, map_nil, mem_singleton] at hj
    rw [hj] at heq
    exact h.disjoint r hr (heq ▸ hin)
  case disjoint =>
    intro r hr hin'
    obtain ⟨hne, hin'⟩ := mem_erase.mp hin'
    rcases mem_append.mp hr with hr | hr
    · exact h.disjoint r hr hin'
    · rw [mem_singleton] at hr
      exact hne (by rw [hr])
  case records =>
    intro i
    show i ∈ s.wallet.pool ↔ i ∈ s.wallet.setKeyPool.erase nIndex ∨ _
    rw [h.records]
    unfold Outstanding
    rw [hout, mem_erase]
    by_cases hi : i = nIndex
    · subst hi
      exact iff_of_true (.inl hin) (.inr (.inr rfl))
    · constructor
      · rintro (hset | ho)
        · exact .inl ⟨hi, hset⟩
        · exact .inr (.inl ho)
      · rintro (⟨-, hset⟩ | ho | rfl)
        · exact .inl hset
        · exact .inr ho
        · exact absurd rfl hi
  case written => exact h.written
  case holder =>
    intro r hr
    rcases mem_append.mp hr with hr | hr
    · exact h.holder r hr
    · rw [mem_singleton] at hr
      subst hr
      show (s.wallet.pool[nIndex]?).map CKeyPool.vchPubKey = _
      rw [hrecord]
      rfl
  case handedOnce =>
    intro before after vchPubKey heq
    rcases concat_eq_append_cons.mp heq with ⟨rfl, hx, -⟩ | ⟨after', -, huses⟩
    · obtain rfl := Use.handed.inj hx
      exact hidle
    · exact h.handedOnce before after' vchPubKey huses
  case noThrow => exact h.noThrow
  case made => exact h.made
  case oneRecord => exact h.oneRecord
  case haveKeys => exact h.haveKeys
  case handedMade =>
    intro vchPubKey hmem
    rcases mem_append.mp hmem with hmem | hmem
    · exact h.handedMade vchPubKey hmem
    · rw [mem_singleton] at hmem
      obtain rfl := Use.handed.inj hmem
      obtain ⟨n, hn, rfl⟩ := h.made nIndex keypool hrecord
      exact ⟨n, hn, rfl⟩
  case idle =>
    intro i hi keypool' hget hsince
    obtain ⟨hne, hi⟩ := mem_erase.mp hi
    rcases since_concat.mp hsince with heq | ⟨-, hsince⟩
    · have hkeys := Use.handed.inj heq
      exact hne (h.oneRecord i nIndex keypool' keypool hget hrecord hkeys.symm)
    · exact h.idle i hi keypool' hget hsince

theorem mem_eraseIdx {l : List CReserveKey} (hnodup : (l.map CReserveKey.nIndex).Nodup)
    {x : CReserveKey} (hr : l[k]? = some r) :
    x ∈ l.eraseIdx k ↔ x ∈ l ∧ x.nIndex ≠ r.nIndex := by
  have hk : k < l.length := (List.getElem?_eq_some_iff.mp hr).1
  rw [mem_eraseIdx_iff_getElem?]
  constructor
  · rintro ⟨j, hjk, hj⟩
    refine ⟨mem_of_getElem? hj, fun heq => hjk ?_⟩
    -- equal indices stand at one place
    have hjl : j < l.length := (List.getElem?_eq_some_iff.mp hj).1
    have hmap : (l.map CReserveKey.nIndex)[j]? = (l.map CReserveKey.nIndex)[k]? := by
      rw [List.getElem?_map, List.getElem?_map, hj, hr, Option.map_some, Option.map_some, heq]
    exact (List.getElem?_inj (by rwa [length_map]) hnodup).mp hmap
  · rintro ⟨hx, hne⟩
    obtain ⟨j, hj⟩ := List.getElem?_of_mem hx
    refine ⟨j, ?_, hj⟩
    rintro rfl
    obtain rfl := Option.some.inj (hr.symm.trans hj)
    exact hne rfl

theorem outstanding_eraseIdx {s : KeyPool} (h : Integrity s) (hr : s.reserved[k]? = some r) :
    (∃ x ∈ s.reserved.eraseIdx k, x.nIndex = nIndex) ↔
      s.Outstanding nIndex ∧ nIndex ≠ r.nIndex := by
  constructor
  · rintro ⟨x, hx, rfl⟩
    obtain ⟨hx, hne⟩ := (mem_eraseIdx h.distinct hr).mp hx
    exact ⟨⟨x, hx, rfl⟩, hne⟩
  · rintro ⟨⟨x, hx, rfl⟩, hne⟩
    exact ⟨x, (mem_eraseIdx h.distinct hr).mpr ⟨hx, hne⟩, rfl⟩

theorem inv_keep {s : KeyPool} (h : Inv env s) (hr : s.reserved[k]? = some r) :
    Inv env { s with wallet := s.wallet.keepKey r.nIndex, reserved := s.reserved.eraseIdx k } := by
  have hmem : r ∈ s.reserved := mem_of_getElem? hr
  have hget : ∀ i, (s.wallet.keepKey r.nIndex).pool[i]? =
      if r.nIndex = i then none else s.wallet.pool[i]? := by
    intro i
    rw [CWallet.keepKey, pool_erasePool, StdMap.get_erase]
  have hold : ∀ (i : Int) (keypool : CKeyPool),
      (s.wallet.keepKey r.nIndex).pool[i]? = some keypool → s.wallet.pool[i]? = some keypool := by
    intro i keypool hi
    rw [hget] at hi
    split at hi
    · cases hi
    · exact hi
  constructor
  constructor
  case distinct => exact h.distinct.sublist ((eraseIdx_sublist _ _).map _)
  case disjoint => exact fun x hx => h.disjoint x ((mem_eraseIdx h.distinct hr).mp hx).1
  case records =>
    intro i
    rw [Outstanding, outstanding_eraseIdx h.toIntegrity hr]
    show i ∈ (s.wallet.keepKey r.nIndex).pool ↔ i ∈ s.wallet.setKeyPool ∨ _
    rw [CWallet.keepKey, pool_erasePool, Std.ExtTreeMap.mem_erase, ne_eq, Int.compare_eq_eq,
      h.records]
    by_cases hi : r.nIndex = i
    · subst hi
      constructor
      · exact fun h' => absurd rfl h'.1
      · rintro (hset | ⟨-, hne⟩)
        · exact absurd hset (h.disjoint r hmem)
        · exact absurd rfl hne
    · constructor
      · rintro ⟨-, hset | ho⟩
        · exact .inl hset
        · exact .inr ⟨ho, Ne.symm hi⟩
      · rintro (hset | ⟨ho, -⟩)
        · exact ⟨hi, .inl hset⟩
        · exact ⟨hi, .inr ho⟩
  case written =>
    intro i keypool hlive
    rcases since_concat.mp hlive with heq | ⟨hne, hlive⟩
    · cases heq
    · show (s.wallet.keepKey r.nIndex).pool[i]? = some keypool
      rw [hget, if_neg fun heq => hne (by rw [heq])]
      exact h.written i keypool hlive
  case holder =>
    intro x hx
    obtain ⟨hx, hne⟩ := (mem_eraseIdx h.distinct hr).mp hx
    show ((s.wallet.keepKey r.nIndex).pool[x.nIndex]?).map CKeyPool.vchPubKey = _
    rw [hget, if_neg (Ne.symm hne)]
    exact h.holder x hx
  case handedOnce => exact h.handedOnce
  case noThrow => exact h.noThrow
  case made => exact fun i keypool hi => h.made i keypool (hold i keypool hi)
  case oneRecord =>
    exact fun i j keypool keypool' hi hj =>
      h.oneRecord i j keypool keypool' (hold i keypool hi) (hold j keypool' hj)
  case haveKeys => exact h.haveKeys
  case handedMade => exact h.handedMade
  case idle => exact fun i hin keypool hi => h.idle i hin keypool (hold i keypool hi)

theorem inv_giveBack {s : KeyPool} (h : Inv env s) (hr : s.reserved[k]? = some r) :
    Inv env
      { s with
        wallet := s.wallet.returnKey r.nIndex
        reserved := s.reserved.eraseIdx k
        uses := s.uses ++ [.returned r.vchPubKey] } := by
  have hmem : r ∈ s.reserved := mem_of_getElem? hr
  have hset : ∀ i, i ∈ (s.wallet.returnKey r.nIndex).setKeyPool ↔
      i = r.nIndex ∨ i ∈ s.wallet.setKeyPool := by
    intro i
    show i ∈ s.wallet.setKeyPool.insert r.nIndex ↔ _
    rw [Std.ExtTreeSet.mem_insert, Int.compare_eq_eq, eq_comm]
  constructor
  constructor
  case distinct => exact h.distinct.sublist ((eraseIdx_sublist _ _).map _)
  case disjoint =>
    intro x hx hin
    obtain ⟨hx, hne⟩ := (mem_eraseIdx h.distinct hr).mp hx
    rcases (hset _).mp hin with heq | hin
    · exact hne heq
    · exact h.disjoint x hx hin
  case records =>
    intro i
    rw [Outstanding, outstanding_eraseIdx h.toIntegrity hr, hset]
    show i ∈ s.wallet.pool ↔ _
    rw [h.records]
    by_cases hi : i = r.nIndex
    · subst hi
      exact iff_of_true (.inr ⟨r, hmem, rfl⟩) (.inl (.inl rfl))
    · constructor
      · rintro (hin | ho)
        · exact .inl (.inr hin)
        · exact .inr ⟨ho, hi⟩
      · rintro ((heq | hin) | ⟨ho, -⟩)
        · exact absurd heq hi
        · exact .inl hin
        · exact .inr ho
  case written => exact h.written
  case holder => exact fun x hx => h.holder x ((mem_eraseIdx h.distinct hr).mp hx).1
  case handedOnce =>
    intro before after vchPubKey heq
    rcases concat_eq_append_cons.mp heq with ⟨-, hx, -⟩ | ⟨after', -, huses⟩
    · exact Use.noConfusion hx
    · exact h.handedOnce before after' vchPubKey huses
  case noThrow => exact h.noThrow
  case made => exact h.made
  case oneRecord => exact h.oneRecord
  case haveKeys => exact h.haveKeys
  case handedMade =>
    intro vchPubKey hin
    rcases mem_append.mp hin with hin | hin
    · exact h.handedMade vchPubKey hin
    · rw [mem_singleton] at hin
      exact Use.noConfusion hin
  case idle =>
    intro i hin keypool hi hsince
    rcases since_concat.mp hsince with heq | ⟨hne, hsince⟩
    · exact Use.noConfusion heq
    · rcases (hset i).mp hin with rfl | hin
      · -- the record is of the key that came back
        have hkey := h.holder r hmem
        rw [show s.wallet.pool[r.nIndex]? = some keypool from hi] at hkey
        exact hne (by rw [Option.some.inj hkey])
      · exact h.idle i hin keypool hi hsince

/-! ## §5. Runs. -/

theorem takeOldest_cases (env : KeyPoolEnv) (w : CWallet) :
    (w.setKeyPool.toList.head? = none ∧ w.takeOldest env = (.ok none, w)) ∨
    ∃ nIndex, w.setKeyPool.toList.head? = some nIndex ∧
      ((∃ keypool, w.takeOldest env = (.ok (some (nIndex, keypool)),
          { w with setKeyPool := w.setKeyPool.erase nIndex })) ∨
        ∃ what, w.takeOldest env = (.error what,
          { w with setKeyPool := w.setKeyPool.erase nIndex })) := by
  unfold CWallet.takeOldest
  cases hmin : w.setKeyPool.toList.head? with
  | none => exact .inl ⟨rfl, rfl⟩
  | some nIndex =>
    refine .inr ⟨nIndex, rfl, ?_⟩
    simp only
    split
    · exact .inr ⟨_, rfl⟩
    · split
      · exact .inr ⟨_, rfl⟩
      · split
        · exact .inr ⟨_, rfl⟩
        · exact .inl ⟨_, rfl⟩

theorem nGenerated_reserve {s : KeyPool} {fLocked : Bool} :
    (s.step env (.reserve fLocked)).wallet.nGenerated =
      (if fLocked then s.wallet else (s.wallet.topUpKeyPool env fLocked 0).2).nGenerated := by
  simp only [step, CWallet.reserveKeyFromKeyPool]
  generalize (if fLocked = true then s.wallet else
    (CWallet.topUpKeyPool env fLocked 0 s.wallet).2) = w
  rcases takeOldest_cases env w with ⟨-, heq⟩ | ⟨nIndex, -, ⟨keypool, heq⟩ | ⟨what, heq⟩⟩
  · rw [heq]
  · rw [heq]
  · rw [heq]

theorem le_nGenerated_step (call : KeyPoolCall) :
    s.wallet.nGenerated ≤ (s.step env call).wallet.nGenerated := by
  cases call with
  | topUp fLocked nSize => exact CWallet.le_nGenerated_topUp env fLocked nSize s.wallet
  | reserve fLocked =>
    rw [nGenerated_reserve]
    split
    · exact le_refl _
    · exact CWallet.le_nGenerated_topUp env fLocked 0 s.wallet
  | keep holder =>
    simp only [step]
    split
    · exact le_refl _
    · exact le_refl _
  | giveBack holder =>
    simp only [step]
    split
    · exact le_refl _
    · exact le_refl _

theorem step_reserve (hvalid : ∀ n, (env.newKey n).vchPubKey ≠ []) {s : KeyPool} {fLocked : Bool}
    {w : CWallet} (hw : (if fLocked then s.wallet else (s.wallet.topUpKeyPool env fLocked 0).2) = w)
    (h : Inv env { s with wallet := w }) :
    (w.setKeyPool.toList.head? = none ∧ s.step env (.reserve fLocked) = { s with wallet := w }) ∨
    ∃ nIndex keypool, w.setKeyPool.toList.head? = some nIndex ∧ w.pool[nIndex]? = some keypool ∧
      s.step env (.reserve fLocked) =
        { s with
          wallet := { w with setKeyPool := w.setKeyPool.erase nIndex }
          reserved := s.reserved ++ [⟨nIndex, keypool.vchPubKey⟩]
          uses := s.uses ++ [.handed keypool.vchPubKey] } := by
  cases hmin : w.setKeyPool.toList.head? with
  | none =>
    left
    refine ⟨rfl, ?_⟩
    simp only [step, CWallet.reserveKeyFromKeyPool, hw, CWallet.takeOldest, hmin]
  | some nIndex =>
    right
    have hin : nIndex ∈ w.setKeyPool := mem_of_head? hmin
    obtain ⟨keypool, hrecord⟩ := h.toIntegrity.exists_record hin
    refine ⟨nIndex, keypool, rfl, hrecord, ?_⟩
    have htake := takeOldest_eq hvalid h hmin hrecord
    simp only [step, CWallet.reserveKeyFromKeyPool, hw]
    rw [show w.takeOldest env = _ from htake]

/-- **One call** keeps the invariant where none of its new indices is reserved. -/
theorem inv_step (hfresh : Fresh env N) (hvalid : ∀ n, (env.newKey n).vchPubKey ≠ []) (s : KeyPool)
    (call : KeyPoolCall) (h : Inv env s) (hclear : s.Clear env call)
    (hN : (s.step env call).wallet.nGenerated ≤ N) : Inv env (s.step env call) := by
  cases call with
  | topUp fLocked nSize => exact inv_topUp hfresh h hN hclear
  | reserve fLocked =>
    have htop : Inv env { s with
        wallet := if fLocked then s.wallet else (s.wallet.topUpKeyPool env fLocked 0).2 } := by
      cases fLocked with
      | true => exact h
      | false =>
        rw [nGenerated_reserve] at hN
        have hclear' : s.Clear env (.topUp false 0) := hclear
        exact inv_topUp hfresh h hN hclear'
    rcases step_reserve hvalid rfl htop with ⟨-, heq⟩ | ⟨nIndex, keypool, hmin, hrecord, heq⟩
    · rw [heq]
      exact htop
    · rw [heq]
      exact inv_take htop (mem_of_head? hmin) hrecord
  | keep holder =>
    cases hr : s.reserved[holder]? with
    | none =>
      simp only [step, hr]
      exact h
    | some r =>
      simp only [step, hr]
      exact inv_keep h hr
  | giveBack holder =>
    cases hr : s.reserved[holder]? with
    | none =>
      simp only [step, hr]
      exact h
    | some r =>
      simp only [step, hr]
      exact inv_giveBack h hr

theorem mem_topUp {w : CWallet} {nSize : UInt32}
    (h : w.nEnd ≤ nIndex ∧ nIndex < w.nEnd + w.nMissing env nSize) :
    nIndex ∈ (w.topUpKeyPool env false nSize).2.setKeyPool := by
  have hroom : w.setKeyPool.size + w.nMissing env nSize ≤
      (CWallet.nTargetSize env nSize + 1).toNat := by
    unfold CWallet.nMissing at h ⊢
    omega
  exact (CWallet.mem_addKeys env hroom).mpr (.inr h)

theorem not_integrity_reserve {s : KeyPool} {fLocked : Bool}
    (hr : r ∈ s.reserved) (hin : r.nIndex ∈
      (if fLocked then s.wallet else (s.wallet.topUpKeyPool env fLocked 0).2).setKeyPool) :
    ¬ Integrity (s.step env (.reserve fLocked)) := by
  intro h
  simp only [step, CWallet.reserveKeyFromKeyPool] at h
  generalize (if fLocked = true then s.wallet else
    (CWallet.topUpKeyPool env fLocked 0 s.wallet).2) = w at h hin
  rcases takeOldest_cases env w with ⟨-, heq⟩ | ⟨nIndex, -, ⟨keypool, heq⟩ | ⟨what, heq⟩⟩
  · rw [heq] at h
    exact h.disjoint r hr hin
  · rw [heq] at h
    by_cases hne : r.nIndex = nIndex
    · -- the same index is reserved a second time
      have hnodup := h.distinct
      rw [map_append, nodup_append] at hnodup
      exact hnodup.2.2 r.nIndex (mem_map_of_mem hr) nIndex (by simp) hne
    · exact h.disjoint r (mem_append_left _ hr) (mem_erase.mpr ⟨hne, hin⟩)
  · rw [heq] at h
    have hthrown : s.thrown ++ [what] = [] := h.noThrow
    simp at hthrown

theorem clear_of_integrity {s : KeyPool} {call : KeyPoolCall} (h : Integrity (s.step env call)) :
    s.Clear env call := by
  intro r hr hrange
  cases call with
  | topUp fLocked nSize =>
    cases fLocked with
    | true => exact absurd hrange (by simp only [nNew]; omega)
    | false => exact h.disjoint r hr (mem_topUp hrange)
  | reserve fLocked =>
    cases fLocked with
    | true => exact absurd hrange (by simp only [nNew]; omega)
    | false =>
      refine not_integrity_reserve hr ?_ h
      exact mem_topUp hrange
  | keep holder => exact absurd hrange (by simp only [nNew]; omega)
  | giveBack holder => exact absurd hrange (by simp only [nNew]; omega)

/-- **Key pool integrity.**  The states of a run are all sound exactly if no call gives an
index to a new key that is reserved. -/
theorem keyPool_integrity_iff (env : KeyPoolEnv)
    (hvalid : ∀ n, (env.newKey n).vchPubKey ≠ []) (calls : List KeyPoolCall)
    (hfresh : Fresh env (run (step env) .empty calls).wallet.nGenerated) :
    (∀ done rest, calls = done ++ rest → Integrity (run (step env) .empty done)) ↔
      Along (step env) (Clear env) .empty calls :=
  states_iff (fun _ h => h.toIntegrity) (fun s call h => le_trans (le_nGenerated_step s call) h)
    (inv_step hfresh hvalid) (fun _ _ _ h => clear_of_integrity h) (inv_empty env) (le_refl _)

def sampleKeyPoolEnv (keypool : Int64) : KeyPoolEnv where
  C := sampleCrypto
  newKey n := ⟨1500000000, 2 :: (List.replicate 31 7 ++ [UInt8.ofNat n])⟩
  keypool := keypool

/-- With `-keypool=1`: a reservation is returned, and one is kept. -/
theorem keyPool_integrity_returned :
    Integrity (run (step (sampleKeyPoolEnv 1)) .empty
      [.topUp false 0, .reserve false, .giveBack 0, .reserve true, .reserve false, .keep 1,
        .giveBack 0]) := by
  refine (keyPool_integrity_iff (sampleKeyPoolEnv 1) (fun n => cons_ne_nil _ _) _ ?_).mpr ?_
    _ [] (append_nil _).symm
  · have hmade : (run (step (sampleKeyPoolEnv 1)) .empty
        [.topUp false 0, .reserve false, .giveBack 0, .reserve true, .reserve false, .keep 1,
          .giveBack 0]).wallet.nGenerated = 3 := by
      decide +kernel
    rw [hmade]
    unfold Fresh
    decide
  · unfold Along Along Along Along Along Along Along Along
    unfold Clear
    decide +kernel

/-- With `-keypool=0`, two reservations are given one index. -/
theorem keyPool_index_twice :
    ¬ Integrity (run (step (sampleKeyPoolEnv 0)) .empty [.reserve false, .reserve false]) := by
  intro h
  have htwice : (run (step (sampleKeyPoolEnv 0)) .empty
      [.reserve false, .reserve false]).reserved.map CReserveKey.nIndex = [1, 1] := by
    decide +kernel
  have hnodup := h.distinct
  rw [htwice] at hnodup
  exact absurd hnodup (by decide)

end KeyPool

end Fantom.Wallet
