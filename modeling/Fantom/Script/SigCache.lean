/-
  Fantom.Script.SigCache — The signature cache as the source has it: a set with the limit of
  `-maxsigcachesize`, from which random entries are evicted.

  * `cache_transparent` — along any calls of `CheckSig`, the answers are those of an empty cache,
    and the cache holds verified triples within its limit.
-/
import Fantom.Script.Signature

namespace Fantom.Script

open Core Lib

/-! ## §1. The entries. -/

/-- `sigdata_type`: signature hash, signature, public key. -/
abbrev SigData := UInt256 × List UInt8 × CPubKey

/-- `operator<` of the tuples. -/
def SigData.lt (a b : SigData) : Bool :=
  a.1 < b.1 || (a.1 == b.1 && (a.2.1 < b.2.1 || (a.2.1 == b.2.1 && a.2.2 < b.2.2)))

def firstEntry : List SigData → Option SigData
  | [] => none
  | k :: ks =>
    match firstEntry ks with
    | none => some k
    | some first => if SigData.lt first k then some first else some k

/-- `lower_bound` of a random hash, or the first entry when it is past the end.
The key it looks for has no signature and an invalid public key, which starts
with `0xff`. -/
def randomEntry (randomHash : UInt256) (setValid : List SigData) : Option SigData :=
  (firstEntry (setValid.filter fun k => !SigData.lt k (randomHash, [], [0xff]))).or
    (firstEntry setValid)

/-- `while (setValid.size() > nMaxCacheSize)`: a round erases one entry, so as many
rounds as entries are enough. -/
def evictRounds (nMaxCacheSize : Nat) (getRandHash : Nat → UInt256) :
    Nat → List SigData → List SigData
  | 0, setValid => setValid
  | fuel + 1, setValid =>
    if setValid.length > nMaxCacheSize then
      match randomEntry (getRandHash fuel) setValid with
      | none => setValid
      | some k => evictRounds nMaxCacheSize getRandHash fuel (setValid.erase k)
    else setValid

theorem firstEntry_mem {l : List SigData} {k : SigData} (h : firstEntry l = some k) : k ∈ l := by
  induction l generalizing k with
  | nil => cases h
  | cons a l ih =>
    rw [firstEntry] at h
    cases hl : firstEntry l with
    | none =>
      rw [hl] at h
      cases h
      exact List.mem_cons_self
    | some first =>
      rw [hl] at h
      dsimp only at h
      split at h
      · cases h
        exact List.mem_cons_of_mem _ (ih hl)
      · cases h
        exact List.mem_cons_self

theorem firstEntry_isSome {l : List SigData} (h : l ≠ []) : (firstEntry l).isSome = true := by
  cases l with
  | nil => exact absurd rfl h
  | cons a l =>
    rw [firstEntry]
    cases firstEntry l with
    | none => rfl
    | some first =>
      dsimp only
      split <;> rfl

theorem randomEntry_mem {randomHash : UInt256} {l : List SigData} {k : SigData}
    (h : randomEntry randomHash l = some k) : k ∈ l := by
  rw [randomEntry, Option.or_eq_some_iff] at h
  rcases h with h | ⟨_, h⟩
  · exact List.mem_of_mem_filter (firstEntry_mem h)
  · exact firstEntry_mem h

theorem randomEntry_isSome (randomHash : UInt256) {l : List SigData} (h : l ≠ []) :
    (randomEntry randomHash l).isSome = true := by
  rw [randomEntry, Option.isSome_or, firstEntry_isSome h, Bool.or_true]

theorem evictRounds_sublist (nMaxCacheSize : Nat) (getRandHash : Nat → UInt256) (fuel : Nat)
    (l : List SigData) : (evictRounds nMaxCacheSize getRandHash fuel l).Sublist l := by
  induction fuel generalizing l with
  | zero => exact .refl l
  | succ fuel ih =>
    rw [evictRounds]
    split
    · cases randomEntry (getRandHash fuel) l with
      | none => exact .refl l
      | some k => exact (ih (l.erase k)).trans List.erase_sublist
    · exact .refl l

theorem evictRounds_length (nMaxCacheSize : Nat) (getRandHash : Nat → UInt256) {fuel : Nat}
    {l : List SigData} (hfuel : l.length ≤ fuel) :
    (evictRounds nMaxCacheSize getRandHash fuel l).length ≤ nMaxCacheSize := by
  induction fuel generalizing l with
  | zero =>
    rw [evictRounds]
    omega
  | succ fuel ih =>
    rw [evictRounds]
    split
    next hmore =>
      have hne : l ≠ [] := by
        rintro rfl
        exact absurd hmore (Nat.not_lt_zero _)
      obtain ⟨k, hk⟩ := Option.isSome_iff_exists.mp (randomEntry_isSome (getRandHash fuel) hne)
      rw [hk]
      apply ih
      rw [List.length_erase_of_mem (randomEntry_mem hk)]
      omega
    next hfits => omega

/-! ## §2. The cache. -/

/-- The eviction of `CSignatureCache::Set`, with the random hashes of every call
and round. -/
def cacheEvictor (nMaxCacheSize : Int64) (getRandHash : Nat → Nat → UInt256) :
    Cached.Evictor SigData :=
  ⟨fun nSet setValid =>
      evictRounds nMaxCacheSize.toInt.toNat (getRandHash nSet) setValid.length setValid,
    fun _ _ => (evictRounds_sublist _ _ _ _).subset⟩

variable (E : SigEnv)

/-- The interpreter with the cache of the source, under `-maxsigcachesize`.  A limit
of zero or less allows no entry. -/
def SigEnv.withCache (nMaxCacheSize : Int64) (getRandHash : Nat → Nat → UInt256) : SigEnv :=
  { E with
    evictor := cacheEvictor nMaxCacheSize getRandHash
    fCacheAllowed := !decide (nMaxCacheSize ≤ 0) }

/-- The arguments of a call of `CheckSig`. -/
structure SigCall where
  vchSig : Valtype
  vchPubKey : Valtype
  scriptCode : CScript
  txTo : CTransaction
  nIn : Nat
  nHashType : Int32
  flags : UInt32

def SigCall.check (c : SigCall) : Cached (CSignatureCache E) Bool :=
  checkSig E c.vchSig c.vchPubKey c.scriptCode c.txTo c.nIn c.nHashType c.flags

def cacheAfter (cache : CSignatureCache E) (calls : List SigCall) : CSignatureCache E :=
  run (fun cache c => (c.check E cache).2) cache calls

/-! ## §3. One call, and a run. -/

/-- The cache is a set within its limit, give or take the last entry. -/
structure WithinLimit {E : SigEnv} (nMaxCacheSize : Int64) (cache : CSignatureCache E) : Prop where
  nodup : cache.entries.Nodup
  length : cache.entries.length ≤ nMaxCacheSize.toInt.toNat + 1

theorem withinLimit_empty (nMaxCacheSize : Int64) :
    WithinLimit nMaxCacheSize (.empty : CSignatureCache E) :=
  ⟨List.nodup_nil, Nat.zero_le _⟩

variable {E : SigEnv} {nMaxCacheSize : Int64} {getRandHash : Nat → Nat → UInt256}

theorem WithinLimit.set {cache : CSignatureCache (E.withCache nMaxCacheSize getRandHash)}
    (h : WithinLimit nMaxCacheSize cache) {k : SigData} (hnew : k ∉ cache.entries)
    (hk : (E.withCache nMaxCacheSize getRandHash).validSig k = true) :
    WithinLimit nMaxCacheSize
      (cache.set (E.withCache nMaxCacheSize getRandHash).evictor k hk) := by
  have hsub := evictRounds_sublist nMaxCacheSize.toInt.toNat (getRandHash cache.nSet)
    cache.entries.length cache.entries
  have hlen := evictRounds_length nMaxCacheSize.toInt.toNat (getRandHash cache.nSet)
    (Nat.le_refl cache.entries.length)
  refine ⟨?_, ?_⟩
  · exact List.nodup_cons.mpr ⟨fun hmem => hnew (hsub.subset hmem), h.nodup.sublist hsub⟩
  · exact Nat.succ_le_succ hlen

theorem WithinLimit.check {cache : CSignatureCache (E.withCache nMaxCacheSize getRandHash)}
    (h : WithinLimit nMaxCacheSize cache) (c : SigCall) :
    WithinLimit nMaxCacheSize (c.check (E.withCache nMaxCacheSize getRandHash) cache).2 := by
  unfold SigCall.check checkSig
  split
  · exact h
  cases c.vchSig.getLast? with
  | none => exact h
  | some back =>
    dsimp only
    split
    · exact h
    · unfold Cached.ask
      split
      · exact h
      next hnew =>
        split
        next hk =>
          dsimp only
          split
          · exact h.set hnew hk
          · exact h
        · exact h

/-- **The signature cache is transparent.**  Along any sequence of calls, with any
random evictions, a call answers what it answers with an empty cache; every triple
in the cache verifies; and the cache has at most one entry more than its limit. -/
theorem cache_transparent (E : SigEnv) (nMaxCacheSize : Int64)
    (getRandHash : Nat → Nat → UInt256) (calls : List SigCall) :
    let E := E.withCache nMaxCacheSize getRandHash
    let cache := cacheAfter E .empty calls
    (∀ c : SigCall, (c.check E cache).1 = (c.check E .empty).1) ∧
      (∀ hash vchSig pubKey, (hash, vchSig, pubKey) ∈ cache.entries →
        E.verify pubKey hash vchSig = true) ∧
      cache.entries.Nodup ∧ cache.entries.length ≤ nMaxCacheSize.toInt.toNat + 1 := by
  intro E cache
  have hlimit : WithinLimit nMaxCacheSize cache :=
    run_invariant (I := WithinLimit nMaxCacheSize) (P := fun _ _ => True)
      (fun _ c hs _ => hs.check c) (withinLimit_empty E nMaxCacheSize)
      (along_of_forall (fun _ _ => trivial) _ _)
  refine ⟨?_, ?_, hlimit.nodup, hlimit.length⟩
  · intro c
    -- a cached answer is a verified one, so either cache gives what the other gives
    exact (covers_checkSig E c.vchSig c.vchPubKey c.scriptCode c.txTo c.nIn c.nHashType c.flags
      c.flags).fst_eq cache .empty
  · intro hash vchSig pubKey hmem
    exact cache.verified _ hmem

-- a limit of one: the third signature evicts an entry before it goes in
example :
    let call (sig : List UInt8) : SigCall :=
      ⟨sig, 2 :: List.replicate 32 7, [], ⟨1, 0, [], [], 0⟩, 0, 0, 0⟩
    (cacheAfter (sampleSigEnv.withCache 1 fun _ _ => 0) .empty
      [call [1, 1], call [8, 1, 1], call [9, 1, 1]]).entries.length = 2 := by
  decide +kernel

end Fantom.Script
