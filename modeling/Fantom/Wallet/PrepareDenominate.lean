/-
  Fantom.Wallet.PrepareDenominate — `PrepareZerosendDenominate`: coins of the denominations of a
  session are locked, and as much is made of them again in new outputs.

  * `Chosen`, `selectLoop_chosen` — what is selected has each denomination of the session, and no
    other,
  * `prepare_exact_iff` — what is submitted is exact, and an error undoes the locks unless the
    session has a bit that stands for no denomination.

  Amounts are added up as integers: they stay below the maximum of the pool.
-/
import Fantom.Wallet.CreateTransaction
import Fantom.Zerosend.Mixing
import Mathlib.Algebra.Order.BigOperators.Group.List
import Mathlib.Algebra.Order.Group.Nat

namespace Fantom.Wallet

open Core Lib Zerosend List

/-! ## §1. What is read. -/

/-- `std::random_shuffle` -/
structure RandomShuffle (α : Type) where
  shuffle : List α → List α
  perm : ∀ l, (shuffle l).Perm l

/-- `COutPoint(out.tx->GetHash(), out.i)` -/
def COutput.outPoint (out : COutput) : COutPoint := out.key.outPoint

/-- What the call reads of the wallet and of `zeroSendPool`, and its random choices. -/
structure DenominateEnv where
  /-- `IsLocked()` -/
  isLocked : Bool
  state : PoolStatus
  /-- `GetMyTransactionCount()` -/
  myTransactionCount : Nat
  sessionDenom : Int32
  mapWallet : StdMap UInt256 CWalletTx
  setLockedCoins : StdSet COutPoint
  /-- The outputs that pass the other tests of `AvailableCoins`. -/
  outputs : List COutput
  inWallet : ∀ out ∈ outputs, mapWallet[out.tx.hash]? = some out.tx
  index : ∀ out ∈ outputs, out.i < 2 ^ 31
  /-- `GetInputZerosendRounds` -/
  rounds : COutPoint → Int
  /-- The script of the key that `GetReservedKey` gives at a call, where it returns true. -/
  reservedScript : Nat → Option CScript
  shuffleCoins : RandomShuffle COutput
  shuffleFront : RandomShuffle Int64
  shuffleDenoms : RandomShuffle Int64
  shuffleOut : RandomShuffle CTxOut
  /-- The two results of `rand()` in a turn, by the number of coins after it. -/
  rand : Nat → Nat × Nat

/-- `nDenom & (1 << k)` -/
def hasDenom (nDenom : Int32) (k : Nat) : Bool := nDenom.toBitVec.getLsbD k

/-- The place of a value among the denominations, where the session has it. -/
def acceptedDenom (nDenom : Int32) (nValue : Int64) : Option Nat :=
  (zeroSendDenominations.zipIdx.find? fun d => hasDenom nDenom d.2 && nValue == d.1).map (·.2)

variable (env : DenominateEnv)

/-! ## §2. `SelectCoinsByDenominations`. -/

/-- `AvailableCoins(vCoins, true, NULL, ONLY_DENOMINATED)` -/
def availableCoins : List COutput :=
  env.outputs.filter fun out =>
    isDenominatedAmount out.nValue && !env.setLockedCoins.contains out.outPoint &&
      decide (0 < out.nValue.toInt)

/-- The variables of the loop: `vCoinsRet2`, `nValueRet`, `nValueMax` and the `fFound` flags. -/
structure Selecting where
  coins : List COutput
  nValueRet : Int
  nValueMax : Int
  found : List Bool

/-- The coin is taken, if the session has its denomination. -/
def Selecting.take (s : Selecting) (nDenom : Int32) (out : COutput) (fulfilled : Bool) :
    Selecting :=
  match acceptedDenom nDenom out.nValue with
  | none => s
  | some k =>
    { s with
      coins := s.coins ++ [out]
      nValueRet := s.nValueRet + out.nValue.toInt
      found := if fulfilled then s.found else s.found.set k true }

/-- The loop over the `size` coins. -/
def selectLoop (nDenom : Int32) (nValueMin minRounds maxRounds : Int) (size : Nat) :
    List COutput → Selecting → Bool × Selecting
  | [], s => (decide (s.nValueRet ≥ nValueMin) && s.found.all id, s)
  | out :: rest, s =>
    if s.nValueRet + out.nValue.toInt ≤ s.nValueMax then
      if env.rounds out.outPoint ≥ maxRounds then
        selectLoop nDenom nValueMin minRounds maxRounds size rest s
      else if env.rounds out.outPoint < minRounds then
        selectLoop nDenom nValueMin minRounds maxRounds size rest s
      else if s.found.all id then
        if s.nValueRet ≥ nValueMin then
          let (rand1, rand2) := env.rand rest.length
          let s := { s with
            nValueMax := s.nValueMax - (rand1 : Int).tmod (s.nValueMax.tdiv 5) }
          if s.coins.length > rand2 % size then (true, s)
          else
            selectLoop nDenom nValueMin minRounds maxRounds size rest (s.take nDenom out true)
        else selectLoop nDenom nValueMin minRounds maxRounds size rest (s.take nDenom out true)
      else selectLoop nDenom nValueMin minRounds maxRounds size rest (s.take nDenom out false)
    else selectLoop nDenom nValueMin minRounds maxRounds size rest s

/-- `SelectCoinsByDenominations`: its verdict, and the variables it leaves. -/
def selectCoinsByDenominations (nDenom : Int32) (nValueMin nValueMax minRounds maxRounds : Int) :
    Bool × Selecting :=
  let vCoins := env.shuffleCoins.shuffle (availableCoins env)
  let found := (List.range zeroSendDenominations.length).map fun k => !hasDenom nDenom k
  selectLoop env nDenom nValueMin minRounds maxRounds vCoins.length vCoins ⟨[], 0, nValueMax, found⟩

/-- The input for a coin, with its script as `prevPubKey`. -/
def selectedIn (out : COutput) : CTxIn :=
  have := out.inside
  { newTxIn out.key with prevPubKey := out.tx.vout[out.i].scriptPubKey }

/-! ## §3. `PrepareZerosendDenominate`. -/

def getTotalValue (vCoins : List CTxIn) : Int :=
  (vCoins.map fun txin =>
    match env.mapWallet[txin.prevout.hash]? with
    | none => 0
    | some wtx =>
      match wtx.vout[txin.prevout.n.toNat]? with
      | none => 0
      | some out => out.nValue.toInt).sum

/-- `vDenoms`: each denomination twice, then each of them 501 times, all behind the first eight in
random order. -/
def vDenoms : List Int64 :=
  let front := env.shuffleFront.shuffle (zeroSendDenominations.flatMap fun d => [d, d])
  let all := front ++ (List.replicate 501 zeroSendDenominations).flatten
  let fixed := zeroSendDenominations.length + 1
  all.take fixed ++ env.shuffleDenoms.shuffle (all.drop fixed)

/-- `vOut`, `nValueLeft`, and how many keys were reserved. -/
structure Making where
  vOut : List CTxOut
  nValueLeft : Int
  reserved : Nat

def addOutput (nValue : Int64) (s : Making) : Except Stop Making := do
  let scriptChange ← required (env.reservedScript s.reserved) .assertion
  return ⟨s.vOut ++ [newTxOut nValue scriptChange], s.nValueLeft - nValue.toInt, s.reserved + 1⟩

/-- The loop through the denominations, which takes what is left and the session has. -/
def greedyLoop : List Int64 → Making → Except Stop Making
  | [], s => .ok s
  | v :: rest, s =>
    if (acceptedDenom env.sessionDenom v).isNone then greedyLoop rest s
    else do
      let s ← (if s.nValueLeft - v.toInt ≥ 0 then addOutput env v s else .ok s)
      if s.nValueLeft = 0 then .ok s else greedyLoop rest s

/-- The backup: outputs of the values of the coins. -/
def backupLoop : List COutput → Making → Except Stop Making
  | [], s => .ok s
  | out :: rest, s => do
    let s ← addOutput env out.nValue s
    if s.nValueLeft = 0 then .ok s else backupLoop rest s

/-- What `SendZerosendDenominate` is called with. -/
structure Submission where
  vCoins : List CTxIn
  vOut : List CTxOut
  nValueIn : Int

/-- What is returned, with the locks at that time, or at the call of `SendZerosendDenominate`. -/
structure Prepared where
  strError : String
  setLockedCoins : StdSet COutPoint
  submitted : Option Submission

/-- `GetDenominations(vOut) == sessionDenom` -/
def matchesSession (vOut : List CTxOut) : Bool :=
  decide ((getDenominations vOut : Int) = env.sessionDenom.toInt)

/-- The part of `PrepareZerosendDenominate` behind the selection. -/
def denominate (coins : List COutput) (nValueIn : Int) : Except Stop Prepared := do
  let vCoins := coins.map selectedIn
  let nTotalValue := getTotalValue env vCoins
  -- `LockCoin`, for all of them
  let locked := vCoins.foldl (fun set v => set.insert v.prevout) env.setLockedCoins
  let s ← greedyLoop env (vDenoms env).reverse ⟨[], nTotalValue, 0⟩
  let s ← (
    if decide (s.vOut.length > 40) || !matchesSession env s.vOut || decide (s.nValueLeft ≠ 0) then
      backupLoop env coins ⟨[], nTotalValue, s.reserved⟩
    else .ok s)
  if !matchesSession env s.vOut then
    return ⟨"Error: can't make current denominated outputs.", locked, none⟩
  else if s.nValueLeft ≠ 0 then
    return ⟨"Error: change left-over in pool. Must use denominations only", locked, none⟩
  else return ⟨"", locked, some ⟨vCoins, env.shuffleOut.shuffle s.vOut, nValueIn⟩⟩

/-- The pool has entries of ours that are pending. -/
def DenominateEnv.pending : Bool :=
  env.state != .ERROR && env.state != .SUCCESS && decide (env.myTransactionCount > 0)

def DenominateEnv.fails (strError : String) : Prepared := ⟨strError, env.setLockedCoins, none⟩

variable (minRounds maxRounds : Int)

/-- `SelectCoinsByDenominations(sessionDenom, 0.1*COIN, ZEROSEND_POOL_MAX, ...)` -/
def selected : Bool × Selecting :=
  selectCoinsByDenominations env env.sessionDenom 10000000 ZEROSEND_POOL_MAX.toInt minRounds
    maxRounds

/-- `PrepareZerosendDenominate` -/
def prepareZerosendDenominate : Except Stop Prepared :=
  if env.isLocked then .ok (env.fails "Error: Wallet locked, unable to create transaction!")
  else if env.pending then
    .ok (env.fails "Error: You already have pending entries in the Zerosend pool")
  else if minRounds ≥ 0 then
    let (found, s) := selected env minRounds maxRounds
    if !found then .ok (env.fails "Insufficient funds") else denominate env s.coins s.nValueRet
  else denominate env [] 0

/-! ## §4. Denominations. -/

theorem toInt_eq_toNat {nDenom : Int32} (h : 0 ≤ nDenom.toInt) :
    nDenom.toInt = nDenom.toBitVec.toNat := by
  have hlt := nDenom.toBitVec.isLt
  change 0 ≤ nDenom.toBitVec.toInt at h
  change nDenom.toBitVec.toInt = _
  rw [BitVec.toInt_eq_toNat_cond] at h ⊢
  split at h
  next hsmall => exact if_pos hsmall
  next => omega

theorem denominations_nodup : zeroSendDenominations.Nodup := by decide

theorem acceptedDenom_eq_some {nDenom : Int32} {v : Int64} {k : Nat}
    (h : acceptedDenom nDenom v = some k) :
    zeroSendDenominations[k]? = some v ∧ hasDenom nDenom k = true := by
  obtain ⟨⟨d, k'⟩, hfind, rfl⟩ := Option.map_eq_some_iff.mp h
  have hmem := mem_of_find?_eq_some hfind
  have hcond := List.find?_some hfind
  simp only [Bool.and_eq_true, beq_iff_eq] at hcond
  rw [mk_mem_zipIdx_iff_getElem?] at hmem
  exact ⟨by rw [hmem, hcond.2], hcond.1⟩

/-- Values that are denominations of the session, and all of those. -/
structure Covers (nDenom : Int32) (values : List Int64) : Prop where
  own : ∀ v ∈ values, ∃ k, zeroSendDenominations[k]? = some v ∧ hasDenom nDenom k = true
  all : ∀ k < zeroSendDenominations.length, hasDenom nDenom k = true →
    ∃ v ∈ values, zeroSendDenominations[k]? = some v

theorem sum_bits : ∀ n < 128, (zeroSendDenominations.zipIdx.map fun d =>
    if n.testBit d.2 then 2 ^ d.2 else 0).sum = n := by decide +kernel

/-- **Such values have the denominations of the session**, unless it has another bit. -/
theorem getDenominations_of_covers {nDenom : Int32} {vout : List CTxOut}
    (hcovers : Covers nDenom (vout.map (·.nValue))) (hlow : 0 ≤ nDenom.toInt)
    (hhigh : nDenom.toInt < 128) : (getDenominations vout : Int) = nDenom.toInt := by
  have hnat := toInt_eq_toNat hlow
  have hall : (vout.all fun out => zeroSendDenominations.contains out.nValue) = true := by
    rw [all_eq_true]
    intro out hout
    obtain ⟨k, hk, _⟩ := hcovers.own _ (mem_map_of_mem hout)
    exact contains_iff_mem.mpr (mem_of_getElem? hk)
  rw [getDenominations, if_pos hall, hnat]
  refine congrArg Nat.cast (Eq.trans (congrArg List.sum ?_) (sum_bits _ (by omega)))
  refine map_congr_left fun d hd => ?_
  obtain ⟨v, k⟩ := d
  have hk : zeroSendDenominations[k]? = some v := mk_mem_zipIdx_iff_getElem?.mp hd
  have hlt : k < zeroSendDenominations.length := (List.getElem?_eq_some_iff.mp hk).1
  have hiff : (vout.any fun out => out.nValue == v) = nDenom.toBitVec.toNat.testBit k := by
    rw [Bool.eq_iff_iff, any_eq_true]
    constructor
    · rintro ⟨out, hout, hv⟩
      obtain ⟨k', hk', hbit⟩ := hcovers.own _ (mem_map_of_mem hout)
      rw [beq_iff_eq.mp hv, ← hk] at hk'
      obtain rfl := (List.getElem?_inj hlt denominations_nodup).mp hk'.symm
      exact hbit
    · intro hbit
      obtain ⟨v', hv', hk'⟩ := hcovers.all k hlt hbit
      obtain ⟨out, hout, rfl⟩ := mem_map.mp hv'
      exact ⟨out, hout, beq_iff_eq.mpr (Option.some.inj (hk'.symm.trans hk))⟩
  simp only [hiff]

theorem getDenominations_lt (vout : List CTxOut) : getDenominations vout < 128 := by
  unfold getDenominations
  split
  next =>
    have hsum : (zeroSendDenominations.zipIdx.map fun d => 2 ^ d.2).sum < 128 := by decide
    refine Nat.lt_of_le_of_lt (sum_le_sum fun d _ => ?_) hsum
    split
    next => exact Nat.le_refl _
    next => exact Nat.zero_le _
  next => exact Nat.two_pow_pos 7

theorem getDenominations_perm {vout vout' : List CTxOut} (h : vout.Perm vout') :
    getDenominations vout = getDenominations vout' := by
  simp only [getDenominations, h.all_eq, h.any_eq]

/-! ## §5. The selection. -/

def worth (coins : List COutput) : Int := (coins.map fun out => out.nValue.toInt).sum

/-- The coins so far are among those of the loop, of denominations of the session, and one of each
that is flagged. -/
structure Chosen (nDenom : Int32) (vCoins : List COutput) (s : Selecting) : Prop where
  mem : ∀ out ∈ s.coins, out ∈ vCoins
  own : ∀ out ∈ s.coins,
    ∃ k, zeroSendDenominations[k]? = some out.nValue ∧ hasDenom nDenom k = true
  sum : s.nValueRet = worth s.coins
  flags : s.found.length = zeroSendDenominations.length
  found : ∀ k, s.found[k]? = some true → hasDenom nDenom k = true →
    ∃ out ∈ s.coins, zeroSendDenominations[k]? = some out.nValue

variable {env} {nDenom : Int32} {vCoins : List COutput} {s : Selecting}

theorem chosen_start (nValueMax : Int) :
    Chosen nDenom vCoins ⟨[], 0, nValueMax,
      (List.range zeroSendDenominations.length).map fun k => !hasDenom nDenom k⟩ where
  mem := nofun
  own := nofun
  sum := rfl
  flags := by rw [length_map, length_range]
  found := by
    intro k hk hbit
    rw [List.getElem?_map, Option.map_eq_some_iff] at hk
    obtain ⟨k', hk', hoff⟩ := hk
    obtain ⟨hlt, rfl⟩ := List.getElem?_eq_some_iff.mp hk'
    rw [getElem_range, hbit] at hoff
    cases hoff

theorem Chosen.take (h : Chosen nDenom vCoins s) {out : COutput} (hout : out ∈ vCoins)
    (fulfilled : Bool) : Chosen nDenom vCoins (s.take nDenom out fulfilled) := by
  unfold Selecting.take
  split
  next => exact h
  next k hk =>
    obtain ⟨hvalue, hbit⟩ := acceptedDenom_eq_some hk
    refine ⟨?_, ?_, ?_, ?_, ?_⟩
    · intro other hother
      obtain hother | hother := mem_append.mp hother
      · exact h.mem other hother
      · rwa [mem_singleton.mp hother]
    · exact forall_mem_append.mpr ⟨h.own, forall_mem_singleton.mpr ⟨k, hvalue, hbit⟩⟩
    · simp [h.sum, worth]
    · split
      next => exact h.flags
      next => rw [length_set, h.flags]
    · intro k' hk' hbit'
      have before : s.found[k']? = some true →
          ∃ o ∈ s.coins ++ [out], zeroSendDenominations[k']? = some o.nValue := fun hflag =>
        let ⟨o, ho, hv⟩ := h.found k' hflag hbit'
        ⟨o, mem_append_left _ ho, hv⟩
      split at hk'
      next => exact before hk'
      next =>
        obtain rfl | hne := eq_or_ne k k'
        · exact ⟨out, mem_append_right _ mem_cons_self, hvalue⟩
        · rw [List.getElem?_set_ne hne] at hk'
          exact before hk'

theorem Chosen.setMax (h : Chosen nDenom vCoins s) (nValueMax : Int) :
    Chosen nDenom vCoins { s with nValueMax := nValueMax } :=
  ⟨h.mem, h.own, h.sum, h.flags, h.found⟩

/-- What a selection that returns true has. -/
structure Selected (nDenom : Int32) (vCoins : List COutput) (nValueMin : Int) (s : Selecting) : Prop
    extends Chosen nDenom vCoins s where
  enough : nValueMin ≤ s.nValueRet
  fulfilled : ∀ flag ∈ s.found, flag = true

theorem selectLoop_chosen {nValueMin minRounds maxRounds : Int} {size : Nat}
    {rest : List COutput} {s' : Selecting} (hrest : ∀ out ∈ rest, out ∈ vCoins)
    (h : Chosen nDenom vCoins s)
    (hrun : selectLoop env nDenom nValueMin minRounds maxRounds size rest s = (true, s')) :
    Selected nDenom vCoins nValueMin s' := by
  induction rest generalizing s with
  | nil =>
    obtain ⟨hend, rfl⟩ := Prod.mk.inj hrun
    simp only [Bool.and_eq_true, decide_eq_true_eq, all_eq_true, id_eq] at hend
    exact ⟨h, hend.1, hend.2⟩
  | cons out rest ih =>
    have hout := hrest out mem_cons_self
    have hrest := fun o ho => hrest o (mem_cons_of_mem _ ho)
    unfold selectLoop at hrun
    split at hrun
    next =>
      split at hrun
      next => exact ih hrest h hrun
      split at hrun
      next => exact ih hrest h hrun
      split at hrun
      next hall =>
        split at hrun
        next henough =>
          dsimp only at hrun
          split at hrun
          next =>
            cases hrun
            simp only [all_eq_true, id_eq] at hall
            exact ⟨h.setMax _, henough, hall⟩
          next => exact ih hrest ((h.setMax _).take hout true) hrun
        next => exact ih hrest (h.take hout true) hrun
      next => exact ih hrest (h.take hout false) hrun
    next => exact ih hrest h hrun

variable (env) in
/-- **What is selected** are available coins with each denomination of the session, and no other. -/
structure SelectsAll (coins : List COutput) : Prop where
  available : ∀ out ∈ coins, out ∈ availableCoins env
  covers : Covers env.sessionDenom (coins.map (·.nValue))
  nonempty : coins ≠ []

theorem selected_all {minRounds maxRounds : Int}
    (h : selected env minRounds maxRounds = (true, s)) : SelectsAll env s.coins := by
  have hs := selectLoop_chosen (fun _ => id) (chosen_start _) h
  refine ⟨fun out hout => ?_, ⟨?_, ?_⟩, ?_⟩
  · exact (env.shuffleCoins.perm _).mem_iff.mp (hs.mem out hout)
  · intro v hv
    obtain ⟨out, hout, rfl⟩ := mem_map.mp hv
    exact hs.own out hout
  · intro k hk hbit
    have hflag : k < s.found.length := hs.flags ▸ hk
    have hfound : s.found[k]? = some true := by
      rw [List.getElem?_eq_getElem hflag, hs.fulfilled _ (getElem_mem hflag)]
    obtain ⟨out, hout, hvalue⟩ := hs.found k hfound hbit
    exact ⟨_, mem_map_of_mem hout, hvalue⟩
  · intro hnil
    have henough := hs.enough
    rw [hs.sum, hnil] at henough
    exact absurd henough (by decide)

/-! ## §6. The outputs. -/

theorem mem_availableCoins {out : COutput} (h : out ∈ availableCoins env) :
    out ∈ env.outputs ∧ out.outPoint ∉ env.setLockedCoins ∧ 0 < out.nValue.toInt := by
  simp only [availableCoins, mem_filter, Bool.and_eq_true, Bool.not_eq_true',
    decide_eq_true_eq] at h
  refine ⟨h.1, fun hlocked => ?_, h.2.2⟩
  rw [Std.ExtTreeSet.mem_iff_contains, h.2.1.2] at hlocked
  cases hlocked

variable {coins : List COutput} {s' : Making} {nValueIn : Int} {r : Prepared}

theorem getTotalValue_eq (h : ∀ out ∈ coins, out ∈ env.outputs) :
    getTotalValue env (coins.map selectedIn) = worth coins := by
  unfold getTotalValue worth
  rw [map_map]
  refine congrArg List.sum (map_congr_left fun out hout => ?_)
  have hindex : (UInt32.ofNat out.i).toNat = out.i :=
    UInt32.toNat_ofNat_of_lt' (Nat.lt_trans (env.index out (h out hout)) (by decide))
  show (match env.mapWallet[out.tx.hash]? with
    | none => (0 : Int)
    | some wtx =>
      match wtx.vout[(UInt32.ofNat out.i).toNat]? with
      | none => 0
      | some o => o.nValue.toInt) = _
  rw [env.inWallet out (h out hout), hindex]
  dsimp only
  rw [List.getElem?_eq_getElem out.inside]
  rfl

theorem worth_pos (hpos : ∀ out ∈ coins, 0 < out.nValue.toInt) (hne : coins ≠ []) :
    0 < worth coins := by
  induction coins with
  | nil => exact absurd rfl hne
  | cons out rest ih =>
    have hout := hpos out mem_cons_self
    have hrest : 0 ≤ worth rest := by
      obtain rfl | hne := eq_or_ne rest []
      · exact Int.le_refl _
      · exact Int.le_of_lt (ih (fun o ho => hpos o (mem_cons_of_mem _ ho)) hne)
    show 0 < out.nValue.toInt + worth rest
    omega

theorem addOutput_eq {nValue : Int64} {s : Making} (h : addOutput env nValue s = .ok s') :
    s'.vOut.map (·.nValue) = s.vOut.map (·.nValue) ++ [nValue] ∧
      s'.nValueLeft = s.nValueLeft - nValue.toInt := by
  simp only [addOutput, bind_eq_ok, pure_eq_ok] at h
  obtain ⟨script, _, rfl⟩ := h
  exact ⟨by simp [newTxOut], rfl⟩

theorem valueOut_eq (vout : List CTxOut) :
    valueOut vout = ((vout.map (·.nValue)).map Int64.toInt).sum := by
  rw [map_map]
  rfl

/-- `nTotalValue`, as long as nothing is lost. -/
def Making.total (s : Making) : Int := valueOut s.vOut + s.nValueLeft

theorem addOutput_total {nValue : Int64} {s : Making} (h : addOutput env nValue s = .ok s') :
    s'.total = s.total := by
  obtain ⟨hvalues, hleft⟩ := addOutput_eq h
  unfold Making.total
  rw [valueOut_eq, valueOut_eq, hvalues, hleft, map_append, sum_append]
  simp only [map_cons, map_nil, sum_cons, sum_nil]
  omega

/-- **The loop through the denominations** loses nothing. -/
theorem greedyLoop_total {denoms : List Int64} {s : Making} (h : greedyLoop env denoms s = .ok s') :
    s'.total = s.total := by
  induction denoms generalizing s with
  | nil => rw [Except.ok.inj h]
  | cons v rest ih =>
    unfold greedyLoop at h
    split at h
    next => exact ih h
    next =>
      obtain ⟨t, ht, h⟩ := bind_eq_ok.mp h
      have hstep : t.total = s.total := by
        split at ht
        next => exact addOutput_total ht
        next => rw [Except.ok.inj ht]
      split at h
      next => rw [← Except.ok.inj h, hstep]
      next => rw [ih h, hstep]

/-- **The backup** makes the values of the coins again. -/
theorem backupLoop_values {s : Making} (hpos : ∀ out ∈ coins, 0 < out.nValue.toInt)
    (hleft : s.nValueLeft = worth coins) (h : backupLoop env coins s = .ok s') :
    s'.vOut.map (·.nValue) = s.vOut.map (·.nValue) ++ coins.map (·.nValue) ∧
      s'.nValueLeft = 0 := by
  induction coins generalizing s with
  | nil =>
    cases h
    exact ⟨by simp, hleft⟩
  | cons out rest ih =>
    have hrestPos := fun o ho => hpos o (mem_cons_of_mem out ho)
    obtain ⟨t, ht, h⟩ := bind_eq_ok.mp h
    obtain ⟨hvalues, htleft⟩ := addOutput_eq ht
    have htleft : t.nValueLeft = worth rest := by
      rw [htleft, hleft]
      show out.nValue.toInt + worth rest - out.nValue.toInt = worth rest
      omega
    split at h
    next hzero =>
      cases h
      -- nothing is left, so there is no further coin
      obtain rfl : rest = [] := by
        by_contra hne
        have := worth_pos hrestPos hne
        omega
      exact ⟨hvalues, hzero⟩
    next =>
      obtain ⟨hvalues', hzero⟩ := ih hrestPos htleft h
      refine ⟨?_, hzero⟩
      rw [hvalues', hvalues, append_assoc]
      rfl

/-! ## §7. The call. -/

def lockAll (vCoins : List CTxIn) (set : StdSet COutPoint) : StdSet COutPoint :=
  vCoins.foldl (fun set v => set.insert v.prevout) set

theorem mem_lockAll {vCoins : List CTxIn} {set : StdSet COutPoint} {o : COutPoint} :
    o ∈ lockAll vCoins set ↔ o ∈ set ∨ ∃ v ∈ vCoins, v.prevout = o := by
  induction vCoins generalizing set with
  | nil => simp [lockAll]
  | cons v rest ih =>
    rw [lockAll, foldl_cons, ← lockAll, ih, Std.ExtTreeSet.mem_insert]
    simp [or_assoc, or_left_comm]

theorem denominate_eq (hcoins : ∀ out ∈ coins, out ∈ availableCoins env)
    (h : denominate env coins nValueIn = .ok r) :
    ∃ s : Making, s.total = worth coins ∧
      (¬ (matchesSession env s.vOut = true ∧ s.nValueLeft = 0) →
        s.vOut.map (·.nValue) = coins.map (·.nValue) ∧ s.nValueLeft = 0) ∧
      r = if !matchesSession env s.vOut then
          ⟨"Error: can't make current denominated outputs.",
            lockAll (coins.map selectedIn) env.setLockedCoins, none⟩
        else if s.nValueLeft ≠ 0 then
          ⟨"Error: change left-over in pool. Must use denominations only",
            lockAll (coins.map selectedIn) env.setLockedCoins, none⟩
        else ⟨"", lockAll (coins.map selectedIn) env.setLockedCoins,
          some ⟨coins.map selectedIn, env.shuffleOut.shuffle s.vOut, nValueIn⟩⟩ := by
  have htotal := getTotalValue_eq fun out hout => (mem_availableCoins (hcoins out hout)).1
  have hpos := fun out hout => (mem_availableCoins (hcoins out hout)).2.2
  unfold denominate at h
  obtain ⟨t, ht, h⟩ := bind_eq_ok.mp h
  obtain ⟨s, hs, h⟩ := bind_eq_ok.mp h
  have htTotal : t.total = worth coins := by
    rw [greedyLoop_total ht, ← htotal]
    exact Int.zero_add _
  refine ⟨s, ?_, ?_, ?_⟩
  · split at hs
    next =>
      obtain ⟨hvalues, hleft⟩ := backupLoop_values hpos htotal hs
      unfold Making.total worth
      rw [valueOut_eq, hvalues, hleft, map_append, map_map]
      simp
      rfl
    next => rw [← Except.ok.inj hs, htTotal]
  · intro hbad
    split at hs
    next => exact backupLoop_values hpos htotal hs
    next hgood =>
      cases hs
      simp only [Bool.or_eq_true, not_or, Bool.not_eq_true', Bool.not_eq_false,
        decide_eq_true_eq, not_not] at hgood
      exact absurd ⟨hgood.1.2, hgood.2⟩ hbad
  · split at h
    next hno => rw [if_pos hno, ← pure_eq_ok.mp h]; rfl
    next hyes =>
      rw [if_neg hyes]
      split at h
      next hno => rw [if_pos hno, ← pure_eq_ok.mp h]; rfl
      next hyes => rw [if_neg hyes, ← pure_eq_ok.mp h]; rfl

variable (env) in
/-- **A result that is exact and undoable**: an error leaves the locks as they were, and what is
submitted makes the inputs again, in denominations of the session. -/
structure ExactOrUndone (r : Prepared) : Prop where
  undone : r.strError ≠ "" → r.setLockedCoins = env.setLockedCoins
  exact : r.strError = "" → ∃ sub, r.submitted = some sub ∧
    valueOut sub.vOut = getTotalValue env sub.vCoins ∧
      (getDenominations sub.vOut : Int) = env.sessionDenom.toInt

variable (env) in
/-- The call gets as far as to lock coins that it has selected. -/
def LocksCoins : Prop :=
  env.isLocked = false ∧ env.pending = false ∧ 0 ≤ minRounds ∧
    (selected env minRounds maxRounds).1 = true

theorem exactOrUndone_fails {strError : String} (h : strError ≠ "") :
    ExactOrUndone env (env.fails strError) :=
  ⟨fun _ => rfl, fun h' => absurd h' h⟩

theorem denominate_exact (hcoins : ∀ out ∈ coins, out ∈ availableCoins env)
    (h : denominate env coins nValueIn = .ok r) (hempty : r.strError = "") :
    ∃ sub, r.submitted = some sub ∧ valueOut sub.vOut = getTotalValue env sub.vCoins ∧
      (getDenominations sub.vOut : Int) = env.sessionDenom.toInt := by
  obtain ⟨s, htotal, _, rfl⟩ := denominate_eq hcoins h
  split at hempty
  next => exact ((by decide : "Error: can't make current denominated outputs." ≠ "") hempty).elim
  next hmatch =>
    rw [if_neg hmatch] at *
    split at hempty
    next =>
      exact ((by decide : "Error: change left-over in pool. Must use denominations only" ≠ "")
        hempty).elim
    next hleft =>
      rw [if_neg hleft]
      have hperm := env.shuffleOut.perm s.vOut
      refine ⟨_, rfl, ?_, ?_⟩
      · have hzero : s.nValueLeft = 0 := not_not.mp hleft
        rw [getTotalValue_eq fun out hout => (mem_availableCoins (hcoins out hout)).1, ← htotal,
          Making.total, hzero, Int.add_zero]
        exact valueOut_perm hperm
      · rw [getDenominations_perm hperm]
        simpa [matchesSession] using hmatch

theorem denominate_succeeds (hall : SelectsAll env coins) (hlow : 0 ≤ env.sessionDenom.toInt)
    (hhigh : env.sessionDenom.toInt < 128) (h : denominate env coins nValueIn = .ok r) :
    r.strError = "" := by
  obtain ⟨s, _, hbackup, rfl⟩ := denominate_eq hall.available h
  have hgood : matchesSession env s.vOut = true ∧ s.nValueLeft = 0 := by
    by_contra hbad
    obtain ⟨hvalues, hleft⟩ := hbackup hbad
    refine hbad ⟨decide_eq_true (getDenominations_of_covers ?_ hlow hhigh), hleft⟩
    rw [hvalues]
    exact hall.covers
  rw [hgood.1, if_neg (by decide), if_neg (not_not.mpr hgood.2)]

/-- **For another session it always fails, behind the locks.** -/
theorem denominate_fails (hcoins : ∀ out ∈ coins, out ∈ availableCoins env)
    (hother : ¬ (0 ≤ env.sessionDenom.toInt ∧ env.sessionDenom.toInt < 128))
    (h : denominate env coins nValueIn = .ok r) :
    r.strError = "Error: can't make current denominated outputs." ∧
      r.setLockedCoins = lockAll (coins.map selectedIn) env.setLockedCoins := by
  obtain ⟨s, _, _, rfl⟩ := denominate_eq hcoins h
  have hlt := getDenominations_lt s.vOut
  have hmatch : matchesSession env s.vOut = false := decide_eq_false (by omega)
  rw [hmatch]
  exact ⟨rfl, rfl⟩

theorem lockAll_ne (hall : SelectsAll env coins) :
    lockAll (coins.map selectedIn) env.setLockedCoins ≠ env.setLockedCoins := by
  obtain ⟨out, hout⟩ := exists_mem_of_ne_nil coins hall.nonempty
  have hfree := (mem_availableCoins (hall.available out hout)).2.1
  intro hsame
  apply hfree
  rw [← hsame, mem_lockAll]
  exact .inr ⟨_, mem_map_of_mem hout, rfl⟩

/-- **Denominating is exact and undoable, unless coins are locked for a session with a bit that
stands for no denomination.** -/
theorem prepare_exact_iff {minRounds maxRounds : Int} {r : Prepared}
    (h : prepareZerosendDenominate env minRounds maxRounds = .ok r) :
    ExactOrUndone env r ↔
      (0 ≤ env.sessionDenom.toInt ∧ env.sessionDenom.toInt < 128) ∨
        ¬ LocksCoins env minRounds maxRounds := by
  unfold prepareZerosendDenominate at h
  split at h
  next hlocked =>
    rw [← Except.ok.inj h]
    refine iff_of_true (exactOrUndone_fails (by decide)) (.inr fun hlocks => ?_)
    rw [hlocks.1] at hlocked
    cases hlocked
  next hunlocked =>
    split at h
    next hpending =>
      rw [← Except.ok.inj h]
      refine iff_of_true (exactOrUndone_fails (by decide)) (.inr fun hlocks => ?_)
      rw [hlocks.2.1] at hpending
      cases hpending
    next hnone =>
      split at h
      next hrounds =>
        cases hselected : selected env minRounds maxRounds with
        | mk found s =>
          rw [hselected] at h
          cases found with
          | false =>
            rw [← Except.ok.inj h]
            refine iff_of_true (exactOrUndone_fails (by decide)) (.inr fun hlocks => ?_)
            rw [LocksCoins, hselected] at hlocks
            exact Bool.false_ne_true hlocks.2.2.2
          | true =>
            have hall := selected_all hselected
            have hlocks : LocksCoins env minRounds maxRounds :=
              ⟨Bool.eq_false_of_not_eq_true hunlocked, Bool.eq_false_of_not_eq_true hnone,
                hrounds, by rw [hselected]⟩
            change denominate env s.coins s.nValueRet = .ok r at h
            constructor
            · intro hexact
              by_contra hcond
              obtain ⟨hother, _⟩ := not_or.mp hcond
              obtain ⟨herror, hset⟩ := denominate_fails hall.available hother h
              have hsame := hexact.undone (by rw [herror]; decide)
              exact lockAll_ne hall (hset.symm.trans hsame)
            · rintro (⟨hlow, hhigh⟩ | hnot)
              · have hempty := denominate_succeeds hall hlow hhigh h
                exact ⟨fun hne => absurd hempty hne, denominate_exact hall.available h⟩
              · exact absurd hlocks hnot
      next hrounds =>
        -- no coins are selected, and so none locked
        have hcoins : ∀ out ∈ ([] : List COutput), out ∈ availableCoins env :=
          forall_mem_nil _
        refine iff_of_true ⟨fun _ => ?_, denominate_exact hcoins h⟩ (.inr fun hlocks => ?_)
        · obtain ⟨s, _, _, rfl⟩ := denominate_eq hcoins h
          split
          next => rfl
          next => split <;> rfl
        · exact hrounds hlocks.2.2.1

/-! ## §8. A small wallet. -/

theorem denominate_returns (hkeys : ∀ n, (env.reservedScript n).isSome = true)
    (coins : List COutput) (nValueIn : Int) : ∃ r, denominate env coins nValueIn = .ok r := by
  have hadd : ∀ nValue (s : Making), ∃ s', addOutput env nValue s = .ok s' := by
    intro nValue s
    obtain ⟨script, hscript⟩ := Option.isSome_iff_exists.mp (hkeys s.reserved)
    exact ⟨_, bind_eq_ok.mpr ⟨script, required_eq_ok.mpr hscript, rfl⟩⟩
  have hgreedy : ∀ denoms (s : Making), ∃ s', greedyLoop env denoms s = .ok s' := by
    intro denoms
    induction denoms with
    | nil => exact fun s => ⟨s, rfl⟩
    | cons v rest ih =>
      intro s
      unfold greedyLoop
      split
      next => exact ih s
      next =>
        have hstep : ∃ t,
            (if s.nValueLeft - v.toInt ≥ 0 then addOutput env v s else .ok s) = .ok t := by
          split
          next => exact hadd v s
          next => exact ⟨s, rfl⟩
        obtain ⟨t, ht⟩ := hstep
        rw [ht, ok_bind]
        split
        next => exact ⟨t, rfl⟩
        next => exact ih t
  have hbackup : ∀ coins (s : Making), ∃ s', backupLoop env coins s = .ok s' := by
    intro coins
    induction coins with
    | nil => exact fun s => ⟨s, rfl⟩
    | cons out rest ih =>
      intro s
      obtain ⟨t, ht⟩ := hadd out.nValue s
      rw [backupLoop, ht, ok_bind]
      split
      next => exact ⟨t, rfl⟩
      next => exact ih t
  obtain ⟨t, ht⟩ := hgreedy (vDenoms env).reverse ⟨[], getTotalValue env (coins.map selectedIn), 0⟩
  unfold denominate
  dsimp only
  rw [ht, ok_bind]
  have hmade : ∃ s, (if decide (t.vOut.length > 40) || !matchesSession env t.vOut ||
      decide (t.nValueLeft ≠ 0) then
        backupLoop env coins ⟨[], getTotalValue env (coins.map selectedIn), t.reserved⟩
      else .ok t) = .ok s := by
    split
    next => exact hbackup coins _
    next => exact ⟨t, rfl⟩
  obtain ⟨s, hs⟩ := hmade
  rw [hs, ok_bind]
  split
  next => exact ⟨_, rfl⟩
  next => split <;> exact ⟨_, rfl⟩

def smallCoin : COutput where
  tx := ⟨7, 0, true, [newTxOut 10000100 [0x51]]⟩
  i := 0
  nDepth := 6
  inside := by decide
  range := by decide

def smallWallet (sessionDenom : Int32) : DenominateEnv where
  isLocked := false
  state := .QUEUE
  myTransactionCount := 0
  sessionDenom := sessionDenom
  mapWallet := (∅ : StdMap UInt256 CWalletTx).insert 7 smallCoin.tx
  setLockedCoins := ∅
  outputs := [smallCoin]
  inWallet := by
    intro out hout
    rw [mem_singleton.mp hout]
    exact StdMap.get_insert_self _ _ _
  index := by
    intro out hout
    rw [mem_singleton.mp hout]
    decide
  rounds _ := 0
  reservedScript _ := some [0x52]
  shuffleCoins := ⟨id, List.Perm.refl⟩
  shuffleFront := ⟨id, List.Perm.refl⟩
  shuffleDenoms := ⟨id, List.Perm.refl⟩
  shuffleOut := ⟨id, List.Perm.refl⟩
  rand _ := (0, 0)

theorem smallWallet_returns {sessionDenom : Int32} {s : Selecting}
    (hselected : selected (smallWallet sessionDenom) 0 16 = (true, s)) :
    ∃ r, prepareZerosendDenominate (smallWallet sessionDenom) 0 16 = .ok r ∧
      denominate (smallWallet sessionDenom) s.coins s.nValueRet = .ok r := by
  have hkeys : ∀ n, ((smallWallet sessionDenom).reservedScript n).isSome = true := fun _ => rfl
  obtain ⟨r, hr⟩ := denominate_returns hkeys s.coins s.nValueRet
  refine ⟨r, ?_, hr⟩
  have hcall : prepareZerosendDenominate (smallWallet sessionDenom) 0 16 =
      if !(selected (smallWallet sessionDenom) 0 16).1 then
        .ok ((smallWallet sessionDenom).fails "Insufficient funds")
      else denominate (smallWallet sessionDenom) (selected (smallWallet sessionDenom) 0 16).2.coins
        (selected (smallWallet sessionDenom) 0 16).2.nValueRet := rfl
  rw [hcall, hselected]
  exact hr

theorem smallWallet_selects {sessionDenom : Int32} (h : sessionDenom = 64 ∨ sessionDenom = 192) :
    ∃ s, selected (smallWallet sessionDenom) 0 16 = (true, s) := by
  have hfound : (selected (smallWallet sessionDenom) 0 16).1 = true := by
    obtain rfl | rfl := h <;> decide +kernel
  exact ⟨_, Prod.ext hfound rfl⟩

/-- In a session of this denomination the coin is made again. -/
theorem prepare_exact_small :
    ∃ r, prepareZerosendDenominate (smallWallet 64) 0 16 = .ok r ∧ r.strError = "" ∧
      ExactOrUndone (smallWallet 64) r := by
  obtain ⟨s, hs⟩ := smallWallet_selects (.inl rfl)
  obtain ⟨r, hr, hmade⟩ := smallWallet_returns hs
  exact ⟨r, hr, denominate_succeeds (selected_all hs) (by decide) (by decide) hmade,
    (prepare_exact_iff hr).mpr (.inl ⟨by decide, by decide⟩)⟩

/-- **In a session with one bit more** the call fails, and the coin stays locked. -/
theorem prepare_leaves_locks :
    ∃ r, prepareZerosendDenominate (smallWallet 192) 0 16 = .ok r ∧
      r.strError = "Error: can't make current denominated outputs." ∧
      r.setLockedCoins ≠ (smallWallet 192).setLockedCoins ∧
      ¬ ExactOrUndone (smallWallet 192) r := by
  obtain ⟨s, hs⟩ := smallWallet_selects (.inr rfl)
  obtain ⟨r, hr, hmade⟩ := smallWallet_returns hs
  have hall := selected_all hs
  obtain ⟨herror, hlocks⟩ := denominate_fails hall.available (by decide) hmade
  have hne : r.setLockedCoins ≠ (smallWallet 192).setLockedCoins := by
    rw [hlocks]
    exact lockAll_ne hall
  exact ⟨r, hr, herror, hne, fun h => hne (h.undone (by rw [herror]; decide))⟩

end Fantom.Wallet
