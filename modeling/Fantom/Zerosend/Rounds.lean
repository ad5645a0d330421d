/-
  Fantom.Zerosend.Rounds — How many rounds of mixing an input has behind it.

  * `rounds_independent_iff` — when the count does not depend on earlier ones.
-/
import Fantom.Lib.DepthLimit
import Fantom.Zerosend.Entries

namespace Fantom.Zerosend

open Core Lib List StdMap Bool Function

/-! ## §1. The count. -/

def isCollateralAmount (nInputAmount : Int64) : Bool :=
  nInputAmount != 0 && nInputAmount % ZEROSEND_COLLATERAL == 0 &&
    nInputAmount < ZEROSEND_COLLATERAL * 5 && nInputAmount > ZEROSEND_COLLATERAL

def isDenominatedAmount (nInputAmount : Int64) : Bool :=
  zeroSendDenominations.contains nInputAmount

/-- The transactions of the wallet, and which outputs are its own.  A transaction names those that
it spends by their hashes, so it comes after them: `rank` counts them in that order. -/
structure WalletTxs where
  mapWallet : StdMap UInt256 CTransaction
  /-- `IsMine(txout)` -/
  isMineOut : CTxOut → Bool
  rank : UInt256 → Nat
  rank_lt : ∀ (hash : UInt256) (wtx : CTransaction), mapWallet[hash]? = some wtx →
    ∀ txin ∈ wtx.vin, rank txin.prevout.hash < rank hash

namespace WalletTxs

variable (w : WalletTxs)

variable (prevout : COutPoint)

/-- The output that is spent, if the wallet has it. -/
def spentOut : Option CTxOut :=
  match w.mapWallet[prevout.hash]? with
  | none => none
  | some prev => prev.vout[prevout.n.toNat]?

/-- `IsMine(txin)` -/
def isMine (txin : CTxIn) : Bool := (w.spentOut txin.prevout).any w.isMineOut

/-- `IsDenominated(txin)` -/
def isDenominated (txin : CTxIn) : Bool :=
  (w.spentOut txin.prevout).any fun out => isDenominatedAmount out.nValue

/-- `mDenomWtxes`: the `nRounds` of the outputs of each copy. -/
abbrev Memo := StdMap UInt256 (List Int)

variable (memo : Memo)

/-- The copy of a transaction, and what it has for the output if that is not the initial value. -/
def remembered (wtx : CTransaction) (prevout : COutPoint) : Except Abort (Option Int × Memo) :=
  match memo[prevout.hash]? with
  -- not known yet, let's add it
  | none => .ok (none, memo.insert prevout.hash (wtx.vout.map fun _ => -10))
  | some vRounds =>
    match vRounds[prevout.n.toNat]? with
    | none => .error .dangling
    -- found and it's not an initial value, just return it
    | some nRounds => .ok (if nRounds ≠ -10 then some nRounds else none, memo)

/-- `mDenomWtxes[hash].vout[nout].nRounds = nRounds` -/
def setRounds (prevout : COutPoint) (nRounds : Int) : Memo :=
  memo.insert prevout.hash ((memo[prevout.hash]?.getD []).set prevout.n.toNat nRounds)

/-- The results that do not depend on the inputs. -/
def leafRounds (wtx : CTransaction) (out : CTxOut) : Option Int :=
  if isCollateralAmount out.nValue then some (-3)
  else if !isDenominatedAmount out.nValue then some (-2)
  -- this one is denominated but there is another non-denominated output found in the same tx
  else if !(wtx.vout.all fun out => isDenominatedAmount out.nValue) then some 0
  else none

/-- One turn of the loop over the inputs: the shortest chain so far, and whether there is one. -/
def lookUp (rounds : Memo → COutPoint → Except Abort (Int × Memo))
    (st : Int × Bool × Memo) (in2 : CTxIn) : Except Abort (Int × Bool × Memo) :=
  if w.isMine in2 then do
    let (n, memo) ← rounds st.2.2 in2.prevout
    -- denom found, find the shortest chain or initially assign nShortest with the first found value
    if n ≥ 0 ∧ (n < st.1 ∨ st.1 = -10) then .ok (n, true, memo)
    else .ok (st.1, st.2.1, memo)
  else .ok st

/-- `GetInputZerosendRounds` at the depth `17 - left`; `cut` is what comes at the depth 17. -/
def roundsWith (cut : Except Abort Int) : Nat → Memo → COutPoint → Except Abort (Int × Memo)
  | 0, memo, _ => do
    let rounds ← cut
    .ok (rounds, memo)
  | left + 1, memo, prevout =>
    match w.mapWallet[prevout.hash]? with
    -- `rounds - 1`
    | none => .ok (17 - (left + 1 : Nat) - 1, memo)
    | some wtx => do
      let (known, memo) ← remembered memo wtx prevout
      match known with
      | some nRounds => .ok (nRounds, memo)
      | none =>
        match wtx.vout[prevout.n.toNat]? with
        -- the result -4 is written to the output that is not there
        | none => .error .dangling
        | some out =>
          match leafRounds wtx out with
          | some nRounds => .ok (nRounds, setRounds memo prevout nRounds)
          | none => do
            let (nShortest, fDenomFound, memo) ← wtx.vin.foldlM
              (w.lookUp (roundsWith cut left)) (-10, false, setRounds memo prevout (-2))
            let nRounds := if fDenomFound then nShortest + 1 else 0
            .ok (nRounds, setRounds memo prevout nRounds)

/-- `GetInputZerosendRounds(in)` -/
def getInputZerosendRounds (prevout : COutPoint) : Except Abort (Int × Memo) :=
  w.roundsWith (.ok 17) 17 memo prevout

variable (cut : Except Abort Int)

/-- One query after the other, where `cut` is what comes at the depth 17. -/
def queries (memo : Memo) (history : List COutPoint) : Except Abort Memo :=
  history.foldlM (fun memo prevout => do
    let r ← w.roundsWith cut 17 memo prevout
    .ok r.2) memo

def rounds : Except Abort Int :=
  (w.getInputZerosendRounds ∅ prevout).map Prod.fst

/-! ## §2. The inputs as a graph. -/

theorem leafRounds_range {wtx : CTransaction} {out : CTxOut} {n : Int}
    (h : leafRounds wtx out = some n) : -3 ≤ n ∧ n ≤ 0 := by
  unfold leafRounds at h
  split at h
  · cases h
    decide
  · split at h
    · cases h
      decide
    · split at h
      · cases h
        decide
      · cases h

theorem leafRounds_ne {wtx : CTransaction} {out : CTxOut} {n : Int}
    (h : leafRounds wtx out = some n) : n ≠ -10 := by
  have hrange := leafRounds_range h
  omega

/-- The inputs, with the results that do not depend on others, and the own inputs of the others. -/
def dag : Dag COutPoint where
  leaf prevout :=
    match w.mapWallet[prevout.hash]? with
    | none => some (-1)
    | some wtx =>
      match wtx.vout[prevout.n.toNat]? with
      | none => some (-4)
      | some out => leafRounds wtx out
  children prevout :=
    match w.mapWallet[prevout.hash]? with
    | none => []
    | some wtx => (wtx.vin.filter w.isMine).map fun txin => txin.prevout
  rank prevout := w.rank prevout.hash
  rank_lt a b hb := by
    split at hb
    · exact absurd hb not_mem_nil
    · rename_i wtx hwtx
      obtain ⟨txin, htxin, rfl⟩ := mem_map.mp hb
      exact w.rank_lt a.hash wtx hwtx txin (mem_filter.mp htxin).1
  leaf_le a n h := by
    split at h
    · cases h
      decide
    · split at h
      · cases h
        decide
      · exact (leafRounds_range h).2

def HasOut : Prop :=
  ∃ wtx out, w.mapWallet[prevout.hash]? = some wtx ∧ wtx.vout[prevout.n.toNat]? = some out

def valueOf (prevout : COutPoint) : Option Int :=
  ((memo[prevout.hash]?.getD [])[prevout.n.toNat]?).filter (· != -10)

/-- The table of the count has what the table of the recursion has. -/
structure Agrees (memo : Memo) (t : Dag.Table COutPoint) : Prop where
  shape : ∀ (hash : UInt256) (vRounds : List Int), memo[hash]? = some vRounds →
    ∃ wtx, w.mapWallet[hash]? = some wtx ∧ vRounds.length = wtx.vout.length
  value : ∀ prevout, w.HasOut prevout → valueOf memo prevout = t prevout
  other : ∀ prevout, w.mapWallet[prevout.hash]? = none → ∀ v, t prevout = some v → v = -1

variable {w} {memo : Memo} {t : Dag.Table COutPoint} {prevout : COutPoint} {wtx : CTransaction}
  {out : CTxOut}

/-! What `dag` says of an input, by what the wallet has of its transaction. -/

theorem dag_leaf_of_none (hwtx : w.mapWallet[prevout.hash]? = none) :
    w.dag.leaf prevout = some (-1) := by
  show (match w.mapWallet[prevout.hash]? with | none => _ | some wtx => _) = _
  rw [hwtx]

theorem dag_leaf_of_out (hwtx : w.mapWallet[prevout.hash]? = some wtx)
    (hout : wtx.vout[prevout.n.toNat]? = some out) : w.dag.leaf prevout = leafRounds wtx out := by
  show (match w.mapWallet[prevout.hash]? with | none => _ | some wtx => _) = _
  rw [hwtx]
  simp only
  rw [hout]

theorem dag_children_of_none (hwtx : w.mapWallet[prevout.hash]? = none) :
    w.dag.children prevout = [] := by
  show (match w.mapWallet[prevout.hash]? with | none => _ | some wtx => _) = _
  rw [hwtx]

theorem dag_children_of_some (hwtx : w.mapWallet[prevout.hash]? = some wtx) :
    w.dag.children prevout = (wtx.vin.filter w.isMine).map fun txin => txin.prevout := by
  show (match w.mapWallet[prevout.hash]? with | none => _ | some wtx => _) = _
  rw [hwtx]

theorem agrees_empty : w.Agrees ∅ Dag.noAnswers where
  shape _ _ h := by
    rw [get_empty] at h
    cases h
  value _ _ := by
    rw [valueOf, get_empty]
    rfl
  other _ _ _ h := by cases h

theorem ext_outPoint {a b : COutPoint} (hhash : a.hash = b.hash)
    (hn : a.n.toNat = b.n.toNat) : a = b := by
  obtain ⟨ha, na⟩ := a
  obtain ⟨hb, nb⟩ := b
  obtain rfl : ha = hb := hhash
  obtain rfl : na = nb := UInt32.toNat_inj.mp hn
  rfl

/-- **The copy** of a transaction of the wallet. -/
theorem remembered_sim (h : w.Agrees memo t) (hwtx : w.mapWallet[prevout.hash]? = some wtx)
    (hout : wtx.vout[prevout.n.toNat]? = some out) :
    ∃ memo', remembered memo wtx prevout = .ok (t prevout, memo') ∧ w.Agrees memo' t ∧
      ∃ vRounds, memo'[prevout.hash]? = some vRounds := by
  have hvalue := h.value prevout ⟨wtx, out, hwtx, hout⟩
  have hlt := (List.getElem?_eq_some_iff.mp hout).1
  unfold remembered
  cases hmemo : memo[prevout.hash]? with
  | none =>
    -- a new copy has nothing but initial values
    rw [valueOf, hmemo] at hvalue
    refine ⟨_, by rw [← hvalue]; rfl, ⟨?_, ?_, h.other⟩, _, get_insert_self _ _ _⟩
    · intro hash vRounds hv
      rw [get_insert] at hv
      split at hv
      · rename_i hhash
        cases hv
        exact ⟨wtx, hhash ▸ hwtx, length_map _⟩
      · exact h.shape hash vRounds hv
    · intro x hx
      rw [← h.value x hx, valueOf, valueOf, get_insert]
      split
      · rename_i hhash
        rw [← hhash, hmemo, Option.getD_some, Option.getD_none, List.getElem?_map,
          List.getElem?_nil]
        cases wtx.vout[x.n.toNat]? <;> rfl
      · rfl
  | some vRounds =>
    obtain ⟨wtx', hwtx', hlen⟩ := h.shape _ _ hmemo
    obtain rfl := Option.some.inj (hwtx.symm.trans hwtx')
    have hget : vRounds[prevout.n.toNat]? = some vRounds[prevout.n.toNat] :=
      List.getElem?_eq_getElem (by omega)
    rw [valueOf, hmemo, Option.getD_some, hget] at hvalue
    rw [← hvalue]
    simp only [hget]
    refine ⟨memo, ?_, h, vRounds, hmemo⟩
    by_cases hne : vRounds[prevout.n.toNat] = -10
    · rw [hne]
      rfl
    · rw [if_pos hne, Option.filter_some, if_pos (by simpa using hne)]

theorem setRounds_sim (h : w.Agrees memo t) (hout : w.HasOut prevout) {vRounds : List Int}
    (hmemo : memo[prevout.hash]? = some vRounds) {n : Int} (hn : n ≠ -10) :
    w.Agrees (setRounds memo prevout n) (update t prevout (some n)) := by
  obtain ⟨wtx, out, hwtx, hget⟩ := hout
  obtain ⟨wtx', hwtx', hlen⟩ := h.shape _ _ hmemo
  obtain rfl := Option.some.inj (hwtx.symm.trans hwtx')
  have hlt : prevout.n.toNat < vRounds.length := by
    rw [hlen]
    exact (List.getElem?_eq_some_iff.mp hget).1
  refine ⟨?_, ?_, ?_⟩
  · intro hash l hl
    rw [setRounds, get_insert] at hl
    split at hl
    · rename_i hhash
      cases hl
      refine ⟨wtx, hhash ▸ hwtx, ?_⟩
      rw [hmemo, Option.getD_some, length_set, hlen]
    · exact h.shape hash l hl
  · intro x hx
    rw [valueOf, setRounds, get_insert, hmemo, Option.getD_some]
    by_cases hxq : x = prevout
    · subst hxq
      rw [if_pos rfl, Option.getD_some, List.getElem?_set_self hlt, update_self,
        Option.filter_some, if_pos (by simpa using hn)]
    · rw [update_of_ne hxq, ← h.value x hx, valueOf]
      split
      · rename_i hhash
        rw [Option.getD_some, ← hhash, hmemo, Option.getD_some, List.getElem?_set_ne]
        intro heq
        exact hxq (ext_outPoint hhash.symm heq.symm)
      · rfl
  · intro x hx v hv
    have hxq : x ≠ prevout := by
      rintro rfl
      rw [hwtx] at hx
      cases hx
    rw [update_of_ne hxq] at hv
    exact h.other x hx v hv

/-! ## §3. The count is the recursion. -/

def Sim (w : WalletTxs) (x : Except Abort (Int × Memo))
    (y : Except Abort (Int × Dag.Table COutPoint)) : Prop :=
  match y with
  | .ok (n, t) => ∃ memo, x = .ok (n, memo) ∧ w.Agrees memo t
  | .error e => x = .error e

/-- The shortest chain so far, as the loop of the count keeps it. -/
def SimBest (best : Option Int) (nShortest : Int) (fDenomFound : Bool) : Prop :=
  match best with
  | none => nShortest = -10 ∧ fDenomFound = false
  | some m => nShortest = m ∧ 0 ≤ m ∧ fDenomFound = true

theorem hasOut_of_isMine {txin : CTxIn} (h : w.isMine txin = true) : w.HasOut txin.prevout := by
  unfold isMine spentOut at h
  split at h
  · cases h
  · rename_i prev hprev
    cases hout : prev.vout[txin.prevout.n.toNat]? with
    | none =>
      rw [hout] at h
      cases h
    | some out => exact ⟨prev, out, hprev, hout⟩

theorem simBest_better {best : Option Int} {nShortest : Int} {fDenomFound : Bool}
    (h : SimBest best nShortest fDenomFound) (n : Int) :
    if n ≥ 0 ∧ (n < nShortest ∨ nShortest = -10) then SimBest (Dag.better best n) n true
    else SimBest (Dag.better best n) nShortest fDenomFound := by
  cases best with
  | none =>
    obtain ⟨rfl, rfl⟩ := h
    by_cases hn : 0 ≤ n
    · rw [if_pos ⟨hn, .inr rfl⟩, Dag.better, if_pos hn]
      exact ⟨rfl, hn, rfl⟩
    · rw [if_neg (fun hand => hn hand.1), Dag.better, if_neg hn]
      exact ⟨rfl, rfl⟩
  | some m =>
    obtain ⟨rfl, hm, rfl⟩ := h
    by_cases hn : 0 ≤ n ∧ n < nShortest
    · rw [if_pos ⟨hn.1, .inl hn.2⟩, Dag.better, if_pos hn]
      exact ⟨rfl, hn.1, rfl⟩
    · have hne : ¬ (n ≥ 0 ∧ (n < nShortest ∨ nShortest = -10)) := by omega
      rw [if_neg hne, Dag.better, if_neg hn]
      exact ⟨rfl, hm, rfl⟩

theorem lookUp_sim {rounds : Memo → COutPoint → Except Abort (Int × Memo)}
    {run : Dag.Table COutPoint → COutPoint → Except Abort (Int × Dag.Table COutPoint)}
    (hsim : ∀ (memo : Memo) (t : Dag.Table COutPoint) (prevout : COutPoint), w.Agrees memo t →
      w.HasOut prevout → w.Sim (rounds memo prevout) (run t prevout)) (vin : List CTxIn) :
    ∀ {memo : Memo} {t : Dag.Table COutPoint} {best : Option Int} {nShortest : Int}
      {fDenomFound : Bool}, w.Agrees memo t → SimBest best nShortest fDenomFound →
      match ((vin.filter w.isMine).map fun txin => txin.prevout).foldlM (Dag.visit run)
        (best, t) with
      | .ok (best', t') => ∃ nShortest' fDenomFound' memo',
          vin.foldlM (w.lookUp rounds) (nShortest, fDenomFound, memo) =
            .ok (nShortest', fDenomFound', memo') ∧ w.Agrees memo' t' ∧
              SimBest best' nShortest' fDenomFound'
      | .error e => vin.foldlM (w.lookUp rounds) (nShortest, fDenomFound, memo) = .error e := by
  induction vin with
  | nil => exact fun h hbest => ⟨_, _, _, rfl, h, hbest⟩
  | cons txin vin ih =>
    intro memo t best nShortest fDenomFound h hbest
    by_cases hmine : w.isMine txin = true
    · have hone := hsim memo t txin.prevout h (hasOut_of_isMine hmine)
      rw [filter_cons_of_pos hmine, map_cons, foldlM_cons, foldlM_cons,
        Dag.visit, lookUp, if_pos hmine]
      cases hrun : run t txin.prevout with
      | error e =>
        rw [hrun] at hone
        have hone' : rounds memo txin.prevout = .error e := hone
        rw [hone']
        rfl
      | ok v =>
        obtain ⟨n, t'⟩ := v
        rw [hrun] at hone
        obtain ⟨memo', hone', h'⟩ := hone
        have hbest' := simBest_better hbest n
        simp only [hone', ok_bind]
        split at hbest'
        · rename_i hn
          rw [if_pos hn]
          exact ih h' hbest'
        · rename_i hn
          rw [if_neg hn]
          exact ih h' hbest'
    · rw [filter_cons_of_neg hmine, foldlM_cons, lookUp, if_neg hmine]
      exact ih h hbest

/-- **The count** is the recursion over the graph, for an output that the wallet has. -/
theorem roundsWith_sim (left : Nat) : ∀ (memo : Memo)
    (t : Dag.Table COutPoint) (prevout : COutPoint), w.Agrees memo t → w.HasOut prevout →
    w.Sim (w.roundsWith cut left memo prevout) (w.dag.run cut left t prevout) := by
  induction left with
  | zero =>
    intro memo t prevout h _
    rw [roundsWith, Dag.run]
    cases cut with
    | error e => rfl
    | ok n => exact ⟨memo, rfl, h⟩
  | succ left ih =>
    intro memo t prevout h hout
    obtain ⟨wtx, out, hwtx, hget⟩ := hout
    obtain ⟨memo₁, hrecall, h₁, vRounds, hvRounds⟩ := remembered_sim h hwtx hget
    have hleaf := dag_leaf_of_out hwtx hget
    have hchildren := dag_children_of_some hwtx
    rw [roundsWith, hwtx]
    simp only
    rw [hrecall, ok_bind, Dag.run]
    cases hknown : t prevout with
    | some n => exact ⟨memo₁, rfl, h₁⟩
    | none =>
      simp only
      rw [hget, hleaf]
      simp only
      cases hrounds : leafRounds wtx out with
      | some n =>
        exact ⟨_, rfl, setRounds_sim h₁ ⟨wtx, out, hwtx, hget⟩ hvRounds
          (leafRounds_ne hrounds)⟩
      | none =>
        simp only
        rw [hchildren]
        have hmark := setRounds_sim (n := -2) h₁ ⟨wtx, out, hwtx, hget⟩ hvRounds (by decide)
        have hloop := lookUp_sim ih wtx.vin hmark
          (show SimBest none (-10) false from ⟨rfl, rfl⟩)
        cases hfold : ((wtx.vin.filter w.isMine).map fun txin => txin.prevout).foldlM
            (Dag.visit (w.dag.run cut left))
            (none, update t prevout (some (-2))) with
        | error e =>
          rw [hfold] at hloop
          simp only at hloop
          rw [hloop]
          rfl
        | ok v =>
          obtain ⟨best, t₂⟩ := v
          rw [hfold] at hloop
          obtain ⟨nShortest, fDenomFound, memo₂, hloop, h₂, hbest⟩ := hloop
          simp only [hloop, ok_bind]
          -- the mark is still there
          have hkeeps : t₂ prevout = some (-2) := by
            have hgrows : w.dag.Grows (fun _ => True) (w.dag.rank prevout)
                (update t prevout (some (-2))) t₂ := by
              refine Dag.loop_grows (fun b hb t n t' hn => ?_) hfold
              rw [← hchildren] at hb
              exact (Dag.run_grows (fun _ _ _ _ _ => trivial) left trivial hn).1.mono
                (w.dag.rank_lt prevout b hb)
            exact hgrows.keeps prevout (-2) (update_self ..)
          obtain ⟨vRounds₂, hvRounds₂⟩ : ∃ v, memo₂[prevout.hash]? = some v := by
            have hvalue := h₂.value prevout ⟨wtx, out, hwtx, hget⟩
            rw [hkeeps, valueOf] at hvalue
            cases hnone : memo₂[prevout.hash]? with
            | some v => exact ⟨v, rfl⟩
            | none =>
              rw [hnone] at hvalue
              cases hvalue
          have hnext : (if fDenomFound = true then nShortest + 1 else 0) =
              Dag.next best ∧ Dag.next best ≠ -10 := by
            cases best with
            | none =>
              obtain ⟨-, rfl⟩ := hbest
              exact ⟨rfl, by decide⟩
            | some m =>
              obtain ⟨rfl, hm, rfl⟩ := hbest
              refine ⟨rfl, ?_⟩
              show nShortest + 1 ≠ -10
              omega
          rw [hnext.1]
          exact ⟨_, rfl, setRounds_sim h₂ ⟨wtx, out, hwtx, hget⟩ hvRounds₂ hnext.2⟩

/-! ## §4. Queries. -/

variable (w) in
/-- The output is there, if the wallet has its transaction. -/
def InRange (prevout : COutPoint) : Prop :=
  ∀ wtx, w.mapWallet[prevout.hash]? = some wtx → prevout.n.toNat < wtx.vout.length

variable (w) in
/-- The own inputs of the transactions in `Q` are in `Q`, too. -/
def OwnInputsIn (Q : COutPoint → Prop) : Prop :=
  ∀ prevout, Q prevout → ∀ wtx, w.mapWallet[prevout.hash]? = some wtx →
    ∀ txin ∈ wtx.vin, w.isMine txin = true → Q txin.prevout

variable (w) in
def ownDenominated (wtx : CTransaction) : List COutPoint :=
  (wtx.vin.filter fun txin => w.isMine txin && w.isDenominated txin).map fun txin => txin.prevout

/-- One more than the minimum, or 0 if there is none. -/
def nextRounds (rs : List Int) : Int :=
  match rs.min? with
  | none => 0
  | some n => n + 1

variable (w) in
/-- For a transaction with denominated outputs only, the result is one more than the minimum over
the own denominated inputs, and not more than the depth limit. -/
def ShortestPlusOne (prevout : COutPoint) (r : Int) : Prop :=
  ∀ wtx, w.mapWallet[prevout.hash]? = some wtx →
    (∀ out ∈ wtx.vout, isDenominatedAmount out.nValue = true) →
      ∃ rs, (w.ownDenominated wtx).mapM w.rounds = .ok rs ∧ r = min 17 (nextRounds rs)

variable (w) in
/-- After any queries in `Q`, a query in `Q` returns what it returns with an empty table, and that
is the right number of rounds. -/
def CountsAgree (Q : COutPoint → Prop) : Prop :=
  ∀ history : List COutPoint, (∀ prevout ∈ history, Q prevout) → ∀ prevout, Q prevout →
    ∃ memo r memo', w.queries (.ok 17) ∅ history = .ok memo ∧
      w.getInputZerosendRounds memo prevout = .ok (r, memo') ∧ w.rounds prevout = .ok r ∧
      w.ShortestPlusOne prevout r

variable (w) in
/-- No query in `Q` comes to the depth 17, after any others. -/
def NeverCut (Q : COutPoint → Prop) : Prop :=
  ∀ history : List COutPoint, (∀ prevout ∈ history, Q prevout) →
    Returns (w.queries (.error .endless) ∅ history) fun _ => True

theorem query_sim (h : w.Agrees memo t) (hrange : w.InRange prevout) :
    w.Sim (w.roundsWith cut 17 memo prevout) (w.dag.run cut 17 t prevout) := by
  cases hwtx : w.mapWallet[prevout.hash]? with
  | some wtx =>
    have hlt := hrange wtx hwtx
    exact roundsWith_sim cut 17 memo t prevout h
      ⟨wtx, wtx.vout[prevout.n.toNat], hwtx, List.getElem?_eq_getElem hlt⟩
  | none =>
    have hconcrete : w.roundsWith cut 17 memo prevout = .ok (-1, memo) := by
      rw [roundsWith, hwtx]
      rfl
    have hleaf := dag_leaf_of_none hwtx
    rw [hconcrete, Dag.run]
    cases ht : t prevout with
    | some n =>
      obtain rfl := h.other prevout hwtx n ht
      exact ⟨memo, rfl, h⟩
    | none =>
      simp only
      rw [hleaf]
      refine ⟨memo, rfl, h.shape, fun x hx => ?_, fun x hx v hv => ?_⟩
      · rw [update_of_ne, h.value x hx]
        rintro rfl
        obtain ⟨wtx, out, hsome, -⟩ := hx
        rw [hwtx] at hsome
        cases hsome
      · by_cases hxq : x = prevout
        · rw [hxq, update_self] at hv
          exact (Option.some.inj hv).symm
        · rw [update_of_ne hxq] at hv
          exact h.other x hx v hv

theorem queries_sim (history : List COutPoint) :
    ∀ {memo : Memo} {t : Dag.Table COutPoint}, w.Agrees memo t →
      (∀ prevout ∈ history, w.InRange prevout) →
      match w.dag.runs cut 17 t history with
      | .ok t' => ∃ memo', w.queries cut memo history = .ok memo' ∧ w.Agrees memo' t'
      | .error e => w.queries cut memo history = .error e := by
  induction history with
  | nil => exact fun h _ => ⟨_, rfl, h⟩
  | cons prevout history ih =>
    intro memo t h hrange
    have hone := query_sim cut h (hrange prevout mem_cons_self)
    rw [Dag.runs, queries, foldlM_cons, foldlM_cons]
    cases hrun : w.dag.run cut 17 t prevout with
    | error e =>
      rw [hrun] at hone
      have hone' : w.roundsWith cut 17 memo prevout = .error e := hone
      rw [hone']
      rfl
    | ok v =>
      obtain ⟨n, t'⟩ := v
      rw [hrun] at hone
      obtain ⟨memo', hone', h'⟩ := hone
      rw [hone']
      exact ih h' fun x hx => hrange x (mem_cons_of_mem _ hx)

theorem rounds_out_of_range (hwtx : w.mapWallet[prevout.hash]? = some wtx)
    (hout : wtx.vout[prevout.n.toNat]? = none) : w.rounds prevout = .error .dangling := by
  have hrecall : remembered ∅ wtx prevout =
      .ok (none, (∅ : Memo).insert prevout.hash (wtx.vout.map fun _ => -10)) := by
    rw [remembered, get_empty]
  rw [rounds, getInputZerosendRounds, roundsWith, hwtx]
  simp only
  rw [hrecall, ok_bind]
  simp only
  rw [hout]
  rfl

theorem closed_of_ownInputsIn {Q : COutPoint → Prop} (hQ : w.OwnInputsIn Q) : w.dag.Closed Q := by
  intro a ha _ b hb
  cases hwtx : w.mapWallet[a.hash]? with
  | none =>
    rw [dag_children_of_none hwtx] at hb
    exact absurd hb not_mem_nil
  | some wtx =>
    rw [dag_children_of_some hwtx] at hb
    obtain ⟨txin, htxin, rfl⟩ := mem_map.mp hb
    obtain ⟨hin, hmine⟩ := mem_filter.mp htxin
    exact hQ a ha wtx hwtx txin hin hmine

/-! ## §5. Independence. -/

theorem denominated_not_collateral {n : Int64} (h : isDenominatedAmount n = true) :
    isCollateralAmount n = false := by
  have hall : (zeroSendDenominations.all fun d => !isCollateralAmount d) = true := by decide
  have hn := all_eq_true.mp hall n (contains_iff_mem.mp h)
  simpa using hn

theorem leafRounds_eq_none (h : ∀ out ∈ wtx.vout, isDenominatedAmount out.nValue = true)
    (hout : out ∈ wtx.vout) : leafRounds wtx out = none := by
  have hden := h out hout
  have hall : (wtx.vout.all fun out => isDenominatedAmount out.nValue) = true :=
    all_eq_true.mpr h
  rw [leafRounds, denominated_not_collateral hden, hden, hall]
  rfl

theorem depth_nonneg_iff {txin : CTxIn} (hmine : w.isMine txin = true) :
    0 ≤ w.dag.depth txin.prevout ↔ w.isDenominated txin = true := by
  obtain ⟨wtx, out, hwtx, hout⟩ := hasOut_of_isMine hmine
  have hleaf := dag_leaf_of_out hwtx hout
  have hden : w.isDenominated txin = isDenominatedAmount out.nValue := by
    rw [isDenominated, spentOut, hwtx]
    simp only
    rw [hout]
    rfl
  rw [hden]
  cases hrounds : leafRounds wtx out with
  | none =>
    refine iff_of_true (Dag.depth_nonneg (hleaf.trans hrounds)) ?_
    unfold leafRounds at hrounds
    split at hrounds
    · cases hrounds
    · split at hrounds
      · cases hrounds
      · rename_i hnot
        simpa using hnot
  | some n =>
    rw [Dag.depth_eq, hleaf, hrounds]
    simp only
    unfold leafRounds at hrounds
    split at hrounds
    · rename_i hcoll
      cases hrounds
      refine iff_of_false (by decide) fun hd => ?_
      rw [denominated_not_collateral hd] at hcoll
      exact false_ne_true hcoll
    · split at hrounds
      · rename_i hnot
        cases hrounds
        refine iff_of_false (by decide) fun hd => ?_
        rw [hd] at hnot
        exact false_ne_true hnot
      · split at hrounds
        · rename_i hnot _
          cases hrounds
          exact iff_of_true (by decide) (by simpa using hnot)
        · cases hrounds

/-- **The right number of rounds**, by those of the own denominated inputs. -/
theorem depth_eq_nextRounds (hwtx : w.mapWallet[prevout.hash]? = some wtx)
    (hout : wtx.vout[prevout.n.toNat]? = some out)
    (hall : ∀ out ∈ wtx.vout, isDenominatedAmount out.nValue = true) :
    w.dag.depth prevout = nextRounds ((w.ownDenominated wtx).map w.dag.depth) := by
  have hleaf : w.dag.leaf prevout = none :=
    (dag_leaf_of_out hwtx hout).trans (leafRounds_eq_none hall (mem_of_getElem? hout))
  have hchildren := dag_children_of_some hwtx
  have hfilter : ((wtx.vin.filter w.isMine).map fun txin => txin.prevout).filter
      (fun b => decide (0 ≤ w.dag.depth b)) = w.ownDenominated wtx := by
    rw [filter_map, filter_filter, ownDenominated]
    congr 1
    refine filter_congr fun txin _ => ?_
    by_cases hmine : w.isMine txin = true
    · rw [hmine, Bool.and_true, Bool.true_and]
      exact eq_iff_iff.mpr ((decide_eq_true_iff).trans (depth_nonneg_iff hmine))
    · rw [not_eq_true] at hmine
      rw [hmine, Bool.and_false, Bool.false_and]
  rw [Dag.depth_eq, hleaf]
  simp only
  rw [hchildren, Dag.foldl_better_eq_min?, hfilter]
  rfl

theorem uncut_iff {Q : COutPoint → Prop} (hrange : ∀ prevout, Q prevout → w.InRange prevout) :
    w.NeverCut Q ↔ w.dag.Uncut Q 17 := by
  constructor
  · intro h history hhistory
    have hsim := queries_sim (.error .endless) history agrees_empty
      fun prevout hmem => hrange prevout (hhistory prevout hmem)
    obtain ⟨memo, hmemo, -⟩ := h history hhistory
    cases hruns : w.dag.runs (.error .endless : Except Abort Int) 17 Dag.noAnswers history with
    | error e =>
      rw [hruns] at hsim
      simp only at hsim
      rw [hmemo] at hsim
      cases hsim
    | ok t =>
      obtain ⟨t', -, hok, -⟩ :
          ∃ t', w.dag.runs (.error Abort.endless : Except Abort Int) 17 Dag.noAnswers history =
            .ok t' ∧ w.dag.runs (.error () : Except Unit Int) 17 Dag.noAnswers history = .ok t' ∧
            w.dag.Right t' := Dag.runs_uncut _ ⟨t, hruns⟩
      exact ⟨t', hok⟩
  · intro h history hhistory
    have hsim := queries_sim (.error .endless) history agrees_empty
      fun prevout hmem => hrange prevout (hhistory prevout hmem)
    obtain ⟨t, -, hok, -⟩ :
        ∃ t, w.dag.runs (.error () : Except Unit Int) 17 Dag.noAnswers history = .ok t ∧
          w.dag.runs (.error Abort.endless : Except Abort Int) 17 Dag.noAnswers history = .ok t ∧
          w.dag.Right t := Dag.runs_uncut _ (h history hhistory)
    rw [hok] at hsim
    obtain ⟨memo, hmemo, -⟩ := hsim
    exact ⟨memo, hmemo, trivial⟩

theorem query_answer {Q : COutPoint → Prop} (hQ : w.OwnInputsIn Q)
    (hrange : ∀ prevout, Q prevout → w.InRange prevout) (huncut : w.dag.Uncut Q 17)
    {history : List COutPoint} (hhistory : ∀ prevout ∈ history, Q prevout) (ha : Q prevout) :
    ∃ memo memo', w.queries (.ok 17) ∅ history = .ok memo ∧
      w.getInputZerosendRounds memo prevout = .ok (w.dag.depth prevout, memo') ∧
      w.dag.depth prevout < 17 := by
  obtain ⟨t, t', hruns, hrun, hlt⟩ := huncut.answer (ε := Abort) (closed_of_ownInputsIn hQ)
    (by decide) hhistory ha
  have hsim := queries_sim (.ok 17) history agrees_empty
    fun prevout hmem => hrange prevout (hhistory prevout hmem)
  rw [show w.dag.runs (.ok 17) 17 Dag.noAnswers history = .ok t from hruns] at hsim
  obtain ⟨memo, hmemo, hagrees⟩ := hsim
  have hone := query_sim (.ok 17) hagrees (hrange prevout ha)
  rw [show w.dag.run (.ok 17) 17 t prevout = .ok (w.dag.depth prevout, t') from hrun] at hone
  obtain ⟨memo', hone, -⟩ := hone
  exact ⟨memo, memo', hmemo, hone, hlt⟩

/-- **The count does not depend on earlier ones**, reads and writes only outputs that are there,
and is right, if and only if every query is for an output that is there, and none comes to the
depth 17. -/
theorem rounds_independent_iff (w : WalletTxs) (Q : COutPoint → Prop) (hQ : w.OwnInputsIn Q) :
    w.CountsAgree Q ↔ (∀ prevout, Q prevout → w.InRange prevout) ∧ w.NeverCut Q := by
  constructor
  · intro h
    have hrange : ∀ prevout, Q prevout → w.InRange prevout := by
      intro prevout ha wtx hwtx
      by_contra hge
      obtain ⟨-, r, -, -, -, hrounds, -⟩ := h [] (fun _ hmem => absurd hmem not_mem_nil)
        prevout ha
      rw [rounds_out_of_range hwtx (List.getElem?_eq_none (by omega))] at hrounds
      cases hrounds
    refine ⟨hrange, (uncut_iff hrange).mpr ?_⟩
    rw [← Dag.answers_agree_iff (ε := Abort) (closed_of_ownInputsIn hQ) (by decide)]
    intro history hhistory prevout ha
    obtain ⟨memo, r, memo', hmemo, hquery, hrounds, -⟩ := h history hhistory prevout ha
    have hsim := queries_sim (.ok 17) history agrees_empty
      fun prevout hmem => hrange prevout (hhistory prevout hmem)
    cases hruns : w.dag.runs (.ok 17) 17 Dag.noAnswers history with
    | error e =>
      rw [hruns] at hsim
      simp only at hsim
      rw [hmemo] at hsim
      cases hsim
    | ok t =>
      rw [hruns] at hsim
      obtain ⟨memo₁, hmemo₁, hagrees⟩ := hsim
      obtain rfl := Except.ok.inj (hmemo.symm.trans hmemo₁)
      have hone := query_sim (.ok 17) hagrees (hrange prevout ha)
      have hfirst := query_sim (.ok 17) agrees_empty (hrange prevout ha)
      obtain ⟨n, t', hrun⟩ := w.dag.run_total (.ok 17 : Except Abort Int) 17 t prevout
        (.inl ⟨_, rfl⟩)
      obtain ⟨n₀, t₀, hrun₀⟩ := w.dag.run_total (.ok 17 : Except Abort Int) 17 Dag.noAnswers prevout
        (.inl ⟨_, rfl⟩)
      rw [hrun] at hone
      rw [hrun₀] at hfirst
      obtain ⟨memo₂, hone, -⟩ := hone
      obtain ⟨memo₃, hfirst, -⟩ := hfirst
      -- the query and the first query return the same
      have hn : n = r := (Prod.mk.inj (Except.ok.inj (hone.symm.trans hquery))).1
      have hn₀ : n₀ = r := by
        rw [rounds, getInputZerosendRounds, hfirst] at hrounds
        exact Except.ok.inj hrounds
      refine ⟨t, r, t', rfl, ?_, ?_⟩
      · rw [← hn]
        exact hrun
      · rw [show w.dag.run (.ok ((17 : Nat) : Int)) 17 Dag.noAnswers prevout =
          .ok (n₀, t₀) from hrun₀, ← hn₀]
        rfl
  · rintro ⟨hrange, hnever⟩ history hhistory prevout ha
    have huncut := (uncut_iff hrange).mp hnever
    have hrounds : ∀ prevout, Q prevout → w.rounds prevout = .ok (w.dag.depth prevout) := by
      intro prevout ha
      obtain ⟨memo, memo', hmemo, hquery, -⟩ := query_answer hQ hrange huncut
        (fun _ hmem => absurd hmem not_mem_nil) ha
      cases hmemo
      rw [rounds, hquery]
      rfl
    obtain ⟨memo, memo', hmemo, hquery, hlt⟩ := query_answer hQ hrange huncut hhistory ha
    refine ⟨memo, _, memo', hmemo, hquery, hrounds prevout ha, fun wtx hwtx hall => ?_⟩
    have hout := List.getElem?_eq_getElem (hrange prevout ha wtx hwtx)
    refine ⟨(w.ownDenominated wtx).map w.dag.depth, ?_, ?_⟩
    · have hmem : ∀ x ∈ w.ownDenominated wtx, Q x := by
        intro x hx
        obtain ⟨txin, htxin, rfl⟩ := mem_map.mp hx
        obtain ⟨hin, hand⟩ := mem_filter.mp htxin
        exact hQ prevout ha wtx hwtx txin hin (and_eq_true_iff.mp hand).1
      generalize w.ownDenominated wtx = l at hmem
      induction l with
      | nil => rfl
      | cons x l ih =>
        rw [mapM_cons, hrounds x (hmem x mem_cons_self), ok_bind,
          ih fun y hy => hmem y (mem_cons_of_mem _ hy)]
        rfl
    · rw [← depth_eq_nextRounds hwtx hout hall]
      omega

def chainTx (i : Nat) : CTransaction :=
  { CTransaction.null 0 with
    vin := [{ prevout := ⟨BitVec.ofNat 256 i, 0⟩, scriptSig := [], nSequence := 0, prevPubKey := [] }]
    vout := [⟨COIN + 1000, -10, []⟩] }

theorem chain_lookup {l : List Nat} : ∀ {m : StdMap UInt256 CTransaction} {hash : UInt256}
    {wtx : CTransaction},
    (l.foldl (fun m i => m.insert (BitVec.ofNat 256 (i + 1)) (chainTx i)) m)[hash]? = some wtx →
      m[hash]? = some wtx ∨ ∃ i ∈ l, hash = BitVec.ofNat 256 (i + 1) ∧ wtx = chainTx i := by
  induction l with
  | nil => exact fun h => .inl h
  | cons j l ih =>
    intro m hash wtx h
    rw [foldl_cons] at h
    obtain h | ⟨i, hi, hfound⟩ := ih h
    · rw [get_insert] at h
      split at h
      · rename_i hhash
        exact .inr ⟨j, mem_cons_self, hhash.symm, (Option.some.inj h).symm⟩
      · exact .inl h
    · exact .inr ⟨i, mem_cons_of_mem _ hi, hfound⟩

def chainWallet : WalletTxs where
  mapWallet := (List.range 18).foldl
    (fun m i => m.insert (BitVec.ofNat 256 (i + 1)) (chainTx i)) ∅
  isMineOut _ := true
  rank hash := hash.toNat
  rank_lt hash wtx hwtx txin htxin := by
    obtain h | ⟨i, hi, rfl, rfl⟩ := chain_lookup hwtx
    · rw [get_empty] at h
      cases h
    · obtain rfl := mem_singleton.mp htxin
      have hlt := mem_range.mp hi
      show (BitVec.ofNat 256 i).toNat < (BitVec.ofNat 256 (i + 1)).toNat
      rw [BitVec.toNat_ofNat, BitVec.toNat_ofNat, Nat.mod_eq_of_lt (by omega),
        Nat.mod_eq_of_lt (by omega)]
      exact Nat.lt_succ_self i

/-- The first sixteen transactions of the chain: their outputs are counted right, in any order. -/
theorem rounds_independent_iff_chain :
    chainWallet.CountsAgree fun prevout => prevout.n = 0 ∧ prevout.hash.toNat ≤ 16 := by
  have hchain {hash : UInt256} {wtx : CTransaction}
      (hwtx : chainWallet.mapWallet[hash]? = some wtx) : ∃ i < 18,
        hash = BitVec.ofNat 256 (i + 1) ∧ wtx = chainTx i := by
    obtain h | ⟨i, hi, hfound⟩ := chain_lookup hwtx
    · rw [get_empty] at h
      cases h
    · exact ⟨i, mem_range.mp hi, hfound⟩
  have hrange : ∀ prevout : COutPoint, prevout.n = 0 ∧ prevout.hash.toNat ≤ 16 →
      chainWallet.InRange prevout := by
    rintro prevout ⟨hn, -⟩ wtx hwtx
    obtain ⟨i, -, -, rfl⟩ := hchain hwtx
    rw [hn]
    exact Nat.zero_lt_one
  refine (rounds_independent_iff chainWallet _ ?_).mpr ⟨hrange, (uncut_iff hrange).mpr ?_⟩
  · rintro prevout ⟨-, hle⟩ wtx hwtx txin htxin -
    have hlt := chainWallet.rank_lt _ _ hwtx txin htxin
    obtain ⟨i, -, -, rfl⟩ := hchain hwtx
    obtain rfl := mem_singleton.mp htxin
    exact ⟨rfl, hlt.le.trans hle⟩
  · exact Dag.uncut_of_rank_lt fun prevout h => Nat.lt_succ_of_le h.2

/-- After a query for the last output of the chain, that of the second transaction has 18 rounds
instead of 1; and a query for an output that is not there writes to it. -/
theorem rounds_after_query :
    ((chainWallet.queries (.ok 17) ∅ [⟨18, 0⟩]).bind fun memo =>
        (chainWallet.getInputZerosendRounds memo ⟨2, 0⟩).map Prod.fst) = .ok 18 ∧
      chainWallet.rounds ⟨2, 0⟩ = .ok 1 ∧ chainWallet.rounds ⟨2, 1⟩ = .error .dangling := by
  decide +kernel

end WalletTxs

end Fantom.Zerosend
