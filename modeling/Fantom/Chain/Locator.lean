/-
  Fantom.Chain.Locator — Block locators: a sender names blocks of its branch, a receiver looks for
  the first of them on its main chain.

  * `locator_finds_fork` — the block found is at most twice as far back as the fork, and the
    distance is right.

  `nStep` and `nDistance` are natural numbers here: as `int` they pass `2^31` only behind the last
  stop, since the height of a block is an `int` too.
-/
import Fantom.Chain.BestChain
import Fantom.Lib.Strides

namespace Fantom.Chain

open Core Lib List Option Strides Nat

/-! ## §1. The locator. -/

/-- `CBlockLocator`. -/
structure CBlockLocator where
  vHave : List UInt256
deriving DecidableEq

/-- `for (int i = 0; pindex && i < n; i++) pindex = pindex->pprev;` -/
def stepBack : Nat → Option CBlockIndex → Option CBlockIndex
  | 0, pindex => pindex
  | _ + 1, none => none
  | n + 1, some pindex => stepBack n pindex.pprev

def lineFrom : Option CBlockIndex → List CBlockIndex
  | none => []
  | some pindex => pindex.branch

theorem lineFrom_some (pindex : CBlockIndex) :
    lineFrom (some pindex) = pindex :: lineFrom pindex.pprev := by
  cases pindex <;> rfl

theorem lineFrom_stepBack (n : Nat) (pindex : Option CBlockIndex) :
    lineFrom (stepBack n pindex) = (lineFrom pindex).drop n := by
  induction n generalizing pindex with
  | zero => rfl
  | succ n ih =>
    cases pindex with
    | none => rfl
    | some pindex =>
      rw [lineFrom_some, drop_succ_cons]
      exact ih pindex.pprev

/-- The loop of `Set`.  `nStep` is never zero, so the inner loop takes a first step. -/
def setLoop (nStep : Nat) (vHave : List UInt256) : Option CBlockIndex → List UInt256
  | none => vHave
  | some pindex =>
    let vHave := vHave ++ [pindex.getBlockHash]
    setLoop (if vHave.length > 10 then nStep * 2 else nStep) vHave
      (stepBack (nStep - 1) pindex.pprev)
termination_by pindex => (lineFrom pindex).length
decreasing_by
  rw [lineFrom_stepBack, lineFrom_some, length_drop, length_cons]
  omega

def CBlockLocator.set (hashGenesisBlock : UInt256) (pindex : Option CBlockIndex) : CBlockLocator :=
  ⟨setLoop 1 [] pindex ++ [hashGenesisBlock]⟩

def isInMainChain (node : Node) (pindex : CBlockIndex) : Bool :=
  (node.mem.pnext pindex).isSome || decide (node.pindexBest = some pindex)

variable (t : BlockTree) (node : Node)

/-- The entry of `mapBlockIndex` under a hash, where it is in the main chain. -/
def mainChainEntry (hash : UInt256) : Option CBlockIndex :=
  (t.mapBlockIndex[hash]?).filter (isInMainChain node)

def getBlockIndex (locator : CBlockLocator) : Option CBlockIndex :=
  (locator.vHave.findSome? (mainChainEntry t node)).or node.pindexGenesisBlock

/-- The loop of `GetDistanceBack`. -/
def distanceLoop (nDistance nStep : Nat) : List UInt256 → Nat
  | [] => nDistance
  | hash :: vHave =>
    if (mainChainEntry t node hash).isSome then nDistance
    else
      let nDistance := nDistance + nStep
      distanceLoop nDistance (if nDistance > 10 then nStep * 2 else nStep) vHave

def getDistanceBack (locator : CBlockLocator) : Nat := distanceLoop t node 0 1 locator.vHave

variable {t node}

/-! ## §2. The two doubling rules. -/

variable (i : Nat)

/-- The strides of a locator: single blocks at first, then doubling. -/
def locatorStride : Nat := 2 ^ (i - 10)

theorem locatorStride_pos : 0 < locatorStride i := Nat.two_pow_pos _

theorem stop_locatorStride_of_le {i : Nat} (h : i ≤ 11) : Strides.stop locatorStride i = i := by
  induction i with
  | zero => rfl
  | succ i ih =>
    show Strides.stop locatorStride i + locatorStride i = i + 1
    rw [ih (by omega), locatorStride, show i - 10 = 0 by omega]
    rfl

theorem stop_locatorStride_add (k : Nat) :
    Strides.stop locatorStride (11 + k) = 9 + 2 ^ (k + 1) := by
  induction k with
  | zero => exact stop_locatorStride_of_le (le_refl 11)
  | succ k ih =>
    show Strides.stop locatorStride (11 + k) + locatorStride (11 + k) = _
    rw [ih, locatorStride, show 11 + k - 10 = k + 1 by omega]
    omega

theorem locatorStride_succ :
    (if i + 1 > 10 then locatorStride i * 2 else locatorStride i) = locatorStride (i + 1) := by
  unfold locatorStride
  split
  next h => rw [show i + 1 - 10 = i - 10 + 1 by omega, pow_succ]
  next h => rw [show i + 1 - 10 = 0 by omega, show i - 10 = 0 by omega]

theorem stop_locatorStride_gt_iff : Strides.stop locatorStride i > 10 ↔ i > 10 := by
  by_cases h : i ≤ 11
  · rw [stop_locatorStride_of_le h]
  · have hle := le_stop locatorStride_pos i
    omega

/-- **The blocks named** after `i` others are those at the stops from the `i`-th on. -/
theorem setLoop_eq (vHave : List UInt256) (pindex : Option CBlockIndex) :
    setLoop (locatorStride vHave.length) vHave pindex =
      vHave ++ (Strides.pick locatorStride vHave.length (lineFrom pindex)).map
        CBlockIndex.getBlockHash := by
  -- induction on the length of the line that is left
  suffices key : ∀ n vHave pindex, (lineFrom pindex).length = n →
      setLoop (locatorStride vHave.length) vHave pindex =
        vHave ++ (Strides.pick locatorStride vHave.length (lineFrom pindex)).map
          CBlockIndex.getBlockHash from key _ vHave pindex rfl
  intro n
  induction n using Nat.strongRecOn with
  | _ n ih =>
    intro vHave pindex hlen
    cases pindex with
    | none =>
      rw [setLoop, lineFrom, Strides.pick]
      exact (append_nil _).symm
    | some pindex =>
      have hsize : (vHave ++ [pindex.getBlockHash]).length = vHave.length + 1 := by
        rw [length_append, length_singleton]
      have hshort : (lineFrom (stepBack (locatorStride vHave.length - 1) pindex.pprev)).length
          < n := by
        rw [lineFrom_some, length_cons] at hlen
        rw [lineFrom_stepBack, length_drop]
        omega
      have hrest := ih _ hshort (vHave ++ [pindex.getBlockHash]) _ rfl
      rw [setLoop, lineFrom_some, Strides.pick, map_cons]
      rw [hsize] at hrest ⊢
      rw [locatorStride_succ, hrest, lineFrom_stepBack, append_assoc]
      rfl

theorem set_eq (hashGenesisBlock : UInt256) (pindex : CBlockIndex) :
    (CBlockLocator.set hashGenesisBlock (some pindex)).vHave =
      (Strides.pick locatorStride 0 pindex.branch).map CBlockIndex.getBlockHash ++
        [hashGenesisBlock] :=
  congrArg (· ++ [hashGenesisBlock]) (setLoop_eq [] (some pindex))

/-- **The distance counted** where the first entry in the main chain is the one after `hashes`. -/
theorem distanceLoop_eq {hashes r : List UInt256} {hash : UInt256} (hbefore : ∀ h ∈ hashes,
    mainChainEntry t node h = none) (hfound : (mainChainEntry t node hash).isSome = true) :
    distanceLoop t node (Strides.stop locatorStride i) (locatorStride i) (hashes ++ hash :: r) =
    Strides.stop locatorStride (i + hashes.length) := by
  induction hashes generalizing i with
  | nil =>
    rw [nil_append, distanceLoop, if_pos hfound]
    rfl
  | cons h hashes ih =>
    have hnone : ¬ (mainChainEntry t node h).isSome = true := by
      rw [hbefore h mem_cons_self]
      exact Bool.false_ne_true
    have hnext : Strides.stop locatorStride i + locatorStride i =
        Strides.stop locatorStride (i + 1) := rfl
    rw [cons_append, distanceLoop, if_neg hnone, hnext]
    have hdouble : (if Strides.stop locatorStride (i + 1) > 10 then locatorStride i * 2
        else locatorStride i) = locatorStride (i + 1) := by
      rw [← locatorStride_succ i]
      simp only [stop_locatorStride_gt_iff]
    dsimp only
    rw [hdouble, ih (i + 1) fun x hx => hbefore x (mem_cons_of_mem _ hx),
      length_cons, show i + 1 + hashes.length = i + (hashes.length + 1) by omega]

/-! ## §3. The fork. -/

/-- A block with this hash is on the chain of `best`. -/
def OnChain (best : CBlockIndex) (hash : UInt256) : Prop :=
  ∃ y ∈ best.branch, y.getBlockHash = hash

/-- The blocks of the sender that the receiver knows have the same parents there: a hash is that
of one header, which names its parent. -/
def SameBlocks (S : CBlockIndex) (t : BlockTree) : Prop :=
  ∀ x ∈ S.branch, ∀ y ∈ t, x.getBlockHash = y.getBlockHash →
    x.pprev.map CBlockIndex.getBlockHash = y.pprev.map CBlockIndex.getBlockHash

/-- The last block of the sender's branch on the chain of `best` is `f` blocks back. -/
structure ForkAt (best S : CBlockIndex) (f : Nat) : Prop where
  common : ∃ x, S.branch[f]? = some x ∧ OnChain best x.getBlockHash
  last : ∀ k x, k < f → S.branch[k]? = some x → ¬ OnChain best x.getBlockHash

theorem exists_child_of_mem {x best : CBlockIndex} (h : x ∈ best.branch) :
    x = best ∨ ∃ y ∈ best.branch, y.pprev = some x := by
  induction best with
  | root d => exact .inl (mem_singleton.mp h)
  | child p d ih =>
    rcases mem_cons.mp h with rfl | h
    · exact .inl rfl
    · rcases ih h with rfl | ⟨y, hy, hpar⟩
      · exact .inr ⟨_, CBlockIndex.self_mem_branch _, rfl⟩
      · exact .inr ⟨y, mem_cons_of_mem _ hy, hpar⟩

theorem branch_succ (S : CBlockIndex) {k : Nat} {x : CBlockIndex} (h : S.branch[k]? = some x) :
    S.branch[k + 1]? = x.pprev := by
  induction S generalizing k with
  | root d =>
    cases k with
    | zero =>
      cases h
      rfl
    | succ k => cases h
  | child p d ih =>
    cases k with
    | zero =>
      cases h
      cases p <;> rfl
    | succ k => exact ih h

variable {best S : CBlockIndex}

theorem isInMainChain_iff (hn : Consistent t node best) {y : CBlockIndex} :
    isInMainChain node y = true ↔ y ∈ best.branch := by
  rw [isInMainChain, Bool.or_eq_true, decide_eq_true_iff, isSome_iff_exists, hn.pindexBest]
  constructor
  · rintro (⟨z, hz⟩ | hy)
    · obtain ⟨hmem, hpar⟩ := (hn.connected.linked y z).mp hz
      exact CBlockIndex.links.parent_mem_line hmem hpar
    · cases hy
      exact best.self_mem_branch
  · intro hy
    rcases exists_child_of_mem hy with rfl | ⟨z, hz, hpar⟩
    · exact .inr rfl
    · exact .inl ⟨z, (hn.connected.linked y z).mpr ⟨hz, hpar⟩⟩

theorem mainChainEntry_iff (hn : Consistent t node best) {hash : UInt256} {y : CBlockIndex} :
    mainChainEntry t node hash = some y ↔ y ∈ best.branch ∧ y.getBlockHash = hash := by
  rw [mainChainEntry, filter_eq_some_iff, isInMainChain_iff hn]
  constructor
  · rintro ⟨hy, hmem⟩
    exact ⟨hmem, t.keyed hash y hy⟩
  · rintro ⟨hmem, rfl⟩
    exact ⟨BlockTree.branch_mem hn.mem hmem, hmem⟩

theorem mainChainEntry_isSome_iff (hn : Consistent t node best) {hash : UInt256} :
    (mainChainEntry t node hash).isSome = true ↔ OnChain best hash := by
  rw [isSome_iff_exists]
  exact exists_congr fun y => mainChainEntry_iff hn

theorem mainChainEntry_eq_none_iff (hn : Consistent t node best) {hash : UInt256} :
    mainChainEntry t node hash = none ↔ ¬ OnChain best hash := by
  rw [← mainChainEntry_isSome_iff hn, Bool.not_eq_true, isSome_eq_false_iff,
    isNone_iff_eq_none]

theorem OnChain.parent (hn : Consistent t node best) (hsame : SameBlocks S t) {x p : CBlockIndex}
    (hx : x ∈ S.branch) (h : OnChain best x.getBlockHash) (hp : x.pprev = some p) :
    OnChain best p.getBlockHash := by
  obtain ⟨y, hy, hash⟩ := h
  have hparents := hsame x hx y (BlockTree.branch_mem hn.mem hy) hash.symm
  rw [hp, map_some] at hparents
  obtain ⟨q, hq, hqp⟩ := map_eq_some_iff.mp hparents.symm
  exact ⟨q, CBlockIndex.links.parent_mem_line hy hq, hqp⟩

theorem ForkAt.behind {f k : Nat} {x : CBlockIndex} (hf : ForkAt best S f)
    (hn : Consistent t node best) (hsame : SameBlocks S t) (hk : f ≤ k)
    (hx : S.branch[k]? = some x) : OnChain best x.getBlockHash := by
  induction k, hk using le_induction generalizing x with
  | base =>
    obtain ⟨x', hx', hon⟩ := hf.common
    rw [hx'] at hx
    cases hx
    exact hon
  | succ k hk ih =>
    have hlt : k < S.branch.length := by
      have := (List.getElem?_eq_some_iff.mp hx).1
      omega
    have hw := List.getElem?_eq_getElem hlt
    rw [branch_succ S hw] at hx
    exact (ih hw).parent hn hsame (getElem_mem hlt) hx

/-! ## §4. What the receiver finds. -/

theorem stop_firstStop_near (f : Nat) :
    (f ≤ 11 → Strides.stop locatorStride (Strides.firstStop locatorStride_pos f) = f) ∧
      (11 < f → Strides.stop locatorStride (Strides.firstStop locatorStride_pos f) < 2 * f) := by
  have hle := le_stop_firstStop locatorStride_pos f
  have hbefore := fun j => stop_lt_of_lt locatorStride_pos (f := f) (j := j)
  generalize Strides.firstStop locatorStride_pos f = i at hle hbefore
  constructor
  · intro hf
    -- a stop beyond the `f`-th is not the first
    have hi : ¬ f < i := fun hlt => by
      have := hbefore f hlt
      rw [stop_locatorStride_of_le hf] at this
      exact lt_irrefl f this
    rw [stop_locatorStride_of_le (by omega)] at hle ⊢
    omega
  · intro hf
    have hi : 11 < i := by
      by_contra hi
      rw [stop_locatorStride_of_le (by omega)] at hle
      omega
    obtain ⟨k, rfl⟩ : ∃ k, i = 11 + (k + 1) := ⟨i - 12, by omega⟩
    have hprev := hbefore (11 + k) (by omega)
    rw [stop_locatorStride_add] at hprev ⊢
    rw [pow_succ 2 (k + 1)]
    omega

theorem mainChainEntry_before (hn : Consistent t node best) {f : Nat} (hf : ForkAt best S f) :
    ∀ h ∈ ((Strides.pick locatorStride 0 S.branch).map CBlockIndex.getBlockHash).take
      (Strides.firstStop locatorStride_pos f), mainChainEntry t node h = none := by
  intro h hh
  rw [← map_take] at hh
  obtain ⟨x, hx, rfl⟩ := mem_map.mp hh
  exact (mainChainEntry_eq_none_iff hn).mpr
    ((pick_split locatorStride_pos (P := fun x => OnChain best x.getBlockHash)
      fun k a hk ha => hf.last k a hk ha).1 x hx)

theorem getBlockIndex_of_split {hashes rest : List UInt256} {hash : UInt256} {y : CBlockIndex}
    {locator : CBlockLocator} (hhave : locator.vHave = hashes ++ hash :: rest)
    (hbefore : ∀ h ∈ hashes, mainChainEntry t node h = none)
    (hfound : mainChainEntry t node hash = some y) : getBlockIndex t node locator = some y := by
  rw [getBlockIndex, hhave, List.findSome?_append, List.findSome?_eq_none_iff.mpr hbefore, none_or,
    List.findSome?_cons, hfound]
  rfl

/-- **A locator finds a close fork point.**  The block found is an ancestor of the sender's tip
in the main chain, not before the fork and less than twice as far back, or it is the genesis
block; unless it was found by the genesis hash at the end, the distance counted is its own. -/
theorem locator_finds_fork {hashGenesisBlock : UInt256} {f : Nat} (hn : Consistent t node best)
    (hbest : best.branch.getLast?.map CBlockIndex.getBlockHash = some hashGenesisBlock)
    (hS : S.branch.getLast?.map CBlockIndex.getBlockHash = some hashGenesisBlock)
    (hsame : SameBlocks S t) (hf : ForkAt best S f) :
    ∃ d x y, getBlockIndex t node (.set hashGenesisBlock (some S)) = some y ∧
      y ∈ best.branch ∧ S.branch[d]? = some x ∧ x.getBlockHash = y.getBlockHash ∧ f ≤ d ∧
      (f ≤ 11 → d = f) ∧ (11 < f → d < 2 * f ∨ node.pindexGenesisBlock = some y) ∧
      ((∃ h ∈ (CBlockLocator.set hashGenesisBlock (some S)).vHave.dropLast,
        OnChain best h) →
        getDistanceBack t node (.set hashGenesisBlock (some S)) = d) := by
  have hhave := set_eq hashGenesisBlock S
  have hbefore := mainChainEntry_before hn hf
  have hle := le_stop_firstStop locatorStride_pos f
  obtain ⟨hnear, hfar⟩ := stop_firstStop_near f
  have hget := pick_zero_get locatorStride_pos
    (Strides.firstStop locatorStride_pos f) S.branch
  have hshort := pick_length_le locatorStride_pos (l := S.branch)
    (i := Strides.firstStop locatorStride_pos f)
  rw [hhave, dropLast_concat]
  generalize hregular : (Strides.pick locatorStride 0 S.branch).map CBlockIndex.getBlockHash =
    regular at hhave hbefore ⊢
  generalize Strides.firstStop locatorStride_pos f = i at *
  by_cases hlong : Strides.stop locatorStride i < S.branch.length
  · -- the entry at the first stop behind the fork
    obtain ⟨x, hx⟩ : ∃ x, S.branch[Strides.stop locatorStride i]? = some x :=
      ⟨_, List.getElem?_eq_getElem hlong⟩
    obtain ⟨y, hy, hyx⟩ := hf.behind hn hsame hle hx
    have hfound : mainChainEntry t node x.getBlockHash = some y :=
      (mainChainEntry_iff hn).mpr ⟨hy, hyx⟩
    have hentry : regular[i]? = some x.getBlockHash := by
      rw [← hregular, List.getElem?_map, hget, hx]
      rfl
    obtain ⟨hi, hentry⟩ := List.getElem?_eq_some_iff.mp hentry
    have hsplit : regular ++ [hashGenesisBlock] =
        regular.take i ++ x.getBlockHash :: (regular.drop (i + 1) ++ [hashGenesisBlock]) := by
      rw [← cons_append, ← append_assoc, ← hentry, getElem_cons_drop,
        take_append_drop]
    refine ⟨_, x, y, getBlockIndex_of_split (hhave.trans hsplit) hbefore hfound, hy, hx,
      hyx.symm, hle, hnear, fun h => .inl (hfar h), fun _ => ?_⟩
    have hcount := distanceLoop_eq 0 (r := regular.drop (i + 1) ++ [hashGenesisBlock]) hbefore
      (isSome_iff_exists.mpr ⟨y, hfound⟩)
    rw [length_take, min_eq_left (le_of_lt hi), zero_add] at hcount
    rw [getDistanceBack, hhave, hsplit]
    exact hcount
  · -- no entry behind the fork but the genesis hash at the end
    have hlen : regular.length ≤ i := by
      rw [← hregular, length_map]
      exact hshort (Nat.le_of_not_lt hlong)
    rw [take_of_length_le hlen] at hbefore
    obtain ⟨r, hr, hrhash⟩ := map_eq_some_iff.mp hbest
    obtain ⟨x, hx, hxhash⟩ := map_eq_some_iff.mp hS
    have hfound : mainChainEntry t node hashGenesisBlock = some r :=
      (mainChainEntry_iff hn).mpr ⟨mem_of_getLast? hr, hrhash⟩
    obtain ⟨x', hx', _⟩ := hf.common
    have hf11 : ¬ f ≤ 11 := fun h => by
      have := (List.getElem?_eq_some_iff.mp hx').1
      rw [hnear h] at hlong
      exact hlong this
    refine ⟨S.branch.length - 1, x, r, getBlockIndex_of_split hhave hbefore hfound,
      mem_of_getLast? hr, ?_, hxhash.trans hrhash.symm, ?_, fun h => absurd h hf11,
      fun _ => .inr (hn.connected.genesis.trans hr), ?_⟩
    · rw [← List.getLast?_eq_getElem?, hx]
    · have := (List.getElem?_eq_some_iff.mp hx').1
      omega
    · rintro ⟨h, hh, hon⟩
      exact absurd hon ((mainChainEntry_eq_none_iff hn).mp (hbefore h hh))

def sampleBranch : Nat → CBlockIndex
  | 0 => .root ⟨7, .first, 0, 1, 0, 0, 0x1e0fffff, 0⟩
  | n + 1 => .child (sampleBranch n) ⟨BitVec.ofNat 256 (n + 100), .first, 0, 1, 0, 0, 0x1e0fffff, 0⟩

def genesisNode : Node :=
  { Node.initial with
    txdb := ⟨Records.empty.writeHashBestChain 7, none⟩
    pindexGenesisBlock := some (sampleBranch 0)
    pindexBest := some (sampleBranch 0)
    hashBestChain := 7 }

theorem consistent_genesisNode :
    Consistent (.genesis (sampleBranch 0).data) genesisNode (sampleBranch 0) where
  mem := by decide
  pindexBest := rfl
  hashBestChain := rfl
  connected := ⟨rfl, rfl, ParentLinks.Linked.root rfl⟩

theorem locator_finds_genesis :
    ∃ d x y, getBlockIndex (.genesis (sampleBranch 0).data) genesisNode
        (.set 7 (some (sampleBranch 13))) = some y ∧
      y ∈ (sampleBranch 0).branch ∧ (sampleBranch 13).branch[d]? = some x ∧
      x.getBlockHash = y.getBlockHash ∧ 13 ≤ d ∧ (13 ≤ 11 → d = 13) ∧
      (11 < 13 → d < 2 * 13 ∨ genesisNode.pindexGenesisBlock = some y) ∧
      ((∃ h ∈ (CBlockLocator.set 7 (some (sampleBranch 13))).vHave.dropLast,
        OnChain (sampleBranch 0) h) →
        getDistanceBack (.genesis (sampleBranch 0).data) genesisNode
          (.set 7 (some (sampleBranch 13))) = d) := by
  refine locator_finds_fork consistent_genesisNode rfl rfl ?_ ⟨⟨sampleBranch 0, rfl, ?_⟩, ?_⟩
  · -- the only block that the receiver knows is the genesis block
    intro x hx y hy hash
    have hkey : (BlockTree.genesis (sampleBranch 0).data).mapBlockIndex[y.getBlockHash]? =
        some y := hy
    unfold BlockTree.genesis at hkey
    dsimp only at hkey
    rw [StdMap.get_insert] at hkey
    split at hkey
    next h7 =>
      cases hkey
      rw [← hash] at h7
      have hroot : ∀ z ∈ (sampleBranch 13).branch, z.getBlockHash = 7 → z.pprev = none := by
        decide
      rw [hroot x hx h7.symm]
      rfl
    next => rw [StdMap.get_empty] at hkey; cases hkey
  · exact ⟨sampleBranch 0, CBlockIndex.self_mem_branch _, rfl⟩
  · intro k x hk hx
    have hother : ∀ z ∈ (sampleBranch 13).branch.take 13, z.getBlockHash ≠ 7 := by decide
    rintro ⟨y, hy, hash⟩
    obtain rfl := mem_singleton.mp hy
    refine hother x (mem_of_getElem? (i := k) ?_) hash.symm
    rw [List.getElem?_take, if_pos hk, hx]

end Fantom.Chain
