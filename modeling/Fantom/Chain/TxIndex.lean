/-
  Fantom.Chain.TxIndex — The transaction index as a store of cells, one for each output of each
  indexed transaction: null while the output is unspent, and the position of the spending
  transaction from then on.

  And what the inputs of a block refer to, read off the block and the index alone.  A previous
  transaction is found through its position: the one it has in the block, when it stands earlier in
  the same block, and the one of the index otherwise.

  * `located` — the transactions of a block with the positions before each,
  * `prevTx`, `prevOut`, `valueIn`, `valueOut`.
-/
import Fantom.Chain.ConnectBlock
import Fantom.Lib.Cells

namespace Fantom.Chain

open Core Lib Option

/-! ## §1. The cells. -/

/-- An entry with the spender of output `n` set. -/
def CTxIndex.setSpent (n : UInt32) (pos : CDiskTxPos) (txindex : CTxIndex) : CTxIndex :=
  { txindex with vSpent := txindex.vSpent.set n.toNat pos }

variable (m : TxIndexMap)

variable (o : COutPoint)

def readSpent : Option CDiskTxPos :=
  (m[o.hash]?).bind fun txindex => txindex.vSpent[o.n.toNat]?

variable (pos : CDiskTxPos)

def writeSpent : TxIndexMap :=
  match m[o.hash]? with
  | none => m
  | some txindex => m.insert o.hash (CTxIndex.setSpent o.n pos txindex)

theorem get_writeSpent (h : UInt256) :
    (writeSpent m o pos)[h]? =
      if o.hash = h then (m[h]?).map (CTxIndex.setSpent o.n pos) else m[h]? := by
  unfold writeSpent
  cases hm : m[o.hash]? with
  | none =>
    dsimp only
    split
    next hk => rw [← hk, hm]; rfl
    next => rfl
  | some txindex =>
    dsimp only
    rw [StdMap.get_insert]
    split
    next hk => rw [← hk, hm]; rfl
    next => rfl

variable {m : TxIndexMap} {o : COutPoint}

theorem writeSpent_of_some {txindex : CTxIndex} (h : m[o.hash]? = some txindex) (pos : CDiskTxPos) :
    writeSpent m o pos = m.insert o.hash (CTxIndex.setSpent o.n pos txindex) := by
  rw [writeSpent, h]

theorem toNat_ne_of_hash {o' : COutPoint} (hne : o ≠ o') (hh : o.hash = o'.hash) :
    o.n.toNat ≠ o'.n.toNat := by
  intro hn
  apply hne
  cases o
  cases o'
  rw [COutPoint.mk.injEq]
  exact ⟨hh, UInt32.toNat_inj.mp hn⟩

theorem isSome_readSpent :
    (readSpent m o).isSome = true ↔
      ∃ txindex, m[o.hash]? = some txindex ∧ o.n.toNat < txindex.vSpent.length := by
  unfold readSpent
  cases m[o.hash]? with
  | none => simp
  | some txindex => simp

theorem readSpent_writeSpent_self (h : (readSpent m o).isSome) :
    readSpent (writeSpent m o pos) o = some pos := by
  obtain ⟨txindex, hm, hlen⟩ := isSome_readSpent.mp h
  rw [readSpent, get_writeSpent, if_pos rfl, hm]
  show (txindex.vSpent.set o.n.toNat pos)[o.n.toNat]? = some pos
  rw [List.getElem?_set_self hlen]

theorem readSpent_writeSpent_ne (m : TxIndexMap) {o' : COutPoint} (pos : CDiskTxPos)
    (hne : o ≠ o') : readSpent (writeSpent m o pos) o' = readSpent m o' := by
  unfold readSpent
  rw [get_writeSpent]
  split
  next hh =>
    cases m[o'.hash]? with
    | none => rfl
    | some txindex =>
      show (txindex.vSpent.set o.n.toNat pos)[o'.n.toNat]? = txindex.vSpent[o'.n.toNat]?
      rw [List.getElem?_set_ne (toNat_ne_of_hash hne hh)]
  next => rfl

theorem writeSpent_writeSpent (m : TxIndexMap) (o : COutPoint) (pos pos' : CDiskTxPos) :
    writeSpent (writeSpent m o pos) o pos' = writeSpent m o pos' := by
  apply Std.ExtTreeMap.ext_getElem?
  intro h
  rw [get_writeSpent, get_writeSpent, get_writeSpent]
  split
  next =>
    rw [map_map]
    congr 1
    funext txindex
    simp [CTxIndex.setSpent]
  next => rfl

theorem writeSpent_comm (m : TxIndexMap) {o' : COutPoint} (pos pos' : CDiskTxPos) (hne : o ≠ o') :
    writeSpent (writeSpent m o pos) o' pos' = writeSpent (writeSpent m o' pos') o pos := by
  apply Std.ExtTreeMap.ext_getElem?
  intro h
  rw [get_writeSpent, get_writeSpent, get_writeSpent, get_writeSpent]
  by_cases h1 : o.hash = h
  · by_cases h2 : o'.hash = h
    · rw [if_pos h1, if_pos h2, if_pos h1, if_pos h2, map_map, map_map]
      congr 1
      funext txindex
      have hnat := toNat_ne_of_hash hne (h1.trans h2.symm)
      simp only [Function.comp, CTxIndex.setSpent, CTxIndex.mk.injEq, true_and]
      exact List.set_comm pos pos' hnat
    · rw [if_neg h2, if_pos h1, if_pos h1, if_neg h2]
  · rw [if_neg h1, if_neg h1]

theorem writeSpent_eq_self {pos : CDiskTxPos}
    (h : ∀ txindex, m[o.hash]? = some txindex → CTxIndex.setSpent o.n pos txindex = txindex) :
    writeSpent m o pos = m := by
  apply Std.ExtTreeMap.ext_getElem?
  intro k
  rw [get_writeSpent]
  split
  next hk =>
    subst hk
    cases hm : m[o.hash]? with
    | none => rfl
    | some txindex => exact congrArg some (h txindex hm)
  next => rfl

theorem writeSpent_readSpent {pos : CDiskTxPos} (h : readSpent m o = some pos) :
    writeSpent m o pos = m := by
  refine writeSpent_eq_self fun txindex hm => ?_
  rw [readSpent, hm] at h
  obtain ⟨hlen, hval⟩ := List.getElem?_eq_some_iff.mp h
  rw [CTxIndex.setSpent, ← hval, List.set_getElem_self]

theorem writeSpent_outside (h : readSpent m o = none) : writeSpent m o pos = m := by
  refine writeSpent_eq_self fun txindex hm => ?_
  rw [readSpent, hm, bind_some, List.getElem?_eq_none_iff] at h
  rw [CTxIndex.setSpent, List.set_eq_of_length_le h]

/-- The cells of the transaction index, one for each output. -/
def txCells : CellStore TxIndexMap COutPoint CDiskTxPos where
  read := readSpent
  write := writeSpent
  read_write_self _ _ pos h := readSpent_writeSpent_self pos h
  read_write_ne m _ _ pos h := readSpent_writeSpent_ne m pos h
  write_write := writeSpent_writeSpent
  write_comm m _ _ pos pos' h := writeSpent_comm m pos pos' h
  write_read _ _ _ h := writeSpent_readSpent h
  write_outside _ _ pos h := writeSpent_outside pos h

theorem writeSpent_insert (m : TxIndexMap) {h : UInt256} (txindex : CTxIndex) (pos : CDiskTxPos)
    (hne : o.hash ≠ h) :
    writeSpent (m.insert h txindex) o pos = (writeSpent m o pos).insert h txindex := by
  apply Std.ExtTreeMap.ext_getElem?
  intro k
  rw [get_writeSpent, StdMap.get_insert, StdMap.get_insert, get_writeSpent]
  by_cases hk : h = k
  · rw [if_pos hk, if_pos hk, if_neg (fun ho => hne (ho.trans hk.symm))]
  · rw [if_neg hk, if_neg hk]

theorem writeSpent_isSome (m : TxIndexMap) (o : COutPoint) (pos : CDiskTxPos) (h : UInt256) :
    ((writeSpent m o pos)[h]?).isSome = (m[h]?).isSome := by
  rw [get_writeSpent]
  split
  next => rw [isSome_map]
  next => rfl

theorem writeSpent_pos (m : TxIndexMap) (o : COutPoint) (pos : CDiskTxPos) (h : UInt256) :
    ((writeSpent m o pos)[h]?).map CTxIndex.pos = (m[h]?).map CTxIndex.pos := by
  rw [get_writeSpent]
  split
  next => rw [map_map]; rfl
  next => rfl

/-! ## §2. Positions. -/

/-- Where each transaction is, by id. -/
abbrev Positions := UInt256 → Option CDiskTxPos

def positionsOf (m : TxIndexMap) : Positions := fun h => (m[h]?).map CTxIndex.pos

variable (env : ChainEnv)

variable (pindex : CBlockIndex)

variable (s : Positions × UInt32)

/-- One more transaction of a block: it is where the last one ended. -/
def locateStep (tx : CTransaction) : Positions × UInt32 :=
  (Function.update s.1 (tx.getHash env.H)
    (some (.inFile pindex.data.nFile pindex.data.nBlockPos s.2)),
    s.2 + UInt32.ofNat tx.getSerializeSize)

variable (done : List CTransaction)

/-- Positions, and the offset reached, after a prefix of the block. -/
def posAfter : Positions × UInt32 := done.foldl (locateStep env pindex) s

/-- Positions and offset before the first transaction. -/
def posBefore (db : Records) (b : CBlock) (pindex : CBlockIndex) : Positions × UInt32 :=
  (positionsOf db.tx, firstTxPos b pindex false)

/-- A transaction of a block with the positions known before it. -/
structure Located where
  tx : CTransaction
  posOf : Positions

/-- The transactions of a block, each with the positions before it. -/
def located (pindex : CBlockIndex) : Positions × UInt32 → List CTransaction → List Located
  | _, [] => []
  | s, tx :: rest => ⟨tx, s.1⟩ :: located pindex (locateStep env pindex s tx) rest

variable (tx : CTransaction)

theorem posAfter_concat : posAfter env pindex s (done ++ [tx]) =
    locateStep env pindex (posAfter env pindex s done) tx := by
  rw [posAfter, List.foldl_append]
  rfl

theorem located_append (done rest : List CTransaction) : located env pindex s (done ++ rest) =
    located env pindex s done ++ located env pindex (posAfter env pindex s done) rest := by
  induction done generalizing s with
  | nil => rfl
  | cons tx done ih =>
    rw [List.cons_append, located, located, List.cons_append, ih]
    rfl

theorem located_concat : located env pindex s (done ++ [tx]) =
    located env pindex s done ++ [⟨tx, (posAfter env pindex s done).1⟩] := by
  rw [located_append]
  rfl

theorem map_tx_located (txs : List CTransaction) :
    (located env pindex s txs).map Located.tx = txs := by
  induction txs generalizing s with
  | nil => rfl
  | cons tx txs ih => rw [located, List.map_cons, ih]

theorem mem_located {pindex : CBlockIndex} {s : Positions × UInt32} {txs : List CTransaction}
    {l : Located} :
    l ∈ located env pindex s txs ↔ ∃ done tx rest, txs = done ++ tx :: rest ∧
      l = ⟨tx, (posAfter env pindex s done).1⟩ := by
  induction txs generalizing s with
  | nil =>
    constructor
    · intro h
      cases h
    · rintro ⟨done, tx, rest, h, _⟩
      cases done <;> cases h
  | cons tx txs ih =>
    rw [located, List.mem_cons, ih]
    constructor
    · rintro (rfl | ⟨done, tx', rest, rfl, rfl⟩)
      · exact ⟨[], tx, txs, rfl, rfl⟩
      · exact ⟨tx :: done, tx', rest, rfl, rfl⟩
    · rintro ⟨done, tx', rest, h, rfl⟩
      cases done with
      | nil =>
        obtain ⟨rfl, _⟩ := List.cons.inj h
        exact .inl rfl
      | cons d done =>
        obtain ⟨rfl, htail⟩ := List.cons.inj h
        exact .inr ⟨done, tx', rest, htail, rfl⟩

/-! ## §3. Previous outputs and values. -/

variable (posOf : Positions)

def prevTx (hash : UInt256) : Option CTransaction :=
  (posOf hash).bind fun pos => (readPrev env hash pos).toOption

def prevOut (txin : CTxIn) : Option CTxOut :=
  (prevTx env posOf txin.prevout.hash).bind fun txPrev => txPrev.vout[txin.prevout.n.toNat]?

def valueSpent (txin : CTxIn) : Int :=
  ((prevOut env posOf txin).map fun txout => txout.nValue.toInt).getD 0

/-- The value of all outputs a transaction spends; a coinbase spends none. -/
def valueIn (tx : CTransaction) : Int :=
  if tx.isCoinBase then 0 else (tx.vin.map (valueSpent env posOf)).sum

/-- The value of all outputs a transaction creates. -/
def valueOut : Int := (tx.vout.map fun txout => txout.nValue.toInt).sum

theorem getValueOutLoop_eq {nValueOut v : Int64} {vout : List CTxOut}
    (hr : moneyRange nValueOut = true) (h : getValueOutLoop nValueOut vout = some v) :
    moneyRange v = true ∧
      v.toInt = nValueOut.toInt + (vout.map fun txout => txout.nValue.toInt).sum := by
  induction vout generalizing nValueOut with
  | nil =>
    cases h
    exact ⟨hr, by simp⟩
  | cons txout rest ih =>
    rw [getValueOutLoop] at h
    split at h
    · cases h
    · rename_i hguard
      obtain ⟨h1, h2⟩ : moneyRange txout.nValue = true ∧
          moneyRange (nValueOut + txout.nValue) = true := by
        simpa using hguard
      obtain ⟨hv, hsum⟩ := ih h2 h
      refine ⟨hv, ?_⟩
      rw [hsum, toInt_add_of_moneyRange hr h1, List.map_cons, List.sum_cons]
      omega

theorem getValueOut_eq {tx : CTransaction} {v : Int64} (h : tx.getValueOut = some v) :
    moneyRange v = true ∧ v.toInt = valueOut tx := by
  obtain ⟨hr, hv⟩ := getValueOutLoop_eq (by decide) h
  refine ⟨hr, ?_⟩
  rw [hv]
  show (0 : Int64).toInt + valueOut tx = valueOut tx
  rw [show (0 : Int64).toInt = 0 from rfl]
  omega

end Fantom.Chain
