/-
  Fantom.Market.SignMultiSig — `SignMultiSigTransaction`: the transactions of a string are signed
  into one.

  * `Decodes` — how the bytes of a string are read as transactions,
  * `signMultiSig_returns_iff` — the strings for which the function returns.

  A read that throws is tried again from where it left the stream, which is where it was if there
  are fewer than four bytes.
-/
import Fantom.Core.DataStream
import Fantom.Lib.WhileLoop
import Fantom.Script.SignedInputs
import Fantom.Script.Text

namespace Fantom.Market

open Core Lib Chain Script List Option

/-! ## §1. Texts. -/

/-- `isspace` -/
def isSpace (c : Char) : Bool :=
  c == ' ' || c == '\t' || c == '\n' || c == '\x0b' || c == '\x0c' || c == '\r'

/-- `HexDigit`, with `none` for -1. -/
def hexDigit (c : Char) : Option UInt8 :=
  if '0' ≤ c ∧ c ≤ '9' then some (UInt8.ofNat (c.toNat - 48))
  else if 'a' ≤ c ∧ c ≤ 'f' then some (UInt8.ofNat (c.toNat - 87))
  else if 'A' ≤ c ∧ c ≤ 'F' then some (UInt8.ofNat (c.toNat - 55))
  else none

/-- `ParseHex`; behind the last character is a zero, which is no digit. -/
def parseHex : List Char → List UInt8
  | [] => []
  | [_] => []
  | c :: d :: rest =>
    if isSpace c then parseHex (d :: rest)
    else
      match hexDigit c, hexDigit d with
      | some hi, some lo => (hi <<< 4 ||| lo) :: parseHex rest
      | _, _ => []

theorem hexDigit_digitChar : ∀ n < 16, isSpace (Nat.digitChar n) = false ∧
    hexDigit (Nat.digitChar n) = some (UInt8.ofNat n) := by
  decide

theorem nibbles_eq : ∀ val : UInt8,
    UInt8.ofNat (val.toNat / 16) <<< 4 ||| UInt8.ofNat (val.toNat % 16) = val :=
  Legacy.forall_opcode (by decide +kernel)

theorem parseHex_hexStr (vch : List UInt8) : parseHex (hexStr vch) = vch := by
  induction vch with
  | nil => rfl
  | cons val vch ih =>
    have hlt := val.toNat_lt
    have hhi := hexDigit_digitChar (val.toNat / 16) (by omega)
    have hlo := hexDigit_digitChar (val.toNat % 16) (by omega)
    show parseHex (Nat.digitChar (val.toNat / 16) :: Nat.digitChar (val.toNat % 16) ::
      hexStr vch) = _
    rw [parseHex, hhi.1, hhi.2, hlo.2, ih]
    simp [nibbles_eq]

/-! ## §2. The loop that reads. -/

/-- One turn of `while (!ssData.empty())`, with `txVariants`. -/
def decodeTurn (s : List UInt8 × List CTransaction) :
    (List UInt8 × List CTransaction) ⊕ List CTransaction :=
  if s.1 = [] then .inr s.2
  else
    match CDataStream.transaction.run s.1 with
    | .ok (tx, rest) => .inl (rest, s.2 ++ [tx])
    | .error rest => .inl (rest, s.2)

/-- The bytes are used up by reads with at least four bytes before them, which read these
transactions or throw. -/
inductive Decodes : List UInt8 → List CTransaction → Prop
  | nil : Decodes [] []
  | whole {bs rest : List UInt8} {tx : CTransaction} {txs : List CTransaction} (h : 4 ≤ bs.length)
      (hread : CDataStream.transaction.run bs = .ok (tx, rest)) (hrest : Decodes rest txs) :
      Decodes bs (tx :: txs)
  | torn {bs rest : List UInt8} {txs : List CTransaction} (h : 4 ≤ bs.length)
      (hread : CDataStream.transaction.run bs = .error rest) (hrest : Decodes rest txs) :
      Decodes bs txs

variable {bs : List UInt8} {txs : List CTransaction}

theorem decodeTurn_of_run (hne : bs ≠ []) (acc : List CTransaction) :
    decodeTurn (bs, acc) = .inl (leftOf (CDataStream.transaction.run bs),
      acc ++ ((CDataStream.transaction.run bs).toOption.map Prod.fst).toList) := by
  rw [decodeTurn, if_neg hne]
  cases CDataStream.transaction.run bs with
  | ok p => rfl
  | error rest => simp [leftOf, Except.toOption]

theorem not_decodes_short (hne : bs ≠ []) (h : bs.length < 4) : ¬Decodes bs txs := by
  intro hd
  cases hd with
  | nil => exact hne rfl
  | whole hlen => omega
  | torn hlen => omega

/-- **The loop ends** exactly on such bytes; what is left gets less with every turn. -/
theorem ends_decode_iff (acc r : List CTransaction) :
    WhileLoop.Ends decodeTurn (bs, acc) r ↔ ∃ txs, Decodes bs txs ∧ r = acc ++ txs := by
  induction hn : bs.length using Nat.strongRecOn generalizing bs acc with
  | ind n ih =>
    by_cases hnil : bs = []
    · subst hnil
      have hout : decodeTurn ([], acc) = .inr acc := if_pos rfl
      rw [WhileLoop.ends_inr_iff hout]
      constructor
      · intro h
        exact ⟨[], .nil, by simp [h]⟩
      · rintro ⟨txs, hd, hr⟩
        cases hd with
        | nil => simp [hr]
        | whole hlen => simp at hlen
        | torn hlen => simp at hlen
    by_cases hshort : bs.length < 4
    · -- the stream is where it was
      have hstuck : decodeTurn (bs, acc) = .inl (bs, acc) := by
        rw [decodeTurn_of_run hnil, CDataStream.transaction_short hshort]
        simp [leftOf, Except.toOption]
      exact iff_of_false (WhileLoop.not_ends_of_stuck hstuck)
        fun h => not_decodes_short hnil hshort h.choose_spec.1
    have hlen : 4 ≤ bs.length := by omega
    have hless := CDataStream.transaction_left_lt hlen
    rw [WhileLoop.ends_inl_iff (decodeTurn_of_run hnil acc), ih _ (hn ▸ hless) _ rfl]
    cases hread : CDataStream.transaction.run bs with
    | ok p =>
      constructor
      · rintro ⟨txs, hd, hr⟩
        exact ⟨p.1 :: txs, .whole hlen hread hd, by simp [hr, Except.toOption]⟩
      · rintro ⟨txs, hd, hr⟩
        cases hd with
        | nil => exact absurd rfl hnil
        | whole _ hread' hd =>
          rw [hread] at hread'
          cases hread'
          exact ⟨_, hd, by simp [hr, Except.toOption]⟩
        | torn _ hread' =>
          rw [hread] at hread'
          cases hread'
    | error rest =>
      constructor
      · rintro ⟨txs, hd, hr⟩
        exact ⟨txs, .torn hlen hread hd, by simp [hr, Except.toOption]⟩
      · rintro ⟨txs, hd, hr⟩
        cases hd with
        | nil => exact absurd rfl hnil
        | whole _ hread' =>
          rw [hread] at hread'
          cases hread'
        | torn _ hread' hd =>
          rw [hread] at hread'
          cases hread'
          exact ⟨_, hd, by simp [hr, Except.toOption]⟩

theorem decodes_serialize {tx : CTransaction} (h : tx.SizesOk) :
    Decodes tx.serialize [tx.wire] := by
  have hread := CDataStream.transaction_serialize h []
  rw [append_nil] at hread
  refine .whole ?_ hread .nil
  by_contra hshort
  rw [CDataStream.transaction_short (by omega)] at hread
  cases hread

theorem Decodes.unique {txs' : List CTransaction} (h : Decodes bs txs) (h' : Decodes bs txs') :
    txs = txs' := by
  have hends := (ends_decode_iff [] txs).mpr ⟨txs, h, rfl⟩
  exact hends.unique ((ends_decode_iff [] txs').mpr ⟨txs', h', rfl⟩)

/-! ## §3. Signing. -/

theorem foldlM_eq_some_iff {σ α : Type} {f : σ → α → Option σ} {I : σ → Prop} {P : α → Prop}
    {l : List α} {s : σ} (hs : I s)
    (hsome : ∀ s, ∀ a ∈ l, I s → P a → ∃ s', f s a = some s' ∧ I s')
    (hnone : ∀ s, ∀ a ∈ l, I s → ¬P a → f s a = none) :
    (∃ t, l.foldlM f s = some t ∧ I t) ∧ (∀ a ∈ l, P a) ∨
      l.foldlM f s = none ∧ ¬∀ a ∈ l, P a := by
  induction l generalizing s with
  | nil => exact .inl ⟨⟨s, rfl, hs⟩, nofun⟩
  | cons a l ih =>
    rw [foldlM_cons, forall_mem_cons]
    by_cases hp : P a
    · obtain ⟨s', hs', hI⟩ := hsome s a mem_cons_self hs hp
      rw [hs']
      simpa [hp] using ih hI (fun s b hb => hsome s b (mem_cons_of_mem a hb))
        fun s b hb => hnone s b (mem_cons_of_mem a hb)
    · rw [hnone s a mem_cons_self hs hp]
      exact .inr ⟨rfl, fun h => hp h.1⟩

/-- The same transaction, but for its `scriptSig`s. -/
structure SameButScriptSigs (tx tx' : CTransaction) : Prop where
  rest : tx' = { tx with vin := tx'.vin }
  vin : tx'.vin.map forgetScripts = tx.vin.map forgetScripts

theorem SameButScriptSigs.setScriptSig {tx tx' : CTransaction} (h : SameButScriptSigs tx tx')
    (i : Nat) (scriptSig : CScript) : SameButScriptSigs tx (setScriptSig tx' i scriptSig) where
  rest := by
    rw [h.rest]
    rfl
  vin := by
    rw [← h.vin]
    apply ext_getElem?
    intro j
    simp only [Script.setScriptSig, getElem?_map, getElem?_modify]
    split
    · cases tx'.vin[j]? <;> rfl
    · simp

theorem SameButScriptSigs.length_eq {tx tx' : CTransaction} (h : SameButScriptSigs tx tx') :
    tx'.vin.length = tx.vin.length := by
  simpa using congrArg length h.vin

theorem SameButScriptSigs.prevout {tx tx' : CTransaction} (h : SameButScriptSigs tx tx') (i : Nat) :
    (tx'.vin[i]?).map CTxIn.prevout = (tx.vin[i]?).map CTxIn.prevout := by
  have hget := congrArg (fun l => (l[i]?).map CTxIn.prevout) h.vin
  simpa [Function.comp_def, forgetScripts] using hget

/-- Where a node signs: the wallet, the random numbers for each input, the block chain, and what
`CombineSignatures` makes of two `scriptSig`s. -/
structure SigningNode where
  S : SignEnv
  keystore : CKeyStore S
  rng : Nat → S.Rng
  chain : ChainEnv
  db : Records
  combineSignatures : CScript → CTransaction → Nat → CScript → CScript → CScript

variable (node : SigningNode)

/-- `mapPrevOut[prevout]`, from a `FetchInputs` for this input alone. -/
def SigningNode.prevPubKey (prevout : COutPoint) : Option CScript :=
  match fetchInput node.chain node.db ∅ false false ∅ ⟨prevout, [], [], 0⟩ with
  | .ok mapPrevTx =>
    (getOutputFor mapPrevTx ⟨prevout, [], [], 0⟩).map CTxOut.scriptPubKey
  | .error _ => none

/-- `txin.scriptSig = CombineSignatures(prevPubKey, mergedTx, i, txin.scriptSig,
txv.vin[i].scriptSig)` -/
def mergeVariant (prevPubKey : CScript) (i : Nat) (mergedTx txv : CTransaction) :
    Option CTransaction := do
  let txin ← mergedTx.vin[i]?
  let other ← txv.vin[i]?
  return setScriptSig mergedTx i
    (node.combineSignatures prevPubKey mergedTx i txin.scriptSig other.scriptSig)

/-- One input; `SIGHASH_ALL` needs no output for it. -/
def signVariant (txVariants : List CTransaction) (mergedTx : CTransaction) (i : Nat) :
    Option CTransaction := do
  let txin ← mergedTx.vin[i]?
  match node.prevPubKey txin.prevout with
  | none => return mergedTx
  | some prevPubKey =>
    let (_, signedTx) ← signSignature node.S node.keystore sighashAll prevPubKey
      (setScriptSig mergedTx i []) i (node.rng i)
    txVariants.foldlM (mergeVariant node prevPubKey i) signedTx

/-- What is done with `txVariants`; `none` where an index is out of range. -/
def signVariants (txVariants : List CTransaction) : Option CTransaction := do
  let mergedTx ← txVariants[0]?
  (range mergedTx.vin.length).foldlM (signVariant node txVariants) mergedTx

variable (rawTxHex : List Char)

/-- `SignMultiSigTransaction` comes to its end with `mergedTx`. -/
def SignMultiSig (mergedTx : CTransaction) : Prop :=
  ∃ txVariants, WhileLoop.Ends decodeTurn (parseHex rawTxHex, []) txVariants ∧
    signVariants node txVariants = some mergedTx

/-- `SignMultiSigTransaction` returns `result`. -/
def SignMultiSigReturns (rawTxHex result : List Char) : Prop :=
  ∃ mergedTx, SignMultiSig node rawTxHex mergedTx ∧ result = hexStr mergedTx.serialize

/-- Every transaction has an input for each of the first whose previous output is found. -/
def VariantsFit (tx : CTransaction) (txVariants : List CTransaction) : Prop :=
  ∀ i ∈ range tx.vin.length,
    ((tx.vin[i]?).bind fun txin => node.prevPubKey txin.prevout).isSome →
      ∀ txv ∈ txVariants, i < txv.vin.length

variable {node} {tx mergedTx : CTransaction} {txVariants : List CTransaction}

theorem mergeVariants_cases (prevPubKey : CScript) {i : Nat} (hi : i < tx.vin.length)
    (h : SameButScriptSigs tx mergedTx) :
    (∃ t, txVariants.foldlM (mergeVariant node prevPubKey i) mergedTx = some t ∧
      SameButScriptSigs tx t) ∧ (∀ txv ∈ txVariants, i < txv.vin.length) ∨
    txVariants.foldlM (mergeVariant node prevPubKey i) mergedTx = none ∧
      ¬∀ txv ∈ txVariants, i < txv.vin.length := by
  apply foldlM_eq_some_iff h
  · intro m txv _ hm hlt
    have him : i < m.vin.length := by rw [hm.length_eq]; exact hi
    refine ⟨_, ?_, hm.setScriptSig i (node.combineSignatures prevPubKey m i m.vin[i].scriptSig
      txv.vin[i].scriptSig)⟩
    simp [mergeVariant, getElem?_eq_getElem him, getElem?_eq_getElem hlt]
  · intro m txv _ _ hlt
    simp [mergeVariant, getElem?_eq_none (Nat.not_lt.mp hlt)]

/-- **One input** is signed unless a variant does not have it. -/
theorem signVariant_cases {i : Nat} (hi : i < tx.vin.length) (h : SameButScriptSigs tx mergedTx) :
    (∃ t, signVariant node txVariants mergedTx i = some t ∧ SameButScriptSigs tx t) ∧
      (((tx.vin[i]?).bind fun txin => node.prevPubKey txin.prevout).isSome →
        ∀ txv ∈ txVariants, i < txv.vin.length) ∨
    signVariant node txVariants mergedTx i = none ∧
      ¬(((tx.vin[i]?).bind fun txin => node.prevPubKey txin.prevout).isSome →
        ∀ txv ∈ txVariants, i < txv.vin.length) := by
  have him : i < mergedTx.vin.length := by rw [h.length_eq]; exact hi
  have hprevout := h.prevout i
  rw [getElem?_eq_getElem him, getElem?_eq_getElem hi, map_some, map_some,
    some_inj] at hprevout
  rw [signVariant, getElem?_eq_getElem him, getElem?_eq_getElem hi, bind_some,
    bind_eq_bind, bind_some, hprevout]
  cases node.prevPubKey tx.vin[i].prevout with
  | none => exact .inl ⟨⟨mergedTx, rfl, h⟩, nofun⟩
  | some prevPubKey =>
    have hin : i < (setScriptSig mergedTx i []).vin.length := by
      simpa [setScriptSig] using him
    obtain ⟨fSigned, scriptSig, hsigned⟩ :=
      signSignature_of_lt node.S node.keystore sighashAll prevPubKey (node.rng i) hin
    have hsame := (h.setScriptSig i []).setScriptSig i scriptSig
    simpa [hsigned] using mergeVariants_cases prevPubKey hi hsame

/-- **No index is out of range** exactly where there is a transaction and the others fit it. -/
theorem signVariants_cases (txs : List CTransaction) :
    (∃ mergedTx, signVariants node (tx :: txs) = some mergedTx ∧ SameButScriptSigs tx mergedTx) ∧
      VariantsFit node tx (tx :: txs) ∨
    signVariants node (tx :: txs) = none ∧ ¬VariantsFit node tx (tx :: txs) := by
  apply foldlM_eq_some_iff (I := SameButScriptSigs tx) ⟨rfl, rfl⟩
  · intro m i hi hm hp
    rcases signVariant_cases (mem_range.mp hi) hm with ⟨hsome, _⟩ | ⟨_, hnot⟩
    · exact hsome
    · exact absurd hp hnot
  · intro m i hi hm hp
    rcases signVariant_cases (mem_range.mp hi) hm with ⟨_, hfit⟩ | ⟨hnone, _⟩
    · exact absurd hfit hp
    · exact hnone

/-! ## §4. The two together. -/

variable (node) in
/-- The function returns, and one well-formed transaction comes back with other `scriptSig`s only. -/
def SignsSafely : Prop :=
  ∃ result, SignMultiSigReturns node rawTxHex result ∧
    ∀ tx : CTransaction, tx.SizesOk → parseHex rawTxHex = tx.serialize →
      ∃ mergedTx, result = hexStr mergedTx.serialize ∧ SameButScriptSigs tx.wire mergedTx

variable (node) in
/-- The string is used up by reads with at least four bytes before them, at least one of which reads
a transaction, and the transactions fit the first. -/
def Signable : Prop :=
  ∃ tx txs, Decodes (parseHex rawTxHex) (tx :: txs) ∧ VariantsFit node tx (tx :: txs)

theorem signMultiSig_of_decodes {rawTxHex : List Char} {txs : List CTransaction}
    (h : Decodes (parseHex rawTxHex) (tx :: txs)) (hfit : VariantsFit node tx (tx :: txs)) :
    ∃ mergedTx, SignMultiSig node rawTxHex mergedTx ∧ SameButScriptSigs tx mergedTx := by
  have hends := (ends_decode_iff [] (tx :: txs)).mpr ⟨tx :: txs, h, rfl⟩
  rcases signVariants_cases txs with ⟨⟨mergedTx, hsigned, hsame⟩, _⟩ | ⟨_, hnot⟩
  · exact ⟨mergedTx, ⟨_, hends, hsigned⟩, hsame⟩
  · exact absurd hfit hnot

/-- **A string that is signed** consists of such reads, and what they read first is signed. -/
theorem SignMultiSig.decodes {rawTxHex : List Char} (h : SignMultiSig node rawTxHex mergedTx) :
    ∃ tx txs, Decodes (parseHex rawTxHex) (tx :: txs) ∧ VariantsFit node tx (tx :: txs) ∧
      SameButScriptSigs tx mergedTx := by
  obtain ⟨txVariants, hends, hsigned⟩ := h
  obtain ⟨txs, hdecodes, rfl⟩ := (ends_decode_iff _ _).mp hends
  cases txVariants with
  | nil => cases hsigned
  | cons tx txs =>
    rcases @signVariants_cases node tx txs with ⟨⟨t, ht, hsame⟩, hfit⟩ | ⟨hnone, _⟩
    · rw [ht] at hsigned
      cases hsigned
      exact ⟨tx, txs, hdecodes, hfit, hsame⟩
    · rw [hnone] at hsigned
      cases hsigned

variable (node) in
/-- **`SignMultiSigTransaction` returns** for these strings and for no others. -/
theorem signMultiSig_returns_iff (rawTxHex : List Char) :
    SignsSafely node rawTxHex ↔ Signable node rawTxHex := by
  constructor
  · intro ⟨result, ⟨mergedTx, hsigned, _⟩, _⟩
    obtain ⟨tx, txs, hdecodes, hfit, _⟩ := hsigned.decodes
    exact ⟨tx, txs, hdecodes, hfit⟩
  · intro ⟨tx, txs, hdecodes, hfit⟩
    obtain ⟨mergedTx, hsigned, hsame⟩ := signMultiSig_of_decodes hdecodes hfit
    refine ⟨_, ⟨mergedTx, hsigned, rfl⟩, fun tx' hok hbytes => ⟨mergedTx, rfl, ?_⟩⟩
    -- the one transaction is all that is read
    rw [hbytes] at hdecodes
    cases hdecodes.unique (decodes_serialize hok)
    exact hsame

theorem signMultiSig_serialize (h : tx.SizesOk) :
    (∃ mergedTx, SignMultiSig node (hexStr tx.serialize) mergedTx) ∧
      ∀ mergedTx, SignMultiSig node (hexStr tx.serialize) mergedTx →
        SameButScriptSigs tx.wire mergedTx := by
  have hdecodes : Decodes (parseHex (hexStr tx.serialize)) [tx.wire] := by
    rw [parseHex_hexStr]
    exact decodes_serialize h
  constructor
  · have hfit : VariantsFit node tx.wire [tx.wire] := by
      intro i hi _ txv htxv
      rw [mem_singleton.mp htxv]
      exact mem_range.mp hi
    obtain ⟨mergedTx, hsigned, _⟩ := signMultiSig_of_decodes hdecodes hfit
    exact ⟨mergedTx, hsigned⟩
  · intro mergedTx hsigned
    obtain ⟨tx', txs, hdecodes', _, hsame⟩ := hsigned.decodes
    cases hdecodes.unique hdecodes'
    exact hsame

def emptyNode : SigningNode where
  S := sampleSignEnv
  keystore := sampleStore []
  rng _ := ()
  chain := sampleChainEnv []
  db := .empty
  combineSignatures _ _ _ scriptSig1 _ := scriptSig1

/-- One byte is tried for ever, and the empty string has no first transaction. -/
theorem signMultiSig_hangs :
    ¬SignsSafely emptyNode "00".toList ∧ ¬SignsSafely emptyNode "".toList := by
  constructor
  · intro ⟨_, ⟨_, hsigned, _⟩, _⟩
    obtain ⟨tx, txs, hdecodes, _⟩ := hsigned.decodes
    exact not_decodes_short (by decide) (by decide) hdecodes
  · intro ⟨_, ⟨_, hsigned, _⟩, _⟩
    obtain ⟨tx, txs, hdecodes, _⟩ := hsigned.decodes
    cases hdecodes with
    | whole hlen => exact absurd hlen (by decide)
    | torn hlen => exact absurd hlen (by decide)

end Fantom.Market
