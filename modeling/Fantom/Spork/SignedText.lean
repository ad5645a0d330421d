/-
  Fantom.Spork.SignedText — What a spork signature authorises.  The signed text joins three decimal
  numbers without separators, so a text may read as several triples.

  * `signature_binds_iff` — the triples whose signature authorises nothing else.
-/
import Fantom.Spork.Spork

namespace Fantom.Spork

open Core Lib List

/-! ## §1. The readings of a text. -/

variable (s : List Char)

/-- The `int` a text is the decimal text of. -/
def readInt32 : Option Int32 :=
  (readDecimal s).bind fun n => if (Int32.ofInt n).toInt = n then some (Int32.ofInt n) else none

/-- The `int64_t` a text is the decimal text of. -/
def readInt64 : Option Int64 :=
  (readDecimal s).bind fun n => if (Int64.ofInt n).toInt = n then some (Int64.ofInt n) else none

theorem readFixed_eq_some {α : Type} {toInt : α → Int} {ofInt : Int → α}
    (hround : ∀ v, ofInt (toInt v) = v) {read : Option Int} {v : α} :
    (read.bind fun n => if toInt (ofInt n) = n then some (ofInt n) else none) = some v ↔
      read = some (toInt v) := by
  rw [Option.bind_eq_some_iff]
  constructor
  · intro h
    obtain ⟨n, hn, h⟩ := h
    split at h
    next he =>
      cases h
      rw [he, hn]
    next => cases h
  · intro h
    refine ⟨toInt v, h, ?_⟩
    rw [hround, if_pos rfl]

theorem readInt32_eq_some {s : List Char} {v : Int32} :
    readInt32 s = some v ↔ decimal v.toInt = s := by
  rw [← readDecimal_eq_some]
  exact readFixed_eq_some Int32.ofInt_toInt

theorem readInt64_eq_some {s : List Char} {v : Int64} :
    readInt64 s = some v ↔ decimal v.toInt = s := by
  rw [← readDecimal_eq_some]
  exact readFixed_eq_some Int64.ofInt_toInt

def readTriple (a b c : List Char) : Option (Int32 × Int64 × Int64) := do
  let nSporkID ← readInt32 a
  let nValue ← readInt64 b
  let nTimeSigned ← readInt64 c
  some (nSporkID, nValue, nTimeSigned)

/-- The triples read from a text, over all pairs of cut points. -/
def readings : List (Int32 × Int64 × Int64) :=
  (cuts s).flatMap fun p => (cuts p.2).filterMap fun q => readTriple p.1 q.1 q.2

theorem readTriple_eq_some {a b c : List Char} {t : Int32 × Int64 × Int64} :
    readTriple a b c = some t ↔
      decimal t.1.toInt = a ∧ decimal t.2.1.toInt = b ∧ decimal t.2.2.toInt = c := by
  obtain ⟨x, y, z⟩ := t
  unfold readTriple
  simp only [Option.bind_eq_bind, Option.bind_eq_some_iff, Option.some.injEq, Prod.mk.injEq,
    readInt32_eq_some, readInt64_eq_some]
  constructor
  · intro h
    obtain ⟨_, hx, _, hy, _, hz, rfl, rfl, rfl⟩ := h
    exact ⟨hx, hy, hz⟩
  · intro h
    obtain ⟨hx, hy, hz⟩ := h
    exact ⟨x, hx, y, hy, z, hz, rfl, rfl, rfl⟩

theorem mem_readings {s : List Char} {t : Int32 × Int64 × Int64} :
    t ∈ readings s ↔ tripleText t = s := by
  unfold readings tripleText
  simp only [mem_flatMap, mem_filterMap, Prod.exists, mem_cuts, readTriple_eq_some]
  constructor
  · intro h
    obtain ⟨a, r, hr, b, c, hc, ha, hb, hc'⟩ := h
    rw [ha, hb, hc', append_assoc, hc, hr]
  · intro h
    refine ⟨decimal t.1.toInt, decimal t.2.1.toInt ++ decimal t.2.2.toInt, ?_,
      decimal t.2.1.toInt, decimal t.2.2.toInt, rfl, rfl, rfl, rfl⟩
    rw [← append_assoc, h]

/-- No other pair of cut points of the signed text gives three decimal numbers
in range. -/
def UniqueReading (spork : CSporkMessage) : Prop :=
  ∀ t ∈ readings spork.strMessage, t = spork.triple

instance (spork : CSporkMessage) : Decidable (UniqueReading spork) :=
  decidableBAll (fun t => t = spork.triple) (readings spork.strMessage)

/-! ## §2. What a signature authorises. -/

/-- A triple as a message with a given signature. -/
def withSignature (vchSig : List UInt8) (t : Int32 × Int64 × Int64) : CSporkMessage :=
  ⟨vchSig, t.1, t.2.1, t.2.2⟩

theorem texts_differ_iff (spork : CSporkMessage) :
    (∀ spork' : CSporkMessage, spork'.triple ≠ spork.triple →
      spork'.strMessage ≠ spork.strMessage) ↔ UniqueReading spork := by
  constructor
  · intro h t ht
    by_cases heq : t = spork.triple
    · exact heq
    · exact absurd (mem_readings.mp ht) (h (withSignature [] t) heq)
  · intro h spork' hne heq
    exact hne (h spork'.triple (mem_readings.mpr heq))

variable {C : Crypto}

theorem relayed_checkSignature {env : SporkEnv C} {st : Sporks} {spork : CSporkMessage}
    (h : (processSpork env st spork).2 = .relayed) :
    env.sporkManager.checkSignature spork = true := by
  unfold processSpork at h
  cases hc : env.sporkManager.checkSignature spork with
  | true => rfl
  | false =>
    rw [hc] at h
    split at h
    · cases h
    · split at h <;> cases h

theorem relayed_of_empty {env : SporkEnv C} (hlite : env.fLiteMode = false)
    (hbest : env.noBestBlock = false) {spork : CSporkMessage}
    (h : env.sporkManager.checkSignature spork = true) :
    (processSpork env Sporks.empty spork).2 = .relayed := by
  unfold processSpork
  simp [hlite, hbest, h, Sporks.empty]

theorem tripleText_ascii (t : Int32 × Int64 × Int64) : ∀ c ∈ tripleText t, c.toNat < 128 := by
  intro c hc
  rcases mem_append.mp hc with hc | hc
  · rcases mem_append.mp hc with hc | hc
    · exact decimal_ascii _ c hc
    · exact decimal_ascii _ c hc
  · exact decimal_ascii _ c hc

/-- **What a spork signature authorises.**  The signed text of a message is the
text of no other triple exactly when it reads in one way only.  The same
condition decides whether an unforgeable signature, one that verifies for no
other bytes, is ever accepted by `ProcessSpork` for another triple. -/
theorem signature_binds_iff (spork : CSporkMessage) :
    ((∀ spork' : CSporkMessage, spork'.triple ≠ spork.triple →
        spork'.strMessage ≠ spork.strMessage) ↔ UniqueReading spork) ∧
    ∀ (C : Crypto) (env : SporkEnv C), env.fLiteMode = false → env.noBestBlock = false →
      env.sporkManager.checkSignature spork = true →
      (∀ s, verifyMessage C env.sporkManager.mainPubKey spork.vchSig s = true →
        textBytes s = textBytes spork.strMessage) →
      ((∀ (st : Sporks) (spork' : CSporkMessage), spork'.vchSig = spork.vchSig →
          (processSpork env st spork').2 = .relayed → spork'.triple = spork.triple) ↔
        UniqueReading spork) := by
  refine ⟨texts_differ_iff spork, ?_⟩
  intro C env hlite hbest hsigned hforge
  constructor
  · -- another reading of the text is a message this signature is accepted for
    intro h t ht
    have htext : (withSignature spork.vchSig t).strMessage = spork.strMessage :=
      mem_readings.mp ht
    have hcheck : env.sporkManager.checkSignature (withSignature spork.vchSig t) = true := by
      unfold CSporkManager.checkSignature at hsigned ⊢
      rw [htext]
      exact hsigned
    exact h Sporks.empty (withSignature spork.vchSig t) rfl
      (relayed_of_empty hlite hbest hcheck)
  · intro h st spork' hsig hrel
    have hcheck := relayed_checkSignature hrel
    rw [CSporkManager.checkSignature, hsig] at hcheck
    have htext : spork'.strMessage = spork.strMessage :=
      textBytes_inj (fun c hc => (tripleText_ascii _ c hc).trans (by decide))
        (fun c hc => (tripleText_ascii _ c hc).trans (by decide)) (hforge _ hcheck)
    exact h spork'.triple (mem_readings.mpr htext)

/-! ## §3. Both sides are inhabited. -/

def bytes107 : List UInt8 :=
  serializeBytes (textBytes strMessageMagic) ++ serializeBytes (textBytes (tripleText (1, 0, 7)))

def oneTextCrypto : Crypto where
  hash bs := if bs = bytes107 then 1 else 0
  hash160 bs := BitVec.ofNat 160 (polyHash bs)
  velvetHash bs nNonce := BitVec.ofNat 256 (polyHash bs + nNonce.toNat)
  CKey := Unit
  getPubKey _ := [2]
  signCompact _ hash := if hash = 1 then some (replicate 65 27) else none
  recover hash _ _ _ := if hash = 1 then some [2] else none

def oneTextEnv : SporkEnv oneTextCrypto where
  fLiteMode := false
  noBestBlock := false
  sporkManager := { mainPubKey := [2], masterPrivKey := some () }
  getHash m := BitVec.ofNat 256 m.nTimeSigned.toUInt64.toNat

/-- The signature of `(1, 0, 7)` authorises `(1, 0, 7)` alone. -/
theorem signature_binds_107 :
    UniqueReading (withSignature (replicate 65 27) (1, 0, 7)) ∧
    ∀ (st : Sporks) (spork' : CSporkMessage), spork'.vchSig = replicate 65 27 →
      (processSpork oneTextEnv st spork').2 = .relayed → spork'.triple = (1, 0, 7) := by
  have hread : UniqueReading (withSignature (replicate 65 27) (1, 0, 7)) := by
    decide +kernel
  refine ⟨hread, ((signature_binds_iff (withSignature (replicate 65 27) (1, 0, 7))).2
    oneTextCrypto oneTextEnv rfl rfl (by decide +kernel) ?_).mpr hread⟩
  intro s hs
  have hhash : messageHash oneTextCrypto s = 1 := by
    by_contra hne
    have hrec : recoverCompact oneTextCrypto (messageHash oneTextCrypto s)
        (replicate 65 27) = none := by
      show (if _ then none else if messageHash oneTextCrypto s = 1 then _ else none) = none
      rw [if_neg hne, ite_self]
    have hs' : verifyMessage oneTextCrypto [2] (replicate 65 27) s = true := hs
    rw [verifyMessage, hrec] at hs'
    cases hs'
  have hbytes : serializeBytes (textBytes strMessageMagic) ++ serializeBytes (textBytes s) =
      bytes107 := by
    by_contra hne
    have : messageHash oneTextCrypto s = 0 := if_neg hne
    rw [hhash] at this
    exact absurd this (by decide)
  exact serializeBytes_inj (append_cancel_left hbytes)

/-- One text, two triples: the signature made for the value `1424217600` at the
time `1446336000` is accepted for the value `14242176001` at `446336000`. -/
theorem signature_not_binding :
    let honest := sampleSpork 5 (SPORK_3_INSTANTX_BLOCK_FILTERING, 1424217600, 1446336000)
    let forged := withSignature honest.vchSig
      (SPORK_3_INSTANTX_BLOCK_FILTERING, 14242176001, 446336000)
    forged.triple ≠ honest.triple ∧ forged.strMessage = honest.strMessage ∧
      (processSpork sampleSporkEnv Sporks.empty forged).2 = .relayed := by
  decide +kernel

end Fantom.Spork
