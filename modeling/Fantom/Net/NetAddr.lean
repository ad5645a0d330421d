/-
  Fantom.Net.NetAddr — Network addresses and their groups.

  * `getGroup` — the range that an address belongs to,
  * `CService`, `CAddress` — an address with its port, and with what peers say of it.
-/
import Fantom.Core.Primitives

namespace Fantom.Net

open Core

/-! ## §1. Addresses. -/

/-- `CNetAddr`.  `operator<` compares the bytes as `memcmp` does: it is the order of the
numbers. -/
abbrev CNetAddr := BitVec 128

instance : Std.TransOrd CNetAddr := BitVec.instTransOrd

namespace CNetAddr

variable (ip : CNetAddr)

/-- `GetByte`: the last byte has number 0. -/
def getByte (n : Nat) : UInt8 := UInt8.ofNat (ip.toNat >>> (8 * n))

/-- `ip[0]` to `ip[15]` -/
def bytes : List UInt8 := (List.range 16).map fun i => ip.getByte (15 - i)

/-- `memcmp(ip, pch, sizeof(pch)) == 0` -/
def startsWith (pch : List UInt8) : Bool := pch.isPrefixOf ip.bytes

def pchIPv4 : List UInt8 := List.replicate 10 0 ++ [0xff, 0xff]

def pchOnionCat : List UInt8 := [0xFD, 0x87, 0xD8, 0x7E, 0xEB, 0x43]

def pchGarliCat : List UInt8 := [0xFD, 0x60, 0xDB, 0x4D, 0xDD, 0xB5]

variable (ip : CNetAddr)

def isIPv4 : Bool := ip.startsWith pchIPv4

def isRFC1918 : Bool :=
  ip.isIPv4 && (ip.getByte 3 == 10 || (ip.getByte 3 == 192 && ip.getByte 2 == 168) ||
    (ip.getByte 3 == 172 && (ip.getByte 2 ≥ 16 && ip.getByte 2 ≤ 31)))

def isRFC3927 : Bool := ip.isIPv4 && (ip.getByte 3 == 169 && ip.getByte 2 == 254)

def isRFC3849 : Bool := ip.startsWith [0x20, 0x01, 0x0D, 0xB8]

def isRFC3964 : Bool := ip.startsWith [0x20, 0x02]

def isRFC6052 : Bool := ip.startsWith [0, 0x64, 0xFF, 0x9B, 0, 0, 0, 0, 0, 0, 0, 0]

def isRFC4380 : Bool := ip.startsWith [0x20, 0x01, 0, 0]

def isRFC4862 : Bool := ip.startsWith [0xFE, 0x80, 0, 0, 0, 0, 0, 0]

def isRFC4193 : Bool := ip.getByte 15 &&& 0xFE == 0xFC

def isRFC6145 : Bool := ip.startsWith [0, 0, 0, 0, 0, 0, 0, 0, 0xFF, 0xFF, 0, 0]

def isRFC4843 : Bool :=
  ip.startsWith [0x20, 0x01, 0x00] && ip.getByte 12 &&& 0xF0 == 0x10

def isTor : Bool := ip.startsWith pchOnionCat

def isI2P : Bool := ip.startsWith pchGarliCat

def isLocal : Bool :=
  -- IPv4 loopback
  if ip.isIPv4 && (ip.getByte 3 == 127 || ip.getByte 3 == 0) then true
  -- IPv6 loopback
  else ip.startsWith (List.replicate 15 0 ++ [1])

/-- `CNetAddr::IsValid` -/
def isValid : Bool :=
  if ip.startsWith (pchIPv4.drop 3) then false
  else if ip.startsWith (List.replicate 16 0) then false
  else if ip.isRFC3849 then false
  else if ip.isIPv4 then
    -- INADDR_NONE, and 0
    !(ip.bytes.drop 12 == List.replicate 4 0xff) && !(ip.bytes.drop 12 == List.replicate 4 0)
  else true

def isRoutable : Bool :=
  ip.isValid && !(ip.isRFC1918 || ip.isRFC3927 || ip.isRFC4862 ||
    (ip.isRFC4193 && !ip.isTor && !ip.isI2P) || ip.isRFC4843 || ip.isLocal)

/-- The loop of `GetGroup` over whole bytes, and the bits of the next one. -/
def groupBits (nStartByte : Nat) (nBits : Nat) : List UInt8 :=
  (List.range (nBits / 8)).map (fun i => ip.getByte (15 - (nStartByte + i))) ++
    if nBits % 8 = 0 then []
    else [ip.getByte (15 - (nStartByte + nBits / 8)) ||| UInt8.ofNat (2 ^ (nBits % 8) - 1)]

/-- `GetGroup`.  `NET_UNROUTABLE` is 0, `NET_IPV4` 1, `NET_IPV6` 2, `NET_TOR` 3, `NET_I2P` 4. -/
def getGroup : List UInt8 :=
  -- a local address is not routable either
  if !ip.isRoutable then [0]
  else if ip.isIPv4 || ip.isRFC6145 || ip.isRFC6052 then 1 :: ip.groupBits 12 16
  else if ip.isRFC3964 then 1 :: ip.groupBits 2 16
  else if ip.isRFC4380 then [1, ip.getByte 3 ^^^ 0xFF, ip.getByte 2 ^^^ 0xFF]
  else if ip.isTor then 3 :: ip.groupBits 6 4
  else if ip.isI2P then 4 :: ip.groupBits 6 4
  else if ip.startsWith [0x20, 0x11, 0x04, 0x70] then 2 :: ip.groupBits 0 36
  else 2 :: ip.groupBits 0 32

-- an IPv4 address belongs to its first two bytes
example : getGroup 0x00000000000000000000FFFF08080404#128 = [1, 8, 8] := by decide +kernel

end CNetAddr

/-! ## §2. Addresses with a port. -/

/-- `CService` -/
structure CService where
  ip : CNetAddr
  port : UInt16
deriving DecidableEq

def CService.getKey (addr : CService) : List UInt8 :=
  addr.ip.bytes ++ [UInt8.ofNat (addr.port.toNat / 0x100), UInt8.ofNat (addr.port.toNat % 0x100)]

/-- `CAddress` -/
structure CAddress extends CService where
  nServices : UInt64
  nTime : UInt32
  /-- In memory only. -/
  nLastTry : Int64
deriving DecidableEq

end Fantom.Net
