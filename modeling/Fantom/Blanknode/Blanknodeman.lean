/-
  Fantom.Blanknode.Blanknodeman — `CBlanknodeMan`: the list of known blanknodes and their ranking
  for a block.

  A score is a distance between two hashes of a block hash, and a rank is the place of a blanknode
  in the list sorted by score.  `std::sort` leaves the order of equal scores open, so the sorted
  list is a parameter.
-/
import Fantom.Core.Signer

namespace Fantom.Blanknode

open Core

def MIN_INSTANTX_PROTO_VERSION : Int32 := 60020

/-- `CBlanknode`, as far as ranking and vote checking read it.  `enabled` is
`IsEnabled()` after `Check()`. -/
structure CBlanknode where
  vin : CTxIn
  pubkey2 : CPubKey
  protocolVersion : Int32
  enabled : Bool
deriving DecidableEq, Repr

structure CBlanknodeMan where
  vBlanknodes : List CBlanknode
  /-- `GetBlockHash(hash, nBlockHeight)` on the current chain. -/
  getBlockHash : Int32 → Option UInt256
  /-- `sort(rbegin, rend, CompareValueOnly())`: descending by score. -/
  sortScores : List (UInt32 × CTxIn) → List (UInt32 × CTxIn)

def sortDescending (scores : List (UInt32 × CTxIn)) : List (UInt32 × CTxIn) :=
  scores.foldr (fun s sorted =>
    sorted.takeWhile (fun t => t.1 > s.1) ++ s :: sorted.dropWhile (fun t => t.1 > s.1)) []

variable (H : Hashes) (man : CBlanknodeMan)

/-- `CBlanknode::CalculateScore(1, nBlockHeight)`. -/
def CBlanknode.calculateScore (sn : CBlanknode) (nBlockHeight : Int32) : UInt256 :=
  match man.getBlockHash nBlockHeight with
  | none => 0
  | some hash =>
    let aux := sn.vin.prevout.hash + BitVec.ofNat 256 sn.vin.prevout.n.toNat
    let hash2 := H.hash (leBytes 32 hash.toNat)
    let hash3 := H.hash (leBytes 32 hash.toNat ++ leBytes 32 aux.toNat)
    if hash3 > hash2 then hash3 - hash2 else hash2 - hash3

/-- The sorted scores `GetBlanknodeRank` and `GetBlanknodeByRank` walk along;
the score is cut down to its low 32 bits. -/
def CBlanknodeMan.scores (nBlockHeight minProtocol : Int32) (fOnlyActive : Bool) :
    List (UInt32 × CTxIn) :=
  man.sortScores <| man.vBlanknodes.filterMap fun sn =>
    if sn.protocolVersion < minProtocol then none
    else if fOnlyActive && !sn.enabled then none
    else some (UInt32.ofNat (sn.calculateScore H man nBlockHeight).toNat, sn.vin)

/-- `CBlanknodeMan::Find(vin)`: by outpoint. -/
def CBlanknodeMan.find (vin : CTxIn) : Option CBlanknode :=
  man.vBlanknodes.find? fun sn => sn.vin.prevout == vin.prevout

/-- `CBlanknodeMan::GetBlanknodeRank`, from 1 on; `-1` when unknown.  The whole
input is compared here, not its outpoint alone. -/
def CBlanknodeMan.getBlanknodeRank (vin : CTxIn) (nBlockHeight minProtocol : Int32)
    (fOnlyActive : Bool) : Int :=
  match man.getBlockHash nBlockHeight with
  | none => -1
  | some _ =>
    match (man.scores H nBlockHeight minProtocol fOnlyActive).findIdx?
      (fun s => s.2.eqv vin) with
    | some i => i + 1
    | none => -1

def CBlanknodeMan.getBlanknodeByRank (nRank : Nat) (nBlockHeight minProtocol : Int32)
    (fOnlyActive : Bool) : Option CBlanknode :=
  match nRank with
  | 0 => none
  | i + 1 =>
    (man.scores H nBlockHeight minProtocol fOnlyActive)[i]?.bind fun s => man.find s.2

end Fantom.Blanknode
