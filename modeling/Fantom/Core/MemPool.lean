/-
  Fantom.Core.MemPool — `CTxMemPool`: the transactions that wait for a block, and the spender of
  each outpoint they spend.
-/
import Fantom.Core.Transaction
import Fantom.Lib.StdMap

namespace Fantom.Core

open Lib

/-- `operator==` on transactions. -/
def CTransaction.eqv (a b : CTransaction) : Bool :=
  a.nVersion == b.nVersion && a.nTime == b.nTime && a.vin.isEqv b.vin CTxIn.eqv &&
    a.vout == b.vout && a.nLockTime == b.nLockTime

/-- `CInPoint`, with the id of the pool transaction for the pointer to it. -/
structure CInPoint where
  ptx : UInt256
  n : Nat
deriving DecidableEq

structure CTxMemPool where
  nTransactionsUpdated : UInt32
  mapTx : StdMap UInt256 CTransaction
  mapNextTx : StdMap COutPoint CInPoint

namespace CTxMemPool

def empty : CTxMemPool := ⟨0, ∅, ∅⟩

variable (pool : CTxMemPool)

def lookup (hash : UInt256) : Option CTransaction := pool.mapTx[hash]?

def addTransactionsUpdated (n : UInt32) : CTxMemPool :=
  { pool with nTransactionsUpdated := pool.nTransactionsUpdated + n }

def addUnchecked (hash : UInt256) (tx : CTransaction) : CTxMemPool where
  nTransactionsUpdated := pool.nTransactionsUpdated + 1
  mapTx := pool.mapTx.insert hash tx
  mapNextTx := tx.vin.zipIdx.foldl
    (fun mapNextTx i => mapNextTx.insert i.1.prevout ⟨hash, i.2⟩) pool.mapNextTx

/-- `*it->second.ptx` for the entry of an outpoint. -/
def spender (o : COutPoint) : Option CTransaction :=
  (pool.mapNextTx[o]?).bind fun inpoint => pool.mapTx[inpoint.ptx]?

/-- The end of `remove`: the entries of a transaction go. -/
def erase (pool : CTxMemPool) (hash : UInt256) (tx : CTransaction) : CTxMemPool where
  nTransactionsUpdated := pool.nTransactionsUpdated + 1
  mapTx := pool.mapTx.erase hash
  mapNextTx := tx.vin.foldl (fun mapNextTx txin => mapNextTx.erase txin.prevout) pool.mapNextTx

theorem mapTx_addUnchecked (hash i : UInt256) (tx : CTransaction) :
    (pool.addUnchecked hash tx).mapTx[i]? = if hash = i then some tx else pool.mapTx[i]? :=
  StdMap.get_insert pool.mapTx hash i tx

theorem mapTx_erase (hash i : UInt256) (tx : CTransaction) :
    (pool.erase hash tx).mapTx[i]? = if hash = i then none else pool.mapTx[i]? :=
  StdMap.get_erase pool.mapTx hash i

variable (H : Hashes)

/-- `remove(tx, true)`, down to a depth of descendants. -/
def removeWithin : Nat → CTxMemPool → CTransaction → CTxMemPool
  | 0, pool, _ => pool
  | depth + 1, pool, tx =>
    let hash := tx.getHash H
    if pool.mapTx.contains hash then
      let pool := (List.range tx.vout.length).foldl (fun pool i =>
        match pool.spender ⟨hash, UInt32.ofNat i⟩ with
        | some child => removeWithin depth pool child
        | none => pool) pool
      pool.erase hash tx
    else pool

/-- `remove`.  A line of descendants is no longer than the pool, since every
transaction is on it once. -/
def remove (pool : CTxMemPool) (tx : CTransaction) (fRecursive : Bool) : CTxMemPool :=
  if fRecursive then removeWithin H (pool.mapTx.size + 1) pool tx
  else if pool.mapTx.contains (tx.getHash H) then pool.erase (tx.getHash H) tx
  else pool

def removeConflicts (pool : CTxMemPool) (tx : CTransaction) : CTxMemPool :=
  tx.vin.foldl (fun pool txin =>
    match pool.spender txin.prevout with
    | some txConflict => if txConflict.eqv tx then pool else pool.remove H txConflict true
    | none => pool) pool

def clear : CTxMemPool := ⟨pool.nTransactionsUpdated + 1, ∅, ∅⟩

end CTxMemPool

end Fantom.Core
