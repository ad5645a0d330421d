/-
  Fantom.Chain.SetBestChain — The best chain: how a node moves from one best block to another.

  * `setBestChainInner` — connecting one more block in a transaction of its own,
  * `setBestChain` — extension, or `reorganize` as far as needed and then block by block.

  A call returns how it ended and the node it leaves.  Until its last lines `pindexBest` is the best
  block from before the call, whatever was connected.
-/
import Fantom.Chain.ConnectBlock

namespace Fantom.Chain

open Core Lib

/-! ## §1. The node. -/

/-- The globals of the best chain, with the database handle of the caller. -/
structure Node where
  txdb : CTxDB
  mem : IndexMem
  pool : CTxMemPool
  pindexGenesisBlock : Option CBlockIndex
  pindexBest : Option CBlockIndex
  hashBestChain : UInt256
  nBestHeight : Int
  nBestChainTrust : UInt256
  nBestInvalidTrust : UInt256
  nTimeBestReceived : Int64

namespace Node

/-- A node before its genesis block, over an empty database. -/
def initial : Node where
  txdb := ⟨Records.empty, none⟩
  mem := ⟨fun _ => none, fun _ => 0, fun _ => 0⟩
  pool := .empty
  pindexGenesisBlock := none
  pindexBest := none
  hashBestChain := 0
  nBestHeight := -1
  nBestChainTrust := 0
  nBestInvalidTrust := 0
  nTimeBestReceived := 0

/-- `CTxDB txdb;`: a handle without a batch. -/
def openTxDB (node : Node) : Node := { node with txdb := ⟨node.txdb.disk, none⟩ }

def txnBegin (node : Node) : Node := { node with txdb := node.txdb.txnBegin }

def txnAbort (node : Node) : Node := { node with txdb := node.txdb.txnAbort }

end Node

variable (env : ChainEnv)

def withPool (pool : CTxMemPool) : ChainEnv := { env with mempoolLookup := pool.lookup }

/-- `InvalidChainFound`, without the log.  It writes through a handle of its
own. -/
def invalidChainFound (node : Node) (pindexNew : CBlockIndex) : Node :=
  if pindexNew.nChainTrust > node.nBestInvalidTrust then
    { node with
      nBestInvalidTrust := pindexNew.nChainTrust
      txdb := { node.txdb with
        disk := node.txdb.disk.writeBestInvalidTrust pindexNew.nChainTrust } }
  else node

/-- `WriteHashBestChain` and `TxnCommit` after the writes that led to `db`. -/
def commitHashBestChain (txdb : CTxDB) (db : Records) (hash : UInt256) : Bool × CTxDB :=
  let txdb := txdb.write fun _ => db.writeHashBestChain hash
  let fOk := env.txnCommitOk txdb.view
  (fOk, txdb.txnCommit fOk)

/-- `CBlock::ReadFromDisk(pindex)`. -/
def readFromDisk (pindex : CBlockIndex) : Option CBlock :=
  (env.readBlock pindex.data.nFile.1 pindex.data.nBlockPos).filter fun b =>
    (b.isProofOfStake || checkProofOfWork (b.getPoWHash env.H) b.nBits) &&
      b.getHash env.H == pindex.getBlockHash

variable (mem : IndexMem)

/-- `pindex->pprev->pnext = pindex`, where there is a `pprev`. -/
def linkNext (pindex : CBlockIndex) : IndexMem :=
  match pindex.pprev with
  | none => mem
  | some pprev => { mem with pnext := Function.update mem.pnext pprev (some pindex) }

/-- `pindex->pprev->pnext = NULL`, where there is a `pprev`. -/
def unlinkNext (pindex : CBlockIndex) : IndexMem :=
  match pindex.pprev with
  | none => mem
  | some pprev => { mem with pnext := Function.update mem.pnext pprev none }

/-! ## §2. Reorganize. -/

/-- `while (plonger->nHeight > nHeight) plonger = plonger->pprev`. -/
def descend (nHeight : Nat) : CBlockIndex → CBlockIndex
  | .root d => .root d
  | .child p d => if p.nHeight + 1 > nHeight then descend nHeight p else .child p d

/-- The search for the fork, from `pfork` and `plonger` down. -/
def findFork : CBlockIndex → CBlockIndex → Option CBlockIndex
  | .root d, plonger => if .root d = descend 0 plonger then some (.root d) else none
  | .child p d, plonger =>
    if .child p d = descend (p.nHeight + 1) plonger then some (.child p d)
    else findFork p (descend (p.nHeight + 1) plonger)

/-- `for (pindex = from; pindex != pfork; pindex = pindex->pprev)`. -/
def backTo (pfork pindex : CBlockIndex) : List CBlockIndex :=
  pindex.branch.takeWhile (· != pfork)

/-- A failure inside a step, as that step reports it. -/
def Failure.under (msg : String) : Failure → Failure
  | rejected _ _ => error msg
  | threw what => threw what

/-- One block of `vDisconnect`, after the transactions to resurrect so far. -/
def disconnectOne (st : Records × List CTransaction) (pindex : CBlockIndex) :
    Except Failure (Records × List CTransaction) := do
  let block ← required (readFromDisk env pindex)
    (.error "Reorganize() : ReadFromDisk for disconnect failed")
  let db ← (disconnectBlock env mem st.1 block pindex).mapError
    (.under ("Reorganize() : DisconnectBlock " ++ pindex.getBlockHash.toHex ++ " failed"))
  return (db, block.vtx.filter (fun tx => !(tx.isCoinBase || tx.isCoinStake) &&
    decide (pindex.nHeight > env.nTotalBlocksEstimate)) ++ st.2)

/-- One block of `vConnect`, after the transactions to delete so far. -/
def connectOne (pindexBest : CBlockIndex) (st : IndexMem × Records × List CTransaction)
    (pindex : CBlockIndex) : Except Failure (IndexMem × Records × List CTransaction) := do
  let (mem, db, vDelete) := st
  let block ← required (readFromDisk env pindex)
    (.error "Reorganize() : ReadFromDisk for connect failed")
  let (mem, db) ← (connectBlock env pindexBest mem db block pindex false).mapError
    (.under ("Reorganize() : ConnectBlock " ++ pindex.getBlockHash.toHex ++ " failed"))
  return (mem, db, vDelete ++ block.vtx)

/-- One transaction of `vResurrect`. -/
def resurrect (db : Records) (pindexBest : CBlockIndex) (pool : CTxMemPool) (tx : CTransaction) :
    CTxMemPool :=
  if env.acceptToMemoryPool db pindexBest pool tx then pool.addUnchecked (tx.getHash env.H) tx
  else pool

/-- One transaction of `vDelete`. -/
def deleteRedundant (pool : CTxMemPool) (tx : CTransaction) : CTxMemPool :=
  (pool.remove env.H tx false).removeConflicts env.H tx

/-- `Reorganize`, inside a database transaction.  A failure is reported without
a node: nothing but the batch has changed by then. -/
def reorganize (node : Node) (pindexBest pindexNew : CBlockIndex) : Except Failure Node := do
  let env := withPool env node.pool
  let pfork ← required (findFork pindexBest pindexNew)
    (.error "Reorganize() : pfork->pprev is null")
  let vDisconnect := backTo pfork pindexBest
  let vConnect := (backTo pfork pindexNew).reverse
  let (db, vResurrect) ← vDisconnect.foldlM (disconnectOne env node.mem) (node.txdb.view, [])
  let (mem, db, vDelete) ← vConnect.foldlM (connectOne env pindexBest) (node.mem, db, [])
  let (fOk, txdb) := commitHashBestChain env node.txdb db pindexNew.getBlockHash
  rejectIf (!fOk) (.error "Reorganize() : TxnCommit failed")
  let pool := vResurrect.foldl (resurrect env txdb.disk pindexBest) node.pool
  return { node with
    txdb := txdb
    mem := vConnect.foldl linkNext (vDisconnect.foldl unlinkNext mem)
    pool := vDelete.foldl (deleteRedundant env) pool }

variable {node node' : Node} {pindexBest pindexNew : CBlockIndex}

theorem reorganize_eq_ok (h : reorganize env node pindexBest pindexNew = .ok node') :
    ∃ pfork db vResurrect mem db' vDelete txdb,
      findFork pindexBest pindexNew = some pfork ∧
      (backTo pfork pindexBest).foldlM (disconnectOne (withPool env node.pool) node.mem)
        (node.txdb.view, []) = .ok (db, vResurrect) ∧
      (backTo pfork pindexNew).reverse.foldlM (connectOne (withPool env node.pool) pindexBest)
        (node.mem, db, []) = .ok (mem, db', vDelete) ∧
      commitHashBestChain (withPool env node.pool) node.txdb db' pindexNew.getBlockHash =
        (true, txdb) ∧
      node' = { node with
        txdb := txdb
        mem := (backTo pfork pindexNew).reverse.foldl linkNext
          ((backTo pfork pindexBest).foldl unlinkNext mem)
        pool := vDelete.foldl (deleteRedundant (withPool env node.pool))
          (vResurrect.foldl (resurrect (withPool env node.pool) txdb.disk pindexBest)
            node.pool) } := by
  unfold reorganize at h
  obtain ⟨pfork, hfork, h⟩ := bind_eq_ok.mp h
  obtain ⟨⟨db, vResurrect⟩, hdisconnect, h⟩ := bind_eq_ok.mp h
  obtain ⟨⟨mem, db', vDelete⟩, hconnect, h⟩ := bind_eq_ok.mp h
  dsimp only at h
  obtain ⟨_, hok, h⟩ := bind_eq_ok.mp h
  cases pure_eq_ok.mp h
  rw [rejectIf_eq_ok, Bool.not_eq_false'] at hok
  exact ⟨pfork, db, vResurrect, mem, db', vDelete, _, required_eq_ok.mp hfork, hdisconnect,
    hconnect, Prod.ext hok rfl, rfl⟩

/-! ## §3. SetBestChain. -/

/-- The end of `SetBestChainInner`, when the block is connected. -/
def commitInner (node : Node) (b : CBlock) (pindexNew : CBlockIndex) (mem : IndexMem)
    (db : Records) : Except Failure Unit × Node :=
  match commitHashBestChain env node.txdb db (b.getHash env.H) with
  | (true, txdb) =>
    (.ok (), { node with
      txdb := txdb
      mem := linkNext mem pindexNew
      pool := b.vtx.foldl (fun pool tx => pool.remove env.H tx false) node.pool })
  | (false, txdb) =>
    (.error (.error "SetBestChain() : TxnCommit failed"), { node with txdb := txdb, mem := mem })

def setBestChainInner (node : Node) (pindexBest : CBlockIndex) (b : CBlock)
    (pindexNew : CBlockIndex) : Except Failure Unit × Node :=
  match connectBlock (withPool env node.pool) pindexBest node.mem node.txdb.view b pindexNew
      false with
  | .ok (mem, db) => commitInner env node b pindexNew mem db
  | .error (.threw what) => (.error (.threw what), node)
  | .error f => (.error f, invalidChainFound node.txnAbort pindexNew)

theorem setBestChainInner_eq_ok {b : CBlock}
    (h : setBestChainInner env node pindexBest b pindexNew = (.ok (), node')) :
    ∃ mem db txdb,
      connectBlock (withPool env node.pool) pindexBest node.mem node.txdb.view b pindexNew false =
        .ok (mem, db) ∧
      commitHashBestChain env node.txdb db (b.getHash env.H) = (true, txdb) ∧
      node' = { node with
        txdb := txdb
        mem := linkNext mem pindexNew
        pool := b.vtx.foldl (fun pool tx => pool.remove env.H tx false) node.pool } := by
  unfold setBestChainInner at h
  split at h
  next mem db hconnect =>
    unfold commitInner at h
    split at h
    next txdb hcommit =>
      cases h
      exact ⟨mem, db, txdb, hconnect, hcommit, rfl⟩
    next => cases h
  next => cases h
  next => cases h

theorem setBestChainInner_eq_error {b : CBlock} {f : Failure}
    (h : setBestChainInner env node pindexBest b pindexNew = (.error f, node')) :
    (∃ mem db txdb,
      connectBlock (withPool env node.pool) pindexBest node.mem node.txdb.view b pindexNew false =
        .ok (mem, db) ∧
      commitHashBestChain env node.txdb db (b.getHash env.H) = (false, txdb) ∧
      node' = { node with txdb := txdb, mem := mem }) ∨
      node' = node ∨ node' = invalidChainFound node.txnAbort pindexNew := by
  unfold setBestChainInner at h
  split at h
  next mem db hconnect =>
    unfold commitInner at h
    split at h
    next => cases h
    next txdb hcommit =>
      cases h
      exact .inl ⟨mem, db, txdb, hconnect, hcommit, rfl⟩
  next =>
    cases h
    exact .inr (.inl rfl)
  next =>
    cases h
    exact .inr (.inr rfl)

/-- The first block of the branch that makes it the best one, and the blocks
after it, the last one first: `pindexIntermediate` and `vpindexSecondary`. -/
def postpone (nBestTrust : UInt256) : CBlockIndex → CBlockIndex × List CBlockIndex
  | .root d => (.root d, [])
  | .child p d =>
    if p.nChainTrust > nBestTrust then
      ((postpone nBestTrust p).1, .child p d :: (postpone nBestTrust p).2)
    else (.child p d, [])

/-- The loop over the postponed blocks, first one first.  A block that cannot
be read or connected ends the loop and nothing else. -/
def reconnect (pindexBest : CBlockIndex) : Node → List CBlockIndex → Except Failure Unit × Node
  | node, [] => (.ok (), node)
  | node, pindex :: rest =>
    match readFromDisk env pindex with
    | none => (.ok (), node)
    | some block =>
      match setBestChainInner env node.txnBegin pindexBest block pindex with
      | (.ok (), node) => reconnect pindexBest node rest
      | (.error (.threw what), node) => (.error (.threw what), node)
      | (.error _, node) => (.ok (), node)

/-- The branch of `SetBestChain` for the genesis block. -/
def startChain (node : Node) (hash : UInt256) (pindexNew : CBlockIndex) :
    Except Failure Unit × Node :=
  match commitHashBestChain env node.txdb node.txdb.view hash with
  | (true, txdb) => (.ok (), { node with txdb := txdb, pindexGenesisBlock := some pindexNew })
  | (false, txdb) =>
    (.error (.error "SetBestChain() : TxnCommit failed"), { node with txdb := txdb })

/-- The branch of `SetBestChain` for a block on top of the best one. -/
def extendChain (node : Node) (pindexBest : CBlockIndex) (b : CBlock) (pindexNew : CBlockIndex) :
    Except Failure Unit × Node :=
  match setBestChainInner env node pindexBest b pindexNew with
  | (.error (.rejected nDoS _), node) =>
    (.error (.dos nDoS "SetBestChain() : SetBestChainInner failed"), node)
  | r => r

theorem extendChain_snd (node : Node) (pindexBest : CBlockIndex) (b : CBlock)
    (pindexNew : CBlockIndex) :
    (extendChain env node pindexBest b pindexNew).2 =
      (setBestChainInner env node pindexBest b pindexNew).2 := by
  unfold extendChain
  split
  next heq => rw [heq]
  next => rfl

theorem extendChain_eq_ok {b : CBlock}
    (h : extendChain env node pindexBest b pindexNew = (.ok (), node')) :
    setBestChainInner env node pindexBest b pindexNew = (.ok (), node') := by
  unfold extendChain at h
  split at h
  next => cases h
  next => exact h

/-- The branch of `SetBestChain` for any other block. -/
def switchChain (node : Node) (pindexBest : CBlockIndex) (pindexNew : CBlockIndex) :
    Except Failure Unit × Node :=
  let (pindexIntermediate, vpindexSecondary) := postpone pindexBest.nChainTrust pindexNew
  match reorganize env node pindexBest pindexIntermediate with
  | .ok node => reconnect env pindexBest node vpindexSecondary.reverse
  | .error (.threw what) => (.error (.threw what), node)
  | .error _ =>
    (.error (.error "SetBestChain() : Reorganize failed"),
      invalidChainFound node.txnAbort pindexNew)

theorem switchChain_eq_ok (h : switchChain env node pindexBest pindexNew = (.ok (), node')) :
    ∃ next, reorganize env node pindexBest (postpone pindexBest.nChainTrust pindexNew).1 =
        .ok next ∧
      reconnect env pindexBest next (postpone pindexBest.nChainTrust pindexNew).2.reverse =
        (.ok (), node') := by
  unfold switchChain at h
  dsimp only at h
  split at h
  next next hreorganize => exact ⟨next, hreorganize, h⟩
  next => cases h
  next => cases h

/-- The three branches.  Blocks other than the genesis block have a known
parent, so there is a best block when one of them comes. -/
def advanceChain (node : Node) (b : CBlock) (pindexNew : CBlockIndex) :
    Except Failure Unit × Node :=
  if node.pindexGenesisBlock = none ∧ b.getHash env.H = env.hashGenesisBlock then
    startChain env node (b.getHash env.H) pindexNew
  else
    match node.pindexBest with
    | none => (.error (.threw "pindexBest is null"), node)
    | some pindexBest =>
      if b.hashPrevBlock = node.hashBestChain then extendChain env node pindexBest b pindexNew
      else switchChain env node pindexBest pindexNew

/-- The end of `SetBestChain`, in memory. -/
def newBest (node : Node) (b : CBlock) (pindexNew : CBlockIndex) : Node :=
  { node with
    hashBestChain := b.getHash env.H
    pindexBest := some pindexNew
    nBestHeight := pindexNew.nHeight
    nBestChainTrust := pindexNew.nChainTrust
    nTimeBestReceived := env.nNow
    pool := node.pool.addTransactionsUpdated 1 }

def setBestChain (node : Node) (b : CBlock) (pindexNew : CBlockIndex) :
    Except Failure Unit × Node :=
  if node.txdb.activeBatch.isSome then (.error (.threw "!activeBatch"), node)
  else
    match advanceChain env node.txnBegin b pindexNew with
    | (.ok (), node) => (.ok (), newBest env node b pindexNew)
    | r => r

end Fantom.Chain
