/-
  Fantom.Chain.BlockFiles — The block files, and what stands at the positions in them.

  * `Later` — the files after more blocks were written: what is in a file stays there,
  * `txPos_points_at_tx` — the position recorded is where the transaction begins.

  The arithmetic of `ConnectBlock` takes the layout apart again that the serializer made; the two
  meet in `serialize_split`.
-/
import Fantom.Chain.Accounts
import Fantom.Chain.Undo
import Fantom.Core.Unserialize

namespace Fantom.Chain

open Core Lib Function Option UInt32 CTransaction

/-! ## §1. The files. -/

/-- The contents of the block files by number, and the file that blocks are appended to. -/
structure BlockFiles where
  file : UInt32 → List UInt8
  nCurrentBlockFile : UInt32

variable (files : BlockFiles)

def BlockFiles.openBlockFile (nFile : UInt32) : Option (BlockFile × List UInt8) :=
  if h : nFile < 1 ∨ nFile = 0xffffffff then none
  else some (⟨nFile, fun hnull => h (.inr hnull)⟩, files.file nFile)

/-- The loop of `AppendBlockFile`: from a file on, the first one with room in it. -/
def BlockFiles.appendLoop (files : BlockFiles) : Nat → UInt32 → Option BlockFile
  | 0, _ => none
  | fuel + 1, nCurrentBlockFile => do
    let (nFileRet, file) ← files.openBlockFile nCurrentBlockFile
    if file.length < 0x7F000000 - MAX_SIZE then return nFileRet
    else files.appendLoop fuel (nCurrentBlockFile + 1)

/-- `AppendBlockFile`.  There are not more files than numbers for them. -/
def BlockFiles.appendBlockFile : Option BlockFile :=
  files.appendLoop (2 ^ 32 - files.nCurrentBlockFile.toNat) files.nCurrentBlockFile

def SER_DISK : Int32 := (1 : Int32) <<< (1 : Int32)

variable (messageStart : Vector UInt8 4)

/-- What `WriteToDisk` writes before a block. -/
def indexHeader (b : CBlock) : List UInt8 :=
  messageStart.toList ++ leBytes 4 (b.nSerSize SER_DISK).toNat

theorem indexHeader_length (b : CBlock) : (indexHeader messageStart b).length = 8 := by
  rw [indexHeader, List.length_append, leBytes_length, Vector.length_toList]

/-- `CBlock::WriteToDisk`: the files, `nFileRet` and `nBlockPosRet`. -/
def CBlock.writeToDisk (files : BlockFiles) (b : CBlock) :
    Option (BlockFiles × BlockFile × UInt32) := do
  let nFileRet ← files.appendBlockFile
  let fileout := files.file nFileRet ++ indexHeader messageStart b
  return (⟨update files.file nFileRet (fileout ++ b.serializeAs SER_DISK), nFileRet⟩,
    nFileRet, UInt32.ofNat fileout.length)

def CTransaction.readFromDisk (pos : CDiskTxPos) : Option CTransaction := do
  let (_, filein) ← files.openBlockFile pos.nFile
  let (tx, _) ← unserialize.run (filein.drop pos.nTxPos.toNat)
  return tx

variable {files : BlockFiles} {b : CBlock} {rest : List CTransaction} {tx : CTransaction}

theorem writeToDisk_of_append (b : CBlock) {nFile : BlockFile} (h : files.appendBlockFile =
    some nFile) : CBlock.writeToDisk messageStart files b = some (⟨update files.file nFile
    (files.file nFile ++ indexHeader messageStart b ++ b.serializeAs SER_DISK), nFile⟩,
    nFile, UInt32.ofNat (files.file nFile ++ indexHeader messageStart b).length) := by
  rw [CBlock.writeToDisk, h]
  rfl

theorem BlockFiles.appendLoop_room {fuel : Nat} {n : UInt32} {nFile : BlockFile}
    (h : files.appendLoop fuel n = some nFile) :
    ¬ nFile.1 < 1 ∧ (files.file nFile).length < 0x7F000000 - MAX_SIZE := by
  induction fuel generalizing n with
  | zero => cases h
  | succ fuel ih =>
    unfold BlockFiles.appendLoop BlockFiles.openBlockFile at h
    split at h
    next => cases h
    next hopen =>
      dsimp only [bind_eq_bind, bind_some] at h
      split at h
      next hroom =>
        cases h
        exact ⟨fun hlow => hopen (.inl hlow), hroom⟩
      next => exact ih h

/-- A block written: where it was put, and that there was room. -/
structure Written (messageStart : Vector UInt8 4) (files : BlockFiles) (b : CBlock)
    (files' : BlockFiles) (nFile : BlockFile) (nBlockPos : UInt32) : Prop where
  valid : ¬ nFile.1 < 1
  room : (files.file nFile).length < 0x7F000000 - MAX_SIZE
  file : files'.file = update files.file nFile
    (files.file nFile ++ indexHeader messageStart b ++ b.serializeAs SER_DISK)
  nBlockPos : nBlockPos = UInt32.ofNat (files.file nFile ++ indexHeader messageStart b).length

theorem writeToDisk_eq_some {messageStart : Vector UInt8 4} {files' : BlockFiles}
    {nFile : BlockFile} {nBlockPos : UInt32}
    (h : CBlock.writeToDisk messageStart files b = some (files', nFile, nBlockPos)) :
    Written messageStart files b files' nFile nBlockPos := by
  obtain ⟨nFileRet, happend, _⟩ := bind_eq_some_iff.mp h
  rw [writeToDisk_of_append messageStart b happend] at h
  obtain ⟨rfl, hpair⟩ := Prod.mk.inj (Option.some.inj h)
  cases hpair
  obtain ⟨hvalid, hroom⟩ := BlockFiles.appendLoop_room happend
  exact ⟨hvalid, hroom, rfl, rfl⟩

def Later : BlockFiles → BlockFiles → Prop :=
  Relation.ReflTransGen fun files files' =>
    ∃ b nFile nBlockPos, CBlock.writeToDisk messageStart files b = some (files', nFile, nBlockPos)

theorem Later.isPrefix {messageStart : Vector UInt8 4} {files' : BlockFiles}
    (h : Later messageStart files files') (n : UInt32) : files.file n <+: files'.file n := by
  induction h with
  | refl => exact List.prefix_refl _
  | tail _ hwrite ih =>
    obtain ⟨b, nFile, nBlockPos, hwrite⟩ := hwrite
    refine ih.trans ?_
    rw [(writeToDisk_eq_some hwrite).file]
    by_cases hn : n = nFile
    · rw [hn, update_self, List.append_assoc]
      exact List.prefix_append _ _
    · rw [update_of_ne hn]

/-! ## §2. The layout of a block. -/

/-- What the serializer puts before a transaction of a block. -/
def CBlock.before (b : CBlock) (done : List CTransaction) : List UInt8 :=
  b.serializeHeader ++ writeCompactSize b.vtx.length ++ done.flatMap serialize

theorem serializeHeader_length (b : CBlock) : b.serializeHeader.length = 80 := by
  simp only [CBlock.serializeHeader, List.length_append, leBytes_length]

/-- **The layout**: a transaction stands behind what is before it. -/
theorem serialize_split {done : List CTransaction} (h : b.vtx = done ++ tx :: rest) :
    b.serialize = CBlock.before b done ++ (tx.serialize ++
      (rest.flatMap serialize ++ serializeBytes b.vchBlockSig)) := by
  unfold CBlock.serialize CBlock.before serializeVector
  rw [h, List.flatMap_append, List.flatMap_cons]
  simp only [List.append_assoc]

theorem firstTxPos_eq (b : CBlock) (pindex : CBlockIndex) :
    firstTxPos b pindex false =
      pindex.data.nBlockPos + UInt32.ofNat (CBlock.before b []).length := by
  have hnull : nullBlock.getSerializeSize - 2 * getSizeOfCompactSize 0 = 80 := by decide
  unfold firstTxPos CBlock.before
  rw [if_neg Bool.false_ne_true, hnull, List.length_append, List.length_append,
    serializeHeader_length, writeCompactSize_length]
  rfl

variable {env : ChainEnv}

variable (pindex : CBlockIndex)

variable (s : Positions × UInt32)

theorem posAfter_offset (done : List CTransaction) : (posAfter env pindex s done).2 =
    s.2 + UInt32.ofNat (done.flatMap serialize).length := by
  induction done generalizing s with
  | nil => exact (add_zero s.2).symm
  | cons tx done ih =>
    have hstep : posAfter env pindex s (tx :: done) =
        posAfter env pindex (locateStep env pindex s tx) done := rfl
    rw [hstep, ih, List.flatMap_cons, List.length_append, ofNat_add, ← add_assoc]
    rfl

theorem posAfter_other {h : UInt256} (hout : h ∉ rest.map (getHash env.H)) :
    (posAfter env pindex s rest).1 h = s.1 h := by
  induction rest generalizing s with
  | nil => rfl
  | cons tx rest ih =>
    rw [List.map_cons, List.mem_cons, not_or] at hout
    obtain ⟨hne, hout⟩ := hout
    have hstep : posAfter env pindex s (tx :: rest) =
        posAfter env pindex (locateStep env pindex s tx) rest := rfl
    rw [hstep, ih _ hout]
    exact update_of_ne hne _ _

theorem posAfter_getHash {done : List CTransaction}
    (hnodup : ((done ++ tx :: rest).map (getHash env.H)).Nodup) :
    (posAfter env pindex s (done ++ tx :: rest)).1 (tx.getHash env.H) =
    some (.inFile pindex.data.nFile pindex.data.nBlockPos (posAfter env pindex s done).2) := by
  have hlater : tx.getHash env.H ∉ rest.map (getHash env.H) := by
    rw [List.map_append, List.map_cons] at hnodup
    exact (List.nodup_cons.mp (List.nodup_append.mp hnodup).2.1).1
  have hsplit : posAfter env pindex s (done ++ tx :: rest) =
      posAfter env pindex (locateStep env pindex (posAfter env pindex s done) tx) rest :=
    List.foldl_append
  rw [hsplit, posAfter_other pindex _ hlater]
  exact update_self _ _ _

/-- **The position recorded**, by the length of what is before the transaction. -/
theorem connectBlock_pos {pindexBest : CBlockIndex} {mem mem' : IndexMem} {db db' : Records}
    {pindex : CBlockIndex} (h : connectBlock env pindexBest mem db b pindex false = .ok (mem', db'))
    {done : List CTransaction} (hvtx : b.vtx = done ++ tx :: rest) :
    ∃ txindex, db'.readTxIndex (tx.getHash env.H) = some txindex ∧
      txindex.pos = .inFile pindex.data.nFile pindex.data.nBlockPos
        (pindex.data.nBlockPos + UInt32.ofNat (CBlock.before b done).length) := by
  obtain ⟨st, hcheck, hloop, _, _, hindex⟩ := connectBlock_ok h
  have hnodup := checkBlock_nodup hcheck
  rw [hvtx] at hnodup
  have hpositions : positionsOf db'.tx = (posAfter env pindex (posBefore db b pindex) b.vtx).1 := by
    rw [hindex]
    exact congrArg Prod.fst (accounts_of_loop hloop).positions
  have hpos := posAfter_getHash pindex (posBefore db b pindex) hnodup
  rw [← hvtx, ← hpositions, posAfter_offset] at hpos
  obtain ⟨txindex, hread, hpos⟩ := map_eq_some_iff.mp hpos
  refine ⟨txindex, hread, ?_⟩
  have hoffset : (CBlock.before b done).length =
      (CBlock.before b []).length + (done.flatMap serialize).length := by
    unfold CBlock.before
    rw [List.length_append, List.flatMap_nil, List.append_nil]
  rw [hpos, hoffset, ofNat_add, ← add_assoc, ← firstTxPos_eq]
  rfl

/-! ## §3. The sizes of what a block contains. -/

theorem checkBlock_size {pindexBest : CBlockIndex} {fPOW fRoot fSig : Bool}
    (h : checkBlock env pindexBest b fPOW fRoot fSig = .ok ()) :
    b.serialize.length ≤ MAX_BLOCK_SIZE := by
  have hpasses := checkBlock_eq_ok.mp h
  obtain ⟨⟨_, _, hsize⟩, _⟩ := checkHead_eq_ok.mp hpasses.head
  exact hsize

theorem length_le_flatMap {α : Type} (write : α → List UInt8) {xs : List α}
    (h : ∀ x ∈ xs, 1 ≤ (write x).length) : xs.length ≤ (xs.flatMap write).length := by
  induction xs with
  | nil => exact Nat.le_refl 0
  | cons x xs ih =>
    have hhead := h x List.mem_cons_self
    have htail := ih fun y hy => h y (List.mem_cons_of_mem x hy)
    rw [List.flatMap_cons, List.length_append, List.length_cons]
    omega

theorem write_le_flatMap {α : Type} (write : α → List UInt8) {xs : List α} {x : α}
    (h : x ∈ xs) : (write x).length ≤ (xs.flatMap write).length := by
  obtain ⟨before, after, rfl⟩ := List.append_of_mem h
  rw [List.flatMap_append, List.flatMap_cons, List.length_append, List.length_append]
  omega

theorem sizesOk_of_length (h : tx.serialize.length ≤ MAX_SIZE) :
    tx.SizesOk := by
  unfold serialize serializeVector at h
  simp only [List.length_append] at h
  have hin (i : CTxIn) : i.scriptSig.length + 1 ≤ i.serialize.length := by
    unfold CTxIn.serialize serializeBytes
    simp only [List.length_append, leBytes_length]
    omega
  have hout (o : CTxOut) : o.scriptPubKey.length + 1 ≤ o.serialize.length := by
    unfold CTxOut.serialize serializeBytes
    simp only [List.length_append, leBytes_length]
    omega
  refine ⟨⟨?_, ?_⟩, ?_, ?_⟩
  · have : tx.vin.length ≤ (tx.vin.flatMap CTxIn.serialize).length :=
      length_le_flatMap CTxIn.serialize fun i _ => Nat.le_of_add_left_le (hin i)
    omega
  · intro i hi
    have := write_le_flatMap CTxIn.serialize hi
    have := hin i
    omega
  · have : tx.vout.length ≤ (tx.vout.flatMap CTxOut.serialize).length :=
      length_le_flatMap CTxOut.serialize fun o _ => Nat.le_of_add_left_le (hout o)
    omega
  · intro o ho
    have := write_le_flatMap CTxOut.serialize ho
    have := hout o
    omega

theorem serialize_wire (b : CBlock) : (b.wire SER_DISK).serialize = b.serialize := by
  have htx (tx : CTransaction) : tx.wire.serialize = tx.serialize := by
    unfold serialize wire serializeVector
    simp only [List.length_map, List.flatMap_map]
    rfl
  unfold CBlock.serialize CBlock.wire serializeVector
  rw [if_neg (by decide)]
  dsimp only
  rw [List.length_map, List.flatMap_map]
  simp only [htx]
  rfl

/-! ## §4. Positions and files. -/

theorem readFromDisk_of_split {pos : CDiskTxPos} {front rest : List UInt8}
    (hvalid : ¬ (pos.nFile < 1 ∨ pos.nFile = 0xffffffff))
    (hfile : files.file pos.nFile = front ++ (tx.serialize ++ rest))
    (hpos : pos.nTxPos.toNat = front.length) (hok : tx.SizesOk) :
    CTransaction.readFromDisk files pos = some tx.wire := by
  unfold CTransaction.readFromDisk BlockFiles.openBlockFile
  rw [dif_neg hvalid, bind_eq_bind, bind_some, hfile, hpos]
  dsimp only
  rw [List.drop_left, format_transaction.reads tx rest hok]
  rfl

/-- **Positions point at transactions.**  Of every block that was written to disk and then
connected, as it was or as it was read back, the position recorded for a transaction is the
offset in the file at which it begins, and it is what is read there, whatever was written
after. -/
theorem txPos_points_at_tx {messageStart : Vector UInt8 4} {files files' files'' : BlockFiles}
    {w b : CBlock} {nFile : BlockFile} {nBlockPos : UInt32}
    (hwrite : CBlock.writeToDisk messageStart files w = some (files', nFile, nBlockPos))
    (hlater : Later messageStart files' files'') (hb : b = w ∨ b = w.wire SER_DISK)
    {pindexBest : CBlockIndex} {mem mem' : IndexMem} {db db' : Records} {pindex : CBlockIndex}
    (hpindex : pindex.data.nFile = nFile ∧ pindex.data.nBlockPos = nBlockPos)
    (hconnect : connectBlock env pindexBest mem db b pindex false = .ok (mem', db'))
    (i : Nat) (hi : i < b.vtx.length) :
    ∃ txindex rest, db'.readTxIndex (b.vtx[i].getHash env.H) = some txindex ∧
      txindex.pos.nFile = nFile ∧
      files''.file nFile = files.file nFile ++ indexHeader messageStart w ++
        CBlock.before b (b.vtx.take i) ++ (b.vtx[i].serialize ++ rest) ∧
      txindex.pos.nTxPos.toNat = (files.file nFile ++ indexHeader messageStart w ++
        CBlock.before b (b.vtx.take i)).length ∧
      CTransaction.readFromDisk files'' txindex.pos = some b.vtx[i].wire := by
  have hvtx : b.vtx = b.vtx.take i ++ b.vtx[i] :: b.vtx.drop (i + 1) := by
    rw [← List.drop_eq_getElem_cons hi, List.take_append_drop]
  have hsplit := serialize_split hvtx
  have hsize : b.serialize.length ≤ MAX_BLOCK_SIZE :=
    checkBlock_size (connectBlock_ok hconnect).choose_spec.1
  have hmax : MAX_BLOCK_SIZE = 20000000 := rfl
  have hmaxSize : MAX_SIZE = 33554432 := rfl
  have hwritten := writeToDisk_eq_some hwrite
  have hroom := hwritten.room
  have hheader := indexHeader_length messageStart w
  -- what was written is the serialization of the block that was connected
  have hsame : w.serializeAs SER_DISK = b.serialize := by
    rcases hb with rfl | rfl
    · rfl
    · exact (serialize_wire w).symm
  obtain ⟨later, hfile⟩ := hlater.isPrefix nFile
  rw [hwritten.file, update_self, hsame, hsplit] at hfile
  obtain ⟨txindex, hread, hpos⟩ := connectBlock_pos hconnect hvtx
  rw [hpindex.1, hpindex.2, hwritten.nBlockPos, ← ofNat_add, ← List.length_append] at hpos
  -- and the offset fits in an `unsigned int`, since there was room in the file
  have hoffset : txindex.pos.nTxPos.toNat = (files.file nFile ++ indexHeader messageStart w ++
      CBlock.before b (b.vtx.take i)).length := by
    rw [hpos]
    refine toNat_ofNat_of_lt ?_
    rw [hsplit, List.length_append] at hsize
    rw [List.length_append, List.length_append, hheader]
    have hsize32 : UInt32.size = 4294967296 := rfl
    omega
  have hnFile : txindex.pos.nFile = nFile := by
    rw [hpos]
    rfl
  have hwhole : files''.file nFile = files.file nFile ++ indexHeader messageStart w ++
      CBlock.before b (b.vtx.take i) ++ (b.vtx[i].serialize ++
        ((b.vtx.drop (i + 1)).flatMap serialize ++ serializeBytes b.vchBlockSig ++
          later)) := by
    rw [← hfile]
    simp only [List.append_assoc]
  have hok : b.vtx[i].SizesOk := by
    refine sizesOk_of_length ?_
    rw [hsplit, List.length_append, List.length_append] at hsize
    omega
  have hvalid : ¬ (txindex.pos.nFile < 1 ∨ txindex.pos.nFile = 0xffffffff) := by
    rw [hnFile]
    exact not_or.mpr ⟨hwritten.valid, nFile.2⟩
  refine ⟨txindex, _, hread, hnFile, hwhole, hoffset, ?_⟩
  rw [← hnFile] at hwhole
  exact readFromDisk_of_split hvalid hwhole (by rw [hoffset, hnFile]) hok

def sampleBlockFiles : BlockFiles := ⟨fun _ => List.replicate 492 0, 1⟩

theorem sampleBlockFiles_write : ∃ files',
    CBlock.writeToDisk #v[0x1f, 0x22, 0x05, 0x31] sampleBlockFiles chainedBlock =
      some (files', .first, 500) := by
  have happend : sampleBlockFiles.appendBlockFile = some .first := by decide +kernel
  have hlen : (sampleBlockFiles.file BlockFile.first.1 ++
      indexHeader #v[0x1f, 0x22, 0x05, 0x31] chainedBlock).length = 500 := by
    rw [sampleBlockFiles, List.length_append, List.length_replicate, indexHeader_length]
  have hwrite := writeToDisk_of_append #v[0x1f, 0x22, 0x05, 0x31] chainedBlock happend
  rw [hlen] at hwrite
  exact ⟨_, hwrite⟩

/-- The second transaction of a block is read back at its position. -/
theorem txPos_points_at_tx_chainedBlock :
    ∃ r files' txindex,
      connectBlock chainedEnv sampleGenesis sampleMem sampleRecords chainedBlock chainedIndex
        false = .ok r ∧
      CBlock.writeToDisk #v[0x1f, 0x22, 0x05, 0x31] sampleBlockFiles chainedBlock =
        some (files', .first, 500) ∧
      r.2.readTxIndex (sampleSpend.getHash sampleChainHashes) = some txindex ∧
      CTransaction.readFromDisk files' txindex.pos = some sampleSpend.wire := by
  obtain ⟨r, hr⟩ := accepts_iff.mp chainedBlock_accepted
  obtain ⟨files', hwrite⟩ := sampleBlockFiles_write
  obtain ⟨txindex, _, hread, _, _, _, hdisk⟩ := txPos_points_at_tx hwrite
    Relation.ReflTransGen.refl (.inl rfl) ⟨rfl, rfl⟩ hr 1 (by decide)
  exact ⟨r, files', txindex, hr, hwrite, hread, hdisk⟩

end Fantom.Chain
