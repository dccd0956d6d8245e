import OxideOS.Lib.Bytes
import OxideOS.Storage.BlockCache
import OxideOS.Storage.OxideFs

/-!
# The disk format of OxideFS

`sync_to_disk` writes the superblock, the blobs and the live entries of the index to consecutive
blocks through the block cache, and `load_from_disk` reads them back.  Both walk a block number
forward, so each is a program over a cursor: `Sync` for the writing loops, and `Load`, which can
also panic, for the reading loops.

## Main definitions

* `Block.copyFromSlice`, `Block.slice`, `Block.slice?`: fields of a block
* `OxideFs.superblock`, `OxideFs.blobHeader`, `OxideFs.contBlock`, `OxideFs.entryBlock`
* `OxideFs.syncToDisk`, `OxideFs.loadFromDisk`
-/

namespace OxideOS

namespace Block

/-- `block[off..off + src.len()].copy_from_slice(src)`, for a range inside the block. -/
def copyFromSlice (b : Block) (off : Nat) (src : List UInt8) (h : off + src.length ≤ 512) :
    Block :=
  ⟨Bytes.splice b.bytes off src, by
    rw [Bytes.length_splice (by rwa [b.length_eq]), b.length_eq]⟩

/-- `block[lo..lo + n]`, for a range inside the block. -/
def slice (b : Block) (lo n : Nat) (_h : lo + n ≤ 512) : List UInt8 :=
  Bytes.slice b.bytes lo n

/-- `block[lo..lo + n]`, which panics when the range leaves the block. -/
def slice? (b : Block) (lo n : Nat) : Option (List UInt8) :=
  if h : lo + n ≤ 512 then some (b.slice lo n h) else none

theorem slice?_of_le {b : Block} {lo n : Nat} (h : lo + n ≤ 512) :
    b.slice? lo n = some (b.slice lo n h) :=
  dif_pos h

variable {b : Block} {off lo n : Nat} {src : List UInt8} {h : off + src.length ≤ 512}
  {h' : lo + n ≤ 512}

theorem slice_copyFromSlice_self {h' : off + n ≤ 512} (hn : n = src.length) :
    (b.copyFromSlice off src h).slice off n h' = src :=
  Bytes.slice_splice_self (by rwa [b.length_eq]) hn

theorem slice_copyFromSlice_of_disjoint (hd : lo + n ≤ off ∨ off + src.length ≤ lo) :
    (b.copyFromSlice off src h).slice lo n h' = b.slice lo n h' :=
  Bytes.slice_splice_of_disjoint (by rwa [b.length_eq]) hd

end Block

/-- `str::as_bytes`. -/
def asBytes (s : String) : List UInt8 := s.toByteArray.data.toList

/-- `core::str::from_utf8`. -/
def fromUtf8 (bytes : List UInt8) : Option String := String.fromUTF8? ⟨bytes.toArray⟩

@[simp]
theorem fromUtf8_asBytes (s : String) : fromUtf8 (asBytes s) = some s := by
  have hbytes : (⟨(asBytes s).toArray⟩ : ByteArray) = s.toByteArray := by
    rw [asBytes, Array.toArray_toList]
  rw [fromUtf8, hbytes, String.fromUTF8?, dif_pos s.isValidUTF8]
  rfl

theorem asBytes_of_fromUtf8 {bytes : List UInt8} {s : String} (h : fromUtf8 bytes = some s) :
    asBytes s = bytes := by
  rw [fromUtf8, String.fromUTF8?] at h
  split at h
  · obtain rfl := Option.some.inj h
    rfl
  · cases h

theorem asBytes_append (s t : String) : asBytes (s ++ t) = asBytes s ++ asBytes t := by
  simp [asBytes]

/-! ## Cursors -/

/-- The storage, and the block the next access is for. -/
structure Cursor (H : Type) where
  storage : Storage H
  blockNum : Nat

/-- A program that writes blocks one after another. -/
abbrev Sync (H : Type) := StateM (Cursor H)

/-- A program that reads blocks one after another, and may panic. -/
abbrev Load (H : Type) := StateT (Cursor H) Option

variable {H : Type}

/-- `let _ = cache.write(block_num, block); block_num += 1`. -/
def writeNext (io : BlockIo H) (block : Block) : Sync H Unit := fun c =>
  ((), ⟨(c.storage.write io c.blockNum block).2, c.blockNum + 1⟩)

/-- `cache.read(block_num).unwrap_or([0; 512])`, and step to the next block. -/
def readNext (io : BlockIo H) : Load H Block := fun c =>
  match c.storage.read io c.blockNum with
  | (.ok block, s) => some (block, ⟨s, c.blockNum + 1⟩)
  | (.error _, s) => some (Block.zero, ⟨s, c.blockNum + 1⟩)

namespace OxideFs

/-! ## The encoder -/

/-- The magic number `b"OXIDEFS\\0"`. -/
def magic : List UInt8 := [0x4f, 0x58, 0x49, 0x44, 0x45, 0x46, 0x53, 0x00]

/-- Block 0: magic, version, the two counts as `u32`, the next blob id and the total bytes. -/
def superblock (fs : OxideFs) : Block :=
  Block.zero
    |>.copyFromSlice 0 magic (by decide)
    |>.copyFromSlice 8 (Bytes.le 4 1) (by decide)
    |>.copyFromSlice 12 (Bytes.le 4 fs.blobs.size) (by simp)
    |>.copyFromSlice 16 (Bytes.le 4 fs.liveEntries.length) (by simp)
    |>.copyFromSlice 20 (Bytes.le 8 fs.nextBlobId) (by simp)
    |>.copyFromSlice 28 (Bytes.le 8 fs.totalBytes) (by simp)

/-- The bytes of a blob that follow the header in its first block. -/
def firstChunk (size : Nat) : Nat := min size 500

/-- The first block of a blob: its id, its length as `u32`, and its first bytes. -/
def blobHeader (blobId : BlobId) (data : List UInt8) : Block :=
  Block.zero
    |>.copyFromSlice 0 (Bytes.le 8 blobId) (by simp)
    |>.copyFromSlice 8 (Bytes.le 4 data.length) (by simp)
    |>.copyFromSlice 12 (data.take (firstChunk data.length)) (by
      rw [List.length_take, firstChunk]
      omega)

/-- The bytes of a blob in one of its continuation blocks. -/
def contChunk (remaining : Nat) : Nat := min remaining 512

def contBlock (data : List UInt8) (offset : Nat) : Block :=
  Block.zero.copyFromSlice 0 (Bytes.slice data offset (contChunk (data.length - offset))) (by
    rw [Bytes.slice, List.length_take, contChunk]
    omega)

/-- The length of the path in the block of an entry. -/
def pathLen (path : String) : Nat := min (asBytes path).length 255

theorem pathLen_le (path : String) : pathLen path ≤ 255 := Nat.min_le_right _ _

theorem length_take_pathLen (path : String) :
    ((asBytes path).take (pathLen path)).length = pathLen path := by
  rw [List.length_take, pathLen]
  omega

/-- The block of an entry: the path with its length as `u16`, and four words. -/
def entryBlock (path : String) (entry : FileEntry) : Block :=
  have hlen := pathLen_le path
  let off := 2 + pathLen path
  Block.zero
    |>.copyFromSlice 0 (Bytes.le 2 (pathLen path)) (by simp)
    |>.copyFromSlice 2 ((asBytes path).take (pathLen path)) (by rw [length_take_pathLen]; omega)
    |>.copyFromSlice off (Bytes.le 8 entry.blobId) (by rw [Bytes.length_le]; omega)
    |>.copyFromSlice (off + 8) (Bytes.le 8 entry.size.toNat) (by rw [Bytes.length_le]; omega)
    |>.copyFromSlice (off + 16) (Bytes.le 8 entry.createdTick.toNat) (by
      rw [Bytes.length_le]; omega)
    |>.copyFromSlice (off + 24) (Bytes.le 8 entry.modifiedTick.toNat) (by
      rw [Bytes.length_le]; omega)

/-- The loop over the continuation blocks of a blob. -/
def syncCont (io : BlockIo H) (data : List UInt8) (offset : Nat) : Sync H Unit :=
  if offset < data.length then do
    writeNext io (contBlock data offset)
    syncCont io data (offset + contChunk (data.length - offset))
  else
    pure ()
termination_by data.length - offset
decreasing_by
  rw [contChunk]
  omega

def syncBlob (io : BlockIo H) (blobId : BlobId) (data : List UInt8) : Sync H Unit := do
  writeNext io (blobHeader blobId data)
  syncCont io data (firstChunk data.length)

def syncEntry (io : BlockIo H) (path : String) (entry : FileEntry) : Sync H Unit :=
  if entry.deleted then pure () else writeNext io (entryBlock path entry)

/-- The blocks of `sync_to_disk`: the superblock is block 0, and the blobs start at block 1. -/
def syncBlocks (io : BlockIo H) (fs : OxideFs) : Sync H Unit := do
  writeNext io fs.superblock
  fs.blobs.toList.forM fun p => syncBlob io p.1 p.2
  fs.index.toList.forM fun p => syncEntry io p.1 p.2

/-- `sync_to_disk`; failures of the cache are ignored. -/
def syncToDisk (io : BlockIo H) (fs : OxideFs) (s : Storage H) : Storage H :=
  let ((), c) := (syncBlocks io fs).run ⟨s, 0⟩
  (c.storage.flush io).2

/-! ## The decoder -/

/-- The loop over the continuation blocks of a blob. -/
def loadCont (io : BlockIo H) (remaining : Nat) (data : List UInt8) : Load H (List UInt8) :=
  if 0 < remaining then do
    let cont ← readNext io
    let chunk := contChunk remaining
    loadCont io (remaining - chunk) (data ++ cont.slice 0 chunk (by simp [chunk, contChunk]))
  else
    pure data
termination_by remaining
decreasing_by
  rw [contChunk]
  omega

/-- File a blob that was read under its id, and under its hash. -/
def restoreBlob (fs : OxideFs) (blobId : BlobId) (data : List UInt8) : OxideFs :=
  { fs with
    contentHashes := fs.contentHashes.insert (contentHash data) blobId
    blobs := fs.blobs.insert blobId data }

def loadBlob (io : BlockIo H) (fs : OxideFs) : Load H OxideFs := do
  let block ← readNext io
  let blobId := Bytes.ofLE (block.slice 0 8 (by decide))
  let size := Bytes.ofLE (block.slice 8 4 (by decide))
  let first := firstChunk size
  let data ← loadCont io (size - first) (block.slice 12 first (by simp [first, firstChunk]; omega))
  pure (fs.restoreBlob blobId data)

def loadBlobs (io : BlockIo H) : Nat → OxideFs → Load H OxideFs
  | 0, fs => pure fs
  | count + 1, fs => do
    let fs ← loadBlob io fs
    loadBlobs io count fs

/-- Read an entry from its block; `none` is a slice that leaves the block. -/
def decodeEntry (block : Block) : Option FileEntry := do
  -- the length is read as it stands, without a bound
  let pathLen := Bytes.ofLE (block.slice 0 2 (by decide))
  let pathBytes ← block.slice? 2 pathLen
  -- `from_utf8(..).unwrap_or("")`
  let path := (fromUtf8 pathBytes).getD ""
  let off := 2 + pathLen
  let blobId ← block.slice? off 8
  let size ← block.slice? (off + 8) 8
  let created ← block.slice? (off + 16) 8
  let modified ← block.slice? (off + 24) 8
  pure
    { path
      blobId := Bytes.ofLE blobId
      size := (Bytes.ofLE size).toUInt64
      createdTick := (Bytes.ofLE created).toUInt64
      modifiedTick := (Bytes.ofLE modified).toUInt64
      deleted := false }

def restoreEntry (fs : OxideFs) (entry : FileEntry) : OxideFs :=
  { fs with index := fs.index.insert entry.path entry }

def loadEntry (io : BlockIo H) (fs : OxideFs) : Load H OxideFs := do
  let block ← readNext io
  let entry ← (decodeEntry block : Option FileEntry)
  pure (fs.restoreEntry entry)

def loadEntries (io : BlockIo H) : Nat → OxideFs → Load H OxideFs
  | 0, fs => pure fs
  | count + 1, fs => do
    let fs ← loadEntry io fs
    loadEntries io count fs

/-- The blobs and the entries, from block 1 on. -/
def loadBlocks (io : BlockIo H) (blobCount indexCount : Nat) (fs : OxideFs) : Load H OxideFs := do
  let fs ← loadBlobs io blobCount fs
  loadEntries io indexCount fs

/-- `load_from_disk`; `none` is a panic. -/
def loadFromDisk (io : BlockIo H) (fs : OxideFs) (s : Storage H) :
    Option (Bool × OxideFs × Storage H) :=
  match s.read io 0 with
  | (.error _, s) => some (false, fs, s)
  | (.ok sb, s) =>
    if sb.slice 0 8 (by decide) = magic then do
      let blobCount := Bytes.ofLE (sb.slice 12 4 (by decide))
      let indexCount := Bytes.ofLE (sb.slice 16 4 (by decide))
      let fs :=
        { fs with
          nextBlobId := Bytes.ofLE (sb.slice 20 8 (by decide))
          totalBytes := Bytes.ofLE (sb.slice 28 8 (by decide)) }
      let (fs, c) ← (loadBlocks io blobCount indexCount fs).run ⟨s, 1⟩
      some (true, fs, c.storage)
    else some (false, fs, s)

end OxideFs

end OxideOS
