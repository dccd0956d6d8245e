import OxideOS.Basic
import OxideOS.Lib.OrderedMap
import OxideOS.Lib.TransitionSystem
import Mathlib.Algebra.BigOperators.Group.List.Basic
import Mathlib.Algebra.GroupWithZero.Nat

/-!
# OxideFS

`oxide_fs.rs`: a content-addressed file system in memory.  Files name blobs, a blob is stored once
for all files with its content, found again by a hash of the content, and a deleted file only loses
its entry in the index.
-/

namespace OxideOS

/-- `BlobId`: a counter from 1 on. -/
abbrev BlobId := Nat

structure FileEntry where
  path : String
  blobId : BlobId
  size : UInt64
  createdTick : UInt64
  modifiedTick : UInt64
  deleted : Bool
deriving DecidableEq

def FileEntry.markDeleted (entry : FileEntry) : FileEntry := { entry with deleted := true }

/-- Strings are ordered by their characters, which for UTF-8 is the order of their bytes. -/
@[ext]
structure OxideFs where
  index : BTreeMap String FileEntry
  blobs : BTreeMap BlobId (List UInt8)
  /-- Hash of the content to the blob that holds it. -/
  contentHashes : BTreeMap UInt64 BlobId
  nextBlobId : BlobId
  totalBytes : Nat

namespace OxideFs

/-- `OxideFs::new`. -/
def new : OxideFs where
  index := ∅
  blobs := ∅
  contentHashes := ∅
  nextBlobId := 1
  totalBytes := 0

/-- `content_hash`: the FNV-1a hash, on 64-bit words. -/
def contentHash (data : List UInt8) : UInt64 :=
  data.foldl (fun hash byte => (hash ^^^ byte.toUInt64) * 0x100000001b3) 0xcbf29ce484222325

/-- The blob the hash table finds for a content, when it does hold that content. -/
def existing (fs : OxideFs) (data : List UInt8) : Option BlobId := do
  let existingId ← fs.contentHashes[contentHash data]?
  let blob ← fs.blobs[existingId]?
  if blob = data then some existingId else none

/-- Point a path at a blob. -/
def insertEntry (fs : OxideFs) (path : String) (blobId : BlobId) (data : List UInt8)
    (tick : UInt64) : OxideFs :=
  let entry :=
    { path, blobId, size := data.length.toUInt64, createdTick := tick, modifiedTick := tick,
      deleted := false }
  { fs with index := fs.index.insert path entry }

/-- Store a content under the next blob id. -/
def insertBlob (fs : OxideFs) (data : List UInt8) : OxideFs :=
  { fs with
    nextBlobId := fs.nextBlobId + 1
    blobs := fs.blobs.insert fs.nextBlobId data
    contentHashes := fs.contentHashes.insert (contentHash data) fs.nextBlobId
    totalBytes := fs.totalBytes + data.length }

/-- `write_file`; `tick` is the value of the tick counter. -/
def writeFile (fs : OxideFs) (path : String) (data : List UInt8) (tick : UInt64) :
    BlobId × OxideFs :=
  match fs.existing data with
  | some existingId => (existingId, fs.insertEntry path existingId data tick)
  | none => (fs.nextBlobId, (fs.insertBlob data).insertEntry path fs.nextBlobId data tick)

/-- `read_file`. -/
def readFile (fs : OxideFs) (path : String) : Option (List UInt8) := do
  let entry ← fs.index[path]?
  if entry.deleted then none else fs.blobs[entry.blobId]?

/-- `delete_file`: the entry stays, marked. -/
def deleteFile (fs : OxideFs) (path : String) : Bool × OxideFs :=
  if path ∈ fs.index then
    (true, { fs with index := fs.index.modify path FileEntry.markDeleted })
  else (false, fs)

/-- The entries of the files that are not deleted, in the order of their paths. -/
def liveEntries (fs : OxideFs) : List (String × FileEntry) :=
  fs.index.toList.filter fun p => !p.2.deleted

/-- `list`. -/
def list (fs : OxideFs) (pre : String) : List FileEntry :=
  (fs.index.toList.filter fun p => startsWith p.1 pre && !p.2.deleted).map Prod.snd

/-- `stats`: files, blobs and bytes. -/
def stats (fs : OxideFs) : Nat × Nat × Nat :=
  (fs.liveEntries.length, fs.blobs.size, fs.totalBytes)

/-! ## Runs -/

/-- A call that changes the file system. -/
inductive FsOp
  | writeFile (path : String) (data : List UInt8) (tick : UInt64)
  | deleteFile (path : String)

def step (fs : OxideFs) : FsOp → OxideFs
  | .writeFile path data tick => (fs.writeFile path data tick).2
  | .deleteFile path => (fs.deleteFile path).2

/-- Any sequence of writes and deletions from the empty file system. -/
def system : TransitionSystem OxideFs FsOp := .ofFun new step

/-! ## The invariant -/

/-- The hash table that entering the blobs one by one builds. -/
def hashesOf (blobs : List (BlobId × List UInt8)) : BTreeMap UInt64 BlobId :=
  blobs.foldl (fun hashes p => hashes.insert (contentHash p.2) p.1) ∅

/-- Blobs are numbered from 1 up to the counter, the counters count them and their bytes, the hash
table lists them in the order of their ids, and every entry is filed under its path and names a
blob. -/
structure WellFormed (fs : OxideFs) : Prop where
  mem_blobs : ∀ id : Nat, id ∈ fs.blobs ↔ 1 ≤ id ∧ id < fs.nextBlobId
  nextBlobId : fs.nextBlobId = fs.blobs.size + 1
  totalBytes : fs.totalBytes = (fs.blobs.toList.map fun p => p.2.length).sum
  contentHashes : fs.contentHashes = hashesOf fs.blobs.toList
  entry : ∀ path (e : FileEntry), fs.index[path]? = some e → e.path = path ∧ e.blobId ∈ fs.blobs

variable {fs : OxideFs} {path : String} {data : List UInt8} {tick : UInt64} {id : BlobId}

theorem mem_liveEntries {p : String × FileEntry} :
    p ∈ fs.liveEntries ↔ fs.index[p.1]? = some p.2 ∧ p.2.deleted = false := by
  rw [liveEntries, List.mem_filter]
  have hmem : p ∈ fs.index.toList ↔ fs.index[p.1]? = some p.2 :=
    Std.ExtTreeMap.mem_toList_iff_getElem?_eq_some
  rw [hmem, Bool.not_eq_true']

theorem liveEntries_eq (fs : OxideFs) :
    fs.liveEntries = (fs.index.filter fun _ e => !e.deleted).toList := by
  rw [Std.ExtTreeMap.toList_filter, liveEntries]

theorem nodup_liveEntries (fs : OxideFs) : (fs.liveEntries.map Prod.fst).Nodup := by
  rw [liveEntries_eq]
  exact Std.ExtTreeMap.nodup_keys_toList _

theorem existing_eq_some (h : fs.existing data = some id) : fs.blobs[id]? = some data := by
  simp only [existing, Option.bind_eq_bind, Option.bind_eq_some_iff] at h
  obtain ⟨existingId, -, blob, hblob, heq⟩ := h
  split at heq
  · next hdata =>
    obtain rfl := Option.some.inj heq
    rw [hblob, hdata]
  · cases heq

/-- A write changes one entry of the index, and leaves it live. -/
theorem index_writeFile (fs : OxideFs) (path : String) (data : List UInt8) (tick : UInt64) :
    ∃ e, (fs.writeFile path data tick).2.index = fs.index.insert path e ∧ e.deleted = false := by
  rw [writeFile]
  split
  · exact ⟨_, rfl, rfl⟩
  · exact ⟨_, rfl, rfl⟩

theorem mem_blobs_iff : id ∈ fs.blobs ↔ ∃ blob, fs.blobs[id]? = some blob := by
  rw [Std.ExtTreeMap.mem_iff_isSome_getElem?, Option.isSome_iff_exists]

theorem wellFormed_new : new.WellFormed where
  mem_blobs id := by
    constructor
    · intro h
      exact absurd h Std.ExtTreeMap.not_mem_empty
    · rintro ⟨h, h'⟩
      exact absurd (Nat.lt_of_le_of_lt h h') (Nat.lt_irrefl 1)
  nextBlobId := rfl
  totalBytes := rfl
  contentHashes := rfl
  entry path e h := by simp [new] at h

theorem WellFormed.insertEntry (hfs : fs.WellFormed) (hid : id ∈ fs.blobs) :
    (fs.insertEntry path id data tick).WellFormed where
  mem_blobs := hfs.mem_blobs
  nextBlobId := hfs.nextBlobId
  totalBytes := hfs.totalBytes
  contentHashes := hfs.contentHashes
  entry p e h := by
    rw [OxideFs.insertEntry, Std.ExtTreeMap.getElem?_insert] at h
    split at h
    · next heq =>
      obtain rfl := Std.LawfulEqCmp.eq_of_compare heq
      obtain rfl := Option.some.inj h
      exact ⟨rfl, hid⟩
    · exact hfs.entry p e h

/-- A new blob has the largest id, so it comes last among the blobs. -/
theorem WellFormed.toList_insertBlob (hfs : fs.WellFormed) :
    (fs.insertBlob data).blobs.toList = fs.blobs.toList ++ [(fs.nextBlobId, data)] := by
  refine Std.ExtTreeMap.toList_insert_last fun id hid => ?_
  exact Nat.compare_eq_lt.mpr ((hfs.mem_blobs id).mp hid).2

theorem WellFormed.insertBlob (hfs : fs.WellFormed) : (fs.insertBlob data).WellFormed where
  mem_blobs id := by
    have hnext : fs.nextBlobId = fs.blobs.size + 1 := hfs.nextBlobId
    show id ∈ fs.blobs.insert fs.nextBlobId data ↔ 1 ≤ id ∧ id < fs.nextBlobId + 1
    rw [Std.ExtTreeMap.mem_insert, Std.LawfulEqCmp.compare_eq_iff_eq, hfs.mem_blobs id, hnext]
    omega
  nextBlobId := by
    have hnew : fs.nextBlobId ∉ fs.blobs := fun h =>
      absurd ((hfs.mem_blobs _).mp h).2 (Nat.lt_irrefl _)
    show fs.nextBlobId + 1 = (fs.blobs.insert fs.nextBlobId data).size + 1
    rw [Std.ExtTreeMap.size_insert, if_neg (by simpa using hnew), hfs.nextBlobId]
  totalBytes := by
    rw [hfs.toList_insertBlob, List.map_append, List.sum_append, ← hfs.totalBytes]
    simp [OxideFs.insertBlob]
  contentHashes := by
    rw [hfs.toList_insertBlob, hashesOf, List.foldl_append, ← hashesOf, ← hfs.contentHashes]
    rfl
  entry p e h := by
    obtain ⟨hpath, hid⟩ := hfs.entry p e h
    exact ⟨hpath, Std.ExtTreeMap.mem_insert.mpr (.inr hid)⟩

theorem WellFormed.writeFile (hfs : fs.WellFormed) :
    (fs.writeFile path data tick).2.WellFormed := by
  rw [OxideFs.writeFile]
  split
  · next id hid => exact hfs.insertEntry (mem_blobs_iff.mpr ⟨data, existing_eq_some hid⟩)
  · exact hfs.insertBlob.insertEntry Std.ExtTreeMap.mem_insert_self

theorem WellFormed.deleteFile (hfs : fs.WellFormed) : (fs.deleteFile path).2.WellFormed := by
  rw [OxideFs.deleteFile]
  split
  · refine ⟨hfs.mem_blobs, hfs.nextBlobId, hfs.totalBytes, hfs.contentHashes, fun p e h => ?_⟩
    rw [Std.ExtTreeMap.getElem?_modify] at h
    split at h
    · next heq =>
      obtain rfl := Std.LawfulEqCmp.eq_of_compare heq
      obtain ⟨e', he', rfl⟩ := Option.map_eq_some_iff.mp h
      exact hfs.entry path e' he'
    · exact hfs.entry p e h
  · exact hfs

theorem wellFormed_invariant : system.Invariant WellFormed where
  init := by
    rintro fs rfl
    exact wellFormed_new
  step := by
    rintro fs op fs' hfs rfl
    cases op with
    | writeFile path data tick => exact hfs.writeFile
    | deleteFile path => exact hfs.deleteFile

theorem wellFormed_of_reachable (h : system.Reachable fs) : fs.WellFormed :=
  wellFormed_invariant.of_reachable h

end OxideFs

end OxideOS
