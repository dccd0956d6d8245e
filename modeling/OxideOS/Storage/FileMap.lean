import OxideOS.Storage.OxideFs
import Mathlib.Data.Set.Card

/-!
# OxideFS as a map of files

What OxideFS is for: a finite map from paths to contents.  Files share blobs, deleted files keep a
marked entry, and two contents may have one hash, but none of this can be seen from outside.  A
file system represents a map of files when every path reads what the map holds; writes and
deletions keep it so, and no blob ever changes once it is there.

## Main definitions

* `FileMap`, `FileMap.apply`: the files by their paths, and what a call does to them
* `OxideFs.Represents`: the file system holds exactly these files

## Main results

* `OxideFs.Represents.step`: a call on the file system is the call on the map
* `OxideFs.refines_fileMap`: after any calls, reading, listing and counting agree with the map
-/

namespace OxideOS

/-- The contents of the files, by their paths. -/
abbrev FileMap := String → Option (List UInt8)

namespace FileMap

/-- No files. -/
def empty : FileMap := fun _ => none

/-- A write sets the content of its path, a deletion takes it away. -/
def apply (files : FileMap) : OxideFs.FsOp → FileMap
  | .writeFile path data _ => Function.update files path (some data)
  | .deleteFile path => Function.update files path none

/-- The data of the last write to a path, unless a deletion of the path followed it. -/
def afterCalls (ops : List OxideFs.FsOp) : FileMap := ops.foldl apply empty

end FileMap

namespace OxideFs

variable {fs fs' : OxideFs} {path p : String} {data : List UInt8} {tick : UInt64} {id : BlobId}
  {files : FileMap} {op : FsOp}

/-! ## Blobs stay -/

/-- Every blob is still there, unchanged. -/
def KeepsBlobs (fs fs' : OxideFs) : Prop :=
  ∀ (id : BlobId) (data : List UInt8), fs.blobs[id]? = some data → fs'.blobs[id]? = some data

theorem WellFormed.keepsBlobs_insertBlob (hfs : fs.WellFormed) :
    fs.KeepsBlobs (fs.insertBlob data) := by
  intro id blob hblob
  have hlt := ((hfs.mem_blobs id).mp (mem_blobs_iff.mpr ⟨blob, hblob⟩)).2
  have hne : compare fs.nextBlobId id ≠ .eq := by
    rw [ne_eq, Std.LawfulEqCmp.compare_eq_iff_eq]
    exact hlt.ne'
  rw [OxideFs.insertBlob, Std.ExtTreeMap.getElem?_insert, if_neg hne, hblob]

theorem WellFormed.keepsBlobs_step (hfs : fs.WellFormed) (op : FsOp) :
    fs.KeepsBlobs (fs.step op) := by
  cases op with
  | writeFile path data tick =>
    rw [step, OxideFs.writeFile]
    split
    · exact fun id blob hblob => hblob
    · exact hfs.keepsBlobs_insertBlob
  | deleteFile path =>
    rw [step, OxideFs.deleteFile]
    split
    · exact fun id blob hblob => hblob
    · exact fun id blob hblob => hblob

theorem WellFormed.keepsBlobs_foldl (hfs : fs.WellFormed) (ops : List FsOp) :
    fs.KeepsBlobs (ops.foldl step fs) := by
  induction ops generalizing fs with
  | nil => exact fun id blob hblob => hblob
  | cons op ops ih =>
    intro id blob hblob
    have hstep : (fs.step op).WellFormed := wellFormed_invariant.step fs op _ hfs rfl
    exact ih hstep id blob (hfs.keepsBlobs_step op id blob hblob)

/-! ## The entry a call leaves -/

/-- A write points its path at a blob with the data, whether it was there or is new. -/
theorem writeFile_spec (fs : OxideFs) (path : String) (data : List UInt8) (tick : UInt64) :
    ∃ blobId, (fs.writeFile path data tick).2.blobs[blobId]? = some data ∧
      (fs.writeFile path data tick).2.index = fs.index.insert path
        { path, blobId, size := data.length.toUInt64, createdTick := tick, modifiedTick := tick,
          deleted := false } := by
  rw [OxideFs.writeFile]
  split
  · next id hid => exact ⟨id, existing_eq_some hid, rfl⟩
  · exact ⟨fs.nextBlobId, Std.ExtTreeMap.getElem?_insert_self, rfl⟩

/-- A deletion marks the entry of its path, if there is one. -/
theorem getElem?_index_deleteFile (fs : OxideFs) (path p : String) :
    (fs.deleteFile path).2.index[p]? =
      if p = path then fs.index[p]?.map FileEntry.markDeleted else fs.index[p]? := by
  rw [OxideFs.deleteFile]
  split
  · next hmem =>
    rw [Std.ExtTreeMap.getElem?_modify]
    by_cases hp : p = path
    · simp [hp]
    · simp [hp, Ne.symm hp]
  · next hmem =>
    by_cases hp : p = path
    · simp [hp, Std.ExtTreeMap.getElem?_eq_none hmem]
    · simp [hp]

theorem blobs_deleteFile (fs : OxideFs) (path : String) :
    (fs.deleteFile path).2.blobs = fs.blobs := by
  rw [OxideFs.deleteFile]
  split
  · rfl
  · rfl

/-! ## Representation -/

/-- The file system holds exactly these files, and its entries know the length of their blobs. -/
structure Represents (fs : OxideFs) (files : FileMap) : Prop where
  wellFormed : fs.WellFormed
  readFile : ∀ path, fs.readFile path = files path
  size : ∀ (path : String) (e : FileEntry), fs.index[path]? = some e →
    ∃ data, fs.blobs[e.blobId]? = some data ∧ e.size = data.length.toUInt64

theorem represents_new : new.Represents FileMap.empty where
  wellFormed := wellFormed_new
  readFile path := by simp [OxideFs.readFile, new, FileMap.empty]
  size path e h := by simp [new] at h

theorem Represents.writeFile (h : fs.Represents files) :
    (fs.writeFile path data tick).2.Represents (files.apply (.writeFile path data tick)) := by
  obtain ⟨blobId, hblob, hindex⟩ := writeFile_spec fs path data tick
  have hkeeps := h.wellFormed.keepsBlobs_step (.writeFile path data tick)
  refine ⟨h.wellFormed.writeFile, fun p => ?_, fun p e he => ?_⟩
  · rw [OxideFs.readFile, hindex, Std.ExtTreeMap.getElem?_insert]
    by_cases hp : path = p
    · subst hp
      simp [FileMap.apply, hblob]
    · rw [FileMap.apply, Function.update_of_ne (Ne.symm hp), ← h.readFile p, OxideFs.readFile]
      simp only [Std.LawfulEqCmp.compare_eq_iff_eq, hp, if_false]
      cases he : fs.index[p]? with
      | none => rfl
      | some e =>
        obtain ⟨old, hold, -⟩ := h.size p e he
        have hnew := hkeeps e.blobId old hold
        rw [step] at hnew
        simp [hnew, hold]
  · rw [hindex, Std.ExtTreeMap.getElem?_insert] at he
    split at he
    · obtain rfl := Option.some.inj he
      exact ⟨data, hblob, rfl⟩
    · obtain ⟨old, hold, hsize⟩ := h.size p e he
      exact ⟨old, hkeeps e.blobId old hold, hsize⟩

theorem Represents.deleteFile (h : fs.Represents files) :
    (fs.deleteFile path).2.Represents (files.apply (.deleteFile path)) := by
  refine ⟨h.wellFormed.deleteFile, fun p => ?_, fun p e he => ?_⟩
  · rw [OxideFs.readFile, getElem?_index_deleteFile, blobs_deleteFile]
    by_cases hp : p = path
    · subst hp
      rw [FileMap.apply, Function.update_self, if_pos rfl]
      cases fs.index[p]? with
      | none => rfl
      | some e => rfl
    · rw [FileMap.apply, Function.update_of_ne hp, if_neg hp, ← h.readFile p, OxideFs.readFile]
  · rw [getElem?_index_deleteFile] at he
    rw [blobs_deleteFile]
    split at he
    · obtain ⟨old, hold, rfl⟩ := Option.map_eq_some_iff.mp he
      exact h.size p old hold
    · exact h.size p e he

/-- **A call on the file system is the call on the map.** -/
theorem Represents.step (h : fs.Represents files) (op : FsOp) :
    (fs.step op).Represents (files.apply op) := by
  cases op with
  | writeFile path data tick => exact h.writeFile
  | deleteFile path => exact h.deleteFile

theorem Represents.foldl (h : fs.Represents files) (ops : List FsOp) :
    (ops.foldl OxideFs.step fs).Represents (ops.foldl FileMap.apply files) := by
  induction ops generalizing fs files with
  | nil => exact h
  | cons op ops ih => exact ih (h.step op)

/-! ## Listing and counting -/

/-- A path is live exactly when the map holds it. -/
theorem Represents.isSome_iff (h : fs.Represents files) :
    (files path).isSome = true ↔ ∃ e, (path, e) ∈ fs.liveEntries := by
  rw [← h.readFile path, OxideFs.readFile]
  cases he : fs.index[path]? with
  | none => simp [mem_liveEntries, he]
  | some e =>
    obtain ⟨data, hdata, -⟩ := h.size path e he
    cases hdeleted : e.deleted with
    | true => simp [mem_liveEntries, he, hdeleted]
    | false => simp [mem_liveEntries, he, hdeleted, hdata]

theorem mem_list {pre : String} {e : FileEntry} :
    e ∈ fs.list pre ↔ ∃ path, (path, e) ∈ fs.liveEntries ∧ startsWith path pre = true := by
  simp only [list, liveEntries, List.mem_map, List.mem_filter, Prod.exists, Bool.and_eq_true]
  constructor
  · rintro ⟨path, e', ⟨hmem, hpre, hlive⟩, rfl⟩
    exact ⟨path, ⟨hmem, hlive⟩, hpre⟩
  · rintro ⟨path, ⟨hmem, hlive⟩, hpre⟩
    exact ⟨path, e, ⟨hmem, hpre, hlive⟩, rfl⟩

/-- A listing has the live paths with the prefix, with the length of their data. -/
theorem Represents.mem_list_iff (h : fs.Represents files) {pre : String} {size : UInt64} :
    (∃ e ∈ fs.list pre, e.path = path ∧ e.size = size) ↔
      startsWith path pre = true ∧
        ∃ data, files path = some data ∧ data.length.toUInt64 = size := by
  constructor
  · rintro ⟨e, he, rfl, rfl⟩
    obtain ⟨path, hlive, hpre⟩ := mem_list.mp he
    obtain ⟨hindex, hdeleted⟩ : fs.index[path]? = some e ∧ e.deleted = false :=
      mem_liveEntries.mp hlive
    obtain ⟨data, hdata, hsize⟩ := h.size path e hindex
    obtain rfl : e.path = path := (h.wellFormed.entry path e hindex).1
    refine ⟨hpre, data, ?_, hsize.symm⟩
    rw [← h.readFile, OxideFs.readFile, hindex]
    simp [hdeleted, hdata]
  · rintro ⟨hpre, data, hdata, rfl⟩
    obtain ⟨e, hlive⟩ := h.isSome_iff.mp (by rw [hdata]; rfl)
    obtain ⟨hindex, hdeleted⟩ : fs.index[path]? = some e ∧ e.deleted = false :=
      mem_liveEntries.mp hlive
    obtain ⟨blob, hblob, hsize⟩ := h.size path e hindex
    have hread := h.readFile path
    rw [OxideFs.readFile, hindex, hdata] at hread
    obtain rfl : blob = data := by simpa [hdeleted, hblob] using hread
    exact ⟨e, mem_list.mpr ⟨path, hlive, hpre⟩, (h.wellFormed.entry path e hindex).1, hsize⟩

/-- A listing names no path twice. -/
theorem WellFormed.nodup_list (hfs : fs.WellFormed) (pre : String) :
    ((fs.list pre).map FileEntry.path).Nodup := by
  have hsub : (fs.index.toList.filter fun p => startsWith p.1 pre && !p.2.deleted).Sublist
      fs.index.toList := List.filter_sublist
  have hkeys := (Std.ExtTreeMap.nodup_keys_toList fs.index).sublist (hsub.map Prod.fst)
  have hpaths : (fs.index.toList.filter fun p => startsWith p.1 pre && !p.2.deleted).map
      (fun p => p.2.path) =
      (fs.index.toList.filter fun p => startsWith p.1 pre && !p.2.deleted).map Prod.fst := by
    refine List.map_congr_left fun p hp => ?_
    have hp' : fs.index[p.1]? = some p.2 :=
      Std.ExtTreeMap.mem_toList_iff_getElem?_eq_some.mp (hsub.mem hp)
    exact (hfs.entry p.1 p.2 hp').1
  rw [← hpaths] at hkeys
  rw [list, List.map_map]
  exact hkeys

theorem Represents.length_liveEntries (h : fs.Represents files) :
    fs.liveEntries.length = {path | (files path).isSome = true}.ncard := by
  have hset : {path | (files path).isSome = true} =
      ((fs.liveEntries.map Prod.fst).toFinset : Set String) := by
    ext path
    simp [h.isSome_iff]
  rw [hset, Set.ncard_coe_finset, List.toFinset_card_of_nodup (nodup_liveEntries fs),
    List.length_map]

/-- **OxideFS is a map of files**: after any calls on the empty file system, with any contents, a
path reads the data of the last write to it unless a deletion followed, a listing has exactly the
live paths with the prefix, each once and with the length of its data, the blobs stay as they are
whatever is called next, and the statistics count the live paths and the bytes of the blobs. -/
theorem refines_fileMap (ops : List FsOp) :
    let fs := ops.foldl step new
    let files := FileMap.afterCalls ops
    (∀ path, fs.readFile path = files path) ∧
      (∀ pre, ((fs.list pre).map FileEntry.path).Nodup ∧
        ∀ path size, (∃ e ∈ fs.list pre, e.path = path ∧ e.size = size) ↔
          startsWith path pre = true ∧
            ∃ data, files path = some data ∧ data.length.toUInt64 = size) ∧
      (∀ more : List FsOp, fs.KeepsBlobs (more.foldl step fs)) ∧
      fs.stats.1 = {path | (files path).isSome = true}.ncard ∧
      fs.totalBytes = (fs.blobs.toList.map fun p => p.2.length).sum := by
  intro fs files
  have h : fs.Represents files := represents_new.foldl ops
  refine ⟨h.readFile, fun pre => ⟨h.wellFormed.nodup_list pre, fun path size => h.mem_list_iff⟩,
    fun more => h.wellFormed.keepsBlobs_foldl more, h.length_liveEntries, h.wellFormed.totalBytes⟩

/-- A deleted file comes back with the next write, and shares its blob. -/
example : ([.writeFile "/a" [1] 0, .writeFile "/b" [1] 1, .deleteFile "/a", .writeFile "/a" [2] 2,
    .deleteFile "/b"].foldl step new).readFile "/a" = some [2] := by decide

end OxideFs

end OxideOS
