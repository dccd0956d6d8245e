import OxideOS.Storage.ContextStore
import OxideOS.Storage.Persistence

/-!
# The round trip through the disk

Syncing a file system to the disk and loading it after a restart, with a fresh file system and a
fresh block cache.  The blob section survives whole.  An entry block holds 255 bytes of a path, so
the files survive exactly when every live path fits; the context store builds longer paths from the
keys that the system call interface admits.

## Main definitions

* `OxideFs.blockCount`: the number of blocks of the disk image
* `OxideFs.reload`: sync, restart, load
* `OxideFs.SameFiles`: the same files with the same contents and the same data in the index
* `OxideFs.EntriesFit`: the live entries fit their count field and their blocks

## Main results

* `OxideFs.blobs_roundTrip`: blobs, hash table and counters survive
* `OxideFs.files_roundTrip_iff`: the files survive exactly when their entries fit
-/

namespace OxideOS

namespace OxideFs

variable {H : Type} {io : BlockIo H} {capacity : Nat} {ready : H → Prop}
  {sector : H → Nat → Block} {device : VirtioBlkDevice H} {fs fs' : OxideFs}

/-! ## The size of the image -/

/-- The number of blocks of the disk image: the superblock, for each blob a header block with 500
bytes and the blocks with the rest, and a block for each live entry. -/
def blockCount (fs : OxideFs) : Nat :=
  1 + (fs.blobs.toList.map fun p => 1 + (p.2.length - 500 + 511) / 512).sum +
    fs.liveEntries.length

theorem length_contBlocks (data : List UInt8) (offset : Nat) :
    (contBlocks data offset).length = (data.length - offset + 511) / 512 := by
  fun_induction contBlocks data offset with
  | case1 offset hlt ih =>
    rw [List.length_cons, ih, contChunk]
    omega
  | case2 offset hlt =>
    rw [List.length_nil]
    omega

theorem length_blobBlocks (blobId : BlobId) (data : List UInt8) :
    (blobBlocks blobId data).length = 1 + (data.length - 500 + 511) / 512 := by
  rw [blobBlocks, List.length_cons, length_contBlocks, firstChunk, Nat.add_comm]
  omega

theorem length_blocks (fs : OxideFs) : fs.blocks.length = fs.blockCount := by
  have hblobs : fs.blobSection.length =
      (fs.blobs.toList.map fun p => 1 + (p.2.length - 500 + 511) / 512).sum := by
    rw [blobSection, List.length_flatMap]
    simp only [length_blobBlocks]
  rw [blocks, List.length_cons, List.length_append, hblobs, List.length_map, blockCount]
  omega

/-! ## Sync, restart, load -/

/-- Sync to the disk, then load into a fresh file system through a fresh block cache. -/
def reload (io : BlockIo H) (fs : OxideFs) (s : Storage H) : Option (Bool × OxideFs × Storage H) :=
  loadFromDisk io new (Storage.fresh (fs.syncToDisk io s).device)

theorem reload_spec (hio : ReliableIo io capacity ready sector) (hdevice : device.Up capacity ready)
    (ops : List CacheOp) (hops : ∀ op ∈ ops, op.InRange capacity) (hfs : fs.WellFormed)
    (hfit : fs.BlobsFit) (hroom : fs.blockCount ≤ capacity) :
    ∃ s', fs.reload io (Storage.run io (Storage.fresh device) ops) =
      some (true, fs.restored, s') := by
  rw [← length_blocks] at hroom
  obtain ⟨hs, -⟩ := Storage.sound_run hio hdevice hops
  obtain ⟨hup, hstored⟩ := syncToDisk_spec hio hs hroom
  refine loadFromDisk_spec hio hfs hfit (Storage.sound_fresh hup) hroom ?_
  rwa [Storage.view_fresh]

/-- **The blob section survives**: for every reachable file system whose blobs fit their fields, on
every disk that never fails and has room, and whatever the block cache was used for before, loading
gives the same blobs, hash table and counters. -/
theorem blobs_roundTrip (hio : ReliableIo io capacity ready sector)
    (hdevice : device.Up capacity ready) (ops : List CacheOp)
    (hops : ∀ op ∈ ops, op.InRange capacity) (hfs : system.Reachable fs) (hfit : fs.BlobsFit)
    (hroom : fs.blockCount ≤ capacity) :
    ∃ fs' s', fs.reload io (Storage.run io (Storage.fresh device) ops) = some (true, fs', s') ∧
      fs'.blobs = fs.blobs ∧ fs'.contentHashes = fs.contentHashes ∧
      fs'.nextBlobId = fs.nextBlobId ∧ fs'.totalBytes = fs.totalBytes := by
  obtain ⟨s', hreload⟩ :=
    reload_spec hio hdevice ops hops (wellFormed_of_reachable hfs) hfit hroom
  exact ⟨fs.restored, s', hreload, rfl, rfl, rfl, rfl⟩

/-- Three files, two of them with one content. -/
def threeFiles : List FsOp :=
  [.writeFile "/a" [1, 2, 3] 5, .writeFile "/b" [4] 6, .writeFile "/c" [1, 2, 3] 7]

theorem blobsFit_threeFiles : (threeFiles.foldl step new).BlobsFit :=
  blobsFit_of_toList (by decide) (by decide)

theorem blobs_roundTrip_threeFiles :
    ∃ fs' s', (threeFiles.foldl step new).reload ramDisk
        (Storage.run ramDisk (Storage.fresh (ramDevice 8)) [.read 0]) = some (true, fs', s') ∧
      fs'.blobs = (threeFiles.foldl step new).blobs ∧
      fs'.contentHashes = (threeFiles.foldl step new).contentHashes ∧
      fs'.nextBlobId = (threeFiles.foldl step new).nextBlobId ∧
      fs'.totalBytes = (threeFiles.foldl step new).totalBytes := by
  refine blobs_roundTrip (ramDisk_reliable 8) (ramDevice_up 8) [.read 0] ?_ ?_
    blobsFit_threeFiles ?_
  · simp [CacheOp.InRange]
  · exact TransitionSystem.reachable_ofFun_iff.mpr ⟨threeFiles, rfl⟩
  · decide

/-! ## Files -/

/-- The second file system reads like the first on every path, keeps the data of every live entry,
has no entry for a path that is not live, and lists the same paths. -/
structure SameFiles (fs fs' : OxideFs) : Prop where
  readFile : ∀ path, fs'.readFile path = fs.readFile path
  entry : ∀ (path : String) (e : FileEntry), fs.index[path]? = some e → e.deleted = false →
    ∃ e' : FileEntry, fs'.index[path]? = some e' ∧ e'.deleted = false ∧ e'.size = e.size ∧
      e'.createdTick = e.createdTick ∧ e'.modifiedTick = e.modifiedTick
  absent : ∀ path : String, (∀ e : FileEntry, fs.index[path]? = some e → e.deleted = true) →
    fs'.index[path]? = none
  list : ∀ pre, (fs'.list pre).map FileEntry.path = (fs.list pre).map FileEntry.path

/-- The live entries fit their count field and their blocks. -/
structure EntriesFit (fs : OxideFs) : Prop where
  count : fs.liveEntries.length < 2 ^ 32
  path : ∀ p ∈ fs.liveEntries, (asBytes p.1).length ≤ 255

/-- A path of at most 255 bytes is stored whole. -/
theorem storedPath_of_le {path : String} (h : (asBytes path).length ≤ 255) :
    storedPath path = path := by
  rw [storedPath, pathLen, Nat.min_eq_left h, List.take_length, fromUtf8_asBytes]
  rfl

/-- A stored path has at most 255 bytes. -/
theorem length_storedPath_le (path : String) : (asBytes (storedPath path)).length ≤ 255 := by
  rw [storedPath]
  cases h : fromUtf8 ((asBytes path).take (pathLen path)) with
  | none => exact Nat.zero_le 255
  | some stored =>
    rw [Option.getD_some, asBytes_of_fromUtf8 h, length_take_pathLen]
    exact pathLen_le path

/-- A live entry that fits is stored under its own path and as it is: the clamp cuts nothing off. -/
theorem WellFormed.stored_eq (hfs : fs.WellFormed) (hfit : fs.EntriesFit) {p : String × FileEntry}
    (hp : p ∈ fs.liveEntries) : storedPath p.1 = p.1 ∧ storedEntry p.1 p.2 = p.2 := by
  obtain ⟨hentry, hdeleted⟩ := mem_liveEntries.mp hp
  have hpath : storedPath p.1 = p.1 := storedPath_of_le (hfit.path p hp)
  refine ⟨hpath, ?_⟩
  rw [storedEntry, hpath, ← (hfs.entry p.1 p.2 hentry).1, ← hdeleted]

/-- When the entries fit, loading restores the index without its deleted entries. -/
theorem WellFormed.index_restored (hfs : fs.WellFormed) (hfit : fs.EntriesFit) :
    fs.restored.index = fs.index.filter fun _ e => !e.deleted := by
  have hloaded : fs.loadedEntries = fs.liveEntries := by
    rw [loadedEntries, Nat.mod_eq_of_lt hfit.count, List.take_length]
  have hfold : fs.liveEntries.foldl (fun (m : BTreeMap String FileEntry) p =>
        m.insert (storedPath p.1) (storedEntry p.1 p.2)) ∅ =
      fs.liveEntries.foldl (fun m p => m.insert p.1 p.2) ∅ := by
    refine List.foldl_ext _ _ _ fun m p hp => ?_
    rw [(hfs.stored_eq hfit hp).1, (hfs.stored_eq hfit hp).2]
  show fs.loadedEntries.foldl _ ∅ = _
  rw [hloaded, hfold, liveEntries_eq]
  exact Std.ExtTreeMap.foldl_insert_toList

/-- A file system with the same blobs and the live part of the index has the same files. -/
theorem sameFiles_of_filter (hblobs : fs'.blobs = fs.blobs)
    (hindex : fs'.index = fs.index.filter fun _ e => !e.deleted) : SameFiles fs fs' := by
  have hget : ∀ path : String, fs'.index[path]? =
      (fs.index[path]?).filter fun e => !e.deleted := by
    intro path
    rw [hindex, Std.ExtTreeMap.getElem?_filter']
  refine ⟨?_, ?_, ?_, ?_⟩
  · intro path
    rw [readFile, readFile, hget, hblobs]
    cases fs.index[path]? with
    | none => rfl
    | some e => cases he : e.deleted <;> simp [Option.filter, he]
  · intro path e he hdeleted
    refine ⟨e, ?_, hdeleted, rfl, rfl, rfl⟩
    rw [hget, he]
    simp [Option.filter, hdeleted]
  · intro path hdeleted
    rw [hget]
    cases he : fs.index[path]? with
    | none => rfl
    | some e => simp [Option.filter, hdeleted e he]
  · intro pre
    rw [list, list, hindex, Std.ExtTreeMap.toList_filter, List.filter_filter]
    simp only [Bool.and_assoc, Bool.and_self]

/-- The paths of a loaded index are stored paths. -/
theorem mem_index_restored {path : String} (h : path ∈ fs.restored.index) :
    ∃ p ∈ fs.loadedEntries, storedPath p.1 = path := by
  have hfold := (Std.ExtTreeMap.mem_foldl_insert (f := fun p : String × FileEntry => storedPath p.1)
    (g := fun p => storedEntry p.1 p.2) (m := (∅ : BTreeMap String FileEntry))).mp h
  exact hfold.resolve_left Std.ExtTreeMap.not_mem_empty

/-- A live path is a path of every index with the same files. -/
theorem SameFiles.mem_index (hsame : SameFiles fs fs') {p : String × FileEntry}
    (hp : p ∈ fs.liveEntries) : p.1 ∈ fs'.index := by
  obtain ⟨hentry, hdeleted⟩ := mem_liveEntries.mp hp
  obtain ⟨e', he', -⟩ := hsame.entry p.1 p.2 hentry hdeleted
  exact Std.ExtTreeMap.mem_iff_isSome_getElem?.mpr (by rw [he']; rfl)

/-- A loaded file system has too short paths and too few of them for entries that do not fit. -/
theorem entriesFit_of_sameFiles (hsame : SameFiles fs fs.restored) : fs.EntriesFit := by
  have hstored : ∀ p ∈ fs.liveEntries, ∃ q ∈ fs.loadedEntries, storedPath q.1 = p.1 :=
    fun p hp => mem_index_restored (hsame.mem_index hp)
  refine ⟨?_, ?_⟩
  · have hsub : fs.liveEntries.map Prod.fst ⊆ fs.loadedEntries.map fun q => storedPath q.1 := by
      intro path hpath
      obtain ⟨p, hp, rfl⟩ := List.mem_map.mp hpath
      obtain ⟨q, hq, hqp⟩ := hstored p hp
      exact List.mem_map.mpr ⟨q, hq, hqp⟩
    have hle := (List.subperm_of_subset (nodup_liveEntries fs) hsub).length_le
    rw [List.length_map, List.length_map, loadedEntries, List.length_take] at hle
    have hmod : fs.liveEntries.length % 2 ^ 32 < 2 ^ 32 := Nat.mod_lt _ (by decide)
    omega
  · intro p hp
    obtain ⟨q, -, hqp⟩ := hstored p hp
    rw [← hqp]
    exact length_storedPath_le q.1

theorem WellFormed.sameFiles_restored_iff (hfs : fs.WellFormed) :
    SameFiles fs fs.restored ↔ fs.EntriesFit :=
  ⟨entriesFit_of_sameFiles, fun h => sameFiles_of_filter rfl (hfs.index_restored h)⟩

/-- Loading after a sync gives the same files. -/
def FilesSurvive (io : BlockIo H) (fs : OxideFs) (s : Storage H) : Prop :=
  ∃ fs' s', fs.reload io s = some (true, fs', s') ∧ SameFiles fs fs'

theorem filesSurvive_iff_of_reload {s s' : Storage H}
    (h : fs.reload io s = some (true, fs.restored, s')) :
    fs.FilesSurvive io s ↔ SameFiles fs fs.restored := by
  constructor
  · rintro ⟨fs', s'', h', hsame⟩
    rw [h] at h'
    obtain ⟨rfl, rfl⟩ : fs.restored = fs' ∧ s' = s'' := by simpa using h'
    exact hsame
  · intro hsame
    exact ⟨fs.restored, s', h, hsame⟩

/-- **The files survive exactly when their entries fit**: for every reachable file system whose
blobs fit their fields, on every disk that never fails and has room, and whatever the block cache
was used for before, loading gives the same files if and only if every live path has at most 255
bytes and the live entries fit their 32-bit count. -/
theorem files_roundTrip_iff (hio : ReliableIo io capacity ready sector)
    (hdevice : device.Up capacity ready) (ops : List CacheOp)
    (hops : ∀ op ∈ ops, op.InRange capacity) (hfs : system.Reachable fs) (hfit : fs.BlobsFit)
    (hroom : fs.blockCount ≤ capacity) :
    fs.FilesSurvive io (Storage.run io (Storage.fresh device) ops) ↔ fs.EntriesFit := by
  have hwf : fs.WellFormed := wellFormed_of_reachable hfs
  obtain ⟨s', hreload⟩ := reload_spec hio hdevice ops hops hwf hfit hroom
  rw [filesSurvive_iff_of_reload hreload, hwf.sameFiles_restored_iff]

theorem files_roundTrip_iff_threeFiles :
    (threeFiles.foldl step new).FilesSurvive ramDisk
      (Storage.run ramDisk (Storage.fresh (ramDevice 8)) []) := by
  refine (files_roundTrip_iff (ramDisk_reliable 8) (ramDevice_up 8) [] ?_ ?_
    blobsFit_threeFiles ?_).mpr ⟨?_, ?_⟩
  · simp
  · exact TransitionSystem.reachable_ofFun_iff.mpr ⟨threeFiles, rfl⟩
  · decide
  · decide
  · decide

/-! ## A key of 256 bytes -/

/-- A key as long as the system call interface admits. -/
def longKey : String := String.ofList (List.replicate 256 'k')

/-- The file system after an agent has stored one byte under that key. -/
def longKeyFs : OxideFs := (ContextStore.new.set new 1 longKey [1] 0).2

theorem length_asBytes_replicate (n : Nat) :
    (asBytes (String.ofList (List.replicate n 'k'))).length = n := by
  induction n with
  | zero => rfl
  | succ n ih =>
    have hcons : String.ofList (List.replicate (n + 1) 'k') =
        "k" ++ String.ofList (List.replicate n 'k') := by
      rw [List.replicate_succ]
      simp [String.ofList_cons]
    rw [hcons, asBytes_append, List.length_append, ih, Nat.add_comm]
    rfl

/-- A path is live right after it was written. -/
theorem exists_mem_liveEntries_writeFile (fs : OxideFs) (path : String) (data : List UInt8)
    (tick : UInt64) : ∃ e, (path, e) ∈ (fs.writeFile path data tick).2.liveEntries := by
  obtain ⟨e, hindex, hdeleted⟩ := index_writeFile fs path data tick
  refine ⟨e, mem_liveEntries.mpr ⟨?_, hdeleted⟩⟩
  rw [hindex]
  exact Std.ExtTreeMap.getElem?_insert_self

theorem length_longPath : 255 < (asBytes (agentPath 1 longKey)).length := by
  have hkey : (asBytes longKey).length = 256 := length_asBytes_replicate 256
  rw [agentPath, asBytes_append, List.length_append, hkey]
  omega

/-- The system call admits the key and the disk has room, but the file does not survive. -/
theorem longKey_lost :
    (asBytes longKey).length ≤ 256 ∧ system.Reachable longKeyFs ∧ longKeyFs.BlobsFit ∧
      longKeyFs.blockCount ≤ 8 ∧
      ¬longKeyFs.FilesSurvive ramDisk (Storage.run ramDisk (Storage.fresh (ramDevice 8)) []) := by
  have hreach : system.Reachable longKeyFs :=
    TransitionSystem.reachable_ofFun_iff.mpr ⟨[.writeFile (agentPath 1 longKey) [1] 0], rfl⟩
  have hfit : longKeyFs.BlobsFit := blobsFit_of_toList (by decide) (by decide)
  have hroom : longKeyFs.blockCount ≤ 8 := by decide
  refine ⟨(length_asBytes_replicate 256).le, hreach, hfit, hroom, ?_⟩
  have hwf : longKeyFs.WellFormed := wellFormed_of_reachable hreach
  obtain ⟨s', hreload⟩ := reload_spec (ramDisk_reliable 8) (ramDevice_up 8) [] (by simp) hwf hfit
    hroom
  rw [filesSurvive_iff_of_reload hreload, hwf.sameFiles_restored_iff]
  intro hentries
  obtain ⟨e, he⟩ := exists_mem_liveEntries_writeFile new (agentPath 1 longKey) [1] 0
  exact absurd (hentries.path _ he) (Nat.not_le.mpr length_longPath)

end OxideFs

end OxideOS
