import OxideOS.Lib.Layout
import OxideOS.Storage.DiskFormat
import Mathlib.Algebra.Group.Action.Defs
import Mathlib.Algebra.Order.BigOperators.Group.List

/-!
# Persistence of OxideFS

What `sync_to_disk` leaves on the disk, and what `load_from_disk` makes of it.  A writing loop is
described by the list of blocks it writes, a reading loop by the blocks it reads and its result;
both descriptions compose along the loops, and the two loops of the format meet at the same list.
What is written shows on a disk that never fails, whatever the cache does in between.

## Main definitions

* `Emits`, `Writes`, `Reads`: a program over a cursor writes, or reads, consecutive blocks
* `OxideFs.blocks`: the disk image of a file system
* `OxideFs.restored`: the file system that loading the image gives

## Main results

* `OxideFs.syncToDisk_spec`: after a sync the disk holds the image
* `OxideFs.loadFromDisk_spec`: loading the image restores the file system, up to the clamped paths
-/

namespace OxideOS

open Layout

variable {H : Type} {io : BlockIo H} {capacity : Nat} {ready : H → Prop}
  {sector : H → Nat → Block}

/-! ## Programs over a cursor -/

/-- The program writes these blocks, from the cursor on. -/
def Writes (capacity : Nat) (ready : H → Prop) (sector : H → Nat → Block) (p : Sync H Unit)
    (blocks : List Block) : Prop :=
  ∀ s k, s.Sound capacity ready sector → k + blocks.length ≤ capacity →
    ∃ s', p ⟨s, k⟩ = ((), ⟨s', k + blocks.length⟩) ∧ s'.Sound capacity ready sector ∧
      s'.view sector = overlay (s.view sector) k blocks

/-- Over these blocks, stored from the cursor on, the program returns this result. -/
def Reads (capacity : Nat) (ready : H → Prop) (sector : H → Nat → Block) {α : Type} (p : Load H α)
    (blocks : List Block) (a : α) : Prop :=
  ∀ s k, s.Sound capacity ready sector → k + blocks.length ≤ capacity →
    Stored (s.view sector) k blocks →
    ∃ s', p ⟨s, k⟩ = some (a, ⟨s', k + blocks.length⟩) ∧ s'.Sound capacity ready sector ∧
      s'.view sector = s.view sector

/-- The program writes these blocks one after another, and does nothing else. -/
def Emits (io : BlockIo H) (p : Sync H Unit) (blocks : List Block) : Prop :=
  ∀ c, p c = ((), blocks.foldl (fun c b => (writeNext io b c).2) c)

namespace Emits

variable {p q : Sync H Unit} {bs cs : List Block}

theorem pure : Emits io (pure ()) [] := fun _ => rfl

theorem next (b : Block) : Emits io (writeNext io b) [b] := fun _ => rfl

theorem bind (hp : Emits io p bs) (hq : Emits io q cs) :
    Emits io (p >>= fun _ => q) (bs ++ cs) := by
  intro c
  rw [List.foldl_append, ← hq]
  show (match p c with | (_, c) => q c) = _
  rw [hp]

theorem forM {α : Type} {f : α → Sync H Unit} {g : α → List Block} {l : List α}
    (h : ∀ a ∈ l, Emits io (f a) (g a)) : Emits io (l.forM f) (l.flatMap g) := by
  induction l with
  | nil => exact Emits.pure
  | cons a l ih =>
    rw [List.flatMap_cons]
    exact (h a List.mem_cons_self).bind (ih fun b hb => h b (List.mem_cons_of_mem a hb))

/-- On a disk that never fails, what is written shows. -/
theorem writes (h : Emits io p bs) (hio : ReliableIo io capacity ready sector) :
    Writes capacity ready sector p bs := by
  intro s k hs hk
  rw [h]
  induction bs generalizing s k p with
  | nil => exact ⟨s, rfl, hs, rfl⟩
  | cons b bs ih =>
    rw [List.length_cons] at hk
    obtain ⟨s₁, hwrite, hs₁, hview₁⟩ := hs.write_spec hio (n := k) (by omega) b
    obtain ⟨s₂, hrun₂, hs₂, hview₂⟩ := ih (fun _ => rfl) s₁ (k + 1) hs₁ (by omega)
    refine ⟨s₂, ?_, hs₂, by rw [hview₂, hview₁, overlay]⟩
    rw [List.length_cons, Nat.add_comm bs.length, ← Nat.add_assoc, ← hrun₂, List.foldl_cons,
      writeNext, hwrite]

end Emits

namespace Reads

variable {α β : Type} {p : Load H α} {f : α → Load H β} {bs cs : List Block} {a : α} {b : β}

theorem pure (a : α) : Reads capacity ready sector (pure a) [] a := by
  intro s k hs _ _
  exact ⟨s, rfl, hs, rfl⟩

theorem next (hio : ReliableIo io capacity ready sector) (b : Block) :
    Reads capacity ready sector (readNext io) [b] b := by
  intro s k hs hk hb
  obtain ⟨s', hread, hs', hview⟩ := hs.read_spec hio hk
  refine ⟨s', ?_, hs', hview⟩
  rw [readNext, hread, hb.1]
  rfl

theorem bind (hp : Reads capacity ready sector p bs a)
    (hf : Reads capacity ready sector (f a) cs b) :
    Reads capacity ready sector (p >>= f) (bs ++ cs) b := by
  intro s k hs hk hstored
  rw [List.length_append] at hk
  obtain ⟨hbs, hcs⟩ := stored_append.mp hstored
  obtain ⟨s₁, hrun₁, hs₁, hview₁⟩ := hp s k hs (by omega) hbs
  obtain ⟨s₂, hrun₂, hs₂, hview₂⟩ := hf s₁ (k + bs.length) hs₁ (by omega) (hview₁ ▸ hcs)
  refine ⟨s₂, ?_, hs₂, hview₂.trans hview₁⟩
  rw [List.length_append, ← Nat.add_assoc, ← hrun₂]
  show (p ⟨s, k⟩).bind (fun r => f r.1 r.2) = _
  rw [hrun₁]
  rfl

end Reads

namespace OxideFs

/-! ## Blobs -/

/-- The continuation blocks of a blob, from an offset into its data on. -/
def contBlocks (data : List UInt8) (offset : Nat) : List Block :=
  if offset < data.length then
    contBlock data offset :: contBlocks data (offset + contChunk (data.length - offset))
  else []
termination_by data.length - offset
decreasing_by
  rw [contChunk]
  omega

/-- The blocks of a blob. -/
def blobBlocks (blobId : BlobId) (data : List UInt8) : List Block :=
  blobHeader blobId data :: contBlocks data (firstChunk data.length)

theorem emits_syncCont (data : List UInt8) (offset : Nat) :
    Emits io (syncCont io data offset) (contBlocks data offset) := by
  fun_induction contBlocks data offset with
  | case1 offset hlt ih =>
    rw [syncCont, if_pos hlt]
    exact (Emits.next _).bind ih
  | case2 offset hlt =>
    rw [syncCont, if_neg hlt]
    exact Emits.pure

theorem emits_syncBlob (blobId : BlobId) (data : List UInt8) :
    Emits io (syncBlob io blobId data) (blobBlocks blobId data) :=
  (Emits.next _).bind (emits_syncCont data _)

/-- A continuation block gives back its bytes of the data. -/
theorem slice_contBlock {data : List UInt8} {offset chunk : Nat}
    (hchunk : chunk = contChunk (data.length - offset)) {h : 0 + chunk ≤ 512} :
    (contBlock data offset).slice 0 chunk h = Bytes.slice data offset chunk := by
  subst hchunk
  refine Block.slice_copyFromSlice_self ?_
  rw [Bytes.slice, List.length_take, List.length_drop, contChunk]
  omega

/-- Reading the continuation blocks from an offset on completes the data. -/
theorem reads_loadCont (hio : ReliableIo io capacity ready sector) (data : List UInt8)
    (offset : Nat) (hoffset : offset ≤ data.length) :
    Reads capacity ready sector (loadCont io (data.length - offset) (data.take offset))
      (contBlocks data offset) data := by
  fun_induction contBlocks data offset with
  | case1 offset hlt ih =>
    have hchunk : offset + contChunk (data.length - offset) ≤ data.length := by
      rw [contChunk]
      omega
    rw [loadCont, if_pos (Nat.sub_pos_of_lt hlt)]
    refine (Reads.next hio (contBlock data offset)).bind ?_
    simp only [slice_contBlock]
    rw [Bytes.slice, ← List.take_add, Nat.sub_sub]
    exact ih hchunk
  | case2 offset hlt =>
    have heq : offset = data.length := Nat.le_antisymm hoffset (Nat.not_lt.mp hlt)
    rw [heq, Nat.sub_self, List.take_length, loadCont, if_neg (Nat.lt_irrefl 0)]
    exact Reads.pure data

variable {blobId : BlobId} {data : List UInt8}

theorem slice_blobHeader_id :
    (blobHeader blobId data).slice 0 8 (by decide) = Bytes.le 8 blobId := by
  rw [blobHeader, Block.slice_copyFromSlice_of_disjoint (.inl (by decide)),
    Block.slice_copyFromSlice_of_disjoint (.inl (by decide)),
    Block.slice_copyFromSlice_self (Bytes.length_le 8 blobId).symm]

theorem slice_blobHeader_size :
    (blobHeader blobId data).slice 8 4 (by decide) = Bytes.le 4 data.length := by
  rw [blobHeader, Block.slice_copyFromSlice_of_disjoint (.inl (by decide)),
    Block.slice_copyFromSlice_self (Bytes.length_le 4 data.length).symm]

theorem slice_blobHeader_data {first : Nat} (hfirst : first = firstChunk data.length)
    {h : 12 + first ≤ 512} :
    (blobHeader blobId data).slice 12 first h = data.take (firstChunk data.length) := by
  subst hfirst
  refine Block.slice_copyFromSlice_self ?_
  rw [List.length_take, firstChunk]
  omega

/-- A blob is read back as it was written. -/
theorem reads_loadBlob (hio : ReliableIo io capacity ready sector) (hid : blobId < 256 ^ 8)
    (hdata : data.length < 256 ^ 4) (fs : OxideFs) :
    Reads capacity ready sector (loadBlob io fs) (blobBlocks blobId data)
      (fs.restoreBlob blobId data) := by
  refine (Reads.next hio (blobHeader blobId data)).bind ?_
  have hsize : Bytes.ofLE ((blobHeader blobId data).slice 8 4 (by decide)) = data.length := by
    rw [slice_blobHeader_size, Bytes.ofLE_le_of_lt hdata]
  have hdec : Bytes.ofLE ((blobHeader blobId data).slice 0 8 (by decide)) = blobId := by
    rw [slice_blobHeader_id, Bytes.ofLE_le_of_lt hid]
  simp only [hsize, hdec, slice_blobHeader_data]
  have hcont := (reads_loadCont hio data (firstChunk data.length) (Nat.min_le_left _ _)).bind
    (f := fun data => pure (fs.restoreBlob blobId data)) (Reads.pure _)
  rwa [List.append_nil] at hcont

theorem reads_loadBlobs (hio : ReliableIo io capacity ready sector)
    {blobs : List (BlobId × List UInt8)}
    (hblobs : ∀ p ∈ blobs, p.1 < 256 ^ 8 ∧ p.2.length < 256 ^ 4) :
    ∀ fs : OxideFs, Reads capacity ready sector (loadBlobs io blobs.length fs)
      (blobs.flatMap fun p => blobBlocks p.1 p.2)
      (blobs.foldl (fun fs p => fs.restoreBlob p.1 p.2) fs) := by
  induction blobs with
  | nil => exact fun fs => Reads.pure fs
  | cons p blobs ih =>
    intro fs
    obtain ⟨hid, hdata⟩ := hblobs p List.mem_cons_self
    rw [List.flatMap_cons]
    exact (reads_loadBlob hio hid hdata fs).bind
      (ih (fun q hq => hblobs q (List.mem_cons_of_mem p hq)) _)

/-! ## Entries -/

/-- The path that reading an entry block gives: the clamp may cut a character in two, and what is
not UTF-8 any more is read as the empty path. -/
def storedPath (path : String) : String :=
  (fromUtf8 ((asBytes path).take (pathLen path))).getD ""

/-- The entry that reading an entry block gives. -/
def storedEntry (path : String) (entry : FileEntry) : FileEntry :=
  { entry with path := storedPath path, deleted := false }

theorem toUInt64_ofLE_le (x : UInt64) : (Bytes.ofLE (Bytes.le 8 x.toNat)).toUInt64 = x := by
  rw [Bytes.ofLE_le_of_lt x.toNat_lt]
  exact UInt64.ofNat_toNat

theorem slice_entryBlock_len (path : String) (entry : FileEntry) :
    (entryBlock path entry).slice 0 2 (by decide) = Bytes.le 2 (pathLen path) := by
  simp only [entryBlock]
  iterate 5 rw [Block.slice_copyFromSlice_of_disjoint (.inl (by omega))]
  exact Block.slice_copyFromSlice_self (Bytes.length_le 2 _).symm

theorem slice?_entryBlock_path (path : String) (entry : FileEntry) :
    (entryBlock path entry).slice? 2 (pathLen path) =
      some ((asBytes path).take (pathLen path)) := by
  have hlen : pathLen path ≤ 255 := pathLen_le path
  rw [Block.slice?_of_le (by omega)]
  simp only [entryBlock]
  iterate 4 rw [Block.slice_copyFromSlice_of_disjoint (.inl (by omega))]
  rw [Block.slice_copyFromSlice_self (length_take_pathLen path).symm]

/-- The four words of an entry block. -/
theorem slice?_entryBlock_words (path : String) (entry : FileEntry) :
    (entryBlock path entry).slice? (2 + pathLen path) 8 = some (Bytes.le 8 entry.blobId) ∧
      (entryBlock path entry).slice? (2 + pathLen path + 8) 8 =
        some (Bytes.le 8 entry.size.toNat) ∧
      (entryBlock path entry).slice? (2 + pathLen path + 16) 8 =
        some (Bytes.le 8 entry.createdTick.toNat) ∧
      (entryBlock path entry).slice? (2 + pathLen path + 24) 8 =
        some (Bytes.le 8 entry.modifiedTick.toNat) := by
  have hlen : pathLen path ≤ 255 := pathLen_le path
  have hword : ∀ n, (Bytes.le 8 n).length = 8 := Bytes.length_le 8
  iterate 4 rw [Block.slice?_of_le (by omega)]
  simp only [entryBlock, Option.some.injEq]
  refine ⟨?_, ?_, ?_, Block.slice_copyFromSlice_self (hword _).symm⟩
  · iterate 3 rw [Block.slice_copyFromSlice_of_disjoint (.inl (by omega))]
    exact Block.slice_copyFromSlice_self (hword _).symm
  · iterate 2 rw [Block.slice_copyFromSlice_of_disjoint (.inl (by omega))]
    exact Block.slice_copyFromSlice_self (hword _).symm
  · rw [Block.slice_copyFromSlice_of_disjoint (.inl (by omega))]
    exact Block.slice_copyFromSlice_self (hword _).symm

/-- An entry is decoded to its stored form. -/
theorem decodeEntry_entryBlock (path : String) {entry : FileEntry}
    (hid : entry.blobId < 256 ^ 8) :
    decodeEntry (entryBlock path entry) = some (storedEntry path entry) := by
  have hpathLen : Bytes.ofLE ((entryBlock path entry).slice 0 2 (by decide)) = pathLen path := by
    rw [slice_entryBlock_len]
    exact Bytes.ofLE_le_of_lt (Nat.lt_of_le_of_lt (pathLen_le path) (by decide))
  obtain ⟨hblob, hsize, hcreated, hmodified⟩ := slice?_entryBlock_words path entry
  simp only [decodeEntry, hpathLen, slice?_entryBlock_path, hblob, hsize, hcreated, hmodified,
    Option.bind_eq_bind, Option.bind_some, toUInt64_ofLE_le, Bytes.ofLE_le_of_lt hid]
  rfl

theorem reads_loadEntry (hio : ReliableIo io capacity ready sector) (path : String)
    {entry : FileEntry} (hid : entry.blobId < 256 ^ 8) (fs : OxideFs) :
    Reads capacity ready sector (loadEntry io fs) [entryBlock path entry]
      (fs.restoreEntry (storedEntry path entry)) := by
  refine (Reads.next hio (entryBlock path entry)).bind ?_
  rw [decodeEntry_entryBlock path hid]
  exact Reads.pure _

theorem reads_loadEntries (hio : ReliableIo io capacity ready sector)
    {entries : List (String × FileEntry)} (hentries : ∀ p ∈ entries, p.2.blobId < 256 ^ 8) :
    ∀ fs : OxideFs, Reads capacity ready sector (loadEntries io entries.length fs)
      (entries.map fun p => entryBlock p.1 p.2)
      (entries.foldl (fun fs p => fs.restoreEntry (storedEntry p.1 p.2)) fs) := by
  induction entries with
  | nil => exact fun fs => Reads.pure fs
  | cons p entries ih =>
    intro fs
    exact (reads_loadEntry hio p.1 (hentries p List.mem_cons_self) fs).bind
      (ih (fun q hq => hentries q (List.mem_cons_of_mem p hq)) _)

/-- The entries in the order of the index, without the deleted ones. -/
theorem emits_syncEntries (fs : OxideFs) :
    Emits io (fs.index.toList.forM fun p => syncEntry io p.1 p.2)
      (fs.liveEntries.map fun p => entryBlock p.1 p.2) := by
  have hflat : fs.liveEntries.map (fun p => entryBlock p.1 p.2) =
      fs.index.toList.flatMap fun p => if p.2.deleted then [] else [entryBlock p.1 p.2] := by
    rw [liveEntries]
    generalize fs.index.toList = l
    induction l with
    | nil => rfl
    | cons p l ih => cases hp : p.2.deleted <;> simp [hp, ih]
  rw [hflat]
  refine Emits.forM fun p _ => ?_
  rw [syncEntry]
  split
  · exact Emits.pure
  · exact Emits.next _

/-! ## The disk image -/

/-- The blocks of the blobs. -/
def blobSection (fs : OxideFs) : List Block :=
  fs.blobs.toList.flatMap fun p => blobBlocks p.1 p.2

/-- The disk image: the superblock, the blobs, and the live entries. -/
def blocks (fs : OxideFs) : List Block :=
  fs.superblock :: (fs.blobSection ++ fs.liveEntries.map fun p => entryBlock p.1 p.2)

theorem emits_syncBlocks (fs : OxideFs) : Emits io (syncBlocks io fs) fs.blocks :=
  (Emits.next fs.superblock).bind
    ((Emits.forM fun p _ => emits_syncBlob p.1 p.2).bind (emits_syncEntries fs))

/-- After a sync the disk holds the image of the file system. -/
theorem syncToDisk_spec (hio : ReliableIo io capacity ready sector) {fs : OxideFs}
    {s : Storage H} (hs : s.Sound capacity ready sector) (hroom : fs.blocks.length ≤ capacity) :
    (fs.syncToDisk io s).device.Up capacity ready ∧
      Stored (sector (fs.syncToDisk io s).device.queue) 0 fs.blocks := by
  obtain ⟨s₁, hrun, hs₁, hview⟩ := (emits_syncBlocks fs).writes hio s 0 hs (by omega)
  obtain ⟨s₂, hflush, hs₂, -, hsector⟩ := hs₁.flush_spec hio
  have hsync : fs.syncToDisk io s = s₂ := by
    rw [syncToDisk, StateT.run, hrun]
    show (s₁.flush io).2 = s₂
    rw [hflush]
  rw [hsync]
  refine ⟨hs₂.up, ?_⟩
  rw [hsector, hview]
  exact stored_overlay

/-! ## Loading the image -/

/-- The counts and lengths of the blob section fit their `u32` fields. -/
structure BlobsFit (fs : OxideFs) : Prop where
  count : fs.blobs.size < 2 ^ 32
  length : ∀ (id : BlobId) (data : List UInt8), fs.blobs[id]? = some data → data.length < 2 ^ 32

theorem blobsFit_of_toList {fs : OxideFs} (hcount : fs.blobs.size < 2 ^ 32)
    (hlength : ∀ p ∈ fs.blobs.toList, p.2.length < 2 ^ 32) : fs.BlobsFit :=
  ⟨hcount, fun id data h =>
    hlength (id, data) (Std.ExtTreeMap.mem_toList_iff_getElem?_eq_some.mpr h)⟩

/-- The entries that loading reads: as many as the `u32` count of the superblock says. -/
def loadedEntries (fs : OxideFs) : List (String × FileEntry) :=
  fs.liveEntries.take (fs.liveEntries.length % 2 ^ 32)

/-- The file system with these entries, as their blocks store them. -/
def withEntries (fs : OxideFs) (entries : List (String × FileEntry)) : OxideFs :=
  { fs with
    index := entries.foldl
      (fun index p => index.insert (storedPath p.1) (storedEntry p.1 p.2)) ∅ }

/-- The file system that loading the image of `fs` gives. -/
def restored (fs : OxideFs) : OxideFs := fs.withEntries fs.loadedEntries

variable {fs : OxideFs}

theorem foldl_restoreBlob (l : List (BlobId × List UInt8)) (fs₀ : OxideFs) :
    l.foldl (fun fs p => fs.restoreBlob p.1 p.2) fs₀ =
      { fs₀ with
        blobs := l.foldl (fun m p => m.insert p.1 p.2) fs₀.blobs
        contentHashes :=
          l.foldl (fun m p => m.insert (contentHash p.2) p.1) fs₀.contentHashes } := by
  induction l generalizing fs₀ with
  | nil => rfl
  | cons p l ih =>
    rw [List.foldl_cons, ih]
    rfl

theorem foldl_restoreEntry (l : List (String × FileEntry)) (fs₀ : OxideFs) :
    l.foldl (fun fs p => fs.restoreEntry (storedEntry p.1 p.2)) fs₀ =
      { fs₀ with
        index :=
          l.foldl (fun m p => m.insert (storedPath p.1) (storedEntry p.1 p.2)) fs₀.index } := by
  induction l generalizing fs₀ with
  | nil => rfl
  | cons p l ih =>
    rw [List.foldl_cons, ih]
    rfl

theorem WellFormed.nextBlobId_lt (hfs : fs.WellFormed) (hfit : fs.BlobsFit) :
    fs.nextBlobId < 256 ^ 8 := by
  have hle : fs.blobs.size + 1 ≤ 2 ^ 32 := hfit.count
  rw [hfs.nextBlobId]
  exact Nat.lt_of_le_of_lt hle (by decide)

theorem mem_toList_blobs {p : BlobId × List UInt8} (hfs : fs.WellFormed) (hfit : fs.BlobsFit)
    (hp : p ∈ fs.blobs.toList) : p.1 < 256 ^ 8 ∧ p.2.length < 256 ^ 4 := by
  have hblob : fs.blobs[p.1]? = some p.2 := Std.ExtTreeMap.mem_toList_iff_getElem?_eq_some.mp hp
  have hid := ((hfs.mem_blobs p.1).mp (mem_blobs_iff.mpr ⟨p.2, hblob⟩)).2
  refine ⟨Nat.lt_trans hid (hfs.nextBlobId_lt hfit), ?_⟩
  exact Nat.lt_of_lt_of_eq (hfit.length p.1 p.2 hblob) (by decide)

/-- Fewer than `2 ^ 32` blobs of fewer than `2 ^ 32` bytes have fewer than `2 ^ 64` bytes. -/
theorem WellFormed.totalBytes_lt (hfs : fs.WellFormed) (hfit : fs.BlobsFit) :
    fs.totalBytes < 256 ^ 8 := by
  have hsum : (fs.blobs.toList.map fun p => p.2.length).sum ≤ fs.blobs.size * 2 ^ 32 := by
    have hle := List.sum_le_card_nsmul (fs.blobs.toList.map fun p => p.2.length) (2 ^ 32) (by
      intro n hn
      obtain ⟨p, hp, rfl⟩ := List.mem_map.mp hn
      have hblob : fs.blobs[p.1]? = some p.2 :=
        Std.ExtTreeMap.mem_toList_iff_getElem?_eq_some.mp hp
      exact (hfit.length p.1 p.2 hblob).le)
    rwa [List.length_map, Std.ExtTreeMap.length_toList, smul_eq_mul] at hle
  have hcount := hfit.count
  rw [hfs.totalBytes]
  calc _ ≤ fs.blobs.size * 2 ^ 32 := hsum
    _ < 2 ^ 32 * 2 ^ 32 := Nat.mul_lt_mul_of_pos_right hcount (by decide)
    _ = 256 ^ 8 := by decide

theorem WellFormed.blobId_lt (hfs : fs.WellFormed) (hfit : fs.BlobsFit) {p : String × FileEntry}
    (hp : p ∈ fs.liveEntries) : p.2.blobId < 256 ^ 8 := by
  obtain ⟨-, hid⟩ := hfs.entry p.1 p.2 (mem_liveEntries.mp hp).1
  obtain ⟨data, hdata⟩ := mem_blobs_iff.mp hid
  exact (mem_toList_blobs (p := (p.2.blobId, data)) hfs hfit
    (Std.ExtTreeMap.mem_toList_iff_getElem?_eq_some.mpr hdata)).1

/-- The fields of the superblock. -/
theorem slice_superblock (fs : OxideFs) :
    fs.superblock.slice 0 8 (by decide) = magic ∧
      fs.superblock.slice 12 4 (by decide) = Bytes.le 4 fs.blobs.size ∧
      fs.superblock.slice 16 4 (by decide) = Bytes.le 4 fs.liveEntries.length ∧
      fs.superblock.slice 20 8 (by decide) = Bytes.le 8 fs.nextBlobId ∧
      fs.superblock.slice 28 8 (by decide) = Bytes.le 8 fs.totalBytes := by
  simp only [superblock]
  refine ⟨?_, ?_, ?_, ?_, Block.slice_copyFromSlice_self (Bytes.length_le 8 _).symm⟩
  · iterate 5 rw [Block.slice_copyFromSlice_of_disjoint (.inl (by decide))]
    exact Block.slice_copyFromSlice_self rfl
  · iterate 3 rw [Block.slice_copyFromSlice_of_disjoint (.inl (by decide))]
    exact Block.slice_copyFromSlice_self (Bytes.length_le 4 _).symm
  · iterate 2 rw [Block.slice_copyFromSlice_of_disjoint (.inl (by decide))]
    exact Block.slice_copyFromSlice_self (Bytes.length_le 4 _).symm
  · rw [Block.slice_copyFromSlice_of_disjoint (.inl (by decide))]
    exact Block.slice_copyFromSlice_self (Bytes.length_le 8 _).symm

/-- A whole image is read back. -/
theorem reads_loadBlocks (hio : ReliableIo io capacity ready sector) (hfs : fs.WellFormed)
    (hfit : fs.BlobsFit) {entries : List (String × FileEntry)}
    (hentries : ∀ p ∈ entries, p.2.blobId < 256 ^ 8) :
    Reads capacity ready sector
      (loadBlocks io fs.blobs.size entries.length
        { new with nextBlobId := fs.nextBlobId, totalBytes := fs.totalBytes })
      (fs.blobSection ++ entries.map fun p => entryBlock p.1 p.2) (fs.withEntries entries) := by
  have hblobs := reads_loadBlobs hio (fun p hp => mem_toList_blobs hfs hfit hp)
    { new with nextBlobId := fs.nextBlobId, totalBytes := fs.totalBytes }
  have hload := reads_loadEntries hio hentries { fs with index := ∅ }
  have hrestored : fs.blobs.toList.foldl (fun fs p => fs.restoreBlob p.1 p.2)
      { new with nextBlobId := fs.nextBlobId, totalBytes := fs.totalBytes } =
      { fs with index := ∅ } := by
    rw [foldl_restoreBlob, hfs.contentHashes, hashesOf]
    simp only [new, Std.ExtTreeMap.foldl_insert_toList]
  rw [hrestored, Std.ExtTreeMap.length_toList] at hblobs
  rw [foldl_restoreEntry] at hload
  exact hblobs.bind hload

/-- Where block 0 is the superblock of a file system, loading reads as many blobs and entries as it
counts. -/
theorem loadFromDisk_superblock (hio : ReliableIo io capacity ready sector) (hfs : fs.WellFormed)
    (hfit : fs.BlobsFit) {s : Storage H} (hs : s.Sound capacity ready sector)
    (hcapacity : 0 < capacity) (hsb : s.view sector 0 = fs.superblock) :
    ∃ s₁, s₁.Sound capacity ready sector ∧ s₁.view sector = s.view sector ∧
      loadFromDisk io new s =
        (loadBlocks io fs.blobs.size (fs.liveEntries.length % 2 ^ 32)
          { new with nextBlobId := fs.nextBlobId, totalBytes := fs.totalBytes } ⟨s₁, 1⟩).map
            fun r => (true, r.1, r.2.storage) := by
  obtain ⟨hmagic, hcount, hindex, hnext, htotal⟩ := slice_superblock fs
  obtain ⟨s₁, hread, hs₁, hview⟩ := hs.read_spec hio hcapacity
  have hblobCount : Bytes.ofLE (Bytes.le 4 fs.blobs.size) = fs.blobs.size :=
    Bytes.ofLE_le_of_lt (Nat.lt_of_lt_of_eq hfit.count (by decide))
  have hindexCount : Bytes.ofLE (Bytes.le 4 fs.liveEntries.length) =
      fs.liveEntries.length % 2 ^ 32 := Bytes.ofLE_le 4 _
  refine ⟨s₁, hs₁, hview, ?_⟩
  simp only [loadFromDisk, hread, hsb, hmagic, hcount, hindex, hnext, htotal, if_true,
    Bytes.ofLE_le_of_lt (hfs.nextBlobId_lt hfit), Bytes.ofLE_le_of_lt (hfs.totalBytes_lt hfit),
    hblobCount, hindexCount, StateT.run, Option.bind_eq_bind]
  exact Option.map_eq_bind.symm

/-- Loading reads the entries that stand behind the blobs, as many as the superblock counts. -/
theorem loadFromDisk_entries (hio : ReliableIo io capacity ready sector) (hfs : fs.WellFormed)
    (hfit : fs.BlobsFit) {s : Storage H} (hs : s.Sound capacity ready sector)
    {entries : List (String × FileEntry)} (hentries : ∀ p ∈ entries, p.2.blobId < 256 ^ 8)
    (hlength : entries.length = fs.liveEntries.length % 2 ^ 32)
    (hroom : 1 + fs.blobSection.length + entries.length ≤ capacity)
    (hstored : Stored (s.view sector) 0
      (fs.superblock :: (fs.blobSection ++ entries.map fun p => entryBlock p.1 p.2))) :
    ∃ s', loadFromDisk io new s = some (true, fs.withEntries entries, s') := by
  obtain ⟨hsb, hrest⟩ := hstored
  obtain ⟨s₁, hs₁, hview, hload⟩ :=
    loadFromDisk_superblock hio hfs hfit hs (by omega : 0 < capacity) hsb
  have hread := reads_loadBlocks hio hfs hfit hentries s₁ 1 hs₁
  rw [List.length_append, List.length_map, ← Nat.add_assoc, hview] at hread
  obtain ⟨s₂, hread, -⟩ := hread hroom hrest
  refine ⟨s₂, ?_⟩
  rw [hload, ← hlength, hread]
  rfl

/-- **Loading the image of a file system restores it**, up to what the entry blocks cut off. -/
theorem loadFromDisk_spec (hio : ReliableIo io capacity ready sector) (hfs : fs.WellFormed)
    (hfit : fs.BlobsFit) {s : Storage H} (hs : s.Sound capacity ready sector)
    (hroom : fs.blocks.length ≤ capacity) (hstored : Stored (s.view sector) 0 fs.blocks) :
    ∃ s', loadFromDisk io new s = some (true, fs.restored, s') := by
  have hsplit : fs.liveEntries = fs.loadedEntries ++
      fs.liveEntries.drop (fs.liveEntries.length % 2 ^ 32) := (List.take_append_drop _ _).symm
  have hlength : fs.loadedEntries.length = fs.liveEntries.length % 2 ^ 32 := by
    rw [loadedEntries, List.length_take]
    exact Nat.min_eq_left (Nat.mod_le _ _)
  have hblocks : fs.blocks = (fs.superblock :: (fs.blobSection ++
      fs.loadedEntries.map fun p => entryBlock p.1 p.2)) ++
      (fs.liveEntries.drop (fs.liveEntries.length % 2 ^ 32)).map fun p => entryBlock p.1 p.2 := by
    rw [List.cons_append, List.append_assoc, ← List.map_append, ← hsplit]
    rfl
  rw [hblocks, List.length_append, List.length_cons, List.length_append, List.length_map] at hroom
  rw [hblocks] at hstored
  exact loadFromDisk_entries hio hfs hfit hs
    (fun p hp => hfs.blobId_lt hfit (List.mem_of_mem_take hp)) hlength (by omega)
    (stored_append.mp hstored).1

end OxideFs

end OxideOS
