import OxideOS.Storage.RoundTrip
import OxideOS.Storage.WriteOrder

/-!
# Power loss during a sync

The disk on which the first file system was synced, with some of the writes of the sync of the
second one.  The superblock is written first and in place, so from the first write on loading reads
as many blobs and entries as the new file system has: the entries are new ones up to where the power
was lost, and old ones behind.  Where there is a new blob, the blobs run into the old entries, and
where there are more entries than before, into whatever was on the disk behind them.

## Main definitions

* `OxideFs.powerCut`: the storage after a restart
* `OxideFs.CrashSafe`: wherever the power is lost, every path reads as before or as after
* `OxideFs.KeepsPlaces`: no new blob, and no entry that stays moves back or beyond the new count

## Main results

* `OxideFs.crash_safety`: a sync is safe when it keeps the entries in their places
* `OxideFs.delete_loses_other`: deleting a file can lose another one
-/

namespace OxideOS

open Layout

namespace OxideFs

/-! ## Loading whatever is on the disk -/

section LoadAny

variable {H : Type} {io : BlockIo H} {capacity : Nat} {ready : H → Prop}
  {sector : H → Nat → Block} {s : Storage H} {fs : OxideFs} {f g : Nat → Block} {k n q : Nat}

/-- What reading a block gives: blocks out of range read as zeros. -/
def seen (capacity : Nat) (f : Nat → Block) (n : Nat) : Block :=
  if n < capacity then f n else Block.zero

/-- Over a disk that shows `f`, the program takes the cursor from `k` to `k'` without a panic, and
its result has the property. -/
def Passes (capacity : Nat) (ready : H → Prop) (sector : H → Nat → Block) {α : Type} (p : Load H α)
    (f : Nat → Block) (k k' : Nat) (post : α → Prop) : Prop :=
  ∀ s : Storage H, s.Sound capacity ready sector → s.view sector = f →
    ∃ a s', p ⟨s, k⟩ = some (a, ⟨s', k'⟩) ∧ post a ∧ s'.Sound capacity ready sector ∧
      s'.view sector = f

namespace Passes

variable {α β : Type} {p : Load H α} {r : α → Load H β} {k₁ k₂ : Nat} {post : α → Prop}
  {post' : β → Prop} {a : α}

theorem pure (h : post a) : Passes capacity ready sector (pure a) f k k post :=
  fun s hs hf => ⟨a, s, rfl, h, hs, hf⟩

theorem bind (hp : Passes capacity ready sector p f k k₁ post)
    (hr : ∀ a, post a → Passes capacity ready sector (r a) f k₁ k₂ post') :
    Passes capacity ready sector (p >>= r) f k k₂ post' := by
  intro s hs hf
  obtain ⟨a, s₁, hrun₁, ha, hs₁, hf₁⟩ := hp s hs hf
  obtain ⟨b, s₂, hrun₂, hb, hs₂, hf₂⟩ := hr a ha s₁ hs₁ hf₁
  refine ⟨b, s₂, ?_, hb, hs₂, hf₂⟩
  show (p ⟨s, k⟩).bind (fun x => r x.1 x.2) = _
  rw [hrun₁]
  exact hrun₂

theorem next (hio : ReliableIo io capacity ready sector) :
    Passes capacity ready sector (readNext io) f k (k + 1) (· = seen capacity f k) := by
  intro s hs hf
  subst hf
  by_cases hk : k < capacity
  · obtain ⟨s', hread, hs', hview⟩ := hs.read_spec hio hk
    exact ⟨_, s', by rw [readNext, hread], (if_pos hk).symm, hs', hview⟩
  · have hlookup : s.tick.lookup k = none := by
      refine Option.eq_none_iff_forall_ne_some.mpr fun b hb => hk ?_
      exact hs.inRange k (Storage.mem_cache_iff.mpr ⟨b, hb⟩)
    have hdevice : s.tick.device.readBlock io k = (.error "block out of range", s.device) := by
      rw [VirtioBlkDevice.readBlock, if_neg (by simp [Storage.tick, hs.up.initialized]), if_pos]
      · rfl
      · exact hs.up.capacityBlocks ▸ Nat.not_lt.mp hk
    refine ⟨Block.zero, s.tick, ?_, (if_neg hk).symm, hs.tick, rfl⟩
    simp only [readNext, Storage.read, hlookup, hdevice]
    rfl

end Passes

theorem passes_loadCont (hio : ReliableIo io capacity ready sector) (remaining : Nat)
    (data : List UInt8) (k : Nat) :
    Passes capacity ready sector (loadCont io remaining data) f k (k + (remaining + 511) / 512)
      fun _ => True := by
  induction remaining using Nat.strong_induction_on generalizing data k with
  | _ remaining ih =>
    rw [loadCont]
    split
    · next hpos =>
      have hless : remaining - contChunk remaining < remaining := by
        rw [contChunk]
        omega
      have hcursor : k + 1 + (remaining - contChunk remaining + 511) / 512 =
          k + (remaining + 511) / 512 := by
        rw [contChunk]
        omega
      rw [← hcursor]
      exact (Passes.next hio).bind fun cont _ => ih _ hless _ (k + 1)
    · next hzero =>
      obtain rfl : remaining = 0 := Nat.eq_zero_of_not_pos hzero
      exact Passes.pure trivial

/-- The header of a blob has its size in these four bytes. -/
theorem sizeField_inside : 8 + 4 ≤ 512 := by decide

/-- The cursor after the blob whose header is in block `k`. -/
def blobEnd (f : Nat → Block) (k : Nat) : Nat :=
  let size := Bytes.ofLE ((f k).slice 8 4 sizeField_inside)
  k + 1 + (size - firstChunk size + 511) / 512

/-- The cursor after that many blobs. -/
def blobsEnd (f : Nat → Block) : Nat → Nat → Nat
  | k, 0 => k
  | k, count + 1 => blobsEnd f (blobEnd f k) count

theorem lt_blobEnd (f : Nat → Block) (k : Nat) : k < blobEnd f k := by
  rw [blobEnd]
  omega

theorem le_blobsEnd (f : Nat → Block) (k count : Nat) : k + count ≤ blobsEnd f k count := by
  induction count generalizing k with
  | zero => exact Nat.le_refl k
  | succ count ih =>
    have hlt := lt_blobEnd f k
    have hle := ih (blobEnd f k)
    rw [blobsEnd]
    omega

theorem blobsEnd_add (f : Nat → Block) (k m n : Nat) :
    blobsEnd f k (m + n) = blobsEnd f (blobsEnd f k m) n := by
  induction m generalizing k with
  | zero => rw [Nat.zero_add, blobsEnd]
  | succ m ih => rw [Nat.add_right_comm, blobsEnd, blobsEnd, ih]

/-- The blobs end where their headers say, so what comes behind does not matter. -/
theorem blobsEnd_congr {count : Nat} (h : ∀ n < blobsEnd f k count, g n = f n) :
    blobsEnd g k count = blobsEnd f k count := by
  induction count generalizing k with
  | zero => rfl
  | succ count ih =>
    have hk : k < blobsEnd f k (count + 1) := by
      have hle := le_blobsEnd f k (count + 1)
      omega
    have hend : blobEnd g k = blobEnd f k := by rw [blobEnd, blobEnd, h k hk]
    rw [blobsEnd, blobsEnd, hend]
    exact ih h

/-- Where blobs are stored, they end behind their blocks. -/
theorem blobsEnd_of_stored {blobs : List (BlobId × List UInt8)}
    (hblobs : ∀ p ∈ blobs, p.2.length < 256 ^ 4)
    (h : Stored f k (blobs.flatMap fun p => blobBlocks p.1 p.2)) :
    blobsEnd f k blobs.length = k + (blobs.flatMap fun p => blobBlocks p.1 p.2).length := by
  induction blobs generalizing k with
  | nil => rfl
  | cons p blobs ih =>
    rw [List.flatMap_cons, stored_append] at h
    have hend : blobEnd f k = k + (blobBlocks p.1 p.2).length := by
      rw [blobEnd, h.1.1, slice_blobHeader_size,
        Bytes.ofLE_le_of_lt (hblobs p List.mem_cons_self), length_blobBlocks, firstChunk]
      omega
    rw [List.length_cons, blobsEnd, hend, List.flatMap_cons, List.length_append, ← Nat.add_assoc]
    exact ih (fun q hq => hblobs q (List.mem_cons_of_mem p hq)) h.2

/-- Loading a blob passes over its blocks and leaves the index. -/
theorem passes_loadBlob (hio : ReliableIo io capacity ready sector) (fs : OxideFs) (k : Nat) :
    Passes capacity ready sector (loadBlob io fs) f k (blobEnd (seen capacity f) k)
      (·.index = fs.index) := by
  refine (Passes.next hio).bind ?_
  rintro block rfl
  exact (passes_loadCont hio _ _ _).bind fun data _ => Passes.pure rfl

/-- Reading blobs never panics, and leaves the index as it is. -/
theorem passes_loadBlobs (hio : ReliableIo io capacity ready sector) (count : Nat) (fs : OxideFs)
    (k : Nat) : Passes capacity ready sector (loadBlobs io count fs) f k
      (blobsEnd (seen capacity f) k count) (·.index = fs.index) := by
  induction count generalizing fs k with
  | zero => exact Passes.pure rfl
  | succ count ih =>
    refine (passes_loadBlob hio fs k).bind fun fs₁ hindex => ?_
    rw [← hindex]
    exact ih fs₁ _

/-- No entry is read from a block of such bytes. -/
theorem decodeEntry_filled : decodeEntry (Block.filled 0xff) = none := by
  decide

/-- One such block among the entries makes loading panic. -/
theorem loadEntries_eq_none (hio : ReliableIo io capacity ready sector) {count : Nat}
    (hs : s.Sound capacity ready sector) (hk : k ≤ q) (hq : q < k + count)
    (hcapacity : q < capacity) (hblock : s.view sector q = Block.filled 0xff) :
    loadEntries io count fs ⟨s, k⟩ = none := by
  induction count generalizing fs s k with
  | zero => omega
  | succ count ih =>
    obtain ⟨block, s₁, hread, rfl, hs₁, hview⟩ :=
      Passes.next (f := s.view sector) (k := k) hio s hs rfl
    have hentry : loadEntry io fs ⟨s, k⟩ = (decodeEntry (seen capacity (s.view sector) k)).map
        fun entry => (fs.restoreEntry entry, ⟨s₁, k + 1⟩) := by
      show (readNext io ⟨s, k⟩).bind _ = _
      rw [hread, Option.bind_some]
      dsimp only
      cases decodeEntry (seen capacity (s.view sector) k) <;> rfl
    show (loadEntry io fs ⟨s, k⟩).bind (fun x => loadEntries io count x.1 x.2) = none
    rw [hentry]
    rcases Nat.eq_or_lt_of_le hk with rfl | hlt
    · rw [seen, if_pos hcapacity, hblock, decodeEntry_filled]
      rfl
    · cases decodeEntry (seen capacity (s.view sector) k) with
      | none => rfl
      | some entry => exact ih hs₁ hlt (by omega) (by rw [hview, hblock])

end LoadAny

variable {capacity : Nat} {s : Storage DiskLog} {fs fs' : OxideFs} {path : String} {i j k : Nat}

/-! ## What is left on the disk -/

/-- The storage after a restart, when the power was lost after `j` of the writes of the sync. -/
def powerCut (fs' : OxideFs) (s : Storage DiskLog) (j : Nat) : Storage DiskLog :=
  let device := (fs'.syncToDisk logDisk s).device
  let written := device.queue.writes.take (s.device.queue.writes.length + j)
  .fresh { device with queue := { device.queue with writes := written } }

/-- Loading then gives a file system in which every path reads as before or as after. -/
def Consistent (fs fs' : OxideFs) (s : Storage DiskLog) (j : Nat) : Prop :=
  ∃ r s', loadFromDisk logDisk new (fs'.powerCut s j) = some (true, r, s') ∧
    ∀ path, r.readFile path = fs.readFile path ∨ r.readFile path = fs'.readFile path

theorem Consistent.readFile_of_load (h : Consistent fs fs' s j) {r : OxideFs}
    {s' : Storage DiskLog}
    (hload : loadFromDisk logDisk new (fs'.powerCut s j) = some (true, r, s')) (path : String) :
    r.readFile path = fs.readFile path ∨ r.readFile path = fs'.readFile path := by
  obtain ⟨r', s'', hload', hread⟩ := h
  rw [hload] at hload'
  obtain ⟨rfl, -⟩ : r = r' ∧ s' = s'' := by simpa using hload'
  exact hread path

/-- On every disk with room for both, on which the first file system was synced, and wherever the
power is lost. -/
def CrashSafe (fs fs' : OxideFs) : Prop :=
  ∀ capacity s, fs.blockCount ≤ capacity → fs'.blockCount ≤ capacity → Synced capacity fs s →
    ∀ j, Consistent fs fs' s j

/-- The disk after a restart shows the first blocks of the new image, written over what it held. -/
theorem powerCut_spec (hs : Synced capacity fs s) (hroom : fs'.blocks.length ≤ capacity) (j : Nat) :
    (fs'.powerCut s j).LogSound capacity ∧ (fs'.powerCut s j).view DiskLog.sectors =
      overlay s.device.queue.sectors 0 (fs'.blocks.take j) := by
  obtain ⟨hup, -⟩ := syncToDisk_spec (logDisk_reliable capacity) hs.sound hroom
  refine ⟨Storage.sound_fresh ⟨hup.initialized, hup.capacityBlocks, trivial⟩, ?_⟩
  have hqueue := writes_syncToDisk hs hroom
  rw [powerCut, Storage.view_fresh]
  dsimp only
  rw [hqueue, DiskLog.append, List.take_length_add_append, take_cells]
  exact (s.device.queue.sectors_append _).trans foldl_cells

/-! ## Files and their places -/

/-- The paths of the files that are not deleted, in the order of their entries. -/
def livePaths (fs : OxideFs) : List String := fs.liveEntries.map Prod.fst

/-- The place of a path among the entries. -/
def place (fs : OxideFs) (path : String) : Nat := fs.livePaths.idxOf path

theorem mem_livePaths : path ∈ fs.livePaths ↔ ∃ e, (path, e) ∈ fs.liveEntries := by
  rw [livePaths, List.mem_map]
  constructor
  · rintro ⟨p, hp, rfl⟩
    exact ⟨p.2, hp⟩
  · rintro ⟨e, he⟩
    exact ⟨_, he, rfl⟩

/-- A live path reads the blob of its entry. -/
theorem readFile_of_mem {p : String × FileEntry} (hp : p ∈ fs.liveEntries) :
    fs.readFile p.1 = fs.blobs[p.2.blobId]? := by
  obtain ⟨hentry, hdeleted⟩ := mem_liveEntries.mp hp
  simp [readFile, hentry, hdeleted]

theorem readFile_of_notMem (h : path ∉ fs.livePaths) : fs.readFile path = none := by
  cases hentry : fs.index[path]? with
  | none => simp [readFile, hentry]
  | some e =>
    cases hdeleted : e.deleted with
    | true => simp [readFile, hentry, hdeleted]
    | false => exact absurd (mem_livePaths.mpr ⟨e, mem_liveEntries.mpr ⟨hentry, hdeleted⟩⟩) h

/-- A file that is not deleted can be read. -/
theorem WellFormed.readFile_ne_none (hfs : fs.WellFormed) (h : path ∈ fs.livePaths) :
    fs.readFile path ≠ none := by
  obtain ⟨e, he⟩ := mem_livePaths.mp h
  obtain ⟨data, hdata⟩ := mem_blobs_iff.mp (hfs.entry path e (mem_liveEntries.mp he).1).2
  rw [readFile_of_mem he, hdata]
  exact Option.some_ne_none data

/-! ## The blobs only grow -/

theorem WellFormed.foldl_step (hfs : fs.WellFormed) (ops : List FsOp) :
    (ops.foldl step fs).WellFormed ∧
      ∃ extra, (ops.foldl step fs).blobs.toList = fs.blobs.toList ++ extra := by
  induction ops generalizing fs with
  | nil => exact ⟨hfs, [], (List.append_nil _).symm⟩
  | cons op ops ih =>
    have hstep : (fs.step op).WellFormed ∧
        ∃ extra, (fs.step op).blobs.toList = fs.blobs.toList ++ extra := by
      cases op with
      | writeFile path data tick =>
        refine ⟨hfs.writeFile, ?_⟩
        rw [step, OxideFs.writeFile]
        split
        · exact ⟨[], (List.append_nil _).symm⟩
        · exact ⟨_, hfs.toList_insertBlob⟩
      | deleteFile path =>
        refine ⟨hfs.deleteFile, [], ?_⟩
        rw [step, OxideFs.deleteFile]
        split <;> exact (List.append_nil _).symm
    obtain ⟨hwf, extra, hextra⟩ := hstep
    obtain ⟨hwf', extra', hextra'⟩ := ih hwf
    rw [List.foldl_cons]
    exact ⟨hwf', extra ++ extra', by rw [hextra', hextra, List.append_assoc]⟩

/-- The file system and one that calls have made of it. -/
structure Later (fs fs' : OxideFs) : Prop where
  wellFormed : fs.WellFormed
  wellFormed' : fs'.WellFormed
  blobs : ∃ extra, fs'.blobs.toList = fs.blobs.toList ++ extra

theorem later_of_reachable (hfs : system.Reachable fs) (ops : List FsOp)
    (h : ops.foldl step fs = fs') : Later fs fs' := by
  have hwf : fs.WellFormed := wellFormed_of_reachable hfs
  obtain ⟨hwf', hextra⟩ := hwf.foldl_step ops
  rw [h] at hwf' hextra
  exact ⟨hwf, hwf', hextra⟩

theorem Later.size_eq (h : Later fs fs') : ∃ extra,
    fs'.blobs.toList = fs.blobs.toList ++ extra ∧
      fs'.blobs.size = fs.blobs.size + extra.length := by
  obtain ⟨extra, hextra⟩ := h.blobs
  refine ⟨extra, hextra, ?_⟩
  rw [← Std.ExtTreeMap.length_toList, hextra, List.length_append, Std.ExtTreeMap.length_toList]

theorem Later.size_le (h : Later fs fs') : fs.blobs.size ≤ fs'.blobs.size := by
  obtain ⟨extra, -, hsize⟩ := h.size_eq
  omega

theorem Later.blobsFit (h : Later fs fs') (hfit : fs'.BlobsFit) : fs.BlobsFit := by
  obtain ⟨extra, hextra⟩ := h.blobs
  refine blobsFit_of_toList (h.size_le.trans_lt hfit.count) fun p hp => hfit.length p.1 p.2 ?_
  exact Std.ExtTreeMap.mem_toList_iff_getElem?_eq_some.mp
    (hextra ▸ List.mem_append_left extra hp)

/-- Where there are not more blobs, they are the same. -/
theorem Later.blobs_eq (h : Later fs fs') (hsize : fs'.blobs.size = fs.blobs.size) :
    fs'.blobs = fs.blobs := by
  obtain ⟨extra, hextra, hlength⟩ := h.size_eq
  obtain rfl : extra = [] := List.eq_nil_of_length_eq_zero (by omega)
  rw [List.append_nil] at hextra
  rw [← Std.ExtTreeMap.foldl_insert_toList (t := fs'.blobs), hextra,
    Std.ExtTreeMap.foldl_insert_toList]

/-! ## Loading without a new blob -/

/-- The entries that are read when `k` of the new ones have been written: new ones before old ones,
as many as the new superblock counts. -/
def mixed (fs fs' : OxideFs) (k : Nat) : List (String × FileEntry) :=
  (fs'.liveEntries.take k ++ fs.liveEntries.drop k).take fs'.liveEntries.length

theorem mem_mixed {p : String × FileEntry} (hp : p ∈ mixed fs fs' k) :
    p ∈ fs'.liveEntries.take k ∨ p ∈ fs.liveEntries.drop k :=
  List.mem_append.mp (List.mem_of_mem_take hp)

theorem length_mixed (hcount : fs'.liveEntries.length ≤ fs.liveEntries.length) :
    (mixed fs fs' k).length = fs'.liveEntries.length := by
  rw [mixed, List.length_take, List.length_append, List.length_take, List.length_drop]
  omega

/-- Two lists that begin alike, the second with the first `i` of the first written over it. -/
theorem take_append_drop_of_common {α : Type} (common as bs : List α) (i : Nat) :
    (common ++ as).take i ++ (common ++ bs).drop i =
      common ++ (as.take (i - common.length) ++ bs.drop (i - common.length)) := by
  rw [List.take_append, List.drop_append]
  rcases Nat.le_total i common.length with hle | hle
  · rw [Nat.sub_eq_zero_of_le hle, List.take_zero, List.append_nil, List.drop_zero,
      ← List.append_assoc, List.take_append_drop, List.nil_append]
  · rw [List.take_of_length_le hle, List.drop_of_length_le hle, List.nil_append, List.append_assoc]

/-- After the superblock, the disk holds the blobs and then the mixed entries. -/
theorem stored_powerCut (hblobs : fs'.blobs = fs.blobs) {f : Nat → Block}
    (hstored : Stored f 0 fs.blocks) (hi : i + 1 ≤ fs'.blocks.length) :
    Stored (overlay f 0 (fs'.blocks.take (i + 1))) 0 (fs'.superblock :: (fs'.blobSection ++
      (mixed fs fs' (i - fs'.blobSection.length)).map fun p => entryBlock p.1 p.2)) := by
  have hsection : fs'.blobSection = fs.blobSection := by rw [blobSection, hblobs, blobSection]
  have hblocks : fs'.blocks.take (i + 1) ++ fs.blocks.drop (i + 1) =
      fs'.superblock :: (fs'.blobSection ++
        (mixed fs fs' (i - fs'.blobSection.length)).map fun p => entryBlock p.1 p.2) ++
      ((fs'.liveEntries.take (i - fs'.blobSection.length) ++
        fs.liveEntries.drop (i - fs'.blobSection.length)).drop
          fs'.liveEntries.length).map fun p => entryBlock p.1 p.2 := by
    rw [List.cons_append, List.append_assoc, ← List.map_append, mixed, List.take_append_drop,
      List.map_append, List.map_take, List.map_drop, ← take_append_drop_of_common]
    rw [blocks, blocks, List.take_succ_cons, List.drop_succ_cons, List.cons_append]
    rw [hsection]
  have hoverlay := stored_overlay_take hstored hi
  rw [hblocks] at hoverlay
  exact (stored_append.mp hoverlay).1

/-- The load after a power cut finds the blobs and the mixed entries. -/
theorem load_powerCut (h : Later fs fs') (hblobs : fs'.blobs = fs.blobs) (hfit : fs'.BlobsFit)
    (hfit' : fs'.EntriesFit) (hcount : fs'.liveEntries.length ≤ fs.liveEntries.length)
    (hs : Synced capacity fs s) (hroom : fs'.blockCount ≤ capacity) (hi : i < fs'.blockCount) :
    ∃ s', loadFromDisk logDisk new (fs'.powerCut s (i + 1)) =
      some (true, fs'.withEntries (mixed fs fs' (i - fs'.blobSection.length)), s') := by
  rw [← length_blocks] at hroom hi
  obtain ⟨hsound, hview⟩ := powerCut_spec hs hroom (i + 1)
  refine loadFromDisk_entries (logDisk_reliable capacity) h.wellFormed' hfit hsound ?_ ?_ ?_ ?_
  · intro p hp
    rcases mem_mixed hp with hp | hp
    · exact h.wellFormed'.blobId_lt hfit (List.mem_of_mem_take hp)
    · exact h.wellFormed.blobId_lt (h.blobsFit hfit) (List.mem_of_mem_drop hp)
  · rw [length_mixed hcount, Nat.mod_eq_of_lt hfit'.count]
  · rw [blocks, List.length_cons, List.length_append, List.length_map] at hroom
    rw [length_mixed hcount]
    omega
  · rw [hview]
    exact stored_powerCut hblobs hs.stored hi

theorem blobs_withEntries (fs : OxideFs) (entries : List (String × FileEntry)) :
    (fs.withEntries entries).blobs = fs.blobs := rfl

theorem getElem?_withEntries {entries : List (String × FileEntry)} {e : FileEntry}
    (h : (fs.withEntries entries).index[path]? = some e) :
    ∃ p ∈ entries, storedPath p.1 = path ∧ storedEntry p.1 p.2 = e :=
  (Std.ExtTreeMap.getElem?_foldl_insert h).resolve_left (by simp)

theorem mem_withEntries {entries : List (String × FileEntry)} :
    path ∈ (fs.withEntries entries).index ↔ ∃ p ∈ entries, storedPath p.1 = path :=
  Std.ExtTreeMap.mem_foldl_insert.trans (or_iff_right Std.ExtTreeMap.not_mem_empty)

/-- A mixed entry is stored as it is, and names the content of its file before or after. -/
theorem of_mem_mixed (h : Later fs fs') (hblobs : fs'.blobs = fs.blobs) (hfit : fs.EntriesFit)
    (hfit' : fs'.EntriesFit) {p : String × FileEntry} (hp : p ∈ mixed fs fs' k) :
    (storedPath p.1 = p.1 ∧ storedEntry p.1 p.2 = p.2) ∧
      (fs'.blobs[p.2.blobId]? = fs.readFile p.1 ∨ fs'.blobs[p.2.blobId]? = fs'.readFile p.1) := by
  rcases mem_mixed hp with hp | hp
  · have hp := List.mem_of_mem_take hp
    exact ⟨h.wellFormed'.stored_eq hfit' hp, .inr (readFile_of_mem hp).symm⟩
  · have hp := List.mem_of_mem_drop hp
    refine ⟨h.wellFormed.stored_eq hfit hp, .inl ?_⟩
    rw [hblobs]
    exact (readFile_of_mem hp).symm

theorem mem_index_mixed (h : Later fs fs') (hblobs : fs'.blobs = fs.blobs) (hfit : fs.EntriesFit)
    (hfit' : fs'.EntriesFit) :
    path ∈ (fs'.withEntries (mixed fs fs' k)).index ↔ path ∈ (mixed fs fs' k).map Prod.fst := by
  rw [mem_withEntries, List.mem_map]
  refine exists_congr fun p => and_congr_right fun hp => ?_
  rw [(of_mem_mixed h hblobs hfit hfit' hp).1.1]

/-- A path among the mixed entries reads as before or as after. -/
theorem readFile_mixed (h : Later fs fs') (hblobs : fs'.blobs = fs.blobs) (hfit : fs.EntriesFit)
    (hfit' : fs'.EntriesFit) (hpath : path ∈ (mixed fs fs' k).map Prod.fst) :
    (fs'.withEntries (mixed fs fs' k)).readFile path = fs.readFile path ∨
      (fs'.withEntries (mixed fs fs' k)).readFile path = fs'.readFile path := by
  rw [← mem_index_mixed h hblobs hfit hfit', Std.ExtTreeMap.mem_iff_isSome_getElem?,
    Option.isSome_iff_exists] at hpath
  obtain ⟨e, he⟩ := hpath
  obtain ⟨p, hp, hpath, hentry⟩ := getElem?_withEntries he
  obtain ⟨⟨hpath', hentry'⟩, hread⟩ := of_mem_mixed h hblobs hfit hfit' hp
  have hdeleted : e.deleted = false := by rw [← hentry]; rfl
  obtain rfl : p.1 = path := hpath'.symm.trans hpath
  obtain rfl : p.2 = e := hentry'.symm.trans hentry
  have hreadFile : (fs'.withEntries (mixed fs fs' k)).readFile p.1 = fs'.blobs[p.2.blobId]? := by
    simp [readFile, he, hdeleted, blobs_withEntries]
  rwa [hreadFile]

/-- A path that is not among them reads as nothing. -/
theorem readFile_of_notMem_mixed (h : Later fs fs') (hblobs : fs'.blobs = fs.blobs)
    (hfit : fs.EntriesFit) (hfit' : fs'.EntriesFit)
    (hpath : path ∉ (mixed fs fs' k).map Prod.fst) :
    (fs'.withEntries (mixed fs fs' k)).readFile path = none := by
  rw [← mem_index_mixed h hblobs hfit hfit', Std.ExtTreeMap.mem_iff_isSome_getElem?,
    Option.not_isSome_iff_eq_none] at hpath
  simp [readFile, hpath]

/-! ## Keeping the entries in their places -/

/-- No blob and no entry is added, and an entry that stays is among the first ones before, as many
as there are after, and does not move back. -/
structure InPlace (fs fs' : OxideFs) : Prop where
  blobs : fs'.blobs.size = fs.blobs.size
  count : fs'.liveEntries.length ≤ fs.liveEntries.length
  place : ∀ path ∈ fs.livePaths, path ∈ fs'.livePaths →
    fs'.place path ≤ fs.place path ∧ fs.place path < fs'.liveEntries.length

/-- No file is left, or all entries that stay keep their places. -/
def KeepsPlaces (fs fs' : OxideFs) : Prop := fs'.liveEntries = [] ∨ InPlace fs fs'

theorem getElem?_place (h : path ∈ fs.livePaths) :
    fs.place path < fs.liveEntries.length ∧ fs.livePaths[fs.place path]? = some path := by
  have hlt : fs.place path < fs.livePaths.length := List.idxOf_lt_length_of_mem h
  refine ⟨by rwa [livePaths, List.length_map] at hlt, ?_⟩
  rw [List.getElem?_eq_getElem hlt]
  exact congrArg some (List.getElem_idxOf hlt)

theorem map_mixed : (mixed fs fs' k).map Prod.fst =
    (fs'.livePaths.take k ++ fs.livePaths.drop k).take fs'.liveEntries.length := by
  rw [mixed, List.map_take, List.map_append, List.map_take, List.map_drop]
  rfl

theorem InPlace.mem_mixed (h : InPlace fs fs') (hpath : path ∈ fs.livePaths)
    (hpath' : path ∈ fs'.livePaths) (k : Nat) : path ∈ (mixed fs fs' k).map Prod.fst := by
  obtain ⟨hle, hlt⟩ := h.place path hpath hpath'
  obtain ⟨hplace, hget⟩ := getElem?_place hpath
  obtain ⟨hplace', hget'⟩ := getElem?_place hpath'
  have hlength : fs'.livePaths.length = fs'.liveEntries.length := List.length_map _
  rw [map_mixed, List.mem_iff_getElem?]
  rcases Nat.lt_or_ge (fs'.place path) k with hk | hk
  · refine ⟨fs'.place path, ?_⟩
    rw [List.getElem?_take_of_lt hplace', List.getElem?_append_left,
      List.getElem?_take_of_lt hk, hget']
    rw [List.length_take]
    omega
  · refine ⟨fs.place path, ?_⟩
    have htake : (fs'.livePaths.take k).length = k := List.length_take_of_le (by omega)
    rw [List.getElem?_take_of_lt hlt, List.getElem?_append_right (by omega), htake,
      List.getElem?_drop, Nat.add_sub_cancel' (by omega), hget]

theorem place_lt_of_mem_take (h : path ∈ fs.livePaths.take k) : fs.place path < k := by
  have hplace : fs.place path = (fs.livePaths.take k).idxOf path := by
    rw [place]
    conv_lhs => rw [← List.take_append_drop k fs.livePaths]
    exact List.idxOf_append_of_mem h
  rw [hplace]
  exact (List.idxOf_lt_length_of_mem h).trans_le (List.length_take_le k _)

/-- A file that would be lost at some point keeps its entry in place. -/
theorem place_of_mem_mixed (hpath : path ∈ fs.livePaths) (hpath' : path ∈ fs'.livePaths)
    (h : ∀ k ≤ fs'.liveEntries.length, path ∈ (mixed fs fs' k).map Prod.fst) :
    fs'.place path ≤ fs.place path ∧ fs.place path < fs'.liveEntries.length := by
  obtain ⟨hplace', hget'⟩ := getElem?_place hpath'
  constructor
  · refine Nat.not_lt.mp fun hlt => ?_
    have hmem := h (fs.place path + 1) (by omega)
    rw [map_mixed] at hmem
    rcases List.mem_append.mp (List.mem_of_mem_take hmem) with hmem | hmem
    · exact absurd (place_lt_of_mem_take hmem) (by omega)
    · have hnodup : fs.livePaths.Nodup := nodup_liveEntries fs
      have htake : path ∈ fs.livePaths.take (fs.place path + 1) := by
        rw [List.mem_iff_getElem?]
        refine ⟨fs.place path, ?_⟩
        rw [List.getElem?_take_of_lt (Nat.lt_succ_self _), (getElem?_place hpath).2]
      rw [← List.take_append_drop (fs.place path + 1) fs.livePaths] at hnodup
      exact List.disjoint_of_nodup_append hnodup htake hmem
  · have hmem := h 0 (Nat.zero_le _)
    rw [map_mixed, List.take_zero, List.nil_append, List.drop_zero] at hmem
    exact place_lt_of_mem_take hmem

/-! ## Syncs that are safe -/

theorem blockCount_pos (fs : OxideFs) : 0 < fs.blockCount := by
  rw [blockCount]
  omega

/-- Before the first write the disk holds the old image. -/
theorem consistent_zero (h : Later fs fs') (hblobs : fs.BlobsFit) (hfit : fs.EntriesFit)
    (hroom : fs.blockCount ≤ capacity) (hroom' : fs'.blockCount ≤ capacity)
    (hs : Synced capacity fs s) : Consistent fs fs' s 0 := by
  rw [← length_blocks] at hroom hroom'
  obtain ⟨hsound, hview⟩ := powerCut_spec hs hroom' 0
  have hstored : Stored ((fs'.powerCut s 0).view DiskLog.sectors) 0 fs.blocks := by
    rw [hview, List.take_zero]
    exact hs.stored
  obtain ⟨s', hload⟩ := loadFromDisk_spec (logDisk_reliable capacity) h.wellFormed hblobs hsound
    hroom hstored
  have hsame := h.wellFormed.sameFiles_restored_iff.mpr hfit
  exact ⟨fs.restored, s', hload, fun path => .inl (hsame.readFile path)⟩

/-- From the first write on, block 0 is the new superblock. -/
theorem view_powerCut_zero (hs : Synced capacity fs s) (hroom : fs'.blockCount ≤ capacity) :
    (fs'.powerCut s (i + 1)).LogSound capacity ∧
      (fs'.powerCut s (i + 1)).view DiskLog.sectors 0 = fs'.superblock := by
  rw [← length_blocks] at hroom
  obtain ⟨hsound, hview⟩ := powerCut_spec hs hroom (i + 1)
  refine ⟨hsound, ?_⟩
  have hstored : Stored (overlay s.device.queue.sectors 0 (fs'.blocks.take (i + 1))) 0
      (fs'.blocks.take (i + 1)) := stored_overlay
  rw [hview]
  exact hstored.1

/-- Where no file is left, none is read. -/
theorem consistent_of_nil (h : Later fs fs') (hblobs : fs'.BlobsFit)
    (hroom : fs'.blockCount ≤ capacity) (hs : Synced capacity fs s) (hnil : fs'.liveEntries = []) :
    Consistent fs fs' s (i + 1) := by
  have hio := logDisk_reliable capacity
  obtain ⟨hsound, hsb⟩ := view_powerCut_zero (i := i) hs hroom
  obtain ⟨s₁, hs₁, -, hload⟩ := loadFromDisk_superblock hio h.wellFormed' hblobs hsound
    (fs'.blockCount_pos.trans_le hroom) hsb
  rw [hnil, List.length_nil, Nat.zero_mod] at hload
  have hpasses := (passes_loadBlobs (f := s₁.view DiskLog.sectors) hio fs'.blobs.size
    { new with nextBlobId := fs'.nextBlobId, totalBytes := fs'.totalBytes } 1).bind
      (r := loadEntries logDisk 0) (fun r hr => Passes.pure hr)
  obtain ⟨r, s₂, hrun, hindex, -⟩ := hpasses s₁ hs₁ rfl
  refine ⟨r, s₂, ?_, fun path => .inr ?_⟩
  · rw [hload, loadBlocks, hrun]
    rfl
  · have hempty : r.index[path]? = none := by
      rw [hindex]
      simp [new]
    have hread : fs'.readFile path = none := readFile_of_notMem (by simp [livePaths, hnil])
    rw [hread]
    simp [readFile, hempty]

/-- Behind the last write there are no more points to lose the power at. -/
theorem powerCut_of_le (hs : Synced capacity fs s) (hroom : fs'.blockCount ≤ capacity)
    (hj : fs'.blockCount ≤ j) : fs'.powerCut s j = fs'.powerCut s fs'.blockCount := by
  rw [← length_blocks] at hroom hj ⊢
  have hlength : (fs'.syncToDisk logDisk s).device.queue.writes.length =
      s.device.queue.writes.length + fs'.blocks.length := by
    rw [writes_syncToDisk hs hroom, DiskLog.append, List.length_append, cells, List.length_map,
      List.length_zipIdx]
  rw [powerCut, powerCut, List.take_of_length_le (by omega), List.take_of_length_le (by omega)]

/-- An update in place is consistent wherever it is cut. -/
theorem consistent_of_inPlace (h : Later fs fs') (hblobs : fs'.BlobsFit) (hfit : fs.EntriesFit)
    (hfit' : fs'.EntriesFit) (hroom : fs'.blockCount ≤ capacity) (hs : Synced capacity fs s)
    (hplace : InPlace fs fs') (hi : i < fs'.blockCount) : Consistent fs fs' s (i + 1) := by
  have heq : fs'.blobs = fs.blobs := h.blobs_eq hplace.blobs
  obtain ⟨s', hload⟩ := load_powerCut h heq hblobs hfit' hplace.count hs hroom hi
  refine ⟨_, s', hload, fun path => ?_⟩
  by_cases hmem : path ∈ (mixed fs fs' (i - fs'.blobSection.length)).map Prod.fst
  · exact readFile_mixed h heq hfit hfit' hmem
  · rw [readFile_of_notMem_mixed h heq hfit hfit' hmem]
    by_cases hpath : path ∈ fs.livePaths
    · have hpath' : path ∉ fs'.livePaths := fun hpath' => hmem (hplace.mem_mixed hpath hpath' _)
      exact .inr (readFile_of_notMem hpath').symm
    · exact .inl (readFile_of_notMem hpath).symm

/-- Keeping the places is enough. -/
theorem crashSafe_of_keepsPlaces (h : Later fs fs') (hblobs : fs'.BlobsFit) (hfit : fs.EntriesFit)
    (hfit' : fs'.EntriesFit) (hplaces : KeepsPlaces fs fs') : CrashSafe fs fs' := by
  intro capacity s hroom hroom' hs j
  have hpositive : ∀ i < fs'.blockCount, Consistent fs fs' s (i + 1) := by
    intro i hi
    rcases hplaces with hnil | hplace
    · exact consistent_of_nil h hblobs hroom' hs hnil
    · exact consistent_of_inPlace h hblobs hfit hfit' hroom' hs hplace hi
  cases j with
  | zero => exact consistent_zero h (h.blobsFit hblobs) hfit hroom hroom' hs
  | succ i =>
    rcases Nat.lt_or_ge i fs'.blockCount with hi | hi
    · exact hpositive i hi
    · have hpos := fs'.blockCount_pos
      have hlast := hpositive (fs'.blockCount - 1) (by omega)
      rw [Nat.sub_add_cancel hpos] at hlast
      rw [Consistent, powerCut_of_le hs hroom' (by omega)]
      exact hlast

/-! ## Syncs that are not -/

/-- The disk that holds the image over these blocks, after a restart. -/
def imaged (fs : OxideFs) (base : Nat → Block) (capacity : Nat) : Storage DiskLog :=
  .fresh ⟨true, capacity, ⟨overlay base 0 fs.blocks, []⟩⟩

theorem synced_imaged (fs : OxideFs) (base : Nat → Block) (capacity : Nat) :
    Synced capacity fs (fs.imaged base capacity) := by
  have hnone : ∀ n b, (fs.imaged base capacity).lookup n ≠ some b := by
    intro n b hb
    simp [imaged, Storage.lookup, Storage.fresh, BlockCache.new] at hb
  exact ⟨Storage.sound_fresh ⟨rfl, rfl, trivial⟩, fun n b hb => absurd hb (hnone n b),
    fun n b hb => absurd hb (hnone n b), stored_overlay⟩

/-- A safe sync without a new blob or more entries keeps the entries in their places. -/
theorem inPlace_of_crashSafe (h : Later fs fs') (hblobs : fs'.BlobsFit) (hfit : fs.EntriesFit)
    (hfit' : fs'.EntriesFit) (hsize : fs'.blobs.size = fs.blobs.size)
    (hcount : fs'.liveEntries.length ≤ fs.liveEntries.length) (hsafe : CrashSafe fs fs') :
    InPlace fs fs' := by
  have heq : fs'.blobs = fs.blobs := h.blobs_eq hsize
  refine ⟨hsize, hcount, fun path hpath hpath' => place_of_mem_mixed hpath hpath' fun k hk => ?_⟩
  have hs := synced_imaged fs (fun _ => Block.zero) (fs.blockCount + fs'.blockCount)
  have hi : fs'.blobSection.length + k < fs'.blockCount := by
    rw [← length_blocks, blocks, List.length_cons, List.length_append,
      List.length_map]
    omega
  obtain ⟨s', hload⟩ := load_powerCut h heq hblobs hfit' hcount hs (Nat.le_add_left _ _) hi
  rw [Nat.add_sub_cancel_left] at hload
  by_contra hmem
  have hnone := readFile_of_notMem_mixed h heq hfit hfit' hmem
  have hconsistent := hsafe _ _ (Nat.le_add_right _ _) (Nat.le_add_left _ _) hs
    (fs'.blobSection.length + k + 1)
  rcases hconsistent.readFile_of_load hload path with hread | hread
  · exact h.wellFormed.readFile_ne_none hpath (hread.symm.trans hnone)
  · exact h.wellFormed'.readFile_ne_none hpath' (hread.symm.trans hnone)

/-- The blobs of the new superblock, read over the old image on an empty disk, end behind the new
ones. -/
theorem Later.le_blobsEnd (h : Later fs fs') (hblobs : fs'.BlobsFit) {f : Nat → Block}
    (hstored : Stored f 1 fs.blobSection) :
    1 + fs.blobSection.length + (fs'.blobs.size - fs.blobs.size) ≤
      blobsEnd f 1 fs'.blobs.size := by
  have hold : blobsEnd f 1 fs.blobs.size = 1 + fs.blobSection.length := by
    rw [← Std.ExtTreeMap.length_toList]
    refine blobsEnd_of_stored (fun p hp => ?_) hstored
    exact (mem_toList_blobs h.wellFormed (h.blobsFit hblobs) hp).2
  have hsize : fs'.blobs.size = fs.blobs.size + (fs'.blobs.size - fs.blobs.size) :=
    (Nat.add_sub_cancel' h.size_le).symm
  rw [hsize, blobsEnd_add, hold, Nat.add_sub_cancel_left]
  exact OxideFs.le_blobsEnd f _ _

/-- The old image over these blocks, with the new superblock. -/
def superseded (fs fs' : OxideFs) (base : Nat → Block) : Nat → Block :=
  Function.update (overlay base 0 fs.blocks) 0 fs'.superblock

theorem view_powerCut_one (base : Nat → Block) (hroom : fs'.blockCount ≤ capacity) :
    (fs'.powerCut (fs.imaged base capacity) 1).view DiskLog.sectors = superseded fs fs' base := by
  rw [← length_blocks] at hroom
  exact (powerCut_spec (synced_imaged fs base capacity) hroom 1).2

/-- The blob section is that of the old image. -/
theorem stored_superseded (fs fs' : OxideFs) (base : Nat → Block) :
    Stored (superseded fs fs' base) 1 fs.blobSection := by
  have hstored : Stored (overlay base 0 fs.blocks) 0 fs.blocks := stored_overlay
  refine (stored_append.mp hstored.2).1.congr fun n hn _ => ?_
  exact Function.update_of_ne (Nat.ne_of_gt hn) _ _

/-- A block behind the old image and behind the blobs that are read. -/
def behind (fs fs' : OxideFs) : Nat :=
  max (blobsEnd (superseded fs fs' fun _ => Block.zero) 1 fs'.blobs.size) fs.blocks.length

/-- A disk that is empty but for this block, which holds no entry. -/
def stale (fs fs' : OxideFs) : Nat → Block :=
  Function.update (fun _ => Block.zero) (behind fs fs') (Block.filled 0xff)

theorem superseded_stale_of_lt {n : Nat} (hn : n < behind fs fs') :
    superseded fs fs' (stale fs fs') n = superseded fs fs' (fun _ => Block.zero) n := by
  have hbase : stale fs fs' n = Block.zero := Function.update_of_ne (Nat.ne_of_lt hn) _ _
  rw [superseded, superseded, Function.update_apply, Function.update_apply,
    overlay_congr (g := fun _ => Block.zero) hbase]

theorem superseded_stale_behind (fs fs' : OxideFs) :
    superseded fs fs' (stale fs fs') (behind fs fs') = Block.filled 0xff := by
  have hle : fs.blocks.length ≤ behind fs fs' := Nat.le_max_right _ _
  have hpos : 0 < fs.blocks.length := Nat.succ_pos _
  rw [superseded, Function.update_of_ne (by omega), overlay_of_le (by omega)]
  exact Function.update_self _ _ _

/-- Where entries are read beyond the old image, there are disks on which loading panics. -/
theorem load_stale (h : Later fs fs') (hblobs : fs'.BlobsFit) (hfit' : fs'.EntriesFit)
    (hbeyond : fs.liveEntries.length < fs'.blobs.size - fs.blobs.size + fs'.liveEntries.length)
    (hpos : 0 < fs'.liveEntries.length) (hroom : fs'.blockCount ≤ capacity)
    (hcapacity : behind fs fs' < capacity) :
    loadFromDisk logDisk new (fs'.powerCut (fs.imaged (stale fs fs') capacity) 1) = none := by
  have hio := logDisk_reliable capacity
  have hs := synced_imaged fs (stale fs fs') capacity
  obtain ⟨hsound, hsb⟩ := view_powerCut_zero (i := 0) hs hroom
  obtain ⟨s₁, hs₁, hview, hload⟩ := loadFromDisk_superblock hio h.wellFormed' hblobs hsound
    (fs'.blockCount_pos.trans_le hroom) hsb
  rw [view_powerCut_one _ hroom] at hview
  have hbehind : blobsEnd (superseded fs fs' fun _ => Block.zero) 1 fs'.blobs.size ≤
      behind fs fs' := Nat.le_max_left _ _
  have hend : blobsEnd (seen capacity (superseded fs fs' (stale fs fs'))) 1 fs'.blobs.size =
      blobsEnd (superseded fs fs' fun _ => Block.zero) 1 fs'.blobs.size := by
    refine blobsEnd_congr fun n hn => ?_
    have hlt : n < behind fs fs' := hn.trans_le hbehind
    rw [seen, if_pos (hlt.trans hcapacity), superseded_stale_of_lt hlt]
  have hle := h.le_blobsEnd hblobs (stored_superseded fs fs' fun _ => Block.zero)
  obtain ⟨r, s₂, hrun, -, hs₂, hview₂⟩ := passes_loadBlobs hio fs'.blobs.size
    { new with nextBlobId := fs'.nextBlobId, totalBytes := fs'.totalBytes } 1 s₁ hs₁ hview
  rw [hend] at hrun
  have hnone : loadEntries logDisk (fs'.liveEntries.length % 2 ^ 32) r
      ⟨s₂, blobsEnd (superseded fs fs' fun _ => Block.zero) 1 fs'.blobs.size⟩ = none := by
    have hlength : fs.blocks.length = 1 + fs.blobSection.length + fs.liveEntries.length := by
      rw [blocks, List.length_cons, List.length_append, List.length_map]
      omega
    refine loadEntries_eq_none hio hs₂ hbehind ?_ hcapacity ?_
    · rw [Nat.mod_eq_of_lt hfit'.count, behind]
      omega
    · rw [hview₂, superseded_stale_behind]
  rw [hload]
  have hblocks : loadBlocks logDisk fs'.blobs.size (fs'.liveEntries.length % 2 ^ 32)
      { new with nextBlobId := fs'.nextBlobId, totalBytes := fs'.totalBytes } ⟨s₁, 1⟩ = none := by
    show (loadBlobs logDisk _ _ ⟨s₁, 1⟩).bind (fun x => loadEntries logDisk _ x.1 x.2) = none
    rw [hrun]
    exact hnone
  rw [hblocks]
  rfl

/-- New blobs are stored, and with the new entries they take no more blocks than the old entries
did. -/
def Overlaps (fs fs' : OxideFs) : Prop :=
  fs.blobs.size < fs'.blobs.size ∧ fs'.liveEntries ≠ [] ∧
    fs'.blobs.size - fs.blobs.size + fs'.liveEntries.length ≤ fs.liveEntries.length

/-- Without overlap a place that is not kept is lost by some cut. -/
theorem keepsPlaces_of_crashSafe (h : Later fs fs') (hblobs : fs'.BlobsFit) (hfit : fs.EntriesFit)
    (hfit' : fs'.EntriesFit) (hoverlap : ¬Overlaps fs fs') (hsafe : CrashSafe fs fs') :
    KeepsPlaces fs fs' := by
  rw [KeepsPlaces, or_iff_not_imp_left]
  intro hpos
  have hpos' : 0 < fs'.liveEntries.length := List.length_pos_iff.mpr hpos
  have hwithin : fs'.blobs.size - fs.blobs.size + fs'.liveEntries.length ≤
      fs.liveEntries.length := by
    refine Nat.not_lt.mp fun hbeyond => ?_
    have hs := synced_imaged fs (stale fs fs') (behind fs fs' + 1 + fs.blockCount + fs'.blockCount)
    obtain ⟨r, s', hload, -⟩ := hsafe _ _ (by omega) (by omega) hs 1
    rw [load_stale h hblobs hfit' hbeyond hpos' (by omega) (by omega)] at hload
    cases hload
  have hsize : fs'.blobs.size ≤ fs.blobs.size :=
    Nat.not_lt.mp fun hlt => hoverlap ⟨hlt, hpos, hwithin⟩
  have hsize' : fs.blobs.size ≤ fs'.blobs.size := h.size_le
  exact inPlace_of_crashSafe h hblobs hfit hfit' (Nat.le_antisymm hsize hsize') (by omega) hsafe

/-- **Crash safety**: for every reachable file system and what calls have made of it, whose blobs
and entries fit their fields, loading after a power loss gives every path as before or as after, on
every disk and at every point, if no file is left or no blob and no entry is added and the entries
that stay keep their places; and only if, unless new blobs and entries take no more blocks than the
old entries did. -/
theorem crash_safety (hfs : system.Reachable fs) (ops : List FsOp) (hfs' : ops.foldl step fs = fs')
    (hfit : fs.EntriesFit) (hblobs : fs'.BlobsFit) (hfit' : fs'.EntriesFit) :
    (KeepsPlaces fs fs' → CrashSafe fs fs') ∧
      (¬Overlaps fs fs' → CrashSafe fs fs' → KeepsPlaces fs fs') := by
  have h : Later fs fs' := later_of_reachable hfs ops hfs'
  constructor
  · exact crashSafe_of_keepsPlaces h hblobs hfit hfit'
  · exact keepsPlaces_of_crashSafe h hblobs hfit hfit'

/-- Two files with a content each. -/
def twoFiles : OxideFs := [.writeFile "/a" [1] 0, .writeFile "/b" [2] 0].foldl step new

theorem reachable_twoFiles : system.Reachable twoFiles :=
  TransitionSystem.reachable_ofFun_iff.mpr ⟨_, rfl⟩

theorem entriesFit_twoFiles : twoFiles.EntriesFit := ⟨by decide, by decide⟩

/-- The last file can be deleted. -/
theorem crash_safety_twoFiles : CrashSafe twoFiles (twoFiles.deleteFile "/b").2 := by
  refine (crash_safety reachable_twoFiles [.deleteFile "/b"] rfl entriesFit_twoFiles
    (blobsFit_of_toList (by decide) (by decide)) ⟨by decide, by decide⟩).1 (.inr ?_)
  exact ⟨by decide, by decide, by decide⟩

/-- **Deleting a file can lose another one**: of two files the first is deleted, and the power is
lost when the superblock has been written.  Loading reads one entry, which is that of the file that
was deleted; the other file, which nobody touched, is gone. -/
theorem delete_loses_other :
    twoFiles.readFile "/b" = some [2] ∧ (twoFiles.deleteFile "/a").2.readFile "/b" = some [2] ∧
      (∃ r s', loadFromDisk logDisk new ((twoFiles.deleteFile "/a").2.powerCut
          (twoFiles.imaged (fun _ => Block.zero) 8) 1) = some (true, r, s') ∧
        r.readFile "/b" = none) ∧
      ¬CrashSafe twoFiles (twoFiles.deleteFile "/a").2 := by
  have hlater : Later twoFiles (twoFiles.deleteFile "/a").2 :=
    later_of_reachable reachable_twoFiles [.deleteFile "/a"] rfl
  have hfit' : (twoFiles.deleteFile "/a").2.EntriesFit := ⟨by decide, by decide⟩
  have hs := synced_imaged twoFiles (fun _ => Block.zero) 8
  obtain ⟨s', hload⟩ := load_powerCut (i := 0) hlater rfl
    (blobsFit_of_toList (by decide) (by decide)) hfit' (by decide) hs (by decide) (by decide)
  rw [Nat.zero_sub] at hload
  have hmem : "/b" ∉ (mixed twoFiles (twoFiles.deleteFile "/a").2 0).map Prod.fst := by decide
  have hlost := readFile_of_notMem_mixed hlater rfl entriesFit_twoFiles hfit' hmem
  have hold : twoFiles.readFile "/b" = some [2] := by decide
  have hnew : (twoFiles.deleteFile "/a").2.readFile "/b" = some [2] := by decide
  refine ⟨hold, hnew, ⟨_, s', hload, hlost⟩, fun hsafe => ?_⟩
  have hread := (hsafe 8 _ (by decide) (by decide) hs 1).readFile_of_load hload "/b"
  rw [hlost, hold, hnew] at hread
  simp at hread

end OxideFs

end OxideOS
