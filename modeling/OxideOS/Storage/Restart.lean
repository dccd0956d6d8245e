import OxideOS.Storage.ContextMap
import OxideOS.Storage.RoundTrip

/-!
# The context store over restarts

The context store, the file system, the block cache and the disk together, from one boot to the
next.  At boot the file system is loaded from the disk, and the store and the cache are empty; the
agents use the store; the file system is synced, which is left to whoever stops the machine; and it
restarts.  If what is synced fits the disk each time, the agents find after any number of restarts
what they have last set: together with the disk the store is one map over all sessions.

## Main definitions

* `Mounted`, `Mounted.boot`, `Mounted.session`: the four layers, booting, and a session
* `Mounted.SessionsFit`: whatever is synced fits

## Main results

* `Mounted.contexts_survive_restarts`: the store is a map over all sessions
-/

namespace OxideOS

namespace OxideFs

open Layout

variable {H : Type} {io : BlockIo H} {capacity : Nat} {ready : H → Prop}
  {sector : H → Nat → Block} {fs : OxideFs} {s : Storage H}

/-- What is synced can be loaded again. -/
structure Fits (fs : OxideFs) (capacity : Nat) : Prop where
  blobs : fs.BlobsFit
  entries : fs.EntriesFit
  room : fs.blockCount ≤ capacity

/-- Loading a file system that fits leaves the block cache usable. -/
theorem loadFromDisk_sound (hio : ReliableIo io capacity ready sector) (hfs : fs.WellFormed)
    (hfits : fs.Fits capacity) (hs : s.Sound capacity ready sector)
    (hstored : Stored (s.view sector) 0 fs.blocks) :
    ∃ s', loadFromDisk io new s = some (true, fs.withEntries fs.liveEntries, s') ∧
      s'.Sound capacity ready sector := by
  have hroom := hfits.room
  rw [← length_blocks] at hroom
  obtain ⟨hsb, hrest⟩ := hstored
  obtain ⟨s₁, hs₁, hview, hload⟩ :=
    loadFromDisk_superblock hio hfs hfits.blobs hs (Nat.zero_lt_of_lt hroom) hsb
  rw [← hview] at hrest
  obtain ⟨s₂, hread, hs₂, -⟩ := reads_loadBlocks hio hfs hfits.blobs
    (fun p hp => hfs.blobId_lt hfits.blobs hp) s₁ 1 hs₁ (Nat.add_comm .. ▸ hroom) hrest
  refine ⟨s₂, ?_, hs₂⟩
  rw [hload, Nat.mod_eq_of_lt hfits.entries.count, hread]
  rfl

/-- A file system that was loaded holds the same files. -/
theorem Represents.withEntries {files : FileMap} (h : fs.Represents files)
    (hfit : fs.EntriesFit) : (fs.withEntries fs.liveEntries).Represents files := by
  have hrestored : fs.withEntries fs.liveEntries = fs.restored := by
    rw [restored, loadedEntries, Nat.mod_eq_of_lt hfit.count, List.take_length]
  have hindex := h.wellFormed.index_restored hfit
  have hentry : ∀ (path : String) (e : FileEntry), fs.restored.index[path]? = some e →
      fs.index[path]? = some e := by
    intro path e he
    rw [hindex, Std.ExtTreeMap.getElem?_filter'] at he
    exact (Option.filter_eq_some_iff.mp he).1
  rw [hrestored]
  refine ⟨⟨h.wellFormed.mem_blobs, h.wellFormed.nextBlobId, h.wellFormed.totalBytes,
    h.wellFormed.contentHashes, fun path e he => h.wellFormed.entry path e (hentry path e he)⟩,
    fun path => ?_, fun path e he => h.size path e (hentry path e he)⟩
  rw [(h.wellFormed.sameFiles_restored_iff.mpr hfit).readFile, h.readFile]

end OxideFs

/-- The context store over the file system, and the block cache over the disk. -/
structure Mounted (H : Type) where
  store : ContextStore
  fs : OxideFs
  disk : Storage H

namespace Mounted

variable {H : Type} (io : BlockIo H)

/-- `storage::init`, as far as it is about these; `none` is a panic. -/
def boot (device : VirtioBlkDevice H) : Option (Mounted H) :=
  (OxideFs.loadFromDisk io .new (.fresh device)).map fun (_, fs, disk) => ⟨.new, fs, disk⟩

/-- Calls on the store. -/
def exec (s : Mounted H) (calls : List StoreCall) : ContextStore × OxideFs :=
  calls.foldl (fun s c => (ContextStore.exec s c).2) (s.store, s.fs)

/-- Calls on the store, a sync and a restart. -/
def session (s : Mounted H) (calls : List StoreCall) : Option (Mounted H) :=
  boot io ((s.exec calls).2.syncToDisk io s.disk).device

/-- Whatever is synced fits. -/
def SessionsFit (capacity : Nat) : Mounted H → List (List StoreCall) → Prop
  | _, [] => True
  | s, calls :: rest => (s.exec calls).2.Fits capacity ∧
      ∀ s', s.session io calls = some s' → SessionsFit capacity s' rest

/-- The store holds this map, and the disk can be used. -/
structure Holds (capacity : Nat) (ready : H → Prop) (sector : H → Nat → Block) (s : Mounted H)
    (m : ContextMap) : Prop where
  represents : ContextStore.Represents (s.store, s.fs) m
  sound : s.disk.Sound capacity ready sector

variable {io} {capacity : Nat} {ready : H → Prop} {sector : H → Nat → Block} {s : Mounted H}
  {m : ContextMap} {device : VirtioBlkDevice H}

theorem Holds.exec (h : s.Holds capacity ready sector m) (calls : List StoreCall) :
    ContextStore.Represents (s.exec calls) (calls.foldl ContextMap.apply m) := by
  induction calls using List.reverseRecOn with
  | nil => exact h.represents
  | append_singleton calls c ih =>
    rw [Mounted.exec, List.foldl_concat, List.foldl_concat, ← Mounted.exec]
    exact ih.exec c

/-- A disk without a file system gives an empty one. -/
theorem boot_blank (hio : ReliableIo io capacity ready sector) (hdevice : device.Up capacity ready)
    (hcapacity : 0 < capacity)
    (hblank : (sector device.queue 0).slice 0 8 (by decide) ≠ OxideFs.magic) :
    ∃ s, boot io device = some s ∧ s.Holds capacity ready sector .empty := by
  have hfresh : (Storage.fresh device).Sound capacity ready sector := Storage.sound_fresh hdevice
  obtain ⟨disk, hread, hdisk, -⟩ := hfresh.read_spec hio hcapacity
  rw [Storage.view_fresh] at hread
  refine ⟨⟨.new, .new, disk⟩, ?_, ContextStore.represents_new, hdisk⟩
  rw [boot, OxideFs.loadFromDisk, hread]
  simp only [if_neg hblank, Option.map_some]

/-- **A session is kept**: after it the store is empty, and reads what was set from the files. -/
theorem Holds.session (hio : ReliableIo io capacity ready sector)
    (h : s.Holds capacity ready sector m) {calls : List StoreCall}
    (hfits : (s.exec calls).2.Fits capacity) :
    ∃ s', s.session io calls = some s' ∧
      s'.Holds capacity ready sector (calls.foldl ContextMap.apply m) := by
  obtain ⟨⟨files, hfiles, heq⟩, -⟩ := h.exec calls
  obtain ⟨hup, hstored⟩ := OxideFs.syncToDisk_spec hio h.sound
    (OxideFs.length_blocks _ ▸ hfits.room)
  rw [← @Storage.view_fresh H sector] at hstored
  obtain ⟨disk, hload, hdisk⟩ := OxideFs.loadFromDisk_sound hio hfiles.wellFormed hfits
    (Storage.sound_fresh hup) hstored
  refine ⟨⟨.new, _, disk⟩, ?_, ⟨⟨files, hfiles.withEntries hfits.entries, heq⟩, ?_⟩, hdisk⟩
  · rw [Mounted.session, boot, hload]
    rfl
  · intro a key value hcached
    cases ContextStore.represents_new.cached a key value hcached

theorem Holds.sessions (hio : ReliableIo io capacity ready sector)
    {sessions : List (List StoreCall)} (h : s.Holds capacity ready sector m)
    (hfits : s.SessionsFit io capacity sessions) :
    ∃ s', sessions.foldlM (Mounted.session io) s = some s' ∧
      s'.Holds capacity ready sector (sessions.flatten.foldl ContextMap.apply m) := by
  induction sessions generalizing s m with
  | nil => exact ⟨s, rfl, h⟩
  | cons calls rest ih =>
    obtain ⟨s₁, hsession, h₁⟩ := h.session hio hfits.1
    obtain ⟨s', hrun, h'⟩ := ih h₁ (hfits.2 s₁ hsession)
    refine ⟨s', ?_, ?_⟩
    · rw [List.foldlM_cons, hsession]
      exact hrun
    · rwa [List.flatten_cons, List.foldl_append]

/-- **Contexts survive restarts.**  On every disk that never fails, and starting from one without a
file system: through any sessions of calls, each ended by a sync that fits and a restart, no boot
panics, and after any further calls an agent reads the value that it has last set in any of the
sessions, and is listed the keys that have one. -/
theorem contexts_survive_restarts (hio : ReliableIo io capacity ready sector)
    (hdevice : device.Up capacity ready) (hcapacity : 0 < capacity)
    (hblank : (sector device.queue 0).slice 0 8 (by decide) ≠ OxideFs.magic)
    (sessions : List (List StoreCall))
    (hfits : ∀ s, boot io device = some s → s.SessionsFit io capacity sessions)
    (calls : List StoreCall) :
    ∃ s s', boot io device = some s ∧ sessions.foldlM (session io) s = some s' ∧
      ∀ a, let (store, fs) := s'.exec calls
        let values := (sessions.flatten ++ calls).foldl ContextMap.apply .empty a
        (∀ key, store.get fs a key = values key) ∧ (ContextStore.keys fs a).Nodup ∧
          ∀ key, key ∈ ContextStore.keys fs a ↔ (values key).isSome = true := by
  obtain ⟨s, hboot, hempty⟩ := boot_blank hio hdevice hcapacity hblank
  obtain ⟨s', hrun, h'⟩ := hempty.sessions hio (hfits s hboot)
  have hcalls := h'.exec calls
  rw [← List.foldl_append] at hcalls
  exact ⟨s, s', hboot, hrun, fun a => ⟨hcalls.get_eq a, hcalls.keys_spec a⟩⟩

/-- An agent sets a key, and reads it after a restart. -/
theorem contexts_survive_restarts_once :
    ∃ s s', boot ramDisk (ramDevice 8) = some s ∧ s.session ramDisk [.set 1 "k" [7] 0] = some s' ∧
      s'.store.get s'.fs 1 "k" = some [7] := by
  have hfits : ∀ s, boot ramDisk (ramDevice 8) = some s →
      s.SessionsFit ramDisk 8 [[.set 1 "k" [7] 0]] := by
    intro s hs
    obtain rfl : ⟨.new, .new, _⟩ = s := Option.some.inj hs
    exact ⟨⟨OxideFs.blobsFit_of_toList (by decide) (by decide), ⟨by decide, by decide⟩, by decide⟩,
      fun _ _ => trivial⟩
  obtain ⟨s, s', hboot, hrun, h⟩ := contexts_survive_restarts (ramDisk_reliable 8) (ramDevice_up 8)
    (by decide) (by decide) [[.set 1 "k" [7] 0]] hfits []
  exact ⟨s, s', hboot, by simpa using hrun, (h 1).1 "k"⟩

end Mounted

end OxideOS
