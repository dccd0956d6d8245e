import OxideOS.Lib.WriteBack
import OxideOS.Lib.OrderedMap
import OxideOS.Storage.Device
import Mathlib.Data.List.MinMax

/-!
# The block cache

`block_cache.rs`: a write-back cache of at most 256 blocks with least-recently-used eviction, in
front of the block device.  Over a disk that never fails the cache with its device refines a
coherent `WriteBack` cache over the array of sectors, and so one flat array of blocks.

## Main definitions

* `BlockCache`, `Storage`: the cache, and the cache with the device it stands before
* `Storage.read`, `Storage.write`, `Storage.flush`, `Storage.evictOne`
* `Storage.writeBack`: the abstract cache a storage stands for
* `Storage.Sound`: the coherence invariant

## Main results

* `Storage.read_spec`, `Storage.write_spec`, `Storage.flush_spec`
* `Storage.transparent`: cache and device behave as one flat array
-/

namespace OxideOS

/-- `CACHE_SIZE`: cache up to 256 blocks. -/
def cacheSize : Nat := 256

structure CachedBlock where
  data : Block
  dirty : Bool
  accessCount : Nat
deriving DecidableEq

def CachedBlock.clean (b : CachedBlock) : CachedBlock := { b with dirty := false }

structure BlockCache where
  cache : BTreeMap Nat CachedBlock
  accessCounter : Nat

/-- `BlockCache::new`. -/
def BlockCache.new : BlockCache := ⟨∅, 0⟩

/-- The two statics `CACHE` and `DEVICE`. -/
structure Storage (H : Type) where
  cache : BlockCache
  device : VirtioBlkDevice H

namespace Storage

variable {H : Type}

/-- A fresh cache before a device. -/
def fresh (device : VirtioBlkDevice H) : Storage H := ⟨BlockCache.new, device⟩

/-- The cached copy of a block. -/
def lookup (s : Storage H) (blockNum : Nat) : Option CachedBlock :=
  s.cache.cache[blockNum]?

def tick (s : Storage H) : Storage H :=
  { s with cache := { s.cache with accessCounter := s.cache.accessCounter + 1 } }

def insert (s : Storage H) (blockNum : Nat) (data : Block) (dirty : Bool) : Storage H :=
  let cached := { data, dirty, accessCount := s.cache.accessCounter }
  { s with cache := { s.cache with cache := s.cache.cache.insert blockNum cached } }

def touch (s : Storage H) (blockNum : Nat) : Storage H :=
  let stamp (b : CachedBlock) := { b with accessCount := s.cache.accessCounter }
  { s with cache := { s.cache with cache := s.cache.cache.modify blockNum stamp } }

/-- The least recently used block: the first with the least access count. -/
def lru (s : Storage H) : Option (Nat × CachedBlock) :=
  s.cache.cache.toList.argmin fun p => p.2.accessCount

/-- `evict_one`: a failed write-back is ignored, and the block is dropped all the same. -/
def evictOne (io : BlockIo H) (s : Storage H) : Storage H :=
  match s.lru with
  | none => s
  | some (num, block) =>
    let device := if block.dirty then (s.device.writeBlock io num block.data).2 else s.device
    { cache := { s.cache with cache := s.cache.cache.erase num }, device }

/-- `BlockCache::read`. -/
def read (io : BlockIo H) (s : Storage H) (blockNum : Nat) : Except String Block × Storage H :=
  let s := s.tick
  match s.lookup blockNum with
  | some cached => (.ok cached.data, s.touch blockNum)
  | none =>
    match s.device.readBlock io blockNum with
    | (.error e, device) => (.error e, { s with device })
    | (.ok data, device) =>
      let s := { s with device }
      -- the block is read before room is made for it, so a failed read evicts nothing
      let s := if cacheSize ≤ s.cache.cache.size then s.evictOne io else s
      (.ok data, s.insert blockNum data false)

/-- `BlockCache::write`. -/
def write (io : BlockIo H) (s : Storage H) (blockNum : Nat) (data : Block) :
    Except String Unit × Storage H :=
  let s := s.tick
  let s :=
    if cacheSize ≤ s.cache.cache.size ∧ !s.cache.cache.contains blockNum then s.evictOne io else s
  (.ok (), s.insert blockNum data true)

/-- The dirty blocks, in the order of their numbers. -/
def dirtyBlocks (s : Storage H) : List (Nat × Block) :=
  (s.cache.cache.toList.filter fun p => p.2.dirty).map fun p => (p.1, p.2.data)

/-- The loop of `flush` that writes the dirty blocks and stops at the first failure. -/
def writeBlocks (io : BlockIo H) :
    VirtioBlkDevice H → List (Nat × Block) → Except String Unit × VirtioBlkDevice H
  | device, [] => (.ok (), device)
  | device, (num, data) :: rest =>
    match device.writeBlock io num data with
    | (.error e, device) => (.error e, device)
    | (.ok (), device) => writeBlocks io device rest

/-- The loop of `flush` that clears the dirty marks. -/
def cleanBlocks (cache : BTreeMap Nat CachedBlock) (blocks : List (Nat × Block)) :
    BTreeMap Nat CachedBlock :=
  blocks.foldl (fun cache p => cache.modify p.1 CachedBlock.clean) cache

/-- `BlockCache::flush`. -/
def flush (io : BlockIo H) (s : Storage H) : Except String Nat × Storage H :=
  let dirty := s.dirtyBlocks
  match writeBlocks io s.device dirty with
  | (.error e, device) => (.error e, { s with device })
  | (.ok (), device) =>
    -- the marks are cleared only after all writes have succeeded
    (.ok dirty.length,
      { cache := { s.cache with cache := cleanBlocks s.cache.cache dirty }, device })

/-! ## The abstract cache -/

/-- The write-back cache over the array of sectors that a storage stands for. -/
def writeBack (sector : H → Nat → Block) (s : Storage H) : WriteBack Nat Block where
  cached n := (s.lookup n).map fun b => (b.data, b.dirty)
  backing := sector s.device.queue

/-- What a reader of the cache sees. -/
def view (sector : H → Nat → Block) (s : Storage H) : Nat → Block :=
  (s.writeBack sector).view

/-- The coherence invariant: the device is up, only blocks in range are cached, at most 256 of
them, and every clean copy equals its sector. -/
structure Sound (capacity : Nat) (ready : H → Prop) (sector : H → Nat → Block) (s : Storage H) :
    Prop where
  up : s.device.Up capacity ready
  inRange : ∀ n ∈ s.cache.cache, n < capacity
  size_le : s.cache.cache.size ≤ cacheSize
  coherent : (s.writeBack sector).Coherent

variable {io : BlockIo H} {capacity : Nat} {ready : H → Prop} {sector : H → Nat → Block}
  {s : Storage H} {n : Nat} {data : Block}

theorem sound_fresh {device : VirtioBlkDevice H} (h : device.Up capacity ready) :
    (fresh device).Sound capacity ready sector where
  up := h
  inRange n hn := absurd hn Std.ExtTreeMap.not_mem_empty
  size_le := Nat.zero_le _
  coherent n x hn := by simp [writeBack, lookup, fresh, BlockCache.new] at hn

@[simp]
theorem view_fresh {device : VirtioBlkDevice H} :
    (fresh device).view sector = sector device.queue := by
  funext n
  simp [view, WriteBack.view, writeBack, lookup, fresh, BlockCache.new]

theorem mem_cache_iff : n ∈ s.cache.cache ↔ ∃ b, s.lookup n = some b := by
  rw [Std.ExtTreeMap.mem_iff_isSome_getElem?, Option.isSome_iff_exists]
  rfl

theorem lookup_insert (s : Storage H) (n m : Nat) (data : Block) (dirty : Bool) :
    (s.insert n data dirty).lookup m =
      if n = m then some ⟨data, dirty, s.cache.accessCounter⟩ else s.lookup m := by
  simp [insert, lookup, Std.ExtTreeMap.getElem?_insert]

theorem writeBack_insert (s : Storage H) (n : Nat) (data : Block) (dirty : Bool) :
    (s.insert n data dirty).writeBack sector =
      { s.writeBack sector with
        cached := Function.update (s.writeBack sector).cached n (some (data, dirty)) } := by
  refine congrArg₂ WriteBack.mk (funext fun m => ?_) rfl
  rw [lookup_insert, Function.update_apply]
  by_cases hm : m = n
  · simp [hm]
  · simp [hm, Ne.symm hm, writeBack]

@[simp]
theorem writeBack_touch (s : Storage H) (n : Nat) :
    (s.touch n).writeBack sector = s.writeBack sector := by
  refine congrArg₂ WriteBack.mk (funext fun m => ?_) rfl
  simp only [lookup, touch, Std.ExtTreeMap.getElem?_modify, Std.LawfulEqCmp.compare_eq_iff_eq]
  by_cases hm : n = m
  · subst hm
    simp [Function.comp_def]
  · simp [hm]

theorem Sound.tick (hs : s.Sound capacity ready sector) : s.tick.Sound capacity ready sector :=
  ⟨hs.up, hs.inRange, hs.size_le, hs.coherent⟩

theorem Sound.touch (hs : s.Sound capacity ready sector) :
    (s.touch n).Sound capacity ready sector where
  up := hs.up
  inRange m hm := hs.inRange m (Std.ExtTreeMap.mem_modify.mp hm)
  size_le := Std.ExtTreeMap.size_modify.trans_le hs.size_le
  coherent := by
    rw [writeBack_touch]
    exact hs.coherent

theorem Sound.insert {dirty : Bool} (hs : s.Sound capacity ready sector) (hn : n < capacity)
    (hroom : n ∈ s.cache.cache ∨ s.cache.cache.size < cacheSize)
    (hcoherent : ((s.insert n data dirty).writeBack sector).Coherent) :
    (s.insert n data dirty).Sound capacity ready sector where
  up := hs.up
  inRange m hm := by
    rcases Std.ExtTreeMap.mem_insert.mp hm with heq | hmem
    · rwa [← Std.LawfulEqCmp.eq_of_compare heq]
    · exact hs.inRange m hmem
  size_le := by
    have hsize := hs.size_le
    show (s.cache.cache.insert n _).size ≤ cacheSize
    rw [Std.ExtTreeMap.size_insert]
    split
    · exact hsize
    · next hc =>
      have hlt := hroom.resolve_left fun hmem => hc (Std.ExtTreeMap.contains_iff_mem.mpr hmem)
      exact hlt
  coherent := hcoherent

/-! ## Eviction -/

theorem lru_mem {p : Nat × CachedBlock} (h : s.lru = some p) : s.lookup p.1 = some p.2 :=
  Std.ExtTreeMap.mem_toList_iff_getElem?_eq_some.mp (List.argmin_mem h)

/-- Dropping a line of the map is dropping it from the abstract cache. -/
theorem cached_erase (s : Storage H) (k m : Nat) :
    (((s.cache.cache.erase k)[m]?).map fun b => (b.data, b.dirty)) =
      Function.update (s.writeBack sector).cached k none m := by
  rw [Std.ExtTreeMap.getElem?_erase, Function.update_apply]
  by_cases hm : m = k
  · simp [hm]
  · simp [hm, Ne.symm hm, writeBack, lookup]

/-- Eviction from a cache that is not empty writes one block back and drops it. -/
theorem evictOne_spec (hio : ReliableIo io capacity ready sector)
    (hs : s.Sound capacity ready sector) (hsize : 0 < s.cache.cache.size) :
    ∃ k ∈ s.cache.cache, (s.evictOne io).cache.cache = s.cache.cache.erase k ∧
      (s.evictOne io).device.Up capacity ready ∧
      (s.evictOne io).writeBack sector = (s.writeBack sector).evict k := by
  rcases hlru : s.lru with _ | ⟨k, b⟩
  · have hnil : s.cache.cache.toList = [] := List.argmin_eq_none.mp hlru
    rw [← Std.ExtTreeMap.length_toList, hnil] at hsize
    exact absurd hsize (Nat.lt_irrefl 0)
  · have hk : s.lookup k = some b := lru_mem hlru
    have hmem : k ∈ s.cache.cache := mem_cache_iff.mpr ⟨b, hk⟩
    have hdevice : (s.evictOne io).device.Up capacity ready ∧
        sector (s.evictOne io).device.queue = ((s.writeBack sector).evict k).backing := by
      cases hdirty : b.dirty with
      | false =>
        refine ⟨by simpa [evictOne, hlru, hdirty] using hs.up, ?_⟩
        simp [evictOne, hlru, hdirty, WriteBack.evict, writeBack, hk]
      | true =>
        obtain ⟨device, hwrite, hup, hsector⟩ :=
          hs.up.writeBlock_spec hio (hs.inRange k hmem) b.data
        refine ⟨by simpa [evictOne, hlru, hdirty, hwrite] using hup, ?_⟩
        simp [evictOne, hlru, hdirty, WriteBack.evict, writeBack, hk, hwrite, hsector]
    refine ⟨k, hmem, by simp [evictOne, hlru], hdevice.1, ?_⟩
    refine congrArg₂ WriteBack.mk (funext fun m => ?_) hdevice.2
    simpa [evictOne, hlru, lookup] using s.cached_erase k m

/-- What making room for a block achieves: the storage is sound, has a free line, and nothing a
reader sees or that was not cached has changed. -/
structure RoomMade (capacity : Nat) (ready : H → Prop) (sector : H → Nat → Block)
    (s s' : Storage H) : Prop where
  sound : s'.Sound capacity ready sector
  size_lt : s'.cache.cache.size < cacheSize
  view_eq : s'.view sector = s.view sector
  not_cached : ∀ m, s.lookup m = none → s'.lookup m = none

theorem Sound.evictOne (hs : s.Sound capacity ready sector)
    (hio : ReliableIo io capacity ready sector) (hfull : cacheSize ≤ s.cache.cache.size) :
    RoomMade capacity ready sector s (s.evictOne io) := by
  have hpos : 0 < s.cache.cache.size := Nat.lt_of_lt_of_le (by decide) hfull
  obtain ⟨k, hmem, hcache, hup, hwb⟩ := evictOne_spec hio hs hpos
  have hsize : (s.evictOne io).cache.cache.size < cacheSize := by
    have hle := hs.size_le
    rw [hcache, Std.ExtTreeMap.size_erase, if_pos (Std.ExtTreeMap.contains_iff_mem.mpr hmem)]
    omega
  refine ⟨⟨hup, ?_, hsize.le, ?_⟩, hsize, ?_, ?_⟩
  · intro m hm
    rw [hcache] at hm
    exact hs.inRange m (Std.ExtTreeMap.mem_erase.mp hm).2
  · rw [hwb]
    exact hs.coherent.evict
  · rw [view, hwb, WriteBack.view_evict hs.coherent]
    rfl
  · intro m hm
    rw [lookup, hcache, Std.ExtTreeMap.getElem?_erase]
    split
    · rfl
    · exact hm

theorem Sound.makeRoom (hs : s.Sound capacity ready sector)
    (hio : ReliableIo io capacity ready sector) :
    RoomMade capacity ready sector s
      (if cacheSize ≤ s.cache.cache.size then s.evictOne io else s) := by
  split
  · next hfull => exact hs.evictOne hio hfull
  · next hfree => exact ⟨hs, Nat.not_le.mp hfree, rfl, fun _ hm => hm⟩

/-! ## The operations -/

/-- A read returns what a reader sees, and changes nothing of it. -/
theorem Sound.read_spec (hs : s.Sound capacity ready sector)
    (hio : ReliableIo io capacity ready sector) (hn : n < capacity) :
    ∃ s', s.read io n = (.ok (s.view sector n), s') ∧ s'.Sound capacity ready sector ∧
      s'.view sector = s.view sector := by
  cases hlook : s.lookup n with
  | some b =>
    refine ⟨s.tick.touch n, ?_, hs.tick.touch, ?_⟩
    · have htick : s.tick.lookup n = some b := hlook
      have hview : s.view sector n = b.data :=
        WriteBack.view_of_cached (c := (b.data, b.dirty)) (by simp [writeBack, hlook])
      simp [read, htick, hview]
    · simp only [view, writeBack_touch]
      rfl
  | none =>
    obtain ⟨device, hread, hup, hsector⟩ := hs.up.readBlock_spec hio hn
    have hmiss : s.view sector n = sector s.device.queue n :=
      WriteBack.view_of_not_cached (by simp [writeBack, hlook])
    let s₁ : Storage H := ⟨s.tick.cache, device⟩
    have hwb : s₁.writeBack sector = s.writeBack sector := congrArg (WriteBack.mk _) hsector
    have hs₁ : s₁.Sound capacity ready sector :=
      ⟨hup, hs.inRange, hs.size_le, hwb ▸ hs.coherent⟩
    have hroom := hs₁.makeRoom hio
    generalize hs₂ : (if cacheSize ≤ s₁.cache.cache.size then s₁.evictOne io else s₁) = s₂
    rw [hs₂] at hroom
    have hnone : (s₂.writeBack sector).cached n = none := by
      simp [writeBack, hroom.not_cached n hlook]
    have hview : s₂.view sector = s.view sector := by
      rw [hroom.view_eq, view, hwb, view]
    have hfill : (s₂.insert n (s.view sector n) false).writeBack sector =
        (s₂.writeBack sector).fill n := by
      rw [writeBack_insert, ← hview, view, WriteBack.view_of_not_cached hnone]
      rfl
    refine ⟨s₂.insert n (s.view sector n) false, ?_, ?_, ?_⟩
    · have htick : s.tick.lookup n = none := hlook
      have hread' : s.tick.device.readBlock io n = (.ok (s.view sector n), device) := by
        rw [hmiss]
        exact hread
      simp only [read, htick, hread', ← hs₂]
      rfl
    · refine hroom.sound.insert hn (.inr hroom.size_lt) ?_
      rw [hfill]
      exact hroom.sound.coherent.fill
    · rw [view, hfill, WriteBack.view_fill hnone]
      exact hview

/-- A write succeeds and changes what a reader sees at its block only. -/
theorem Sound.write_spec (hs : s.Sound capacity ready sector)
    (hio : ReliableIo io capacity ready sector) (hn : n < capacity) (data : Block) :
    ∃ s', s.write io n data = (.ok (), s') ∧ s'.Sound capacity ready sector ∧
      s'.view sector = Function.update (s.view sector) n data := by
  generalize hs₂ : (if cacheSize ≤ s.tick.cache.cache.size ∧ !s.tick.cache.cache.contains n
    then s.tick.evictOne io else s.tick) = s₂
  have hroom : s₂.Sound capacity ready sector ∧ s₂.view sector = s.view sector ∧
      (n ∈ s₂.cache.cache ∨ s₂.cache.cache.size < cacheSize) := by
    by_cases hc : s.tick.cache.cache.contains n
    · rw [if_neg (by simp [hc])] at hs₂
      subst hs₂
      exact ⟨hs.tick, rfl, .inl (Std.ExtTreeMap.contains_iff_mem.mp hc)⟩
    · have hmade := hs.tick.makeRoom hio
      simp only [hc, Bool.not_false, and_true] at hs₂
      rw [hs₂] at hmade
      exact ⟨hmade.sound, hmade.view_eq, .inr hmade.size_lt⟩
  obtain ⟨hsound, hview, hfree⟩ := hroom
  have hput : (s₂.insert n data true).writeBack sector = (s₂.writeBack sector).put n data :=
    writeBack_insert s₂ n data true
  refine ⟨s₂.insert n data true, ?_, ?_, ?_⟩
  · simp only [write, hs₂]
  · refine hsound.insert hn hfree ?_
    rw [hput]
    exact hsound.coherent.put
  · rw [view, hput, WriteBack.view_put]
    exact congrArg (Function.update · n data) hview

/-! ## Flushing -/

theorem mem_dirtyBlocks :
    (n, data) ∈ s.dirtyBlocks ↔ ∃ b, s.lookup n = some b ∧ b.dirty = true ∧ b.data = data := by
  have hmem : ∀ b, (n, b) ∈ s.cache.cache.toList ↔ s.lookup n = some b := fun b =>
    Std.ExtTreeMap.mem_toList_iff_getElem?_eq_some
  simp only [dirtyBlocks, List.mem_map, List.mem_filter]
  constructor
  · rintro ⟨⟨k, b⟩, ⟨hb, hdirty⟩, heq⟩
    obtain ⟨rfl, rfl⟩ := Prod.mk.inj heq
    exact ⟨b, (hmem b).mp hb, hdirty, rfl⟩
  · rintro ⟨b, hb, hdirty, rfl⟩
    exact ⟨(n, b), ⟨(hmem b).mpr hb, hdirty⟩, rfl⟩

theorem nodup_dirtyBlocks : (s.dirtyBlocks.map Prod.fst).Nodup := by
  refine (Std.ExtTreeMap.nodup_keys_toList s.cache.cache).sublist ?_
  simp only [dirtyBlocks, List.map_map]
  exact List.filter_sublist.map Prod.fst

/-- On a disk that never fails the loop writes all blocks, in their order. -/
theorem writeBlocks_spec (hio : ReliableIo io capacity ready sector) {blocks : List (Nat × Block)}
    (hblocks : ∀ p ∈ blocks, p.1 < capacity) :
    ∀ {device : VirtioBlkDevice H}, device.Up capacity ready →
      ∃ device', writeBlocks io device blocks = (.ok (), device') ∧ device'.Up capacity ready ∧
        sector device'.queue = WriteBack.writeAll (sector device.queue) blocks := by
  induction blocks with
  | nil =>
    intro device hup
    exact ⟨device, rfl, hup, rfl⟩
  | cons p blocks ih =>
    intro device hup
    obtain ⟨device₁, hwrite, hup₁, hsector₁⟩ :=
      hup.writeBlock_spec hio (hblocks p List.mem_cons_self) p.2
    obtain ⟨device₂, hrest, hup₂, hsector₂⟩ :=
      ih (fun q hq => hblocks q (List.mem_cons_of_mem p hq)) hup₁
    refine ⟨device₂, ?_, hup₂, ?_⟩
    · rw [writeBlocks, hwrite]
      exact hrest
    · rw [hsector₂, hsector₁]
      rfl

theorem getElem?_cleanBlocks {blocks : List (Nat × Block)} :
    ∀ {cache : BTreeMap Nat CachedBlock}, (cleanBlocks cache blocks)[n]? =
      if n ∈ blocks.map Prod.fst then cache[n]?.map CachedBlock.clean else cache[n]? := by
  induction blocks with
  | nil => intro cache; rfl
  | cons p blocks ih =>
    intro cache
    show (cleanBlocks (cache.modify p.1 CachedBlock.clean) blocks)[n]? = _
    rw [ih, Std.ExtTreeMap.getElem?_modify]
    simp only [List.map_cons, List.mem_cons, Std.LawfulEqCmp.compare_eq_iff_eq]
    by_cases hp : p.1 = n
    · subst hp
      have htwice : CachedBlock.clean ∘ CachedBlock.clean = CachedBlock.clean := rfl
      simp [htwice]
    · simp only [hp, Ne.symm hp, if_false, false_or]

/-- Clearing the marks of the dirty blocks cleans every block. -/
theorem getElem?_cleanBlocks_dirtyBlocks :
    (cleanBlocks s.cache.cache s.dirtyBlocks)[n]? = (s.lookup n).map CachedBlock.clean := by
  rw [getElem?_cleanBlocks]
  split
  · rfl
  · next hclean =>
    show s.lookup n = _
    cases hb : s.lookup n with
    | none => rfl
    | some b =>
      have hdirty : b.dirty = false := by
        rw [Bool.eq_false_iff]
        intro hdirty
        have hmem : (n, b.data) ∈ s.dirtyBlocks := mem_dirtyBlocks.mpr ⟨b, hb, hdirty, rfl⟩
        exact hclean (List.mem_map_of_mem hmem)
      rw [Option.map_some, CachedBlock.clean, ← hdirty]

theorem size_cleanBlocks {blocks : List (Nat × Block)} :
    ∀ {cache : BTreeMap Nat CachedBlock}, (cleanBlocks cache blocks).size = cache.size := by
  induction blocks with
  | nil => intro cache; rfl
  | cons p blocks ih =>
    intro cache
    exact ih.trans Std.ExtTreeMap.size_modify

/-- Once the dirty blocks have been written, clearing their marks is a flush of the abstract
cache. -/
theorem writeBack_cleanBlocks {device : VirtioBlkDevice H}
    (hsector : sector device.queue = WriteBack.writeAll (sector s.device.queue) s.dirtyBlocks) :
    Storage.writeBack sector
        ⟨⟨cleanBlocks s.cache.cache s.dirtyBlocks, s.cache.accessCounter⟩, device⟩ =
      (s.writeBack sector).flush := by
  refine congrArg₂ WriteBack.mk (funext fun n => ?_) ?_
  · show (cleanBlocks s.cache.cache s.dirtyBlocks)[n]?.map _ = _
    rw [getElem?_cleanBlocks_dirtyBlocks, writeBack, Option.map_map, Option.map_map]
    rfl
  · rw [hsector]
    refine WriteBack.writeAll_backing (w := s.writeBack sector) nodup_dirtyBlocks fun n data => ?_
    rw [mem_dirtyBlocks, writeBack, Option.map_eq_some_iff]
    simp [and_comm]

/-- A flush succeeds, changes nothing a reader sees, and leaves the disk as the reader sees it. -/
theorem Sound.flush_spec (hs : s.Sound capacity ready sector)
    (hio : ReliableIo io capacity ready sector) :
    ∃ s', s.flush io = (.ok s.dirtyBlocks.length, s') ∧ s'.Sound capacity ready sector ∧
      s'.view sector = s.view sector ∧ sector s'.device.queue = s.view sector := by
  have hkey : ∀ p ∈ s.dirtyBlocks, p.1 ∈ s.cache.cache := by
    rintro ⟨n, data⟩ hp
    obtain ⟨b, hb, -⟩ := mem_dirtyBlocks.mp hp
    exact mem_cache_iff.mpr ⟨b, hb⟩
  obtain ⟨device, hwrite, hup, hsector⟩ :=
    writeBlocks_spec hio (fun p hp => hs.inRange p.1 (hkey p hp)) hs.up
  let s' : Storage H := ⟨⟨cleanBlocks s.cache.cache s.dirtyBlocks, s.cache.accessCounter⟩, device⟩
  have hlookup : ∀ n, s'.lookup n = (s.lookup n).map CachedBlock.clean := fun n =>
    getElem?_cleanBlocks_dirtyBlocks
  have hwb : s'.writeBack sector = (s.writeBack sector).flush := writeBack_cleanBlocks hsector
  refine ⟨s', by rw [flush, hwrite], ⟨hup, ?_, ?_, ?_⟩, ?_, ?_⟩
  · intro n hn
    obtain ⟨b, hb⟩ := mem_cache_iff.mp hn
    obtain ⟨b', hb', -⟩ := Option.map_eq_some_iff.mp ((hlookup n).symm.trans hb)
    exact hs.inRange n (mem_cache_iff.mpr ⟨b', hb'⟩)
  · exact size_cleanBlocks.trans_le hs.size_le
  · rw [hwb]
    exact hs.coherent.flush
  · rw [view, hwb, WriteBack.view_flush]
    rfl
  · exact (congrArg WriteBack.backing hwb).trans (WriteBack.backing_flush hs.coherent)

end Storage

/-! ## Runs -/

/-- A call on the block cache. -/
inductive CacheOp where
  | read (blockNum : Nat)
  | write (blockNum : Nat) (data : Block)
  | flush

namespace CacheOp

/-- The call names only blocks below the capacity. -/
def InRange (capacity : Nat) : CacheOp → Prop
  | read n => n < capacity
  | write n _ => n < capacity
  | flush => True

/-- What the call writes to a block. -/
def written (n : Nat) : CacheOp → Option Block
  | write m data => if m = n then some data else none
  | _ => none

/-- The flat array of blocks that calls make of an initial one: each block holds the data of the
latest write to it. -/
def latest (initial : Nat → Block) (ops : List CacheOp) (n : Nat) : Block :=
  (ops.reverse.findSome? (written n)).getD (initial n)

theorem latest_concat (initial : Nat → Block) (ops : List CacheOp) (op : CacheOp) (n : Nat) :
    latest initial (ops ++ [op]) n = (op.written n).getD (latest initial ops n) := by
  rw [latest, latest, List.reverse_append, List.reverse_singleton, List.singleton_append,
    List.findSome?_cons]
  cases op.written n <;> rfl

end CacheOp

namespace Storage

variable {H : Type} {io : BlockIo H} {capacity : Nat} {ready : H → Prop}
  {sector : H → Nat → Block} {s : Storage H} {device : VirtioBlkDevice H}

/-- The state a call leaves, whatever it returns. -/
def step (io : BlockIo H) (s : Storage H) : CacheOp → Storage H
  | .read n => (s.read io n).2
  | .write n data => (s.write io n data).2
  | .flush => (s.flush io).2

def run (io : BlockIo H) (s : Storage H) (ops : List CacheOp) : Storage H :=
  ops.foldl (step io) s

theorem Sound.step (hs : s.Sound capacity ready sector)
    (hio : ReliableIo io capacity ready sector) {op : CacheOp} (hop : op.InRange capacity) :
    (s.step io op).Sound capacity ready sector ∧
      ∀ n, (s.step io op).view sector n = (op.written n).getD (s.view sector n) := by
  cases op with
  | read n =>
    obtain ⟨s', hread, hs', hview⟩ := hs.read_spec hio hop
    rw [Storage.step, hread]
    exact ⟨hs', fun n => congrFun hview n⟩
  | write n data =>
    obtain ⟨s', hwrite, hs', hview⟩ := hs.write_spec hio hop data
    rw [Storage.step, hwrite]
    refine ⟨hs', fun m => ?_⟩
    rw [hview, Function.update_apply, CacheOp.written]
    by_cases hm : m = n
    · simp [hm]
    · simp [hm, Ne.symm hm]
  | flush =>
    obtain ⟨s', hflush, hs', hview, -⟩ := hs.flush_spec hio
    rw [Storage.step, hflush]
    exact ⟨hs', fun n => congrFun hview n⟩

/-- After any calls in range the storage is sound, and a reader sees the latest writes. -/
theorem sound_run (hio : ReliableIo io capacity ready sector) (hdevice : device.Up capacity ready)
    {ops : List CacheOp} (hops : ∀ op ∈ ops, op.InRange capacity) :
    (run io (fresh device) ops).Sound capacity ready sector ∧
      (run io (fresh device) ops).view sector = CacheOp.latest (sector device.queue) ops := by
  induction ops using List.reverseRecOn with
  | nil => exact ⟨sound_fresh hdevice, view_fresh⟩
  | append_singleton ops op ih =>
    obtain ⟨hs, hview⟩ := ih fun o ho => hops o (List.mem_append_left _ ho)
    obtain ⟨hs', hview'⟩ := hs.step hio (hops op (by simp))
    rw [run, List.foldl_append]
    refine ⟨hs', funext fun n => ?_⟩
    rw [CacheOp.latest_concat, ← hview]
    exact hview' n

/-- **The cache is transparent**: after any calls on blocks in range, at most 256 blocks are cached,
a read returns the latest write to its block, a write succeeds, and a flush succeeds and leaves
that same array on the device alone. -/
theorem transparent (hio : ReliableIo io capacity ready sector) (hdevice : device.Up capacity ready)
    (ops : List CacheOp) (hops : ∀ op ∈ ops, op.InRange capacity) :
    let s := run io (fresh device) ops
    let array := CacheOp.latest (sector device.queue) ops
    s.cache.cache.size ≤ cacheSize ∧
      (∀ n < capacity, (s.read io n).1 = .ok (array n)) ∧
      (∀ n < capacity, ∀ data, (s.write io n data).1 = .ok ()) ∧
      (s.flush io).1 = .ok s.dirtyBlocks.length ∧
      ∀ n < capacity, sector (s.flush io).2.device.queue n = array n ∧
        ((s.flush io).2.device.readBlock io n).1 = .ok (array n) := by
  intro s array
  obtain ⟨hs, hview⟩ : s.Sound capacity ready sector ∧ s.view sector = array :=
    sound_run hio hdevice hops
  obtain ⟨s', hflush, hs', -, hsector⟩ := hs.flush_spec hio
  refine ⟨hs.size_le, ?_, ?_, ?_, ?_⟩
  · intro n hn
    obtain ⟨s'', hread, -⟩ := hs.read_spec hio hn
    rw [hread, hview]
  · intro n hn data
    obtain ⟨s'', hwrite, -⟩ := hs.write_spec hio hn data
    rw [hwrite]
  · rw [hflush]
  · intro n hn
    obtain ⟨device', hread, -⟩ := hs'.up.readBlock_spec hio hn
    rw [hflush, hread, hsector, hview]
    exact ⟨rfl, rfl⟩

/-- Two writes to one block of a disk in memory, with a flush between them. -/
def overwritten : List CacheOp :=
  [.write 3 Block.zero, .flush, .write 3 (Block.filled 1), .read 5]

theorem transparent_overwritten :
    ((run ramDisk (fresh (ramDevice 8)) overwritten).read ramDisk 3).1 =
      .ok (Block.filled 1) :=
  (transparent (ramDisk_reliable 8) (ramDevice_up 8) overwritten
    (by simp [overwritten, CacheOp.InRange])).2.1 3 (by decide)

end Storage

end OxideOS
