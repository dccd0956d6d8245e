import OxideOS.Storage.Persistence

/-!
# The order of the writes of a sync

A disk that keeps the log of its writes, and what `sync_to_disk` appends to it.  A sync that finds
no dirty block in the cache writes its blocks in their order: an eviction takes the block with the
least stamp, which is a clean one or the first dirty one, and the flush at the end goes through the
rest in their order.

## Main definitions

* `DiskLog`, `logDisk`: a disk with the log of its writes
* `Storage.Queued`: the state of a cache in the middle of a sync
* `OxideFs.Synced`: the disk holds the image of a file system, and the cache nothing else

## Main results

* `OxideFs.synced_syncToDisk`: a sync makes a storage synced
* `OxideFs.writes_syncToDisk`: the writes of a sync are the blocks of the image in their order
-/

namespace OxideOS

open Layout

/-! ## A disk with a log -/

structure DiskLog where
  initial : Nat → Block
  writes : List (Nat × Block)

/-- The sectors after the writes. -/
def DiskLog.sectors (disk : DiskLog) : Nat → Block := WriteBack.writeAll disk.initial disk.writes

def DiskLog.append (disk : DiskLog) (writes : List (Nat × Block)) : DiskLog :=
  { disk with writes := disk.writes ++ writes }

theorem DiskLog.append_append (disk : DiskLog) (ws vs : List (Nat × Block)) :
    (disk.append ws).append vs = disk.append (ws ++ vs) := by
  simp only [append, List.append_assoc]

theorem DiskLog.sectors_append (disk : DiskLog) (writes : List (Nat × Block)) :
    (disk.append writes).sectors = WriteBack.writeAll disk.sectors writes :=
  List.foldl_append

def logDisk : BlockIo DiskLog where
  doBlockIo disk reqType n buf :=
    match reqType with
    | .read => (.ok (disk.sectors n), disk)
    | .write => (.ok buf, disk.append [(n, buf)])

theorem logDisk_reliable (capacity : Nat) :
    ReliableIo logDisk capacity (fun _ => True) DiskLog.sectors where
  read disk _ _ _ _ := ⟨disk, rfl, trivial, rfl⟩
  write disk n buf _ _ := ⟨_, buf, rfl, trivial, disk.sectors_append [(n, buf)]⟩

namespace Storage

variable {capacity : Nat} {s : Storage DiskLog} {disk : DiskLog} {blocks : List Block}
  {d k n : Nat} {data : Block}

/-- A sound storage before a disk with a log. -/
abbrev LogSound (capacity : Nat) (s : Storage DiskLog) : Prop :=
  s.Sound capacity (fun _ => True) DiskLog.sectors

theorem writeBlock_logDisk {device : VirtioBlkDevice DiskLog}
    (h : device.Up capacity fun _ => True) (hn : n < capacity) (data : Block) :
    device.writeBlock logDisk n data =
      (.ok (), { device with queue := device.queue.append [(n, data)] }) := by
  rw [VirtioBlkDevice.writeBlock, h.initialized, h.capacityBlocks, if_neg (by decide),
    if_neg (Nat.not_le.mpr hn)]
  rfl

theorem writeBlocks_logDisk {writes : List (Nat × Block)} (hwrites : ∀ p ∈ writes, p.1 < capacity)
    {device : VirtioBlkDevice DiskLog} (h : device.Up capacity fun _ => True) :
    writeBlocks logDisk device writes =
      (.ok (), { device with queue := device.queue.append writes }) := by
  induction writes generalizing device with
  | nil => simp [writeBlocks, DiskLog.append]
  | cons p writes ih =>
    have hup : VirtioBlkDevice.Up capacity (fun _ => True)
        { device with queue := device.queue.append [p] } :=
      ⟨h.initialized, h.capacityBlocks, trivial⟩
    rw [writeBlocks, writeBlock_logDisk h (hwrites p List.mem_cons_self)]
    refine (ih (fun q hq => hwrites q (List.mem_cons_of_mem p hq)) hup).trans ?_
    rw [DiskLog.append_append]
    rfl

theorem Sound.dirtyBlocks_lt (hs : s.LogSound capacity) : ∀ p ∈ s.dirtyBlocks, p.1 < capacity := by
  rintro ⟨n, data⟩ hp
  obtain ⟨b, hb, -⟩ := mem_dirtyBlocks.mp hp
  exact hs.inRange n (mem_cache_iff.mpr ⟨b, hb⟩)

/-- After a flush no block is dirty. -/
theorem Sound.clean_flush (hs : s.LogSound capacity) {b : CachedBlock}
    (hb : (s.flush logDisk).2.lookup n = some b) : b.dirty = false := by
  rw [flush, writeBlocks_logDisk hs.dirtyBlocks_lt hs.up, lookup,
    getElem?_cleanBlocks_dirtyBlocks] at hb
  obtain ⟨b', -, rfl⟩ := Option.map_eq_some_iff.mp hb
  rfl

/-! ## Stamps -/

/-- No stamp is ahead of the counter. -/
def Stamped (s : Storage DiskLog) : Prop :=
  ∀ n b, s.lookup n = some b → b.accessCount ≤ s.cache.accessCounter

theorem lookup_evictOne {m : Nat} {b : CachedBlock} (h : (s.evictOne logDisk).lookup m = some b) :
    s.lookup m = some b := by
  rw [evictOne] at h
  split at h
  · exact h
  · rw [lookup, Std.ExtTreeMap.getElem?_erase] at h
    split at h
    · cases h
    · exact h

theorem accessCounter_evictOne (s : Storage DiskLog) :
    (s.evictOne logDisk).cache.accessCounter = s.cache.accessCounter := by
  rw [evictOne]
  split <;> rfl

/-- What a write does before it inserts its block: all stamps are then behind the counter. -/
def makeRoom (s : Storage DiskLog) (n : Nat) : Storage DiskLog :=
  if cacheSize ≤ s.tick.cache.cache.size ∧ !s.tick.cache.cache.contains n then
    s.tick.evictOne logDisk
  else s.tick

theorem write_logDisk (s : Storage DiskLog) (n : Nat) (data : Block) :
    (s.write logDisk n data).2 = (s.makeRoom n).insert n data true := rfl

theorem Stamped.makeRoom (hs : s.Stamped) (n : Nat) {m : Nat} {b : CachedBlock}
    (h : (s.makeRoom n).lookup m = some b) :
    b.accessCount < (s.makeRoom n).cache.accessCounter := by
  have hcounter : (s.makeRoom n).cache.accessCounter = s.cache.accessCounter + 1 := by
    rw [Storage.makeRoom]
    split
    · exact accessCounter_evictOne _
    · rfl
  have hlookup : s.lookup m = some b := by
    rw [Storage.makeRoom] at h
    split at h
    · exact (lookup_evictOne h : s.tick.lookup m = some b)
    · exact h
  rw [hcounter]
  exact Nat.lt_succ_of_le (hs m b hlookup)

theorem Stamped.evictOne (hs : s.Stamped) : (s.evictOne logDisk).Stamped := by
  intro n b hb
  rw [accessCounter_evictOne]
  exact hs n b (lookup_evictOne hb)

theorem Stamped.insert (hs : s.Stamped) (n : Nat) (data : Block) (dirty : Bool) :
    (s.insert n data dirty).Stamped := by
  intro m b hb
  rw [lookup_insert] at hb
  split at hb
  · obtain rfl := Option.some.inj hb
    exact Nat.le_refl _
  · exact hs m b hb

theorem Stamped.write (hs : s.Stamped) (n : Nat) (data : Block) :
    (s.write logDisk n data).2.Stamped := by
  rw [write_logDisk]
  exact Stamped.insert (fun _ _ hb => (hs.makeRoom n hb).le) n data true

theorem Stamped.flush (hs : s.Stamped) : (s.flush logDisk).2.Stamped := by
  rw [Storage.flush]
  split
  · exact hs
  · intro n b hb
    rw [lookup, getElem?_cleanBlocks_dirtyBlocks] at hb
    obtain ⟨b', hb', rfl⟩ := Option.map_eq_some_iff.mp hb
    exact hs n b' hb'

theorem Stamped.read (hs : s.Stamped) (n : Nat) : (s.read logDisk n).2.Stamped := by
  have htick : s.tick.Stamped := fun m b hb => Nat.le_succ_of_le (hs m b hb)
  rw [Storage.read]
  dsimp only
  split
  · intro m b hb
    rw [lookup, touch, Std.ExtTreeMap.getElem?_modify] at hb
    split at hb
    · obtain ⟨b', -, rfl⟩ := Option.map_eq_some_iff.mp hb
      exact Nat.le_refl _
    · exact htick m b hb
  · split
    · exact htick
    · next data device _ =>
      have hread : Stamped { s.tick with device } := htick
      refine Stamped.insert ?_ n data false
      split
      · exact hread.evictOne
      · exact hread

/-- Every use of the cache keeps the stamps behind the counter. -/
theorem stamped_run {device : VirtioBlkDevice DiskLog} (ops : List CacheOp) :
    (run logDisk (fresh device) ops).Stamped := by
  have hfresh : (fresh device).Stamped := fun n b hb => by
    simp [lookup, fresh, BlockCache.new] at hb
  rw [run]
  refine List.foldlRecOn ops (step logDisk) hfresh fun s hs op _ => ?_
  cases op with
  | read n => exact hs.read n
  | write n data => exact hs.write n data
  | flush => exact hs.flush

/-! ## The blocks that wait in the cache -/

/-- The cache in the middle of writing a list of blocks: of the first `k` the first `d` are on the
disk, and the others are the dirty blocks of the cache.  Their stamps grow with their numbers, and
clean blocks have smaller ones. -/
structure Queued (disk : DiskLog) (blocks : List Block) (d k : Nat) (s : Storage DiskLog) :
    Prop where
  le : d ≤ k
  queue : s.device.queue = disk.append (cells 0 (blocks.take d))
  dirty : ∀ n b, s.lookup n = some b → b.dirty = true →
    d ≤ n ∧ n < k ∧ blocks[n]? = some b.data
  waits : ∀ n, d ≤ n → n < k → ∃ b, s.lookup n = some b ∧ b.dirty = true
  older : ∀ n b m b', s.lookup n = some b → s.lookup m = some b' → b'.dirty = true →
    (b.dirty = true → n < m) → b.accessCount < b'.accessCount

theorem queued_of_clean (h : ∀ n b, s.lookup n = some b → b.dirty = false) (blocks : List Block) :
    Queued s.device.queue blocks 0 0 s where
  le := Nat.le_refl 0
  queue := by simp [DiskLog.append, cells]
  dirty n b hb hdirty := by simp [h n b hb] at hdirty
  waits n _ hn := absurd hn (Nat.not_lt_zero n)
  older n b m b' _ hb' hdirty := by simp [h m b' hb'] at hdirty

theorem Queued.tick (h : Queued disk blocks d k s) : Queued disk blocks d k s.tick :=
  ⟨h.le, h.queue, h.dirty, h.waits, h.older⟩

theorem lookup_evictOne_of_lru {num m : Nat} {b : CachedBlock} (h : s.lru = some (num, b)) :
    (s.evictOne logDisk).lookup m = if num = m then none else s.lookup m := by
  simp [evictOne, h, lookup, Std.ExtTreeMap.getElem?_erase]

/-- A dirty block that is evicted is the first of those that wait. -/
theorem Queued.eq_of_lru (h : Queued disk blocks d k s) {num : Nat} {b : CachedBlock}
    (hlru : s.lru = some (num, b)) (hdirty : b.dirty = true) : num = d := by
  have hb : s.lookup num = some b := lru_mem hlru
  obtain ⟨hd, hk, -⟩ := h.dirty num b hb hdirty
  obtain ⟨b', hb', hdirty'⟩ := h.waits d (Nat.le_refl d) (Nat.lt_of_le_of_lt hd hk)
  refine Nat.le_antisymm (Nat.not_lt.mp fun hlt => ?_) hd
  have hless : b'.accessCount < b.accessCount := h.older d b' num b hb' hb hdirty fun _ => hlt
  have hleast : b.accessCount ≤ b'.accessCount :=
    List.le_of_mem_argmin (f := fun p : Nat × CachedBlock => p.2.accessCount)
      (Std.ExtTreeMap.mem_toList_iff_getElem?_eq_some.mpr hb') hlru
  exact absurd hless (Nat.not_lt.mpr hleast)

/-- What is cached after an eviction was cached before, and is not the block that is evicted. -/
theorem lookup_of_lookup_evictOne {num m : Nat} {b b' : CachedBlock} (hlru : s.lru = some (num, b))
    (h : (s.evictOne logDisk).lookup m = some b') : num ≠ m ∧ s.lookup m = some b' := by
  rw [lookup_evictOne_of_lru hlru] at h
  split at h
  · cases h
  · next hne => exact ⟨hne, h⟩

/-- A clean block is dropped. -/
theorem Queued.evict_clean (h : Queued disk blocks d k s) {num : Nat} {b : CachedBlock}
    (hlru : s.lru = some (num, b)) (hdirty : b.dirty = false) :
    Queued disk blocks d k (s.evictOne logDisk) where
  le := h.le
  queue := by
    simpa [Storage.evictOne, hlru, hdirty] using h.queue
  dirty m b' hm := h.dirty m b' (lookup_of_lookup_evictOne hlru hm).2
  waits := by
    intro m hd hk
    obtain ⟨b', hb', hdirty'⟩ := h.waits m hd hk
    refine ⟨b', ?_, hdirty'⟩
    rw [lookup_evictOne_of_lru hlru, if_neg, hb']
    rintro rfl
    obtain rfl := Option.some.inj ((lru_mem hlru).symm.trans hb')
    rw [hdirty] at hdirty'
    cases hdirty'
  older n b m b' hn hm :=
    h.older n b m b' (lookup_of_lookup_evictOne hlru hn).2 (lookup_of_lookup_evictOne hlru hm).2

/-- A dirty block is written, and it is the first that waits. -/
theorem Queued.evict_dirty (h : Queued disk blocks d k s) (hs : s.LogSound capacity)
    {b : CachedBlock} (hlru : s.lru = some (d, b)) (hdirty : b.dirty = true) :
    Queued disk blocks (d + 1) k (s.evictOne logDisk) := by
  have hb : s.lookup d = some b := lru_mem hlru
  obtain ⟨-, hk, hdata⟩ := h.dirty d b hb hdirty
  have hcapacity : d < capacity := hs.inRange d (mem_cache_iff.mpr ⟨b, hb⟩)
  refine ⟨hk, ?_, fun m b' hm hdirty' => ?_, fun m hd hk => ?_, fun n b m b' hn hm => ?_⟩
  · have hqueue : (s.evictOne logDisk).device.queue = s.device.queue.append [(d, b.data)] := by
      simp [Storage.evictOne, hlru, hdirty, writeBlock_logDisk hs.up hcapacity]
    have hlength : (blocks.take d).length = d :=
      List.length_take_of_le (List.getElem?_eq_some_iff.mp hdata).1.le
    rw [hqueue, h.queue, DiskLog.append_append, List.take_add_one, hdata, cells_append, hlength,
      Nat.zero_add]
    rfl
  · obtain ⟨hne, hm⟩ := lookup_of_lookup_evictOne hlru hm
    obtain ⟨hd, hk, hdata'⟩ := h.dirty m b' hm hdirty'
    exact ⟨Nat.lt_of_le_of_ne hd hne, hk, hdata'⟩
  · obtain ⟨b', hb', hdirty'⟩ := h.waits m (Nat.le_of_succ_le hd) hk
    refine ⟨b', ?_, hdirty'⟩
    rw [lookup_evictOne_of_lru hlru, if_neg (by omega), hb']
  · exact h.older n b m b' (lookup_of_lookup_evictOne hlru hn).2
      (lookup_of_lookup_evictOne hlru hm).2

theorem Queued.evictOne (h : Queued disk blocks d k s) (hs : s.LogSound capacity) :
    ∃ d', Queued disk blocks d' k (s.evictOne logDisk) := by
  cases hlru : s.lru with
  | none =>
    rw [Storage.evictOne, hlru]
    exact ⟨d, h⟩
  | some p =>
    obtain ⟨num, b⟩ := p
    cases hdirty : b.dirty with
    | false => exact ⟨d, h.evict_clean hlru hdirty⟩
    | true =>
      obtain rfl := h.eq_of_lru hlru hdirty
      exact ⟨num + 1, h.evict_dirty hs hlru hdirty⟩

theorem Queued.insert (h : Queued disk blocks d k s)
    (hstamps : ∀ n b, s.lookup n = some b → b.accessCount < s.cache.accessCounter)
    (hdata : blocks[k]? = some data) : Queued disk blocks d (k + 1) (s.insert k data true) where
  le := Nat.le_succ_of_le h.le
  queue := h.queue
  dirty := by
    intro n b hb hdirty
    rw [lookup_insert] at hb
    split at hb
    · next heq =>
      obtain rfl := Option.some.inj hb
      exact heq ▸ ⟨h.le, Nat.lt_succ_self k, hdata⟩
    · obtain ⟨hd, hk, hn⟩ := h.dirty n b hb hdirty
      exact ⟨hd, Nat.lt_succ_of_lt hk, hn⟩
  waits := by
    intro n hd hk
    rw [lookup_insert]
    split
    · exact ⟨_, rfl, rfl⟩
    · next hne => exact h.waits n hd (by omega)
  older := by
    intro n b m b' hb hb' hdirty' hlt
    rw [lookup_insert] at hb hb'
    split at hb'
    · next heq =>
      obtain rfl := Option.some.inj hb'
      split at hb
      · next heq' =>
        obtain rfl := Option.some.inj hb
        exact absurd (hlt rfl) (by omega)
      · exact hstamps n b hb
    · split at hb
      · next heq =>
        obtain rfl := Option.some.inj hb
        have hm := (h.dirty m b' hb' hdirty').2.1
        exact absurd (hlt rfl) (by omega)
      · exact h.older n b m b' hb hb' hdirty' hlt

/-- Writing the next block queues it, perhaps after an eviction. -/
theorem Queued.write (h : Queued disk blocks d k s) (hs : s.LogSound capacity)
    (hstamped : s.Stamped) (hdata : blocks[k]? = some data) :
    ∃ d', Queued disk blocks d' (k + 1) (s.write logDisk k data).2 := by
  have hroom : ∃ d', Queued disk blocks d' k (s.makeRoom k) := by
    rw [makeRoom]
    split
    · exact h.tick.evictOne hs.tick
    · exact ⟨d, h.tick⟩
  obtain ⟨d', hd'⟩ := hroom
  rw [write_logDisk]
  exact ⟨d', hd'.insert (fun n b hb => hstamped.makeRoom k hb) hdata⟩

/-- Once all blocks have been written, the flush goes through those that wait in their order. -/
theorem Queued.dirtyBlocks_eq (h : Queued disk blocks d blocks.length s) :
    s.dirtyBlocks = cells d (blocks.drop d) := by
  have hordered : s.dirtyBlocks.Pairwise fun p q => compare p.1 q.1 = .lt := by
    rw [dirtyBlocks, List.pairwise_map]
    exact Std.ExtTreeMap.ordered_keys_toList.sublist List.filter_sublist
  refine Std.ExtTreeMap.eq_of_pairwise hordered
    (pairwise_cells.imp fun hlt => Nat.compare_eq_lt.mpr hlt) ?_
  rintro ⟨n, data⟩
  rw [mem_dirtyBlocks, mem_cells, List.getElem?_drop]
  constructor
  · rintro ⟨b, hb, hdirty, rfl⟩
    obtain ⟨hd, -, hdata⟩ := h.dirty n b hb hdirty
    rw [Nat.add_sub_cancel' hd]
    exact ⟨hd, hdata⟩
  · rintro ⟨hd, hdata⟩
    rw [Nat.add_sub_cancel' hd] at hdata
    obtain ⟨b, hb, hdirty⟩ := h.waits n hd (List.getElem?_eq_some_iff.mp hdata).1
    refine ⟨b, hb, hdirty, ?_⟩
    exact Option.some.inj ((h.dirty n b hb hdirty).2.2.symm.trans hdata)

/-- The flush writes what is left, in order. -/
theorem Queued.flush (h : Queued disk blocks d blocks.length s) (hs : s.LogSound capacity) :
    (s.flush logDisk).2.device.queue = disk.append (cells 0 blocks) := by
  have hqueue : s.device.queue.append s.dirtyBlocks = disk.append (cells 0 blocks) := by
    have hlength : (blocks.take d).length = d := List.length_take_of_le h.le
    rw [h.queue, DiskLog.append_append, h.dirtyBlocks_eq]
    conv_rhs => rw [← List.take_append_drop d blocks, cells_append, hlength, Nat.zero_add]
  rw [Storage.flush, writeBlocks_logDisk hs.dirtyBlocks_lt hs.up]
  exact hqueue

/-- Writing the rest of the blocks one after another. -/
theorem Queued.foldl (h : Queued disk blocks d k s) (hs : s.LogSound capacity)
    (hstamped : s.Stamped) (hroom : blocks.length ≤ capacity) {rest : List Block}
    (hrest : blocks.drop k = rest) :
    ∃ d' s', rest.foldl (fun c b => (writeNext logDisk b c).2) ⟨s, k⟩ = ⟨s', k + rest.length⟩ ∧
      Queued disk blocks d' (k + rest.length) s' ∧ s'.LogSound capacity ∧ s'.Stamped := by
  induction rest generalizing d k s with
  | nil => exact ⟨d, s, rfl, h, hs, hstamped⟩
  | cons b rest ih =>
    have hdata : blocks[k]? = some b := by
      rw [← List.head?_drop, hrest, List.head?_cons]
    have hk : k < blocks.length := (List.getElem?_eq_some_iff.mp hdata).1
    obtain ⟨d₁, h₁⟩ := h.write hs hstamped hdata
    obtain ⟨s₁, hwrite, hs₁, -⟩ := hs.write_spec (logDisk_reliable capacity) (hk.trans_le hroom) b
    have hstamped₁ := hstamped.write k b
    rw [hwrite] at h₁ hstamped₁
    have hrest₁ : blocks.drop (k + 1) = rest := by
      rw [← List.drop_drop, hrest, List.drop_one, List.tail_cons]
    obtain ⟨d', s', hfold, h', hs', hstamped'⟩ := ih h₁ hs₁ hstamped₁ hrest₁
    have hlength : k + (b :: rest).length = k + 1 + rest.length := by
      rw [List.length_cons]
      omega
    rw [hlength]
    refine ⟨d', s', ?_, h', hs', hstamped'⟩
    rw [List.foldl_cons, writeNext, hwrite]
    exact hfold

end Storage

namespace OxideFs

variable {capacity : Nat} {s : Storage DiskLog} {fs : OxideFs}

/-- The disk holds the image of the file system, and no block of the cache is dirty. -/
structure Synced (capacity : Nat) (fs : OxideFs) (s : Storage DiskLog) : Prop where
  sound : s.LogSound capacity
  stamped : s.Stamped
  clean : ∀ n b, s.lookup n = some b → b.dirty = false
  stored : Stored s.device.queue.sectors 0 fs.blocks

theorem foldl_stamped {k : Nat} (hs : s.Stamped) (blocks : List Block) :
    (blocks.foldl (fun c b => (writeNext logDisk b c).2) ⟨s, k⟩).storage.Stamped := by
  induction blocks generalizing s k with
  | nil => exact hs
  | cons b blocks ih => exact ih (hs.write k b)

theorem syncToDisk_eq (fs : OxideFs) (s : Storage DiskLog) :
    fs.syncToDisk logDisk s = ((fs.blocks.foldl (fun c b => (writeNext logDisk b c).2)
      ⟨s, 0⟩).storage.flush logDisk).2 := by
  rw [syncToDisk, StateT.run, emits_syncBlocks]

/-- A sync leaves a clean cache and the image on the disk. -/
theorem synced_of_sound (hs : s.LogSound capacity) (hstamped : s.Stamped)
    (hroom : fs.blocks.length ≤ capacity) : Synced capacity fs (fs.syncToDisk logDisk s) := by
  have hio := logDisk_reliable capacity
  obtain ⟨-, hstored⟩ := syncToDisk_spec hio hs hroom
  obtain ⟨s₁, hrun, hs₁, -⟩ := (emits_syncBlocks fs).writes hio s 0 hs (by omega)
  obtain ⟨s₂, hflush, hs₂, -⟩ := hs₁.flush_spec hio
  have hstamped₁ : s₁.Stamped := by
    have hfold := foldl_stamped (k := 0) hstamped fs.blocks
    rw [emits_syncBlocks, Prod.mk.injEq] at hrun
    rwa [hrun.2] at hfold
  have hsync : fs.syncToDisk logDisk s = (s₁.flush logDisk).2 := by
    rw [syncToDisk, StateT.run, hrun]
  rw [hsync] at hstored ⊢
  refine ⟨?_, hstamped₁.flush, fun n b hb => hs₁.clean_flush hb, hstored⟩
  rwa [hflush]

/-- **A sync makes a storage synced**, whatever the cache was used for before. -/
theorem synced_syncToDisk {device : VirtioBlkDevice DiskLog}
    (hdevice : device.Up capacity fun _ => True) (ops : List CacheOp)
    (hops : ∀ op ∈ ops, op.InRange capacity) (hroom : fs.blocks.length ≤ capacity) :
    Synced capacity fs (fs.syncToDisk logDisk (Storage.run logDisk (Storage.fresh device) ops)) :=
  synced_of_sound (Storage.sound_run (logDisk_reliable capacity) hdevice hops).1
    (Storage.stamped_run ops) hroom

/-- **The writes of a sync are the blocks of the image, in their order.** -/
theorem writes_syncToDisk {fs' : OxideFs} (hs : Synced capacity fs s)
    (hroom : fs'.blocks.length ≤ capacity) :
    (fs'.syncToDisk logDisk s).device.queue =
      s.device.queue.append (cells 0 fs'.blocks) := by
  obtain ⟨d, s', hfold, h, hs', -⟩ := (Storage.queued_of_clean hs.clean fs'.blocks).foldl hs.sound
    hs.stamped hroom rfl
  rw [List.drop_zero, Nat.zero_add] at hfold h
  rw [syncToDisk_eq, hfold, h.flush hs']

end OxideFs

end OxideOS
