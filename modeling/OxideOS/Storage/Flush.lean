import OxideOS.Storage.Acknowledged
import Mathlib.Data.Set.Card

/-!
# Flushes that fail

A flush writes the dirty blocks one after the other, and stops at the first that the device refuses.
Only when all have been written are their marks cleared.  So a flush that fails leaves the cache as
it was: some sectors may have been written by then, but behind blocks that are still dirty, where
nobody sees them.  A later flush writes them all once more.

## Main definitions

* `Storage.AllOrNothing`: what a flush returns, and what it does in either case

## Main results

* `Storage.allOrNothing`: in every state of the cache and the device
* `Storage.coherent_run`: clean blocks are as on the device, over any disk
* `Storage.flush_all_or_nothing`
-/

namespace OxideOS

namespace Storage

variable {H : Type} {io : BlockIo H} {sector : H → Nat → Block} {s s' : Storage H} {n : Nat}
  {data : Block}

/-- The block is cached and has not been written back. -/
def Dirty (s : Storage H) (n : Nat) : Prop := ∃ b, s.lookup n = some b ∧ b.dirty = true

/-- A flush returns the number of dirty blocks, and then no block is dirty any more, all have their
data, and those that were dirty are on the device; or it fails, and then the cache is as it was.  In
either case a reader sees what it saw before. -/
def AllOrNothing (io : BlockIo H) (sector : H → Nat → Block) (s : Storage H) : Prop :=
  (s.flush io).2.view sector = s.view sector ∧
    match s.flush io with
    | (.ok count, s') => count = {n | s.Dirty n}.ncard ∧ (∀ n, ¬s'.Dirty n) ∧
      (∀ n, (s'.lookup n).map CachedBlock.data = (s.lookup n).map CachedBlock.data) ∧
      ∀ n b, s.lookup n = some b → b.dirty = true → sector s'.device.queue n = b.data
    | (.error _, s') => s'.cache = s.cache

/-! ## One flush -/

theorem length_dirtyBlocks (s : Storage H) : s.dirtyBlocks.length = {n | s.Dirty n}.ncard := by
  have hset : {n | s.Dirty n} = ((s.dirtyBlocks.map Prod.fst).toFinset : Set Nat) := by
    ext n
    rw [List.coe_toFinset, Set.mem_ofPred_eq, Set.mem_ofPred_eq]
    constructor
    · rintro ⟨b, hb, hdirty⟩
      exact List.mem_map.mpr ⟨(n, b.data), mem_dirtyBlocks.mpr ⟨b, hb, hdirty, rfl⟩, rfl⟩
    · intro hn
      obtain ⟨⟨m, data⟩, hmem, rfl⟩ := List.mem_map.mp hn
      obtain ⟨b, hb, hdirty, -⟩ := mem_dirtyBlocks.mp hmem
      exact ⟨b, hb, hdirty⟩
  rw [hset, Set.ncard_coe_finset, List.toFinset_card_of_nodup nodup_dirtyBlocks, List.length_map]

/-- What a flush that succeeds leaves: the abstract cache is flushed, and no block is dirty. -/
theorem flush_of_ok {count : Nat} (hio : FallibleIo io sector)
    (h : s.flush io = (.ok count, s')) :
    count = s.dirtyBlocks.length ∧ s'.writeBack sector = (s.writeBack sector).flush ∧
      ∀ n, s'.lookup n = (s.lookup n).map CachedBlock.clean := by
  rcases hwrite : writeBlocks io s.device s.dirtyBlocks with ⟨result, device⟩
  rw [flush, hwrite] at h
  cases result with
  | error e => cases h
  | ok _ =>
    obtain ⟨hcount, rfl⟩ := Prod.mk.inj h
    refine ⟨(Except.ok.inj hcount).symm, ?_, fun n => getElem?_cleanBlocks_dirtyBlocks⟩
    exact writeBack_cleanBlocks ((writeBlocks_fallible hio hwrite).2.2 rfl)

/-- What a flush that fails leaves: only sectors behind dirty blocks may have changed. -/
theorem flush_of_error {e : String} (hio : FallibleIo io sector)
    (h : s.flush io = (.error e, s')) :
    s'.cache = s.cache ∧ ∀ j, (∃ x, (s.writeBack sector).cached j = some (x, true)) ∨
      sector s'.device.queue j = (s.writeBack sector).backing j := by
  rcases hwrite : writeBlocks io s.device s.dirtyBlocks with ⟨result, device⟩
  rw [flush, hwrite] at h
  cases result with
  | error e =>
    obtain ⟨-, rfl⟩ := Prod.mk.inj h
    exact ⟨rfl, dirty_or_sector_eq hio hwrite⟩
  | ok _ => cases h

/-- The abstract cache over other sectors. -/
theorem writeBack_of_cache_eq (h : s'.cache = s.cache) :
    s'.writeBack sector = { s.writeBack sector with backing := sector s'.device.queue } := by
  refine congrArg₂ WriteBack.mk (funext fun n => ?_) rfl
  show s'.cache.cache[n]?.map _ = s.cache.cache[n]?.map _
  rw [h]

/-- **All or nothing**, whatever the cache and the device hold and whichever writes fail. -/
theorem allOrNothing (hio : FallibleIo io sector) (s : Storage H) : s.AllOrNothing io sector := by
  rcases hflush : s.flush io with ⟨result, s'⟩
  rw [AllOrNothing, hflush]
  cases result with
  | ok count =>
    obtain ⟨hcount, hwb, hlookup⟩ := flush_of_ok hio hflush
    refine ⟨by rw [view, hwb, WriteBack.view_flush, view],
      hcount.trans (length_dirtyBlocks s), ?_, ?_, ?_⟩
    · rintro n ⟨b, hb, hdirty⟩
      rw [hlookup, Option.map_eq_some_iff] at hb
      obtain ⟨b', -, rfl⟩ := hb
      cases hdirty
    · intro n
      rw [hlookup, Option.map_map]
      rfl
    · intro n b hb hdirty
      have hbacking : sector s'.device.queue n = (s.writeBack sector).flush.backing n :=
        congrArg (fun w : WriteBack Nat Block => w.backing n) hwb
      rw [hbacking]
      simp [WriteBack.flush, writeBack, hb, hdirty]
  | error e =>
    obtain ⟨hcache, hbacking⟩ := flush_of_error hio hflush
    refine ⟨?_, hcache⟩
    rw [view, writeBack_of_cache_eq hcache, WriteBack.view_of_backing hbacking, view]

/-! ## Clean blocks are as on the device -/

theorem coherent_evictOne (hio : FallibleIo io sector) (h : (s.writeBack sector).Coherent) :
    ((s.evictOne io).writeBack sector).Coherent := by
  rcases hlru : s.lru with _ | ⟨num, block⟩
  · rwa [evictOne, hlru]
  · rw [writeBack_evictOne hlru]
    refine h.drop fun j hj => ((evictOne_device hio s).2 j).resolve_left ?_
    rintro ⟨block', hlru', -⟩
    obtain ⟨rfl, -⟩ := Prod.mk.inj (Option.some.inj (hlru.symm.trans hlru'))
    exact hj rfl

/-- Making room or not. -/
theorem coherent_makeRoom (hio : FallibleIo io sector) (full : Prop) [Decidable full]
    (h : (s.writeBack sector).Coherent) :
    ((if full then s.evictOne io else s).writeBack sector).Coherent := by
  split
  · exact coherent_evictOne hio h
  · exact h

theorem coherent_read (hio : FallibleIo io sector) (h : (s.writeBack sector).Coherent) (n : Nat) :
    ((s.read io n).2.writeBack sector).Coherent := by
  have htick : s.tick.lookup n = s.lookup n := rfl
  cases hlookup : s.lookup n with
  | some b =>
    rw [read, htick, hlookup, writeBack_touch]
    exact h
  | none =>
    rcases hread : s.tick.device.readBlock io n with ⟨result, device⟩
    obtain ⟨-, hsector, hdata⟩ := VirtioBlkDevice.readBlock_fallible hio hread
    have hwb : writeBack sector { s.tick with device } = s.writeBack sector :=
      congrArg (WriteBack.mk _) hsector
    rw [read, htick, hlookup, hread]
    cases result with
    | error e =>
      show (writeBack sector { s.tick with device }).Coherent
      rw [hwb]
      exact h
    | ok data =>
      have hroom := coherent_makeRoom (s := { s.tick with device }) hio
        (cacheSize ≤ s.cache.cache.size) (by rw [hwb]; exact h)
      have hnone : lookup { s.tick with device } n = none := hlookup
      have hkept : sector (if cacheSize ≤ s.cache.cache.size
          then evictOne io { s.tick with device } else { s.tick with device }).device.queue n =
            data := by
        rw [hdata data rfl]
        split
        · exact (sector_evictOne_of_none hio hnone).trans (congrFun hsector n)
        · exact congrFun hsector n
      dsimp only
      rw [writeBack_insert, ← hkept]
      exact hroom.fill

theorem coherent_write (hio : FallibleIo io sector) (h : (s.writeBack sector).Coherent) (n : Nat)
    (data : Block) : ((s.write io n data).2.writeBack sector).Coherent := by
  have hroom := coherent_makeRoom (s := s.tick) hio
    (cacheSize ≤ s.tick.cache.cache.size ∧ !s.tick.cache.cache.contains n) h
  rw [write]
  dsimp only
  rw [writeBack_insert]
  exact hroom.put

theorem coherent_flush (hio : FallibleIo io sector) (h : (s.writeBack sector).Coherent) :
    ((s.flush io).2.writeBack sector).Coherent := by
  rcases hflush : s.flush io with ⟨result, s'⟩
  cases result with
  | ok count =>
    rw [(flush_of_ok hio hflush).2.1]
    exact h.flush
  | error e =>
    obtain ⟨hcache, hbacking⟩ := flush_of_error hio hflush
    rw [writeBack_of_cache_eq hcache]
    exact h.of_backing hbacking

theorem coherent_step (hio : FallibleIo io sector) (h : (s.writeBack sector).Coherent)
    (op : CacheOp) : ((s.step io op).writeBack sector).Coherent := by
  cases op with
  | read n => exact coherent_read hio h n
  | write n data => exact coherent_write hio h n data
  | flush => exact coherent_flush hio h

/-- **Clean blocks are as on the device** after any calls, whichever transfers fail. -/
theorem coherent_run (hio : FallibleIo io sector) (h : (s.writeBack sector).Coherent)
    (ops : List CacheOp) : ((run io s ops).writeBack sector).Coherent := by
  induction ops generalizing s with
  | nil => exact h
  | cons op ops ih => exact ih (coherent_step hio h op)

theorem coherent_fresh (device : VirtioBlkDevice H) :
    ((fresh device).writeBack sector).Coherent := by
  intro n x hn
  simp [writeBack, lookup, fresh, BlockCache.new] at hn

/-- A flush that succeeds leaves on the device what a reader sees. -/
theorem sector_flush_of_ok {count : Nat} (hio : FallibleIo io sector)
    (h : (s.writeBack sector).Coherent) (hok : (s.flush io).1 = .ok count) :
    sector (s.flush io).2.device.queue = s.view sector := by
  rcases hflush : s.flush io with ⟨result, s'⟩
  rw [hflush] at hok
  obtain rfl : result = .ok count := hok
  have hbacking := congrArg WriteBack.backing (flush_of_ok hio hflush).2.1
  exact hbacking.trans (WriteBack.backing_flush h)

/-- **Flushes are all or nothing for the cache**, over a disk any of whose transfers may fail: in
every state of the cache and the device a flush does all or nothing, and a reader sees no
difference; and after a flush that has failed, and any calls behind it, a flush that succeeds leaves
on the device what a reader sees. -/
theorem flush_all_or_nothing (hio : FallibleIo io sector) :
    (∀ s : Storage H, s.AllOrNothing io sector) ∧
      ∀ (device : VirtioBlkDevice H) (ops : List CacheOp) (e : String),
        ((run io (fresh device) ops).flush io).1 = .error e →
        ∀ (ops' : List CacheOp) (count : Nat),
          let s := run io ((run io (fresh device) ops).flush io).2 ops'
          (s.flush io).1 = .ok count → sector (s.flush io).2.device.queue = s.view sector := by
  refine ⟨allOrNothing hio, fun device ops e _ ops' count => ?_⟩
  have hcoherent := coherent_flush hio (coherent_run hio (coherent_fresh device) ops)
  exact sector_flush_of_ok hio (coherent_run hio hcoherent ops')

end Storage

/-! ## A disk that fails for a while -/

/-- A disk in memory that refuses the first writes. -/
def flakyDisk : BlockIo (Nat × (Nat → Block)) where
  doBlockIo h reqType n buf :=
    match reqType, h.1 with
    | .read, _ => (.ok (h.2 n), h)
    | .write, 0 => (.ok buf, (0, Function.update h.2 n buf))
    | .write, left + 1 => (.error "virtio-blk: I/O error", (left, h.2))

theorem flakyDisk_fallible : FallibleIo flakyDisk Prod.snd where
  read := by
    rintro h n buf result h' heq
    obtain ⟨rfl, rfl⟩ := Prod.mk.inj heq
    exact ⟨rfl, fun data hdata => (Except.ok.inj hdata).symm⟩
  write := by
    rintro ⟨_ | left, sectors⟩ n buf result h' heq
    · obtain ⟨-, rfl⟩ := Prod.mk.inj heq
      exact ⟨fun m hm => Function.update_of_ne hm _ _, fun _ _ => Function.update_self ..⟩
    · obtain ⟨rfl, rfl⟩ := Prod.mk.inj heq
      refine ⟨fun _ _ => rfl, ?_⟩
      rintro buf' ⟨⟩

namespace Storage

/-- A device over a disk that refuses the first write. -/
def flakyDevice : VirtioBlkDevice (Nat × (Nat → Block)) where
  initialized := true
  capacityBlocks := 8
  queue := (1, fun _ => Block.zero)

/-- A flush fails, another block is written, and the next flush writes both. -/
theorem flush_all_or_nothing_retry :
    let s := run flakyDisk (fresh flakyDevice) [.write 3 (Block.filled 1)]
    let s' := run flakyDisk (s.flush flakyDisk).2 [.write 4 (Block.filled 2)]
    (s.flush flakyDisk).1 = .error "virtio-blk: I/O error" ∧
      (s'.flush flakyDisk).1 = .ok 2 ∧
      (s'.flush flakyDisk).2.device.queue.2 = s'.view Prod.snd := by
  intro s s'
  have herror : (s.flush flakyDisk).1 = .error "virtio-blk: I/O error" := by decide +kernel
  have hok : (s'.flush flakyDisk).1 = .ok 2 := by decide +kernel
  exact ⟨herror, hok, (flush_all_or_nothing flakyDisk_fallible).2 flakyDevice
    [.write 3 (Block.filled 1)] _ herror [.write 4 (Block.filled 2)] 2 hok⟩

end Storage

end OxideOS
