import OxideOS.Lib.Recency
import OxideOS.Lib.TransitionSystem
import OxideOS.Storage.BlockCache

/-!
# Least-recently-used eviction

The cache stamps a block with the access counter whenever it is read or written, and drops the block
with the least stamp when it is full.  The stamps rank the cached blocks by their last access, so
what is cached is what was accessed most recently.  Nothing is assumed of the device but that it
delivers the blocks that are read: write-backs may fail, of flushes and of evictions.

## Main definitions

* `Storage.stamp`: the access counts of the cached blocks
* `CacheOp.accessed`: the blocks that calls access, in order
* `Storage.readable`: the runs in which every read succeeds

## Main results

* `Storage.stamp_evictOne`: eviction drops the block with the least stamp
* `Storage.ranked_step`, `Storage.ranked_run`: the cached blocks are ranked by their last access
* `Storage.cached_iff_recent`: the cache holds the 256 most recently accessed blocks
-/

namespace OxideOS

namespace CacheOp

/-- The block that a call accesses. -/
def block : CacheOp → Option Nat
  | .read n => some n
  | .write n _ => some n
  | .flush => none

/-- The blocks that calls access, in order. -/
def accessed (ops : List CacheOp) : List Nat := ops.filterMap block

end CacheOp

namespace Storage

variable {H : Type} {io : BlockIo H} {s t : Storage H} {n : Nat} {xs : List Nat}
  {now now' : Nat} {device : VirtioBlkDevice H}

/-- The access count of a block, if it is cached. -/
def stamp (s : Storage H) (n : Nat) : Option Nat := (s.lookup n).map (·.accessCount)

theorem stamp_insert (s : Storage H) (n : Nat) (data : Block) (dirty : Bool) :
    (s.insert n data dirty).stamp =
      Function.update s.stamp n (some s.cache.accessCounter) := by
  funext m
  rw [stamp, lookup_insert, Function.update_apply]
  by_cases hm : m = n
  · simp [hm]
  · simp [hm, Ne.symm hm, stamp]

theorem stamp_touch {b : CachedBlock} (h : s.lookup n = some b) :
    (s.touch n).stamp = Function.update s.stamp n (some s.cache.accessCounter) := by
  funext m
  rw [Function.update_apply]
  simp only [stamp, lookup, touch, Std.ExtTreeMap.getElem?_modify,
    Std.LawfulEqCmp.compare_eq_iff_eq]
  by_cases hm : m = n
  · subst hm
    have hlookup : s.cache.cache[m]? = some b := h
    simp [hlookup]
  · simp [hm, Ne.symm hm]

/-- A flush clears dirty marks at most. -/
theorem stamp_flush (io : BlockIo H) (s : Storage H) :
    (s.flush io).2.stamp = s.stamp ∧
      (s.flush io).2.cache.accessCounter = s.cache.accessCounter := by
  rw [flush]
  split
  · exact ⟨rfl, rfl⟩
  · refine ⟨funext fun n => ?_, rfl⟩
    change (cleanBlocks s.cache.cache s.dirtyBlocks)[n]?.map _ = _
    rw [getElem?_cleanBlocks_dirtyBlocks, Option.map_map]
    rfl

/-- Eviction drops the block with the least stamp, whether the write-back succeeds or not. -/
theorem stamp_evictOne (io : BlockIo H) (hsize : 0 < s.cache.cache.size) :
    ∃ m a, s.stamp m = some a ∧ (∀ n b, s.stamp n = some b → a ≤ b) ∧
      (s.evictOne io).stamp = Function.update s.stamp m none ∧
      (s.evictOne io).cache.accessCounter = s.cache.accessCounter := by
  rcases hlru : s.lru with _ | ⟨m, block⟩
  · have hnil : s.cache.cache.toList = [] := List.argmin_eq_none.mp hlru
    rw [← Std.ExtTreeMap.length_toList, hnil] at hsize
    exact absurd hsize (Nat.lt_irrefl 0)
  · refine ⟨m, block.accessCount, ?_, fun n b hb => ?_, funext fun n => ?_, ?_⟩
    · rw [stamp, lru_mem hlru, Option.map_some]
    · obtain ⟨cached, hcached, rfl⟩ := Option.map_eq_some_iff.mp hb
      have hmem : (n, cached) ∈ s.cache.cache.toList :=
        Std.ExtTreeMap.mem_toList_iff_getElem?_eq_some.mpr hcached
      exact List.le_of_mem_argmin (f := fun p => p.2.accessCount) hmem hlru
    · rw [Function.update_apply]
      simp only [stamp, lookup, evictOne, hlru, Std.ExtTreeMap.getElem?_erase,
        Std.LawfulEqCmp.compare_eq_iff_eq]
      by_cases hn : n = m
      · simp [hn]
      · simp [hn, Ne.symm hn]
    · rw [evictOne, hlru]

/-- The list ranks the cached blocks, none of them accessed after `now`. -/
def RankedAt (s : Storage H) (now : Nat) (xs : List Nat) : Prop := Ranked s.stamp now xs

theorem RankedAt.mem_iff (h : s.RankedAt now xs) : n ∈ s.cache.cache ↔ n ∈ xs := by
  rw [Ranked.mem_iff h, stamp, Option.isSome_map, Std.ExtTreeMap.mem_iff_isSome_getElem?, lookup]

/-- The cache holds as many blocks as are ranked. -/
theorem RankedAt.size_eq (h : s.RankedAt now xs) : s.cache.cache.size = xs.length := by
  have hperm : (s.cache.cache.toList.map Prod.fst).Perm xs := by
    refine (List.perm_ext_iff_of_nodup (Std.ExtTreeMap.nodup_keys_toList _) h.nodup).mpr
      fun n => ?_
    rw [← h.mem_iff]
    simp
  rw [← Std.ExtTreeMap.length_toList, ← hperm.length_eq, List.length_map]

/-- Room is made by dropping the last block of the ranking, if the cache is full. -/
theorem RankedAt.makeRoom (h : s.RankedAt now xs) (io : BlockIo H)
    (hlength : xs.length ≤ cacheSize) :
    RankedAt (if cacheSize ≤ s.cache.cache.size then s.evictOne io else s) now
      (xs.take (cacheSize - 1)) := by
  split
  · next hfull =>
    obtain ⟨m, a, hm, hleast, hstamp, -⟩ :=
      stamp_evictOne io (Nat.lt_of_lt_of_le (by decide) hfull)
    rw [h.size_eq] at hfull
    have hdrop : xs.take (cacheSize - 1) = xs.dropLast := by
      rw [List.dropLast_eq_take, Nat.le_antisymm hlength hfull]
    rw [RankedAt, hstamp, hdrop]
    exact h.drop_least hm hleast
  · next hfree =>
    rw [h.size_eq] at hfree
    rw [List.take_of_length_le (by omega)]
    exact h

theorem accessCounter_makeRoom (io : BlockIo H) (s : Storage H) :
    (if cacheSize ≤ s.cache.cache.size then s.evictOne io else s).cache.accessCounter =
      s.cache.accessCounter := by
  split
  · next hfull =>
    obtain ⟨_, _, -, -, -, hcounter⟩ := stamp_evictOne io (Nat.lt_of_lt_of_le (by decide) hfull)
    exact hcounter
  · rfl

/-- A block that is cached moves to the front of the ranking. -/
theorem RankedAt.hit (h : s.RankedAt now xs) (hn : n ∈ xs) (hlength : xs.length ≤ cacheSize)
    (hnow : now < now') (hstamp : t.stamp = Function.update s.stamp n (some now')) :
    t.RankedAt now' (n :: (xs.erase n).take (cacheSize - 1)) := by
  have herase : (xs.erase n).length ≤ cacheSize - 1 := by
    rw [List.length_erase_of_mem hn]
    exact Nat.sub_le_sub_right hlength 1
  rw [RankedAt, hstamp, List.take_of_length_le herase]
  exact h.stamp_update n hnow

/-- A block that is not takes the place of the last one. -/
theorem RankedAt.miss (h : s.RankedAt now (xs.take (cacheSize - 1))) (hn : n ∉ xs)
    (hnow : now < s.cache.accessCounter) (data : Block) (dirty : Bool) :
    (s.insert n data dirty).RankedAt s.cache.accessCounter
      (n :: (xs.erase n).take (cacheSize - 1)) := by
  have herase : (xs.take (cacheSize - 1)).erase n = (xs.erase n).take (cacheSize - 1) := by
    rw [List.erase_of_not_mem hn, List.erase_of_not_mem fun hmem => hn (List.mem_of_mem_take hmem)]
  rw [RankedAt, stamp_insert, ← herase]
  exact h.stamp_update n hnow

/-- The list ranks the cached blocks by their last access. -/
def RankedBy (s : Storage H) (xs : List Nat) : Prop := s.RankedAt s.cache.accessCounter xs

/-- A read that succeeds moves its block to the front. -/
theorem RankedBy.read (h : s.RankedBy xs) (hlength : xs.length ≤ cacheSize) {data : Block}
    (hok : (s.read io n).1 = .ok data) :
    (s.read io n).2.RankedBy (n :: (xs.erase n).take (cacheSize - 1)) := by
  have htick : s.tick.RankedAt s.cache.accessCounter xs := h
  rw [Storage.read] at hok ⊢
  cases hlookup : s.tick.lookup n with
  | some cached =>
    have hmem : n ∈ xs := htick.mem_iff.mp (mem_cache_iff.mpr ⟨cached, hlookup⟩)
    exact htick.hit hmem hlength (Nat.lt_succ_self _) (stamp_touch hlookup)
  | none =>
    have hmem : n ∉ xs := fun hin => by
      obtain ⟨b, hb⟩ := mem_cache_iff.mp (htick.mem_iff.mpr hin)
      rw [hlookup] at hb
      cases hb
    simp only [hlookup] at hok ⊢
    rcases hread : s.tick.device.readBlock io n with ⟨_ | block, device⟩
    · rw [hread] at hok
      cases hok
    · have hroom := RankedAt.makeRoom (s := { s.tick with device }) htick io hlength
      have hcounter := accessCounter_makeRoom io { s.tick with device }
      exact hroom.miss hmem (hcounter ▸ Nat.lt_succ_self _) block false

/-- So does a write. -/
theorem RankedBy.write (h : s.RankedBy xs) (hlength : xs.length ≤ cacheSize) (data : Block) :
    (s.write io n data).2.RankedBy (n :: (xs.erase n).take (cacheSize - 1)) := by
  have htick : s.tick.RankedAt s.cache.accessCounter xs := h
  rw [Storage.write]
  by_cases hmem : n ∈ xs
  · have hcontains : s.tick.cache.cache.contains n = true :=
      Std.ExtTreeMap.contains_iff_mem.mpr (htick.mem_iff.mpr hmem)
    simp only [hcontains, Bool.not_true, Bool.false_eq_true, and_false, if_false]
    exact htick.hit hmem hlength (Nat.lt_succ_self _) (s.tick.stamp_insert n data true)
  · have hcontains : s.tick.cache.cache.contains n = false := by
      rw [Bool.eq_false_iff, ne_eq, Std.ExtTreeMap.contains_iff_mem, htick.mem_iff]
      exact hmem
    have hroom := htick.makeRoom io hlength
    have hcounter := accessCounter_makeRoom io s.tick
    simp only [hcontains, Bool.not_false, and_true]
    exact hroom.miss hmem (hcounter ▸ Nat.lt_succ_self _) data true

/-- The calls on a fresh cache, of which every read succeeds. -/
def readable (io : BlockIo H) (device : VirtioBlkDevice H) : TransitionSystem (Storage H) CacheOp :=
  (TransitionSystem.ofFun (fresh device) (step io)).restrict fun s op =>
    ∀ n, op = .read n → ∃ data, (s.read io n).1 = .ok data

/-- **One call** moves the block that it accesses to the front. -/
theorem ranked_step {accesses : List Nat} {op : CacheOp}
    (h : s.RankedBy (recent cacheSize accesses)) (hstep : (readable io device).Step s op t) :
    t.RankedBy (recent cacheSize (accesses ++ op.block.toList)) := by
  obtain ⟨hstep, hread⟩ := hstep
  obtain rfl : s.step io op = t := hstep
  have hconcat : ∀ n, recent cacheSize (accesses ++ [n]) =
      n :: ((recent cacheSize accesses).erase n).take (cacheSize - 1) :=
    recent_concat (cacheSize - 1) accesses
  cases op with
  | read n =>
    obtain ⟨data, hok⟩ := hread n rfl
    exact (hconcat n).symm ▸ h.read length_recent_le hok
  | write n data => exact (hconcat n).symm ▸ h.write length_recent_le data
  | flush =>
    obtain ⟨hstamp, hcounter⟩ := stamp_flush io s
    rw [CacheOp.block, Option.toList_none, List.append_nil, RankedBy, RankedAt, Storage.step,
      hstamp, hcounter]
    exact h

/-- **Any calls** leave the blocks ranked that were accessed last. -/
theorem ranked_run {ops : List CacheOp} {accesses : List Nat}
    (h : s.RankedBy (recent cacheSize accesses)) (hrun : (readable io device).Run s ops t) :
    t.RankedBy (recent cacheSize (accesses ++ CacheOp.accessed ops)) := by
  induction hrun generalizing accesses with
  | nil s =>
    rw [CacheOp.accessed, List.filterMap_nil, List.append_nil]
    exact h
  | @cons s u t op ops hstep _ ih =>
    have hrest := ih (ranked_step h hstep)
    rw [List.append_assoc] at hrest
    have haccessed : CacheOp.accessed (op :: ops) = op.block.toList ++ CacheOp.accessed ops := by
      cases op <;> rfl
    rw [haccessed]
    exact hrest

theorem rankedBy_fresh (device : VirtioBlkDevice H) : (fresh device).RankedBy [] := by
  refine ⟨fun n => ?_, .nil, fun n a ha => ?_⟩ <;> simp_all [stamp, lookup, fresh, BlockCache.new]

/-- **Eviction is least-recently-used.**  After any calls of which the reads succeed, the cache
holds exactly the 256 most recently accessed blocks, every read and write counting as an access; the
access counts of the cached blocks are distinct, and none is above the counter. -/
theorem cached_iff_recent {ops : List CacheOp}
    (hrun : (readable io device).Run (fresh device) ops s) :
    (∀ n, n ∈ s.cache.cache ↔ n ∈ recent 256 (CacheOp.accessed ops)) ∧
      (∀ m n b c, s.lookup m = some b → s.lookup n = some c → m ≠ n →
        b.accessCount ≠ c.accessCount) ∧
      ∀ n b, s.lookup n = some b → b.accessCount ≤ s.cache.accessCounter := by
  have hranked : s.RankedBy (recent cacheSize ([] ++ CacheOp.accessed ops)) :=
    ranked_run (rankedBy_fresh device) hrun
  have hstamp : ∀ {n b}, s.lookup n = some b → s.stamp n = some b.accessCount := fun h => by
    rw [stamp, h, Option.map_some]
  refine ⟨fun n => hranked.mem_iff, fun m n b c hm hn hne heq => ?_, fun n b hn => ?_⟩
  · exact hne (Ranked.stamp_inj hranked (hstamp hm) (heq ▸ hstamp hn))
  · exact Ranked.le_now hranked n _ (hstamp hn)

/-- On a reliable disk every read succeeds. -/
theorem run_readable {capacity : Nat} {ready : H → Prop} {sector : H → Nat → Block}
    (hio : ReliableIo io capacity ready sector) (hdevice : device.Up capacity ready)
    {ops : List CacheOp} (hops : ∀ op ∈ ops, op.InRange capacity) :
    (readable io device).Run (fresh device) ops (run io (fresh device) ops) := by
  induction ops using List.reverseRecOn with
  | nil => exact .nil _
  | append_singleton ops op ih =>
    rw [List.forall_mem_append, List.forall_mem_singleton] at hops
    have hsound := (sound_run hio hdevice hops.1).1
    rw [run, List.foldl_append]
    refine (ih hops.1).snoc ⟨rfl, ?_⟩
    rintro n rfl
    obtain ⟨s', hread, -⟩ := hsound.read_spec hio hops.2
    exact ⟨_, congrArg Prod.fst hread⟩

/-- The cache is filled, its first block is read again, and another one is written. -/
def rereads : List CacheOp :=
  (List.range 256).map (.write · Block.zero) ++ [.read 0, .write 256 Block.zero]

/-- The second block is evicted, and not the first. -/
theorem cached_iff_recent_rereads :
    0 ∈ (run ramDisk (fresh (ramDevice 257)) rereads).cache.cache ∧
      1 ∉ (run ramDisk (fresh (ramDevice 257)) rereads).cache.cache := by
  have hops : ∀ op ∈ rereads, op.InRange 257 := by
    intro op hop
    simp only [rereads, List.mem_append, List.mem_map, List.mem_range, List.mem_cons,
      List.not_mem_nil, or_false] at hop
    rcases hop with ⟨n, hn, rfl⟩ | rfl | rfl
    · exact hn.trans (by decide)
    · exact Nat.zero_lt_succ _
    · exact Nat.lt_succ_self _
  have hrecent : recent 256 (CacheOp.accessed rereads) =
      ((((List.range 256).erase 0 ++ [0]).erase 256) ++ [256]).reverse.take 256 := by
    have haccessed : CacheOp.accessed rereads = List.range 256 ++ [0] ++ [256] := by
      decide +kernel
    rw [recent, haccessed, dedup_concat, dedup_concat, List.nodup_range.dedup]
  obtain ⟨hcached, -⟩ :=
    cached_iff_recent (run_readable (ramDisk_reliable 257) (ramDevice_up 257) hops)
  rw [hcached, hcached, hrecent]
  decide +kernel

end Storage

end OxideOS
