import OxideOS.Lib.TransitionSystem
import OxideOS.Storage.BlockCache

/-!
# Acknowledged writes

The cache acknowledges a write before the device has seen any of it; the data reaches the device
when a flush or an eviction writes it back.  A flush that fails keeps its blocks dirty.  But
`evict_one` drops its block whether or not the write-back has succeeded, so over a disk that may
fail a write is safe only as long as the write-backs of evictions succeed.

## Main definitions

* `FallibleIo`: a disk any of whose transfers may fail
* `Storage.ackStep`, `Storage.ackSystem`: calls, with the data acknowledged last for each block
* `Storage.Retained`: the data acknowledged last is in the cache or on the device
* `Storage.WritesBack`: the condition on the call that evicts a block

## Main results

* `Storage.acknowledged_retained`: acknowledged data is retained as long as write-backs succeed
* `Storage.write_lost`: a write that the device refuses is dropped
-/

namespace OxideOS

/-- A disk any of whose transfers may fail.  A read changes no sector, and delivers its sector when
it succeeds; a write changes no other sector, and stores the data when it succeeds.  What a failed
write leaves in its sector is open. -/
structure FallibleIo {H : Type} (io : BlockIo H) (sector : H → Nat → Block) : Prop where
  read : ∀ h n buf result h', io.doBlockIo h .read n buf = (result, h') →
    sector h' = sector h ∧ ∀ data, result = .ok data → data = sector h n
  write : ∀ h n buf result h', io.doBlockIo h .write n buf = (result, h') →
    (∀ m, m ≠ n → sector h' m = sector h m) ∧ ∀ buf', result = .ok buf' → sector h' n = buf

variable {H : Type} {io : BlockIo H} {sector : H → Nat → Block}

namespace VirtioBlkDevice

variable {dev dev' : VirtioBlkDevice H} {n : Nat}

theorem readBlock_fallible (hio : FallibleIo io sector) {result : Except String Block}
    (h : dev.readBlock io n = (result, dev')) :
    dev'.capacityBlocks = dev.capacityBlocks ∧ sector dev'.queue = sector dev.queue ∧
      ∀ data, result = .ok data → data = sector dev.queue n := by
  rw [readBlock] at h
  split_ifs at h
  · obtain ⟨rfl, rfl⟩ := Prod.mk.inj h
    refine ⟨rfl, rfl, fun _ hdata => ?_⟩
    cases hdata
  · obtain ⟨rfl, rfl⟩ := Prod.mk.inj h
    refine ⟨rfl, rfl, fun _ hdata => ?_⟩
    cases hdata
  · obtain ⟨rfl, rfl⟩ := Prod.mk.inj h
    exact ⟨rfl, hio.read _ _ _ _ _ rfl⟩

theorem writeBlock_fallible (hio : FallibleIo io sector) {data : Block}
    {result : Except String Unit} (h : dev.writeBlock io n data = (result, dev')) :
    dev'.capacityBlocks = dev.capacityBlocks ∧
      (∀ m, m ≠ n → sector dev'.queue m = sector dev.queue m) ∧
      (result = .ok () → sector dev'.queue n = data) := by
  rw [writeBlock] at h
  split_ifs at h
  · obtain ⟨rfl, rfl⟩ := Prod.mk.inj h
    refine ⟨rfl, fun _ _ => rfl, fun hok => ?_⟩
    cases hok
  · obtain ⟨rfl, rfl⟩ := Prod.mk.inj h
    refine ⟨rfl, fun _ _ => rfl, fun hok => ?_⟩
    cases hok
  · obtain ⟨rfl, rfl⟩ := Prod.mk.inj h
    obtain ⟨hother, hstored⟩ := hio.write _ _ _ _ _ rfl
    refine ⟨rfl, hother, fun hok => ?_⟩
    cases hio' : (io.doBlockIo dev.queue .write n data).1 with
    | error e =>
      rw [hio'] at hok
      cases hok
    | ok buf' => exact hstored buf' hio'

end VirtioBlkDevice

namespace Storage

/-! ## Calls and acknowledgements -/

/-- The storage on which a call runs `evict_one`, if it does. -/
def evicting (io : BlockIo H) (s : Storage H) : CacheOp → Option (Storage H)
  | .read n =>
    match s.lookup n with
    | some _ => none
    | none =>
      match s.device.readBlock io n with
      | (.error _, _) => none
      | (.ok _, device) =>
        if cacheSize ≤ s.cache.cache.size then some { s.tick with device } else none
  | .write n _ =>
    if cacheSize ≤ s.cache.cache.size ∧ !s.cache.cache.contains n then some s.tick else none
  | .flush => none

/-- The dirty block that a call evicts, its data, and the device that it is to be written to. -/
def writtenBack (io : BlockIo H) (s : Storage H) (op : CacheOp) :
    Option (Nat × Block × VirtioBlkDevice H) := do
  let s ← s.evicting io op
  let (num, block) ← s.lru
  if block.dirty then some (num, block.data, s.device) else none

/-- If the call evicts a dirty block in range, the device takes its data. -/
def WritesBack (io : BlockIo H) (s : Storage H) (op : CacheOp) : Prop :=
  ∀ num data device, s.writtenBack io op = some (num, data, device) →
    num < device.capacityBlocks → (device.writeBlock io num data).1 = .ok ()

/-- If the call evicts a dirty block in range, the disk holds its data after the attempt to write
it, which is so in particular when the attempt succeeds. -/
def Saved (io : BlockIo H) (sector : H → Nat → Block) (s : Storage H) (op : CacheOp) : Prop :=
  ∀ num data device, s.writtenBack io op = some (num, data, device) →
    num < device.capacityBlocks → sector (device.writeBlock io num data).2.queue num = data

/-- A call, with the data acknowledged last for each block. -/
def ackStep (io : BlockIo H) (x : Storage H × (Nat → Option Block)) (op : CacheOp) :
    Storage H × (Nat → Option Block) :=
  (x.1.step io op,
    match op with
    | .write n data =>
      match (x.1.write io n data).1 with
      | .ok () => Function.update x.2 n (some data)
      | .error _ => x.2
    | _ => x.2)

/-- Any calls on a fresh cache. -/
def ackSystem (io : BlockIo H) (device : VirtioBlkDevice H) :
    TransitionSystem (Storage H × (Nat → Option Block)) CacheOp :=
  .ofFun (fresh device, fun _ => none) (ackStep io)

/-- The data acknowledged last for a block in range is in the cache or on the device. -/
def Retained (sector : H → Nat → Block) (x : Storage H × (Nat → Option Block)) : Prop :=
  ∀ n < x.1.device.capacityBlocks, ∀ data, x.2 n = some data →
    (∃ b, x.1.lookup n = some b ∧ b.data = data) ∨ sector x.1.device.queue n = data

/-- The invariant: the abstract cache retains what has been acknowledged. -/
def Retains (sector : H → Nat → Block) (s : Storage H) (acked : Nat → Option Block) : Prop :=
  (s.writeBack sector).Retains (· < s.device.capacityBlocks) acked

variable {s s' : Storage H} {acked : Nat → Option Block} {n : Nat} {data : Block} {op : CacheOp}

theorem Retains.retained (h : s.Retains sector acked) : Retained sector (s, acked) := by
  intro n hn data hdata
  have hview : s.view sector n = data := h.seen n data hn hdata
  cases hb : s.lookup n with
  | some b =>
    refine .inl ⟨b, rfl, ?_⟩
    rwa [view, WriteBack.view_of_cached (c := (b.data, b.dirty)) (by simp [writeBack, hb])] at hview
  | none =>
    rw [view, WriteBack.view_of_not_cached (by simp [writeBack, hb])] at hview
    exact .inr hview

/-! ## Evictions -/

theorem evictOne_of_lru {num : Nat} {block : CachedBlock} (h : s.lru = some (num, block)) :
    s.evictOne io = ⟨{ s.cache with cache := s.cache.cache.erase num },
      if block.dirty then (s.device.writeBlock io num block.data).2 else s.device⟩ := by
  rw [evictOne, h]

theorem writeBack_evictOne {num : Nat} {block : CachedBlock} (h : s.lru = some (num, block)) :
    (s.evictOne io).writeBack sector = ⟨Function.update (s.writeBack sector).cached num none,
      sector (s.evictOne io).device.queue⟩ := by
  refine congrArg₂ WriteBack.mk (funext fun m => ?_) rfl
  rw [evictOne_of_lru h]
  exact s.cached_erase num m

/-- What an eviction does to the disk: nothing but at the sector of a dirty victim. -/
theorem evictOne_device (hio : FallibleIo io sector) (s : Storage H) :
    (s.evictOne io).device.capacityBlocks = s.device.capacityBlocks ∧
      ∀ j, (∃ block, s.lru = some (j, block) ∧ block.dirty = true) ∨
        sector (s.evictOne io).device.queue j = sector s.device.queue j := by
  rcases hlru : s.lru with _ | ⟨num, block⟩
  · rw [evictOne, hlru]
    exact ⟨rfl, fun j => .inr rfl⟩
  · rw [evictOne_of_lru hlru]
    cases hdirty : block.dirty with
    | false => exact ⟨rfl, fun j => .inr rfl⟩
    | true =>
      obtain ⟨hcapacity, hother, -⟩ := VirtioBlkDevice.writeBlock_fallible hio
        (rfl : s.device.writeBlock io num block.data = _)
      refine ⟨hcapacity, fun j => ?_⟩
      by_cases hj : j = num
      · exact .inl ⟨block, by rw [hj], hdirty⟩
      · exact .inr (hother j hj)

theorem lookup_evictOne_of_none (h : s.lookup n = none) : (s.evictOne io).lookup n = none := by
  rcases hlru : s.lru with _ | ⟨num, block⟩
  · rwa [evictOne, hlru]
  · rw [evictOne_of_lru hlru, lookup, Std.ExtTreeMap.getElem?_erase]
    split
    · rfl
    · exact h

/-- A block that is not cached keeps its sector. -/
theorem sector_evictOne_of_none (hio : FallibleIo io sector) (h : s.lookup n = none) :
    sector (s.evictOne io).device.queue n = sector s.device.queue n := by
  refine ((evictOne_device hio s).2 n).resolve_left ?_
  rintro ⟨block, hlru, -⟩
  rw [lru_mem hlru] at h
  cases h

/-- An eviction retains what was acknowledged if the disk holds the data of a dirty victim. -/
theorem Retains.evictOne (h : s.Retains sector acked) (hio : FallibleIo io sector)
    (hsaved : ∀ num block, s.lru = some (num, block) → block.dirty = true →
      num < s.device.capacityBlocks →
        sector (s.device.writeBlock io num block.data).2.queue num = block.data) :
    (s.evictOne io).Retains sector acked := by
  obtain ⟨hcapacity, hsector⟩ := evictOne_device hio s
  rcases hlru : s.lru with _ | ⟨num, block⟩
  · rwa [Storage.evictOne, hlru]
  · have hcached : (s.writeBack sector).cached num = some (block.data, block.dirty) := by
      simp [writeBack, lru_mem hlru]
    rw [Retains, writeBack_evictOne hlru, hcapacity]
    refine (WriteBack.retains_drop_iff h fun j => ?_).mpr fun x hx hnum => ?_
    · rcases hsector j with ⟨block', hlru', hdirty⟩ | heq
      · obtain ⟨rfl, rfl⟩ := Prod.mk.inj (Option.some.inj (hlru.symm.trans hlru'))
        exact .inl ⟨rfl, block.data, by rw [hcached, hdirty]⟩
      · exact .inr heq
    · obtain ⟨rfl, hdirty⟩ := Prod.mk.inj (Option.some.inj (hcached.symm.trans hx))
      rw [evictOne_of_lru hlru, hdirty]
      exact hsaved num block hlru hdirty hnum

/-! ## Calls -/

/-- A call that evicts brings in a block that was not cached. -/
theorem step_of_evicting (acked : Nat → Option Block) (h : s.evicting io op = some s') :
    ∃ n data dirty, s.lookup n = none ∧ s'.cache.cache = s.cache.cache ∧
      s.step io op = (s'.evictOne io).insert n data dirty ∧
      ∀ m, m ≠ n → (ackStep io (s, acked) op).2 m = acked m := by
  cases op with
  | read n =>
    rw [evicting] at h
    split at h
    · cases h
    · next hnone =>
      have htick : s.tick.lookup n = none := hnone
      split at h
      · cases h
      · next data device hread =>
        split_ifs at h with hfull
        obtain rfl := Option.some.inj h
        refine ⟨n, data, false, hnone, rfl, ?_, fun _ _ => rfl⟩
        have hread' : s.tick.device.readBlock io n = (.ok data, device) := hread
        rw [step, read, htick, hread']
        exact congrArg (fun s : Storage H => s.insert n data false) (if_pos hfull)
  | write n data =>
    rw [evicting] at h
    split_ifs at h with hfull
    obtain rfl := Option.some.inj h
    refine ⟨n, data, true, ?_, rfl, ?_, fun m hm => Function.update_of_ne hm _ _⟩
    · apply Std.ExtTreeMap.getElem?_eq_none
      simpa [← Std.ExtTreeMap.contains_iff_mem] using hfull.2
    · exact congrArg (fun s : Storage H => s.insert n data true) (if_pos hfull)
  | flush => cases h

theorem writtenBack_eq_some {num : Nat} {device : VirtioBlkDevice H} :
    s.writtenBack io op = some (num, data, device) ↔ ∃ s' block, s.evicting io op = some s' ∧
      s'.lru = some (num, block) ∧ block.dirty = true ∧ block.data = data ∧ s'.device = device := by
  simp only [writtenBack, Option.bind_eq_bind, Option.bind_eq_some_iff, Prod.exists,
    Option.ite_none_right_eq_some, Option.some.injEq, Prod.mk.injEq]
  constructor
  · rintro ⟨s', hevict, num', block, hlru, hdirty, rfl, hdata, hdevice⟩
    exact ⟨s', block, hevict, hlru, hdirty, hdata, hdevice⟩
  · rintro ⟨s', block, hevict, hlru, hdirty, hdata, hdevice⟩
    exact ⟨s', hevict, num, block, hlru, hdirty, rfl, hdata, hdevice⟩

theorem WritesBack.saved (h : s.WritesBack io op) (hio : FallibleIo io sector) :
    s.Saved io sector op := fun num data device hback hnum =>
  (VirtioBlkDevice.writeBlock_fallible hio rfl).2.2 (h num data device hback hnum)

/-- What a call saves, at the storage on which it runs `evict_one`. -/
theorem Saved.of_evicting (h : s.Saved io sector op) (hevict : s.evicting io op = some s') :
    ∀ num block, s'.lru = some (num, block) → block.dirty = true →
      num < s'.device.capacityBlocks →
        sector (s'.device.writeBlock io num block.data).2.queue num = block.data :=
  fun num block hlru hdirty =>
    h num block.data s'.device
      (writtenBack_eq_some.mpr ⟨s', block, hevict, hlru, hdirty, rfl, rfl⟩)

/-- Making room: whether the cache is full or not, what was acknowledged is retained, and a block
that was not cached is as it was. -/
theorem Retains.makeRoom (h : s.Retains sector acked) (hio : FallibleIo io sector) (full : Prop)
    [Decidable full] (hnone : s.lookup n = none)
    (hsaved : full → ∀ num block, s.lru = some (num, block) → block.dirty = true →
      num < s.device.capacityBlocks →
        sector (s.device.writeBlock io num block.data).2.queue num = block.data) :
    (if full then s.evictOne io else s).Retains sector acked ∧
      (if full then s.evictOne io else s).lookup n = none ∧
      sector (if full then s.evictOne io else s).device.queue n = sector s.device.queue n := by
  split
  · next hfull =>
    exact ⟨h.evictOne hio (hsaved hfull), lookup_evictOne_of_none hnone,
      sector_evictOne_of_none hio hnone⟩
  · exact ⟨h, hnone, rfl⟩

theorem Retains.insert_clean (h : s.Retains sector acked) (hnone : s.lookup n = none)
    (hdata : sector s.device.queue n = data) : (s.insert n data false).Retains sector acked := by
  have hfill : (s.insert n data false).writeBack sector = (s.writeBack sector).fill n := by
    rw [writeBack_insert, ← hdata]
    rfl
  rw [Retains, hfill]
  exact WriteBack.Retains.fill h (by simp [writeBack, hnone])

theorem Retains.insert_dirty (h : s.Retains sector acked) :
    (s.insert n data true).Retains sector (Function.update acked n (some data)) := by
  rw [Retains, writeBack_insert]
  exact WriteBack.Retains.put h

theorem Retains.read (h : s.Retains sector acked) (hio : FallibleIo io sector)
    (hsaved : s.Saved io sector (.read n)) : (s.read io n).2.Retains sector acked := by
  have htick : s.tick.lookup n = s.lookup n := rfl
  cases hlookup : s.lookup n with
  | some b =>
    rw [Storage.read, htick, hlookup, Retains, writeBack_touch]
    exact h
  | none =>
    rcases hread : s.device.readBlock io n with ⟨result, device⟩
    obtain ⟨hcapacity, hsector, hdata⟩ := VirtioBlkDevice.readBlock_fallible hio hread
    have hs₁ : Retains sector { s.tick with device } acked := by
      have hwb : writeBack sector { s.tick with device } = s.writeBack sector :=
        congrArg (WriteBack.mk _) hsector
      rw [Retains, hwb, hcapacity]
      exact h
    have hread' : s.tick.device.readBlock io n = (result, device) := hread
    cases result with
    | error e =>
      rw [Storage.read, htick, hlookup, hread']
      exact hs₁
    | ok data =>
      have hevict (hfull : cacheSize ≤ s.cache.cache.size) :
          s.evicting io (.read n) = some { s.tick with device } := by
        rw [evicting, hlookup, hread]
        exact if_pos hfull
      obtain ⟨hs₂, hnone, hkept⟩ := hs₁.makeRoom hio (cacheSize ≤ s.cache.cache.size) hlookup
        fun hfull => hsaved.of_evicting (hevict hfull)
      rw [hsector, ← hdata data rfl] at hkept
      rw [Storage.read, htick, hlookup, hread']
      exact hs₂.insert_clean hnone hkept

theorem Retains.write (h : s.Retains sector acked) (hio : FallibleIo io sector)
    (hsaved : s.Saved io sector (.write n data)) :
    (s.write io n data).2.Retains sector (Function.update acked n (some data)) := by
  by_cases hfull : cacheSize ≤ s.cache.cache.size ∧ !s.cache.cache.contains n
  · have hroom : s.tick.evictOne io |>.Retains sector acked :=
      Retains.evictOne (s := s.tick) h hio (hsaved.of_evicting (if_pos hfull))
    have hwrite : (s.write io n data).2 = (s.tick.evictOne io).insert n data true :=
      congrArg (fun s : Storage H => s.insert n data true) (if_pos hfull)
    rw [hwrite]
    exact hroom.insert_dirty
  · have hwrite : (s.write io n data).2 = s.tick.insert n data true :=
      congrArg (fun s : Storage H => s.insert n data true) (if_neg hfull)
    rw [hwrite]
    exact Retains.insert_dirty (s := s.tick) h

/-! ## Flushing -/

/-- What the loop of a flush does to the disk, whether it gets to the end or not. -/
theorem writeBlocks_fallible (hio : FallibleIo io sector) {blocks : List (Nat × Block)} :
    ∀ {device device' : VirtioBlkDevice H} {result : Except String Unit},
      writeBlocks io device blocks = (result, device') →
      device'.capacityBlocks = device.capacityBlocks ∧
        (∀ m, m ∉ blocks.map Prod.fst → sector device'.queue m = sector device.queue m) ∧
        (result = .ok () →
          sector device'.queue = WriteBack.writeAll (sector device.queue) blocks) := by
  induction blocks with
  | nil =>
    intro device device' result h
    obtain ⟨rfl, rfl⟩ := Prod.mk.inj h
    exact ⟨rfl, fun _ _ => rfl, fun _ => rfl⟩
  | cons p blocks ih =>
    intro device device' result h
    rcases hwrite : device.writeBlock io p.1 p.2 with ⟨result₁, device₁⟩
    obtain ⟨hcapacity, hother, hstored⟩ := VirtioBlkDevice.writeBlock_fallible hio hwrite
    rw [writeBlocks, hwrite] at h
    cases result₁ with
    | error e =>
      obtain ⟨rfl, rfl⟩ := Prod.mk.inj h
      refine ⟨hcapacity, fun m hm => hother m fun heq => hm ?_, fun hok => ?_⟩
      · rw [heq]
        exact List.mem_cons_self
      · cases hok
    | ok _ =>
      obtain ⟨hcapacity', hother', hstored'⟩ := ih h
      refine ⟨hcapacity'.trans hcapacity, fun m hm => ?_, fun hok => ?_⟩
      · rw [List.map_cons, List.mem_cons, not_or] at hm
        exact (hother' m hm.2).trans (hother m hm.1)
      · have hupdate : sector device₁.queue = Function.update (sector device.queue) p.1 p.2 := by
          ext1 m
          by_cases hm : m = p.1
          · rw [hm, hstored rfl, Function.update_self]
          · rw [hother m hm, Function.update_of_ne hm]
        rw [hstored' hok, hupdate]
        rfl

/-- The loop of a flush changes only sectors behind dirty blocks. -/
theorem dirty_or_sector_eq {result : Except String Unit} {device : VirtioBlkDevice H}
    (hio : FallibleIo io sector) (h : writeBlocks io s.device s.dirtyBlocks = (result, device))
    (j : Nat) : (∃ x, (s.writeBack sector).cached j = some (x, true)) ∨
      sector device.queue j = (s.writeBack sector).backing j := by
  by_cases hj : j ∈ s.dirtyBlocks.map Prod.fst
  · obtain ⟨⟨j', data⟩, hmem, rfl⟩ := List.mem_map.mp hj
    obtain ⟨b, hb, hdirty, -⟩ := mem_dirtyBlocks.mp hmem
    exact .inl ⟨b.data, by simp [writeBack, hb, hdirty]⟩
  · exact .inr ((writeBlocks_fallible hio h).2.1 j hj)

theorem Retains.flush (h : s.Retains sector acked) (hio : FallibleIo io sector) :
    (s.flush io).2.Retains sector acked := by
  rcases hwrite : writeBlocks io s.device s.dirtyBlocks with ⟨result, device⟩
  obtain ⟨hcapacity, -, hstored⟩ := writeBlocks_fallible hio hwrite
  rw [Storage.flush, hwrite]
  cases result with
  | error e =>
    rw [Retains, show _ = s.device.capacityBlocks from hcapacity]
    exact WriteBack.Retains.of_backing h (dirty_or_sector_eq hio hwrite)
  | ok _ =>
    rw [Retains, writeBack_cleanBlocks (hstored rfl)]
    rw [show _ = s.device.capacityBlocks from hcapacity]
    exact WriteBack.Retains.flush h

/-! ## Runs -/

variable {device : VirtioBlkDevice H} {x : Storage H × (Nat → Option Block)}

theorem Retains.step (h : s.Retains sector acked) (hio : FallibleIo io sector)
    (hsaved : s.Saved io sector op) :
    (ackStep io (s, acked) op).1.Retains sector (ackStep io (s, acked) op).2 := by
  cases op with
  | read n => exact h.read hio hsaved
  | write n data => exact h.write hio hsaved
  | flush => exact h.flush hio

/-- The victim of an eviction is not in the cache any more, so if it is retained it is on the
disk. -/
theorem Retains.saved (h : s.Retains sector acked) (hio : FallibleIo io sector)
    (hafter : Retained sector (ackStep io (s, acked) op)) : s.Saved io sector op := by
  intro num data device hback hnum
  obtain ⟨s', block, hevict, hlru, hdirty, rfl, rfl⟩ := writtenBack_eq_some.mp hback
  obtain ⟨n, data', dirty, hnone, hcache, hstep, hacked⟩ := step_of_evicting acked hevict
  have hlookup : s.lookup num = some block := by
    rw [lookup, ← hcache]
    exact lru_mem hlru
  have hne : num ≠ n := by
    rintro rfl
    rw [hnone] at hlookup
    cases hlookup
  have hstep' : (ackStep io (s, acked) op).1 = (s'.evictOne io).insert n data' dirty := hstep
  have hcapacity : (ackStep io (s, acked) op).1.device.capacityBlocks =
      s'.device.capacityBlocks := by
    rw [hstep']
    exact (evictOne_device hio s').1
  have hlast : (ackStep io (s, acked) op).2 num = some block.data := by
    rw [hacked num hne]
    exact h.dirty num block.data (by simp [writeBack, hlookup, hdirty])
  rcases hafter num (hcapacity ▸ hnum) block.data hlast with ⟨b, hb, -⟩ | hsector
  · rw [hstep', lookup_insert, if_neg (Ne.symm hne), evictOne_of_lru hlru, lookup,
      Std.ExtTreeMap.getElem?_erase_self] at hb
    cases hb
  · rw [hstep', insert, evictOne_of_lru hlru, if_pos hdirty] at hsector
    exact hsector

theorem retains_invariant (hio : FallibleIo io sector) :
    ((ackSystem io device).restrict fun x op => x.1.WritesBack io op).Invariant
      fun x => x.1.Retains sector x.2 where
  init := by
    rintro x rfl
    refine ⟨fun j x hj => ?_, fun j x hj => ?_, fun j x _ hj => nomatch hj⟩
    · simp [writeBack, lookup, fresh, BlockCache.new] at hj
    · simp [writeBack, lookup, fresh, BlockCache.new] at hj
  step := by
    rintro ⟨s, acked⟩ op y h ⟨rfl, hback⟩
    exact Retains.step h hio (hback.saved hio)

/-- On a reliable disk every call writes back. -/
theorem Sound.writesBack {capacity : Nat} {ready : H → Prop}
    (hs : s.Sound capacity ready sector) (hio : ReliableIo io capacity ready sector)
    (hop : op.InRange capacity) : s.WritesBack io op := by
  intro num data device hback hnum
  obtain ⟨s', block, hevict, -, -, -, rfl⟩ := writtenBack_eq_some.mp hback
  have hup : s'.device.Up capacity ready := by
    cases op with
    | read n =>
      obtain ⟨device', hread, hup, -⟩ := hs.up.readBlock_spec hio hop
      rw [evicting, hread] at hevict
      split at hevict
      · cases hevict
      · split_ifs at hevict
        obtain rfl := Option.some.inj hevict
        exact hup
    | write n data =>
      rw [evicting] at hevict
      split_ifs at hevict
      obtain rfl := Option.some.inj hevict
      exact hs.up
    | flush => cases hevict
  obtain ⟨device', hwrite, -⟩ := hup.writeBlock_spec hio (hup.capacityBlocks ▸ hnum) data
  rw [hwrite]

theorem reachable_of_reliable {capacity : Nat} {ready : H → Prop}
    (hio : ReliableIo io capacity ready sector) (hdevice : device.Up capacity ready)
    {ops : List CacheOp} (hops : ∀ op ∈ ops, op.InRange capacity) :
    ((ackSystem io device).restrict fun x op => x.1.WritesBack io op).Reachable
      (ops.foldl (ackStep io) (fresh device, fun _ => none)) := by
  induction ops using List.reverseRecOn with
  | nil => exact .init rfl
  | append_singleton ops op ih =>
    rw [List.forall_mem_append, List.forall_mem_singleton] at hops
    have hrun : (ops.foldl (ackStep io) (fresh device, fun _ => none)).1 =
        run io (fresh device) ops := (List.foldl_hom Prod.fst fun _ _ => rfl).symm
    have hsound := (sound_run hio hdevice hops.1).1
    rw [← hrun] at hsound
    rw [List.foldl_append]
    exact (ih hops.1).step ⟨rfl, hsound.writesBack hio hops.2⟩

/-- **Acknowledged data is retained as long as write-backs succeed**: over any disk, in every run in
which the device takes the data of each dirty block in range that a call evicts, the data
acknowledged last for a block in range is in the cache or on the device.  And after such a run the
next call keeps it there exactly when the disk holds the data of the block that the call evicts.
That is `Saved`, which is less than `WritesBack`: a write that failed may have left the data. -/
theorem acknowledged_retained (hio : FallibleIo io sector)
    (h : ((ackSystem io device).restrict fun x op => x.1.WritesBack io op).Reachable x) :
    Retained sector x ∧ ∀ op, Retained sector (ackStep io x op) ↔ x.1.Saved io sector op := by
  have hx : x.1.Retains sector x.2 := (retains_invariant hio).of_reachable h
  refine ⟨hx.retained, fun op => ⟨fun hafter => hx.saved hio hafter, fun hsaved => ?_⟩⟩
  exact (hx.step hio hsaved).retained

end Storage

/-! ## One write more than the cache has lines for -/

theorem ramDisk_fallible : FallibleIo ramDisk id where
  read := by
    rintro h n buf result h' heq
    obtain ⟨rfl, rfl⟩ := Prod.mk.inj heq
    exact ⟨rfl, fun data hdata => (Except.ok.inj hdata).symm⟩
  write := by
    rintro h n buf result h' heq
    obtain ⟨rfl, rfl⟩ := Prod.mk.inj heq
    refine ⟨fun m hm => ?_, fun _ _ => ?_⟩
    · simp [hm]
    · simp

namespace Storage

/-- Write to the first blocks of the disk. -/
def writeMany (count : Nat) : List CacheOp :=
  (List.range count).map fun n => .write n (Block.filled 1)

theorem inRange_writeMany {count capacity : Nat} (h : count ≤ capacity) :
    ∀ op ∈ writeMany count, op.InRange capacity := by
  intro op hop
  obtain ⟨n, hn, rfl⟩ := List.mem_map.mp hop
  exact Nat.lt_of_lt_of_le (List.mem_range.mp hn) h

/-- Block 0 is evicted, and on the disk. -/
theorem acknowledged_retained_evicted :
    ∃ x, ((ackSystem ramDisk (ramDevice 1024)).restrict
        fun x op => x.1.WritesBack ramDisk op).Reachable x ∧
      x.1.lookup 0 = none ∧ x.2 0 = some (Block.filled 1) ∧ Retained id x := by
  have hreach := reachable_of_reliable (ramDisk_reliable 1024) (ramDevice_up 1024)
    (inRange_writeMany (by decide : 257 ≤ 1024))
  obtain ⟨hretained, -⟩ := acknowledged_retained ramDisk_fallible hreach
  exact ⟨_, hreach, by decide +kernel, by decide +kernel, hretained⟩

end Storage

/-! ## A disk that takes no data -/

/-- A disk of zero blocks that cannot be written. -/
def readOnlyDisk : BlockIo Unit where
  doBlockIo _ reqType _ _ :=
    match reqType with
    | .read => (.ok Block.zero, ())
    | .write => (.error "virtio-blk: I/O error", ())

/-- The read-only disk meets the assumptions. -/
theorem readOnlyDisk_fallible : FallibleIo readOnlyDisk fun _ _ => Block.zero where
  read := by
    rintro h n buf result h' heq
    obtain ⟨rfl, -⟩ := Prod.mk.inj heq
    exact ⟨rfl, fun data hdata => (Except.ok.inj hdata).symm⟩
  write := by
    rintro h n buf result h' heq
    obtain ⟨rfl, -⟩ := Prod.mk.inj heq
    exact ⟨fun _ _ => rfl, fun _ hok => nomatch hok⟩

namespace Storage

/-- An initialised device over the disk that cannot be written. -/
def readOnlyDevice : VirtioBlkDevice Unit where
  initialized := true
  capacityBlocks := 1024
  queue := ()

/-- **An acknowledged write is dropped**: one write more than the cache has lines for evicts
block 0, which the device does not take. -/
theorem write_lost :
    ∃ x, (ackSystem readOnlyDisk readOnlyDevice).Reachable x ∧ x.2 0 = some (Block.filled 1) ∧
      x.1.lookup 0 = none ∧ ¬Retained (fun _ _ => Block.zero) x := by
  obtain ⟨hlost, hacked, hcapacity⟩ :
      ((writeMany 257).foldl (ackStep readOnlyDisk)
        (fresh readOnlyDevice, fun _ => none)).1.lookup 0 = none ∧
      ((writeMany 257).foldl (ackStep readOnlyDisk)
        (fresh readOnlyDevice, fun _ => none)).2 0 = some (Block.filled 1) ∧
      0 < ((writeMany 257).foldl (ackStep readOnlyDisk)
        (fresh readOnlyDevice, fun _ => none)).1.device.capacityBlocks := by
    decide +kernel
  refine ⟨_, TransitionSystem.reachable_ofFun_iff.mpr ⟨writeMany 257, rfl⟩, hacked, hlost,
    fun h => ?_⟩
  rcases h 0 hcapacity _ hacked with ⟨b, hb, -⟩ | hsector
  · rw [hlost] at hb
    cases hb
  · exact absurd hsector (by decide)

end Storage

end OxideOS
