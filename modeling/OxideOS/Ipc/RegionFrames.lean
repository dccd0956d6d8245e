import OxideOS.Ipc.SharedMemory

/-!
# The frames of a region

`create_region` takes as many frames as the size has pages, one by one, and describes the region by
the address of the first one and the rounded size.  Without frees the frames follow each other.
After frees they need not, and then the region names frames of others.  For a size of zero one
frame is taken, and the region is empty.

When the frames run out, those that have been taken are not given back.

## Main definitions

* `SharedRegion.HasFrame`: a frame with an address of the region
* `SharedMemory.freeFrames`: the free frames, when there is an allocator

## Main results

* `SharedMemory.createRegion_takes`: the frames that a call takes
-/

namespace OxideOS

/-- The region has an address in the frame. -/
def SharedRegion.HasFrame (region : SharedRegion) (i : Nat) : Prop :=
  ∃ address, region.resource.CoversAddress address ∧ address / pageSize = i

/-- The frames of a range of whole pages. -/
theorem SharedRegion.hasFrame_iff {region : SharedRegion} {first n i : Nat}
    (hbase : region.physBase.toNat = first * pageSize)
    (hsize : region.size.toNat = n * pageSize) :
    region.HasFrame i ↔ first ≤ i ∧ i < first + n := by
  have hcovers : ∀ address, region.resource.CoversAddress address ↔
      first * pageSize ≤ address ∧ address < first * pageSize + n * pageSize := by
    intro address
    rw [← hbase, ← hsize]
    rfl
  simp only [HasFrame, hcovers, pageSize]
  constructor
  · rintro ⟨address, hrange, rfl⟩
    omega
  · intro hi
    exact ⟨i * 4096, by omega, by omega⟩

namespace SharedMemory

variable {s s' : SharedMemory} {a : BitmapFrameAllocator} {owner : TaskId} {size : UInt64}
  {id : SharedRegionId} {e : IpcError} {result : Except IpcError SharedRegionId}

/-- **The frames that a call takes** are the lowest free ones: all of them when it fails, and
otherwise one for each page, but at least one. -/
theorem createRegion_takes (hframes : s.frames = some a) (ha : a.Sound)
    (h : s.createRegion owner size = some (result, s')) :
    ∃ m a', a.TakesLowest m a' ∧
      ((∃ e, result = .error e ∧ m = a.totalFrames ∧ s' = { s with frames := some a' }) ∨
        ∃ first, a.LowestFree first ∧ (a.freeBelow m).card = pageCount size - 1 + 1 ∧
          ¬2 ^ 64 ≤ size.toNat + pageSize ∧ result = .ok s.nextRegionId ∧
          s' = { caps := (s.caps.createRoot owner (s.newRegion owner size (.ofIndex first)).resource
                   ownerRights).2
                 frames := some a'
                 regions := s.regions.insert s.nextRegionId
                   (s.newRegion owner size (.ofIndex first))
                 nextRegionId := s.nextRegionId + 1 }) := by
  rw [createRegion, hframes] at h
  split at h
  · cases h
  · next hsize =>
    rcases BitmapFrameAllocator.allocateFrame_spec ha with ⟨first, hfirst, hsome⟩ | ⟨hall, hnone⟩
    · have hloop : allocateFrames (pageCount size - 1 + 1) a =
          allocateFrames (pageCount size - 1) (a.take first) := by
        rw [allocateFrames, hsome]
      simp only [hsome, ← hloop] at h
      obtain ⟨⟨ok, a'⟩, hrest⟩ : ∃ r, allocateFrames (pageCount size - 1 + 1) a = r := ⟨_, rfl⟩
      obtain ⟨m, htakes, hok, hout⟩ := BitmapFrameAllocator.allocateFrames_spec ha hrest
      rw [hrest] at h
      cases ok with
      | false =>
        obtain ⟨rfl, rfl⟩ := Prod.mk.inj (Option.some.inj h)
        exact ⟨m, a', htakes, .inl ⟨_, rfl, hout rfl, rfl⟩⟩
      | true =>
        obtain ⟨rfl, rfl⟩ := Prod.mk.inj (Option.some.inj h)
        exact ⟨m, a', htakes, .inr ⟨first, hfirst, hok rfl, hsize, rfl, rfl⟩⟩
    · simp only [hnone] at h
      obtain ⟨rfl, rfl⟩ := Prod.mk.inj (Option.some.inj h)
      refine ⟨a.totalFrames, a, ⟨ha, rfl, le_rfl, fun j => ?_⟩, .inl ⟨_, rfl, rfl, rfl⟩⟩
      rw [iff_self_or]
      exact hall j

/-! ## Success -/

theorem pageCount_pos_iff : 0 < pageCount size ↔ size ≠ 0 := by
  have hzero : size ≠ 0 ↔ size.toNat ≠ 0 := not_congr UInt64.toNat_inj.symm
  rw [hzero, pageCount, pageSize]
  omega

theorem le_pageCount (size : UInt64) : size.toNat ≤ pageCount size * pageSize := by
  rw [pageCount, pageSize]
  omega

/-- **When a region owns the memory it names.**  A region that is created has the frames that were
taken for it, and none that was in use before, exactly when its size is not zero and as many frames
as it has pages were free from the lowest free frame on.  The capability of its owner is over the
same range, and the range is never too small. -/
theorem createRegion_owns_iff (hreach : BitmapFrameAllocator.system.Reachable a)
    (htotal : a.totalFrames ≤ 2 ^ 40) (hframes : s.frames = some a)
    (h : s.createRegion owner size = some (.ok id, s')) :
    (∃ region a' cap, s'.regions[id]? = some region ∧ s'.frames = some a' ∧
      s'.caps.slot s.caps.nextId = some cap ∧ cap.owner = owner ∧
      cap.resource = region.resource ∧ size ≤ region.size ∧
      (∀ i, (a'.isSet i = true ∧ a.isSet i = false) ↔ region.HasFrame i) ∧
      ∀ i, region.HasFrame i → a.isSet i = false) ↔
    size ≠ 0 ∧ ∃ first, a.LowestFree first ∧ a.RunFree first (pageCount size) := by
  obtain ⟨m, a', htakes, ⟨e, he, -⟩ | ⟨first, hfirst, hcard, hsize, hid, hs'⟩⟩ :=
    createRegion_takes hframes (BitmapFrameAllocator.sound_of_reachable hreach) h
  · cases he
  obtain rfl := Except.ok.inj hid
  have hregion : s'.regions[s.nextRegionId]? = some (s.newRegion owner size (.ofIndex first)) := by
    rw [hs', Std.ExtTreeMap.getElem?_insert_eq_ite, if_pos rfl]
  have hframe : ∀ i, (s.newRegion owner size (.ofIndex first)).HasFrame i ↔
      first ≤ i ∧ i < first + pageCount size := fun i =>
    SharedRegion.hasFrame_iff (PhysFrame.toNat_startAddress (hfirst.lt.trans_le htotal))
      (toNat_pageCount hsize)
  rw [← pageCount_pos_iff]
  constructor
  · rintro ⟨region, b, -, hregion', hb, -, -, -, -, hnew, -⟩
    obtain rfl := Option.some.inj (hregion'.symm.trans hregion)
    obtain rfl : b = a' := Option.some.inj (hb.symm.trans (congrArg SharedMemory.frames hs'))
    simp only [hframe] at hnew
    have htaken : (a.freeBelow m).Nonempty := Finset.card_pos.mp (by omega)
    obtain ⟨j, hj⟩ := htaken
    have hrange := (hnew j).mp (htakes.mem_freeBelow_iff.mp hj)
    have hpos : 0 < pageCount size := by omega
    rw [Nat.sub_add_cancel hpos] at hcard
    exact ⟨hpos, first, hfirst, (htakes.consecutive_iff hcard hfirst).mp hnew⟩
  · rintro ⟨hpos, first', hfirst', hrun⟩
    obtain rfl := hfirst'.unique hfirst
    rw [Nat.sub_add_cancel hpos] at hcard
    have hnew := (htakes.consecutive_iff hcard hfirst).mpr hrun
    simp only [← hframe] at hnew
    have hslot : s'.caps.slot s.caps.nextId = some ⟨s.caps.nextId,
        (s.newRegion owner size (.ofIndex first')).resource, ownerRights, owner, none, false⟩ := by
      rw [hs', (s.caps.adds_createRoot owner _ ownerRights).slot, if_pos rfl]
    refine ⟨_, a', _, hregion, congrArg SharedMemory.frames hs', hslot, rfl, rfl, ?_, hnew,
      fun i hi => ((hnew i).mpr hi).2⟩
    rw [UInt64.le_iff_toNat_le, newRegion, toNat_pageCount hsize]
    exact le_pageCount size

/-- Of eight frames the first six are usable.  Three have been handed out, and of these frame 1 has
been given back. -/
def fragmented : BitmapFrameAllocator := ⟨[0xC5], 8, 1⟩

theorem reachable_fragmented : BitmapFrameAllocator.system.Reachable fragmented := by
  have hinit : BitmapFrameAllocator.system.Reachable
      ((BitmapFrameAllocator.new 8).markRegionFree 0 6) :=
    TransitionSystem.Reachable.init ⟨8, [.free 0 6], rfl⟩
  have hallocate : ∀ a, BitmapFrameAllocator.system.Reachable a →
      BitmapFrameAllocator.system.Reachable a.allocateFrame.2 :=
    fun a ha => ha.step (i := .allocate) rfl
  apply (hallocate _ (hallocate _ (hallocate _ hinit))).step (i := .free (PhysFrame.ofIndex 1))
  exact ⟨⟨1, by decide, rfl, by decide⟩, by decide⟩

/-- One page fits into the gap. -/
theorem createRegion_owns_gap : ∃ s', (boot (some fragmented)).createRegion 1 100 =
    some (.ok 1, s') ∧ ∃ region a', s'.regions[1]? = some region ∧ s'.frames = some a' ∧
      ∀ i, (a'.isSet i = true ∧ fragmented.isSet i = false) ↔ region.HasFrame i := by
  have hcreate : ((boot (some fragmented)).createRegion 1 100).map Prod.fst = some (.ok 1) := by
    decide
  obtain ⟨⟨result, s'⟩, h, rfl⟩ := Option.map_eq_some_iff.mp hcreate
  obtain ⟨region, a', cap, hregion, ha', -, -, -, -, hnew, -⟩ :=
    (createRegion_owns_iff reachable_fragmented (by decide) rfl h).mpr
      ⟨by decide, 1, ⟨by decide, by decide, by decide⟩, by decide⟩
  exact ⟨s', h, region, a', hregion, ha', hnew⟩

/-- A region of two pages takes frames 1 and 3, and names frames 1 and 2, of which the second is in
use.  A region of size zero takes frame 1 and names none. -/
theorem createRegion_overlaps :
    (∃ s' a', (boot (some fragmented)).createRegion 1 8192 = some (.ok 1, s') ∧
      s'.regions[1]? = some ⟨1, 0x1000, 0x2000, 1, []⟩ ∧ s'.frames = some a' ∧
      fragmented.isSet 2 = true ∧ SharedRegion.HasFrame ⟨1, 0x1000, 0x2000, 1, []⟩ 2 ∧
      fragmented.isSet 3 = false ∧ a'.isSet 3 = true ∧
      ¬SharedRegion.HasFrame ⟨1, 0x1000, 0x2000, 1, []⟩ 3) ∧
    ∃ s' a', (boot (some fragmented)).createRegion 1 0 = some (.ok 1, s') ∧
      s'.regions[1]? = some ⟨1, 0x1000, 0, 1, []⟩ ∧ s'.frames = some a' ∧
      fragmented.isSet 1 = false ∧ a'.isSet 1 = true ∧
      ¬SharedRegion.HasFrame ⟨1, 0x1000, 0, 1, []⟩ 1 := by
  constructor
  · have hcreate : ((boot (some fragmented)).createRegion 1 8192).map
        (fun x => (x.1, x.2.regions[1]?, x.2.frames)) =
        some (.ok 1, some ⟨1, 0x1000, 0x2000, 1, []⟩, some ⟨[0xCF], 8, 4⟩) := by
      decide
    obtain ⟨⟨result, s'⟩, h, hstate⟩ := Option.map_eq_some_iff.mp hcreate
    simp only [Prod.mk.injEq] at hstate
    obtain ⟨rfl, hregion, hframes⟩ := hstate
    have hframe : ∀ i, SharedRegion.HasFrame ⟨1, 0x1000, 0x2000, 1, []⟩ i ↔ 1 ≤ i ∧ i < 1 + 2 :=
      fun i => SharedRegion.hasFrame_iff (by decide) (by decide)
    refine ⟨s', _, h, hregion, hframes, by decide, (hframe 2).mpr (by decide), by decide,
      by decide, ?_⟩
    rw [hframe]
    decide
  · have hcreate : ((boot (some fragmented)).createRegion 1 0).map
        (fun x => (x.1, x.2.regions[1]?, x.2.frames)) =
        some (.ok 1, some ⟨1, 0x1000, 0, 1, []⟩, some ⟨[0xC7], 8, 2⟩) := by
      decide
    obtain ⟨⟨result, s'⟩, h, hstate⟩ := Option.map_eq_some_iff.mp hcreate
    simp only [Prod.mk.injEq] at hstate
    obtain ⟨rfl, hregion, hframes⟩ := hstate
    have hframe : ∀ i, SharedRegion.HasFrame ⟨1, 0x1000, 0, 1, []⟩ i ↔ 1 ≤ i ∧ i < 1 + 0 :=
      fun i => SharedRegion.hasFrame_iff (by decide) (by decide)
    refine ⟨s', _, h, hregion, hframes, by decide, by decide, ?_⟩
    rw [hframe]
    decide

/-! ## Failure -/

/-- The free frames, when there is an allocator. -/
def freeFrames (s : SharedMemory) : Finset Nat :=
  match s.frames with
  | none => ∅
  | some a => a.freeBelow a.totalFrames

theorem freeFrames_eq_empty_iff :
    s.freeFrames = ∅ ↔ ∀ a, s.frames = some a → ∀ i < a.totalFrames, a.isSet i = true := by
  rw [freeFrames]
  cases s.frames with
  | none => simp
  | some a => simp [Finset.eq_empty_iff_forall_notMem, BitmapFrameAllocator.mem_freeBelow]

/-- **What a failed call leaves behind.**  The regions and the capabilities are as before.  All
frames that were free are taken, so the free frames are as before exactly when there were none. -/
theorem createRegion_error_iff
    (hreach : ∀ a, s.frames = some a → BitmapFrameAllocator.system.Reachable a)
    (h : s.createRegion owner size = some (.error e, s')) :
    (s'.freeFrames = s.freeFrames ∧ s'.regions = s.regions ∧ s'.caps = s.caps) ↔
      s.freeFrames = ∅ := by
  cases hframes : s.frames with
  | none =>
    have hs' : s' = s := by
      rw [createRegion, hframes] at h
      split at h
      · cases h
      · exact (Prod.mk.inj (Option.some.inj h)).2.symm
    rw [hs', freeFrames, hframes]
    simp
  | some a =>
    obtain ⟨m, a', htakes, ⟨e, -, hm, hs'⟩ | ⟨first, -, -, -, hok, -⟩⟩ :=
      createRegion_takes hframes (BitmapFrameAllocator.sound_of_reachable (hreach a hframes)) h
    · have hempty : s'.freeFrames = ∅ := by
        rw [freeFrames_eq_empty_iff, hs']
        intro b hb i hi
        obtain rfl := Option.some.inj hb
        rw [htakes.isSet_iff, hm, ← htakes.total]
        exact .inr hi
      rw [hempty, hs']
      exact ⟨fun hsame => hsame.1.symm, fun hnone => ⟨hnone.symm, rfl, rfl⟩⟩
    · cases hok

/-- All eight frames are in use, so a call fails and changes nothing. -/
theorem createRegion_error_full : ∃ e s',
    (boot (some (BitmapFrameAllocator.new 8))).createRegion 1 4096 = some (.error e, s') ∧
      s'.freeFrames = (boot (some (BitmapFrameAllocator.new 8))).freeFrames := by
  have hcreate : ((boot (some (BitmapFrameAllocator.new 8))).createRegion 1 4096).map Prod.fst =
      some (.error .recipientNotFound) := by
    decide
  obtain ⟨⟨result, s'⟩, h, rfl⟩ := Option.map_eq_some_iff.mp hcreate
  have hreach : ∀ a, (boot (some (BitmapFrameAllocator.new 8))).frames = some a →
      BitmapFrameAllocator.system.Reachable a := by
    intro a ha
    obtain rfl := Option.some.inj ha
    exact TransitionSystem.Reachable.init ⟨8, [], rfl⟩
  exact ⟨_, s', h, ((createRegion_error_iff hreach h).mpr (by decide)).1⟩

/-- Of five pages four are taken before the call fails, and stay taken. -/
theorem createRegion_leaks : ∃ s',
    (boot (some fragmented)).createRegion 1 0x5000 = some (.error .recipientNotFound, s') ∧
      (boot (some fragmented)).freeFrames = {1, 3, 4, 5} ∧ s'.freeFrames = ∅ := by
  have hcreate : ((boot (some fragmented)).createRegion 1 0x5000).map
      (fun x => (x.1, x.2.freeFrames)) = some (.error .recipientNotFound, ∅) := by
    decide
  obtain ⟨⟨result, s'⟩, h, hstate⟩ := Option.map_eq_some_iff.mp hcreate
  simp only [Prod.mk.injEq] at hstate
  obtain ⟨rfl, hfree⟩ := hstate
  exact ⟨s', h, by decide, hfree⟩

end SharedMemory

end OxideOS
