import OxideOS.Memory.Statistics
import Mathlib.Data.List.Pairwise

/-!
# The memory map at boot

`frame_allocator::init` builds the allocator from the memory map of the boot loader.  Frames are
tracked up to the end of the highest usable entry.  Three passes mark them: usable entries are
free, the bitmap itself is in use, and so are the entries of the kernel and the boot loader, which
need not be aligned.

The passes leave just the right frames free: an unaligned entry is rounded to frames that it
touches, and none of these lies in a usable entry.  At the end, though, `init` prints the
statistics, where the subtraction underflows when fewer frames are free than the last byte of the
bitmap has padding bits.

## Main definitions

* `MemmapEntry`, `MemmapEntry.Inside`, `MemmapEntry.Touches`: an entry, and the frames in it
* `BitmapFrameAllocator.init`
* `WellFormedMap`: usable and reclaimable entries are aligned and overlap no other
* `availableFrames`: the frames in usable entries, without those of the bitmap

## Main results

* `BitmapFrameAllocator.freeBelow_marked`: the frames that the passes leave free
* `BitmapFrameAllocator.init_eq_some_iff`: when `init` returns, and what
-/

namespace OxideOS

/-- The types of entries that `init` tells apart. -/
inductive MemmapType
  | usable
  | bootloaderReclaimable
  | executableAndModules
  | other (code : UInt64)
deriving DecidableEq, Repr

/-- `limine::memmap::Entry`. -/
structure MemmapEntry where
  base : UInt64
  length : UInt64
  type : MemmapType
deriving DecidableEq, Repr

namespace MemmapEntry

/-- `entry.base + entry.length`, without a bound. -/
def endAddr (e : MemmapEntry) : Nat := e.base.toNat + e.length.toNat

/-- `(entry.base / PAGE_SIZE) as usize`. -/
def startFrame (e : MemmapEntry) : Nat := e.base.toNat / pageSize

/-- `(entry.length / PAGE_SIZE) as usize`. -/
def frameCount (e : MemmapEntry) : Nat := e.length.toNat / pageSize

/-- `entry.type_ == MEMMAP_USABLE`. -/
def isUsable (e : MemmapEntry) : Bool := e.type == .usable

/-- `is_protected`. -/
def isProtected (e : MemmapEntry) : Bool :=
  e.type == .bootloaderReclaimable || e.type == .executableAndModules

/-- The entry covers the address. -/
def Covers (e : MemmapEntry) (addr : Nat) : Prop := e.base.toNat ≤ addr ∧ addr < e.endAddr

/-- The frame lies inside the entry. -/
def Inside (e : MemmapEntry) (i : Nat) : Prop :=
  e.base.toNat ≤ i * pageSize ∧ (i + 1) * pageSize ≤ e.endAddr

instance (e : MemmapEntry) (i : Nat) : Decidable (e.Inside i) :=
  inferInstanceAs (Decidable (_ ∧ _))

/-- The entry covers an address in the frame. -/
def Touches (e : MemmapEntry) (i : Nat) : Prop :=
  ∃ addr, (i * pageSize ≤ addr ∧ addr < (i + 1) * pageSize) ∧ e.Covers addr

/-- The frame is one of those that a pass over the entry marks. -/
def Spans (e : MemmapEntry) (i : Nat) : Prop :=
  e.startFrame ≤ i ∧ i < e.startFrame + e.frameCount

/-- The entry is of a type that overlaps no other entry. -/
def Exclusive (e : MemmapEntry) : Prop := e.type = .usable ∨ e.type = .bootloaderReclaimable

/-- No address is covered by both entries. -/
def Apart (e e' : MemmapEntry) : Prop := ∀ addr, e.Covers addr → ¬e'.Covers addr

end MemmapEntry

/-! ## The map -/

/-- `max_addr`: the end of the highest usable entry. -/
def maxAddr (entries : List MemmapEntry) : Nat :=
  (((entries.filter (·.isUsable)).map (·.endAddr)).max?).getD 0

/-- `total_frames`. -/
def mapFrames (entries : List MemmapEntry) : Nat := maxAddr entries / pageSize

/-- `bitmap_size`, in bytes. -/
def bitmapSize (entries : List MemmapEntry) : Nat := (mapFrames entries + 7) / 8

/-- `bitmap_region`: the first usable entry that is large enough for the bitmap. -/
def bitmapRegion (entries : List MemmapEntry) : Option MemmapEntry :=
  (entries.filter (·.isUsable)).find? fun e => bitmapSize entries ≤ e.length.toNat

/-- Usable and reclaimable entries are aligned and overlap no other entry, and there is a usable
entry for the bitmap. -/
structure WellFormedMap (entries : List MemmapEntry) : Prop where
  aligned : ∀ e ∈ entries, e.Exclusive → pageSize ∣ e.base.toNat ∧ pageSize ∣ e.length.toNat
  apart : entries.Pairwise fun e e' => e.Exclusive ∨ e'.Exclusive → e.Apart e'
  room : ∃ e ∈ entries, e.type = .usable ∧ bitmapSize entries ≤ e.length.toNat

/-- The frame lies inside a usable entry. -/
def InUsable (entries : List MemmapEntry) (i : Nat) : Prop :=
  ∃ e ∈ entries, e.isUsable = true ∧ e.Inside i

instance (entries : List MemmapEntry) (i : Nat) : Decidable (InUsable entries i) :=
  inferInstanceAs (Decidable (∃ e ∈ entries, e.isUsable = true ∧ e.Inside i))

/-- The frame holds a byte of the bitmap, which begins with its region. -/
def HoldsBitmap (entries : List MemmapEntry) (i : Nat) : Prop :=
  ∃ region ∈ bitmapRegion entries, region.base.toNat < (i + 1) * pageSize ∧
    i * pageSize < region.base.toNat + bitmapSize entries

instance (entries : List MemmapEntry) (i : Nat) : Decidable (HoldsBitmap entries i) :=
  inferInstanceAs (Decidable (∃ region ∈ bitmapRegion entries,
    region.base.toNat < (i + 1) * pageSize ∧
      i * pageSize < region.base.toNat + bitmapSize entries))

/-- The frames in usable entries, without those of the bitmap. -/
def availableFrames (entries : List MemmapEntry) : Finset Nat :=
  {i ∈ Finset.range (mapFrames entries) | InUsable entries i ∧ ¬HoldsBitmap entries i}

/-! ## Frames and addresses -/

namespace MemmapEntry

variable {e : MemmapEntry} {i : Nat}

/-- In an aligned entry the frames of a pass are the frames inside. -/
theorem spans_iff_inside (hbase : pageSize ∣ e.base.toNat) (hlength : pageSize ∣ e.length.toNat) :
    e.Spans i ↔ e.Inside i := by
  obtain ⟨b, hb⟩ := hbase
  obtain ⟨l, hl⟩ := hlength
  rw [Spans, Inside, startFrame, frameCount, endAddr, hb, hl, pageSize]
  omega

/-- A pass rounds an entry to frames that the entry touches, aligned or not. -/
theorem Spans.touches (h : e.Spans i) : e.Touches i := by
  rw [Spans, startFrame, frameCount, pageSize] at h
  refine ⟨max e.base.toNat (i * pageSize), ?_⟩
  rw [Covers, endAddr, pageSize]
  omega

theorem Inside.covers (h : e.Inside i) {addr : Nat}
    (haddr : i * pageSize ≤ addr ∧ addr < (i + 1) * pageSize) : e.Covers addr :=
  ⟨h.1.trans haddr.1, haddr.2.trans_le h.2⟩

theorem exclusive_of_isUsable (h : e.isUsable = true) : e.Exclusive :=
  .inl (beq_iff_eq.mp h)

theorem isUsable_of_isProtected (h : e.isProtected = true) : e.isUsable = false := by
  rw [isProtected] at h
  rw [isUsable]
  cases htype : e.type with
  | usable =>
    rw [htype] at h
    cases h
  | bootloaderReclaimable => rfl
  | executableAndModules => rfl
  | other code => rfl

end MemmapEntry

section Map

variable {entries : List MemmapEntry} {region e : MemmapEntry} {i : Nat}

theorem bitmapRegion_eq_some (h : bitmapRegion entries = some region) :
    region ∈ entries ∧ region.isUsable = true :=
  List.mem_filter.mp (List.mem_of_find?_eq_some h)

theorem mem_availableFrames :
    i ∈ availableFrames entries ↔ InUsable entries i ∧ ¬HoldsBitmap entries i := by
  rw [availableFrames, Finset.mem_filter, Finset.mem_range, and_iff_right_iff_imp]
  rintro ⟨⟨e, he, husable, hinside⟩, -⟩
  have hmax : e.endAddr ≤ maxAddr entries := by
    apply List.le_max?_getD_of_mem
    apply List.mem_map_of_mem
    exact List.mem_filter.mpr ⟨he, husable⟩
  have hend := hinside.2.trans hmax
  rw [mapFrames, pageSize] at *
  omega

namespace WellFormedMap

theorem inUsable_iff (h : WellFormedMap entries) :
    InUsable entries i ↔ ∃ e ∈ entries, e.isUsable = true ∧ e.Spans i := by
  apply exists_congr
  intro e
  rw [and_congr_right_iff, and_congr_right_iff]
  intro he husable
  obtain ⟨hbase, hlength⟩ := h.aligned e he (MemmapEntry.exclusive_of_isUsable husable)
  exact (MemmapEntry.spans_iff_inside hbase hlength).symm

/-- The second pass marks the frames of the bitmap. -/
theorem holdsBitmap_iff (h : WellFormedMap entries) (hregion : bitmapRegion entries = some region) :
    HoldsBitmap entries i ↔ region.startFrame ≤ i ∧
      i < region.startFrame + (bitmapSize entries + pageSize - 1) / pageSize := by
  obtain ⟨hmem, husable⟩ := bitmapRegion_eq_some hregion
  obtain ⟨b, hb⟩ := (h.aligned region hmem (MemmapEntry.exclusive_of_isUsable husable)).1
  have hholds : HoldsBitmap entries i ↔ region.base.toNat < (i + 1) * pageSize ∧
      i * pageSize < region.base.toNat + bitmapSize entries := by
    simp [HoldsBitmap, hregion]
  rw [hholds, MemmapEntry.startFrame, hb, pageSize]
  omega

/-- A usable entry has no address in common with an entry of another type. -/
theorem apart_of_isUsable (h : WellFormedMap entries) {e e' : MemmapEntry}
    (he : e ∈ entries) (he' : e' ∈ entries) (husable : e.isUsable = true)
    (hother : e'.isUsable = false) : e.Apart e' := by
  have hsymm : Std.Symm fun e e' : MemmapEntry => e.Exclusive ∨ e'.Exclusive → e.Apart e' :=
    ⟨fun e e' hee' hex addr hcov hcov' => hee' hex.symm addr hcov' hcov⟩
  refine h.apart.forall he he' ?_ (.inl (MemmapEntry.exclusive_of_isUsable husable))
  rintro rfl
  rw [husable] at hother
  cases hother

/-- So a frame inside a usable entry is not touched by another one. -/
theorem not_touches (h : WellFormedMap entries) (hi : InUsable entries i)
    (he : e ∈ entries) (hother : e.isUsable = false) : ¬e.Touches i := by
  obtain ⟨u, hu, husable, hinside⟩ := hi
  rintro ⟨addr, haddr, hcovers⟩
  exact h.apart_of_isUsable hu he husable hother addr (hinside.covers haddr) hcovers

end WellFormedMap

end Map

namespace BitmapFrameAllocator

/-- One turn of the first pass. -/
def freeUsable (a : BitmapFrameAllocator) (e : MemmapEntry) : BitmapFrameAllocator :=
  if e.isUsable then a.markRegionFree e.startFrame e.frameCount else a

/-- One turn of the last pass. -/
def protect (a : BitmapFrameAllocator) (e : MemmapEntry) : BitmapFrameAllocator :=
  if e.isProtected then
    if e.startFrame < a.totalFrames then a.markRegionUsed e.startFrame e.frameCount else a
  else a

/-- The allocator after the three passes. -/
def marked (entries : List MemmapEntry) (region : MemmapEntry) : BitmapFrameAllocator :=
  let a := entries.foldl freeUsable (new (mapFrames entries))
  let a := a.markRegionUsed region.startFrame ((bitmapSize entries + pageSize - 1) / pageSize)
  entries.foldl protect a

/-- `frame_allocator::init`.  `none` is a panic: an address overflows, no region has room for the
bitmap, or the statistics underflow. -/
def init (entries : List MemmapEntry) (hhdmOffset : UInt64) : Option BitmapFrameAllocator :=
  if (entries.filter (·.isUsable)).all fun e => e.endAddr < 2 ^ 64 then
    match bitmapRegion entries with
    | none => none
    | some region =>
      if region.base.toNat + hhdmOffset.toNat < 2 ^ 64 then
        let allocator := marked entries region
        match allocator.stats with
        | none => none
        | some _ => some allocator
      else none
  else none

variable {a : BitmapFrameAllocator} {entries : List MemmapEntry} {region e : MemmapEntry}
  {hhdmOffset : UInt64} {i : Nat}

/-! ## The passes -/

theorem marks_freeUsable (a : BitmapFrameAllocator) (e : MemmapEntry) (ha : a.Covers) :
    a.Marks (fun j => (e.isUsable = true ∧ e.Spans j) ∧ j < a.totalFrames) false
      (a.freeUsable e) := by
  rw [freeUsable]
  split_ifs with he
  · apply (marks_markRegionFree ha _ _).congr
    intro j
    rw [and_iff_right he, MemmapEntry.Spans]
  · exact Marks.of_forall_not fun j hj => he hj.1.1

theorem marks_protect (a : BitmapFrameAllocator) (e : MemmapEntry) (ha : a.Covers) :
    a.Marks (fun j => (e.isProtected = true ∧ e.Spans j) ∧ j < a.totalFrames) true
      (a.protect e) := by
  rw [protect]
  split_ifs with he hstart
  · apply (marks_markRegionUsed ha _ _).congr
    intro j
    rw [and_iff_right he, MemmapEntry.Spans]
  · exact Marks.of_forall_not fun j hj => hstart (hj.1.2.1.trans_lt hj.2)
  · exact Marks.of_forall_not fun j hj => he hj.1.1

/-- The passes leave free what is usable and is marked by neither later pass. -/
theorem marked_spec (entries : List MemmapEntry) (region : MemmapEntry) :
    (marked entries region).Padded ∧ (marked entries region).totalFrames = mapFrames entries ∧
      ∀ i < mapFrames entries, (marked entries region).isSet i = false ↔
        (¬∃ e ∈ entries, e.isProtected = true ∧ e.Spans i) ∧
          ¬(region.startFrame ≤ i ∧
            i < region.startFrame + (bitmapSize entries + pageSize - 1) / pageSize) ∧
          ∃ e ∈ entries, e.isUsable = true ∧ e.Spans i := by
  have hnew := padded_new (mapFrames entries)
  have hfree := marks_foldl marks_freeUsable hnew.covers entries
  have hpadded := hnew.marks hfree fun _ hj => hj.2
  have hbitmap := marks_markRegionUsed hpadded.covers region.startFrame
    ((bitmapSize entries + pageSize - 1) / pageSize)
  have hpadded' := hpadded.marks hbitmap fun _ hj => hj.2
  have hprotect := marks_foldl marks_protect hpadded'.covers entries
  have htotal := hbitmap.total.trans hfree.total
  refine ⟨hpadded'.marks hprotect fun _ hj => hj.2, hprotect.total.trans htotal, fun i hi => ?_⟩
  have hset : (new (mapFrames entries)).isSet i = true := isSet_new (by omega)
  rw [marked, hprotect.free_iff_of_used, hbitmap.free_iff_of_used, hfree.free_iff_of_free, htotal,
    hfree.total, hset]
  have hlt : i < (new (mapFrames entries)).totalFrames := hi
  simp [hlt]

/-- **The passes leave the available frames free**, and no other. -/
theorem freeBelow_marked (h : WellFormedMap entries)
    (hregion : bitmapRegion entries = some region) :
    (marked entries region).freeBelow (mapFrames entries) = availableFrames entries := by
  ext i
  rw [mem_freeBelow, availableFrames, Finset.mem_filter, Finset.mem_range, and_congr_right_iff]
  intro hi
  rw [(marked_spec entries region).2.2 i hi, ← h.holdsBitmap_iff hregion, ← h.inUsable_iff]
  constructor
  · rintro ⟨-, hbitmap, husable⟩
    exact ⟨husable, hbitmap⟩
  · rintro ⟨husable, hbitmap⟩
    refine ⟨?_, hbitmap, husable⟩
    rintro ⟨e, he, hprotected, hspans⟩
    exact h.not_touches husable he (MemmapEntry.isUsable_of_isProtected hprotected) hspans.touches

/-! ## The result -/

/-- The passes are marking calls. -/
theorem exists_marks_foldl {turn : BitmapFrameAllocator → MemmapEntry → BitmapFrameAllocator}
    (hturn : ∀ (a : BitmapFrameAllocator) (e : MemmapEntry),
      turn a e = a ∨ ∃ op, turn a e = a.mark op) (entries : List MemmapEntry)
    (a : BitmapFrameAllocator) :
    ∃ marks : List MarkOp, entries.foldl turn a = marks.foldl mark a := by
  induction entries generalizing a with
  | nil => exact ⟨[], rfl⟩
  | cons e entries ih =>
    obtain ⟨marks, hmarks⟩ := ih (turn a e)
    rw [List.foldl_cons, hmarks]
    rcases hturn a e with hsame | ⟨op, hop⟩
    · exact ⟨marks, by rw [hsame]⟩
    · exact ⟨op :: marks, by rw [hop, List.foldl_cons]⟩

theorem reachable_marked (entries : List MemmapEntry) (region : MemmapEntry) :
    system.Reachable (marked entries region) := by
  have hfree : ∀ (a : BitmapFrameAllocator) (e : MemmapEntry),
      a.freeUsable e = a ∨ ∃ op, a.freeUsable e = a.mark op := by
    intro a e
    rw [freeUsable]
    split_ifs
    · exact .inr ⟨.free _ _, rfl⟩
    · exact .inl rfl
  have hprotect : ∀ (a : BitmapFrameAllocator) (e : MemmapEntry),
      a.protect e = a ∨ ∃ op, a.protect e = a.mark op := by
    intro a e
    rw [protect]
    split_ifs
    · exact .inr ⟨.used _ _, rfl⟩
    · exact .inl rfl
    · exact .inl rfl
  obtain ⟨frees, hfrees⟩ := exists_marks_foldl hfree entries (new (mapFrames entries))
  obtain ⟨useds, huseds⟩ := exists_marks_foldl hprotect entries
    ((frees.foldl mark (new (mapFrames entries))).markRegionUsed region.startFrame
      ((bitmapSize entries + pageSize - 1) / pageSize))
  apply TransitionSystem.Reachable.init
  refine ⟨mapFrames entries, frees ++ .used region.startFrame
    ((bitmapSize entries + pageSize - 1) / pageSize) :: useds, ?_⟩
  rw [marked, hfrees, huseds, List.foldl_append, List.foldl_cons]
  rfl

/-- When `init` returns, and what. -/
theorem init_eq_some_iff (h : WellFormedMap entries) : init entries hhdmOffset = some a ↔
    (∀ e ∈ entries, e.isUsable = true → e.endAddr < 2 ^ 64) ∧
      padding (mapFrames entries) ≤ (availableFrames entries).card ∧
      ∃ region ∈ bitmapRegion entries,
        region.base.toNat + hhdmOffset.toNat < 2 ^ 64 ∧ a = marked entries region := by
  have hall : (entries.filter (·.isUsable)).all (fun e => e.endAddr < 2 ^ 64) = true ↔
      ∀ e ∈ entries, e.isUsable = true → e.endAddr < 2 ^ 64 := by
    rw [List.all_eq_true]
    simp only [List.mem_filter, decide_eq_true_eq, and_imp]
  rw [init, ← hall]
  split_ifs with hends
  · rw [and_iff_right hends]
    cases hregion : bitmapRegion entries with
    | none =>
      constructor
      · intro hnone
        cases hnone
      · rintro ⟨-, region, hregion', -⟩
        cases hregion'
    | some region =>
      obtain ⟨hpadded, htotal, -⟩ := marked_spec entries region
      have hstats := stats_eq hpadded
      rw [htotal, freeBelow_marked h hregion] at hstats
      simp only [Option.mem_def, Option.some_inj, exists_eq_left', hstats]
      split_ifs with haddr hle
      · exact ⟨fun heq => ⟨hle, haddr, (Option.some.inj heq).symm⟩, fun heq => by rw [heq.2.2]⟩
      · exact ⟨fun hnone => hnone.elim, fun hle' => absurd hle'.1 hle⟩
      · exact ⟨fun hnone => hnone.elim, fun haddr' => absurd haddr'.2.1 haddr⟩
  · exact ⟨fun hnone => hnone.elim, fun hends' => absurd hends'.1 hends⟩

/-- **The memory map is honoured.**  In the allocator that `init` builds the free frames are those
that lie inside a usable entry and do not hold the bitmap, so that no other entry touches them.
And `init` returns exactly when no address overflows and the available frames outnumber the padding
bits of the bitmap, or are as many. -/
theorem init_honours_map (h : WellFormedMap entries) (hhdmOffset : UInt64) :
    (∀ a, init entries hhdmOffset = some a →
      system.Reachable a ∧
      (∀ i, i ∈ a.freeBelow a.totalFrames ↔ InUsable entries i ∧ ¬HoldsBitmap entries i) ∧
      ∀ i ∈ a.freeBelow a.totalFrames, ∀ e ∈ entries, e.isUsable = false → ¬e.Touches i) ∧
    ((∃ a, init entries hhdmOffset = some a) ↔
      (∀ e ∈ entries, e.isUsable = true → e.endAddr < 2 ^ 64) ∧
      (∀ region ∈ bitmapRegion entries, region.base.toNat + hhdmOffset.toNat < 2 ^ 64) ∧
      padding (mapFrames entries) ≤ (availableFrames entries).card) := by
  refine ⟨fun a ha => ?_, ?_⟩
  · obtain ⟨-, -, region, hregion, -, rfl⟩ := (init_eq_some_iff h).mp ha
    have hfree : ∀ i, i ∈ (marked entries region).freeBelow (marked entries region).totalFrames ↔
        InUsable entries i ∧ ¬HoldsBitmap entries i := by
      intro i
      rw [(marked_spec entries region).2.1, freeBelow_marked h hregion, mem_availableFrames]
    refine ⟨reachable_marked entries region, hfree, fun i hi e he hother => ?_⟩
    exact h.not_touches ((hfree i).mp hi).1 he hother
  · simp only [init_eq_some_iff h]
    constructor
    · rintro ⟨a, hends, hle, region, hregion, haddr, -⟩
      refine ⟨hends, fun region' hregion' => ?_, hle⟩
      obtain rfl := Option.some.inj (hregion.symm.trans hregion')
      exact haddr
    · rintro ⟨hends, haddr, hle⟩
      obtain ⟨e, he, husable, hroom⟩ := h.room
      have hsome : (bitmapRegion entries).isSome = true := by
        rw [bitmapRegion, List.find?_isSome]
        refine ⟨e, List.mem_filter.mpr ⟨he, beq_iff_eq.mpr husable⟩, decide_eq_true hroom⟩
      obtain ⟨region, hregion⟩ := Option.isSome_iff_exists.mp hsome
      exact ⟨_, hends, hle, region, hregion, haddr region hregion, rfl⟩

/-- A map of fifteen usable frames, then the kernel, which begins in the middle of a frame, and a
reserved entry that overlaps it. -/
def sampleMap : List MemmapEntry :=
  [⟨0x1000, 0xF000, .usable⟩, ⟨0x10800, 0x2000, .executableAndModules⟩, ⟨0x11000, 0x1000, .other 1⟩]

theorem wellFormed_sampleMap : WellFormedMap sampleMap where
  aligned e he hex := by
    simp only [sampleMap, List.mem_cons, List.not_mem_nil, or_false] at he
    rcases he with rfl | rfl | rfl
    · decide
    · rcases hex with hex | hex <;> cases hex
    · rcases hex with hex | hex <;> cases hex
  apart := by
    simp [sampleMap, MemmapEntry.Exclusive, MemmapEntry.Apart, MemmapEntry.Covers,
      MemmapEntry.endAddr]
    constructor
    · intro addr
      omega
    · intro addr
      omega
  room := ⟨⟨0x1000, 0xF000, .usable⟩, List.mem_cons_self, rfl, by decide⟩

theorem init_honours_sampleMap : ∃ a, init sampleMap 0xFFFF800000000000 = some a :=
  (init_honours_map wellFormed_sampleMap 0xFFFF800000000000).2.mpr
    ⟨by decide, by decide, by decide⟩

/-- A single usable page holds the bitmap.  No frame is left, all eight bits are set, and the
statistics subtract eight from two. -/
theorem init_panics :
    WellFormedMap [⟨0x1000, 0x1000, .usable⟩] ∧
      init [⟨0x1000, 0x1000, .usable⟩] 0xFFFF800000000000 = none := by
  refine ⟨⟨?_, List.pairwise_singleton _ _, ?_⟩, by decide⟩
  · intro e he _
    rw [List.mem_singleton.mp he]
    decide
  · exact ⟨_, List.mem_singleton_self _, rfl, by decide⟩

end BitmapFrameAllocator

end OxideOS
