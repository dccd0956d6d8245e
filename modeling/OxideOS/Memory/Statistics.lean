import OxideOS.Memory.FrameAllocator

/-!
# Memory statistics

`BitmapFrameAllocator::stats` subtracts the number of bits that are set in the bitmap from the
number of frames.  A bitmap has whole bytes: when the number of frames is no multiple of eight, the
last byte has padding bits, which `new` sets and which no call clears.  They are counted as frames
in use, so the number of free frames comes out too low, or the subtraction underflows.

Regions may be marked at any time here, not only before the first allocation.  The hint then says
nothing about the frames below it, but it never passes the last frame.

## Main definitions

* `BitmapFrameAllocator.stats`
* `BitmapFrameAllocator.anyOrder`: marking, allocations and frees of valid frames, in any order
* `BitmapFrameAllocator.Marks`: what marking frames does
* `BitmapFrameAllocator.Padded`: the padding bits are set

## Main results

* `BitmapFrameAllocator.marks_markRegion`: marking a region marks its frames and no other
* `BitmapFrameAllocator.padded_of_reachable`: the padding bits are set in all states
* `BitmapFrameAllocator.stats_eq`: the free frames that are reported
-/

namespace OxideOS

namespace BitmapFrameAllocator

/-- `stats`: the number of free frames and of all frames.  `none` is the panic when the subtraction
underflows. -/
def stats (a : BitmapFrameAllocator) : Option (Nat × Nat) :=
  let used := Bitmap.ones a.bitmap
  if used ≤ a.totalFrames then some (a.totalFrames - used, a.totalFrames) else none

/-- The padding bits of the last byte. -/
def padding (totalFrames : Nat) : Nat := 8 * ((totalFrames + 7) / 8) - totalFrames

theorem padding_eq_zero_iff {totalFrames : Nat} : padding totalFrames = 0 ↔ 8 ∣ totalFrames := by
  rw [padding]
  omega

variable {a a' a'' : BitmapFrameAllocator} {i j : Nat} {marked marked' : Nat → Prop} {v : Bool}

/-! ## Marking -/

/-- The marked frames get one bit, and all else stays as it is. -/
structure Marks (a : BitmapFrameAllocator) (marked : Nat → Prop) (v : Bool)
    (a' : BitmapFrameAllocator) : Prop where
  total : a'.totalFrames = a.totalFrames
  size : a'.bitmap.length = a.bitmap.length
  hint : a'.nextFree = a.nextFree
  inside : ∀ j, marked j → a'.isSet j = v
  outside : ∀ j, ¬marked j → a'.isSet j = a.isSet j

theorem Marks.of_forall_not (h : ∀ j, ¬marked j) : a.Marks marked v a :=
  ⟨rfl, rfl, rfl, fun j hj => absurd hj (h j), fun _ _ => rfl⟩

theorem Marks.trans (h : a.Marks marked v a') (h' : a'.Marks marked' v a'') :
    a.Marks (fun j => marked j ∨ marked' j) v a'' := by
  refine ⟨h'.total.trans h.total, h'.size.trans h.size, h'.hint.trans h.hint, ?_, ?_⟩
  · intro j hj
    by_cases hj' : marked' j
    · exact h'.inside j hj'
    · rw [h'.outside j hj']
      exact h.inside j (hj.resolve_right hj')
  · intro j hj
    rw [h'.outside j fun hj' => hj (.inr hj')]
    exact h.outside j fun hj' => hj (.inl hj')

theorem Marks.congr (h : a.Marks marked v a') (heq : ∀ j, marked j ↔ marked' j) :
    a.Marks marked' v a' :=
  ⟨h.total, h.size, h.hint, fun j hj => h.inside j ((heq j).mpr hj),
    fun j hj => h.outside j fun hj' => hj ((heq j).mp hj')⟩

/-- What is free when frames have been marked as used. -/
theorem Marks.free_iff_of_used (h : a.Marks marked true a') :
    a'.isSet j = false ↔ ¬marked j ∧ a.isSet j = false := by
  by_cases hj : marked j
  · simp [h.inside j hj, hj]
  · simp [h.outside j hj, hj]

/-- What is free when frames have been marked as free. -/
theorem Marks.free_iff_of_free (h : a.Marks marked false a') :
    a'.isSet j = false ↔ marked j ∨ a.isSet j = false := by
  by_cases hj : marked j
  · simp [h.inside j hj, hj]
  · simp [h.outside j hj, hj]

theorem marks_setBit (hi : i / 8 < a.bitmap.length) :
    a.Marks (fun j => j = i) true (a.setBit i) := by
  refine ⟨rfl, Bitmap.length_set, rfl, ?_, ?_⟩
  · rintro j rfl
    simp [isSet_setBit hi]
  · intro j hj
    simp [isSet_setBit hi, hj]

theorem marks_clearBit (hi : i / 8 < a.bitmap.length) :
    a.Marks (fun j => j = i) false (a.clearBit i) := by
  refine ⟨rfl, Bitmap.length_clear, rfl, ?_, ?_⟩
  · rintro j rfl
    simp [isSet_clearBit hi]
  · intro j hj
    simp [isSet_clearBit hi, hj]

/-- The bitmap covers all frames. -/
def Covers (a : BitmapFrameAllocator) : Prop := a.bitmap.length = (a.totalFrames + 7) / 8

theorem Covers.lt (h : a.Covers) (hi : i < a.totalFrames) : i / 8 < a.bitmap.length := by
  rw [h]
  omega

theorem Marks.covers (h : a.Marks marked v a') (ha : a.Covers) : a'.Covers := by
  rw [Covers, h.size, h.total]
  exact ha

/-- A loop marks what its turns mark. -/
theorem marks_foldl {β : Type*} {turn : BitmapFrameAllocator → β → BitmapFrameAllocator}
    {marks : β → Nat → Prop}
    (hturn : ∀ (a : BitmapFrameAllocator) (x : β), a.Covers →
      a.Marks (fun j => marks x j ∧ j < a.totalFrames) v (turn a x))
    (ha : a.Covers) (xs : List β) :
    a.Marks (fun j => (∃ x ∈ xs, marks x j) ∧ j < a.totalFrames) v (xs.foldl turn a) := by
  induction xs generalizing a with
  | nil =>
    apply Marks.of_forall_not
    rintro j ⟨⟨x, hx, -⟩, -⟩
    cases hx
  | cons x xs ih =>
    have hone := hturn a x ha
    apply (hone.trans (ih (hone.covers ha))).congr
    intro j
    rw [hone.total, List.exists_mem_cons_iff, or_and_right]

/-- A pass marks the frames of the region, as far as there are such frames. -/
theorem marks_markRegion {update : BitmapFrameAllocator → Nat → BitmapFrameAllocator}
    (hupdate : ∀ (a : BitmapFrameAllocator) (i : Nat), i / 8 < a.bitmap.length →
      a.Marks (fun j => j = i) v (update a i))
    (ha : a.Covers) (start count : Nat) :
    a.Marks (fun j => (start ≤ j ∧ j < start + count) ∧ j < a.totalFrames) v
      (a.markRegion update start count) := by
  have hturn : ∀ (a : BitmapFrameAllocator) (i : Nat), a.Covers →
      a.Marks (fun j => j = i ∧ j < a.totalFrames) v
        (if i < a.totalFrames then update a i else a) := by
    intro a i ha
    split_ifs with hi
    · apply (hupdate a i (ha.lt hi)).congr
      intro j
      rw [iff_self_and]
      rintro rfl
      exact hi
    · apply Marks.of_forall_not
      rintro j ⟨rfl, hlt⟩
      exact hi hlt
  apply (marks_foldl hturn ha (List.range' start count)).congr
  intro j
  rw [exists_eq_right', List.mem_range'_1]

theorem marks_markRegionFree (ha : a.Covers) (start count : Nat) :
    a.Marks (fun j => (start ≤ j ∧ j < start + count) ∧ j < a.totalFrames) false
      (a.markRegionFree start count) :=
  marks_markRegion (fun _ _ => marks_clearBit) ha start count

theorem marks_markRegionUsed (ha : a.Covers) (start count : Nat) :
    a.Marks (fun j => (start ≤ j ∧ j < start + count) ∧ j < a.totalFrames) true
      (a.markRegionUsed start count) :=
  marks_markRegion (fun _ _ => marks_setBit) ha start count

/-! ## The padding bits -/

/-- The frame is one of those that the allocator manages. -/
def Valid (a : BitmapFrameAllocator) (frame : PhysFrame) : Prop :=
  ∃ i < a.totalFrames, frame = PhysFrame.ofIndex i

/-- The calls on an allocator. -/
inductive AllocatorOp
  | mark (op : MarkOp)
  | allocate
  | free (frame : PhysFrame)

/-- Any calls in any order, where only valid frames are freed. -/
def anyOrder : TransitionSystem BitmapFrameAllocator AllocatorOp where
  Init a := ∃ totalFrames, a = new totalFrames
  Step a op a' :=
    match op with
    | .mark op => a.mark op = a'
    | .allocate => a.allocateFrame.2 = a'
    | .free frame => a.Valid frame ∧ a.freeFrame frame = some a'

/-- The padding bits are set, and the hint does not pass the last frame. -/
structure Padded (a : BitmapFrameAllocator) : Prop where
  covers : a.Covers
  hint_le : a.nextFree ≤ a.totalFrames
  padding : ∀ i, a.totalFrames ≤ i → i < 8 * a.bitmap.length → a.isSet i = true

/-- Calls that change the bits of frames only leave the padding bits alone. -/
theorem Padded.of_outside (h : a.Padded) (htotal : a'.totalFrames = a.totalFrames)
    (hsize : a'.bitmap.length = a.bitmap.length) (hhint : a'.nextFree ≤ a.totalFrames)
    (hbits : ∀ i, a.totalFrames ≤ i → a'.isSet i = a.isSet i) : a'.Padded := by
  refine ⟨?_, htotal ▸ hhint, fun i hi hlt => ?_⟩
  · rw [Covers, hsize, htotal]
    exact h.covers
  · rw [htotal] at hi
    rw [hbits i hi]
    exact h.padding i hi (hsize ▸ hlt)

theorem Padded.marks (h : a.Padded) (hmarks : a.Marks marked v a')
    (hlt : ∀ j, marked j → j < a.totalFrames) : a'.Padded :=
  h.of_outside hmarks.total hmarks.size (hmarks.hint ▸ h.hint_le) fun i hi =>
    hmarks.outside i fun hm => absurd (hlt i hm) (Nat.not_lt.mpr hi)

theorem Padded.mark (h : a.Padded) (op : MarkOp) : (a.mark op).Padded := by
  cases op with
  | free start count => exact h.marks (marks_markRegionFree h.covers start count) fun _ hj => hj.2
  | used start count => exact h.marks (marks_markRegionUsed h.covers start count) fun _ hj => hj.2

theorem Padded.take (h : a.Padded) (hi : i < a.totalFrames) : (a.take i).Padded := by
  have hmarks := marks_setBit (h.covers.lt hi)
  refine h.of_outside hmarks.total hmarks.size hi fun j hj => ?_
  exact hmarks.outside j (by omega)

theorem Padded.allocateFrame (h : a.Padded) : a.allocateFrame.2.Padded := by
  rw [BitmapFrameAllocator.allocateFrame]
  split
  · next i hfind => exact h.take (findFree_eq_some.mp hfind).2.1.2
  · split
    · next i hfind => exact h.take ((findFree_eq_some.mp hfind).2.1.2.trans_le h.hint_le)
    · exact h

theorem Padded.freeFrame {frame : PhysFrame} (h : a.Padded) (hvalid : a.Valid frame)
    (hfree : a.freeFrame frame = some a') : a'.Padded := by
  obtain ⟨i, hi, rfl⟩ := hvalid
  have hmarks := marks_clearBit (h.covers.lt hi)
  have hbits : ∀ j, a.totalFrames ≤ j → (a.clearBit i).isSet j = a.isSet j :=
    fun j hj => hmarks.outside j (by omega)
  rw [BitmapFrameAllocator.freeFrame] at hfree
  simp only [PhysFrame.index_ofIndex, h.covers.lt hi, if_true] at hfree
  split_ifs at hfree with hhint
  · obtain rfl := Option.some.inj hfree
    exact h.of_outside hmarks.total hmarks.size hi.le hbits
  · obtain rfl := Option.some.inj hfree
    exact h.of_outside hmarks.total hmarks.size h.hint_le hbits

/-- All bits of a new allocator are set. -/
theorem isSet_new {totalFrames : Nat} (hi : i / 8 < (totalFrames + 7) / 8) :
    (new totalFrames).isSet i = true := by
  rw [isSet, Bitmap.test_eq, new, List.getD_eq_getElem?_getD, List.getElem?_replicate, if_pos hi,
    Option.getD_some]
  have hall : ∀ k < 8, (0xFF : BitVec 8).getLsbD k = true := by decide
  exact hall _ (Nat.mod_lt _ (by omega))

theorem padded_new (totalFrames : Nat) : (new totalFrames).Padded where
  covers := by simp [Covers, new]
  hint_le := Nat.zero_le _
  padding i _ hi := by
    simp only [new, List.length_replicate] at hi
    exact isSet_new (by omega)

theorem padded_invariant : anyOrder.Invariant Padded where
  init a := by
    rintro ⟨totalFrames, rfl⟩
    exact padded_new totalFrames
  step a op a' h hstep := by
    cases op with
    | mark op =>
      obtain rfl : a.mark op = a' := hstep
      exact h.mark op
    | allocate =>
      obtain rfl : a.allocateFrame.2 = a' := hstep
      exact h.allocateFrame
    | free frame =>
      obtain ⟨hvalid, hfree⟩ := hstep
      exact h.freeFrame hvalid hfree

theorem padded_of_reachable (h : anyOrder.Reachable a) : a.Padded :=
  padded_invariant.of_reachable h

/-! ## What is reported -/

/-- The bits that are set are those of the frames in use and the padding bits. -/
theorem ones_add_free (h : a.Padded) :
    Bitmap.ones a.bitmap + (a.freeBelow a.totalFrames).card =
      a.totalFrames + padding a.totalFrames := by
  have hlength : 8 * a.bitmap.length = a.totalFrames + padding a.totalFrames := by
    rw [h.covers, padding]
    omega
  have hpadding : Nat.count (fun k => Bitmap.test a.bitmap (a.totalFrames + k) = true)
      (padding a.totalFrames) = padding a.totalFrames := by
    apply Nat.count_iff_forall.mpr
    intro k hk
    exact h.padding _ (Nat.le_add_right _ _) (by omega)
  have hframes : Nat.count (fun i => Bitmap.test a.bitmap i = true) a.totalFrames +
      (a.freeBelow a.totalFrames).card = a.totalFrames := by
    rw [Nat.count_eq_card_filter_range, freeBelow]
    simp only [isSet, ← Bool.not_eq_true]
    rw [Finset.card_filter_add_card_filter_not, Finset.card_range]
  rw [Bitmap.ones_eq_count, hlength, Nat.count_add, hpadding]
  omega

/-- The padding is missing from the free frames that are reported. -/
theorem stats_eq (h : a.Padded) : a.stats =
    if padding a.totalFrames ≤ (a.freeBelow a.totalFrames).card then
      some ((a.freeBelow a.totalFrames).card - padding a.totalFrames, a.totalFrames)
    else none := by
  have hones := ones_add_free h
  rw [stats]
  split_ifs with hle hpadding hpadding
  · rw [Option.some_inj, Prod.mk.injEq]
    exact ⟨by omega, rfl⟩
  · omega
  · omega
  · rfl

/-- **The statistics are exact only without padding.**  In every state, whatever has been marked,
allocated and freed, the free frames are reported as they are exactly when the number of frames is
a multiple of eight. -/
theorem stats_eq_free_iff (h : anyOrder.Reachable a) :
    a.stats = some ((a.freeBelow a.totalFrames).card, a.totalFrames) ↔ 8 ∣ a.totalFrames := by
  rw [stats_eq (padded_of_reachable h), ← padding_eq_zero_iff]
  split_ifs with hle
  · rw [Option.some_inj, Prod.mk.injEq]
    constructor
    · rintro ⟨hfree, -⟩
      omega
    · intro hzero
      exact ⟨by omega, rfl⟩
  · constructor
    · intro hnone
      cases hnone
    · intro hzero
      omega

theorem stats_eq_free_iff_eight :
    ((new 8).markRegionFree 2 3).stats =
      some ((((new 8).markRegionFree 2 3).freeBelow 8).card, 8) :=
  (stats_eq_free_iff (TransitionSystem.Reachable.step (i := .mark (.free 2 3))
    (TransitionSystem.Reachable.init ⟨8, rfl⟩) rfl)).mpr (by decide)

/-- Of nine frames eight are free: one is reported, as seven padding bits are set.  With a single
frame the subtraction underflows. -/
theorem stats_ne_free :
    (anyOrder.Reachable ((new 9).markRegionFree 0 8) ∧
      (((new 9).markRegionFree 0 8).freeBelow 9).card = 8 ∧
      ((new 9).markRegionFree 0 8).stats = some (1, 9)) ∧
    anyOrder.Reachable ((new 1).markRegionFree 0 1) ∧
      (((new 1).markRegionFree 0 1).freeBelow 1).card = 1 ∧
      ((new 1).markRegionFree 0 1).stats = none := by
  refine ⟨⟨?_, by decide, by decide⟩, ?_, by decide, by decide⟩
  · exact TransitionSystem.Reachable.step (i := .mark (.free 0 8))
      (TransitionSystem.Reachable.init ⟨9, rfl⟩) rfl
  · exact TransitionSystem.Reachable.step (i := .mark (.free 0 1))
      (TransitionSystem.Reachable.init ⟨1, rfl⟩) rfl

end BitmapFrameAllocator

end OxideOS
