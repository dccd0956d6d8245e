import OxideOS.Lib.Bitmap
import OxideOS.Lib.TransitionSystem
import Mathlib.Data.Finset.Card

/-!
# The physical frame allocator

A bitmap with one bit for each 4 KiB frame, set when the frame is in use. Allocation scans for a
clear bit from a hint onwards, then wraps around to the frames below the hint; freeing a frame
clears its bit and moves the hint back to it. The hint is only a shortcut: no frame below it is
ever free, so the scan finds the lowest free frame, and the frames below the hint are never lost.

Frame indices are natural numbers. Physical addresses have at most 52 bits, so the address of a
frame neither overflows nor is refused by `PhysAddr::new`.

## Main definitions

* `BitmapFrameAllocator`, `new`, `markRegionFree`, `markRegionUsed`, `allocateFrame`, `freeFrame`
* `system`: allocations, and frees of frames in use, after any marking
* `Sound`: the bitmap covers all frames, and nothing below the hint is free

## Main results

* `allocateFrame_spec`, `freeFrame_spec`: what one call does
* `sound_of_reachable`: the hint invariant holds in every reachable state
* `frameAllocator_correct`: allocation hands out the lowest free frame, and no frame twice
-/

namespace OxideOS

/-- `memory::PAGE_SIZE`. -/
def pageSize : Nat := 4096

/-- `PhysFrame<Size4KiB>`: a frame, by its start address. -/
structure PhysFrame where
  startAddress : Nat
deriving DecidableEq, Repr

namespace PhysFrame

/-- `PhysFrame::containing_address`: the address rounded down to a frame boundary. -/
def containingAddress (addr : Nat) : PhysFrame := ⟨addr - addr % pageSize⟩

/-- The frame with index `i`. -/
def ofIndex (i : Nat) : PhysFrame := containingAddress (i * pageSize)

/-- The index of a frame, as `free_frame` computes it. -/
def index (frame : PhysFrame) : Nat := frame.startAddress / pageSize

@[simp] theorem index_ofIndex (i : Nat) : (ofIndex i).index = i := by
  unfold ofIndex containingAddress index
  rw [Nat.mul_mod_left, Nat.sub_zero, Nat.mul_div_cancel i (by decide)]

theorem startAddress_ofIndex (i : Nat) : (ofIndex i).startAddress = i * pageSize := by
  rw [ofIndex, containingAddress, Nat.mul_mod_left, Nat.sub_zero]

/-- Physical addresses have 52 bits, so the address of a frame is not cut off. -/
theorem toNat_startAddress {i : Nat} (h : i < 2 ^ 40) :
    (UInt64.ofNat (ofIndex i).startAddress).toNat = i * pageSize := by
  rw [startAddress_ofIndex, UInt64.toNat_ofNat', Nat.mod_eq_of_lt]
  rw [pageSize]
  omega

theorem ofIndex_injective {i j : Nat} (h : ofIndex i = ofIndex j) : i = j := by
  rw [← index_ofIndex i, h, index_ofIndex]

end PhysFrame

/-- `memory::frame_allocator::BitmapFrameAllocator`. -/
structure BitmapFrameAllocator where
  bitmap : List (BitVec 8)
  totalFrames : Nat
  nextFree : Nat
deriving DecidableEq, Repr

namespace BitmapFrameAllocator

/-- `BitmapFrameAllocator::new`: all frames in use, padding bits included. -/
def new (totalFrames : Nat) : BitmapFrameAllocator where
  bitmap := List.replicate ((totalFrames + 7) / 8) 0xFF
  totalFrames := totalFrames
  nextFree := 0

/-- `is_set`. -/
def isSet (a : BitmapFrameAllocator) (index : Nat) : Bool := Bitmap.test a.bitmap index

/-- `set_bit`. -/
def setBit (a : BitmapFrameAllocator) (index : Nat) : BitmapFrameAllocator :=
  { a with bitmap := Bitmap.set a.bitmap index }

/-- `clear_bit`. -/
def clearBit (a : BitmapFrameAllocator) (index : Nat) : BitmapFrameAllocator :=
  { a with bitmap := Bitmap.clear a.bitmap index }

/-- A pass over `count` frames from `start` that skips indices past the last frame. -/
def markRegion (update : BitmapFrameAllocator → Nat → BitmapFrameAllocator)
    (a : BitmapFrameAllocator) (start count : Nat) : BitmapFrameAllocator :=
  (List.range' start count).foldl (fun a i => if i < a.totalFrames then update a i else a) a

/-- `mark_region_free`. -/
def markRegionFree : BitmapFrameAllocator → Nat → Nat → BitmapFrameAllocator :=
  markRegion clearBit

/-- `mark_region_used`. -/
def markRegionUsed : BitmapFrameAllocator → Nat → Nat → BitmapFrameAllocator :=
  markRegion setBit

/-- The first clear bit in `lo..hi`. -/
def findFree (a : BitmapFrameAllocator) (lo hi : Nat) : Option Nat :=
  (List.range' lo (hi - lo)).find? fun i => !a.isSet i

/-- Claim frame `i` and move the hint past it. -/
def take (a : BitmapFrameAllocator) (i : Nat) : BitmapFrameAllocator :=
  { a.setBit i with nextFree := i + 1 }

/-- `allocate_frame`: scan from the hint, then wrap around. -/
def allocateFrame (a : BitmapFrameAllocator) : Option PhysFrame × BitmapFrameAllocator :=
  match a.findFree a.nextFree a.totalFrames with
  | some i => (some (PhysFrame.ofIndex i), a.take i)
  | none =>
    match a.findFree 0 a.nextFree with
    | some i => (some (PhysFrame.ofIndex i), a.take i)
    | none => (none, a)

/-- `free_frame`. A frame past the end of the bitmap is an index out of bounds: `none`. -/
def freeFrame (a : BitmapFrameAllocator) (frame : PhysFrame) : Option BitmapFrameAllocator :=
  let index := frame.index
  if index / 8 < a.bitmap.length then
    let a := a.clearBit index
    some (if index < a.nextFree then { a with nextFree := index } else a)
  else none

/-! ## The hint invariant -/

variable {a a' : BitmapFrameAllocator} {i j : Nat}

/-- The bitmap covers all frames, and no frame below the hint is free. -/
structure Sound (a : BitmapFrameAllocator) : Prop where
  size : a.bitmap.length = (a.totalFrames + 7) / 8
  hint_le : a.nextFree ≤ a.totalFrames
  hint : ∀ i < a.nextFree, a.isSet i = true

theorem Sound.covers (h : a.Sound) (hi : i < a.totalFrames) : i / 8 < a.bitmap.length := by
  rw [h.size]
  omega

theorem isSet_setBit (hi : i / 8 < a.bitmap.length) :
    (a.setBit i).isSet j = (decide (j = i) || a.isSet j) :=
  Bitmap.test_set hi

theorem isSet_clearBit (hi : i / 8 < a.bitmap.length) :
    (a.clearBit i).isSet j = (!decide (j = i) && a.isSet j) :=
  Bitmap.test_clear hi

theorem findFree_eq_some {lo hi : Nat} : a.findFree lo hi = some i ↔
    a.isSet i = false ∧ (lo ≤ i ∧ i < hi) ∧ ∀ j, lo ≤ j → j < i → a.isSet j = true := by
  unfold findFree
  rw [List.find?_range'_eq_some]
  simp only [Bool.not_eq_true', List.mem_range'_1, Bool.not_not]
  constructor
  · rintro ⟨hs, hm, hlow⟩
    exact ⟨hs, by omega, hlow⟩
  · rintro ⟨hs, hm, hlow⟩
    exact ⟨hs, by omega, hlow⟩

theorem findFree_eq_none {lo hi : Nat} :
    a.findFree lo hi = none ↔ ∀ j, lo ≤ j → j < hi → a.isSet j = true := by
  unfold findFree
  rw [List.find?_eq_none]
  simp only [List.mem_range'_1, Bool.not_eq_true', Bool.not_eq_false]
  constructor
  · intro h j hlo hhi
    exact h j (by omega)
  · intro h j hj
    exact h j hj.1 (by omega)

/-- The lowest free frame. -/
structure LowestFree (a : BitmapFrameAllocator) (i : Nat) : Prop where
  lt : i < a.totalFrames
  free : a.isSet i = false
  low : ∀ j < i, a.isSet j = true

theorem LowestFree.le (h : a.LowestFree i) (hj : a.isSet j = false) : i ≤ j := by
  by_contra hcon
  rw [h.low j (not_le.mp hcon)] at hj
  cases hj

/-- **One allocation**: the lowest free frame is claimed, or every frame is in use. -/
theorem allocateFrame_spec (h : a.Sound) :
    (∃ i, a.LowestFree i ∧ a.allocateFrame = (some (PhysFrame.ofIndex i), a.take i)) ∨
      ((∀ i < a.totalFrames, a.isSet i = true) ∧ a.allocateFrame = (none, a)) := by
  unfold allocateFrame
  cases hf : a.findFree a.nextFree a.totalFrames with
  | some i =>
    obtain ⟨hs, hm, hlow⟩ := findFree_eq_some.mp hf
    refine Or.inl ⟨i, ⟨hm.2, hs, fun j hj => ?_⟩, rfl⟩
    by_cases hjn : j < a.nextFree
    · exact h.hint j hjn
    · exact hlow j (by omega) hj
  | none =>
    have hwrap : a.findFree 0 a.nextFree = none :=
      findFree_eq_none.mpr fun j _ hj => h.hint j hj
    rw [hwrap]
    refine Or.inr ⟨fun i hi => ?_, rfl⟩
    by_cases hin : i < a.nextFree
    · exact h.hint i hin
    · exact findFree_eq_none.mp hf i (by omega) hi

theorem isSet_take (h : a.Sound) (hi : i < a.totalFrames) :
    (a.take i).isSet j = (decide (j = i) || a.isSet j) :=
  isSet_setBit (h.covers hi)

theorem Sound.take (h : a.Sound) (hi : a.LowestFree i) : (a.take i).Sound where
  size := by
    unfold BitmapFrameAllocator.take setBit
    simpa using h.size
  hint_le := hi.lt
  hint j hj := by
    rw [isSet_take h hi.lt]
    by_cases hji : j = i
    · simp [hji]
    · have hlt : j < i := by
        have : j < i + 1 := hj
        omega
      simp [hi.low j hlt]

/-- A successful allocation claimed the lowest free frame. -/
theorem allocateFrame_eq_some (h : a.Sound) {frame : PhysFrame}
    (ha : a.allocateFrame = (some frame, a')) :
    ∃ i, a.LowestFree i ∧ frame = PhysFrame.ofIndex i ∧ a' = a.take i := by
  rcases allocateFrame_spec h with ⟨i, hi, hsome⟩ | ⟨-, hnone⟩
  · rw [hsome] at ha
    obtain ⟨hframe, htake⟩ := Prod.mk.inj ha
    exact ⟨i, hi, (Option.some.inj hframe).symm, htake.symm⟩
  · rw [hnone] at ha
    cases ha

theorem allocateFrame_isSome_iff (h : a.Sound) :
    a.allocateFrame.1.isSome = true ↔ ∃ i < a.totalFrames, a.isSet i = false := by
  rcases allocateFrame_spec h with ⟨i, hi, ha⟩ | ⟨hall, ha⟩
  · rw [ha]
    exact ⟨fun _ => ⟨i, hi.lt, hi.free⟩, fun _ => rfl⟩
  · rw [ha]
    refine ⟨fun hc => (nomatch hc), ?_⟩
    rintro ⟨i, hi, hfree⟩
    rw [hall i hi] at hfree
    cases hfree

/-- A frame in use is not handed out. -/
theorem allocateFrame_ne_of_isSet (h : a.Sound) (hi : a.isSet i = true) :
    a.allocateFrame.1 ≠ some (PhysFrame.ofIndex i) := by
  intro heq
  obtain ⟨k, hk, hframe, -⟩ := allocateFrame_eq_some h (Prod.ext heq rfl)
  obtain rfl := PhysFrame.ofIndex_injective hframe
  rw [hk.free] at hi
  cases hi

theorem Sound.allocateFrame (h : a.Sound) : a.allocateFrame.2.Sound := by
  rcases allocateFrame_spec h with ⟨i, hi, ha⟩ | ⟨-, ha⟩
  · rw [ha]
    exact h.take hi
  · rw [ha]
    exact h

/-- **One free**: exactly that frame becomes free. -/
theorem freeFrame_spec (h : a.Sound) (hi : i < a.totalFrames) :
    ∃ a', a.freeFrame (PhysFrame.ofIndex i) = some a' ∧ a'.Sound ∧
      a'.totalFrames = a.totalFrames ∧
      ∀ j, a'.isSet j = (!decide (j = i) && a.isSet j) := by
  have hcov := h.covers hi
  unfold freeFrame
  simp only [PhysFrame.index_ofIndex, hcov, if_true]
  refine ⟨_, rfl, ?_, ?_, fun j => ?_⟩
  · refine ⟨?_, ?_, fun j hj => ?_⟩
    · split_ifs
      · simpa [clearBit] using h.size
      · simpa [clearBit] using h.size
    · split_ifs
      · exact hi.le
      · exact h.hint_le
    · split_ifs at hj ⊢ with hlt
      · show (a.clearBit i).isSet j = true
        have hji : j < i := hj
        rw [isSet_clearBit hcov, h.hint j (hji.trans hlt)]
        simp [hji.ne]
      · rw [isSet_clearBit hcov, h.hint j hj]
        have hji : j ≠ i := fun hji => hlt (hji ▸ hj)
        simp [hji]
  · split_ifs
    · rfl
    · rfl
  · split_ifs
    · exact isSet_clearBit hcov
    · exact isSet_clearBit hcov

/-! ## Reachable allocators -/

/-- The marking calls made during construction. -/
inductive MarkOp
  | free (start count : Nat)
  | used (start count : Nat)

/-- The allocator after a marking call. -/
def mark (a : BitmapFrameAllocator) : MarkOp → BitmapFrameAllocator
  | .free start count => a.markRegionFree start count
  | .used start count => a.markRegionUsed start count

/-- The calls made while the kernel runs. -/
inductive FrameOp
  | allocate
  | free (frame : PhysFrame)

/-- The frame is in use: it is one of the frames, and its bit is set. -/
def Allocated (a : BitmapFrameAllocator) (frame : PhysFrame) : Prop :=
  ∃ i < a.totalFrames, frame = PhysFrame.ofIndex i ∧ a.isSet i = true

/-- Construction and marking of any kind, then allocations, and frees of frames in use. -/
def system : TransitionSystem BitmapFrameAllocator FrameOp where
  Init a := ∃ totalFrames, ∃ marks : List MarkOp, a = marks.foldl mark (new totalFrames)
  Step a op a' :=
    match op with
    | .allocate => a.allocateFrame.2 = a'
    | .free frame => a.Allocated frame ∧ a.freeFrame frame = some a'

/-- Marking leaves the hint at zero, so the hint invariant asks nothing yet. -/
structure Marked (a : BitmapFrameAllocator) : Prop where
  size : a.bitmap.length = (a.totalFrames + 7) / 8
  hint : a.nextFree = 0

theorem Marked.sound (h : a.Marked) : a.Sound where
  size := h.size
  hint_le := by rw [h.hint]; exact Nat.zero_le _
  hint i hi := by rw [h.hint] at hi; exact absurd hi (Nat.not_lt_zero i)

theorem Marked.markRegion (update : BitmapFrameAllocator → Nat → BitmapFrameAllocator)
    (hu : ∀ a i, Marked a → Marked (update a i)) (h : a.Marked) (start count : Nat) :
    (a.markRegion update start count).Marked := by
  unfold BitmapFrameAllocator.markRegion
  generalize List.range' start count = is
  induction is generalizing a with
  | nil => exact h
  | cons i is ih =>
    rw [List.foldl_cons]
    split_ifs
    · exact ih (hu a i h)
    · exact ih h

theorem Marked.mark (h : a.Marked) (op : MarkOp) : (a.mark op).Marked := by
  cases op with
  | free start count =>
    refine Marked.markRegion clearBit (fun a i ha => ⟨?_, ha.hint⟩) h start count
    simpa [clearBit] using ha.size
  | used start count =>
    refine Marked.markRegion setBit (fun a i ha => ⟨?_, ha.hint⟩) h start count
    simpa [setBit] using ha.size

theorem marked_new (totalFrames : Nat) : (new totalFrames).Marked where
  size := by simp [new]
  hint := rfl

theorem marked_foldl (marks : List MarkOp) (h : a.Marked) :
    (marks.foldl BitmapFrameAllocator.mark a).Marked := by
  induction marks generalizing a with
  | nil => exact h
  | cons op marks ih => exact ih (h.mark op)

theorem sound_invariant : system.Invariant Sound where
  init a := by
    rintro ⟨totalFrames, marks, rfl⟩
    exact (marked_foldl marks (marked_new totalFrames)).sound
  step a op a' h hstep := by
    cases op with
    | allocate =>
      obtain rfl : a.allocateFrame.2 = a' := hstep
      exact h.allocateFrame
    | free frame =>
      obtain ⟨⟨i, hi, rfl, -⟩, hf⟩ := hstep
      obtain ⟨a₁, hf₁, hs, -, -⟩ := freeFrame_spec h hi
      obtain rfl : a₁ = a' := Option.some.inj (hf₁.symm.trans hf)
      exact hs

theorem sound_of_reachable (h : system.Reachable a) : a.Sound :=
  sound_invariant.of_reachable h

/-! ## Hand-outs -/

/-- A frame in use stays in use until it is freed. -/
theorem isSet_of_run (h : a.Sound) {ops : List FrameOp} (hrun : system.Run a ops a')
    (hops : FrameOp.free (PhysFrame.ofIndex i) ∉ ops) (hi : a.isSet i = true) :
    a'.isSet i = true := by
  induction hrun with
  | nil => exact hi
  | @cons a₀ a₁ a₂ op ops hstep _ ih =>
    have hs₁ := sound_invariant.step a₀ op a₁ h hstep
    refine ih hs₁ (fun hm => hops (List.mem_cons_of_mem _ hm)) ?_
    cases op with
    | allocate =>
      obtain rfl : a₀.allocateFrame.2 = a₁ := hstep
      rcases allocateFrame_spec h with ⟨k, hk, ha⟩ | ⟨-, ha⟩
      · rw [ha, isSet_take h hk.lt, hi, Bool.or_true]
      · rw [ha]
        exact hi
    | free frame =>
      obtain ⟨⟨k, hk, rfl, -⟩, hf⟩ := hstep
      obtain ⟨b, hb, -, -, hbits⟩ := freeFrame_spec h hk
      obtain rfl : b = a₁ := Option.some.inj (hb.symm.trans hf)
      have hne : i ≠ k := by
        rintro rfl
        exact hops List.mem_cons_self
      rw [hbits, hi]
      simp [hne]

/-- The free frames below `i`. -/
def freeBelow (a : BitmapFrameAllocator) (i : Nat) : Finset Nat :=
  {j ∈ Finset.range i | a.isSet j = false}

theorem mem_freeBelow : j ∈ a.freeBelow i ↔ j < i ∧ a.isSet j = false := by
  rw [freeBelow, Finset.mem_filter, Finset.mem_range]

theorem freeBelow_take (h : a.Sound) (hk : a.LowestFree j) :
    (a.take j).freeBelow i = (a.freeBelow i).erase j := by
  ext k
  simp only [mem_freeBelow, Finset.mem_erase, isSet_take h hk.lt, Bool.or_eq_false_iff,
    decide_eq_false_iff_not]
  tauto

/-- Allocating again and again reaches every free frame: each allocation below it uses up one of
the finitely many free frames below it. -/
theorem exists_allocate (n : Nat) (h : a.Sound) (hi : i < a.totalFrames)
    (hfree : a.isSet i = false) (hn : (a.freeBelow i).card = n) :
    ∃ k, ((fun a => a.allocateFrame.2)^[k] a).allocateFrame.1 = some (PhysFrame.ofIndex i) := by
  induction n using Nat.strong_induction_on generalizing a with
  | _ n ih =>
    rcases allocateFrame_spec h with ⟨k, hk, ha⟩ | ⟨hall, -⟩
    · rcases (hk.le hfree).eq_or_lt with rfl | hki
      · exact ⟨0, by rw [Function.iterate_zero_apply, ha]⟩
      · have hstill : (a.take k).isSet i = false := by
          rw [isSet_take h hk.lt, hfree]
          simp [hki.ne']
        have hcard : ((a.take k).freeBelow i).card < n := by
          rw [freeBelow_take h hk, ← hn]
          exact Finset.card_erase_lt_of_mem (mem_freeBelow.mpr ⟨hki, hk.free⟩)
        obtain ⟨steps, hsteps⟩ := ih _ hcard (h.take hk) hi hstill rfl
        refine ⟨steps + 1, ?_⟩
        rw [Function.iterate_succ_apply, ha]
        exact hsteps
    · rw [hall i hi] at hfree
      cases hfree

/-- **The frame allocator is correct.** In every state reached after construction and marking by
allocations and by frees of frames in use: allocation succeeds exactly when a frame is free, hands
out the lowest free frame and changes no other bit; a free makes exactly that frame free; a frame
handed out is not handed out again before it is freed; and every free frame is handed out by
allocating often enough. -/
theorem frameAllocator_correct (h : system.Reachable a) :
    (a.allocateFrame.1.isSome = true ↔ ∃ i < a.totalFrames, a.isSet i = false) ∧
      (∀ frame a', a.allocateFrame = (some frame, a') →
        ∃ i < a.totalFrames, frame = PhysFrame.ofIndex i ∧ a.isSet i = false ∧
          (∀ j < i, a.isSet j = true) ∧ a'.isSet i = true ∧ ∀ j ≠ i, a'.isSet j = a.isSet j) ∧
      (∀ i < a.totalFrames, a.isSet i = true →
        ∃ a', a.freeFrame (PhysFrame.ofIndex i) = some a' ∧ a'.isSet i = false ∧
          ∀ j ≠ i, a'.isSet j = a.isSet j) ∧
      (∀ frame a' ops a'', a.allocateFrame = (some frame, a') → system.Run a' ops a'' →
        FrameOp.free frame ∉ ops → a''.allocateFrame.1 ≠ some frame) ∧
      ∀ i < a.totalFrames, a.isSet i = false →
        ∃ k, ((fun a => a.allocateFrame.2)^[k] a).allocateFrame.1 =
          some (PhysFrame.ofIndex i) := by
  have hs := sound_of_reachable h
  refine ⟨allocateFrame_isSome_iff hs, fun frame a' ha => ?_, fun i hi hset => ?_,
    fun frame a' ops a'' ha hrun hops => ?_,
    fun i hi hfree => exists_allocate _ hs hi hfree rfl⟩
  · obtain ⟨i, hi, rfl, rfl⟩ := allocateFrame_eq_some hs ha
    refine ⟨i, hi.lt, rfl, hi.free, hi.low, ?_, fun j hj => ?_⟩
    · rw [isSet_take hs hi.lt]
      simp
    · rw [isSet_take hs hi.lt]
      simp [hj]
  · obtain ⟨a', hf, -, -, hbits⟩ := freeFrame_spec hs hi
    refine ⟨a', hf, ?_, fun j hj => ?_⟩
    · rw [hbits]
      simp
    · rw [hbits]
      simp [hj]
  · have ha' : system.Reachable a' := h.step (i := .allocate) (congrArg Prod.snd ha)
    obtain ⟨i, hi, rfl, rfl⟩ := allocateFrame_eq_some hs ha
    have hset : (a.take i).isSet i = true := by
      rw [isSet_take hs hi.lt]
      simp
    apply allocateFrame_ne_of_isSet (sound_of_reachable (ha'.run hrun))
    exact isSet_of_run (hs.take hi) hrun hops hset

/-- Ten frames of which five are usable; the lowest one is handed out first. -/
theorem frameAllocator_correct_ten :
    ((new 10).markRegionFree 3 5).allocateFrame.1.isSome = true :=
  (frameAllocator_correct (TransitionSystem.Reachable.init ⟨10, [.free 3 5], rfl⟩)).1.mpr
    ⟨3, by decide, by decide⟩

end BitmapFrameAllocator

end OxideOS
