import OxideOS.Kernel.State
import OxideOS.Lib.ByteMemory

/-!
# Where the contexts and the stacks of the tasks lie

A context is saved in the slot of its task.  `yield_now` passes to `context_switch` the slots of the
two tasks: `IDLE_CONTEXT` for the boot code, which has the id 0 and the stack of the boot loader,
and an entry of `CONTEXTS` for every other task, whose stack `Task::new` maps.
-/

namespace OxideOS

namespace ContextSwitch

/-! ## Layouts -/

/-- The addresses of a slot. -/
def slotRange (slot : UInt64) : Set Nat := Set.Ico slot.toNat (slot.toNat + 64)

/-- The addresses of a stack. -/
def stackRange (bottom top : UInt64) : Set Nat := Set.Ico bottom.toNat top.toNat

/-- The slots and the stacks of the tasks, none of which overlap. -/
structure TaskLayout (ι : Type) where
  slot : ι → UInt64
  stackBottom : ι → UInt64
  stackTop : ι → UInt64
  slot_fits : ∀ i, (slot i).toNat + 64 ≤ 2 ^ 64
  slots_disjoint : ∀ i j, i ≠ j → Disjoint (slotRange (slot i)) (slotRange (slot j))
  stacks_disjoint : ∀ i j, i ≠ j →
    Disjoint (stackRange (stackBottom i) (stackTop i)) (stackRange (stackBottom j) (stackTop j))
  slot_stack_disjoint : ∀ i j,
    Disjoint (slotRange (slot i)) (stackRange (stackBottom j) (stackTop j))

/-- The addresses of the stack of a task. -/
def TaskLayout.stack {ι : Type} (layout : TaskLayout ι) (id : ι) : Set Nat :=
  stackRange (layout.stackBottom id) (layout.stackTop id)

/-! ## The kernel -/

open Kernel (stackPages stackRegionBase)

/-- `STACK_SLOT_SIZE`: a guard page and the stack. -/
def stackSlotSize : Nat := (stackPages + 1) * pageSize

/-- The addresses of all stacks that `Task::new` maps, with their guard pages. -/
def stackRegion : Set Nat :=
  Set.Ico stackRegionBase (stackRegionBase + maxTasks * stackSlotSize)

/-- The addresses of `CONTEXTS`. -/
def contextsRange (contexts : UInt64) : Set Nat :=
  Set.Ico contexts.toNat (contexts.toNat + maxTasks * 64)

/-- The statics of the scheduler and the stack of the boot code. -/
structure Statics where
  /-- The address of `CONTEXTS`. -/
  contexts : UInt64
  /-- The address of `IDLE_CONTEXT`. -/
  idleContext : UInt64
  bootBottom : UInt64
  bootTop : UInt64
  contexts_fits : contexts.toNat + maxTasks * 64 ≤ 2 ^ 64
  idleContext_fits : idleContext.toNat + 64 ≤ 2 ^ 64
  apart : [slotRange idleContext, contextsRange contexts, stackRange bootBottom bootTop,
    stackRegion].Pairwise Disjoint

namespace Statics

variable (k : Statics)

/-- `new_ctx` of `yield_now`: the entry of `CONTEXTS`. -/
def newContext (id : Fin maxTasks) : UInt64 := UInt64.ofNat (k.contexts.toNat + id * 64)

/-- `old_ctx` of `yield_now`. -/
def oldContext (id : Fin maxTasks) : UInt64 :=
  if id.val = 0 then k.idleContext else k.newContext id

/-- `stack_bottom` of `Task::new`, and the boot stack. -/
def stackBottom (id : Fin maxTasks) : UInt64 :=
  if id.val = 0 then k.bootBottom
  else UInt64.ofNat (stackRegionBase + id * stackSlotSize + pageSize)

/-- `stack_top` of `Task::new`, and the boot stack. -/
def stackTop (id : Fin maxTasks) : UInt64 :=
  if id.val = 0 then k.bootTop
  else UInt64.ofNat (stackRegionBase + id * stackSlotSize + pageSize + stackPages * pageSize)

variable {k} {i j : Fin maxTasks}

/-- `yield_now` only switches to an id other than 0.  Its slot is the one that it was saved in. -/
theorem newContext_eq (h : i.val ≠ 0) : k.newContext i = k.oldContext i := by
  rw [oldContext, if_neg h]

theorem oldContext_zero (h : i.val = 0) : k.oldContext i = k.idleContext := if_pos h

theorem toNat_oldContext (h : i.val ≠ 0) : (k.oldContext i).toNat = k.contexts.toNat + i * 64 := by
  have hlt : k.contexts.toNat + i * 64 < 2 ^ 64 := by
    have hfits := k.contexts_fits
    have hi := i.isLt
    omega
  rw [← newContext_eq h, newContext, UInt64.toNat_ofNat_of_lt' hlt]

theorem oldContext_fits (i : Fin maxTasks) : (k.oldContext i).toNat + 64 ≤ 2 ^ 64 := by
  by_cases h : i.val = 0
  · rw [oldContext_zero h]
    exact k.idleContext_fits
  · have hfits := k.contexts_fits
    have hi := i.isLt
    rw [toNat_oldContext h]
    omega

theorem slotRange_subset (h : i.val ≠ 0) :
    slotRange (k.oldContext i) ⊆ contextsRange k.contexts := by
  have hi := i.isLt
  rw [slotRange, toNat_oldContext h]
  exact Set.Ico_subset_Ico (by omega) (by omega)

/-- The stack of a task other than the boot code. -/
theorem stackRange_eq (h : i.val ≠ 0) :
    stackRange (k.stackBottom i) (k.stackTop i) =
      Set.Ico (stackRegionBase + pageSize + i * stackSlotSize)
        (stackRegionBase + pageSize + i * stackSlotSize + stackPages * pageSize) := by
  have hi : i.val < 256 := i.isLt
  have hbottom : stackRegionBase + i * stackSlotSize + pageSize < 2 ^ 64 := by
    rw [stackRegionBase, stackSlotSize, stackPages, pageSize]
    omega
  have htop : stackRegionBase + i * stackSlotSize + pageSize + stackPages * pageSize < 2 ^ 64 := by
    rw [stackRegionBase, stackSlotSize, stackPages, pageSize]
    omega
  rw [stackRange, stackBottom, stackTop, if_neg h, if_neg h, UInt64.toNat_ofNat_of_lt' hbottom,
    UInt64.toNat_ofNat_of_lt' htop, Nat.add_right_comm]

theorem stackRange_subset (h : i.val ≠ 0) :
    stackRange (k.stackBottom i) (k.stackTop i) ⊆ stackRegion := by
  have hi := i.isLt
  rw [stackRange_eq h, stackRegion, stackSlotSize, stackPages, pageSize]
  exact Set.Ico_subset_Ico (by omega) (by omega)

/-- The boot code is apart, and the others are apart from each other. -/
theorem disjoint_of_apart {f : Fin maxTasks → Set Nat} {s t : Set Nat}
    (hzero : ∀ i, i.val = 0 → f i = s) (hrest : ∀ i, i.val ≠ 0 → f i ⊆ t) (hst : Disjoint s t)
    (hapart : ∀ i j, i.val ≠ 0 → j.val ≠ 0 → i ≠ j → Disjoint (f i) (f j)) (i j : Fin maxTasks)
    (hij : i ≠ j) : Disjoint (f i) (f j) := by
  by_cases hi : i.val = 0
  · have hj : j.val ≠ 0 := fun hj => hij (Fin.ext (hi.trans hj.symm))
    rw [hzero i hi]
    exact hst.mono_right (hrest j hj)
  · by_cases hj : j.val = 0
    · rw [hzero j hj]
      exact (hst.mono_right (hrest i hi)).symm
    · exact hapart i j hi hj hij

/-- The four areas do not overlap. -/
theorem areas_disjoint (k : Statics) :
    Disjoint (slotRange k.idleContext) (contextsRange k.contexts) ∧
      Disjoint (stackRange k.bootBottom k.bootTop) stackRegion ∧
      Disjoint (slotRange k.idleContext ∪ contextsRange k.contexts)
        (stackRange k.bootBottom k.bootTop ∪ stackRegion) := by
  have hapart := k.apart
  simp only [List.pairwise_cons, List.mem_cons, List.not_mem_nil, or_false, forall_eq_or_imp,
    forall_eq] at hapart
  obtain ⟨⟨hidle, hidleBoot, hidleRegion⟩, ⟨hboot, hregion⟩, hstacks, -⟩ := hapart
  refine ⟨hidle, hstacks, Set.disjoint_union_left.mpr ⟨?_, ?_⟩⟩
  · exact Set.disjoint_union_right.mpr ⟨hidleBoot, hidleRegion⟩
  · exact Set.disjoint_union_right.mpr ⟨hboot, hregion⟩

theorem slots_disjoint (i j : Fin maxTasks) (hij : i ≠ j) :
    Disjoint (slotRange (k.oldContext i)) (slotRange (k.oldContext j)) := by
  obtain ⟨hidle, -, -⟩ := k.areas_disjoint
  refine disjoint_of_apart (fun i hi => congrArg slotRange (oldContext_zero hi))
    (fun i => slotRange_subset) hidle (fun i j hi hj hij => ?_) i j hij
  rw [slotRange, slotRange, toNat_oldContext hi, toNat_oldContext hj]
  exact ByteMemory.entries_disjoint (le_refl 64) (Fin.val_ne_of_ne hij)

theorem stackRange_zero (h : i.val = 0) :
    stackRange (k.stackBottom i) (k.stackTop i) = stackRange k.bootBottom k.bootTop := by
  rw [stackBottom, stackTop, if_pos h, if_pos h]

theorem stacks_disjoint (i j : Fin maxTasks) (hij : i ≠ j) :
    Disjoint (stackRange (k.stackBottom i) (k.stackTop i))
      (stackRange (k.stackBottom j) (k.stackTop j)) := by
  obtain ⟨-, hboot, -⟩ := k.areas_disjoint
  refine disjoint_of_apart (f := fun i => stackRange (k.stackBottom i) (k.stackTop i))
    (fun i => stackRange_zero) (fun i => stackRange_subset) hboot
    (fun i j hi hj hij => ?_) i j hij
  rw [stackRange_eq hi, stackRange_eq hj]
  exact ByteMemory.entries_disjoint (by decide) (Fin.val_ne_of_ne hij)

theorem slot_stack_disjoint (i j : Fin maxTasks) :
    Disjoint (slotRange (k.oldContext i)) (stackRange (k.stackBottom j) (k.stackTop j)) := by
  obtain ⟨-, -, hareas⟩ := k.areas_disjoint
  refine hareas.mono ?_ ?_
  · by_cases hi : i.val = 0
    · rw [oldContext_zero hi]
      exact Set.subset_union_left
    · exact (slotRange_subset hi).trans Set.subset_union_right
  · by_cases hj : j.val = 0
    · rw [stackRange_zero hj]
      exact Set.subset_union_left
    · exact (stackRange_subset hj).trans Set.subset_union_right

/-- The layout of the kernel. -/
def layout (k : Statics) : TaskLayout (Fin maxTasks) where
  slot := k.oldContext
  stackBottom := k.stackBottom
  stackTop := k.stackTop
  slot_fits := oldContext_fits
  slots_disjoint := slots_disjoint
  stacks_disjoint := stacks_disjoint
  slot_stack_disjoint := slot_stack_disjoint

end Statics

end ContextSwitch

end OxideOS
