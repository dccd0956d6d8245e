import OxideOS.Lib.TransitionSystem
import OxideOS.Task.ContextSlots
import OxideOS.Task.ContextSwitch

/-!
# Tasks find their registers again

Any number of tasks share the processor.  Each has a slot for its registers and a stack.  They
compute, they spawn tasks, and the one that executes calls `context_switch` to another.  A call
leaves on the stack of its task the return address, and in its slot everything else, so a task that
is resumed finds both, whatever the others did in between.

The world records of every task that waits what it is to find.  The processor does not see the
record: it tells in the state what the run has been.

## Main definitions

* `ContextSwitch.World`, `ContextSwitch.Op`, `ContextSwitch.World.step`: the processor with its
  tasks
* `ContextSwitch.World.Allowed`: what a task may do to the memory, and to which task it may switch
* `ContextSwitch.World.Sound`: memory holds what the waiting tasks are to find

## Main results

* `ContextSwitch.World.Sound.resumed`: a switch to a waiting task finds it
* `ContextSwitch.World.invariant_sound`: every reachable world is sound
* `ContextSwitch.World.since_status`: the record is that of the run
* `ContextSwitch.World.registers_preserved`: a task that resumes continues behind its last call,
  with the registers that it had there, and a fresh task starts in the trampoline
-/

namespace OxideOS

namespace ContextSwitch

open X64

/-! ## What a task is to find -/

/-- What a task waits for, and is to find then. -/
inductive Status
  | absent
  /-- Spawned, and never executed. -/
  | fresh (entry : UInt64)
  /-- Switched away from, in a call with these registers that returns to `ret`. -/
  | away (regs : Reg → UInt64) (ret : UInt64)
  | running

/-- Fresh, or switched away from. -/
def Status.Waits : Status → Prop
  | .fresh _ => True
  | .away _ _ => True
  | .absent => False
  | .running => False

namespace TaskLayout

variable {ι : Type} (layout : TaskLayout ι)

/-- The context that `Task::new` prepares and `Scheduler::spawn` stores. -/
def initialContext (image : Image) (id : ι) (entry : UInt64) : CpuContext where
  rsp := layout.stackTop id
  rbp := 0
  rbx := 0
  r12 := entry
  r13 := 0
  r14 := 0
  r15 := 0
  rip := image.trampoline

/-- A stack pointer with room for a word below it in the stack of a task. -/
def InStack (id : ι) (rsp : UInt64) : Prop :=
  (layout.stackBottom id).toNat + 8 ≤ rsp.toNat ∧ rsp.toNat ≤ (layout.stackTop id).toNat

/-- The memory that a task relies on while it waits. -/
def held (id : ι) : Status → Set Nat
  | .fresh _ => slotRange (layout.slot id)
  | .away _ _ => slotRange (layout.slot id) ∪ layout.stack id
  | .absent => ∅
  | .running => ∅

/-- Memory holds what a task is to find. -/
def Kept (image : Image) (mem : ByteMemory) (id : ι) : Status → Prop
  | .fresh entry =>
    CpuContext.read mem (layout.slot id).toNat = layout.initialContext image id entry
  | .away regs ret =>
    CpuContext.read mem (layout.slot id).toNat = image.saved regs ∧
      layout.InStack id (regs .rsp) ∧ mem.read64 (regs .rsp - 8).toNat = ret
  | .absent => True
  | .running => True

/-- A task goes on as it is to. -/
def Resumes (image : Image) (cpu : Cpu) (id : ι) : Status → Prop
  | .fresh entry =>
    cpu.rip = image.trampoline ∧ cpu.regs .rsp = layout.stackTop id ∧ cpu.regs .r12 = entry
  | .away regs ret => cpu.rip = ret ∧ ∀ r ∈ calleeSaved, cpu.regs r = regs r
  | .absent => False
  | .running => False

variable {layout} {image : Image} {mem mem' : ByteMemory} {id j : ι} {st : Status} {rsp : UInt64}

/-- The word below a stack pointer in the stack is in the stack. -/
theorem InStack.word_subset (h : layout.InStack id rsp) :
    Set.Ico (rsp - 8).toNat ((rsp - 8).toNat + 8) ⊆ layout.stack id := by
  obtain ⟨hbottom, htop⟩ := h
  have hle : (8 : UInt64) ≤ rsp :=
    UInt64.le_iff_toNat_le.mpr (le_trans (Nat.le_add_left 8 _) hbottom)
  have hsub : (rsp - 8).toNat = rsp.toNat - 8 := UInt64.toNat_sub_of_le rsp 8 hle
  rw [hsub]
  exact Set.Ico_subset_Ico (by omega) (by omega)

/-- A slot is apart from what other tasks rely on. -/
theorem held_disjoint_slot (h : j ≠ id) :
    Disjoint (layout.held j st) (slotRange (layout.slot id)) := by
  cases st with
  | fresh entry => exact layout.slots_disjoint j id h
  | away regs ret =>
    exact Set.disjoint_union_left.mpr
      ⟨layout.slots_disjoint j id h, (layout.slot_stack_disjoint id j).symm⟩
  | absent => exact Set.empty_disjoint _
  | running => exact Set.empty_disjoint _

/-- So is a stack. -/
theorem held_disjoint_stack (h : j ≠ id) : Disjoint (layout.held j st) (layout.stack id) := by
  cases st with
  | fresh entry => exact layout.slot_stack_disjoint j id
  | away regs ret =>
    exact Set.disjoint_union_left.mpr
      ⟨layout.slot_stack_disjoint j id, layout.stacks_disjoint j id h⟩
  | absent => exact Set.empty_disjoint _
  | running => exact Set.empty_disjoint _

/-- What a task is to find depends on the memory that it relies on. -/
theorem Kept.congr (h : Set.EqOn mem' mem (layout.held id st))
    (hkept : layout.Kept image mem id st) : layout.Kept image mem' id st := by
  cases st with
  | fresh entry => exact (CpuContext.read_congr h).trans hkept
  | away regs ret =>
    obtain ⟨hslot, hin, hret⟩ := hkept
    have hword : Set.EqOn mem' mem (Set.Ico (regs .rsp - 8).toNat ((regs .rsp - 8).toNat + 8)) :=
      h.mono (hin.word_subset.trans Set.subset_union_right)
    exact ⟨(CpuContext.read_congr (h.mono Set.subset_union_left)).trans hslot, hin,
      (ByteMemory.read64_congr hword).trans hret⟩
  | absent => trivial
  | running => trivial

/-- A call leaves alone what the other tasks rely on. -/
theorem eqOn_memAfter {cpu : Cpu} {ret : UInt64} (hin : layout.InStack id (cpu.regs .rsp))
    (h : j ≠ id) :
    Set.EqOn (image.memAfter cpu (layout.slot id) ret) cpu.mem (layout.held j st) :=
  (CpuContext.eqOn_write _ _ (held_disjoint_slot h)).trans
    (ByteMemory.eqOn_write64 ((held_disjoint_stack h).mono_right hin.word_subset))

/-- A call stores what its task is to find. -/
theorem kept_memAfter {cpu : Cpu} {ret : UInt64} (hin : layout.InStack id (cpu.regs .rsp)) :
    layout.Kept image (image.memAfter cpu (layout.slot id) ret) id (.away cpu.regs ret) := by
  refine ⟨CpuContext.read_write_self _ _ _, hin, ?_⟩
  have hslot : Disjoint (layout.stack id) (slotRange (layout.slot id)) :=
    (layout.slot_stack_disjoint id id).symm
  have hword := CpuContext.eqOn_write (cpu.mem.write64 (cpu.regs .rsp - 8).toNat ret)
    (image.saved cpu.regs) (hslot.mono_left hin.word_subset)
  exact (ByteMemory.read64_congr hword).trans (ByteMemory.read64_write64_self _ _ _)

end TaskLayout

/-! ## The world -/

/-- The processor, the task that executes, and what the tasks are to find. -/
structure World (ι : Type) where
  cpu : Cpu
  current : ι
  status : ι → Status

/-- What the task that executes does. -/
inductive Op (ι : Type)
  /-- Compute, up to any registers and memory. -/
  | work (cpu : Cpu)
  /-- `Task::new` followed by `Scheduler::spawn`, as far as the slot goes. -/
  | spawn (id : ι) (entry : UInt64)
  /-- Call `context_switch` from the slot of the task to another, to return to `ret`. -/
  | contextSwitch (new : ι) (ret : UInt64)

/-- The task whose slot a spawn fills or to which a switch goes. -/
def Op.target {ι : Type} : Op ι → Option ι
  | .work _ => none
  | .spawn id _ => some id
  | .contextSwitch new _ => some new

namespace World

variable {ι : Type} [DecidableEq ι] (image : Image) (layout : TaskLayout ι)

def step (w : World ι) : Op ι → World ι
  | .work cpu => { w with cpu }
  | .spawn id entry =>
    let mem := CpuContext.write w.cpu.mem (layout.slot id).toNat
      (layout.initialContext image id entry)
    { w with
      cpu := { w.cpu with mem }
      status := Function.update w.status id (.fresh entry) }
  | .contextSwitch new ret =>
    { cpu := image.switch w.cpu (layout.slot w.current) (layout.slot new) ret
      current := new
      status := Function.update (Function.update w.status w.current (.away w.cpu.regs ret)) new
        .running }

/-- A task may use all registers and all memory but what the waiting tasks rely on; it spawns other
tasks; and it switches, on its own stack, to a task that waits. -/
def Allowed (w : World ι) : Op ι → Prop
  | .work cpu => ∀ j, Set.EqOn cpu.mem w.cpu.mem (layout.held j (w.status j))
  | .spawn id _ => id ≠ w.current
  | .contextSwitch new _ =>
    (w.status new).Waits ∧ layout.InStack w.current (w.cpu.regs .rsp)

/-- One task executes, and there is no other. -/
def Initial (w : World ι) : Prop :=
  w.status w.current = .running ∧ ∀ j, j ≠ w.current → w.status j = .absent

/-- The allowed operations. -/
def system : TransitionSystem (World ι) (Op ι) where
  Init := Initial
  Step w op w' := w.Allowed layout op ∧ w.step image layout op = w'

/-- The task that executes is recorded as such, and the others find what they are to find. -/
structure Sound (w : World ι) : Prop where
  current_running : w.status w.current = .running
  kept : ∀ j, layout.Kept image w.cpu.mem j (w.status j)

variable {image layout} {w w' : World ι} {op : Op ι} {j new : ι} {ret : UInt64}

omit [DecidableEq ι] in
theorem Sound.ne_current (h : w.Sound image layout) (hwaits : (w.status j).Waits) :
    j ≠ w.current := by
  rintro rfl
  rw [h.current_running] at hwaits
  exact hwaits

/-- **A switch to a waiting task** stores what the caller is to find, and resumes the other as it is
to be. -/
theorem Sound.resumed (h : w.Sound image layout) (hok : w.Allowed layout (.contextSwitch new ret)) :
    (w.step image layout (.contextSwitch new ret)).cpu.mem =
        image.memAfter w.cpu (layout.slot w.current) ret ∧
      layout.Resumes image (w.step image layout (.contextSwitch new ret)).cpu new
        (w.status new) := by
  obtain ⟨hwaits, hin⟩ := hok
  have hne : new ≠ w.current := h.ne_current hwaits
  have hkept : layout.Kept image (image.memAfter w.cpu (layout.slot w.current) ret) new
      (w.status new) :=
    (h.kept new).congr (TaskLayout.eqOn_memAfter hin hne)
  have hold := layout.slot_fits w.current
  have hnew := layout.slot_fits new
  cases hst : w.status new with
  | fresh entry =>
    rw [hst] at hkept
    obtain ⟨hmem, hrip, hregs⟩ := Image.switch_to_outside hold hnew hkept image.trampoline_outside
    exact ⟨hmem, hrip, hregs (0x00, .rsp) (by decide), hregs (0x18, .r12) (by decide)⟩
  | away regs ret' =>
    rw [hst] at hkept
    obtain ⟨hslot, -, hret⟩ := hkept
    obtain ⟨hmem, hrip, hregs⟩ := Image.switch_to_label hold hnew hslot
    exact ⟨hmem, hrip.trans hret, hregs⟩
  | absent =>
    rw [hst] at hwaits
    exact hwaits.elim
  | running =>
    rw [hst] at hwaits
    exact hwaits.elim

/-- What an allowed operation does to a task: nothing that it relies on, if it waits; or it is
spawned; or it executes, and calls; or it is resumed. -/
theorem Sound.step_cases (h : w.Sound image layout) (hok : w.Allowed layout op) (j : ι) :
    (op.target ≠ some j ∧ (w.step image layout op).status j = w.status j ∧
      Set.EqOn (w.step image layout op).cpu.mem w.cpu.mem (layout.held j (w.status j))) ∨
    (∃ entry, op = .spawn j entry ∧ (w.step image layout op).status j = .fresh entry ∧
      CpuContext.read (w.step image layout op).cpu.mem (layout.slot j).toNat =
        layout.initialContext image j entry) ∨
    (∃ new ret, op = .contextSwitch new ret ∧ w.current = j ∧
      (w.step image layout op).status j = .away w.cpu.regs ret ∧
      layout.Kept image (w.step image layout op).cpu.mem j (.away w.cpu.regs ret)) ∨
    (∃ ret, op = .contextSwitch j ret ∧ (w.step image layout op).status j = .running) := by
  cases op with
  | work cpu => exact .inl ⟨(Option.some_ne_none j).symm, rfl, hok j⟩
  | spawn id entry =>
    by_cases hj : j = id
    · subst hj
      exact .inr (.inl ⟨entry, rfl, Function.update_self _ _ _,
        CpuContext.read_write_self _ _ _⟩)
    · refine .inl ⟨fun htarget => hj (Option.some.inj htarget).symm, ?_, ?_⟩
      · exact Function.update_of_ne hj _ _
      · exact CpuContext.eqOn_write _ _ (TaskLayout.held_disjoint_slot hj)
  | contextSwitch new ret =>
    obtain ⟨hmem, -⟩ := h.resumed hok
    by_cases hj : j = new
    · subst hj
      exact .inr (.inr (.inr ⟨ret, rfl, Function.update_self _ _ _⟩))
    · have hstatus := Function.update_of_ne hj .running
        (Function.update w.status w.current (.away w.cpu.regs ret))
      rw [hmem]
      by_cases hcurrent : j = w.current
      · subst hcurrent
        refine .inr (.inr (.inl ⟨new, ret, rfl, rfl, ?_, TaskLayout.kept_memAfter hok.2⟩))
        exact hstatus.trans (Function.update_self _ _ _)
      · refine .inl ⟨fun htarget => hj (Option.some.inj htarget).symm, ?_, ?_⟩
        · exact hstatus.trans (Function.update_of_ne hcurrent _ _)
        · exact TaskLayout.eqOn_memAfter hok.2 hcurrent

/-- The task that executes stays recorded. -/
theorem Sound.current_running_step (h : w.Sound image layout) (hok : w.Allowed layout op) :
    (w.step image layout op).status (w.step image layout op).current = .running := by
  cases op with
  | work cpu => exact h.current_running
  | spawn id entry =>
    exact (Function.update_of_ne (Ne.symm hok) _ _).trans h.current_running
  | contextSwitch new ret => exact Function.update_self _ _ _

theorem Sound.step (h : w.Sound image layout) (hok : w.Allowed layout op) :
    (w.step image layout op).Sound image layout := by
  refine ⟨h.current_running_step hok, fun j => ?_⟩
  rcases h.step_cases hok j with ⟨-, hstatus, hmem⟩ | ⟨entry, -, hstatus, hread⟩ |
    ⟨new, ret, -, -, hstatus, hkept⟩ | ⟨ret, -, hstatus⟩
  · rw [hstatus]
    exact (h.kept j).congr hmem
  · rw [hstatus]
    exact hread
  · rw [hstatus]
    exact hkept
  · rw [hstatus]
    trivial

theorem Initial.sound (h : w.Initial) : w.Sound image layout := by
  refine ⟨h.1, fun j => ?_⟩
  by_cases hj : j = w.current
  · rw [hj, h.1]
    trivial
  · rw [h.2 j hj]
    trivial

/-- **Every reachable world is sound.** -/
theorem invariant_sound :
    (system image layout).Invariant fun w => w.Sound image layout where
  init _ h := h.sound
  step _ _ _ h hst := hst.2 ▸ h.step hst.1

/-! ## The record and the run -/

/-- What the record of a task says about the run: since it was spawned, or since its own call, it
has been neither spawned nor switched to. -/
def Since (image : Image) (layout : TaskLayout ι) (w₀ : World ι) (ops : List (Op ι)) (j : ι) :
    Status → Prop
  | .fresh entry => ∃ before after, ops = before ++ .spawn j entry :: after ∧
      ∀ op ∈ after, op.target ≠ some j
  | .away regs ret => ∃ before w₁ new after, ops = before ++ .contextSwitch new ret :: after ∧
      (system image layout).Run w₀ before w₁ ∧ w₁.current = j ∧ w₁.cpu.regs = regs ∧
      ∀ op ∈ after, op.target ≠ some j
  | .absent => True
  | .running => True

theorem Since.snoc {w₀ : World ι} {ops : List (Op ι)} {st : Status}
    (h : Since image layout w₀ ops j st) (hop : op.target ≠ some j) :
    Since image layout w₀ (ops ++ [op]) j st := by
  have hafter : ∀ {after : List (Op ι)}, (∀ op ∈ after, op.target ≠ some j) →
      ∀ op' ∈ after ++ [op], op'.target ≠ some j := by
    intro after hall op' hmem
    rcases List.mem_append.mp hmem with hmem | hmem
    · exact hall op' hmem
    · rwa [List.mem_singleton.mp hmem]
  cases st with
  | fresh entry =>
    obtain ⟨before, after, rfl, hall⟩ := h
    exact ⟨before, after ++ [op], List.append_assoc _ _ _, hafter hall⟩
  | away regs ret =>
    obtain ⟨before, w₁, new, after, rfl, hrun, hcurrent, hregs, hall⟩ := h
    exact ⟨before, w₁, new, after ++ [op], List.append_assoc _ _ _, hrun, hcurrent, hregs,
      hafter hall⟩
  | absent => trivial
  | running => trivial

/-- **The record is that of the run.** -/
theorem since_status {w₀ : World ι} {ops : List (Op ι)} (hinit : w₀.Initial)
    (hrun : (system image layout).Run w₀ ops w) (j : ι) :
    Since image layout w₀ ops j (w.status j) := by
  refine hrun.snoc_induction (Q := fun ops w => Since image layout w₀ ops j (w.status j)) ?_ ?_
  · by_cases hj : j = w₀.current
    · rw [hj, hinit.1]
      trivial
    · rw [hinit.2 j hj]
      trivial
  · rintro ops w op _ hrun ih ⟨hok, rfl⟩
    have hsound : w.Sound image layout := invariant_sound.of_reachable ⟨w₀, ops, hinit, hrun⟩
    rcases hsound.step_cases hok j with ⟨htarget, hstatus, -⟩ | ⟨entry, rfl, hstatus, -⟩ |
      ⟨new, ret, rfl, hcurrent, hstatus, -⟩ | ⟨ret, -, hstatus⟩
    · rw [hstatus]
      exact ih.snoc htarget
    · rw [hstatus]
      exact ⟨ops, [], rfl, List.forall_mem_nil _⟩
    · rw [hstatus]
      exact ⟨ops, w, new, [], rfl, hrun, hcurrent, rfl, List.forall_mem_nil _⟩
    · rw [hstatus]
      trivial

/-- **Context switches preserve the registers of every task.**  Whenever a task is switched to, it
was spawned or made a call before, and was neither spawned nor switched to since.  If it was
spawned, it starts in the trampoline, at the top of its stack, with its entry function in `r12`.  If
it made a call, it continues at the return address of the call, with the stack pointer and the other
registers that it had there. -/
theorem registers_preserved (image : Image) (layout : TaskLayout ι) {w₀ w w' : World ι}
    {ops : List (Op ι)} {id : ι} {ret : UInt64} (hinit : w₀.Initial)
    (hrun : (system image layout).Run w₀ ops w)
    (hstep : (system image layout).Step w (.contextSwitch id ret) w') :
    (∃ before entry after, ops = before ++ .spawn id entry :: after ∧
      (∀ op ∈ after, op.target ≠ some id) ∧ w'.cpu.rip = image.trampoline ∧
      w'.cpu.regs .rsp = layout.stackTop id ∧ w'.cpu.regs .r12 = entry) ∨
    (∃ before w₁ new ret₁ after, ops = before ++ .contextSwitch new ret₁ :: after ∧
      (system image layout).Run w₀ before w₁ ∧ w₁.current = id ∧
      (∀ op ∈ after, op.target ≠ some id) ∧ w'.cpu.rip = ret₁ ∧
      ∀ r ∈ [Reg.rsp, .rbp, .rbx, .r12, .r13, .r14, .r15], w'.cpu.regs r = w₁.cpu.regs r) := by
  obtain ⟨hok, rfl⟩ := hstep
  have hsound : w.Sound image layout := invariant_sound.of_reachable ⟨w₀, ops, hinit, hrun⟩
  have hsince := since_status hinit hrun id
  obtain ⟨-, hresumes⟩ := hsound.resumed hok
  cases hst : w.status id with
  | fresh entry =>
    rw [hst] at hsince hresumes
    obtain ⟨before, after, hops, hall⟩ := hsince
    exact .inl ⟨before, entry, after, hops, hall, hresumes⟩
  | away regs ret₁ =>
    rw [hst] at hsince hresumes
    obtain ⟨before, w₁, new, after, hops, hbefore, hcurrent, rfl, hall⟩ := hsince
    exact .inr ⟨before, w₁, new, ret₁, after, hops, hbefore, hcurrent, hall, hresumes⟩
  | absent =>
    rw [hst] at hresumes
    exact hresumes.elim
  | running =>
    rw [hst] at hresumes
    exact hresumes.elim

end World

/-! ### The boot code and the first task -/

/-- The code, with four bytes for each instruction. -/
def flatAddress (k : Nat) : UInt64 := UInt64.ofNat (0x1000 + 4 * k)

theorem flatAddress_inj (i j : Nat) (hi : i < contextSwitch.length) (hj : j < contextSwitch.length)
    (h : flatAddress i = flatAddress j) : i = j := by
  have hlength : contextSwitch.length = 18 := rfl
  have hnat := congrArg UInt64.toNat h
  rw [flatAddress, flatAddress, UInt64.toNat_ofNat', UInt64.toNat_ofNat'] at hnat
  omega

def flatProgram : Program where
  instrs := contextSwitch
  address := flatAddress
  address_inj := flatAddress_inj

theorem fetch_flatProgram : flatProgram.fetch 0x2000 = none := by decide

def flatImage : Image where
  program := flatProgram
  instrs_eq := rfl
  trampoline := 0x2000
  trampoline_outside := fetch_flatProgram

theorem flat_fits : (0x20000 : UInt64).toNat + maxTasks * 64 ≤ 2 ^ 64 ∧
    (0x10000 : UInt64).toNat + 64 ≤ 2 ^ 64 := by decide

theorem flat_apart :
    [slotRange 0x10000, contextsRange 0x20000, stackRange 0x30000 0x40000, stackRegion].Pairwise
      Disjoint := by
  simp only [List.pairwise_cons, List.mem_cons, List.not_mem_nil, or_false, forall_eq_or_imp,
    forall_eq, false_imp_iff, implies_true, and_true, List.Pairwise.nil]
  refine ⟨⟨?_, ?_, ?_⟩, ⟨?_, ?_⟩, ?_⟩ <;> exact Set.Ico_disjoint_Ico.mpr (by decide)

def flatStatics : Statics where
  contexts := 0x20000
  idleContext := 0x10000
  bootBottom := 0x30000
  bootTop := 0x40000
  contexts_fits := flat_fits.1
  idleContext_fits := flat_fits.2
  apart := flat_apart

theorem one_lt_maxTasks : 1 < maxTasks := by decide

def firstTask : Fin maxTasks := ⟨1, one_lt_maxTasks⟩

def bootTask : Fin maxTasks := ⟨0, Nat.zero_lt_of_lt one_lt_maxTasks⟩

theorem bootTask_ne : bootTask ≠ firstTask := by decide

/-- The boot code, and no task yet. -/
def bootWorld (cpu : Cpu) : World (Fin maxTasks) where
  cpu := cpu
  current := bootTask
  status := Function.update (fun _ => .absent) bootTask .running

/-- Then it has spawned a task. -/
def spawnedWorld (cpu : Cpu) : World (Fin maxTasks) :=
  (bootWorld cpu).step flatImage flatStatics.layout (.spawn firstTask 0x5000)

/-- Then it has switched to the task. -/
def awayWorld (cpu : Cpu) : World (Fin maxTasks) :=
  (spawnedWorld cpu).step flatImage flatStatics.layout (.contextSwitch firstTask 0x6000)

theorem initial_bootWorld (cpu : Cpu) : (bootWorld cpu).Initial := by
  simp +contextual [World.Initial, bootWorld]

/-- The boot code can switch to the task, and the task back. -/
theorem allowed_awayWorld {cpu : Cpu}
    (hstack : flatStatics.layout.InStack bootTask (cpu.regs .rsp)) :
    (spawnedWorld cpu).Allowed flatStatics.layout (.contextSwitch firstTask 0x6000) ∧
      (awayWorld cpu).Allowed flatStatics.layout (.contextSwitch bootTask 0x7000) := by
  have hsound : (spawnedWorld cpu).Sound flatImage flatStatics.layout :=
    (initial_bootWorld cpu).sound.step bootTask_ne.symm
  have hfresh : (spawnedWorld cpu).status firstTask = .fresh 0x5000 := by
    simp [spawnedWorld, World.step]
  have haway : (awayWorld cpu).status bootTask = .away cpu.regs 0x6000 := by
    simp [awayWorld, spawnedWorld, World.step, bootTask_ne, bootWorld]
  have hswitch :
      (spawnedWorld cpu).Allowed flatStatics.layout (.contextSwitch firstTask 0x6000) := by
    refine ⟨?_, hstack⟩
    rw [hfresh]
    trivial
  obtain ⟨-, hresumes⟩ := hsound.resumed hswitch
  rw [hfresh] at hresumes
  have htop : flatStatics.layout.InStack firstTask (flatStatics.layout.stackTop firstTask) :=
    ⟨by decide, by decide⟩
  refine ⟨hswitch, ?_, ?_⟩
  · rw [haway]
    trivial
  · rw [awayWorld, hresumes.2.1]
    exact htop

/-- With some stack in use. -/
def bootCpu : Cpu := ⟨fun _ => 0x38000, 0, fun _ => 0⟩

/-- The boot code spawns a task and switches to it; the task switches back, and the boot code
continues behind its call. -/
theorem registers_preserved_boot : ∃ w w',
    (World.system flatImage flatStatics.layout).Run (bootWorld bootCpu)
      [.spawn firstTask 0x5000, .contextSwitch firstTask 0x6000] w ∧
    (World.system flatImage flatStatics.layout).Step w (.contextSwitch bootTask 0x7000) w' ∧
    w'.cpu.rip = 0x6000 := by
  have hstack : flatStatics.layout.InStack bootTask 0x38000 := ⟨by decide, by decide⟩
  obtain ⟨hswitch, hback⟩ := @allowed_awayWorld bootCpu hstack
  have hrun : (World.system flatImage flatStatics.layout).Run (bootWorld bootCpu)
      [.spawn firstTask 0x5000, .contextSwitch firstTask 0x6000] (awayWorld bootCpu) :=
    .cons ⟨bootTask_ne.symm, rfl⟩ (.cons ⟨hswitch, rfl⟩ (.nil _))
  refine ⟨_, _, hrun, ⟨hback, rfl⟩, ?_⟩
  rcases World.registers_preserved flatImage flatStatics.layout (initial_bootWorld bootCpu) hrun
    ⟨hback, rfl⟩ with
    ⟨before, entry, after, hops, -⟩ | ⟨before, w₁, new, ret, after, hops, -, -, -, hrip, -⟩
  · have hmem : Op.spawn bootTask entry ∈ before ++ Op.spawn bootTask entry :: after := by simp
    rw [← hops] at hmem
    have hfirst : bootTask = firstTask ∧ entry = 0x5000 := by simpa using hmem
    exact absurd hfirst.1 bootTask_ne
  · have hmem : Op.contextSwitch new ret ∈ before ++ Op.contextSwitch new ret :: after := by simp
    rw [← hops] at hmem
    have hcall : new = firstTask ∧ ret = 0x6000 := by simpa using hmem
    rw [hrip, hcall.2]

end ContextSwitch

end OxideOS
