import OxideOS.Gpu.Scheduler
import OxideOS.Ipc.Basic
import OxideOS.Memory.Paging
import OxideOS.Storage.ContextStore
import OxideOS.Task.Conservation

/-!
# The kernel's state

The global variables of the kernel in one record, and the two functions that work across several
subsystems without IPC: creating a task on a stack of its own, and cleaning up a dead one.

Every lock of the source is taken and released within one call, except that `yield_now` keeps the
scheduler locked over a reschedule.  Where a function only tries a lock, whether the attempt
succeeds is an argument of the model.
-/

namespace OxideOS

/-- The global variables of the kernel. -/
structure Kernel where
  /-- `CAP_TABLE`. -/
  caps : CapabilityTable
  /-- `SCHEDULER` and `ID_ALLOCATOR`. -/
  tasks : TaskSystem
  /-- `FRAME_ALLOCATOR`. -/
  frames : Option BitmapFrameAllocator
  /-- The active page table. -/
  pageTable : PageTable
  /-- `MAILBOXES`. -/
  mailboxes : BTreeMap TaskId Mailbox
  /-- `NEXT_MSG_ID`. -/
  nextMsgId : MessageId
  /-- `CHANNELS`. -/
  channels : BTreeMap String Channel
  /-- `NEXT_CHANNEL_ID`. -/
  nextChannelId : ChannelId
  /-- `PENDING`. -/
  pending : BTreeMap MessageId PendingRequest
  /-- `REPLIES`. -/
  replies : BTreeMap MessageId Message
  /-- `STORE`. -/
  store : ContextStore
  /-- `FS`. -/
  fs : OxideFs
  /-- `GPU_SCHEDULER`. -/
  gpu : GpuScheduler
  /-- `TIMER_TICKS`. -/
  ticks : UInt64

namespace Kernel

/-- The initial values, over the frames and the page table that the boot loader leaves. -/
def boot (frames : Option BitmapFrameAllocator) (pageTable : PageTable) : Kernel where
  caps := .new
  tasks := ⟨.new, .new⟩
  frames := frames
  pageTable := pageTable
  mailboxes := ∅
  nextMsgId := 1
  channels := ∅
  nextChannelId := 1
  pending := ∅
  replies := ∅
  store := .new
  fs := .new
  gpu := .new
  ticks := 0

/-! ## Tasks -/

/-- `STACK_PAGES`. -/
def stackPages : Nat := 4

/-- `STACK_REGION_BASE`. -/
def stackRegionBase : Nat := 0xFFFFB00000000000

/-- The pages of the stack of a task: a slot of `1 + STACK_PAGES` pages for each id, the first of
them the guard page, which stays unmapped. -/
def stackOf (id : TaskId) : List Nat :=
  List.range' (stackRegionBase / pageSize + id * (stackPages + 1) + 1) stackPages

/-- Map the pages of a stack, collecting the addresses of their frames behind those of `acc`. -/
def mapStackFrom (acc : List UInt64) (pages : List Nat) (pageTable : PageTable)
    (frames : Option BitmapFrameAllocator) :
    Option (List UInt64 × PageTable × Option BitmapFrameAllocator) :=
  pages.foldlM
    (fun (stackFrames, pageTable, frames) page => do
      let (frame, pageTable, frames) ← allocAndMap pageTable frames page
      some (stackFrames ++ [UInt64.ofNat frame.startAddress], pageTable, frames))
    (acc, pageTable, frames)

/-- Map the pages of a stack, collecting the addresses of their frames. -/
def mapStack (pages : List Nat) (pageTable : PageTable) (frames : Option BitmapFrameAllocator) :
    Option (List UInt64 × PageTable × Option BitmapFrameAllocator) :=
  mapStackFrom [] pages pageTable frames

/-- `Task::new` followed by `Scheduler::spawn`.  `none` is a panic: a page that cannot be mapped, or
an id past the array of contexts. -/
def spawnTask (k : Kernel) (priority : Priority) : Option Kernel := do
  let (id, _) := k.tasks.ids.alloc
  let (stackFrames, pageTable, frames) ← mapStack (stackOf id) k.pageTable k.frames
  let tasks ← k.tasks.step (.spawn priority stackFrames)
  some { k with tasks, pageTable, frames }

/-- Return the frames of a stack.  `none` is an index out of bounds. -/
def freeStack (frames : Option BitmapFrameAllocator) (stackFrames : List UInt64) :
    Option (Option BitmapFrameAllocator) :=
  match frames with
  | none => some none
  | some frames =>
    (stackFrames.foldlM
      (fun (frames : BitmapFrameAllocator) physAddr =>
        frames.freeFrame (.containingAddress physAddr.toNat)) frames).map some

/-- `cleanup_dead_task`: the stack frames, the mailbox and the id are given back. -/
def cleanupDeadTask (k : Kernel) (task : Task) : Option Kernel := do
  let frames ← freeStack k.frames task.stackFrames
  some { k with
    frames
    mailboxes := k.mailboxes.erase task.id
    tasks := { k.tasks with ids := k.tasks.ids.free task.id } }

/-- `reschedule`.  The cleanup of a dead task touches nothing that picking the next one reads. -/
def reschedule (k : Kernel) : Option Kernel :=
  match k.tasks.sched.reschedule with
  | (_, none, sched) => some { k with tasks := { k.tasks with sched } }
  | (_, some task, sched) => cleanupDeadTask { k with tasks := { k.tasks with sched } } task

/-- `SCHEDULER.try_lock()` and, if that succeeds, `unblock`. -/
def wake (k : Kernel) (taskId : TaskId) (unlocked : Bool) : Kernel :=
  if unlocked then { k with tasks := { k.tasks with sched := (k.tasks.sched.unblock taskId).2 } }
  else k

variable {k k' : Kernel} {task : Task}

theorem cleanupDeadTask_eq_some (h : k.cleanupDeadTask task = some k') :
    ∃ frames, k' = { k with
      frames
      mailboxes := k.mailboxes.erase task.id
      tasks := { k.tasks with ids := k.tasks.ids.free task.id } } := by
  rw [cleanupDeadTask, Option.bind_eq_bind, Option.bind_eq_some_iff] at h
  obtain ⟨frames, -, hk⟩ := h
  exact ⟨frames, (Option.some.inj hk).symm⟩

/-- A reschedule moves tasks, and touches nothing else unless a dead task is cleaned up: then its
mailbox is gone, its id is free and its frames are given back. -/
theorem reschedule_cases (h : k.reschedule = some k') :
    ∃ change reaped sched, k.tasks.sched.reschedule = (change, reaped, sched) ∧
      ∃ frames mailboxes, k' = { k with
        tasks := ⟨sched, TaskSystem.recycle k.tasks.ids reaped⟩, frames, mailboxes } := by
  rcases hres : k.tasks.sched.reschedule with ⟨change, _ | task, sched⟩
  · rw [reschedule, hres] at h
    exact ⟨change, none, sched, rfl, k.frames, k.mailboxes, (Option.some.inj h).symm⟩
  · rw [reschedule, hres] at h
    obtain ⟨frames, rfl⟩ := cleanupDeadTask_eq_some h
    exact ⟨change, some task, sched, rfl, frames, k.mailboxes.erase task.id, rfl⟩

theorem spawnTask_eq_some {priority : Priority} (h : k.spawnTask priority = some k') :
    ∃ stackFrames tasks, k.tasks.step (.spawn priority stackFrames) = some tasks ∧
      ∃ pageTable frames, k' = { k with tasks, pageTable, frames } := by
  simp only [spawnTask, Option.bind_eq_bind, Option.bind_eq_some_iff] at h
  obtain ⟨⟨stackFrames, pageTable, frames⟩, -, tasks, htasks, hk⟩ := h
  exact ⟨stackFrames, tasks, htasks, pageTable, frames, (Option.some.inj hk).symm⟩

end Kernel

end OxideOS
