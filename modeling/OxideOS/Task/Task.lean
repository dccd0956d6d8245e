import OxideOS.Basic

/-!
# Tasks and their identifiers

`task/mod.rs`: tasks, and the allocator of task ids, which hands out the id of a dead task again.

Of a saved `CpuContext` the model keeps what scheduling depends on: whose stack the saved stack
pointer is in, and where the saved instruction pointer resumes.
-/

namespace OxideOS

inductive TaskState
  | ready
  | running
  | blocked
  | dead
deriving DecidableEq, Repr

inductive Priority
  | realtime
  | normal
  | background
deriving DecidableEq, Repr

/-- Where a saved instruction pointer resumes. -/
inductive ResumePoint
  /-- Address 0, in a slot that was never written. -/
  | null
  /-- `task_entry_trampoline`, which calls the entry function of a fresh task. -/
  | entry
  /-- Behind the switch of a `yield_now` that returns to its caller. -/
  | caller
  /-- Behind the switch of the `yield_now` of `exit_current`, right before its `unreachable!`. -/
  | unreachable
deriving DecidableEq, Repr

/-- A saved context: whose stack it is on (`none` is the boot stack) and where it resumes. -/
structure CpuContext where
  owner : Option TaskId
  resume : ResumePoint
deriving DecidableEq, Repr

/-- `CpuContext::empty`. -/
def CpuContext.empty : CpuContext := ⟨none, .null⟩

structure Task where
  id : TaskId
  state : TaskState
  priority : Priority
  context : CpuContext
  /-- Physical addresses of the frames of the stack. -/
  stackFrames : List UInt64
deriving DecidableEq, Repr

/-- `IdAllocator`: ids are reused after tasks die. -/
structure IdAllocator where
  next : Nat
  freeList : List TaskId
deriving DecidableEq, Repr

namespace IdAllocator

/-- `IdAllocator::new`. -/
def new : IdAllocator := ⟨1, []⟩

/-- `IdAllocator::alloc`: the id freed last, or else the next one. -/
def alloc (ids : IdAllocator) : TaskId × IdAllocator :=
  match ids.freeList.getLast? with
  | some id => (id, { ids with freeList := ids.freeList.dropLast })
  | none => (ids.next, { ids with next := ids.next + 1 })

/-- `IdAllocator::free`. -/
def free (ids : IdAllocator) (id : TaskId) : IdAllocator :=
  { ids with freeList := ids.freeList ++ [id] }

end IdAllocator

/-- `Task::new`, on a stack that was mapped to these frames. -/
def Task.new (ids : IdAllocator) (priority : Priority) (stackFrames : List UInt64) :
    Task × IdAllocator :=
  let (id, ids) := ids.alloc
  ({ id, state := .ready, priority, context := ⟨some id, .entry⟩, stackFrames }, ids)

end OxideOS
