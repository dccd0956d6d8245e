import OxideOS.Basic
import OxideOS.Lib.BinaryHeap

/-!
# The inference scheduler

`gpu/scheduler.rs`: inference requests wait in a priority queue, and one of them at a time is
current.  The queue is a binary heap, kept here as the list of its elements; which of the greatest
comes out first is left to a `HeapRule`.
-/

namespace OxideOS

/-- `gpu::scheduler::RequestId`. -/
abbrev RequestId := Nat

inductive InferencePriority
  | urgent
  | normal
  | batch
deriving DecidableEq, Repr

/-- `priority as u8`. -/
def InferencePriority.number : InferencePriority → Nat
  | .urgent => 0
  | .normal => 1
  | .batch => 2

structure InferenceRequest where
  id : RequestId
  agentId : AgentId
  modelId : String
  priority : InferencePriority
  deadlineTick : Option UInt64
  submittedTick : UInt64
deriving DecidableEq, Repr

/-- `InferenceRequest::cmp`: the greatest request is to be served first. -/
def InferenceRequest.cmp (request other : InferenceRequest) : Ordering :=
  ((compare request.priority.number other.priority.number).then
    (match request.deadlineTick, other.deadlineTick with
      | some a, some b => compare a b
      | some _, none => .lt
      | none, some _ => .gt
      | none, none => compare request.submittedTick other.submittedTick)).swap

instance : Ord InferenceRequest := ⟨InferenceRequest.cmp⟩

/-- The deadline of the request has passed. -/
def InferenceRequest.expired (request : InferenceRequest) (currentTick : UInt64) : Bool :=
  request.deadlineTick.any fun deadline => deadline < currentTick

/-- `GpuScheduler`, with the counter `NEXT_REQUEST_ID` of the request ids. -/
structure GpuScheduler where
  queue : List InferenceRequest
  current : Option InferenceRequest
  totalCompleted : Nat
  totalFailed : Nat
  nextRequestId : RequestId
deriving DecidableEq, Repr

namespace GpuScheduler

/-- `GpuScheduler::new`. -/
def new : GpuScheduler := ⟨[], none, 0, 0, 1⟩

/-- `GpuScheduler::submit`, at the tick `tick`. -/
def submit (gpu : GpuScheduler) (agentId : AgentId) (modelId : String)
    (priority : InferencePriority) (deadlineTick : Option UInt64) (tick : UInt64) :
    RequestId × GpuScheduler :=
  let id := gpu.nextRequestId
  (id, { gpu with
    nextRequestId := gpu.nextRequestId + 1
    queue := gpu.queue ++
      [{ id, agentId, modelId, priority, deadlineTick, submittedTick := tick }] })

/-- `GpuScheduler::dequeue`: the request that is popped becomes the current one, whether there is
one already or not. -/
def dequeue (rule : HeapRule InferenceRequest) (gpu : GpuScheduler) :
    Option InferenceRequest × GpuScheduler :=
  match rule.pop gpu.queue with
  | none => (none, gpu)
  | some (request, queue) => (some request, { gpu with queue, current := some request })

/-- `GpuScheduler::complete_current`. -/
def completeCurrent (gpu : GpuScheduler) : GpuScheduler :=
  match gpu.current with
  | none => gpu
  | some _ => { gpu with current := none, totalCompleted := gpu.totalCompleted + 1 }

/-- `GpuScheduler::fail_current`. -/
def failCurrent (gpu : GpuScheduler) : GpuScheduler :=
  match gpu.current with
  | none => gpu
  | some _ => { gpu with current := none, totalFailed := gpu.totalFailed + 1 }

/-- `GpuScheduler::expire_deadlines`: the queue is drained, and what has not expired is pushed
again. -/
def expireDeadlines (gpu : GpuScheduler) (currentTick : UInt64) : Nat × GpuScheduler :=
  let remaining := gpu.queue.filter fun request => !request.expired currentTick
  let expired := (gpu.queue.filter fun request => request.expired currentTick).length
  (expired, { gpu with queue := remaining, totalFailed := gpu.totalFailed + expired })

/-- `GpuScheduler::queue_length`. -/
def queueLength (gpu : GpuScheduler) : Nat := gpu.queue.length

end GpuScheduler

end OxideOS
