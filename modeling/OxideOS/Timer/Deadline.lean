import OxideOS.Basic
import OxideOS.Lib.BinaryHeap
import Mathlib.Data.List.MinMax

/-!
# The deadline queue

`timer/deadline.rs`: tasks that sleep have an entry with the tick at which they are to be woken.
The queue is a binary heap with the earliest deadline on top; the timer interrupt pops the entries
whose deadline has come, and wakes the task of each if it can lock the scheduler.
-/

namespace OxideOS

structure DeadlineEntry where
  deadlineTick : UInt64
  taskId : TaskId
  callbackId : Nat
deriving DecidableEq

/-- The earliest deadline is the greatest entry. -/
instance : Ord DeadlineEntry where
  compare entry other := compare other.deadlineTick entry.deadlineTick

/-- `DeadlineQueue`, with the counter `NEXT_CALLBACK`. -/
structure DeadlineQueue where
  heap : List DeadlineEntry
  nextCallback : Nat

namespace DeadlineQueue

/-- `DeadlineQueue::new`. -/
def new : DeadlineQueue := ⟨[], 1⟩

def schedule (q : DeadlineQueue) (taskId : TaskId) (deadlineTick : UInt64) : Nat × DeadlineQueue :=
  let id := q.nextCallback
  (id, ⟨{ deadlineTick, taskId, callbackId := id } :: q.heap, q.nextCallback + 1⟩)

def cancel (q : DeadlineQueue) (callbackId : Nat) : DeadlineQueue :=
  { q with heap := q.heap.filter fun e => e.callbackId ≠ callbackId }

/-- `check_expired`: the entries that are popped, in order, and what is left of the queue. -/
def checkExpired (rule : HeapRule DeadlineEntry) (q : DeadlineQueue) (currentTick : UInt64) :
    List DeadlineEntry × DeadlineQueue :=
  let (popped, heap) := rule.popWhile (fun e => e.deadlineTick ≤ currentTick) q.heap
  (popped, { q with heap })

variable {rule : HeapRule DeadlineEntry} {q : DeadlineQueue} {tick : UInt64} {e : DeadlineEntry}

theorem not_gt_iff (e e' : DeadlineEntry) :
    compare e' e ≠ .gt ↔ e.deadlineTick ≤ e'.deadlineTick := by
  rw [← Std.isLE_compare]
  exact Ordering.ne_gt_iff_isLE

theorem checkExpired_perm (rule : HeapRule DeadlineEntry) (q : DeadlineQueue) (tick : UInt64) :
    (q.checkExpired rule tick).1.Perm (q.heap.filter fun e => e.deadlineTick ≤ tick) ∧
      (q.checkExpired rule tick).2.heap.Perm
        (q.heap.filter fun e => !decide (e.deadlineTick ≤ tick)) := by
  apply rule.popWhile_perm
  intro e e' hle hdue
  rw [not_gt_iff] at hle
  rw [decide_eq_true_iff] at hdue ⊢
  exact UInt64.le_trans hle hdue

/-- The entries that are popped are those whose deadline has come. -/
theorem mem_popped :
    e ∈ (q.checkExpired rule tick).1 ↔ e ∈ q.heap ∧ e.deadlineTick ≤ tick := by
  rw [(checkExpired_perm rule q tick).1.mem_iff, List.mem_filter, decide_eq_true_iff]

/-- The others are left. -/
theorem mem_left :
    e ∈ (q.checkExpired rule tick).2.heap ↔ e ∈ q.heap ∧ ¬e.deadlineTick ≤ tick := by
  rw [(checkExpired_perm rule q tick).2.mem_iff, List.mem_filter, Bool.not_eq_true',
    decide_eq_false_iff_not]

/-- A heap that has the first of the earliest deadlines on top. -/
def firstEarliest : HeapRule DeadlineEntry where
  peek heap := heap.argmin fun e => e.deadlineTick.toNat
  eq_nil_of_peek h := List.argmin_eq_none.mp h
  mem_of_peek h := List.argmin_mem h
  not_gt_of_peek h y hy := by
    rw [not_gt_iff]
    exact List.le_of_mem_argmin hy h

end DeadlineQueue

end OxideOS
