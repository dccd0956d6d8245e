import OxideOS.Gpu.Order
import Mathlib.Data.List.Perm.Basic

/-!
# No inference request disappears

A request goes from the queue to the slot of the current request, and from there, or from the queue
when its deadline passes, into one of two counters.  `dequeue` fills the slot without looking at it:
a request that is still there is in no counter and nowhere else.  A tally keeps beside the scheduler
the requests that were submitted, those that were counted and those that were overwritten, and in
every run these three and what the scheduler holds are in balance.

## Main definitions

* `GpuOp`, `GpuScheduler.apply`: the five operations on the scheduler
* `GpuScheduler.Tally`: the scheduler, with the requests that went through it

## Main results

* `GpuScheduler.Tally.Balanced.step`, `GpuScheduler.Tally.balanced_run`: the balance of every run
* `GpuScheduler.Tally.foldl_overwritten_eq_nil_iff`: when a run overwrites no request
* `GpuScheduler.requests_accounted_iff`: the counters account for every request exactly when none
  is overwritten
-/

namespace OxideOS

/-- An operation on the scheduler; `dequeue` comes with the arrangement of the heap. -/
inductive GpuOp
  | submit (agentId : AgentId) (modelId : String) (priority : InferencePriority)
      (deadlineTick : Option UInt64) (tick : UInt64)
  | dequeue (rule : HeapRule InferenceRequest)
  | completeCurrent
  | failCurrent
  | expireDeadlines (currentTick : UInt64)

namespace GpuScheduler

variable (gpu : GpuScheduler)

/-- The scheduler after an operation. -/
def apply : GpuOp → GpuScheduler
  | .submit agentId modelId priority deadlineTick tick =>
    (gpu.submit agentId modelId priority deadlineTick tick).2
  | .dequeue rule => (gpu.dequeue rule).2
  | .completeCurrent => gpu.completeCurrent
  | .failCurrent => gpu.failCurrent
  | .expireDeadlines currentTick => (gpu.expireDeadlines currentTick).2

/-- The requests the scheduler holds. -/
def held : List InferenceRequest := gpu.current.toList ++ gpu.queue

/-- The request an operation submits. -/
def submittedBy : GpuOp → List InferenceRequest
  | .submit agentId modelId priority deadlineTick tick =>
    [{ id := gpu.nextRequestId, agentId, modelId, priority, deadlineTick, submittedTick := tick }]
  | _ => []

/-- The requests an operation adds to one of the counters. -/
def countedBy : GpuOp → List InferenceRequest
  | .completeCurrent => gpu.current.toList
  | .failCurrent => gpu.current.toList
  | .expireDeadlines currentTick => gpu.queue.filter fun request => request.expired currentTick
  | _ => []

/-- The request that is current when another takes its place. -/
def overwrittenBy : GpuOp → List InferenceRequest
  | .dequeue _ => if gpu.queue = [] then [] else gpu.current.toList
  | _ => []

/-- **An operation moves requests**: what it submits comes to those that are held, and what it
counts or overwrites goes from them. -/
theorem held_apply_perm (op : GpuOp) :
    (gpu.countedBy op ++ gpu.overwrittenBy op ++ (gpu.apply op).held).Perm
      (gpu.held ++ gpu.submittedBy op) := by
  cases op with
  | submit agentId modelId priority deadlineTick tick =>
    rw [held, held, List.append_assoc gpu.current.toList]
    exact .refl _
  | dequeue rule =>
    simp only [countedBy, overwrittenBy, submittedBy, apply, dequeue, List.nil_append,
      List.append_nil]
    cases hpop : rule.pop gpu.queue with
    | none => simp [rule.pop_eq_none hpop]
    | some popped =>
      obtain ⟨request, rest⟩ := popped
      obtain ⟨hmem, rfl, -⟩ := rule.pop_eq_some hpop
      rw [if_neg (List.ne_nil_of_mem hmem)]
      exact (List.perm_cons_erase hmem).symm.append_left _
  | completeCurrent =>
    simp only [countedBy, overwrittenBy, submittedBy, apply, completeCurrent, held]
    cases hcurrent : gpu.current <;> simp [hcurrent]
  | failCurrent =>
    simp only [countedBy, overwrittenBy, submittedBy, apply, failCurrent, held]
    cases hcurrent : gpu.current <;> simp [hcurrent]
  | expireDeadlines currentTick =>
    have hsplit := List.filter_append_perm (·.expired currentTick) gpu.queue
    simp only [countedBy, overwrittenBy, submittedBy, apply, expireDeadlines, held,
      List.append_nil]
    refine .trans ?_ (hsplit.append_left _)
    rw [← List.append_assoc, ← List.append_assoc]
    exact List.perm_append_comm.append_right _

/-- The counters count what an operation adds to them. -/
theorem counters_apply (op : GpuOp) :
    (gpu.apply op).totalCompleted + (gpu.apply op).totalFailed =
      gpu.totalCompleted + gpu.totalFailed + (gpu.countedBy op).length := by
  cases op with
  | submit agentId modelId priority deadlineTick tick => rfl
  | dequeue rule =>
    simp only [countedBy, apply, dequeue]
    cases rule.pop gpu.queue <;> rfl
  | completeCurrent =>
    simp only [countedBy, apply, completeCurrent]
    cases gpu.current with
    | none => rfl
    | some request => exact Nat.add_right_comm _ _ _
  | failCurrent =>
    simp only [countedBy, apply, failCurrent]
    cases gpu.current <;> rfl
  | expireDeadlines currentTick =>
    exact (Nat.add_assoc _ _ _).symm

/-- A submitted request gets the next id, and the counter of the ids moves past it. -/
theorem nextRequestId_apply (op : GpuOp) :
    (gpu.apply op).nextRequestId = gpu.nextRequestId + (gpu.submittedBy op).length := by
  cases op with
  | submit agentId modelId priority deadlineTick tick => rfl
  | dequeue rule =>
    simp only [submittedBy, apply, dequeue]
    cases rule.pop gpu.queue <;> rfl
  | completeCurrent =>
    simp only [submittedBy, apply, completeCurrent]
    cases gpu.current <;> rfl
  | failCurrent =>
    simp only [submittedBy, apply, failCurrent]
    cases gpu.current <;> rfl
  | expireDeadlines currentTick => rfl

theorem submittedBy_id (op : GpuOp) :
    (gpu.submittedBy op).map (·.id) =
      List.range' gpu.nextRequestId (gpu.submittedBy op).length := by
  cases op <;> rfl

/-- The scheduler, with the requests that were submitted to it, those that were counted as completed
or failed, and those that were overwritten. -/
structure Tally where
  gpu : GpuScheduler
  submitted : List InferenceRequest
  counted : List InferenceRequest
  overwritten : List InferenceRequest

namespace Tally

/-- The tally of a new scheduler. -/
def start : Tally := ⟨.new, [], [], []⟩

/-- The tally after an operation. -/
def step (tally : Tally) (op : GpuOp) : Tally where
  gpu := tally.gpu.apply op
  submitted := tally.submitted ++ tally.gpu.submittedBy op
  counted := tally.counted ++ tally.gpu.countedBy op
  overwritten := tally.overwritten ++ tally.gpu.overwrittenBy op

/-- The tally of a run. -/
def run (ops : List GpuOp) : Tally := ops.foldl step start

/-- Every request that was submitted is accounted for once: it was counted, it was overwritten or
it is held. -/
structure Balanced (tally : Tally) : Prop where
  perm : tally.submitted.Perm (tally.counted ++ tally.overwritten ++ tally.gpu.held)
  length_counted : tally.counted.length = tally.gpu.totalCompleted + tally.gpu.totalFailed
  ids : tally.submitted.map (·.id) = List.range' 1 tally.submitted.length
  nextRequestId : tally.gpu.nextRequestId = 1 + tally.submitted.length

theorem Balanced.start : Balanced start := ⟨.refl _, rfl, rfl, rfl⟩

theorem Balanced.step {tally : Tally} (h : tally.Balanced) (op : GpuOp) :
    (tally.step op).Balanced where
  perm := by
    refine List.perm_iff_count.mpr fun request => ?_
    have hheld := (tally.gpu.held_apply_perm op).count_eq request
    have hbefore := h.perm.count_eq request
    simp only [List.count_append, Tally.step] at hheld hbefore ⊢
    omega
  length_counted := by
    rw [Tally.step, List.length_append, h.length_counted, counters_apply]
  ids := by
    rw [Tally.step, List.map_append, h.ids, submittedBy_id, h.nextRequestId, List.length_append,
      List.range'_append_1]
  nextRequestId := by
    rw [Tally.step, nextRequestId_apply, h.nextRequestId, List.length_append, Nat.add_assoc]

/-- **The balance of a run.** -/
theorem balanced_run (ops : List GpuOp) : (run ops).Balanced :=
  List.foldlRecOn ops Tally.step Balanced.start fun _ h op _ => h.step op

/-- No two submitted requests are the same. -/
theorem Balanced.nodup {tally : Tally} (h : tally.Balanced) :
    (tally.submitted.map (·.id)).Nodup := by
  rw [h.ids]
  exact List.nodup_range'

theorem step_overwritten_eq_nil_iff (tally : Tally) (op : GpuOp) :
    (tally.step op).overwritten = [] ↔ tally.overwritten = [] ∧
      ∀ rule, op = .dequeue rule → tally.gpu.current = none ∨ tally.gpu.queue = [] := by
  rw [step, List.append_eq_nil_iff]
  refine and_congr_right fun _ => ?_
  cases op with
  | dequeue rule =>
    by_cases hqueue : tally.gpu.queue = [] <;> simp [overwrittenBy, hqueue]
  | submit | completeCurrent | failCurrent | expireDeadlines => simp [overwrittenBy]

/-- No request is overwritten in a run exactly when no other is dequeued while one is current. -/
theorem foldl_overwritten_eq_nil_iff (tally : Tally) (ops : List GpuOp) :
    (ops.foldl step tally).overwritten = [] ↔ tally.overwritten = [] ∧
      ∀ before rule after, ops = before ++ .dequeue rule :: after →
        (before.foldl step tally).gpu.current = none ∨
          (before.foldl step tally).gpu.queue = [] := by
  induction ops generalizing tally with
  | nil => simp
  | cons op ops ih =>
    rw [List.foldl_cons, ih, step_overwritten_eq_nil_iff, and_assoc]
    refine and_congr_right fun _ => ?_
    constructor
    · rintro ⟨hfirst, hrest⟩ before rule after hops
      rcases List.cons_eq_append_iff.mp hops with ⟨rfl, hcons⟩ | ⟨before', rfl, htail⟩
      · exact hfirst rule (List.cons.inj hcons).1.symm
      · exact hrest before' rule after htail
    · intro h
      refine ⟨fun rule hop => h [] rule ops (congrArg (· :: ops) hop), ?_⟩
      exact fun before rule after hops => h (op :: before) rule after (congrArg _ hops)

end Tally

open Tally

/-- **When every request is accounted for**: in every run the requests that are held are distinct
submitted ones, and the counters and what is held make up the number of submitted requests exactly
when no request is current at a call of `dequeue` that finds another in the queue. -/
theorem requests_accounted_iff (ops : List GpuOp) :
    ((run ops).gpu.held.map (·.id)).Nodup ∧
      (∀ request ∈ (run ops).gpu.held, request ∈ (run ops).submitted) ∧
      ((run ops).submitted.length = (run ops).gpu.totalCompleted + (run ops).gpu.totalFailed +
          (run ops).gpu.queueLength + (if (run ops).gpu.current.isSome then 1 else 0) ↔
        ∀ before rule after, ops = before ++ .dequeue rule :: after →
          (run before).gpu.current = none ∨ (run before).gpu.queue = []) := by
  have h := balanced_run ops
  have hoverwritten := (foldl_overwritten_eq_nil_iff start ops).trans (and_iff_right rfl)
  refine ⟨?_, fun request hrequest => ?_, ?_⟩
  · have hnodup := (h.perm.map (·.id)).nodup_iff.mp h.nodup
    rw [List.map_append] at hnodup
    exact hnodup.of_append_right
  · exact h.perm.mem_iff.mpr (List.mem_append_right _ hrequest)
  · have hlength := h.perm.length_eq
    have hcurrent : (run ops).gpu.held.length =
        (if (run ops).gpu.current.isSome then 1 else 0) + (run ops).gpu.queueLength := by
      rw [held, List.length_append, queueLength]
      cases (run ops).gpu.current <;> rfl
    rw [List.length_append, List.length_append, h.length_counted, hcurrent] at hlength
    refine .trans ?_ hoverwritten
    rw [← List.length_eq_zero_iff]
    change _ ↔ (run ops).overwritten.length = 0
    omega

/-- Two requests are submitted and dequeued: the first one is neither held nor counted. -/
theorem dequeue_overwrites :
    let tally := run [.submit 1 "llama" .normal none 0, .submit 1 "llama" .normal none 1,
      .dequeue (roundFrom 0), .dequeue (roundFrom 0)]
    tally.submitted.length = 2 ∧ tally.gpu.totalCompleted + tally.gpu.totalFailed = 0 ∧
      tally.gpu.queueLength = 0 ∧ tally.gpu.current.map (·.id) = some 2 := by
  decide +kernel

end GpuScheduler

end OxideOS
