import OxideOS.Gpu.Scheduler
import Mathlib.Data.Prod.Lex
import Mathlib.Order.WithBot

/-!
# The order in which inference requests are served

The comment on `InferenceRequest::cmp` states an order: priority, then deadline, then submit time.
The code looks at the submit time of two requests only if neither has a deadline.  Requests of one
priority with the same deadline are therefore equal for the heap, and which of them is served first
is up to its arrangement.

## Main definitions

* `InferenceRequest.key`: the order the comment states
* `InferenceRequest.rank`: the order of the code

## Main results

* `InferenceRequest.compare_eq_gt_iff`: the code compares by rank
* `GpuScheduler.dequeue_in_order_iff`: every heap serves in the stated order exactly when the
  foremost requests with a deadline have one submit time
-/

namespace OxideOS

variable {x y : InferenceRequest}

namespace InferenceRequest

/-- The deadline, later than all others if there is none. -/
def deadline (request : InferenceRequest) : WithTop Nat :=
  match request.deadlineTick with
  | some deadline => WithTop.some deadline.toNat
  | none => ⊤

/-- Priority, then deadline, then submit time. -/
def key (request : InferenceRequest) : Nat ×ₗ WithTop Nat ×ₗ Nat :=
  toLex (request.priority.number, toLex (request.deadline, request.submittedTick.toNat))

/-- What the code goes by: the submit time counts only if there is no deadline. -/
def rank (request : InferenceRequest) : Nat ×ₗ WithTop Nat ×ₗ Nat :=
  toLex (request.priority.number, toLex (request.deadline,
    match request.deadlineTick with
    | some _ => 0
    | none => request.submittedTick.toNat))

/-- The requests have the same priority and the same deadline. -/
def Tied (x y : InferenceRequest) : Prop :=
  x.priority = y.priority ∧ x.deadlineTick = y.deadlineTick ∧ x.deadlineTick ≠ none

theorem number_inj {p q : InferencePriority} : p.number = q.number ↔ p = q := by
  cases p <;> cases q <;> decide

theorem compare_eq_gt_iff (x y : InferenceRequest) : compare x y = .gt ↔ x.rank < y.rank := by
  change x.cmp y = .gt ↔ _
  simp only [cmp, rank, deadline, Ordering.swap_eq_gt, Ordering.then_eq_lt, Prod.Lex.lt_iff]
  cases x.deadlineTick <;> cases y.deadlineTick <;>
    simp [Std.compare_eq_lt, UInt64.lt_iff_toNat_lt]

theorem compare_ne_gt_iff (x y : InferenceRequest) : compare y x ≠ .gt ↔ x.rank ≤ y.rank :=
  (compare_eq_gt_iff y x).not.trans not_lt

theorem Tied.symm (h : Tied x y) : Tied y x :=
  ⟨h.1.symm, h.2.1.symm, h.2.1 ▸ h.2.2⟩

theorem Tied.rank_eq (h : Tied x y) : x.rank = y.rank := by
  obtain ⟨hpriority, hdeadline, hsome⟩ := h
  rw [rank, rank, deadline, deadline, hpriority, ← hdeadline]
  cases hx : x.deadlineTick with
  | none => exact absurd hx hsome
  | some _ => rfl

/-- **The stated order is finer than that of the code** by the submit times of tied requests. -/
theorem key_lt_iff (x y : InferenceRequest) :
    x.key < y.key ↔ x.rank < y.rank ∨ Tied x y ∧ x.submittedTick < y.submittedTick := by
  simp only [key, rank, deadline, Tied, Prod.Lex.lt_iff, UInt64.lt_iff_toNat_lt]
  cases x.deadlineTick with
  | none => cases y.deadlineTick <;> simp
  | some a =>
    cases y.deadlineTick with
    | none => simp
    | some b => simp [number_inj, UInt64.toNat_inj, and_or_left, or_assoc, and_assoc]

end InferenceRequest

namespace GpuScheduler

open InferenceRequest

/-- The heaps of requests that go through ties in a circle, from the element with index `n`. -/
def roundFrom (n : Nat) : HeapRule InferenceRequest := .ofRank rank compare_ne_gt_iff n

theorem dequeue_fst (rule : HeapRule InferenceRequest) (gpu : GpuScheduler) :
    (gpu.dequeue rule).1 = rule.peek gpu.queue := by
  rw [dequeue, HeapRule.pop]
  cases rule.peek gpu.queue <;> rfl

/-- A request that none is before is served next by some heap. -/
theorem exists_dequeue {gpu : GpuScheduler} {request : InferenceRequest}
    (hmem : request ∈ gpu.queue) (hfirst : ∀ r ∈ gpu.queue, compare r request ≠ .gt) :
    ∃ rule, (gpu.dequeue rule).1 = some request :=
  ⟨roundFrom (gpu.queue.idxOf request), by
    rw [dequeue_fst]
    exact HeapRule.ofRank_peek hmem fun r hr => (compare_ne_gt_iff request r).mp (hfirst r hr)⟩

/-- A tied request that was submitted earlier may be overtaken. -/
theorem not_lt_of_in_order {gpu : GpuScheduler}
    (h : ∀ rule request, (gpu.dequeue rule).1 = some request →
      ∀ r ∈ gpu.queue, ¬r.key < request.key)
    (hx : x ∈ gpu.queue) (hfirst : ∀ r ∈ gpu.queue, compare r x ≠ .gt) (hy : y ∈ gpu.queue)
    (htied : Tied y x) : ¬y.submittedTick < x.submittedTick := by
  obtain ⟨rule, hrule⟩ := exists_dequeue hx hfirst
  exact fun hlt => h rule x hrule y hy ((key_lt_iff y x).mpr (.inr ⟨htied, hlt⟩))

/-- **When requests are served in the stated order**: whatever heap it is that has one of the
greatest requests on top, no request is returned while an earlier one waits, exactly when of the
foremost requests those with a deadline were submitted at the same tick. -/
theorem dequeue_in_order_iff (gpu : GpuScheduler) :
    (∀ rule request, (gpu.dequeue rule).1 = some request →
      ∀ r ∈ gpu.queue, ¬r.key < request.key) ↔
      ∀ x ∈ gpu.queue, ∀ y ∈ gpu.queue, (∀ r ∈ gpu.queue, compare r x ≠ .gt) →
        x.priority = y.priority → x.deadlineTick = y.deadlineTick → x.deadlineTick ≠ none →
        x.submittedTick = y.submittedTick := by
  constructor
  · intro h x hx y hy hfirst hpriority hdeadline hsome
    have htied : Tied x y := ⟨hpriority, hdeadline, hsome⟩
    have hfirst' : ∀ r ∈ gpu.queue, compare r y ≠ .gt := fun r hr => by
      rw [compare_ne_gt_iff, ← htied.rank_eq]
      exact (compare_ne_gt_iff x r).mp (hfirst r hr)
    exact UInt64.le_antisymm (UInt64.not_lt.mp (not_lt_of_in_order h hx hfirst hy htied.symm))
      (UInt64.not_lt.mp (not_lt_of_in_order h hy hfirst' hx htied))
  · intro h rule request hrequest r hr hlt
    rw [dequeue_fst] at hrequest
    have hfirst := rule.not_gt_of_peek hrequest
    rcases (key_lt_iff r request).mp hlt with hrank | ⟨htied, htick⟩
    · exact hfirst r hr ((compare_eq_gt_iff r request).mpr hrank)
    · have heq := h request (rule.mem_of_peek hrequest) r hr hfirst htied.1.symm htied.2.1.symm
        (htied.2.1 ▸ htied.2.2)
      exact absurd htick (by rw [heq]; exact UInt64.lt_irrefl _)

/-- Four requests with the same deadline, submitted one tick after the other. -/
def fourTied : GpuScheduler :=
  [0, 1, 2, 3].foldl (fun gpu tick => (gpu.submit 1 "llama" .normal (some 100) tick).2) .new

/-- A binary heap in an array serves the first of the four, and then the third: the last element
takes the place of the first and sinks, and of two equal children the right one rises. -/
theorem dequeue_overtakes :
    (fourTied.dequeue (roundFrom 0)).1.map (·.id) = some 1 ∧
      ∃ request, ((fourTied.dequeue (roundFrom 0)).2.dequeue (roundFrom 1)).1 = some request ∧
        request.id = 3 ∧
        ∃ r ∈ (fourTied.dequeue (roundFrom 0)).2.queue, r.id = 2 ∧ r.key < request.key :=
  ⟨by decide +kernel, ⟨3, 1, "llama", .normal, some 100, 2⟩, by decide +kernel, rfl,
    ⟨2, 1, "llama", .normal, some 100, 1⟩, by decide +kernel, rfl, by decide +kernel⟩

end GpuScheduler

end OxideOS
