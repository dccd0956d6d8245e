import OxideOS.Timer.Deadline
import OxideOS.Lib.TransitionSystem
import Mathlib.Data.Set.Card

/-!
# When deadlines fire

Every `schedule` hands out a callback id of its own.  A callback is popped by the first
`check_expired` that comes at or after its deadline, unless it is cancelled before; it is popped
once, and callbacks with earlier deadlines are popped first.  What is left in the queue are the
callbacks that were neither popped nor cancelled.  The ticks of the checks may be any ticks.

## Main definitions

* `DeadlineQueue.checkExpiredLoop`, `DeadlineQueue.fired`: the loop of `check_expired` with its
  counter
* `DeadlineEvent`, `DeadlineQueue.firing`: any calls, with a record of what they did
* `DeadlineEvent.Pending`: a callback that no call has ended since it was scheduled
* `DeadlineEvent.PopsRight`: what a check pops, and what it returns

## Main results

* `DeadlineQueue.fired_eq`: a check returns the number of entries that it popped
* `DeadlineQueue.deadlines_fire_once`
-/

namespace OxideOS

/-- The calls on the deadline queue. -/
inductive DeadlineOp
  | schedule (taskId : TaskId) (deadlineTick : UInt64)
  | cancel (callbackId : Nat)
  | checkExpired (currentTick : UInt64)

/-- What a call did. -/
inductive DeadlineEvent
  | scheduled (entry : DeadlineEntry)
  | cancelled (callbackId : Nat)
  /-- A check at this tick popped these entries, in this order, and returned this number. -/
  | checked (tick : UInt64) (popped : List DeadlineEntry) (fired : Nat)

namespace DeadlineEvent

/-- The id that the call handed out. -/
def handedOut : DeadlineEvent → Option Nat
  | scheduled entry => some entry.callbackId
  | _ => none

/-- The event ends the callback: it is cancelled, or a check comes at or after its deadline. -/
def Ends (e : DeadlineEntry) : DeadlineEvent → Prop
  | scheduled _ => False
  | cancelled callbackId => callbackId = e.callbackId
  | checked tick _ _ => e.deadlineTick ≤ tick

/-- The callback was scheduled, and nothing has ended it since. -/
def Pending (log : List DeadlineEvent) (e : DeadlineEntry) : Prop :=
  ∃ pre post, log = pre ++ scheduled e :: post ∧ ∀ ev ∈ post, ¬ev.Ends e

/-- A check popped the callback. -/
def Fired (log : List DeadlineEvent) (e : DeadlineEntry) : Prop :=
  ∃ tick popped fired, checked tick popped fired ∈ log ∧ e ∈ popped

/-- The callback was cancelled after it was scheduled. -/
def Cancelled (log : List DeadlineEvent) (e : DeadlineEntry) : Prop :=
  ∃ pre post, log = pre ++ scheduled e :: post ∧ cancelled e.callbackId ∈ post

/-- What is right for a check after such events: it pops the callbacks that are pending and due,
each once, none that fired or was cancelled before, in the order of their deadlines, and returns how
many. -/
structure PopsRight (log : List DeadlineEvent) (tick : UInt64) (popped : List DeadlineEntry)
    (fired : Nat) : Prop where
  popped_iff : ∀ e, e ∈ popped ↔ Pending log e ∧ e.deadlineTick ≤ tick
  unfired : ∀ e ∈ popped, ¬Fired log e
  uncancelled : ∀ e ∈ popped, ¬Cancelled log e
  nodup : popped.Nodup
  ordered : popped.Pairwise fun e e' => e.deadlineTick ≤ e'.deadlineTick
  returned : fired = popped.length

/-- Every check pops what is right after the events before it. -/
def FiresOnTime (log : List DeadlineEvent) : Prop :=
  ∀ pre tick popped fired post, log = pre ++ checked tick popped fired :: post →
    PopsRight pre tick popped fired

variable {log : List DeadlineEvent} {ev : DeadlineEvent} {e : DeadlineEntry}

/-! ## One more event -/

/-- An event in a record with one more event at its end. -/
theorem snoc_eq_iff {pre post : List DeadlineEvent} {ev' : DeadlineEvent} :
    log ++ [ev] = pre ++ ev' :: post ↔ (pre = log ∧ ev' = ev ∧ post = []) ∨
      ∃ post', log = pre ++ ev' :: post' ∧ post = post' ++ [ev] := by
  constructor
  · intro h
    rcases post.eq_nil_or_concat' with rfl | ⟨post', ev'', rfl⟩
    · obtain ⟨rfl, heq⟩ := List.append_inj' h rfl
      exact .inl ⟨rfl, (List.singleton_inj.mp heq).symm, rfl⟩
    · rw [← List.cons_append, ← List.append_assoc] at h
      obtain ⟨hlog, heq⟩ := List.append_inj' h rfl
      exact .inr ⟨post', hlog, by rw [heq]⟩
  · rintro (⟨rfl, rfl, rfl⟩ | ⟨post', rfl, rfl⟩)
    · rfl
    · simp

theorem pending_snoc :
    Pending (log ++ [ev]) e ↔ ev = scheduled e ∨ (Pending log e ∧ ¬ev.Ends e) := by
  constructor
  · rintro ⟨pre, post, hlog, hpost⟩
    rcases snoc_eq_iff.mp hlog with ⟨-, hev, -⟩ | ⟨post', rfl, rfl⟩
    · exact .inl hev.symm
    · rw [List.forall_mem_append, List.forall_mem_singleton] at hpost
      exact .inr ⟨⟨pre, post', rfl, hpost.1⟩, hpost.2⟩
  · rintro (rfl | ⟨⟨pre, post, rfl, hpost⟩, hev⟩)
    · exact ⟨log, [], rfl, List.forall_mem_nil _⟩
    · refine ⟨pre, post ++ [ev], by simp, ?_⟩
      rw [List.forall_mem_append, List.forall_mem_singleton]
      exact ⟨hpost, hev⟩

theorem fired_snoc : Fired (log ++ [ev]) e ↔
    Fired log e ∨ ∃ tick popped fired, ev = checked tick popped fired ∧ e ∈ popped := by
  simp only [Fired, List.mem_append, List.mem_singleton, or_and_right, exists_or, eq_comm]

theorem cancelled_snoc : Cancelled (log ++ [ev]) e ↔
    Cancelled log e ∨ (scheduled e ∈ log ∧ ev = cancelled e.callbackId) := by
  constructor
  · rintro ⟨pre, post, hlog, hmem⟩
    rcases snoc_eq_iff.mp hlog with ⟨-, -, rfl⟩ | ⟨post', rfl, rfl⟩
    · cases hmem
    · rcases List.mem_append.mp hmem with hmem | hmem
      · exact .inl ⟨pre, post', rfl, hmem⟩
      · exact .inr ⟨by simp, (List.mem_singleton.mp hmem).symm⟩
  · rintro (⟨pre, post, rfl, hmem⟩ | ⟨hmem, rfl⟩)
    · exact ⟨pre, post ++ [ev], by simp, List.mem_append_left _ hmem⟩
    · obtain ⟨pre, post, rfl⟩ := List.append_of_mem hmem
      exact ⟨pre, post ++ [cancelled e.callbackId], by simp, by simp⟩

theorem firesOnTime_snoc : FiresOnTime (log ++ [ev]) ↔ FiresOnTime log ∧
    ∀ tick popped fired, ev = checked tick popped fired → PopsRight log tick popped fired := by
  constructor
  · intro h
    refine ⟨fun pre tick popped fired post hlog => ?_, fun tick popped fired hev => ?_⟩
    · exact h pre tick popped fired (post ++ [ev]) (by simp [hlog])
    · exact h log tick popped fired [] (by rw [hev])
  · rintro ⟨hlog, hev⟩ pre tick popped fired post heq
    rcases snoc_eq_iff.mp heq with ⟨rfl, hchecked, -⟩ | ⟨post', hlog', -⟩
    · exact hev tick popped fired hchecked.symm
    · exact hlog pre tick popped fired post' hlog'

theorem filterMap_handedOut_snoc (h : ev.handedOut = none) :
    (log ++ [ev]).filterMap handedOut = log.filterMap handedOut := by
  rw [List.filterMap_append, List.filterMap_cons_none h, List.filterMap_nil, List.append_nil]

theorem Cancelled.scheduled (h : Cancelled log e) : DeadlineEvent.scheduled e ∈ log := by
  obtain ⟨pre, post, rfl, -⟩ := h
  simp

end DeadlineEvent

open DeadlineEvent

namespace DeadlineQueue

def pendingCount (q : DeadlineQueue) : Nat := q.heap.length

/-- The loop of `check_expired` at most so many times, with the entries counted so far; what is
counted in the end, and what is left. -/
def checkExpiredLoop (rule : HeapRule DeadlineEntry) (currentTick : UInt64) :
    Nat → Nat → List DeadlineEntry → Nat × List DeadlineEntry
  | 0, fired, heap => (fired, heap)
  | n + 1, fired, heap =>
    match rule.peek heap with
    | none => (fired, heap)
    | some entry =>
      if entry.deadlineTick > currentTick then (fired, heap)
      else checkExpiredLoop rule currentTick n (fired + 1) (heap.erase entry)

/-- What `check_expired` returns. -/
def fired (rule : HeapRule DeadlineEntry) (q : DeadlineQueue) (currentTick : UInt64) : Nat :=
  (checkExpiredLoop rule currentTick q.heap.length 0 q.heap).1

/-- The queue after a call. -/
def step (rule : HeapRule DeadlineEntry) (q : DeadlineQueue) : DeadlineOp → Option DeadlineQueue
  | .schedule taskId deadlineTick => some (q.schedule taskId deadlineTick).2
  | .cancel callbackId => some (q.cancel callbackId)
  | .checkExpired currentTick => some (q.checkExpired rule currentTick).2

/-- What a call does. -/
def observe (rule : HeapRule DeadlineEntry) (q : DeadlineQueue) : DeadlineOp → List DeadlineEvent
  | .schedule taskId deadlineTick =>
    [.scheduled ⟨deadlineTick, taskId, (q.schedule taskId deadlineTick).1⟩]
  | .cancel callbackId => [.cancelled callbackId]
  | .checkExpired currentTick =>
    [.checked currentTick (q.checkExpired rule currentTick).1 (q.fired rule currentTick)]

/-- Any calls on a new queue, with a record of what they did. -/
def firing (rule : HeapRule DeadlineEntry) :
    TransitionSystem (DeadlineQueue × List DeadlineEvent) DeadlineOp :=
  .recorded new (step rule) (observe rule)

variable {rule : HeapRule DeadlineEntry} {q : DeadlineQueue} {log : List DeadlineEvent}
  {tick : UInt64} {e : DeadlineEntry}

/-! ## What a check returns -/

theorem checkExpiredLoop_eq (rule : HeapRule DeadlineEntry) (tick : UInt64) (n fired : Nat)
    (heap : List DeadlineEntry) :
    checkExpiredLoop rule tick n fired heap =
      (fired + (rule.popAtMost (fun e => e.deadlineTick ≤ tick) n heap).1.length,
        (rule.popAtMost (fun e => e.deadlineTick ≤ tick) n heap).2) := by
  induction n generalizing fired heap with
  | zero => rfl
  | succ n ih =>
    rw [checkExpiredLoop, HeapRule.popAtMost]
    cases rule.peek heap with
    | none => rfl
    | some entry =>
      dsimp only
      by_cases hdue : entry.deadlineTick ≤ tick
      · rw [if_neg (UInt64.not_lt.mpr hdue), if_pos (decide_eq_true hdue), ih]
        refine Prod.ext ?_ rfl
        show fired + 1 + _ = fired + (_ + 1)
        omega
      · rw [if_pos (UInt64.not_le.mp hdue), if_neg fun h => hdue (of_decide_eq_true h)]
        rfl

/-- **A check returns the number of entries that it popped.** -/
theorem fired_eq (rule : HeapRule DeadlineEntry) (q : DeadlineQueue) (tick : UInt64) :
    q.fired rule tick = (q.checkExpired rule tick).1.length := by
  rw [fired, checkExpiredLoop_eq, Nat.zero_add]
  rfl

theorem checkExpired_pairwise (rule : HeapRule DeadlineEntry) (q : DeadlineQueue) (tick : UInt64) :
    (q.checkExpired rule tick).1.Pairwise fun e e' => e.deadlineTick ≤ e'.deadlineTick := by
  refine (rule.popWhile_pairwise _ q.heap).imp fun {e e'} hle => ?_
  exact (not_gt_iff e e').mp hle

/-! ## Every run -/

/-- The invariant: the queue has the callbacks that are pending, which are those neither fired nor
cancelled, and ids not handed out yet are free. -/
structure Tracked (x : DeadlineQueue × List DeadlineEvent) : Prop where
  nodup : x.1.heap.Nodup
  mem_heap : ∀ e, e ∈ x.1.heap ↔ Pending x.2 e
  pending_iff : ∀ e, Pending x.2 e ↔ .scheduled e ∈ x.2 ∧ ¬Fired x.2 e ∧ ¬Cancelled x.2 e
  fired : ∀ e, Fired x.2 e → .scheduled e ∈ x.2
  fresh : ∀ id ∈ x.2.filterMap handedOut, id < x.1.nextCallback
  distinct : (x.2.filterMap handedOut).Nodup
  onTime : FiresOnTime x.2

theorem tracked_new : Tracked (new, []) where
  nodup := .nil
  mem_heap e := by simp [new, Pending]
  pending_iff e := by simp [Pending]
  fired e := by simp [Fired]
  fresh := by simp
  distinct := .nil
  onTime pre tick popped fired post h := by simp at h

theorem Tracked.lt_of_scheduled (h : Tracked (q, log)) (he : .scheduled e ∈ log) :
    e.callbackId < q.nextCallback :=
  h.fresh e.callbackId (List.mem_filterMap.mpr ⟨_, he, rfl⟩)

/-- Only a check fires. -/
theorem Tracked.scheduled_of_fired_snoc {event : DeadlineEvent} (h : Tracked (q, log))
    (hevent : ∀ tick popped n, event ≠ .checked tick popped n) (hfired : Fired (log ++ [event]) e) :
    .scheduled e ∈ log ++ [event] := by
  rcases fired_snoc.mp hfired with hfired | ⟨_, _, _, heq, -⟩
  · exact List.mem_append_left _ (h.fired e hfired)
  · exact absurd heq (hevent _ _ _)

theorem Tracked.schedule (h : Tracked (q, log)) (taskId : TaskId) (deadlineTick : UInt64) :
    Tracked ((q.schedule taskId deadlineTick).2,
      log ++ [.scheduled ⟨deadlineTick, taskId, (q.schedule taskId deadlineTick).1⟩]) := by
  have hnew : .scheduled ⟨deadlineTick, taskId, q.nextCallback⟩ ∉ log := fun hmem =>
    Nat.lt_irrefl _ (h.lt_of_scheduled hmem)
  have hpending : ∀ e, Pending (log ++ [.scheduled ⟨deadlineTick, taskId, q.nextCallback⟩]) e ↔
      e = ⟨deadlineTick, taskId, q.nextCallback⟩ ∨ Pending log e := by
    intro e
    rw [pending_snoc]
    simp [Ends, eq_comm]
  refine ⟨?_, fun e => ?_, fun e => ?_, fun e => ?_, ?_, ?_, ?_⟩
  · refine List.nodup_cons.mpr ⟨fun hmem => hnew ?_, h.nodup⟩
    exact ((h.pending_iff _).mp ((h.mem_heap _).mp hmem)).1
  · show e ∈ _ :: q.heap ↔ _
    rw [List.mem_cons, h.mem_heap]
    exact (hpending e).symm
  · refine (hpending e).trans ?_
    rw [h.pending_iff, fired_snoc, cancelled_snoc]
    simp only [List.mem_append, List.mem_singleton, DeadlineEvent.scheduled.injEq, reduceCtorEq,
      false_and, exists_false, and_false, or_false]
    constructor
    · rintro (rfl | ⟨he, hrest⟩)
      · exact ⟨.inr rfl, fun hfired => hnew (h.fired _ hfired),
          fun hcancelled => hnew hcancelled.scheduled⟩
      · exact ⟨.inl he, hrest⟩
    · rintro ⟨he | he, hrest⟩
      · exact .inr ⟨he, hrest⟩
      · exact .inl he
  · exact h.scheduled_of_fired_snoc (by rintro _ _ _ ⟨⟩)
  · show ∀ id ∈ _, id < q.nextCallback + 1
    rw [List.filterMap_append, List.forall_mem_append]
    refine ⟨fun id hid => Nat.lt_succ_of_lt (h.fresh id hid), ?_⟩
    simp [handedOut, DeadlineQueue.schedule]
  · show (List.filterMap _ (_ ++ _)).Nodup
    rw [List.filterMap_append, List.nodup_append]
    refine ⟨h.distinct, by simp [handedOut], fun id hid id' hid' => ?_⟩
    have hnext : id' = q.nextCallback := by simpa [handedOut, DeadlineQueue.schedule] using hid'
    rw [hnext]
    exact Nat.ne_of_lt (h.fresh id hid)
  · refine firesOnTime_snoc.mpr ⟨h.onTime, ?_⟩
    rintro tick popped n ⟨⟩

theorem Tracked.cancel (h : Tracked (q, log)) (callbackId : Nat) :
    Tracked (q.cancel callbackId, log ++ [.cancelled callbackId]) := by
  have hpending : ∀ e, Pending (log ++ [.cancelled callbackId]) e ↔
      Pending log e ∧ e.callbackId ≠ callbackId := by
    intro e
    rw [pending_snoc]
    simp [Ends, eq_comm]
  refine ⟨h.nodup.filter _, fun e => ?_, fun e => ?_, fun e => ?_, ?_, ?_, ?_⟩
  · show e ∈ q.heap.filter _ ↔ _
    rw [List.mem_filter, decide_eq_true_iff, h.mem_heap]
    exact (hpending e).symm
  · refine (hpending e).trans ?_
    rw [h.pending_iff, fired_snoc, cancelled_snoc]
    simp only [List.mem_append, List.mem_singleton, reduceCtorEq, false_and, exists_false, or_false,
      DeadlineEvent.cancelled.injEq]
    constructor
    · rintro ⟨⟨he, hfired, hcancelled⟩, hne⟩
      refine ⟨he, hfired, ?_⟩
      rintro (hcancelled' | ⟨-, rfl⟩)
      · exact hcancelled hcancelled'
      · exact hne rfl
    · rintro ⟨he, hfired, hnot⟩
      exact ⟨⟨he, hfired, fun hcancelled => hnot (.inl hcancelled)⟩,
        fun heq => hnot (.inr ⟨he, heq.symm⟩)⟩
  · exact h.scheduled_of_fired_snoc (by rintro _ _ _ ⟨⟩)
  · rw [filterMap_handedOut_snoc rfl]
    exact h.fresh
  · rw [filterMap_handedOut_snoc rfl]
    exact h.distinct
  · refine firesOnTime_snoc.mpr ⟨h.onTime, ?_⟩
    rintro tick popped n ⟨⟩

/-- What a check pops is right. -/
theorem Tracked.popsRight (h : Tracked (q, log)) (rule : HeapRule DeadlineEntry) (tick : UInt64) :
    PopsRight log tick (q.checkExpired rule tick).1 (q.fired rule tick) := by
  have hpopped : ∀ e, e ∈ (q.checkExpired rule tick).1 ↔ Pending log e ∧ e.deadlineTick ≤ tick := by
    intro e
    rw [mem_popped, h.mem_heap]
  refine ⟨hpopped, fun e he => ?_, fun e he => ?_, ?_, checkExpired_pairwise rule q tick,
    fired_eq rule q tick⟩
  · exact ((h.pending_iff e).mp ((hpopped e).mp he).1).2.1
  · exact ((h.pending_iff e).mp ((hpopped e).mp he).1).2.2
  · exact (checkExpired_perm rule q tick).1.nodup_iff.mpr (h.nodup.filter _)

theorem Tracked.checkExpired (h : Tracked (q, log)) (rule : HeapRule DeadlineEntry)
    (tick : UInt64) :
    Tracked ((q.checkExpired rule tick).2,
      log ++ [.checked tick (q.checkExpired rule tick).1 (q.fired rule tick)]) := by
  have hright := h.popsRight rule tick
  have hpending : ∀ e,
      Pending (log ++ [.checked tick (q.checkExpired rule tick).1 (q.fired rule tick)]) e ↔
        Pending log e ∧ ¬e.deadlineTick ≤ tick := by
    intro e
    rw [pending_snoc]
    simp [Ends]
  have hfired : ∀ e,
      Fired (log ++ [.checked tick (q.checkExpired rule tick).1 (q.fired rule tick)]) e ↔
        Fired log e ∨ (Pending log e ∧ e.deadlineTick ≤ tick) := by
    intro e
    rw [fired_snoc, ← hright.popped_iff]
    simp [eq_comm]
  refine ⟨?_, fun e => ?_, fun e => ?_, fun e => ?_, ?_, ?_, ?_⟩
  · exact (checkExpired_perm rule q tick).2.nodup_iff.mpr (h.nodup.filter _)
  · rw [mem_left, h.mem_heap]
    exact (hpending e).symm
  · refine (hpending e).trans ?_
    rw [hfired, cancelled_snoc]
    simp only [List.mem_append, List.mem_singleton, reduceCtorEq, or_false, and_false]
    have hiff := h.pending_iff e
    tauto
  · rw [hfired]
    rintro (hfired | ⟨hpending, -⟩)
    · exact List.mem_append_left _ (h.fired e hfired)
    · exact List.mem_append_left _ ((h.pending_iff e).mp hpending).1
  · rw [filterMap_handedOut_snoc rfl]
    exact h.fresh
  · rw [filterMap_handedOut_snoc rfl]
    exact h.distinct
  · refine firesOnTime_snoc.mpr ⟨h.onTime, fun tick' popped n heq => ?_⟩
    obtain ⟨rfl, rfl, rfl⟩ := DeadlineEvent.checked.inj heq
    exact hright

theorem tracked_of_reachable {x : DeadlineQueue × List DeadlineEvent}
    (h : (firing rule).Reachable x) : Tracked x := by
  refine TransitionSystem.Invariant.of_reachable (P := Tracked) ⟨?_, ?_⟩ h
  · rintro x rfl
    exact tracked_new
  · rintro ⟨q, log⟩ op ⟨q', log'⟩ hx hstep
    obtain ⟨hq, hlog⟩ := TransitionSystem.step_recorded hstep
    dsimp only at hq hlog
    subst hlog
    cases op with
    | schedule taskId deadlineTick =>
      obtain rfl := Option.some.inj hq
      exact hx.schedule taskId deadlineTick
    | cancel callbackId =>
      obtain rfl := Option.some.inj hq
      exact hx.cancel callbackId
    | checkExpired tick =>
      obtain rfl := Option.some.inj hq
      exact hx.checkExpired rule tick

/-- **Deadlines fire once and on time**, whatever is known of the heap but that its top is a
greatest element: every check pops what is right, no id is handed out twice, a cancel takes out only
the callback with that id, and what is left are the callbacks that neither fired nor were cancelled.
-/
theorem deadlines_fire_once (h : (firing rule).Reachable (q, log)) :
    FiresOnTime log ∧ (log.filterMap handedOut).Nodup ∧
      (∀ id e, e ∈ (q.cancel id).heap ↔ e ∈ q.heap ∧ e.callbackId ≠ id) ∧
      (∀ e, e ∈ q.heap ↔ Pending log e) ∧
      q.pendingCount = {e | .scheduled e ∈ log ∧ ¬Fired log e ∧ ¬Cancelled log e}.ncard := by
  have hx := tracked_of_reachable h
  refine ⟨hx.onTime, hx.distinct, fun id e => ?_, hx.mem_heap, ?_⟩
  · simp [DeadlineQueue.cancel]
  · have hset : {e | .scheduled e ∈ log ∧ ¬Fired log e ∧ ¬Cancelled log e} =
        (q.heap.toFinset : Set DeadlineEntry) := by
      ext e
      rw [Set.mem_ofPred_eq, ← hx.pending_iff, ← hx.mem_heap, List.coe_toFinset]
      rfl
    rw [hset, Set.ncard_coe_finset, List.toFinset_card_of_nodup hx.nodup]
    rfl

/-- Of two callbacks the later one is popped by the first check, and the other is cancelled before
the second. -/
theorem deadlines_fire_once_run : ∃ q log, (firing firstEarliest).Reachable (q, log) ∧
    log = [.scheduled ⟨5, 1, 1⟩, .scheduled ⟨3, 2, 2⟩, .checked 4 [⟨3, 2, 2⟩] 1, .cancelled 1,
      .checked 9 [] 0] ∧ FiresOnTime log ∧ q.pendingCount = 0 := by
  have hrun : ([.schedule 1 5, .schedule 2 3, .checkExpired 4, .cancel 1,
      .checkExpired 9] : List DeadlineOp).foldlM
        (TransitionSystem.recordStep (step firstEarliest) (observe firstEarliest)) (new, []) =
      some (⟨[], 3⟩, [.scheduled ⟨5, 1, 1⟩, .scheduled ⟨3, 2, 2⟩, .checked 4 [⟨3, 2, 2⟩] 1,
        .cancelled 1, .checked 9 [] 0]) := rfl
  have h : (firing firstEarliest).Reachable _ :=
    TransitionSystem.reachable_ofPartial_iff.mpr ⟨_, hrun⟩
  exact ⟨_, _, h, rfl, (deadlines_fire_once h).1, rfl⟩

end DeadlineQueue

end OxideOS
