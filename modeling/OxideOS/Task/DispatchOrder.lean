import OxideOS.Lib.BoundedQueue
import OxideOS.Task.Machine
import OxideOS.Task.RoundRobin

/-!
# The order in which tasks are dispatched

A task becomes ready when it is spawned, when it is woken, and when it gives up the CPU while it
runs; it then waits at the end of the queue of its priority.  A reschedule dispatches the head of
the first queue that has a task, and passes over the task that has just given up the CPU if there is
another one.  That task is the last of its queue, so nobody in a queue is passed over for somebody
behind: the tasks of one priority are dispatched in the order in which they became ready.

Events are those of a family of queues: a task is put into the queue of its priority when it becomes
ready, and taken from it when it is dispatched.

## Main definitions

* `TaskSystem.observe`, `TaskSystem.dispatching`: any calls, with a record of who became ready and
  who was dispatched
* `Scheduler.Dispatches`: whom a reschedule dispatches

## Main results

* `Queues.pickNextFair_head`: a pick takes the head of a queue
* `TaskSystem.fifo_step`, `TaskSystem.dispatch_order`
-/

namespace OxideOS

open QueueEvent (putTo tookFrom)

/-! ## Picks -/

namespace Queues

variable {queues queues' : Queues} {select : Task → Bool} {task task' : Task} {p p' : Priority}
  {lastId : TaskId}

/-- Where a task is taken out: no queue before has a selected task, nor has its own queue before
it. -/
theorem takeFirst_split {order : List Priority}
    (h : takeFirst select order queues = some (task', queues')) :
    ∃ searched p rest before task behind, order = searched ++ p :: rest ∧
      (∀ p' ∈ searched, ∀ t ∈ queues p', select t = false) ∧
      queues p = before ++ task :: behind ∧ (∀ t ∈ before, select t = false) ∧ select task ∧
      task' = { task with state := .running } ∧
      queues' = Function.update queues p (before ++ behind) := by
  induction order with
  | nil => cases h
  | cons p order ih =>
    rw [takeFirst] at h
    split at h
    · next task hfind =>
      obtain ⟨rfl, rfl⟩ := Prod.mk.inj (Option.some.inj h)
      obtain ⟨hsel, before, behind, hqueue, hbefore⟩ := List.find?_eq_some_iff_append.mp hfind
      have hnot : ∀ t ∈ before, select t = false := by simpa using hbefore
      refine ⟨[], p, order, before, task, behind, rfl, List.forall_mem_nil _, hqueue, hnot, hsel,
        rfl, ?_⟩
      have hnot' : ∀ t ∈ before, ¬select t = true := fun t ht => by simp [hnot t ht]
      rw [hqueue, List.eraseP_append_right _ hnot', List.eraseP_cons_of_pos hsel]
    · next hfind =>
      obtain ⟨searched, p', rest, before, task, behind, rfl, hsearched, hrest⟩ := ih h
      refine ⟨p :: searched, p', rest, before, task, behind, rfl, ?_, hrest⟩
      rw [List.forall_mem_cons]
      refine ⟨fun t ht => ?_, hsearched⟩
      simpa using List.find?_eq_none.mp hfind t ht

/-- Higher priorities are searched first. -/
theorem mem_searched {searched rest : List Priority} (h : order = searched ++ p :: rest)
    (hlevel : p'.level < p.level) : p' ∈ searched := by
  have hsorted : order.Pairwise fun p p' => p.level < p'.level := by decide
  have hmem := mem_order p'
  rw [h, List.pairwise_append, List.pairwise_cons] at hsorted
  rw [h, List.mem_append, List.mem_cons] at hmem
  rcases hmem with hmem | rfl | hmem
  · exact hmem
  · exact absurd hlevel (Nat.lt_irrefl _)
  · exact absurd hlevel (Nat.not_lt.mpr (hsorted.2.1.1 p' hmem).le)

/-- A task with this id is the last of its queue. -/
def LastAtBack (queues : Queues) (lastId : TaskId) : Prop :=
  ∀ p before task behind, queues p = before ++ task :: behind → task.id = lastId → behind = []

/-- A task that is pushed, and whose id nobody else has, is at the back. -/
theorem lastAtBack_push (h : ∀ p, ∀ t ∈ queues p, t.id ≠ task.id) :
    (queues.push task).LastAtBack task.id := by
  intro p before t behind hqueue heq
  rw [push] at hqueue
  by_cases hp : p = task.priority
  · subst hp
    rw [Function.update_self] at hqueue
    rcases behind.eq_nil_or_concat' with rfl | ⟨behind', last, rfl⟩
    · rfl
    · rw [← List.cons_append, ← List.append_assoc] at hqueue
      obtain ⟨hqueue, -⟩ := List.append_inj' hqueue rfl
      have hmem : t ∈ queues task.priority := by rw [hqueue]; simp
      exact absurd heq (h _ t hmem)
  · rw [Function.update_of_ne hp] at hqueue
    exact absurd heq (h p t (by simp [hqueue]))

/-- **A pick takes the head of a queue**, if the last task is at the back.  The queues of higher
priority have nobody but the last task, which is taken only if there is nobody else. -/
theorem pickNextFair_head (hback : queues.LastAtBack lastId)
    (h : queues.pickNextFair lastId = some (task', queues')) :
    ∃ p task rest, queues p = task :: rest ∧ task' = { task with state := .running } ∧
      queues' = Function.update queues p rest ∧
      (∀ p', p'.level < p.level → ∀ t ∈ queues p', t.id = lastId) ∧
      (task.id = lastId → ∀ p', ∀ t ∈ queues p', t.id = lastId) := by
  have hother : ∀ t, isOther lastId t = false → t.id = lastId := by
    intro t ht
    by_contra hne
    rw [isOther_iff.mpr hne] at ht
    cases ht
  cases hpass : takeFirst (isOther lastId) order queues with
  | some picked =>
    obtain ⟨rfl, rfl⟩ := Prod.mk.inj (Option.some.inj ((pickNextFair_of_some hpass).symm.trans h))
    obtain ⟨searched, p, rest, before, task, behind, horder, hsearched, hqueue, hbefore, hsel,
      htask, hqueues⟩ := takeFirst_split hpass
    obtain rfl : before = [] := by
      cases before with
      | nil => rfl
      | cons t before =>
        have hnil := hback p [] t (before ++ task :: behind) hqueue
          (hother t (hbefore t List.mem_cons_self))
        simp at hnil
    refine ⟨p, task, behind, hqueue, htask, hqueues, fun p' hp' t ht => ?_, fun heq => ?_⟩
    · exact hother t (hsearched p' (mem_searched horder hp') t ht)
    · exact absurd heq (isOther_iff.mp hsel)
  | none =>
    have hall : ∀ p', ∀ t ∈ queues p', t.id = lastId := fun p' t ht =>
      hother t (takeFirst_eq_none hpass p' (mem_order p') t ht)
    rw [pickNextFair_of_none hpass] at h
    obtain ⟨searched, p, rest, before, task, behind, -, -, hqueue, hbefore, -, htask, rfl⟩ :=
      takeFirst_split h
    obtain rfl : before = [] := by
      cases before with
      | nil => rfl
      | cons t before => cases hbefore t List.mem_cons_self
    exact ⟨p, task, behind, hqueue, htask, rfl, fun p' _ => hall p', fun _ => hall⟩

theorem map_id_push (queues : Queues) (task : Task) (p : Priority) :
    (queues.push task p).map Task.id =
      (queues p).map Task.id ++ putTo p [.put task.priority task.id] := by
  by_cases hp : p = task.priority
  · subst hp
    simp [push, putTo]
  · simp [push, putTo, hp, Ne.symm hp]

end Queues

/-! ## Reschedules -/

namespace Scheduler

variable {s s' : Scheduler} {reaped : Option Task} {change : TaskId × TaskId}

/-- The ready tasks from which a reschedule picks: the current one is among them if it goes on. -/
def readyQueues (s : Scheduler) : Queues := s.putBack.2.queues

/-- Whom a reschedule dispatches: nobody only if nobody is ready; otherwise the head of a queue.
The queues of higher priority have nobody but the task that was just running, and that task is
dispatched only if there is nobody else. -/
structure Dispatches (s s' : Scheduler) : Prop where
  idle : s'.current = none ↔ ∀ p, s.readyQueues p = []
  head : ∀ t, s'.current = some t → ∃ p task rest,
    s.readyQueues p = task :: rest ∧ t = { task with state := .running } ∧
      s'.queues = Function.update s.readyQueues p rest ∧
      (∀ p', p'.level < p.level → ∀ x ∈ s.readyQueues p', x.id = s.currentId) ∧
      (task.id = s.currentId → ∀ p', ∀ x ∈ s.readyQueues p', x.id = s.currentId)

/-- The task that was just running is at the back of its queue. -/
theorem lastAtBack_readyQueues {ts : TaskSystem} (hts : ts.Custody) :
    ts.sched.readyQueues.LastAtBack ts.sched.currentId := by
  have hnone : ∀ p, ∀ t ∈ ts.sched.queues p, t.id ≠ ts.sched.currentId := by
    intro p t ht heq
    have hqueued : t ∈ ts.sched.queues.queued := Queues.mem_queued.mpr ⟨p, ht⟩
    have hwaiting := mem_waitingIds.mpr (.inl ⟨t, hqueued, rfl⟩)
    rcases Machine.current_of_currentId hts with ⟨-, hzero⟩ | ⟨c, hc, hid, -⟩
    · have hpos := Machine.pos_of_candidate hts (.inl ⟨t, hqueued, rfl⟩)
      rw [heq, hzero] at hpos
      exact Nat.lt_irrefl 0 hpos
    · rw [heq, hid] at hwaiting
      exact Machine.not_waiting hts hc hwaiting
  have hsame : ts.sched.queues.LastAtBack ts.sched.currentId := by
    intro p before task behind hqueue heq
    exact absurd heq (hnone p task (by simp [hqueue]))
  rw [readyQueues]
  rcases putBack_cases ts.sched with ⟨-, h⟩ | ⟨c, hc, -, h⟩ | ⟨c, -, -, h⟩ | ⟨c, -, -, h⟩
  · rw [h]
    exact hsame
  · rw [h]
    rw [Machine.currentId_of_current hc] at hnone ⊢
    exact Queues.lastAtBack_push hnone
  · rw [h]
    exact hsame
  · rw [h]
    exact hsame

theorem reschedule_eq_pick (h : s.reschedule = (change, reaped, s')) :
    s' = s.putBack.2.pick s.currentId := by
  rw [reschedule_eq] at h
  exact (congrArg (fun result => result.2.2) h).symm

/-- **Every reschedule dispatches the head of a queue.** -/
theorem dispatches_of_reschedule {ts : TaskSystem} (hts : ts.Custody)
    (h : ts.sched.reschedule = (change, reaped, s')) : ts.sched.Dispatches s' := by
  obtain rfl := reschedule_eq_pick h
  rw [pick]
  cases hpick : ts.sched.putBack.2.queues.pickNextFair ts.sched.currentId with
  | none =>
    have hnil := Queues.pickNextFair_eq_none hpick
    have hempty : ∀ p, ts.sched.readyQueues p = [] := by
      intro p
      refine List.eq_nil_iff_forall_not_mem.mpr fun t ht => ?_
      have hmem : t ∈ ts.sched.putBack.2.queues.queued := Queues.mem_queued.mpr ⟨p, ht⟩
      rw [hnil] at hmem
      cases hmem
    refine ⟨iff_of_true rfl hempty, ?_⟩
    rintro t ⟨⟩
  | some picked =>
    obtain ⟨p, task, rest, hqueue, htask, hqueues, hhigher, hlast⟩ :=
      Queues.pickNextFair_head (lastAtBack_readyQueues hts) hpick
    refine ⟨iff_of_false (Option.some_ne_none _) fun hempty => ?_, fun t ht => ?_⟩
    · have hnil := hempty p
      rw [hqueue] at hnil
      cases hnil
    · obtain rfl := Option.some.inj ht
      exact ⟨p, task, rest, hqueue, htask, hqueues, hhigher, hlast⟩

end Scheduler

/-! ## Every run -/

namespace TaskSystem

/-- A task becomes ready. -/
def readyEvent (task : Task) : QueueEvent Priority TaskId := .put task.priority task.id

/-- A task is dispatched. -/
def dispatchEvent (task : Task) : QueueEvent Priority TaskId := .took task.priority task.id

/-- Who becomes ready in a call, and who is dispatched. -/
def observe (s : TaskSystem) : TaskOp → List (QueueEvent Priority TaskId)
  | .spawn priority stackFrames => [readyEvent (Task.new s.ids priority stackFrames).1]
  | .reschedule =>
    -- the current task is put back before another one is picked
    (s.sched.current.toList.filter fun t => t.state = .running ∨ t.state = .ready).map readyEvent ++
      s.sched.reschedule.2.2.current.toList.map dispatchEvent
  | .unblock taskId =>
    (s.sched.blocked.find? fun task => task.id == taskId).toList.map readyEvent
  | .blockCurrent => []
  | .killCurrent => []

/-- Any calls from the empty scheduler, with a record of who became ready and was dispatched. -/
def dispatching : TransitionSystem (TaskSystem × List (QueueEvent Priority TaskId)) TaskOp :=
  .recorded ⟨Scheduler.new, IdAllocator.new⟩ step observe

variable {s s' : TaskSystem} {op : TaskOp} {p : Priority}
  {log log' : List (QueueEvent Priority TaskId)}

theorem putTo_append : putTo p (log ++ log') = putTo p log ++ putTo p log' := List.filterMap_append

theorem tookFrom_append : tookFrom p (log ++ log') = tookFrom p log ++ tookFrom p log' :=
  List.filterMap_append

/-- Putting the current task back puts it at the end of its queue, if it goes on. -/
theorem map_id_readyQueues (s : Scheduler) (p : Priority) :
    (s.readyQueues p).map Task.id = (s.queues p).map Task.id ++
      putTo p ((s.current.toList.filter fun t => t.state = .running ∨ t.state = .ready).map
        readyEvent) := by
  rw [Scheduler.readyQueues]
  rcases Scheduler.putBack_cases s with ⟨hc, h⟩ | ⟨c, hc, hstate, h⟩ | ⟨c, hc, hstate, h⟩ |
    ⟨c, hc, hstate, h⟩
  · rw [h, hc]
    simp [putTo]
  · rw [h, hc]
    refine (Queues.map_id_push _ _ p).trans ?_
    simp [hstate, readyEvent]
  · rw [h, hc]
    simp [hstate, putTo]
  · rw [h, hc]
    simp [hstate, putTo]

/-- Tasks wait in the queue of their priority, also the one that was put back. -/
theorem priority_of_mem_readyQueues (hs : s.Custody) {t : Task} (ht : t ∈ s.sched.readyQueues p) :
    t.priority = p :=
  (hs.filed.putBack.queued p t ht).1

theorem fifo_reschedule (hs : s.Custody) (h : s.step .reschedule = some s') (p : Priority) :
    tookFrom p (s.observe .reschedule) ++ (s'.sched.queues p).map Task.id =
      (s.sched.queues p).map Task.id ++ putTo p (s.observe .reschedule) := by
  obtain ⟨change, reaped, hres, -⟩ := step_reschedule h
  have hdispatch := Scheduler.dispatches_of_reschedule hs hres
  have hnew : s.sched.reschedule.2.2 = s'.sched := by rw [hres]
  have hready := map_id_readyQueues s.sched p
  rw [observe, hnew, tookFrom_append, putTo_append, ← List.append_assoc, ← hready]
  have htook : tookFrom p ((s.sched.current.toList.filter fun t =>
      t.state = .running ∨ t.state = .ready).map readyEvent) = [] := by
    simp [tookFrom, readyEvent]
  have hput : putTo p (s'.sched.current.toList.map dispatchEvent) = [] := by
    simp [putTo, dispatchEvent]
  rw [htook, hput, List.nil_append, List.append_nil]
  cases hcurrent : s'.sched.current with
  | none =>
    have hempty := hdispatch.idle.mp hcurrent
    have hqueues : s'.sched.queues = s.sched.readyQueues := by
      rw [Scheduler.reschedule_eq_pick hres, Scheduler.pick]
      split
      · next task queues hpick =>
        rw [Scheduler.reschedule_eq_pick hres, Scheduler.pick, hpick] at hcurrent
        cases hcurrent
      · rfl
    rw [hqueues]
    rfl
  | some t =>
    obtain ⟨q, task, rest, hqueue, rfl, hqueues, -, -⟩ := hdispatch.head t hcurrent
    have hpriority : task.priority = q := priority_of_mem_readyQueues hs (by simp [hqueue])
    rw [hqueues]
    by_cases hp : p = q
    · subst hp
      simp [tookFrom, dispatchEvent, hqueue, hpriority]
    · simp [tookFrom, dispatchEvent, hpriority, hp, Ne.symm hp]

/-- **What a call does to a queue**: those who become ready are put at its end, and those who are
dispatched were at its front. -/
theorem fifo_step (hs : s.Custody) (h : s.step op = some s') (p : Priority) :
    tookFrom p (s.observe op) ++ (s'.sched.queues p).map Task.id =
      (s.sched.queues p).map Task.id ++ putTo p (s.observe op) := by
  cases op with
  | spawn priority stackFrames =>
    obtain ⟨task, hnew, hspawn⟩ := step_spawn h
    rw [Scheduler.spawn] at hspawn
    split at hspawn
    · obtain hsched := Option.some.inj hspawn
      rw [← hsched, observe, hnew, Queues.map_id_push]
      rfl
    · cases hspawn
  | reschedule => exact fifo_reschedule hs h p
  | blockCurrent =>
    obtain rfl := Option.some.inj h
    simp [observe, putTo, tookFrom, Scheduler.blockCurrent]
  | unblock taskId =>
    obtain rfl := Option.some.inj h
    rw [observe, Scheduler.unblock]
    cases s.sched.blocked.find? fun task => task.id == taskId with
    | none => simp [putTo, tookFrom]
    | some task => exact Queues.map_id_push s.sched.queues { task with state := .ready } p
  | killCurrent =>
    obtain rfl := Option.some.inj h
    simp [observe, putTo, tookFrom, Scheduler.killCurrent]

/-- **Dispatch order**: after any calls, the tasks of one priority that were dispatched, in order,
and behind them those that wait, are the tasks that became ready, in that order; and every
reschedule dispatches the head of the first queue that has a task other than the one that was just
running, that one only if there is no other, and nobody only if nobody is ready. -/
theorem dispatch_order (h : dispatching.Reachable (s, log)) :
    (∀ p, tookFrom p log ++ (s.sched.queues p).map Task.id = putTo p log) ∧
      ∀ change reaped sched, s.sched.reschedule = (change, reaped, sched) →
        s.sched.Dispatches sched := by
  have hinv : dispatching.Invariant fun x => x.1.Custody ∧
      ∀ p, tookFrom p x.2 ++ (x.1.sched.queues p).map Task.id = putTo p x.2 := by
    refine ⟨?_, ?_⟩
    · rintro x rfl
      exact ⟨custody_of_reachable (.init rfl), fun p => rfl⟩
    · intro x op y hx hstep
      obtain ⟨hst, hlog⟩ := TransitionSystem.step_recorded hstep
      refine ⟨custody_invariant.step _ _ _ hx.1 hst, fun p => ?_⟩
      rw [hlog, tookFrom_append, putTo_append, List.append_assoc, fifo_step hx.1 hst,
        ← List.append_assoc, hx.2 p]
  obtain ⟨hs, hfifo⟩ := hinv.of_reachable h
  exact ⟨hfifo, fun change reaped sched hres => Scheduler.dispatches_of_reschedule hs hres⟩

/-- Two normal tasks and a realtime task: the realtime task is passed over for the first normal
task, and then has its turn again before the second. -/
def threeTasks : List TaskOp :=
  [.spawn .normal [], .spawn .normal [], .spawn .realtime [], .reschedule, .reschedule, .reschedule,
    .blockCurrent, .reschedule]

theorem dispatch_order_threeTasks : ∃ s log, dispatching.Reachable (s, log) ∧
    tookFrom .normal log = [1, 2] ∧ tookFrom .realtime log = [3, 3] ∧
    putTo .normal log = [1, 2, 1] ∧
    tookFrom .normal log ++ (s.sched.queues .normal).map Task.id = putTo .normal log := by
  have hrun : (threeTasks.foldlM (TransitionSystem.recordStep step observe)
      (⟨Scheduler.new, IdAllocator.new⟩, [])).map (fun x => (tookFrom .normal x.2,
        tookFrom .realtime x.2, putTo .normal x.2)) = some ([1, 2], [3, 3], [1, 2, 1]) := by
    decide
  obtain ⟨⟨s, log⟩, h, hlog⟩ := TransitionSystem.exists_reachable_of_map hrun
  obtain ⟨htook, hrest⟩ := Prod.mk.inj hlog
  obtain ⟨hrealtime, hput⟩ := Prod.mk.inj hrest
  exact ⟨s, log, h, htook, hrealtime, hput, (dispatch_order h).1 .normal⟩

end TaskSystem

end OxideOS
