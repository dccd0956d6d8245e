import OxideOS.Task.Task
import Mathlib.Algebra.GroupWithZero.Nat
import Mathlib.Data.List.Perm.Basic
import Mathlib.Logic.Function.Basic

/-!
# The scheduler

`task/scheduler.rs`: three queues of ready tasks, one for each priority, the current task and the
list of blocked tasks.  A reschedule files the current task by its state, and picks a ready task
other than that one when there is any.

A dead current task leaves the scheduler; `reschedule` returns it, and its caller runs
`cleanup_dead_task` on it.

## Main definitions

* `Scheduler`, `Queues`
* `Scheduler.spawn`, `Scheduler.reschedule`, `Scheduler.blockCurrent`, `Scheduler.unblock`,
  `Scheduler.killCurrent`, `Scheduler.taskCount`
* `Queues.queued`, `Scheduler.tasks`: all tasks in the queues, and in the scheduler
* `Scheduler.runnableIds`, `Scheduler.blockedIds`: which tasks may be picked, and which may not

## Main results

* `Queues.pickNextFair_eq_some`, `Queues.pickNextFair_eq_none`: which task is picked
* `Scheduler.map_tasks_reschedule`: a reschedule moves tasks, and only a dead one leaves
* `Scheduler.Filed.reschedule`: tasks stay filed by their state and priority
-/

namespace OxideOS

/-- `MAX_TASKS`, the length of the array of saved contexts. -/
def maxTasks : Nat := 256

/-- The ready tasks of each priority. -/
abbrev Queues := Priority → List Task

namespace Queues

/-- The order in which the queues are searched. -/
def order : List Priority := [.realtime, .normal, .background]

/-- `self.queues[task.priority].push_back(task)`. -/
def push (queues : Queues) (task : Task) : Queues :=
  Function.update queues task.priority (queues task.priority ++ [task])

/-- Take the first selected task of the first queue that has one, and let it run. -/
def takeFirst (select : Task → Bool) : List Priority → Queues → Option (Task × Queues)
  | [], _ => none
  | p :: rest, queues =>
    match (queues p).find? select with
    | some task =>
      some ({ task with state := .running },
        Function.update queues p ((queues p).eraseP select))
    | none => takeFirst select rest queues

/-- `pick_next`: the first task, in the order of priorities. -/
def pickNext (queues : Queues) : Option (Task × Queues) :=
  takeFirst (fun _ => true) order queues

/-- `pick_next_fair`: the first task other than the last one, or else any. -/
def pickNextFair (queues : Queues) (lastId : TaskId) : Option (Task × Queues) :=
  match takeFirst (fun task => task.id != lastId) order queues with
  | some picked => some picked
  | none => queues.pickNext

/-- All tasks in the queues. -/
def queued (queues : Queues) : List Task :=
  queues .realtime ++ queues .normal ++ queues .background

end Queues

structure Scheduler where
  queues : Queues
  current : Option Task
  blocked : List Task

namespace Scheduler

/-- `Scheduler::new`. -/
def new : Scheduler := ⟨fun _ => [], none, []⟩

/-- `current_id`, where 0 stands for no task. -/
def currentId (s : Scheduler) : TaskId := (s.current.map Task.id).getD 0

/-- `Scheduler::spawn`; `none` is the failed assertion on the id. -/
def spawn (s : Scheduler) (task : Task) : Option Scheduler :=
  if task.id < maxTasks then some { s with queues := s.queues.push task } else none

/-- File the current task by its state.  A dead task leaves the scheduler. -/
def putBack (s : Scheduler) : Option Task × Scheduler :=
  match s.current with
  | none => (none, s)
  | some current =>
    let s := { s with current := none }
    match current.state with
    | .running => (none, { s with queues := s.queues.push { current with state := .ready } })
    | .blocked => (none, { s with blocked := s.blocked ++ [current] })
    | .dead => (some current, s)
    | .ready => (none, { s with queues := s.queues.push current })

/-- Make a ready task the current one. -/
def pick (s : Scheduler) (lastId : TaskId) : Scheduler :=
  match s.queues.pickNextFair lastId with
  | some (task, queues) => { s with queues, current := some task }
  | none => { s with current := none }

/-- `reschedule`: the ids of the task before and after, and the dead task to clean up. -/
def reschedule (s : Scheduler) : (TaskId × TaskId) × Option Task × Scheduler :=
  let oldId := s.currentId
  let (reaped, s) := s.putBack
  let s := s.pick oldId
  ((oldId, s.currentId), reaped, s)

/-- `block_current`. -/
def blockCurrent (s : Scheduler) : Scheduler :=
  { s with current := s.current.map fun task => { task with state := .blocked } }

/-- `kill_current`. -/
def killCurrent (s : Scheduler) : Scheduler :=
  { s with current := s.current.map fun task => { task with state := .dead } }

/-- `unblock`: move a task from the blocked list to its queue. -/
def unblock (s : Scheduler) (taskId : TaskId) : Bool × Scheduler :=
  match s.blocked.find? fun task => task.id == taskId with
  | some task =>
    (true,
      { s with
        blocked := s.blocked.eraseP fun task => task.id == taskId
        queues := s.queues.push { task with state := .ready } })
  | none => (false, s)

/-- `task_count`. -/
def taskCount (s : Scheduler) : Nat :=
  (Queues.order.map fun p => (s.queues p).length).sum + s.blocked.length +
    if s.current.isSome then 1 else 0

/-- All tasks of the scheduler. -/
def tasks (s : Scheduler) : List Task :=
  s.queues.queued ++ s.blocked ++ s.current.toList

theorem length_tasks (s : Scheduler) : s.tasks.length = s.taskCount := by
  cases h : s.current <;> simp [tasks, taskCount, Queues.queued, Queues.order, h] <;> omega

end Scheduler

/-! ## The queues -/

namespace Queues

variable {queues queues' : Queues} {select : Task → Bool} {task task' : Task} {p : Priority}
  {l : List Task} {lastId : TaskId}

theorem mem_queued : task ∈ queues.queued ↔ ∃ p, task ∈ queues p := by
  rw [queued, List.mem_append, List.mem_append]
  constructor
  · rintro ((h | h) | h)
    · exact ⟨_, h⟩
    · exact ⟨_, h⟩
    · exact ⟨_, h⟩
  · rintro ⟨_ | _ | _, h⟩
    · exact .inl (.inl h)
    · exact .inl (.inr h)
    · exact .inr h

/-- Taking a task out of one queue takes it out of all tasks. -/
theorem queued_update (h : (queues p).Perm (task :: l)) :
    queues.queued.Perm (task :: queued (Function.update queues p l)) := by
  cases p with
  | realtime =>
    exact (h.append_right _).append_right _
  | normal =>
    exact List.Perm.append_right _ ((h.append_left _).trans List.perm_middle)
  | background =>
    exact (h.append_left _).trans List.perm_middle

/-- A pushed task is one more queued task. -/
theorem queued_push (queues : Queues) (task : Task) :
    (queues.push task).queued.Perm (task :: queues.queued) := by
  have hlast : (queues.push task task.priority).Perm (task :: queues task.priority) := by
    rw [push, Function.update_self]
    exact List.perm_append_singleton task _
  have hpush := queued_update hlast
  rwa [push, Function.update_idem, Function.update_eq_self] at hpush

theorem mem_push : task' ∈ queues.push task p ↔
    task' ∈ queues p ∨ (task' = task ∧ task.priority = p) := by
  by_cases hp : p = task.priority
  · subst hp
    simp [push]
  · simp [push, hp, Ne.symm hp]

theorem perm_eraseP {l : List Task} (h : l.find? select = some task) :
    l.Perm (task :: l.eraseP select) := by
  obtain ⟨hsel, before, after, rfl, hbefore⟩ := List.find?_eq_some_iff_append.mp h
  have hnot : ∀ t ∈ before, ¬select t = true := by simpa using hbefore
  rw [List.eraseP_append_right _ hnot, List.eraseP_cons_of_pos hsel]
  exact List.perm_middle

/-- What taking a task out of the queues does. -/
structure Taken (queues : Queues) (task : Task) (queues' : Queues) : Prop where
  perm : queues.queued.Perm (task :: queues'.queued)
  sublist : ∀ p, (queues' p).Sublist (queues p)

/-- A task that is found was selected, runs now, and has left its queue. -/
theorem takeFirst_eq_some {order : List Priority} :
    takeFirst select order queues = some (task', queues') →
    ∃ task, task' = { task with state := .running } ∧ select task = true ∧
      Taken queues task queues' := by
  induction order with
  | nil => intro h; cases h
  | cons p rest ih =>
    intro h
    rw [takeFirst] at h
    split at h
    · next task hfind =>
      obtain ⟨rfl, rfl⟩ := Prod.mk.inj (Option.some.inj h)
      refine ⟨task, rfl, List.find?_some hfind, queued_update (perm_eraseP hfind), fun p' => ?_⟩
      by_cases hp : p' = p
      · subst hp
        rw [Function.update_self]
        exact List.eraseP_sublist
      · rw [Function.update_of_ne hp]
    · exact ih h

/-- Nothing is found only when no queue has a selected task. -/
theorem takeFirst_eq_none {order : List Priority} :
    takeFirst select order queues = none →
    ∀ p ∈ order, ∀ task ∈ queues p, select task = false := by
  induction order with
  | nil => intro _ p hp; cases hp
  | cons p rest ih =>
    intro h p' hp' task htask
    rw [takeFirst] at h
    split at h
    · cases h
    · next hfind =>
      rcases List.mem_cons.mp hp' with rfl | hp'
      · simpa using List.find?_eq_none.mp hfind task htask
      · exact ih h p' hp' task htask

theorem mem_order (p : Priority) : p ∈ order := by
  cases p <;> decide

/-- A pick takes a ready task, and another one than the last when there is any. -/
theorem pickNextFair_eq_some (h : queues.pickNextFair lastId = some (task', queues')) :
    ∃ task, task' = { task with state := .running } ∧ Taken queues task queues' ∧
      (task.id = lastId → ∀ t ∈ queues.queued, t.id = lastId) := by
  rw [pickNextFair] at h
  split at h
  · next picked hpick =>
    obtain rfl := Option.some.inj h
    obtain ⟨task, htask, hsel, htaken⟩ := takeFirst_eq_some hpick
    refine ⟨task, htask, htaken, fun heq => ?_⟩
    simp [heq] at hsel
  · next hnone =>
    obtain ⟨task, htask, -, htaken⟩ := takeFirst_eq_some h
    refine ⟨task, htask, htaken, fun _ t ht => ?_⟩
    obtain ⟨p, hp⟩ := mem_queued.mp ht
    simpa using takeFirst_eq_none hnone p (mem_order p) t hp

/-- No task is picked only when none is ready. -/
theorem pickNextFair_eq_none (h : queues.pickNextFair lastId = none) : queues.queued = [] := by
  rw [pickNextFair] at h
  split at h
  · cases h
  · refine List.eq_nil_iff_forall_not_mem.mpr fun task htask => ?_
    obtain ⟨p, hp⟩ := mem_queued.mp htask
    have hsel := takeFirst_eq_none h p (mem_order p) task hp
    cases hsel

end Queues

/-! ## Where the tasks are -/

namespace Scheduler

variable {s s' : Scheduler} {task : Task} {reaped : Option Task} {taskId lastId : TaskId}

/-- A property of tasks that their state does not enter. -/
def StateBlind {β : Type} (f : Task → β) : Prop :=
  ∀ (task : Task) (state : TaskState), f { task with state } = f task

section Map

variable {β : Type} {f : Task → β}

theorem map_tasks_push (f : Task → β) (s : Scheduler) (task : Task) :
    ((tasks { s with queues := s.queues.push task }).map f).Perm (f task :: s.tasks.map f) := by
  have hpush := ((Queues.queued_push s.queues task).append_right s.blocked).append_right
    s.current.toList
  exact hpush.map f

theorem map_tasks_spawn (f : Task → β) (h : s.spawn task = some s') :
    (s'.tasks.map f).Perm (f task :: s.tasks.map f) := by
  rw [spawn] at h
  split at h
  · obtain rfl := Option.some.inj h
    exact map_tasks_push f s task
  · cases h

/-- The current task is the last of all tasks. -/
theorem map_tasks_of_current (f : Task → β) (h : s.current = some task) :
    (s.tasks.map f).Perm (f task :: (tasks { s with current := none }).map f) := by
  rw [tasks, tasks, h, List.map_append]
  simp only [Option.toList_some, Option.toList_none, List.append_nil, List.map_cons, List.map_nil]
  exact List.perm_append_singleton _ _

end Map

/-- What happens to the current task when it is put back. -/
theorem putBack_cases (s : Scheduler) :
    (s.current = none ∧ s.putBack = (none, s)) ∨
      (∃ c, s.current = some c ∧ (c.state = .running ∨ c.state = .ready) ∧
        s.putBack = (none,
          { s with current := none, queues := s.queues.push { c with state := .ready } })) ∨
      (∃ c, s.current = some c ∧ c.state = .blocked ∧
        s.putBack = (none, { s with current := none, blocked := s.blocked ++ [c] })) ∨
      ∃ c, s.current = some c ∧ c.state = .dead ∧
        s.putBack = (some c, { s with current := none }) := by
  rcases hcurrent : s.current with _ | c
  · refine .inl ⟨rfl, ?_⟩
    rw [putBack, hcurrent]
  · rcases hstate : c.state with _ | _ | _ | _
    · refine .inr (.inl ⟨c, rfl, .inr hstate, ?_⟩)
      have hready : ({ c with state := .ready } : Task) = c := by rw [← hstate]
      simp only [putBack, hcurrent, hstate, hready]
    · refine .inr (.inl ⟨c, rfl, .inl hstate, ?_⟩)
      simp only [putBack, hcurrent, hstate]
    · refine .inr (.inr (.inl ⟨c, rfl, hstate, ?_⟩))
      simp only [putBack, hcurrent, hstate]
    · refine .inr (.inr (.inr ⟨c, rfl, hstate, ?_⟩))
      simp only [putBack, hcurrent, hstate]

/-- Putting the current task back moves it, unless it is dead: then it leaves. -/
theorem map_tasks_putBack {β : Type} {f : Task → β} (hf : StateBlind f) (s : Scheduler) :
    (s.tasks.map f).Perm (s.putBack.1.toList.map f ++ s.putBack.2.tasks.map f) := by
  rcases putBack_cases s with ⟨-, h⟩ | ⟨c, hc, -, h⟩ | ⟨c, hc, -, h⟩ | ⟨c, hc, -, h⟩
  · rw [h]
    exact .refl _
  · rw [h]
    apply (map_tasks_of_current f hc).trans
    rw [← hf c .ready]
    exact (map_tasks_push f { s with current := none } { c with state := .ready }).symm
  · rw [h]
    apply (map_tasks_of_current f hc).trans
    have hblocked : ((s.queues.queued ++ (s.blocked ++ [c]) ++ []).map f).Perm
        (f c :: (s.queues.queued ++ s.blocked ++ []).map f) := by
      simp only [List.append_nil, List.map_append, ← List.append_assoc]
      exact List.perm_append_singleton _ _
    exact hblocked.symm
  · rw [h]
    exact map_tasks_of_current f hc

theorem current_putBack (s : Scheduler) : s.putBack.2.current = none := by
  rcases putBack_cases s with ⟨hc, h⟩ | ⟨c, -, -, h⟩ | ⟨c, -, -, h⟩ | ⟨c, -, -, h⟩
  · rw [h]
    exact hc
  all_goals rw [h]

/-- Picking makes a queued task the current one. -/
theorem map_tasks_pick {β : Type} {f : Task → β} (hf : StateBlind f) (hcurrent : s.current = none)
    (lastId : TaskId) : (s.tasks.map f).Perm ((s.pick lastId).tasks.map f) := by
  rw [pick]
  split
  · next task' queues hpick =>
    obtain ⟨task, rfl, htaken, -⟩ := Queues.pickNextFair_eq_some hpick
    rw [tasks, tasks, hcurrent]
    have hperm := ((htaken.perm.append_right s.blocked).append_right []).map f
    apply hperm.trans
    simp only [Option.toList_some, List.append_nil, List.map_append, List.cons_append,
      List.map_cons, List.map_nil, hf task]
    exact (List.perm_append_singleton _ _).symm
  · rw [tasks, tasks, hcurrent]

theorem reschedule_eq (s : Scheduler) :
    s.reschedule =
      ((s.currentId, (s.putBack.2.pick s.currentId).currentId), s.putBack.1,
        s.putBack.2.pick s.currentId) :=
  rfl

/-- A reschedule moves tasks between the lists, and only a dead one leaves. -/
theorem map_tasks_reschedule {β : Type} {f : Task → β} (hf : StateBlind f)
    {change : TaskId × TaskId} (h : s.reschedule = (change, reaped, s')) :
    (s.tasks.map f).Perm (reaped.toList.map f ++ s'.tasks.map f) := by
  rw [reschedule_eq] at h
  obtain ⟨-, rfl, rfl⟩ : _ ∧ s.putBack.1 = reaped ∧ s.putBack.2.pick s.currentId = s' := by
    simpa using h
  exact (map_tasks_putBack hf s).trans ((map_tasks_pick hf (current_putBack s) _).append_left _)

theorem map_tasks_blockCurrent {β : Type} {f : Task → β} (hf : StateBlind f) (s : Scheduler) :
    s.blockCurrent.tasks.map f = s.tasks.map f := by
  cases h : s.current <;> simp [tasks, blockCurrent, h, hf _]

theorem map_tasks_killCurrent {β : Type} {f : Task → β} (hf : StateBlind f) (s : Scheduler) :
    s.killCurrent.tasks.map f = s.tasks.map f := by
  cases h : s.current <;> simp [tasks, killCurrent, h, hf _]

/-- Unblocking moves a task between the lists. -/
theorem map_tasks_unblock {β : Type} {f : Task → β} (hf : StateBlind f) (s : Scheduler)
    (taskId : TaskId) : ((s.unblock taskId).2.tasks.map f).Perm (s.tasks.map f) := by
  rw [unblock]
  split
  · next task hfind =>
    let s₁ : Scheduler := { s with blocked := s.blocked.eraseP fun task => task.id == taskId }
    have hpush := map_tasks_push f s₁ { task with state := .ready }
    have herase := ((Queues.perm_eraseP hfind).append_left s.queues.queued).append_right
      s.current.toList
    refine hpush.trans (List.Perm.trans ?_ (herase.map f).symm)
    simp only [s₁, tasks, List.map_append, List.map_cons, List.append_assoc,
      List.cons_append, hf _]
    exact List.perm_middle.symm
  · exact .refl _

/-! ## The ids -/

/-- The ids of all tasks of the scheduler. -/
def ids (s : Scheduler) : List TaskId := s.tasks.map Task.id

theorem stateBlind_id : StateBlind Task.id := fun _ _ => rfl

theorem ids_spawn (h : s.spawn task = some s') : s'.ids.Perm (task.id :: s.ids) :=
  map_tasks_spawn Task.id h

theorem ids_reschedule {change : TaskId × TaskId} (h : s.reschedule = (change, reaped, s')) :
    s.ids.Perm (reaped.toList.map Task.id ++ s'.ids) :=
  map_tasks_reschedule stateBlind_id h

@[simp]
theorem ids_blockCurrent (s : Scheduler) : s.blockCurrent.ids = s.ids :=
  map_tasks_blockCurrent stateBlind_id s

@[simp]
theorem ids_killCurrent (s : Scheduler) : s.killCurrent.ids = s.ids :=
  map_tasks_killCurrent stateBlind_id s

theorem ids_unblock (s : Scheduler) (taskId : TaskId) : (s.unblock taskId).2.ids.Perm s.ids :=
  map_tasks_unblock stateBlind_id s taskId

/-! ## How the tasks are filed -/

/-- Every queue holds ready tasks of its priority, the blocked list holds blocked tasks, and the
current task is not merely ready. -/
structure Filed (s : Scheduler) : Prop where
  queued : ∀ p, ∀ t ∈ s.queues p, t.priority = p ∧ t.state = .ready
  blocked : ∀ t ∈ s.blocked, t.state = .blocked
  current : ∀ t, s.current = some t → t.state = .running ∨ t.state = .blocked ∨ t.state = .dead

theorem filed_new : new.Filed where
  queued p t ht := by cases ht
  blocked t ht := by cases ht
  current t ht := by cases ht

theorem Filed.push (hs : s.Filed) (htask : task.state = .ready) :
    Filed { s with queues := s.queues.push task } where
  queued p t ht := by
    rcases Queues.mem_push.mp ht with ht | ⟨rfl, hp⟩
    · exact hs.queued p t ht
    · exact ⟨hp, htask⟩
  blocked := hs.blocked
  current := hs.current

theorem Filed.dropCurrent (hs : s.Filed) : Filed { s with current := none } where
  queued := hs.queued
  blocked := hs.blocked
  current t ht := by cases ht

theorem Filed.spawn (hs : s.Filed) (htask : task.state = .ready) (h : s.spawn task = some s') :
    s'.Filed := by
  rw [Scheduler.spawn] at h
  split at h
  · obtain rfl := Option.some.inj h
    exact hs.push htask
  · cases h

theorem Filed.putBack (hs : s.Filed) : s.putBack.2.Filed := by
  rcases putBack_cases s with ⟨-, h⟩ | ⟨c, -, -, h⟩ | ⟨c, -, hstate, h⟩ | ⟨c, -, -, h⟩
  · rw [h]
    exact hs
  · rw [h]
    exact hs.dropCurrent.push rfl
  · rw [h]
    refine ⟨hs.queued, fun t ht => ?_, fun t ht => by cases ht⟩
    rcases List.mem_append.mp ht with ht | ht
    · exact hs.blocked t ht
    · rw [List.mem_singleton.mp ht]
      exact hstate
  · rw [h]
    exact hs.dropCurrent

theorem Filed.pick (hs : s.Filed) (lastId : TaskId) : (s.pick lastId).Filed := by
  rw [Scheduler.pick]
  split
  · next task' queues hpick =>
    obtain ⟨task, rfl, htaken, -⟩ := Queues.pickNextFair_eq_some hpick
    refine ⟨fun p t ht => hs.queued p t ((htaken.sublist p).mem ht), hs.blocked, fun t ht => ?_⟩
    obtain rfl := Option.some.inj ht
    exact .inl rfl
  · exact hs.dropCurrent

/-- A reschedule keeps the tasks filed. -/
theorem Filed.reschedule (hs : s.Filed) {change : TaskId × TaskId}
    (h : s.reschedule = (change, reaped, s')) : s'.Filed := by
  rw [reschedule_eq] at h
  obtain ⟨-, -, rfl⟩ : _ ∧ s.putBack.1 = reaped ∧ s.putBack.2.pick s.currentId = s' := by
    simpa using h
  exact hs.putBack.pick s.currentId

theorem Filed.blockCurrent (hs : s.Filed) : s.blockCurrent.Filed := by
  refine ⟨hs.queued, hs.blocked, fun t ht => ?_⟩
  obtain ⟨task, -, rfl⟩ := Option.map_eq_some_iff.mp ht
  exact .inr (.inl rfl)

theorem Filed.killCurrent (hs : s.Filed) : s.killCurrent.Filed := by
  refine ⟨hs.queued, hs.blocked, fun t ht => ?_⟩
  obtain ⟨task, -, rfl⟩ := Option.map_eq_some_iff.mp ht
  exact .inr (.inr rfl)

theorem Filed.unblock (hs : s.Filed) (taskId : TaskId) : (s.unblock taskId).2.Filed := by
  rw [Scheduler.unblock]
  split
  · next task _ =>
    have hs₁ : Filed { s with blocked := s.blocked.eraseP fun task => task.id == taskId } :=
      ⟨hs.queued, fun t ht => hs.blocked t (List.mem_of_mem_eraseP ht), hs.current⟩
    have hready : ({ task with state := .ready } : Task).state = .ready := rfl
    exact hs₁.push hready
  · exact hs

/-! ## The blocked tasks -/

/-- The ids of the tasks in the blocked list. -/
def blockedIds (s : Scheduler) : List TaskId := s.blocked.map Task.id

/-- The current task has been marked, and will be filed as blocked. -/
def blockingIds (s : Scheduler) : List TaskId :=
  (s.current.toList.filter fun task => task.state = .blocked).map Task.id

/-- It has been marked, and will be cleaned up. -/
def dyingIds (s : Scheduler) : List TaskId :=
  (s.current.toList.filter fun task => task.state = .dead).map Task.id

/-- Between two calls nobody is marked. -/
theorem marked_of_running (h : ∀ c ∈ s.current, c.state = .running) :
    s.dyingIds = [] ∧ s.blockingIds = [] := by
  cases hcurrent : s.current with
  | none => simp [dyingIds, blockingIds, hcurrent]
  | some c => simp [dyingIds, blockingIds, hcurrent, h c hcurrent]

/-- The mark of `block_current`. -/
theorem marked_blockCurrent (s : Scheduler) :
    s.blockCurrent.dyingIds = [] ∧
      s.blockCurrent.blockingIds = s.current.toList.map Task.id := by
  cases hcurrent : s.current <;> simp [dyingIds, blockingIds, blockCurrent, hcurrent]

/-- The mark of `kill_current`. -/
theorem marked_killCurrent (s : Scheduler) :
    s.killCurrent.dyingIds = s.current.toList.map Task.id ∧ s.killCurrent.blockingIds = [] := by
  cases hcurrent : s.current <;> simp [dyingIds, blockingIds, killCurrent, hcurrent]

/-- Unblocking takes the task off the blocked list. -/
theorem blockedIds_unblock (s : Scheduler) (taskId : TaskId) :
    (s.unblock taskId).2.blockedIds = s.blockedIds.erase taskId := by
  have herase : s.blockedIds.erase taskId =
      (s.blocked.eraseP fun task => task.id == taskId).map Task.id := by
    rw [blockedIds, List.erase_eq_eraseP', List.eraseP_map]
    rfl
  rw [unblock]
  split
  · exact herase.symm
  · next hfind =>
    rw [herase, List.eraseP_of_forall_not fun task htask => List.find?_eq_none.mp hfind task htask]
    rfl

theorem current_unblock (s : Scheduler) (taskId : TaskId) :
    (s.unblock taskId).2.current = s.current := by
  rw [unblock]
  split <;> rfl

theorem blocked_pick (s : Scheduler) (lastId : TaskId) : (s.pick lastId).blocked = s.blocked := by
  rw [pick]
  split <;> rfl

/-- A reschedule files the current task as blocked if it has been marked so. -/
theorem blockedIds_reschedule {change : TaskId × TaskId}
    (h : s.reschedule = (change, reaped, s')) : s'.blockedIds = s.blockedIds ++ s.blockingIds := by
  rw [reschedule_eq] at h
  obtain ⟨-, -, rfl⟩ : _ ∧ s.putBack.1 = reaped ∧ s.putBack.2.pick s.currentId = s' := by
    simpa using h
  rw [blockedIds, blocked_pick]
  rcases putBack_cases s with ⟨hc, hput⟩ | ⟨c, hc, hstate | hstate, hput⟩ | ⟨c, hc, hstate, hput⟩ |
    ⟨c, hc, hstate, hput⟩
  all_goals
    rw [hput]
    simp [blockedIds, blockingIds, hc]
  all_goals simp [hstate]

/-! ## The runnable tasks -/

/-- The ids of the current task and of the tasks in the queues. -/
def runnableIds (s : Scheduler) : List TaskId :=
  (s.current.toList ++ s.queues.queued).map Task.id

/-- Every task is runnable or blocked. -/
theorem ids_perm (s : Scheduler) : s.ids.Perm (s.runnableIds ++ s.blockedIds) := by
  rw [ids, runnableIds, blockedIds, ← List.map_append]
  apply List.Perm.map
  rw [tasks, List.append_assoc]
  refine (List.perm_append_comm.append_left _).trans ?_
  rw [← List.append_assoc]
  exact List.perm_append_comm.append_right _

@[simp]
theorem runnableIds_blockCurrent (s : Scheduler) : s.blockCurrent.runnableIds = s.runnableIds := by
  cases h : s.current <;> simp [runnableIds, blockCurrent, h]

@[simp]
theorem runnableIds_killCurrent (s : Scheduler) : s.killCurrent.runnableIds = s.runnableIds := by
  cases h : s.current <;> simp [runnableIds, killCurrent, h]

theorem runnableIds_spawn (h : s.spawn task = some s') :
    s'.runnableIds.Perm (task.id :: s.runnableIds) ∧ s'.current = s.current := by
  rw [spawn] at h
  split at h
  · obtain rfl := Option.some.inj h
    refine ⟨?_, rfl⟩
    have hpush := ((Queues.queued_push s.queues task).append_left s.current.toList).map Task.id
    apply hpush.trans
    rw [runnableIds, ← List.map_cons]
    exact List.perm_middle.map Task.id
  · cases h

/-- Of the runnable tasks a reschedule removes the current one if it is dead or blocked. -/
theorem runnableIds_reschedule {change : TaskId × TaskId}
    (h : s.reschedule = (change, reaped, s')) :
    (reaped.toList.map Task.id ++ s'.runnableIds ++ s.blockingIds).Perm s.runnableIds := by
  rw [← List.perm_append_right_iff s.blockedIds]
  have hafter : s'.ids.Perm (s'.runnableIds ++ (s.blockingIds ++ s.blockedIds)) := by
    apply s'.ids_perm.trans
    rw [blockedIds_reschedule h]
    exact List.perm_append_comm.append_left _
  have hids := (ids_reschedule h).trans (hafter.append_left _)
  have hall := hids.symm.trans s.ids_perm
  simpa only [List.append_assoc] using hall

/-- The task to clean up is the current one, if it is dead. -/
theorem toList_reaped {change : TaskId × TaskId} (h : s.reschedule = (change, reaped, s')) :
    reaped.toList = s.current.toList.filter fun task => task.state = .dead := by
  have hput : s.putBack.1 = reaped := congrArg (fun result => result.2.1) h
  rw [← hput]
  rcases putBack_cases s with ⟨hc, hput⟩ | ⟨c, hc, hstate | hstate, hput⟩ | ⟨c, hc, hstate, hput⟩ |
    ⟨c, hc, hstate, hput⟩
  all_goals
    rw [hput, hc]
    simp
  all_goals simp [hstate]

/-- Whoever is picked runs. -/
theorem state_current_reschedule {change : TaskId × TaskId}
    (h : s.reschedule = (change, reaped, s')) (hcurrent : s'.current = some task) :
    task.state = .running := by
  have hpick : s.putBack.2.pick s.currentId = s' := congrArg (fun result => result.2.2) h
  rw [← hpick, pick] at hcurrent
  split at hcurrent
  · next picked queues hpicked =>
    obtain rfl := Option.some.inj hcurrent
    obtain ⟨task, rfl, -⟩ := Queues.pickNextFair_eq_some hpicked
    rfl
  · cases hcurrent

/-- Waking a blocked task makes it runnable; waking another one does nothing. -/
theorem runnableIds_unblock (hblocked : taskId ∈ s.blockedIds) :
    (s.unblock taskId).2.runnableIds.Perm (taskId :: s.runnableIds) := by
  rw [← List.perm_append_right_iff (s.blockedIds.erase taskId)]
  have hafter := (s.unblock taskId).2.ids_perm
  rw [blockedIds_unblock] at hafter
  apply hafter.symm.trans
  apply (s.ids_unblock taskId).trans
  apply s.ids_perm.trans
  apply ((List.perm_cons_erase hblocked).append_left s.runnableIds).trans
  exact List.perm_middle

theorem unblock_of_notMem (h : taskId ∉ s.blockedIds) : (s.unblock taskId).2 = s := by
  rw [unblock]
  split
  · next task hfind =>
    have hid : task.id = taskId := by simpa using List.find?_some hfind
    exact absurd (hid ▸ List.mem_map_of_mem (List.mem_of_find?_eq_some hfind)) h
  · rfl

end Scheduler

end OxideOS
