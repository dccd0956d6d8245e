import OxideOS.Task.Conservation

/-!
# The scheduler and the CPU

The scheduler decides which task is current, and `yield_now` makes the CPU follow by switching
contexts.  The machine is the scheduler with the saved contexts and the context the CPU executes.

`yield_now` does not switch when no task is ready.  That is right for a task that stays current and
for the idle loop, but a task that has just blocked or exited then runs on although the scheduler
has no current task.

## Main definitions

* `Machine`, `MachineOp`, `Machine.step`: the machine and the operations on it
* `Machine.Agrees`: the CPU executes the current task, and saves contexts in their own slots
* `Machine.Switchable`: an operation that gives up the CPU finds a ready task

## Main results

* `Machine.Sound.agrees_iff_switchable`: an operation on a sound machine keeps the agreement exactly
  when it is switchable
* `Machine.scheduler_agrees`: runs of switchable operations keep the agreement
-/

namespace OxideOS

/-! ## What a reschedule does to the waiting tasks -/

namespace Scheduler

variable {s s' : Scheduler} {reaped : Option Task} {id lastId : TaskId}

/-- The ids of the tasks that are not current: ready or blocked. -/
def waitingIds (s : Scheduler) : List TaskId := (s.queues.queued ++ s.blocked).map Task.id

theorem ids_eq (s : Scheduler) :
    s.ids = s.waitingIds ++ s.current.toList.map Task.id := by
  rw [ids, tasks, List.map_append, waitingIds]

theorem mem_waitingIds : id ∈ s.waitingIds ↔
    (∃ t ∈ s.queues.queued, t.id = id) ∨ ∃ t ∈ s.blocked, t.id = id := by
  simp [waitingIds]

theorem mem_queued_push {task t : Task} :
    t ∈ (s.queues.push task).queued ↔ t = task ∨ t ∈ s.queues.queued := by
  rw [(Queues.queued_push s.queues task).mem_iff, List.mem_cons]

/-- The tasks a reschedule chooses from: the ready ones, and the current one if it still runs. -/
def Candidate (s : Scheduler) (id : TaskId) : Prop :=
  (∃ t ∈ s.queues.queued, t.id = id) ∨
    ∃ c, s.current = some c ∧ (c.state = .running ∨ c.state = .ready) ∧ c.id = id

theorem ne_dead_of_runnable {c : Task} (h : c.state = .running ∨ c.state = .ready) :
    c.state ≠ .dead := by
  rcases h with h | h
  all_goals
    rw [h]
    exact TaskState.noConfusion

/-- The candidates are the ready tasks once the current one has been put back. -/
theorem candidate_iff_putBack :
    s.Candidate id ↔ ∃ t ∈ s.putBack.2.queues.queued, t.id = id := by
  rcases putBack_cases s with ⟨hc, h⟩ | ⟨c, hc, hstate, h⟩ | ⟨c, hc, hstate, h⟩ | ⟨c, hc, hstate, h⟩
  · rw [h]
    simp [Candidate, hc]
  · rw [h]
    simp only [Candidate, hc, mem_queued_push, Option.some.injEq]
    constructor
    · rintro (⟨t, ht, rfl⟩ | ⟨_, rfl, -, rfl⟩)
      · exact ⟨t, .inr ht, rfl⟩
      · exact ⟨_, .inl rfl, rfl⟩
    · rintro ⟨t, rfl | ht, rfl⟩
      · exact .inr ⟨c, rfl, hstate, rfl⟩
      · exact .inl ⟨t, ht, rfl⟩
  · rw [h]
    simp [Candidate, hc, hstate]
  · rw [h]
    simp [Candidate, hc, hstate]

/-- A task that waits after the current one was put back waited before, or is that one. -/
theorem mem_waitingIds_putBack (h : id ∈ s.putBack.2.waitingIds) :
    id ∈ s.waitingIds ∨ ∃ c, s.current = some c ∧ c.state ≠ .dead ∧ c.id = id := by
  rcases putBack_cases s with ⟨hc, hput⟩ | ⟨c, hc, hstate, hput⟩ | ⟨c, hc, hstate, hput⟩ |
    ⟨c, hc, hstate, hput⟩
  · rw [hput] at h
    exact .inl h
  · rw [hput, mem_waitingIds] at h
    have hlive : c.state ≠ .dead := ne_dead_of_runnable hstate
    rcases h with ⟨t, ht, rfl⟩ | hblocked
    · rcases mem_queued_push.mp ht with rfl | ht
      · exact .inr ⟨c, hc, hlive, rfl⟩
      · exact .inl (mem_waitingIds.mpr (.inl ⟨t, ht, rfl⟩))
    · exact .inl (mem_waitingIds.mpr (.inr hblocked))
  · rw [hput, mem_waitingIds] at h
    have hlive : c.state ≠ .dead := by
      rw [hstate]
      exact TaskState.noConfusion
    rcases h with hqueued | ⟨t, ht, rfl⟩
    · exact .inl (mem_waitingIds.mpr (.inl hqueued))
    · rcases List.mem_append.mp ht with ht | ht
      · exact .inl (mem_waitingIds.mpr (.inr ⟨t, ht, rfl⟩))
      · rw [List.mem_singleton.mp ht]
        exact .inr ⟨c, hc, hlive, rfl⟩
  · rw [hput] at h
    exact .inl h

/-- A pick takes a ready task, which no longer waits, or finds none. -/
theorem pick_cases (s : Scheduler) (lastId : TaskId) :
    ((∃ t', (s.pick lastId).current = some t' ∧ t'.state = .running ∧
        ∃ t ∈ s.queues.queued, t.id = t'.id) ∨
      ((s.pick lastId).current = none ∧ s.queues.queued = [])) ∧
    ∀ id ∈ (s.pick lastId).waitingIds, id ∈ s.waitingIds := by
  rw [pick]
  split
  · next task' queues hpick =>
    obtain ⟨task, rfl, htaken, -⟩ := Queues.pickNextFair_eq_some hpick
    have hmem : task ∈ s.queues.queued := htaken.perm.mem_iff.mpr List.mem_cons_self
    refine ⟨.inl ⟨_, rfl, rfl, task, hmem, rfl⟩, fun id hid => ?_⟩
    rcases mem_waitingIds.mp hid with ⟨t, ht, rfl⟩ | hblocked
    · have ht' : t ∈ s.queues.queued := htaken.perm.mem_iff.mpr (List.mem_cons_of_mem _ ht)
      exact mem_waitingIds.mpr (.inl ⟨t, ht', rfl⟩)
    · exact mem_waitingIds.mpr (.inr hblocked)
  · next hpick => exact ⟨.inr ⟨rfl, Queues.pickNextFair_eq_none hpick⟩, fun _ hid => hid⟩

/-- What a reschedule does: it makes a candidate current, or finds none, and the tasks that wait
afterwards waited before or were current and not dead. -/
theorem reschedule_cases {oldId newId : TaskId} (h : s.reschedule = ((oldId, newId), reaped, s')) :
    oldId = s.currentId ∧ newId = s'.currentId ∧
      ((∃ t, s'.current = some t ∧ t.state = .running ∧ s.Candidate t.id) ∨
        (s'.current = none ∧ ∀ id, ¬s.Candidate id)) ∧
      ∀ id ∈ s'.waitingIds,
        id ∈ s.waitingIds ∨ ∃ c, s.current = some c ∧ c.state ≠ .dead ∧ c.id = id := by
  rw [reschedule_eq] at h
  obtain ⟨⟨rfl, rfl⟩, -, rfl⟩ : (s.currentId = oldId ∧
      (s.putBack.2.pick s.currentId).currentId = newId) ∧ s.putBack.1 = reaped ∧
      s.putBack.2.pick s.currentId = s' := by simpa using h
  obtain ⟨hpick, hwaiting⟩ := pick_cases s.putBack.2 s.currentId
  refine ⟨rfl, rfl, ?_, fun id hid => mem_waitingIds_putBack (hwaiting id hid)⟩
  rcases hpick with ⟨t', hcurrent, hrunning, ht⟩ | ⟨hcurrent, hnil⟩
  · exact .inl ⟨t', hcurrent, hrunning, candidate_iff_putBack.mpr ht⟩
  · refine .inr ⟨hcurrent, fun id hid => ?_⟩
    obtain ⟨t, ht, -⟩ := candidate_iff_putBack.mp hid
    rw [hnil] at ht
    cases ht

end Scheduler

/-! ## The machine -/

/-- A context switch: the slot the registers were saved in, and whose registers they were.  `none`
stands for the idle context. -/
structure Switch where
  savedTo : Option TaskId
  executing : Option TaskId
deriving DecidableEq, Repr

/-- The scheduler, the saved contexts, the context the CPU executes, and the switches so far. -/
structure Machine where
  tasks : TaskSystem
  /-- `CONTEXTS`, indexed by task id. -/
  contexts : TaskId → CpuContext
  /-- `IDLE_CONTEXT`. -/
  idleContext : CpuContext
  executing : CpuContext
  switches : List Switch

/-- The operations on the machine, called by whatever the CPU executes. -/
inductive MachineOp
  /-- `Task::new` followed by `Scheduler::spawn`. -/
  | spawn (priority : Priority) (stackFrames : List UInt64)
  | unblock (taskId : TaskId)
  | yieldNow
  | blockAndYield
  | exitCurrent
deriving DecidableEq, Repr

namespace Machine

/-- The boot code runs, and no task exists. -/
def boot : Machine where
  tasks := ⟨Scheduler.new, IdAllocator.new⟩
  contexts := fun _ => CpuContext.empty
  idleContext := CpuContext.empty
  executing := ⟨none, .caller⟩
  switches := []

/-- `context_switch` from the slot of `oldId`, where 0 is the idle slot, to the slot of `newId`.
The saved registers resume at `resume`. -/
def contextSwitch (m : Machine) (oldId newId : TaskId) (resume : ResumePoint) : Machine :=
  let saved := { m.executing with resume }
  if oldId = 0 then
    { m with
      idleContext := saved
      executing := m.contexts newId
      switches := m.switches ++ [⟨none, m.executing.owner⟩] }
  else
    { m with
      contexts := Function.update m.contexts oldId saved
      executing := Function.update m.contexts oldId saved newId
      switches := m.switches ++ [⟨some oldId, m.executing.owner⟩] }

/-- `yield_now`.  Behind it the caller resumes at `resume`, at once when there is no switch. -/
def yieldNow (m : Machine) (resume : ResumePoint) : Machine :=
  let ((oldId, newId), reaped, sched) := m.tasks.sched.reschedule
  let m := { m with tasks := ⟨sched, TaskSystem.recycle m.tasks.ids reaped⟩ }
  if oldId ≠ newId ∧ newId ≠ 0 then m.contextSwitch oldId newId resume
  else { m with executing := { m.executing with resume } }

/-- Replace the scheduler. -/
def withSched (m : Machine) (sched : Scheduler) : Machine :=
  { m with tasks := { m.tasks with sched } }

@[simp]
theorem sched_withSched (m : Machine) (sched : Scheduler) :
    (m.withSched sched).tasks.sched = sched := rfl

/-- The machine after an operation.  `none` is a panic: the failed assertion of `spawn`, or an
`unreachable!` that was reached before. -/
def step (m : Machine) (op : MachineOp) : Option Machine :=
  if m.executing.resume = .unreachable then none
  else
    match op with
    | .spawn priority stackFrames =>
      let (task, ids) := Task.new m.tasks.ids priority stackFrames
      -- `spawn` stores the initial context in the slot of the task
      (m.tasks.sched.spawn task).map fun sched =>
        { m with
          tasks := ⟨sched, ids⟩
          contexts := Function.update m.contexts task.id task.context }
    | .unblock taskId => some (m.withSched (m.tasks.sched.unblock taskId).2)
    | .yieldNow => some (m.yieldNow .caller)
    | .blockAndYield => some ((m.withSched m.tasks.sched.blockCurrent).yieldNow .caller)
    | .exitCurrent => some ((m.withSched m.tasks.sched.killCurrent).yieldNow .unreachable)

/-- Any operations from boot. -/
def system : TransitionSystem Machine MachineOp := .ofPartial boot step

/-! ## Agreement -/

/-- A context that runs, or will run, its owner's code. -/
def Live (c : CpuContext) : Prop := c.resume = .entry ∨ c.resume = .caller

/-- The CPU executes the current task, or the idle context when there is none; it is not at the
`unreachable!` of `exit_current`; and every switch saved a context in its own slot. -/
structure Agrees (m : Machine) : Prop where
  owner : m.executing.owner = m.tasks.sched.current.map Task.id
  live : Live m.executing
  saved : ∀ sw ∈ m.switches, sw.savedTo = sw.executing

/-- The operation keeps the CPU for its caller, or finds a ready task to hand it to. -/
def Switchable (m : Machine) : MachineOp → Prop
  | .blockAndYield => m.tasks.sched.current = none ∨ m.tasks.sched.queues.queued ≠ []
  | .exitCurrent => m.tasks.sched.queues.queued ≠ []
  | _ => True

instance (m : Machine) : (op : MachineOp) → Decidable (m.Switchable op)
  | .spawn _ _ => .isTrue trivial
  | .unblock _ => .isTrue trivial
  | .yieldNow => .isTrue trivial
  | .blockAndYield =>
    inferInstanceAs (Decidable (m.tasks.sched.current = none ∨ m.tasks.sched.queues.queued ≠ []))
  | .exitCurrent => inferInstanceAs (Decidable (m.tasks.sched.queues.queued ≠ []))

/-- The agreement with what keeps it: the ids are in order, and every waiting task has its own
context saved. -/
structure Coherent (m : Machine) : Prop where
  custody : m.tasks.Custody
  agrees : m.Agrees
  contexts : ∀ id ∈ m.tasks.sched.waitingIds,
    (m.contexts id).owner = some id ∧ Live (m.contexts id)

/-- Between operations the current task is running. -/
structure Sound (m : Machine) : Prop extends m.Coherent where
  running : ∀ c, m.tasks.sched.current = some c → c.state = .running

variable {m m' : Machine} {op : MachineOp} {id : TaskId} {resume : ResumePoint}

theorem sound_boot : boot.Sound where
  custody := ⟨IdAllocator.covers_new, Scheduler.filed_new⟩
  agrees := ⟨rfl, .inr rfl, fun _ h => by cases h⟩
  contexts _ h := by cases h
  running _ h := by cases h

/-! ## Ids -/

theorem pos_of_candidate {ts : TaskSystem} (hts : ts.Custody) (h : ts.sched.Candidate id) :
    0 < id := by
  refine hts.covers.pos_of_mem ?_
  rw [Scheduler.ids_eq, List.mem_append]
  rcases h with ⟨t, ht, rfl⟩ | ⟨c, hc, -, rfl⟩
  · exact .inl (Scheduler.mem_waitingIds.mpr (.inl ⟨t, ht, rfl⟩))
  · simp [hc]

/-- The current task does not wait. -/
theorem not_waiting {ts : TaskSystem} (hts : ts.Custody) {c : Task}
    (hc : ts.sched.current = some c) : c.id ∉ ts.sched.waitingIds := by
  have hnodup := (List.nodup_append.mp hts.covers.nodup).1
  rw [Scheduler.ids_eq, hc] at hnodup
  intro hmem
  exact (List.nodup_append.mp hnodup).2.2 c.id hmem c.id (by simp) rfl

theorem currentId_of_current {sched : Scheduler} {c : Task} (hc : sched.current = some c) :
    sched.currentId = c.id := by
  rw [Scheduler.currentId, hc]
  rfl

/-- The current id is 0 only for the idle context. -/
theorem current_of_currentId {ts : TaskSystem} (hts : ts.Custody) :
    (ts.sched.current = none ∧ ts.sched.currentId = 0) ∨
      ∃ c, ts.sched.current = some c ∧ ts.sched.currentId = c.id ∧ c.id ≠ 0 := by
  rcases hcurrent : ts.sched.current with _ | c
  · refine .inl ⟨rfl, ?_⟩
    rw [Scheduler.currentId, hcurrent]
    rfl
  · refine .inr ⟨c, rfl, currentId_of_current hcurrent, ?_⟩
    have hmem : c.id ∈ ts.sched.ids := by
      rw [Scheduler.ids_eq, hcurrent]
      simp
    exact Nat.ne_of_gt (hts.covers.pos_of_mem hmem)

/-! ## Yielding -/

/-- What a yield does to the machine, given what it does to the scheduler. -/
theorem yieldNow_eq {oldId newId : TaskId} {reaped : Option Task} {sched : Scheduler}
    (hres : m.tasks.sched.reschedule = ((oldId, newId), reaped, sched)) :
    m.yieldNow resume =
      let m₁ := { m with tasks := ⟨sched, TaskSystem.recycle m.tasks.ids reaped⟩ }
      if oldId ≠ newId ∧ newId ≠ 0 then m₁.contextSwitch oldId newId resume
      else { m₁ with executing := { m.executing with resume } } := by
  rw [yieldNow, hres]

theorem tasks_yieldNow {oldId newId : TaskId} {reaped : Option Task} {sched : Scheduler}
    (hres : m.tasks.sched.reschedule = ((oldId, newId), reaped, sched)) :
    (m.yieldNow resume).tasks = ⟨sched, TaskSystem.recycle m.tasks.ids reaped⟩ := by
  rw [yieldNow_eq hres]
  split
  · rw [contextSwitch]
    split
    · rfl
    · rfl
  · rfl

/-- A caller that yields either returns, or is dead and must not. -/
def MayYield (m : Machine) (resume : ResumePoint) : Prop :=
  resume = .caller ∨
    (resume = .unreachable ∧ ∀ c, m.tasks.sched.current = some c → c.state = .dead)

/-- The context saved by a yield is live if its owner still waits. -/
theorem MayYield.live {c : Task} (h : m.MayYield resume) (hc : m.tasks.sched.current = some c)
    (hdead : c.state ≠ .dead) : resume = .caller := by
  rcases h with hresume | ⟨-, hd⟩
  · exact hresume
  · exact absurd (hd c hc) hdead

/-- A context that a switch saves, and that resumes only in a task that is not dead. -/
theorem saved_live {c : Task} (hm : m.Coherent) (h : m.MayYield resume)
    (hc : m.tasks.sched.current = some c) (hdead : c.state ≠ .dead) :
    ({ m.executing with resume } : CpuContext).owner = some c.id ∧
      Live { m.executing with resume } := by
  refine ⟨?_, .inr (h.live hc hdead)⟩
  show m.executing.owner = some c.id
  rw [hm.agrees.owner, hc]
  rfl

section Yield

variable {oldId newId : TaskId} {reaped : Option Task} {sched : Scheduler} {t : Task}

theorem custody_reschedule (hm : m.Coherent)
    (hres : m.tasks.sched.reschedule = ((oldId, newId), reaped, sched)) :
    TaskSystem.Custody ⟨sched, TaskSystem.recycle m.tasks.ids reaped⟩ := by
  apply TaskSystem.custody_reschedule hm.custody
  rw [TaskSystem.step, hres]

/-- The task that was picked is a candidate. -/
theorem candidate_of_picked (hres : m.tasks.sched.reschedule = ((oldId, newId), reaped, sched))
    (ht : sched.current = some t) : m.tasks.sched.Candidate t.id := by
  obtain ⟨-, -, hpicked, -⟩ := Scheduler.reschedule_cases hres
  rcases hpicked with ⟨t', ht', -, hcand⟩ | ⟨hnone, -⟩
  · obtain rfl := Option.some.inj (ht'.symm.trans ht)
    exact hcand
  · rw [hnone] at ht
    cases ht

/-- The current task is picked again: there is no switch, and it returns to its caller. -/
theorem Coherent.stay (hm : m.Coherent) (hresume : m.MayYield resume)
    (hres : m.tasks.sched.reschedule = ((oldId, newId), reaped, sched))
    (ht : sched.current = some t) (hsame : m.tasks.sched.currentId = t.id) :
    Coherent
      { m with
        tasks := ⟨sched, TaskSystem.recycle m.tasks.ids reaped⟩
        executing := { m.executing with resume } } := by
  obtain ⟨-, -, -, hwaiting⟩ := Scheduler.reschedule_cases hres
  have hcand : m.tasks.sched.Candidate t.id := candidate_of_picked hres ht
  rcases current_of_currentId hm.custody with ⟨-, hzero⟩ | ⟨c, hc, hcid, -⟩
  · have hpos := pos_of_candidate hm.custody hcand
    rw [← hsame, hzero] at hpos
    exact absurd hpos (Nat.lt_irrefl 0)
  have hid : c.id = t.id := by rw [← hcid, hsame]
  have hlive : c.state ≠ .dead := by
    rcases hcand with ⟨q, hq, hqid⟩ | ⟨c', hc', hstate, -⟩
    · refine absurd (Scheduler.mem_waitingIds.mpr (.inl ⟨q, hq, ?_⟩)) (not_waiting hm.custody hc)
      rw [hqid, hid]
    · obtain rfl := Option.some.inj (hc'.symm.trans hc)
      exact Scheduler.ne_dead_of_runnable hstate
  obtain ⟨howner, hresumes⟩ := saved_live hm hresume hc hlive
  have hcustody := custody_reschedule hm hres
  refine ⟨hcustody, ⟨?_, hresumes, hm.agrees.saved⟩, ?_⟩
  · rw [howner, ht, hid]
    rfl
  · intro id hmem
    rcases hwaiting id hmem with hmem' | ⟨c', hc', -, rfl⟩
    · exact hm.contexts id hmem'
    · obtain rfl := Option.some.inj (hc'.symm.trans hc)
      rw [hid] at hmem
      exact absurd hmem (not_waiting hcustody ht)

/-- A task other than the current one waited before it was picked, so its own context is in its
slot. -/
theorem Coherent.loaded (hm : m.Coherent)
    (hres : m.tasks.sched.reschedule = ((oldId, newId), reaped, sched))
    (ht : sched.current = some t) (hother : m.tasks.sched.currentId ≠ t.id) :
    (m.contexts t.id).owner = some t.id ∧ Live (m.contexts t.id) := by
  rcases candidate_of_picked hres ht with hqueued | ⟨c, hc, -, hcid⟩
  · exact hm.contexts t.id (Scheduler.mem_waitingIds.mpr (.inl hqueued))
  · exact absurd ((currentId_of_current hc).trans hcid) hother

/-- A switch that saves in the slot of the context that executes keeps the record of switches. -/
theorem Agrees.saved_snoc (h : m.Agrees) {slot : Option TaskId} (hslot : slot = m.executing.owner) :
    ∀ sw ∈ m.switches ++ [⟨slot, m.executing.owner⟩], sw.savedTo = sw.executing := by
  intro sw hsw
  rcases List.mem_append.mp hsw with hsw | hsw
  · exact h.saved sw hsw
  · rw [List.mem_singleton.mp hsw]
    exact hslot

/-- If nobody was running, whoever waits after a reschedule waited before. -/
theorem Coherent.contexts_of_idle (hm : m.Coherent)
    (hres : m.tasks.sched.reschedule = ((oldId, newId), reaped, sched))
    (hidle : m.tasks.sched.current = none) (hmem : id ∈ sched.waitingIds) :
    (m.contexts id).owner = some id ∧ Live (m.contexts id) := by
  obtain ⟨-, -, -, hwaiting⟩ := Scheduler.reschedule_cases hres
  rcases hwaiting id hmem with hmem' | ⟨c, hc, -, -⟩
  · exact hm.contexts id hmem'
  · rw [hidle] at hc
    cases hc

/-- The idle context gives way: it is saved in the idle slot, and no task's slot changes. -/
theorem Coherent.switch_of_idle (hm : m.Coherent)
    (hres : m.tasks.sched.reschedule = ((oldId, newId), reaped, sched))
    (ht : sched.current = some t) (hother : m.tasks.sched.currentId ≠ t.id)
    (hidle : m.tasks.sched.current = none) (hzero : m.tasks.sched.currentId = 0) :
    Coherent
      (contextSwitch { m with tasks := ⟨sched, TaskSystem.recycle m.tasks.ids reaped⟩ }
        m.tasks.sched.currentId t.id resume) := by
  obtain ⟨howner, hlive⟩ := hm.loaded hres ht hother
  rw [contextSwitch, if_pos hzero]
  refine ⟨custody_reschedule hm hres, ⟨?_, hlive, ?_⟩, ?_⟩
  · rw [ht]
    exact howner
  · apply hm.agrees.saved_snoc
    rw [hm.agrees.owner, hidle]
    rfl
  · intro id hmem
    exact hm.contexts_of_idle hres hidle hmem

/-- A task gives way: it is saved in its own slot, which it needs again only if it is not dead. -/
theorem Coherent.switch_of_current (hm : m.Coherent) (hresume : m.MayYield resume)
    (hres : m.tasks.sched.reschedule = ((oldId, newId), reaped, sched))
    (ht : sched.current = some t) (hother : m.tasks.sched.currentId ≠ t.id) {c : Task}
    (hc : m.tasks.sched.current = some c) (hcid : m.tasks.sched.currentId = c.id)
    (hne : c.id ≠ 0) :
    Coherent
      (contextSwitch { m with tasks := ⟨sched, TaskSystem.recycle m.tasks.ids reaped⟩ }
        m.tasks.sched.currentId t.id resume) := by
  obtain ⟨-, -, -, hwaiting⟩ := Scheduler.reschedule_cases hres
  obtain ⟨howner, hlive⟩ := hm.loaded hres ht hother
  have hne' : t.id ≠ c.id := by
    intro heq
    exact hother (hcid.trans heq.symm)
  rw [hcid, contextSwitch, if_neg hne]
  refine ⟨custody_reschedule hm hres, ⟨?_, ?_, ?_⟩, ?_⟩
  · show (Function.update m.contexts c.id _ t.id).owner = _
    rw [Function.update_of_ne hne', ht]
    exact howner
  · show Live (Function.update m.contexts c.id _ t.id)
    rw [Function.update_of_ne hne']
    exact hlive
  · apply hm.agrees.saved_snoc
    rw [hm.agrees.owner, hc]
    rfl
  · intro id hmem
    show (Function.update m.contexts c.id _ id).owner = some id ∧
      Live (Function.update m.contexts c.id _ id)
    by_cases hid : id = c.id
    · subst hid
      rw [Function.update_self]
      rcases hwaiting c.id hmem with hmem' | ⟨c', hc', hdead, -⟩
      · exact absurd hmem' (not_waiting hm.custody hc)
      · obtain rfl := Option.some.inj (hc'.symm.trans hc)
        have hsaved := saved_live hm hresume hc hdead
        exact hsaved
    · rw [Function.update_of_ne hid]
      rcases hwaiting id hmem with hmem' | ⟨c', hc', -, rfl⟩
      · exact hm.contexts id hmem'
      · obtain rfl := Option.some.inj (hc'.symm.trans hc)
        exact absurd rfl hid

/-- Another task is picked: the executing context is saved in its own slot, and the context of that
task is loaded. -/
theorem Coherent.switch (hm : m.Coherent) (hresume : m.MayYield resume)
    (hres : m.tasks.sched.reschedule = ((oldId, newId), reaped, sched))
    (ht : sched.current = some t) (hother : m.tasks.sched.currentId ≠ t.id) :
    Coherent
      (contextSwitch { m with tasks := ⟨sched, TaskSystem.recycle m.tasks.ids reaped⟩ }
        m.tasks.sched.currentId t.id resume) := by
  rcases current_of_currentId hm.custody with ⟨hidle, hzero⟩ | ⟨c, hc, hcid, hne⟩
  · exact hm.switch_of_idle hres ht hother hidle hzero
  · exact hm.switch_of_current hresume hres ht hother hc hcid hne

end Yield

/-- A yield that finds a candidate hands the CPU to it. -/
theorem Coherent.yieldNow (hm : m.Coherent) (hresume : m.MayYield resume)
    (hcandidate : ∃ id, m.tasks.sched.Candidate id) : (m.yieldNow resume).Sound := by
  rcases hres : m.tasks.sched.reschedule with ⟨⟨oldId, newId⟩, reaped, sched⟩
  obtain ⟨rfl, hnew, hpicked, -⟩ := Scheduler.reschedule_cases hres
  rcases hpicked with ⟨t, ht, hrunning, hcand⟩ | ⟨-, hno⟩
  · rw [currentId_of_current ht] at hnew
    subst hnew
    have hpos : t.id ≠ 0 := Nat.ne_of_gt (pos_of_candidate hm.custody hcand)
    refine ⟨?_, fun c hc => ?_⟩
    · rw [yieldNow_eq hres]
      by_cases hsame : m.tasks.sched.currentId = t.id
      · rw [if_neg (fun h => h.1 hsame)]
        exact hm.stay hresume hres ht hsame
      · rw [if_pos ⟨hsame, hpos⟩]
        exact hm.switch hresume hres ht hsame
    · rw [tasks_yieldNow hres] at hc
      obtain rfl := Option.some.inj (hc.symm.trans ht)
      exact hrunning
  · obtain ⟨id, hid⟩ := hcandidate
    exact absurd hid (hno id)

/-- A yield without a candidate leaves no current task, and its caller executing. -/
theorem Coherent.yieldNow_of_not_candidate (hm : m.Coherent) (resume : ResumePoint)
    (hno : ∀ id, ¬m.tasks.sched.Candidate id) :
    (m.yieldNow resume).tasks.sched.current = none ∧
      (m.yieldNow resume).executing = { m.executing with resume } ∧
      (m.tasks.sched.current = none → resume = .caller → (m.yieldNow resume).Sound) := by
  rcases hres : m.tasks.sched.reschedule with ⟨⟨oldId, newId⟩, reaped, sched⟩
  obtain ⟨-, hnew, hpicked, -⟩ := Scheduler.reschedule_cases hres
  rcases hpicked with ⟨t, -, -, hcand⟩ | ⟨hnone, -⟩
  · exact absurd hcand (hno t.id)
  have hzero : newId = 0 := by
    rw [hnew, Scheduler.currentId, hnone]
    rfl
  rw [yieldNow_eq hres, if_neg (fun h => h.2 hzero)]
  refine ⟨hnone, rfl, fun hidle hresume => ?_⟩
  refine ⟨⟨custody_reschedule hm hres, ⟨?_, .inr hresume, hm.agrees.saved⟩, ?_⟩, ?_⟩
  · show m.executing.owner = sched.current.map Task.id
    rw [hm.agrees.owner, hidle, hnone]
  · intro id hmem
    exact hm.contexts_of_idle hres hidle hmem
  · intro c hc
    exact absurd (hc.symm.trans hnone) (Option.some_ne_none c)

/-- **A yield keeps the agreement exactly when it finds a candidate**, or when the idle context
yields and returns. -/
theorem Coherent.agrees_yieldNow_iff (hm : m.Coherent) (hresume : m.MayYield resume) :
    (m.yieldNow resume).Agrees ↔
      (∃ id, m.tasks.sched.Candidate id) ∨ (m.tasks.sched.current = none ∧ resume = .caller) := by
  constructor
  · intro hagrees
    by_contra hbad
    rw [not_or, not_exists] at hbad
    obtain ⟨hnone, hexec, -⟩ := hm.yieldNow_of_not_candidate resume hbad.1
    have howner : m.executing.owner = none := by
      have h := hagrees.owner
      rw [hexec, hnone] at h
      exact h
    have hlive := hagrees.live
    rw [hexec] at hlive
    apply hbad.2
    constructor
    · rw [hm.agrees.owner, Option.map_eq_none_iff] at howner
      exact howner
    · rcases hresume with hcaller | ⟨hdead, -⟩
      · exact hcaller
      · rw [Live, hdead] at hlive
        simp at hlive
  · rintro (hcand | ⟨hidle, hcaller⟩)
    · exact (hm.yieldNow hresume hcand).agrees
    · by_cases hcand : ∃ id, m.tasks.sched.Candidate id
      · exact (hm.yieldNow hresume hcand).agrees
      · rw [not_exists] at hcand
        exact ((hm.yieldNow_of_not_candidate resume hcand).2.2 hidle hcaller).agrees

/-- A yield that keeps the agreement keeps the machine sound. -/
theorem Coherent.sound_yieldNow (hm : m.Coherent) (hresume : m.MayYield resume)
    (hagrees : (m.yieldNow resume).Agrees) : (m.yieldNow resume).Sound := by
  by_cases hcand : ∃ id, m.tasks.sched.Candidate id
  · exact hm.yieldNow hresume hcand
  · obtain ⟨hidle, hcaller⟩ := ((hm.agrees_yieldNow_iff hresume).mp hagrees).resolve_left hcand
    rw [not_exists] at hcand
    exact (hm.yieldNow_of_not_candidate resume hcand).2.2 hidle hcaller

/-! ## The operations -/

/-- Changing only the state of the current task keeps the machine coherent. -/
theorem Coherent.withSched (hm : m.Coherent) {sched : Scheduler}
    (hcustody : TaskSystem.Custody { m.tasks with sched })
    (hcurrent : sched.current.map Task.id = m.tasks.sched.current.map Task.id)
    (hwaiting : ∀ id ∈ sched.waitingIds, id ∈ m.tasks.sched.waitingIds) :
    (m.withSched sched).Coherent where
  custody := hcustody
  agrees := ⟨hm.agrees.owner.trans hcurrent.symm, hm.agrees.live, hm.agrees.saved⟩
  contexts id hid := hm.contexts id (hwaiting id hid)

theorem Coherent.blockCurrent (hm : m.Coherent) :
    (m.withSched m.tasks.sched.blockCurrent).Coherent := by
  refine hm.withSched (TaskSystem.custody_invariant.step _ .blockCurrent _ hm.custody rfl) ?_
    fun _ hid => hid
  rw [Scheduler.blockCurrent, Option.map_map]
  rfl

theorem Coherent.killCurrent (hm : m.Coherent) :
    (m.withSched m.tasks.sched.killCurrent).Coherent := by
  refine hm.withSched (TaskSystem.custody_invariant.step _ .killCurrent _ hm.custody rfl) ?_
    fun _ hid => hid
  rw [Scheduler.killCurrent, Option.map_map]
  rfl

theorem mem_waitingIds_unblock {sched : Scheduler} {taskId : TaskId}
    (h : id ∈ (sched.unblock taskId).2.waitingIds) : id ∈ sched.waitingIds := by
  rw [Scheduler.unblock] at h
  split at h
  · next task hfind =>
    rcases Scheduler.mem_waitingIds.mp h with ⟨t, ht, rfl⟩ | ⟨t, ht, rfl⟩
    · rcases Scheduler.mem_queued_push.mp ht with rfl | ht
      · exact Scheduler.mem_waitingIds.mpr (.inr ⟨task, List.mem_of_find?_eq_some hfind, rfl⟩)
      · exact Scheduler.mem_waitingIds.mpr (.inl ⟨t, ht, rfl⟩)
    · exact Scheduler.mem_waitingIds.mpr (.inr ⟨t, List.mem_of_mem_eraseP ht, rfl⟩)
  · exact h

theorem Sound.unblock (hm : m.Sound) (taskId : TaskId) :
    (m.withSched (m.tasks.sched.unblock taskId).2).Sound := by
  refine ⟨hm.toCoherent.withSched ?_ ?_ fun _ hid => mem_waitingIds_unblock hid, fun c hc => ?_⟩
  · exact TaskSystem.custody_invariant.step _ (.unblock taskId) _ hm.custody rfl
  · rw [Scheduler.current_unblock]
  · apply hm.running
    rw [← Scheduler.current_unblock m.tasks.sched taskId]
    exact hc

theorem Sound.spawn (hm : m.Sound) {priority : Priority} {stackFrames : List UInt64} {task : Task}
    {ids : IdAllocator} {sched : Scheduler}
    (hnew : Task.new m.tasks.ids priority stackFrames = (task, ids))
    (hspawn : m.tasks.sched.spawn task = some sched) :
    Sound
      { m with
        tasks := ⟨sched, ids⟩
        contexts := Function.update m.contexts task.id task.context } := by
  have hstep : m.tasks.step (.spawn priority stackFrames) = some ⟨sched, ids⟩ := by
    rw [TaskSystem.step, hnew]
    simp [hspawn]
  have hcontext : task.context = ⟨some task.id, .entry⟩ := by
    rw [Task.new] at hnew
    obtain ⟨rfl, -⟩ := Prod.mk.inj hnew
    rfl
  rw [Scheduler.spawn] at hspawn
  split at hspawn
  · obtain rfl := Option.some.inj hspawn
    have hagrees := hm.agrees
    refine ⟨⟨TaskSystem.custody_spawn hm.custody hstep,
      ⟨hagrees.owner, hagrees.live, hagrees.saved⟩, fun id hid => ?_⟩, hm.running⟩
    show (Function.update m.contexts task.id task.context id).owner = some id ∧
      Live (Function.update m.contexts task.id task.context id)
    by_cases htask : id = task.id
    · subst htask
      rw [Function.update_self, hcontext]
      exact ⟨rfl, .inl rfl⟩
    · rw [Function.update_of_ne htask]
      refine hm.contexts id (Scheduler.mem_waitingIds.mpr ?_)
      rcases Scheduler.mem_waitingIds.mp hid with ⟨t, ht, rfl⟩ | hblocked
      · rcases Scheduler.mem_queued_push.mp ht with rfl | ht
        · exact absurd rfl htask
        · exact .inl ⟨t, ht, rfl⟩
      · exact .inr hblocked
  · cases hspawn

/-- A current task that runs is a candidate of its own yield. -/
theorem Sound.candidate_or_idle (hm : m.Sound) :
    (∃ id, m.tasks.sched.Candidate id) ∨ m.tasks.sched.current = none := by
  rcases hcurrent : m.tasks.sched.current with _ | c
  · exact .inr rfl
  · exact .inl ⟨c.id, .inr ⟨c, hcurrent, .inl (hm.running c hcurrent), rfl⟩⟩

/-- When the current task does not run, the candidates are the ready tasks. -/
theorem exists_candidate_iff {sched : Scheduler}
    (hcurrent : ∀ c, sched.current = some c → c.state = .blocked ∨ c.state = .dead) :
    (∃ id, sched.Candidate id) ↔ sched.queues.queued ≠ [] := by
  constructor
  · rintro ⟨id, ⟨t, ht, -⟩ | ⟨c, hc, hstate, -⟩⟩ hnil
    · rw [hnil] at ht
      cases ht
    · rcases hcurrent c hc with h | h <;> simp [h] at hstate
  · intro hne
    obtain ⟨t, ht⟩ := List.exists_mem_of_ne_nil _ hne
    exact ⟨t.id, .inl ⟨t, ht, rfl⟩⟩

theorem state_blockCurrent {sched : Scheduler} {c : Task}
    (hc : sched.blockCurrent.current = some c) : c.state = .blocked := by
  obtain ⟨t, -, rfl⟩ := Option.map_eq_some_iff.mp hc
  rfl

theorem state_killCurrent {sched : Scheduler} {c : Task}
    (hc : sched.killCurrent.current = some c) : c.state = .dead := by
  obtain ⟨t, -, rfl⟩ := Option.map_eq_some_iff.mp hc
  rfl

/-- Blocking keeps the agreement exactly when a task is ready, or there is none to block. -/
theorem Sound.agrees_blockAndYield_iff (hm : m.Sound) :
    ((m.withSched m.tasks.sched.blockCurrent).yieldNow .caller).Agrees ↔
      m.Switchable .blockAndYield := by
  have hready : (∃ id, m.tasks.sched.blockCurrent.Candidate id) ↔
      m.tasks.sched.blockCurrent.queues.queued ≠ [] :=
    exists_candidate_iff fun c hc => .inl (state_blockCurrent hc)
  rw [hm.blockCurrent.agrees_yieldNow_iff (.inl rfl), sched_withSched, hready, or_comm]
  simp [Scheduler.blockCurrent, Switchable]

/-- Exiting keeps the agreement exactly when a task is ready. -/
theorem Sound.agrees_exitCurrent_iff (hm : m.Sound)
    (hmay : (m.withSched m.tasks.sched.killCurrent).MayYield .unreachable) :
    ((m.withSched m.tasks.sched.killCurrent).yieldNow .unreachable).Agrees ↔
      m.Switchable .exitCurrent := by
  have hready : (∃ id, m.tasks.sched.killCurrent.Candidate id) ↔
      m.tasks.sched.killCurrent.queues.queued ≠ [] :=
    exists_candidate_iff fun c hc => .inr (state_killCurrent hc)
  rw [hm.killCurrent.agrees_yieldNow_iff hmay, sched_withSched, hready]
  simp [Scheduler.killCurrent, Switchable]

/-- **An operation on a sound machine keeps the agreement exactly when it is switchable**, and then
keeps the machine sound. -/
theorem Sound.agrees_iff_switchable (hm : m.Sound) (hstep : m.step op = some m') :
    (m'.Agrees ↔ m.Switchable op) ∧ (m.Switchable op → m'.Sound) := by
  rw [step.eq_def] at hstep
  split at hstep
  · cases hstep
  have hkeeps : ∀ {op' : MachineOp}, m.Switchable op' → m'.Sound →
      (m'.Agrees ↔ m.Switchable op') ∧ (m.Switchable op' → m'.Sound) :=
    fun hsw hsound => ⟨⟨fun _ => hsw, fun _ => hsound.agrees⟩, fun _ => hsound⟩
  cases op with
  | spawn priority stackFrames =>
    rcases hnew : Task.new m.tasks.ids priority stackFrames with ⟨task, ids⟩
    simp only [hnew] at hstep
    obtain ⟨sched, hspawn, rfl⟩ := Option.map_eq_some_iff.mp hstep
    exact hkeeps trivial (hm.spawn hnew hspawn)
  | unblock taskId =>
    obtain rfl := Option.some.inj hstep
    exact hkeeps trivial (hm.unblock taskId)
  | yieldNow =>
    obtain rfl := Option.some.inj hstep
    have hmay : m.MayYield .caller := .inl rfl
    refine hkeeps trivial (hm.sound_yieldNow hmay ((hm.agrees_yieldNow_iff hmay).mpr ?_))
    exact hm.candidate_or_idle.imp_right fun hidle => ⟨hidle, rfl⟩
  | blockAndYield =>
    obtain rfl := Option.some.inj hstep
    have hiff := hm.agrees_blockAndYield_iff
    exact ⟨hiff, fun hsw => hm.blockCurrent.sound_yieldNow (.inl rfl) (hiff.mpr hsw)⟩
  | exitCurrent =>
    obtain rfl := Option.some.inj hstep
    have hmay : (m.withSched m.tasks.sched.killCurrent).MayYield .unreachable :=
      .inr ⟨rfl, fun c hc => state_killCurrent hc⟩
    have hiff := hm.agrees_exitCurrent_iff hmay
    exact ⟨hiff, fun hsw => hm.killCurrent.sound_yieldNow hmay (hiff.mpr hsw)⟩

/-! ## Runs -/

theorem sound_invariant : (system.restrict Switchable).Invariant Sound where
  init := by
    rintro m rfl
    exact sound_boot
  step := by
    rintro m op m' hm ⟨hstep, hsw⟩
    exact (hm.agrees_iff_switchable hstep).2 hsw

/-- The CPU executes no task that is blocked, and none that was cleaned up. -/
theorem Sound.executing_ne (hm : m.Sound)
    (h : id ∈ m.tasks.sched.waitingIds ∨ id ∈ m.tasks.ids.freeList) :
    m.executing.owner ≠ some id := by
  intro howner
  rw [hm.agrees.owner, Option.map_eq_some_iff] at howner
  obtain ⟨c, hc, rfl⟩ := howner
  rcases h with hwaiting | hfree
  · exact not_waiting hm.custody hc hwaiting
  · have hmem : c.id ∈ m.tasks.sched.ids := by
      rw [Scheduler.ids_eq, hc]
      simp
    exact (List.nodup_append.mp hm.custody.covers.nodup).2.2 c.id hmem c.id hfree rfl

/-- **Scheduler and CPU agree along every run of switchable operations**: the CPU executes the
current task, no blocked and no cleaned-up task, the `unreachable!` is not reached, and every switch
saved a context in its own slot.  From such a state an operation keeps the agreement exactly when it
is switchable. -/
theorem scheduler_agrees (h : (system.restrict Switchable).Reachable m) :
    m.Agrees ∧ (∀ t ∈ m.tasks.sched.blocked, m.executing.owner ≠ some t.id) ∧
      (∀ id ∈ m.tasks.ids.freeList, m.executing.owner ≠ some id) ∧
      ∀ op m', m.step op = some m' → (m'.Agrees ↔ m.Switchable op) := by
  have hm : m.Sound := sound_invariant.of_reachable h
  refine ⟨hm.agrees, fun t ht => ?_, fun id hid => ?_, fun op m' hstep => ?_⟩
  · exact hm.executing_ne (.inl (Scheduler.mem_waitingIds.mpr (.inr ⟨t, ht, rfl⟩)))
  · exact hm.executing_ne (.inr hid)
  · exact (hm.agrees_iff_switchable hstep).1

/-- Two tasks run in turn, one blocks and is woken, and the other exits. -/
def handover : List MachineOp :=
  [.spawn .normal [], .spawn .realtime [], .yieldNow, .yieldNow, .blockAndYield, .unblock 1,
    .exitCurrent]

/-- A step that is refused unless the operation is switchable. -/
def switchableStep (m : Machine) (op : MachineOp) : Option Machine :=
  if m.Switchable op then m.step op else none

theorem scheduler_agrees_handover :
    ∃ m, handover.foldlM switchableStep boot = some m ∧ m.Agrees := by
  obtain ⟨m, hm⟩ := Option.isSome_iff_exists.mp
    (show (handover.foldlM switchableStep boot).isSome by decide)
  exact ⟨m, hm, (scheduler_agrees
    (TransitionSystem.reachable_restrict_ofPartial_iff.mpr ⟨handover, hm⟩)).1⟩

/-- The only task blocks. -/
def soleTaskBlocks : List MachineOp := [.spawn .normal [], .yieldNow, .blockAndYield]

/-- The only task blocks and goes on executing: it is in the blocked list, the scheduler is idle,
and no context was switched. -/
theorem blocked_task_executes :
    ∃ m, soleTaskBlocks.foldlM step boot = some m ∧ m.executing.owner = some 1 ∧
      m.tasks.sched.current = none ∧ m.tasks.sched.blocked.map Task.id = [1] ∧ ¬m.Agrees := by
  have hrun : (soleTaskBlocks.foldlM step boot).map
      (fun m => (m.executing.owner, m.tasks.sched.current, m.tasks.sched.blocked.map Task.id)) =
      some (some 1, none, [1]) := by decide
  obtain ⟨m, hm, hstate⟩ := Option.map_eq_some_iff.mp hrun
  simp only [Prod.mk.injEq] at hstate
  obtain ⟨howner, hcurrent, hblocked⟩ := hstate
  refine ⟨m, hm, howner, hcurrent, hblocked, fun hagrees => ?_⟩
  have hidle := hagrees.owner
  rw [howner, hcurrent] at hidle
  cases hidle

end Machine

end OxideOS
