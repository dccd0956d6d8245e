import OxideOS.Agent.Containment
import OxideOS.Kernel.Recycling

/-!
# The registry and the scheduler

An agent is a task with an entry in the registry.  The two are kept in different places: creating an
agent writes to both, but killing, suspending and resuming it only write to the registry, and the
death of its task only to the scheduler.

They agree when every task that runs or may be picked belongs to an agent in the state `Running`,
and every agent has a task.  Here it is worked out which calls keep them in agreement: creating,
resuming, yielding and blocking always do; killing and suspending do when the tasks concerned are
blocked; waking does when the agent is running; and the exit of a task never does.

## Main definitions

* `AgentKernel`, `LifeOp`, `AgentKernel.exec`, `AgentKernel.system`: the calls on both
* `AgentKernel.Agrees`: the registry and the scheduler agree
* `AgentKernel.Careful`: the calls that keep them in agreement

## Main results

* `AgentKernel.agrees_step_iff`: which calls keep the agreement
* `AgentKernel.registry_agrees`: the agreement along runs
-/

namespace OxideOS

/-! ## The states of the agents -/

namespace AgentRegistry

variable {r r' : AgentRegistry} {a x : AgentId} {f : Agent → Agent}

/-- The state of an agent, if it is registered. -/
def stateOf (r : AgentRegistry) (a : AgentId) : Option AgentState := (r.get a).map Agent.state

@[simp] theorem isSome_stateOf : (r.stateOf a).isSome = (r.get a).isSome := Option.isSome_map

theorem stateOf_register (r : AgentRegistry) (agent : Agent) (x : AgentId) :
    (r.register agent).stateOf x = if x = agent.id then some agent.state else r.stateOf x := by
  rw [stateOf, get_register]
  split
  · rfl
  · rfl

theorem stateOf_modify (hf : ∀ agent, (f agent).state = agent.state) :
    (r.modify a f).stateOf x = r.stateOf x := by
  have hcomp : Agent.state ∘ f = Agent.state := funext hf
  rw [stateOf, get_modify]
  split
  · rw [Option.map_map, hcomp, stateOf]
  · rfl

theorem stateOf_withState (r : AgentRegistry) (a x : AgentId) (state : AgentState) :
    (r.modify a (Agent.withState state)).stateOf x =
      if x = a then (r.stateOf x).map fun _ => state else r.stateOf x := by
  rw [stateOf, get_modify]
  split
  · rw [stateOf, Option.map_map, Option.map_map]
    rfl
  · rfl

/-- A new agent is running, and no other agent changes its state. -/
theorem stateOf_spawn {parentId : Option AgentId} (hroom : r.childrenFull parentId = false)
    (config : AgentConfig) (a x : AgentId) :
    (r.spawn parentId config a).2.stateOf x = if x = a then some .running else r.stateOf x := by
  rw [spawn, hroom]
  cases parentId with
  | none => exact stateOf_register _ _ _
  | some parent =>
    have hadopt : ∀ agent : Agent, (agent.adopt a).state = agent.state := fun _ => rfl
    exact (stateOf_modify hadopt).trans (stateOf_register _ _ _)

/-- Calls that only set the state of one agent register nobody. -/
theorem isSome_of_stateOf {g : AgentState → AgentState} {x : AgentId}
    (hstate : r'.stateOf x = if x = a then (r.stateOf x).map g else r.stateOf x)
    (hsome : (r'.get x).isSome) : (r.get x).isSome := by
  rw [← isSome_stateOf, hstate] at hsome
  rw [← isSome_stateOf]
  split_ifs at hsome with heq
  · simpa using hsome
  · exact hsome

theorem stateOf_suspend (r : AgentRegistry) (a x : AgentId) :
    (r.suspend a).2.stateOf x =
      if x = a then (r.stateOf x).map fun _ => .suspended else r.stateOf x := by
  rw [suspend]
  split
  · next hnone =>
    split
    · next hx => simp [hx, stateOf, hnone]
    · rfl
  · exact stateOf_withState r a x .suspended

theorem stateOf_resume (r : AgentRegistry) (a x : AgentId) :
    (r.resume a).2.stateOf x =
      if x = a then (r.stateOf x).map fun _ => .running else r.stateOf x := by
  rw [resume]
  split
  · next hnone =>
    split
    · next hx => simp [hx, stateOf, hnone]
    · rfl
  · exact stateOf_withState r a x .running

/-- Whoever a kill leaves is in the state it was in. -/
theorem Kills.stateOf {result : Except String Unit} (h : r.Kills a result r')
    (hx : (r'.get x).isSome) : r'.stateOf x = r.stateOf x := by
  obtain ⟨agent', hagent'⟩ := Option.isSome_iff_exists.mp hx
  obtain ⟨agent, hagent, hstate⟩ := h.keepsStates x agent' hagent'
  rw [AgentRegistry.stateOf, AgentRegistry.stateOf, hagent, hagent', Option.map_some,
    Option.map_some, hstate]

end AgentRegistry

/-! ## The calls -/

/-- The kernel and the registry of agents. -/
structure AgentKernel where
  kernel : Kernel
  /-- `REGISTRY`. -/
  registry : AgentRegistry

/-- The calls that create, end or move agents and their tasks. -/
inductive LifeOp
  /-- `lifecycle::spawn`. -/
  | spawn (parentId : Option AgentId) (config : AgentConfig)
  /-- `lifecycle::kill`. -/
  | kill (agentId : AgentId)
  /-- `lifecycle::suspend`. -/
  | suspend (agentId : AgentId)
  /-- `lifecycle::resume`. -/
  | resume (agentId : AgentId)
  | yieldNow
  | blockAndYield
  | unblock (taskId : TaskId)
  | exitCurrent

namespace AgentKernel

/-- The kernel after boot, without agents. -/
def boot (frames : Option BitmapFrameAllocator) (pageTable : PageTable) : AgentKernel :=
  ⟨.boot frames pageTable, .new⟩

def sched (s : AgentKernel) : Scheduler := s.kernel.tasks.sched

/-- `lifecycle::spawn`.  `none` is a panic while the task is created. -/
def spawn (s : AgentKernel) (parentId : Option AgentId) (config : AgentConfig) :
    Option (Except String AgentId × AgentKernel) :=
  if s.registry.childrenFull parentId then some (.error "parent has reached max children", s)
  else do
    let agentId := s.kernel.tasks.ids.alloc.1
    let kernel ← s.kernel.spawnTask .normal
    let (result, registry) := s.registry.spawn parentId config agentId
    some (result, ⟨kernel.registerMailbox agentId, registry⟩)

/-- Calls on the kernel alone. -/
def calls (s : AgentKernel) (ops : List KernelOp) : Option AgentKernel :=
  (ops.foldlM Kernel.step s.kernel).map fun kernel => { s with kernel }

/-- The state after a call; `none` is a panic, or that the fuel of a kill ran out. -/
def exec (fuel : Nat) (s : AgentKernel) : LifeOp → Option AgentKernel
  | .spawn parentId config => (s.spawn parentId config).map Prod.snd
  | .kill agentId =>
    (AgentRegistry.kill fuel s.registry agentId).map fun (_, registry) => { s with registry }
  | .suspend agentId => some { s with registry := (s.registry.suspend agentId).2 }
  | .resume agentId => some { s with registry := (s.registry.resume agentId).2 }
  | .yieldNow => s.calls [.reschedule]
  -- interrupts are disabled between the two calls
  | .blockAndYield => s.calls [.blockCurrent, .reschedule]
  | .unblock taskId => s.calls [.unblock taskId]
  | .exitCurrent => s.calls [.killCurrent, .reschedule]

/-- Any calls after boot. -/
def system (frames : Option BitmapFrameAllocator) (pageTable : PageTable) :
    TransitionSystem AgentKernel LifeOp where
  Init s := s = boot frames pageTable
  Step s op s' := ∃ fuel, s.exec fuel op = some s'

/-- **The registry and the scheduler agree.** The current task and the tasks in the ready queues
belong to agents that are running, and every agent is a task of the scheduler. -/
structure Agrees (s : AgentKernel) : Prop where
  running : ∀ id ∈ s.sched.runnableIds, s.registry.stateOf id = some .running
  known : ∀ id, (s.registry.get id).isSome → id ∈ s.sched.ids

/-- The calls that keep the registry and the scheduler in agreement. -/
def Careful (s : AgentKernel) : LifeOp → Prop
  | .kill agentId => ∀ id ∈ s.sched.runnableIds, ¬s.registry.TakesAway agentId id
  | .suspend agentId => agentId ∉ s.sched.runnableIds
  | .unblock taskId => taskId ∈ s.sched.blockedIds → s.registry.stateOf taskId = some .running
  | .exitCurrent => s.sched.current = none
  | .spawn _ _ | .resume _ | .yieldNow | .blockAndYield => True

variable {s s' : AgentKernel} {fuel : Nat} {k k' : Kernel}
  {frames : Option BitmapFrameAllocator} {pageTable : PageTable}

/-! ## What the calls do to the scheduler -/

/-- What holds of the tasks between any two calls: no id is lost or duplicated, and the current task
is neither marked as blocked nor as dead. -/
structure Settled (s : AgentKernel) : Prop where
  custody : s.kernel.tasks.Custody
  current : ∀ task, s.sched.current = some task → task.state = .running

/-- The id of the current task. -/
def currentIds (s : AgentKernel) : List TaskId := s.sched.current.toList.map Task.id

theorem custody_of_calls {ops : List KernelOp} (hs : s.kernel.tasks.Custody)
    (h : s.calls ops = some s') : s'.kernel.tasks.Custody := by
  obtain ⟨kernel, hcalls, rfl⟩ := Option.map_eq_some_iff.mp h
  have hrun : (Kernel.system none .empty).Run s.kernel ops kernel :=
    TransitionSystem.run_ofPartial_iff.mpr hcalls
  obtain ⟨taskOps, htasks⟩ := Kernel.tasks_projects.run hrun
  exact htasks.preserves TaskSystem.custody_invariant.step hs

/-- The scheduler, possibly with a mark on the current task, was rescheduled. -/
structure Rescheduled (s : AgentKernel) (marked : Scheduler) (s' : AgentKernel) : Prop where
  registry : s'.registry = s.registry
  custody : s'.kernel.tasks.Custody
  sched : ∃ change reaped, marked.reschedule = (change, reaped, s'.sched)

theorem rescheduled_of_calls (marks : List KernelOp) (hs : s.Settled)
    (hmarks : marks.foldlM Kernel.step s.kernel = some k)
    (h : s.calls (marks ++ [.reschedule]) = some s') : Rescheduled s k.tasks.sched s' := by
  have hcustody := custody_of_calls hs.custody h
  obtain ⟨k', hcalls, rfl⟩ := Option.map_eq_some_iff.mp h
  rw [List.foldlM_append, hmarks, Option.bind_eq_bind, Option.bind_some, List.foldlM_cons,
    Option.bind_eq_bind, Option.bind_eq_some_iff] at hcalls
  obtain ⟨k'', hreschedule, hk⟩ := hcalls
  obtain rfl := Option.some.inj hk
  obtain ⟨change, reaped, sched, hres, frames, mailboxes, rfl⟩ :=
    Kernel.reschedule_cases hreschedule
  exact ⟨rfl, hcustody, change, reaped, hres⟩

namespace Rescheduled

variable {marked : Scheduler}

theorem settled (h : Rescheduled s marked s') : s'.Settled := by
  obtain ⟨-, hcustody, change, reaped, hres⟩ := h
  exact ⟨hcustody, fun task htask => Scheduler.state_current_reschedule hres htask⟩

/-- Who is taken from the runnable tasks, and who from all tasks. -/
theorem perm (h : Rescheduled s marked s') :
    marked.runnableIds.Perm (marked.dyingIds ++ s'.sched.runnableIds ++ marked.blockingIds) ∧
      marked.ids.Perm (marked.dyingIds ++ s'.sched.ids) := by
  obtain ⟨-, -, change, reaped, hres⟩ := h
  rw [Scheduler.dyingIds, ← Scheduler.toList_reaped hres]
  exact ⟨(Scheduler.runnableIds_reschedule hres).symm, Scheduler.ids_reschedule hres⟩

end Rescheduled

/-- Yielding takes nobody away. -/
theorem rescheduled_yieldNow (hs : s.Settled) (h : s.exec fuel .yieldNow = some s') :
    Rescheduled s s.sched s' ∧ s'.sched.runnableIds.Perm s.sched.runnableIds ∧
      s'.sched.ids.Perm s.sched.ids := by
  have hres : Rescheduled s s.sched s' := rescheduled_of_calls [] hs rfl h
  obtain ⟨hrunnable, hids⟩ := hres.perm
  obtain ⟨hdying, hblocking⟩ := Scheduler.marked_of_running hs.current
  rw [hdying, hblocking, List.nil_append, List.append_nil] at hrunnable
  rw [hdying] at hids
  exact ⟨hres, hrunnable.symm, hids.symm⟩

/-- Blocking takes the caller from the runnable tasks. -/
theorem rescheduled_blockAndYield (hs : s.Settled) (h : s.exec fuel .blockAndYield = some s') :
    Rescheduled s s.sched.blockCurrent s' ∧
      s.sched.runnableIds.Perm (s'.sched.runnableIds ++ s.currentIds) ∧
      s'.sched.ids.Perm s.sched.ids := by
  have hres : Rescheduled s s.sched.blockCurrent s' :=
    rescheduled_of_calls [.blockCurrent] hs rfl h
  obtain ⟨hrunnable, hids⟩ := hres.perm
  obtain ⟨hdying, hblocking⟩ := s.sched.marked_blockCurrent
  rw [hdying, hblocking, List.nil_append, Scheduler.runnableIds_blockCurrent] at hrunnable
  rw [hdying, Scheduler.ids_blockCurrent] at hids
  exact ⟨hres, hrunnable, hids.symm⟩

/-- Exiting takes the caller from all tasks. -/
theorem rescheduled_exitCurrent (hs : s.Settled) (h : s.exec fuel .exitCurrent = some s') :
    Rescheduled s s.sched.killCurrent s' ∧
      s.sched.runnableIds.Perm (s.currentIds ++ s'.sched.runnableIds) ∧
      s.sched.ids.Perm (s.currentIds ++ s'.sched.ids) := by
  have hres : Rescheduled s s.sched.killCurrent s' :=
    rescheduled_of_calls [.killCurrent] hs rfl h
  obtain ⟨hrunnable, hids⟩ := hres.perm
  obtain ⟨hdying, hblocking⟩ := s.sched.marked_killCurrent
  rw [hdying, hblocking, List.append_nil, Scheduler.runnableIds_killCurrent] at hrunnable
  rw [hdying, Scheduler.ids_killCurrent] at hids
  exact ⟨hres, hrunnable, hids⟩

/-- Creating an agent is refused, or creates a ready task under an id that no task has. -/
theorem spawn_cases {parentId : Option AgentId} {config : AgentConfig} (hs : s.Settled)
    (h : s.exec fuel (.spawn parentId config) = some s') :
    s' = s ∨ s.registry.childrenFull parentId = false ∧ ∃ agentId, agentId ∉ s.sched.ids ∧
      s'.registry = (s.registry.spawn parentId config agentId).2 ∧
      s'.sched.runnableIds.Perm (agentId :: s.sched.runnableIds) ∧
      s'.sched.ids.Perm (agentId :: s.sched.ids) ∧ s'.Settled := by
  obtain ⟨⟨result, s''⟩, hspawn, rfl⟩ := Option.map_eq_some_iff.mp h
  rw [spawn] at hspawn
  split at hspawn
  · exact .inl (Prod.mk.inj (Option.some.inj hspawn)).2.symm
  · next hroom =>
    rw [Option.bind_eq_bind, Option.bind_eq_some_iff] at hspawn
    obtain ⟨k, hk, hs''⟩ := hspawn
    rcases hregistry : s.registry.spawn parentId config s.kernel.tasks.ids.alloc.1 with
      ⟨answer, registry⟩
    rw [hregistry] at hs''
    obtain ⟨-, rfl⟩ := Prod.mk.inj (Option.some.inj hs'')
    obtain ⟨stackFrames, tasks, htasks, pageTable, frames, rfl⟩ := Kernel.spawnTask_eq_some hk
    have hcustody := TaskSystem.custody_spawn hs.custody htasks
    obtain ⟨task, hnew, hsched⟩ := TaskSystem.step_spawn htasks
    have hid : (Task.new s.kernel.tasks.ids .normal stackFrames).1.id =
        s.kernel.tasks.ids.alloc.1 := rfl
    rw [hnew] at hid
    obtain ⟨hrunnable, hcurrent⟩ := Scheduler.runnableIds_spawn hsched
    have hids := Scheduler.ids_spawn hsched
    rw [hid] at hrunnable hids
    refine .inr ⟨Bool.eq_false_of_not_eq_true hroom, _, ?_, (congrArg Prod.snd hregistry).symm,
      hrunnable, hids, hcustody, ?_⟩
    · have hnodup := (hids.nodup_iff.mp (List.nodup_append.mp hcustody.covers.nodup).1)
      exact (List.nodup_cons.mp hnodup).1
    · intro task htask
      exact hs.current task (hcurrent ▸ htask)

theorem unblock_cases {taskId : TaskId} (hs : s.Settled)
    (h : s.exec fuel (.unblock taskId) = some s') :
    s'.registry = s.registry ∧ s'.sched = (s.sched.unblock taskId).2 ∧ s'.Settled := by
  have hcustody := custody_of_calls hs.custody h
  rw [exec, calls] at h
  obtain ⟨k, hcalls, rfl⟩ := Option.map_eq_some_iff.mp h
  obtain rfl := Option.some.inj hcalls
  refine ⟨rfl, rfl, hcustody, fun task htask => hs.current task ?_⟩
  exact (Scheduler.current_unblock s.sched taskId).symm.trans htask

/-! ## Which calls keep the agreement -/

/-- Fewer runnable tasks and not fewer tasks agree with the same registry. -/
theorem Agrees.of_subset (h : s.Agrees) (hregistry : s'.registry = s.registry)
    (hrunnable : s'.sched.runnableIds ⊆ s.sched.runnableIds) (hids : s.sched.ids ⊆ s'.sched.ids) :
    s'.Agrees where
  running id hid := by
    rw [hregistry]
    exact h.running id (hrunnable hid)
  known id hid := by
    rw [hregistry] at hid
    exact hids (h.known id hid)

theorem agrees_spawn {parentId : Option AgentId} {config : AgentConfig} (hs : s.Settled)
    (hagrees : s.Agrees) (h : s.exec fuel (.spawn parentId config) = some s') : s'.Agrees := by
  rcases spawn_cases hs h with rfl | ⟨hroom, agentId, hfresh, hregistry, hrunnable, hids, -⟩
  · exact hagrees
  · have hstate := AgentRegistry.stateOf_spawn hroom config agentId
    rw [← hregistry] at hstate
    constructor
    · intro id hid
      rw [hstate]
      split_ifs with heq
      · rfl
      · exact hagrees.running id ((List.mem_cons.mp (hrunnable.mem_iff.mp hid)).resolve_left heq)
    · intro id hid
      rw [hids.mem_iff, List.mem_cons]
      rw [← AgentRegistry.isSome_stateOf, hstate] at hid
      split_ifs at hid with heq
      · exact .inl heq
      · exact .inr (hagrees.known id (AgentRegistry.isSome_stateOf ▸ hid))

theorem agrees_kill_iff {agentId : AgentId} (hagrees : s.Agrees)
    (h : s.exec fuel (.kill agentId) = some s') : s'.Agrees ↔ s.Careful (.kill agentId) := by
  obtain ⟨⟨result, r'⟩, hkill, rfl⟩ := Option.map_eq_some_iff.mp h
  have hkills : s.registry.Kills agentId result r' := ⟨fuel, hkill⟩
  constructor
  · rintro hafter id hid ⟨result', r'', hkills', -, hnone⟩
    obtain ⟨-, rfl⟩ := hkills.unique hkills'
    have hrunning := hafter.running id hid
    rw [AgentRegistry.stateOf, hnone] at hrunning
    cases hrunning
  · intro hcareful
    constructor
    · intro id hid
      have hrunning := hagrees.running id hid
      have hleft : (r'.get id).isSome := by
        by_contra hgone
        refine hcareful id hid ⟨result, r', hkills, ?_, by simpa using hgone⟩
        rw [← AgentRegistry.isSome_stateOf, hrunning]
        rfl
      exact (hkills.stateOf hleft).trans hrunning
    · intro id hid
      apply hagrees.known id
      by_contra hnone
      have hgone := hkills.shrinks.get_eq_none (Option.not_isSome_iff_eq_none.mp hnone)
      rw [hgone] at hid
      cases hid

theorem agrees_suspend_iff {agentId : AgentId} (hagrees : s.Agrees)
    (h : s.exec fuel (.suspend agentId) = some s') :
    s'.Agrees ↔ s.Careful (.suspend agentId) := by
  obtain rfl := Option.some.inj h
  have hstate := s.registry.stateOf_suspend agentId
  constructor
  · intro hafter hmem
    have hrunning := hafter.running agentId hmem
    rw [hstate, if_pos rfl, hagrees.running agentId hmem] at hrunning
    cases hrunning
  · intro hcareful
    constructor
    · intro id hid
      rw [hstate, if_neg]
      · exact hagrees.running id hid
      · rintro rfl
        exact hcareful hid
    · intro id hid
      exact hagrees.known id (AgentRegistry.isSome_of_stateOf (hstate id) hid)

theorem agrees_resume {agentId : AgentId} (hagrees : s.Agrees)
    (h : s.exec fuel (.resume agentId) = some s') : s'.Agrees := by
  obtain rfl := Option.some.inj h
  have hstate := s.registry.stateOf_resume agentId
  constructor
  · intro id hid
    rw [hstate, hagrees.running id hid]
    split <;> rfl
  · intro id hid
    exact hagrees.known id (AgentRegistry.isSome_of_stateOf (hstate id) hid)

theorem agrees_unblock_iff {taskId : TaskId} (hs : s.Settled) (hagrees : s.Agrees)
    (h : s.exec fuel (.unblock taskId) = some s') :
    s'.Agrees ↔ s.Careful (.unblock taskId) := by
  obtain ⟨hregistry, hsched, -⟩ := unblock_cases hs h
  by_cases hblocked : taskId ∈ s.sched.blockedIds
  · have hrunnable := Scheduler.runnableIds_unblock hblocked
    have hids := s.sched.ids_unblock taskId
    rw [← hsched] at hrunnable hids
    constructor
    · intro hafter _
      rw [← hregistry]
      exact hafter.running taskId (hrunnable.mem_iff.mpr List.mem_cons_self)
    · intro hcareful
      constructor
      · intro id hid
        rw [hregistry]
        rcases List.mem_cons.mp (hrunnable.mem_iff.mp hid) with rfl | hid
        · exact hcareful hblocked
        · exact hagrees.running id hid
      · intro id hid
        rw [hregistry] at hid
        exact hids.mem_iff.mpr (hagrees.known id hid)
  · rw [Scheduler.unblock_of_notMem hblocked] at hsched
    refine iff_of_true ?_ fun hmem => absurd hmem hblocked
    apply hagrees.of_subset hregistry
    · rw [hsched]
      exact List.Subset.refl _
    · rw [hsched]
      exact List.Subset.refl _

/-- The agent of a task that exits is still registered, and has no task any more. -/
theorem agrees_exitCurrent_iff (hs : s.Settled) (hagrees : s.Agrees)
    (h : s.exec fuel .exitCurrent = some s') : s'.Agrees ↔ s.Careful .exitCurrent := by
  obtain ⟨hres, hrunnable, hids⟩ := rescheduled_exitCurrent hs h
  rw [currentIds] at hrunnable hids
  constructor
  · intro hafter
    by_contra hsome
    obtain ⟨task, hcurrent⟩ := Option.ne_none_iff_exists'.mp hsome
    rw [hcurrent] at hrunnable hids
    have hrunning := hagrees.running task.id (hrunnable.mem_iff.mpr List.mem_cons_self)
    have hknown : task.id ∈ s'.sched.ids := by
      apply hafter.known
      rw [hres.registry, ← AgentRegistry.isSome_stateOf, hrunning]
      rfl
    have hnodup := hids.nodup_iff.mp (List.nodup_append.mp hs.custody.covers.nodup).1
    exact (List.nodup_cons.mp hnodup).1 hknown
  · intro hnone
    rw [Careful] at hnone
    rw [hnone] at hrunnable hids
    exact hagrees.of_subset hres.registry hrunnable.symm.subset hids.subset

/-- **Which calls keep the registry and the scheduler in agreement.** -/
theorem agrees_step_iff {op : LifeOp} (hs : s.Settled) (hagrees : s.Agrees)
    (h : s.exec fuel op = some s') : s'.Agrees ↔ s.Careful op := by
  cases op with
  | spawn parentId config => exact iff_of_true (agrees_spawn hs hagrees h) trivial
  | kill agentId => exact agrees_kill_iff hagrees h
  | suspend agentId => exact agrees_suspend_iff hagrees h
  | resume agentId => exact iff_of_true (agrees_resume hagrees h) trivial
  | yieldNow =>
    obtain ⟨hres, hrunnable, hids⟩ := rescheduled_yieldNow hs h
    exact iff_of_true (hagrees.of_subset hres.registry hrunnable.subset hids.symm.subset) trivial
  | blockAndYield =>
    obtain ⟨hres, hrunnable, hids⟩ := rescheduled_blockAndYield hs h
    have hfewer := List.Subset.trans (List.subset_append_left _ _) hrunnable.symm.subset
    exact iff_of_true (hagrees.of_subset hres.registry hfewer hids.symm.subset) trivial
  | unblock taskId => exact agrees_unblock_iff hs hagrees h
  | exitCurrent => exact agrees_exitCurrent_iff hs hagrees h

/-! ## Runs -/

theorem Settled.step {op : LifeOp} (hs : s.Settled) (h : s.exec fuel op = some s') :
    s'.Settled := by
  cases op with
  | spawn parentId config =>
    rcases spawn_cases hs h with rfl | ⟨-, agentId, -, -, -, -, hsettled⟩
    · exact hs
    · exact hsettled
  | kill agentId =>
    obtain ⟨⟨result, r'⟩, -, rfl⟩ := Option.map_eq_some_iff.mp h
    exact ⟨hs.custody, hs.current⟩
  | suspend agentId =>
    obtain rfl := Option.some.inj h
    exact ⟨hs.custody, hs.current⟩
  | resume agentId =>
    obtain rfl := Option.some.inj h
    exact ⟨hs.custody, hs.current⟩
  | yieldNow => exact (rescheduled_yieldNow hs h).1.settled
  | blockAndYield => exact (rescheduled_blockAndYield hs h).1.settled
  | unblock taskId => exact (unblock_cases hs h).2.2
  | exitCurrent => exact (rescheduled_exitCurrent hs h).1.settled

theorem settled_boot : (boot frames pageTable).Settled where
  custody := TaskSystem.custody_of_reachable (TransitionSystem.Reachable.init rfl)
  current task htask := by cases htask

theorem agrees_boot : (boot frames pageTable).Agrees where
  running id hid := by cases hid
  known id hid := by simp [boot] at hid

/-- Along careful runs the registry and the scheduler agree. -/
theorem invariant_careful : ((system frames pageTable).restrict Careful).Invariant
    fun s => s.Settled ∧ s.Agrees where
  init := by
    rintro s rfl
    exact ⟨settled_boot, agrees_boot⟩
  step := by
    rintro s op s' ⟨hs, hagrees⟩ ⟨⟨fuel, hstep⟩, hcareful⟩
    exact ⟨hs.step hstep, (agrees_step_iff hs hagrees hstep).mpr hcareful⟩

/-- **When the registry and the scheduler agree.** As long as no agent with a runnable task is
killed or suspended, no task of an agent that is not running is woken, and no task exits, every
runnable task belongs to a running agent and every agent has a task; and after such a run, the next
call keeps it so exactly when it is again such a call. -/
theorem registry_agrees (frames : Option BitmapFrameAllocator) (pageTable : PageTable)
    (s : AgentKernel) (h : ((system frames pageTable).restrict Careful).Reachable s) :
    s.Agrees ∧ ∀ op s', (system frames pageTable).Step s op s' → (s'.Agrees ↔ s.Careful op) := by
  obtain ⟨hs, hagrees⟩ := invariant_careful.of_reachable h
  refine ⟨hagrees, ?_⟩
  rintro op s' ⟨fuel, hstep⟩
  exact agrees_step_iff hs hagrees hstep

/-! ## An agent is killed -/

/-- A test for careful calls, in which a kill is run with some fuel. -/
def Checked (fuel : Nat) (s : AgentKernel) : LifeOp → Prop
  | .kill agentId =>
    ∃ x ∈ AgentRegistry.kill fuel s.registry agentId,
      ∀ id ∈ s.sched.runnableIds, (x.2.get id).isSome
  | op => s.Careful op

instance (fuel : Nat) (s : AgentKernel) : (op : LifeOp) → Decidable (Checked fuel s op)
  | .kill _ => inferInstanceAs (Decidable (∃ x ∈ _, _))
  | .suspend _ => inferInstanceAs (Decidable (_ ∉ _))
  | .unblock _ => inferInstanceAs (Decidable (_ → _))
  | .exitCurrent => inferInstanceAs (Decidable (_ = _))
  | .spawn _ _ | .resume _ | .yieldNow | .blockAndYield => .isTrue trivial

theorem careful_of_checked {op : LifeOp} (h : Checked fuel s op) : s.Careful op := by
  cases op with
  | kill agentId =>
    obtain ⟨⟨result, r'⟩, hkill, hleft⟩ := h
    rintro id hid ⟨result', r'', hkills, -, hnone⟩
    obtain ⟨-, rfl⟩ := AgentRegistry.Kills.unique ⟨fuel, hkill⟩ hkills
    have hsome := hleft id hid
    rw [hnone] at hsome
    cases hsome
  | _ => exact h

theorem reachable_of_checked {ops : List LifeOp}
    (h : ops.foldlM (fun s op => if Checked fuel s op then s.exec fuel op else none)
      (boot frames pageTable) = some s) :
    ((system frames pageTable).restrict Careful).Reachable s :=
  TransitionSystem.reachable_restrict_of_test rfl
    (fun _ _ _ hstep hchecked => ⟨⟨fuel, hstep⟩, careful_of_checked hchecked⟩) h

def worker : AgentConfig := ⟨"worker", .permanent, ⟨4⟩⟩

/-- An agent and its child; the agent blocks, is suspended, resumed and woken, and then the child
blocks and is killed. -/
def blockedChildKilled : List LifeOp :=
  [.spawn none worker, .spawn (some 1) worker, .yieldNow, .blockAndYield, .suspend 1, .resume 1,
    .unblock 1, .yieldNow, .yieldNow, .blockAndYield, .kill 2]

theorem registry_agrees_blockedChildKilled :
    ∃ s, ((system Kernel.sixteenFrames .empty).restrict Careful).Reachable s ∧
      s.sched.runnableIds = [1] ∧ s.sched.blockedIds = [2] ∧ s.registry.get 2 = none ∧
      s.Agrees := by
  have hrun : (blockedChildKilled.foldlM
      (fun s op => if Checked 8 s op then s.exec 8 op else none)
      (boot Kernel.sixteenFrames .empty)).map
      (fun s => (s.sched.runnableIds, s.sched.blockedIds, s.registry.get 2)) =
      some ([1], [2], none) := by
    decide +kernel
  obtain ⟨s, hs, hstate⟩ := Option.map_eq_some_iff.mp hrun
  simp only [Prod.mk.injEq] at hstate
  have hreach := reachable_of_checked hs
  exact ⟨s, hreach, hstate.1, hstate.2.1, hstate.2.2, (registry_agrees _ _ s hreach).1⟩

/-- An agent is killed while its task runs: the task goes on running without an agent. -/
theorem killed_agent_runs :
    ∃ s, (system Kernel.sixteenFrames .empty).Reachable s ∧ s.sched.currentId = 1 ∧
      s.registry.get 1 = none ∧ ¬s.Agrees := by
  have hrun : (([.spawn none worker, .yieldNow, .kill 1, .yieldNow] : List LifeOp).foldlM (exec 8)
      (boot Kernel.sixteenFrames .empty)).map
      (fun s => (s.sched.currentId, s.sched.runnableIds, s.registry.get 1)) =
      some (1, [1], none) := by
    decide +kernel
  obtain ⟨s, hs, hstate⟩ := Option.map_eq_some_iff.mp hrun
  simp only [Prod.mk.injEq] at hstate
  obtain ⟨hcurrent, hrunnable, hnone⟩ := hstate
  obtain ⟨s₀, ops, rfl, hops⟩ := TransitionSystem.reachable_ofPartial_iff.mpr ⟨_, hs⟩
  refine ⟨s, ⟨_, ops, rfl, hops.imp fun _ _ _ hstep => ⟨8, hstep⟩⟩, hcurrent, hnone, ?_⟩
  intro hagrees
  have hrunning := hagrees.running 1 (hrunnable ▸ List.mem_singleton_self 1)
  rw [AgentRegistry.stateOf, hnone] at hrunning
  cases hrunning

end AgentKernel

end OxideOS
