import OxideOS.Task.Machine
import OxideOS.Task.Resumption

/-!
# The scheduler and the registers

The machine of the scheduler does not have registers: of a context it keeps whose it is and where it
resumes, and a switch moves that from slot to slot.  Here it runs side by side with the processor.
The scheduler picks the two ids for which `yield_now` calls `context_switch`; the processor saves
its registers in the slot of the one and takes them from the slot of the other, whoever it executes.

As long as an operation that gives up the processor finds a ready task, the slot is that of the task
that executes, and the processor goes on where the machine says.

## Main definitions

* `ContextSwitch.Computer`: the machine and the processor
* `ContextSwitch.yielding`, `ContextSwitch.switchIds`: what `yield_now` does for an operation
* `ContextSwitch.Computer.Step`, `ContextSwitch.Computer.system`: both take a step
* `ContextSwitch.Follows`: the machine has the contexts of the tasks that wait

## Main results

* `ContextSwitch.Follows.step`: a step keeps the machine and the processor together
* `ContextSwitch.machine_follows_processor`: they are together in every run
-/

namespace OxideOS

namespace ContextSwitch

/-- The machine of the scheduler, and the processor with its registers and its memory. -/
structure Computer where
  machine : Machine
  world : World (Fin maxTasks)

/-- What happens: the task that executes computes, or it calls the scheduler. -/
inductive ComputerOp
  | work (cpu : X64.Cpu)
  | call (op : MachineOp)

/-- What an operation hands to `yield_now`: the scheduler, and where its caller resumes. -/
def yielding (m : Machine) : MachineOp → Option (Scheduler × ResumePoint)
  | .yieldNow => some (m.tasks.sched, .caller)
  | .blockAndYield => some (m.tasks.sched.blockCurrent, .caller)
  | .exitCurrent => some (m.tasks.sched.killCurrent, .unreachable)
  | .spawn _ _ | .unblock _ => none

/-- The ids for which `yield_now` calls `context_switch`, if it does. -/
def switchIds (sched : Scheduler) : Option (TaskId × TaskId) :=
  let ((oldId, newId), _, _) := sched.reschedule
  if oldId ≠ newId ∧ newId ≠ 0 then some (oldId, newId) else none

/-- The processor calls `context_switch` with the slots of these ids, whoever it executes. -/
def World.switchTo (image : Image) (k : Statics) (w : World (Fin maxTasks)) (old new : Fin maxTasks)
    (ret : UInt64) : World (Fin maxTasks) where
  cpu := image.switch w.cpu (k.oldContext old) (k.newContext new) ret
  current := new
  status := Function.update (Function.update w.status w.current (.away w.cpu.regs ret)) new .running

namespace Computer

/-- The machine and the processor take a step.  `resumeAt` tells apart the return addresses that
`context_switch` finds on the stacks. -/
inductive Step (image : Image) (k : Statics) (resumeAt : UInt64 → ResumePoint) :
    Computer → ComputerOp → Computer → Prop
  | work {m : Machine} {w : World (Fin maxTasks)} {cpu : X64.Cpu}
      (hok : w.Allowed k.layout (.work cpu)) :
      Step image k resumeAt ⟨m, w⟩ (.work cpu) ⟨m, w.step image k.layout (.work cpu)⟩
  /-- The initial context goes to the slot of the new task. -/
  | spawn {m m' : Machine} {w : World (Fin maxTasks)} {priority : Priority}
      {stackFrames : List UInt64} {id : Fin maxTasks} (entry : UInt64)
      (hstep : m.step (.spawn priority stackFrames) = some m')
      (hid : (Task.new m.tasks.ids priority stackFrames).1.id = id) :
      Step image k resumeAt ⟨m, w⟩ (.call (.spawn priority stackFrames))
        ⟨m', w.step image k.layout (.spawn id entry)⟩
  | unblock {m m' : Machine} {w : World (Fin maxTasks)} {taskId : TaskId}
      (hstep : m.step (.unblock taskId) = some m') :
      Step image k resumeAt ⟨m, w⟩ (.call (.unblock taskId)) ⟨m', w⟩
  /-- `yield_now` returns without a switch. -/
  | stay {m m' : Machine} {w : World (Fin maxTasks)} {op : MachineOp} {sched : Scheduler}
      {resume : ResumePoint} (hyield : yielding m op = some (sched, resume))
      (hids : switchIds sched = none) (hstep : m.step op = some m') :
      Step image k resumeAt ⟨m, w⟩ (.call op) ⟨m', w⟩
  /-- `yield_now` switches, from a call on the stack of the task that executes. -/
  | switch {m m' : Machine} {w : World (Fin maxTasks)} {op : MachineOp} {sched : Scheduler}
      {ret : UInt64} {old new : Fin maxTasks} (hyield : yielding m op = some (sched, resumeAt ret))
      (hids : switchIds sched = some (old.val, new.val)) (hstep : m.step op = some m')
      (hstack : k.layout.InStack w.current (w.cpu.regs .rsp)) :
      Step image k resumeAt ⟨m, w⟩ (.call op) ⟨m', w.switchTo image k old new ret⟩

/-- Any steps from the boot code. -/
def system (image : Image) (k : Statics) (resumeAt : UInt64 → ResumePoint) :
    TransitionSystem Computer ComputerOp where
  Init c := c.machine = .boot ∧ c.world.Initial ∧ c.world.current.val = 0
  Step := Step image k resumeAt

/-- An operation that gives up the processor finds a ready task. -/
def Switchable (c : Computer) : ComputerOp → Prop
  | .work _ => True
  | .call op => c.machine.Switchable op

end Computer

/-! ## What the machine keeps -/

/-- The owner of the context of a task: `none` is the boot code, which has the id 0. -/
def ownerOf (id : Fin maxTasks) : Option TaskId := if id.val = 0 then none else some id.val

/-- What the machine keeps of a task that waits. -/
def Status.context (resumeAt : UInt64 → ResumePoint) (id : Fin maxTasks) :
    Status → Option OxideOS.CpuContext
  | .fresh _ => some ⟨ownerOf id, .entry⟩
  | .away _ ret => some ⟨ownerOf id, resumeAt ret⟩
  | .absent => none
  | .running => none

/-- The machine executes the task that executes, and has the contexts of the tasks that wait for the
scheduler. -/
structure Follows (image : Image) (k : Statics) (resumeAt : UInt64 → ResumePoint) (c : Computer) :
    Prop where
  machine : c.machine.Sound
  world : c.world.Sound image k.layout
  executing : c.machine.executing.owner = ownerOf c.world.current
  waiting : ∀ id ∈ c.machine.tasks.sched.waitingIds, ∃ i : Fin maxTasks, i.val = id ∧
    (c.world.status i).context resumeAt i = some (c.machine.contexts id)

variable {image : Image} {k : Statics} {resumeAt : UInt64 → ResumePoint} {c c' : Computer}
  {m m' : Machine} {w : World (Fin maxTasks)} {op : MachineOp} {sched : Scheduler}
  {resume : ResumePoint} {old new id : Fin maxTasks} {oldId newId : TaskId} {ret : UInt64}

theorem ownerOf_getD (id : Fin maxTasks) : (ownerOf id).getD 0 = id.val := by
  rw [ownerOf]
  split
  · next h => exact h.symm
  · rfl

theorem Status.owner_of_context {st : Status} {ctx : OxideOS.CpuContext}
    (h : st.context resumeAt id = some ctx) : ctx.owner = ownerOf id := by
  cases st with
  | fresh entry => exact (Option.some.inj h) ▸ rfl
  | away regs ret => exact (Option.some.inj h) ▸ rfl
  | absent => cases h
  | running => cases h

theorem Status.waits_of_context {st : Status} {ctx : OxideOS.CpuContext}
    (h : st.context resumeAt id = some ctx) : st.Waits := by
  cases st with
  | fresh entry => trivial
  | away regs ret => trivial
  | absent => cases h
  | running => cases h

/-! ## Switches of the machine -/

theorem contexts_contextSwitch_of_ne {x : TaskId} (h : x ≠ oldId) :
    (m.contextSwitch oldId newId resume).contexts x = m.contexts x := by
  rw [Machine.contextSwitch]
  split
  · rfl
  · exact Function.update_of_ne h _ _

theorem contexts_contextSwitch_self (h : oldId ≠ 0) :
    (m.contextSwitch oldId newId resume).contexts oldId = ⟨m.executing.owner, resume⟩ := by
  rw [Machine.contextSwitch, if_neg h]
  exact Function.update_self _ _ _

theorem executing_contextSwitch (h : newId ≠ oldId) :
    (m.contextSwitch oldId newId resume).executing = m.contexts newId := by
  rw [Machine.contextSwitch]
  split
  · rfl
  · exact Function.update_of_ne h _ _

theorem switchIds_eq_some (h : switchIds sched = some (oldId, newId)) :
    (∃ reaped sched', sched.reschedule = ((oldId, newId), reaped, sched')) ∧ oldId ≠ newId ∧
      newId ≠ 0 := by
  rcases hres : sched.reschedule with ⟨⟨old, new⟩, reaped, sched'⟩
  rw [switchIds, hres] at h
  simp only [Option.ite_none_right_eq_some, Option.some.injEq, Prod.mk.injEq] at h
  obtain ⟨hne, rfl, rfl⟩ := h
  exact ⟨⟨reaped, sched', rfl⟩, hne⟩

/-- What a spawn does to the machine. -/
theorem step_spawn {priority : Priority} {stackFrames : List UInt64}
    (hstep : m.step (.spawn priority stackFrames) = some m') :
    ∃ task ids sched, Task.new m.tasks.ids priority stackFrames = (task, ids) ∧
      task.id < maxTasks ∧ m.tasks.sched.spawn task = some sched ∧
      m' = { m with
        tasks := ⟨sched, ids⟩
        contexts := Function.update m.contexts task.id ⟨some task.id, .entry⟩ } := by
  rw [Machine.step.eq_def] at hstep
  split at hstep
  · cases hstep
  · rcases hnew : Task.new m.tasks.ids priority stackFrames with ⟨task, ids⟩
    simp only [hnew] at hstep
    obtain ⟨sched, hspawn, rfl⟩ := Option.map_eq_some_iff.mp hstep
    have hcontext : task.context = ⟨some task.id, .entry⟩ := by
      rw [Task.new] at hnew
      obtain ⟨rfl, -⟩ := Prod.mk.inj hnew
      rfl
    have hlt : task.id < maxTasks := by
      rw [Scheduler.spawn] at hspawn
      split at hspawn
      · assumption
      · cases hspawn
    exact ⟨task, ids, sched, rfl, hlt, hspawn, by rw [hcontext]⟩

/-- An operation that yields marks the current task, and leaves the rest to `yield_now`. -/
theorem step_yielding (hyield : yielding m op = some (sched, resume)) (hstep : m.step op = some m')
    (hm : m.Sound) :
    m' = (m.withSched sched).yieldNow resume ∧ (m.withSched sched).Coherent ∧
      sched.waitingIds = m.tasks.sched.waitingIds := by
  rw [Machine.step.eq_def] at hstep
  split at hstep
  · cases hstep
  · cases op with
    | spawn priority stackFrames => cases hyield
    | unblock taskId => cases hyield
    | yieldNow =>
      cases hyield
      exact ⟨(Option.some.inj hstep).symm, hm.toCoherent, rfl⟩
    | blockAndYield =>
      cases hyield
      exact ⟨(Option.some.inj hstep).symm, hm.blockCurrent, rfl⟩
    | exitCurrent =>
      cases hyield
      exact ⟨(Option.some.inj hstep).symm, hm.killCurrent, rfl⟩

namespace Follows

/-- **The slot is that of the task that executes**, and the other task waits. -/
theorem switchIds_cases (h : Follows image k resumeAt ⟨m, w⟩) (hstep : m.step op = some m')
    (hyield : yielding m op = some (sched, resume))
    (hids : switchIds sched = some (oldId, newId)) :
    oldId = w.current.val ∧ ∃ new : Fin maxTasks, new.val = newId ∧
      (w.status new).context resumeAt new = some (m.contexts newId) := by
  obtain ⟨-, hcoherent, hwaiting⟩ := step_yielding hyield hstep h.machine
  obtain ⟨⟨reaped, sched', hres⟩, hne, hpos⟩ := switchIds_eq_some hids
  obtain ⟨hold, hnew, hpicked, -⟩ := Scheduler.reschedule_cases hres
  have howner : m.executing.owner = sched.current.map Task.id := hcoherent.agrees.owner
  refine ⟨?_, h.waiting newId ?_⟩
  · rw [hold, Scheduler.currentId, ← howner, h.executing, ownerOf_getD]
  · rcases hpicked with ⟨t, ht, -, hcand⟩ | ⟨hnone, -⟩
    · rw [Machine.currentId_of_current ht] at hnew
      rw [hnew, ← hwaiting]
      rcases hcand with hqueued | ⟨cur, hcur, -, hid⟩
      · exact Scheduler.mem_waitingIds.mpr (.inl hqueued)
      · rw [hold, Machine.currentId_of_current hcur, hid, hnew] at hne
        exact absurd rfl hne
    · rw [hnew, Scheduler.currentId, hnone] at hpos
      exact absurd rfl hpos

/-- So the switch is the one between these two tasks. -/
theorem switchTo_current (image : Image) (k : Statics) (w : World (Fin maxTasks)) (ret : UInt64)
    (hnew : new.val ≠ 0) :
    w.switchTo image k w.current new ret = w.step image k.layout (.contextSwitch new ret) := by
  rw [World.switchTo, Statics.newContext_eq hnew]
  rfl

theorem spawn {priority : Priority} {stackFrames : List UInt64} (entry : UInt64)
    (h : Follows image k resumeAt ⟨m, w⟩) (hstep : m.step (.spawn priority stackFrames) = some m')
    (hid : (Task.new m.tasks.ids priority stackFrames).1.id = id) :
    Follows image k resumeAt ⟨m', w.step image k.layout (.spawn id entry)⟩ := by
  have hsound := (h.machine.agrees_iff_switchable hstep).2 trivial
  obtain ⟨task, ids, sched, hnew, -, hspawn, rfl⟩ := step_spawn hstep
  rw [hnew] at hid
  have hid : task.id = id := hid
  have hids := Scheduler.ids_spawn hspawn
  have hcovers := hsound.custody.covers
  have hnodup := hids.nodup_iff.mp (List.nodup_append.mp hcovers.nodup).1
  have hfresh : task.id ∉ m.tasks.sched.ids := (List.nodup_cons.mp hnodup).1
  have hpos : 0 < task.id := hcovers.pos_of_mem (hids.mem_iff.mpr List.mem_cons_self)
  have hzero : id.val ≠ 0 := hid ▸ hpos.ne'
  have hne : id ≠ w.current := by
    intro heq
    have howner := h.machine.agrees.owner.symm.trans h.executing
    rw [← heq, ownerOf, if_neg hzero, ← hid] at howner
    obtain ⟨cur, hcur, hcurid⟩ := Option.map_eq_some_iff.mp howner
    apply hfresh
    rw [Scheduler.ids_eq, List.mem_append, hcur, ← hcurid]
    exact .inr List.mem_cons_self
  have hok : w.Allowed k.layout (.spawn id entry) := hne
  refine ⟨hsound, h.world.step hok, h.executing, fun x hx => ?_⟩
  show ∃ i : Fin maxTasks, i.val = x ∧
    (Function.update w.status id (.fresh entry) i).context resumeAt i =
      some (Function.update m.contexts task.id ⟨some task.id, .entry⟩ x)
  by_cases hxid : x = task.id
  · refine ⟨id, (hxid.trans hid).symm, ?_⟩
    rw [Function.update_self, hxid, Function.update_self, Status.context, ownerOf, if_neg hzero,
      hid]
  · have hold : x ∈ m.tasks.sched.waitingIds := by
      rw [Scheduler.spawn] at hspawn
      split at hspawn
      · obtain rfl := Option.some.inj hspawn
        refine Scheduler.mem_waitingIds.mpr ((Scheduler.mem_waitingIds.mp hx).imp_left ?_)
        rintro ⟨t, ht, rfl⟩
        rcases Scheduler.mem_queued_push.mp ht with rfl | ht
        · exact absurd rfl hxid
        · exact ⟨t, ht, rfl⟩
      · cases hspawn
    obtain ⟨i, hi, hctx⟩ := h.waiting x hold
    have hi' : i ≠ id := fun heq => hxid (by rw [← hi, heq, hid])
    exact ⟨i, hi, by rw [Function.update_of_ne hi', Function.update_of_ne hxid]; exact hctx⟩

/-- Without a switch, whoever waits has waited before. -/
theorem stay (h : Follows image k resumeAt ⟨m, w⟩) (hsw : m.Switchable op)
    (hyield : yielding m op = some (sched, resume)) (hids : switchIds sched = none)
    (hstep : m.step op = some m') : Follows image k resumeAt ⟨m', w⟩ := by
  have hsound := (h.machine.agrees_iff_switchable hstep).2 hsw
  obtain ⟨rfl, hcoherent, hwaiting⟩ := step_yielding hyield hstep h.machine
  rcases hres : sched.reschedule with ⟨⟨oldId, newId⟩, reaped, sched'⟩
  have hres' : (m.withSched sched).tasks.sched.reschedule = _ := hres
  rw [switchIds, hres] at hids
  have hnot : ¬(oldId ≠ newId ∧ newId ≠ 0) := fun hyes => by simp [hyes] at hids
  have heq : (m.withSched sched).yieldNow resume = _ := Machine.yieldNow_eq hres'
  rw [if_neg hnot] at heq
  rw [heq] at hsound ⊢
  refine ⟨hsound, h.world, h.executing, fun x hx => ?_⟩
  obtain ⟨-, -, -, hbefore⟩ := Scheduler.reschedule_cases hres
  rcases hbefore x hx with hmem | ⟨cur, hcur, -, rfl⟩
  · rw [hwaiting] at hmem
    exact h.waiting x hmem
  · have howner : some cur.id = sched'.current.map Task.id := by
      have hcurrent : m.executing.owner = sched.current.map Task.id := hcoherent.agrees.owner
      rw [hcur] at hcurrent
      exact hcurrent.symm.trans hsound.agrees.owner
    obtain ⟨cur', hcur', hid⟩ := Option.map_eq_some_iff.mp howner.symm
    rw [← hid] at hx
    exact absurd hx (Machine.not_waiting hsound.custody hcur')

theorem switch (h : Follows image k resumeAt ⟨m, w⟩) (hsw : m.Switchable op)
    (hyield : yielding m op = some (sched, resumeAt ret))
    (hids : switchIds sched = some (old.val, new.val)) (hstep : m.step op = some m')
    (hstack : k.layout.InStack w.current (w.cpu.regs .rsp)) :
    Follows image k resumeAt ⟨m', w.switchTo image k old new ret⟩ ∧
      w.switchTo image k old new ret = w.step image k.layout (.contextSwitch new ret) ∧
      (w.status new).context resumeAt new = some m'.executing := by
  have hsound := (h.machine.agrees_iff_switchable hstep).2 hsw
  obtain ⟨hold, new', hnew', hctx⟩ := h.switchIds_cases hstep hyield hids
  obtain rfl : new = new' := Fin.ext hnew'.symm
  obtain rfl := Fin.ext hold
  obtain ⟨rfl, hcoherent, hwaiting⟩ := step_yielding hyield hstep h.machine
  obtain ⟨⟨reaped, sched', hres⟩, hne, hpos⟩ := switchIds_eq_some hids
  have hres' : (m.withSched sched).tasks.sched.reschedule = _ := hres
  have heq : (m.withSched sched).yieldNow (resumeAt ret) = _ := Machine.yieldNow_eq hres'
  rw [if_pos ⟨hne, hpos⟩] at heq
  have hloaded : ((m.withSched sched).yieldNow (resumeAt ret)).executing = m.contexts new.val := by
    rw [heq]
    exact executing_contextSwitch hne.symm
  have hsame := switchTo_current image k w ret hpos
  refine ⟨⟨hsound, ?_, ?_, fun x hx => ?_⟩, hsame, hloaded ▸ hctx⟩
  · have hok : w.Allowed k.layout (.contextSwitch new ret) :=
      ⟨Status.waits_of_context hctx, hstack⟩
    rw [hsame]
    exact h.world.step hok
  · rw [hloaded]
    exact Status.owner_of_context hctx
  · show ∃ i : Fin maxTasks, i.val = x ∧
      (Function.update (Function.update w.status w.current (.away w.cpu.regs ret)) new .running
        i).context resumeAt i = some (((m.withSched sched).yieldNow (resumeAt ret)).contexts x)
    have hnew : x ≠ new.val := by
      rintro rfl
      refine hsound.executing_ne (.inl hx) ?_
      rw [hloaded, Status.owner_of_context hctx, ownerOf, if_neg hpos]
    rw [Machine.tasks_yieldNow hres'] at hx
    obtain ⟨hcurrent, -, -, hbefore⟩ := Scheduler.reschedule_cases hres
    rcases hbefore x hx with hmem | ⟨cur, hcur, -, rfl⟩
    · rw [hwaiting] at hmem
      obtain ⟨i, rfl, hi⟩ := h.waiting x hmem
      have hi_new : i ≠ new := fun h => hnew (congrArg Fin.val h)
      have hi_cur : i ≠ w.current := by
        rintro rfl
        rw [h.world.current_running] at hi
        cases hi
      refine ⟨i, rfl, ?_⟩
      rw [Function.update_of_ne hi_new, Function.update_of_ne hi_cur, hi, heq,
        contexts_contextSwitch_of_ne (Fin.val_ne_of_ne hi_cur)]
      rfl
    · rw [Machine.currentId_of_current hcur] at hcurrent
      have hcur_pos : w.current.val ≠ 0 := by
        rw [hcurrent]
        have hmem : cur.id ∈ (m.withSched sched).tasks.sched.ids := by
          rw [Scheduler.ids_eq, Machine.sched_withSched, hcur]
          simp
        exact (hcoherent.custody.covers.pos_of_mem hmem).ne'
      have hi_new : w.current ≠ new := fun h => hne (congrArg Fin.val h)
      refine ⟨w.current, hcurrent, ?_⟩
      rw [Function.update_of_ne hi_new, Function.update_self, heq, ← hcurrent,
        contexts_contextSwitch_self hcur_pos]
      rw [Status.context, ← h.executing]
      rfl

/-- **A step keeps the machine and the processor together.** -/
theorem step {op : ComputerOp} (h : Follows image k resumeAt c) (hsw : c.Switchable op)
    (hstep : Computer.Step image k resumeAt c op c') : Follows image k resumeAt c' := by
  cases hstep with
  | work hok => exact ⟨h.machine, h.world.step hok, h.executing, h.waiting⟩
  | spawn entry hstep hid => exact h.spawn entry hstep hid
  | unblock hstep =>
    have hsound := (h.machine.agrees_iff_switchable hstep).2 hsw
    rw [Machine.step.eq_def] at hstep
    split at hstep
    · cases hstep
    · obtain rfl := Option.some.inj hstep
      exact ⟨hsound, h.world, h.executing,
        fun x hx => h.waiting x (Machine.mem_waitingIds_unblock hx)⟩
  | stay hyield hids hstep => exact h.stay hsw hyield hids hstep
  | switch hyield hids hstep hstack => exact (h.switch hsw hyield hids hstep hstack).1

end Follows

/-! ## Runs -/

theorem follows_invariant (image : Image) (k : Statics) (resumeAt : UInt64 → ResumePoint) :
    ((Computer.system image k resumeAt).restrict Computer.Switchable).Invariant
      (Follows image k resumeAt) where
  init := by
    rintro ⟨m, w⟩ ⟨rfl, hinit, hcurrent⟩
    exact ⟨Machine.sound_boot, hinit.sound, (if_pos hcurrent).symm, fun x hx => by cases hx⟩
  step := by
    rintro c op c' h ⟨hstep, hsw⟩
    exact h.step hsw hstep

/-- The machine makes a run of its own. -/
theorem machine_projects (image : Image) (k : Statics) (resumeAt : UInt64 → ResumePoint) :
    ((Computer.system image k resumeAt).restrict Computer.Switchable).Projects
      (Machine.system.restrict Machine.Switchable) Computer.machine where
  init := by
    rintro c ⟨hboot, -⟩
    exact hboot
  step := by
    rintro c op c' ⟨hstep, hsw⟩
    apply TransitionSystem.exists_run_of_step
    cases hstep with
    | work => exact .inl rfl
    | spawn _ hstep => exact .inr ⟨_, hstep, hsw⟩
    | unblock hstep => exact .inr ⟨_, hstep, hsw⟩
    | stay _ _ hstep => exact .inr ⟨_, hstep, hsw⟩
    | switch _ _ hstep => exact .inr ⟨_, hstep, hsw⟩

/-- The processor can follow every operation of the scheduler. -/
theorem Follows.exists_step (h : Follows image k resumeAt ⟨m, w⟩) (hstep : m.step op = some m')
    (hstack : k.layout.InStack w.current (w.cpu.regs .rsp))
    (hret : ∀ sched resume, yielding m op = some (sched, resume) → ∃ ret, resumeAt ret = resume) :
    ∃ w', Computer.Step image k resumeAt ⟨m, w⟩ (.call op) ⟨m', w'⟩ := by
  cases hyield : yielding m op with
  | some yield =>
    obtain ⟨sched, resume⟩ := yield
    obtain ⟨ret, rfl⟩ := hret sched resume hyield
    cases hids : switchIds sched with
    | none => exact ⟨w, .stay hyield hids hstep⟩
    | some ids =>
      obtain ⟨hold, new, hnew, -⟩ := h.switchIds_cases hstep hyield hids
      have hpair : ids = (w.current.val, new.val) := Prod.ext hold hnew.symm
      exact ⟨_, .switch hyield (hids.trans (congrArg some hpair)) hstep hstack⟩
  | none =>
    cases op with
    | spawn priority stackFrames =>
      obtain ⟨task, ids, sched, hnew, hlt, -⟩ := step_spawn hstep
      have hid : (Task.new m.tasks.ids priority stackFrames).1.id =
          (⟨task.id, hlt⟩ : Fin maxTasks).val := by rw [hnew]
      exact ⟨_, .spawn 0 hstep hid⟩
    | unblock taskId => exact ⟨w, .unblock hstep⟩
    | yieldNow => cases hyield
    | blockAndYield => cases hyield
    | exitCurrent => cases hyield

/-- **The machine and the processor stay together.**  In every run from the boot code in which an
operation that gives up the processor finds a ready task, the machine makes a run of its own and
executes the task that the processor executes.  The processor can follow every further operation;
and when it comes to execute another task, the machine resumes that task from where the processor
really continues: the trampoline, if the task is new, or the return address that its slot leads
to. -/
theorem machine_follows_processor (image : Image) (k : Statics) (resumeAt : UInt64 → ResumePoint)
    (h : ((Computer.system image k resumeAt).restrict Computer.Switchable).Reachable c) :
    (Machine.system.restrict Machine.Switchable).Reachable c.machine ∧
      c.machine.executing.owner = ownerOf c.world.current ∧
      (∀ op m', c.machine.step op = some m' →
        k.layout.InStack c.world.current (c.world.cpu.regs .rsp) →
        (∀ sched resume, yielding c.machine op = some (sched, resume) →
          ∃ ret, resumeAt ret = resume) →
        ∃ w', Computer.Step image k resumeAt c (.call op) ⟨m', w'⟩) ∧
      ∀ op c', Computer.Step image k resumeAt c op c' → c.Switchable op →
        c'.world.current ≠ c.world.current →
        c'.machine.executing = ⟨some c'.world.current.val, .entry⟩ ∧
            c'.world.cpu.rip = image.trampoline ∨
          c'.machine.executing = ⟨some c'.world.current.val, resumeAt c'.world.cpu.rip⟩ := by
  have hc := (follows_invariant image k resumeAt).of_reachable h
  refine ⟨(machine_projects image k resumeAt).reachable h, hc.executing,
    fun op m' hstep hstack hret => hc.exists_step hstep hstack hret, fun op c' hstep hsw hne => ?_⟩
  cases hstep with
  | work => exact absurd rfl hne
  | spawn => exact absurd rfl hne
  | unblock => exact absurd rfl hne
  | stay => exact absurd rfl hne
  | @switch m m' w op sched ret old new hyield hids hstep hstack =>
    obtain ⟨hfollows, hsame, hctx⟩ := hc.switch hsw hyield hids hstep hstack
    obtain ⟨-, -, hpos⟩ := switchIds_eq_some hids
    have howner : ownerOf new = some new.val := if_neg hpos
    have hok : w.Allowed k.layout (.contextSwitch new ret) :=
      ⟨Status.waits_of_context hctx, hstack⟩
    obtain ⟨-, hresumes⟩ := hc.world.resumed hok
    rw [← hsame] at hresumes
    show m'.executing = ⟨some new.val, .entry⟩ ∧ _ ∨ m'.executing = ⟨some new.val, _⟩
    cases hst : w.status new with
    | fresh entry =>
      rw [hst] at hresumes hctx
      exact .inl ⟨howner ▸ (Option.some.inj hctx).symm, hresumes.1⟩
    | away regs ret' =>
      rw [hst] at hresumes hctx
      exact .inr (hresumes.1 ▸ howner ▸ (Option.some.inj hctx).symm)
    | absent =>
      rw [hst] at hctx
      cases hctx
    | running =>
      rw [hst] at hctx
      cases hctx

/-- The boot code spawns a task, and yields to it. -/
theorem machine_follows_processor_boot :
    ∃ c c' : Computer,
      ((Computer.system flatImage flatStatics fun _ => .caller).restrict
        Computer.Switchable).Reachable c ∧
      Computer.Step flatImage flatStatics (fun _ => .caller) c (.call .yieldNow) c' ∧
      c'.machine.executing = ⟨some 1, .entry⟩ ∧ c'.world.cpu.rip = flatImage.trampoline := by
  obtain ⟨m₁, hspawn, m₂, hyield, hentry⟩ : ∃ m₁, Machine.boot.step (.spawn .normal []) = some m₁ ∧
      ∃ m₂, m₁.step .yieldNow = some m₂ ∧ m₂.executing = ⟨some 1, .entry⟩ :=
    ⟨_, rfl, _, rfl, rfl⟩
  have hstep₁ : Computer.Step flatImage flatStatics (fun _ => .caller)
      ⟨.boot, bootWorld bootCpu⟩ _ _ := .spawn 0x5000 hspawn (rfl : _ = firstTask.val)
  have hreach₁ := (TransitionSystem.Reachable.init (show ((Computer.system flatImage flatStatics
    fun _ => .caller).restrict Computer.Switchable).Init ⟨.boot, bootWorld bootCpu⟩ from
      ⟨rfl, initial_bootWorld bootCpu, rfl⟩)).step ⟨hstep₁, trivial⟩
  obtain ⟨-, -, hfollow, hresume⟩ := machine_follows_processor _ _ _ hreach₁
  have hstack : flatStatics.layout.InStack bootTask 0x38000 := ⟨by decide, by decide⟩
  obtain ⟨w', hstep₂⟩ := hfollow .yieldNow m₂ hyield hstack
    fun sched resume h => ⟨0, congrArg Prod.snd (Option.some.inj h)⟩
  obtain ⟨-, hexecuting, -⟩ := machine_follows_processor _ _ _ (hreach₁.step ⟨hstep₂, trivial⟩)
  have hcurrent : w'.current ≠ bootTask := by
    rintro heq
    rw [heq, show (Computer.mk m₂ w').machine.executing = _ from hentry] at hexecuting
    cases hexecuting
  refine ⟨_, ⟨m₂, w'⟩, hreach₁, hstep₂, hentry, ?_⟩
  rcases hresume _ _ hstep₂ trivial hcurrent with ⟨-, hrip⟩ | haway
  · exact hrip
  · rw [show (Computer.mk m₂ w').machine.executing = _ from hentry] at haway
    cases congrArg CpuContext.resume haway

end ContextSwitch

end OxideOS
