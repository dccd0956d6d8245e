import OxideOS.Kernel.WakeUp

/-!
# How long a sleep takes

`sys_sleep` enters a deadline and blocks on the list that everybody blocks on.  It returns when the
scheduler picks the task again or, since `yield_now` does not switch without a ready task, at once.
So a sleep can be too short in four ways: nobody is current and nothing is done; no other task is
ready; another call wakes the task, such as a message sent to it; or the timer interrupt wakes it
for another reason, such as an older entry of the deadline queue.  And the deadline is a sum that
can overflow.

## Main definitions

* `Kernel.wakes`: the task that a call wakes
* `SleepKernel`: the kernel with the calls of `sys_sleep` that have not returned and the returns
* `SleepKernel.OnTime`: no call has returned before its time
* `SleepKernel.Careful`: a step that cuts no sleep short

## Main results

* `Kernel.leaves_step`: what a call leaves of the blocked tasks
* `TimedKernel.owner_block`: with whom the CPU goes on
* `SleepKernel.rested_step_iff`: a step cuts no sleep short if and only if it is careful
* `SleepKernel.sleeps_long_enough`: in runs of careful steps no call returns before its time
* `SleepKernel.sleep_cut_short`: a message cuts a sleep short, and so does the lack of a ready task
-/

namespace OxideOS

/-! ## Whom a call wakes -/

namespace Kernel

variable {k k' : Kernel} {op : KernelOp}

/-- The task that a call wakes. -/
def wakes (k : Kernel) : KernelOp → Option TaskId
  | .unblock taskId => some taskId
  | .gated (.send sender recipient msgType payload capTransfer replyTo senderCap unlocked) =>
    if unlocked && (k.send sender recipient msgType payload capTransfer replyTo senderCap
      unlocked).1.isOk then some recipient else none
  | .gated (.request sender recipient payload senderCap _ unlocked) =>
    if unlocked && (k.send sender recipient .request payload none none senderCap
      unlocked).1.isOk then some recipient else none
  | _ => none

/-- What a call leaves of the blocked tasks, and that it does not touch the clock. -/
structure Leaves (k : Kernel) (woken : Option TaskId) (k' : Kernel) : Prop where
  ticks : k'.ticks = k.ticks
  blocked : k'.tasks.sched.blockedIds =
    woken.elim k.tasks.sched.blockedIds k.tasks.sched.blockedIds.erase

theorem leaves_of_tasks_eq (hticks : k'.ticks = k.ticks) (htasks : k'.tasks = k.tasks) :
    k.Leaves none k' :=
  ⟨hticks, by rw [htasks]; rfl⟩

theorem leaves_wake (k : Kernel) (taskId : TaskId) (unlocked : Bool) :
    k.Leaves (if unlocked then some taskId else none) (k.wake taskId unlocked) := by
  cases unlocked with
  | false => exact ⟨rfl, rfl⟩
  | true => exact ⟨rfl, blockedIds_wake k taskId true⟩

theorem leaves_send {sender recipient : TaskId} {msgType : MessageType} {payload : List UInt8}
    {capTransfer : Option CapId} {replyTo : Option MessageId} {senderCap : CapId} {unlocked : Bool}
    {result : Except IpcError MessageId} (h : k.send sender recipient msgType payload capTransfer
      replyTo senderCap unlocked = (result, k')) :
    k.Leaves (if unlocked && result.isOk then some recipient else none) k' := by
  rcases send_cases h with
    ⟨e, rfl, rfl, -⟩ | ⟨caps, -, -, ⟨e, rfl, -, rfl⟩ | ⟨k₁, rfl, hdeliver, rfl⟩⟩
  · cases unlocked <;> exact leaves_of_tasks_eq rfl rfl
  · cases unlocked <;> exact leaves_of_tasks_eq rfl rfl
  · obtain ⟨mailboxes, rfl⟩ := deliver_eq_ok hdeliver
    cases unlocked with
    | false => exact ⟨rfl, rfl⟩
    | true => exact ⟨rfl, Scheduler.blockedIds_unblock _ _⟩

theorem leaves_request {sender recipient : TaskId} {payload : List UInt8} {senderCap : CapId}
    {timeoutTicks : UInt64} {unlocked : Bool} {result : Except IpcError MessageId}
    (h : k.request sender recipient payload senderCap timeoutTicks unlocked = some (result, k')) :
    k.Leaves (k.wakes (.gated (.request sender recipient payload senderCap timeoutTicks unlocked)))
      k' := by
  obtain ⟨k₁, hsend, hk'⟩ :=
    request_send k sender recipient payload senderCap timeoutTicks unlocked h
  rw [wakes, hsend]
  obtain ⟨hticks, hblocked⟩ := leaves_send hsend
  rcases hk' with ⟨-, -, rfl⟩ | ⟨msgId, -, rfl⟩
  · exact ⟨hticks, hblocked⟩
  · exact ⟨hticks, hblocked⟩

theorem leaves_leaveReply (k : Kernel) (m : MessageId) (msg : Message) (unlocked : Bool) :
    k.Leaves (if unlocked then some msg.recipient else none) (k.leaveReply m msg unlocked) := by
  obtain ⟨hticks, hblocked⟩ :=
    leaves_wake { k with replies := k.replies.insert m msg } msg.recipient unlocked
  exact ⟨hticks, hblocked⟩

theorem leaves_spawn {priority : Priority} (h : k.spawnTask priority = some k') :
    k.Leaves none k' := by
  obtain ⟨stackFrames, tasks, htasks, pageTable, frames, rfl⟩ := spawnTask_eq_some h
  obtain ⟨task, -, hspawn⟩ := TaskSystem.step_spawn htasks
  rw [Scheduler.spawn] at hspawn
  split at hspawn
  · refine ⟨rfl, ?_⟩
    rw [← Option.some.inj hspawn]
    rfl
  · cases hspawn

/-- A gated call wakes at most the task it names. -/
theorem leaves_exec {call : GatedCall} {ok : Bool} (h : k.exec call = some (ok, k')) :
    k.Leaves (k.wakes (.gated call)) k' := by
  cases call with
  | send sender recipient msgType payload capTransfer replyTo senderCap unlocked =>
    obtain ⟨-, rfl⟩ := Prod.mk.inj (Option.some.inj h)
    exact leaves_send rfl
  | request sender recipient payload senderCap timeoutTicks unlocked =>
    obtain ⟨⟨result, k''⟩, hrequest, hk⟩ := Option.map_eq_some_iff.mp h
    obtain ⟨-, rfl⟩ := Prod.mk.inj hk
    exact leaves_request hrequest
  | subscribe | publish | contextSet | contextGet | submitRequest =>
    rw [exec_frame h]
    exact leaves_of_tasks_eq rfl rfl

/-- **Whom a call wakes** that does not switch tasks: nobody else leaves the blocked tasks. -/
theorem leaves_step (hplain : op.IsPlain) (h : k.step op = some k') :
    k.Leaves (k.wakes op) k' := by
  cases op with
  | spawn priority => exact leaves_spawn h
  | unblock taskId =>
    rw [step, withTasks] at h
    obtain ⟨tasks, htasks, rfl⟩ := Option.map_eq_some_iff.mp h
    obtain rfl := Option.some.inj htasks
    exact leaves_wake k taskId true
  | gated call =>
    obtain ⟨⟨ok, k''⟩, hexec, rfl⟩ := Option.map_eq_some_iff.mp h
    exact leaves_exec hexec
  | reschedule => exact hplain.elim
  | blockCurrent => exact hplain.elim
  | killCurrent => exact hplain.elim
  | reply sender originalMsgId payload senderCap unlocked => exact hplain.elim
  | checkTimeouts pendingUnlocked unlocked => exact hplain.elim
  | tick => exact hplain.elim
  | _ =>
    rw [step_frame h]
    exact leaves_of_tasks_eq rfl rfl

theorem Leaves.mem_blockedIds {woken : Option TaskId} {x : TaskId} (h : k.Leaves woken k')
    (hnodup : k.tasks.sched.blockedIds.Nodup) :
    x ∈ k'.tasks.sched.blockedIds ↔ x ∈ k.tasks.sched.blockedIds ∧ x ∉ woken := by
  rw [h.blocked]
  cases woken with
  | none => simp
  | some id =>
    rw [Option.elim_some, hnodup.mem_erase_iff, and_comm, Option.mem_some, ne_comm]

end Kernel

/-! ## Who goes on when a task gives up the CPU -/

/-- A reschedule finds nobody exactly if there is no candidate. -/
theorem Scheduler.current_reschedule_eq_none_iff {sched sched' : Scheduler}
    {change : TaskId × TaskId} {reaped : Option Task}
    (h : sched.reschedule = (change, reaped, sched')) :
    sched'.current = none ↔ ¬∃ id, sched.Candidate id := by
  obtain ⟨-, -, ⟨task, hcurrent, -, hcandidate⟩ | ⟨hnone, hno⟩, -⟩ := reschedule_cases h
  · rw [hcurrent]
    exact iff_of_false (Option.some_ne_none task) (not_not_intro ⟨task.id, hcandidate⟩)
  · exact iff_of_true hnone (not_exists.mpr hno)

/-- **The CPU goes on** with the task that was picked or, if there is none, with the caller. -/
theorem Machine.Coherent.owner_yieldNow {m : Machine} {resume : ResumePoint} (hm : m.Coherent)
    (hresume : m.MayYield resume) : (m.yieldNow resume).executing.owner =
      ((m.yieldNow resume).tasks.sched.current.or m.tasks.sched.current).map Task.id := by
  by_cases hcandidate : ∃ id, m.tasks.sched.Candidate id
  · rcases hres : m.tasks.sched.reschedule with ⟨change, reaped, sched⟩
    have hsome := mt (Scheduler.current_reschedule_eq_none_iff hres).mp (not_not_intro hcandidate)
    obtain ⟨task, hcurrent⟩ := Option.ne_none_iff_exists'.mp hsome
    rw [(hm.yieldNow hresume hcandidate).agrees.owner, tasks_yieldNow hres, hcurrent,
      Option.some_or]
  · obtain ⟨hnone, hexecuting, -⟩ :=
      hm.yieldNow_of_not_candidate resume (not_exists.mp hcandidate)
    rw [hnone, hexecuting, Option.none_or]
    exact hm.agrees.owner

namespace TimedKernel

variable {s t : TimedKernel} {wait : Wait}

/-- What blocking does to the tasks. -/
theorem block_tasks (h : s.block wait = some t) :
    ∃ change reaped sched, s.kernel.tasks.sched.blockCurrent.reschedule = (change, reaped, sched) ∧
      t.kernel.tasks = ⟨sched, TaskSystem.recycle s.kernel.tasks.ids reaped⟩ := by
  obtain ⟨k₁, k₂, hblock, hres, rfl⟩ := block_eq_some h
  rw [Kernel.step, Kernel.withTasks] at hblock
  obtain ⟨tasks, hstep, rfl⟩ := Option.map_eq_some_iff.mp hblock
  obtain rfl := Option.some.inj hstep
  obtain ⟨change, reaped, sched, hsched, frames, mailboxes, rfl⟩ := Kernel.reschedule_cases hres
  exact ⟨change, reaped, sched, hsched, rfl⟩

/-- When the current task blocks, nobody is picked exactly if nobody is ready. -/
theorem current_block_eq_none_iff (h : s.block wait = some t) :
    t.current = none ↔ s.kernel.tasks.sched.queues.queued = [] := by
  obtain ⟨change, reaped, sched, hres, htasks'⟩ := block_tasks h
  have hready : (∃ id, s.kernel.tasks.sched.blockCurrent.Candidate id) ↔
      s.kernel.tasks.sched.queues.queued ≠ [] :=
    Machine.exists_candidate_iff fun c hc => .inl (Machine.state_blockCurrent hc)
  rw [current, htasks', Scheduler.current_reschedule_eq_none_iff hres, hready, not_not]

/-- The CPU of a machine with these tasks goes on with the task that is picked or, if there is none,
with the one that has blocked. -/
theorem owner_block {m : Machine} (hm : m.Coherent) (htasks : m.tasks = s.kernel.tasks)
    (h : s.block wait = some t) :
    ((m.withSched m.tasks.sched.blockCurrent).yieldNow .caller).tasks = t.kernel.tasks ∧
      ((m.withSched m.tasks.sched.blockCurrent).yieldNow .caller).executing.owner =
        (t.current.or s.current).map Task.id := by
  obtain ⟨change, reaped, sched, hres, htasks'⟩ := block_tasks h
  have hyield : ((m.withSched m.tasks.sched.blockCurrent).yieldNow .caller).tasks =
      t.kernel.tasks := by
    rw [htasks', ← htasks]
    exact Machine.tasks_yieldNow (htasks ▸ hres)
  refine ⟨hyield, ?_⟩
  rw [hm.blockCurrent.owner_yieldNow (.inl rfl), hyield, Machine.sched_withSched, htasks,
    Option.map_or, Option.map_or, Scheduler.blockCurrent, Option.map_map]
  rfl

end TimedKernel

/-! ## The calls of `sys_sleep` -/

/-- `sys_sleep` is under way, and has not blocked yet. -/
def Phase.sleeping : Phase → Bool
  | .sleep _ _ _ | .scheduled _ => true
  | .between | .requested _ | .replying _ _ _ => false

/-- The task that the call under way is about to wake. -/
def Phase.wakes : Phase → Option TaskId
  | .replying _ msg unlocked => if unlocked then some msg.recipient else none
  | _ => none

namespace TimedKernel

/-- The task is blocked, or runs and is about to block in `sys_sleep`. -/
def Asleep (s : TimedKernel) (id : TaskId) : Prop :=
  id ∈ s.blockedIds ∨ s.phase.sleeping = true ∧ ∃ c ∈ s.current, c.id = id

/-- The next tick wakes the task for something else than this deadline: an entry with an earlier
one, or a request that expires. -/
def Disturbs (s : TimedKernel) (pendingUnlocked deadlinesUnlocked : Bool) (id : TaskId)
    (deadline : UInt64) : Prop :=
  (∃ e ∈ s.deadlines.heap, e.taskId = id ∧ e.deadlineTick < deadline ∧
      s.Pops deadlinesUnlocked e) ∨
    ∃ m ∈ s.kernel.due pendingUnlocked, ∃ req ∈ s.kernel.pending[m]?, req.requester = id

instance (s : TimedKernel) (pendingUnlocked deadlinesUnlocked : Bool) (id : TaskId)
    (deadline : UInt64) : Decidable (s.Disturbs pendingUnlocked deadlinesUnlocked id deadline) :=
  inferInstanceAs (Decidable ((∃ e ∈ s.deadlines.heap, _) ∨
    ∃ m ∈ s.kernel.due pendingUnlocked, ∃ req ∈ s.kernel.pending[m]?, _))

end TimedKernel

/-- A call of `sys_sleep` that has not returned. -/
structure SleepCall where
  /-- The tick of the call plus its argument. -/
  due : Nat
  /-- The deadline as the call computed it. -/
  deadline : UInt64
deriving DecidableEq

/-- A call of `sys_sleep` that returned at this tick. -/
structure SleepReturn where
  due : Nat
  tick : Nat
deriving DecidableEq

/-- The kernel, and what is known of the calls of `sys_sleep` in it. -/
structure SleepKernel where
  timed : TimedKernel
  /-- The timer interrupts since boot.  `ticks` counts them with 64 bits. -/
  clock : Nat
  sleeps : TaskId → Option SleepCall
  returns : List SleepReturn

namespace SleepKernel

/-- The call of this task returns, if there is one. -/
def finish (s : SleepKernel) (id : TaskId) : SleepKernel :=
  match s.sleeps id with
  | none => s
  | some call =>
    { s with
      sleeps := Function.update s.sleeps id none
      returns := ⟨call.due, s.clock⟩ :: s.returns }

/-- The CPU has been given up.  Whoever `reschedule` has picked goes on behind its own `yield_now`;
if it has picked nobody there is no switch, and the caller goes on. -/
def switched (s : SleepKernel) (t : TimedKernel) : SleepKernel :=
  match t.current.or s.timed.current with
  | none => { s with timed := t }
  | some c => finish { s with timed := t } c.id

/-- What becomes of the calls in a step to `t`. -/
def observe (s : SleepKernel) (op : TimedOp) (t : TimedKernel) : SleepKernel :=
  match op with
  | .timer _ _ _ => { s with timed := t, clock := s.clock + 1 }
  | .sleep _ ticks =>
    match s.timed.current with
    -- without a current task nothing is done
    | none => { s with timed := t, returns := ⟨s.clock + ticks.toNat, s.clock⟩ :: s.returns }
    | some c =>
      { s with
        timed := t
        sleeps := Function.update s.sleeps c.id
          (some ⟨s.clock + ticks.toNat, s.timed.kernel.ticks + ticks⟩) }
  | .yieldNow | .blockAndYield | .exitCurrent => s.switched t
  | .proceed => if s.timed.phase.wait.isSome then s.switched t else { s with timed := t }
  | _ => { s with timed := t }

/-- The state after a step; `none` is a panic, or a step that cannot be taken now. -/
def step (rule : HeapRule DeadlineEntry) (s : SleepKernel) (op : TimedOp) : Option SleepKernel :=
  (s.timed.step rule op).map (s.observe op)

/-- Nobody has called `sys_sleep`. -/
def boot (frames : Option BitmapFrameAllocator) (pageTable : PageTable) : SleepKernel :=
  ⟨.boot frames pageTable, 0, fun _ => none, []⟩

/-- Any steps after boot, interrupted at any time. -/
def system (rule : HeapRule DeadlineEntry) (frames : Option BitmapFrameAllocator)
    (pageTable : PageTable) : TransitionSystem SleepKernel TimedOp :=
  .ofPartial (boot frames pageTable) (step rule)

/-- Every call that has returned took its time. -/
def OnTime (s : SleepKernel) : Prop := ∀ r ∈ s.returns, r.due ≤ r.tick

/-- The task is in a call whose time has not come. -/
def Early (s : SleepKernel) (id : TaskId) : Prop := ∃ call ∈ s.sleeps id, s.clock < call.due

/-- No call has returned before its time, and none is about to. -/
structure Rested (s : SleepKernel) : Prop where
  onTime : s.OnTime
  asleep : ∀ id, s.Early id → s.timed.Asleep id

/-- A step that cuts no sleep short. -/
def Careful (s : SleepKernel) : TimedOp → Prop
  -- no call wakes a sleeper
  | .call op => ∀ id ∈ s.timed.kernel.wakes op, ¬s.Early id
  | .request recipient payload senderCap timeoutTicks unlocked => ∀ c ∈ s.timed.current,
      ∀ id ∈ s.timed.kernel.wakes
        (.gated (.request c.id recipient payload senderCap timeoutTicks unlocked)), ¬s.Early id
  -- somebody is there to sleep
  | .sleep _ ticks => s.timed.current = none → ticks = 0
  -- another task is ready when the sleeper blocks, and no reply wakes a sleeper
  | .proceed => (s.timed.phase.wait = some .sleep → s.timed.kernel.tasks.sched.queues.queued = [] →
      ∀ c ∈ s.timed.current, ¬s.Early c.id) ∧ ∀ id ∈ s.timed.phase.wakes, ¬s.Early id
  -- nothing but its own deadline wakes a sleeper at a tick
  | .timer pendingUnlocked deadlinesUnlocked true => ∀ id ∈ s.timed.blockedIds,
      ∀ call ∈ s.sleeps id, s.clock + 1 < call.due →
        ¬s.timed.Disturbs pendingUnlocked deadlinesUnlocked id call.deadline
  | _ => True

instance (s : SleepKernel) (id : TaskId) : Decidable (s.Early id) :=
  inferInstanceAs (Decidable (∃ call ∈ s.sleeps id, _))

instance (s : SleepKernel) : (op : TimedOp) → Decidable (s.Careful op)
  | .call op => inferInstanceAs (Decidable (∀ id ∈ s.timed.kernel.wakes op, _))
  | .request _ _ _ _ _ => inferInstanceAs (Decidable (∀ c ∈ s.timed.current,
      ∀ id ∈ s.timed.kernel.wakes _, _))
  | .sleep _ ticks => inferInstanceAs (Decidable (s.timed.current = none → ticks = 0))
  | .proceed => inferInstanceAs (Decidable ((_ → _ → ∀ c ∈ s.timed.current, _) ∧
      ∀ id ∈ s.timed.phase.wakes, _))
  | .timer _ _ true => inferInstanceAs (Decidable (∀ id ∈ s.timed.blockedIds,
      ∀ call ∈ s.sleeps id, _ → _))
  | .timer _ _ false | .yieldNow | .blockAndYield | .exitCurrent | .schedule _ _ | .cancel _
  | .reply _ _ _ _ _ => .isTrue trivial

variable {rule : HeapRule DeadlineEntry} {s t : SleepKernel} {u : TimedKernel} {op : TimedOp}
  {id x : TaskId}

/-! ## What a return changes -/

theorem early_finish : (s.finish id).Early x ↔ x ≠ id ∧ s.Early x := by
  rw [finish]
  split
  · next hnone =>
    refine ⟨fun h => ⟨?_, h⟩, And.right⟩
    rintro rfl
    obtain ⟨call, hcall, -⟩ := h
    rw [hnone] at hcall
    cases hcall
  · next call hcall =>
    by_cases hx : x = id
    · subst hx
      simp [Early]
    · simp [Early, hx]

theorem onTime_finish : (s.finish id).OnTime ↔ s.OnTime ∧ ¬s.Early id := by
  rw [finish]
  split
  · next hnone => simp [Early, hnone]
  · next call hcall =>
    simp only [OnTime, Early, hcall, List.forall_mem_cons, Option.mem_some, exists_eq_left',
      Nat.not_lt]
    exact and_comm

theorem timed_finish : (s.finish id).timed = s.timed := by
  rw [finish]
  split <;> rfl

/-- A switch after which every sleeper is blocked is in order, unless the caller goes on too
early. -/
theorem rested_switched_iff (hs : s.OnTime) (hcustody : u.kernel.tasks.Custody)
    (hblocked : ∀ x, s.Early x → x ∈ u.blockedIds) :
    (s.switched u).Rested ↔ (u.current = none → ∀ c ∈ s.timed.current, ¬s.Early c.id) := by
  have hrested : ∀ id, (finish { s with timed := u } id).Rested ↔ ¬s.Early id := by
    intro id
    constructor
    · intro h
      exact (onTime_finish.mp h.onTime).2
    · intro h
      refine ⟨onTime_finish.mpr ⟨hs, h⟩, fun x hx => ?_⟩
      rw [timed_finish]
      exact .inl (hblocked x (early_finish.mp hx).2)
  rw [switched]
  cases hcurrent : u.current with
  | some c =>
    rw [Option.some_or]
    refine iff_of_true ((hrested c.id).mpr fun hearly => ?_) (by rintro ⟨⟩)
    exact TimedKernel.current_notMem_blockedIds hcustody hcurrent (hblocked c.id hearly)
  | none =>
    rw [Option.none_or]
    cases hcaller : s.timed.current with
    | none => exact iff_of_true ⟨hs, fun x hx => .inl (hblocked x hx)⟩ (by rintro - c ⟨⟩)
    | some c => simpa using hrested c.id

/-! ## What a step does to the sleepers -/

theorem Rested.blocked (h : s.Rested) (hphase : s.timed.phase.sleeping = false)
    (hx : s.Early x) : x ∈ s.timed.blockedIds := by
  refine (h.asleep x hx).resolve_right ?_
  rintro ⟨hsleeping, -⟩
  rw [hphase] at hsleeping
  cases hsleeping

theorem Rested.not_early_current (h : s.Rested) (hcustody : s.timed.kernel.tasks.Custody)
    (hphase : s.timed.phase.sleeping = false) {c : Task} (hc : c ∈ s.timed.current) :
    ¬s.Early c.id :=
  fun hearly => TimedKernel.current_notMem_blockedIds hcustody hc (h.blocked hphase hearly)

/-- A call that is not `sys_sleep`, and does not switch, must not wake a sleeper. -/
theorem Rested.leaves_iff {woken : Option TaskId} (hs : s.Rested)
    (hcustody : s.timed.kernel.tasks.Custody) (hphase : s.timed.phase.sleeping = false)
    (h : s.timed.kernel.Leaves woken u.kernel) (hphase' : u.phase.sleeping = false) :
    Rested { s with timed := u } ↔ ∀ id ∈ woken, ¬s.Early id := by
  have hmem : ∀ {x}, x ∈ u.blockedIds ↔ x ∈ s.timed.blockedIds ∧ x ∉ woken :=
    h.mem_blockedIds (TimedKernel.nodup_blockedIds hcustody)
  constructor
  · intro ht id hid hearly
    exact (hmem.mp (ht.blocked hphase' hearly)).2 hid
  · intro hwoken
    refine ⟨hs.onTime, fun x hx => .inl (hmem.mpr ⟨hs.blocked hphase hx, fun hid => ?_⟩)⟩
    exact hwoken x hid hx

/-- Only a task that blocks in `sys_sleep` can go on too early when it gives up the CPU. -/
theorem Rested.switched (hs : s.Rested) (hcustody : s.timed.kernel.tasks.Custody)
    (hphase : s.timed.phase.sleeping = false) (hcustody' : u.kernel.tasks.Custody)
    (hblocked : s.timed.blockedIds ⊆ u.blockedIds) : (s.switched u).Rested := by
  have hearly : ∀ x, s.Early x → x ∈ u.blockedIds := fun x hx => hblocked (hs.blocked hphase hx)
  exact (rested_switched_iff hs.onTime hcustody' hearly).mpr fun _ c hc =>
    hs.not_early_current hcustody hphase hc

/-- A sleeper that blocks needs another task that is ready. -/
theorem Rested.block_iff {masked : Bool} (hs : s.Rested)
    (hcustody : s.timed.kernel.tasks.Custody) (hphase : s.timed.phase = .scheduled masked)
    (h : s.timed.block .sleep = some u) (hcustody' : u.kernel.tasks.Custody) :
    (s.switched u).Rested ↔ s.Careful .proceed := by
  have hblocks := TimedKernel.blocks_of_block hcustody h
  have hblocked : ∀ x, s.Early x → x ∈ u.blockedIds := fun x hx =>
    hblocks.mem_blockedIds.mpr ((hs.asleep x hx).imp_right And.right)
  rw [rested_switched_iff hs.onTime hcustody' hblocked, TimedKernel.current_block_eq_none_iff h]
  simp [Careful, hphase, Phase.wait, Phase.wakes]

/-- `sys_sleep` without a current task must be given no time. -/
theorem Rested.idle_iff (hs : s.Rested) (ticks : UInt64) :
    Rested { s with returns := ⟨s.clock + ticks.toNat, s.clock⟩ :: s.returns } ↔ ticks = 0 := by
  have hzero : s.clock + ticks.toNat ≤ s.clock ↔ ticks = 0 := by
    rw [← UInt64.toNat_inj, UInt64.toNat_zero]
    omega
  constructor
  · intro h
    exact hzero.mp (h.onTime _ List.mem_cons_self)
  · intro h
    exact ⟨List.forall_mem_cons.mpr ⟨hzero.mpr h, hs.onTime⟩, hs.asleep⟩

theorem Rested.sleep (hs : s.Rested) (hphase : s.timed.phase.sleeping = false) {c : Task}
    (hc : s.timed.current = some c) (call : SleepCall) (masked : Bool) (deadline : UInt64) :
    Rested { s with
      timed := { s.timed with phase := .sleep masked c.id deadline }
      sleeps := Function.update s.sleeps c.id (some call) } := by
  refine ⟨hs.onTime, fun x hx => ?_⟩
  by_cases hid : x = c.id
  · exact .inr ⟨rfl, c, hc, hid.symm⟩
  · obtain ⟨call', hcall, hdue⟩ := hx
    have hcall : call' ∈ s.sleeps x := by
      rwa [← Function.update_of_ne hid (some call) s.sleeps]
    exact .inl (hs.blocked hphase ⟨call', hcall, hdue⟩)

/-! ## The clock -/

/-- The clock runs with `ticks`, and a deadline whose time has not come is as far ahead. -/
structure Clocked (s : SleepKernel) : Prop where
  ticks : s.timed.kernel.ticks.toNat = s.clock % 2 ^ 64
  deadline : ∀ id, ∀ call ∈ s.sleeps id, s.clock < call.due →
    call.deadline.toNat + s.clock = call.due + s.timed.kernel.ticks.toNat

/-- Until then a deadline is reached no sooner by `ticks`. -/
theorem Clocked.lt_deadline (h : s.Clocked) {call : SleepCall} (hcall : call ∈ s.sleeps id)
    (hdue : s.clock + 1 < call.due) :
    (s.timed.kernel.ticks + 1).toNat = s.timed.kernel.ticks.toNat + 1 ∧
      s.timed.kernel.ticks + 1 < call.deadline := by
  have heq := h.deadline id call hcall (by omega)
  have hlt := call.deadline.toNat_lt
  have hsucc : (s.timed.kernel.ticks + 1).toNat = s.timed.kernel.ticks.toNat + 1 := by
    rw [UInt64.toNat_add, UInt64.toNat_one, Nat.mod_eq_of_lt (by omega)]
  refine ⟨hsucc, ?_⟩
  rw [UInt64.lt_iff_toNat_lt, hsucc]
  omega

/-- A step that calls nothing new and takes no time. -/
theorem Clocked.of_sleeps (h : s.Clocked) (hticks : t.timed.kernel.ticks = s.timed.kernel.ticks)
    (hclock : t.clock = s.clock) (hsleeps : ∀ id, ∀ call ∈ t.sleeps id, call ∈ s.sleeps id) :
    t.Clocked where
  ticks := by rw [hticks, hclock, h.ticks]
  deadline id call hcall hdue := by
    rw [hclock] at hdue ⊢
    rw [hticks]
    exact h.deadline id call (hsleeps id call hcall) hdue

theorem clock_finish : (s.finish id).clock = s.clock := by
  rw [finish]
  split <;> rfl

theorem mem_sleeps_finish {call : SleepCall} (h : call ∈ (s.finish id).sleeps x) :
    call ∈ s.sleeps x := by
  rw [finish] at h
  split at h
  · exact h
  · by_cases hx : x = id
    · subst hx
      simp at h
    · simpa [hx] using h

theorem Clocked.switched (h : s.Clocked) (hticks : u.kernel.ticks = s.timed.kernel.ticks) :
    (s.switched u).Clocked := by
  rw [SleepKernel.switched]
  split
  · exact h.of_sleeps hticks rfl fun _ _ => id
  · refine h.of_sleeps ?_ clock_finish fun _ _ => mem_sleeps_finish
    rw [timed_finish]
    exact hticks

theorem ticks_reschedule {k k' : Kernel} (h : k.step .reschedule = some k') :
    k'.ticks = k.ticks := by
  obtain ⟨change, reaped, sched, -, frames, mailboxes, rfl⟩ := Kernel.reschedule_cases h
  rfl

theorem ticks_withTasks {k k' : Kernel} {taskOp : TaskOp} (h : k.withTasks taskOp = some k') :
    k'.ticks = k.ticks := by
  obtain ⟨tasks, -, rfl⟩ := Option.map_eq_some_iff.mp h
  rfl

theorem ticks_block {u' : TimedKernel} {wait : Wait} (h : u.block wait = some u') :
    u'.kernel.ticks = u.kernel.ticks := by
  obtain ⟨k₁, k₂, hblock, hres, rfl⟩ := TimedKernel.block_eq_some h
  exact (ticks_reschedule hres).trans (ticks_withTasks hblock)

theorem ticks_timer (u : TimedKernel) (pendingUnlocked deadlinesUnlocked unlocked : Bool) :
    (u.timer rule pendingUnlocked deadlinesUnlocked unlocked).kernel.ticks =
      u.kernel.ticks + 1 := by
  obtain ⟨ids, deadlines, htimer, -⟩ :=
    TimedKernel.timer_eq rule u pendingUnlocked deadlinesUnlocked unlocked
  obtain ⟨pending, taskIds, hcount⟩ := u.kernel.countTick_frame pendingUnlocked unlocked
  rw [htimer, Kernel.wakeAll_eq, hcount]

theorem Clocked.timer (h : s.Clocked) (pendingUnlocked deadlinesUnlocked unlocked : Bool) :
    Clocked { s with
      timed := s.timed.timer rule pendingUnlocked deadlinesUnlocked unlocked
      clock := s.clock + 1 } where
  ticks := by
    rw [ticks_timer, UInt64.toNat_add, UInt64.toNat_one, h.ticks, Nat.mod_add_mod]
  deadline id call hcall hdue := by
    have hdue : s.clock + 1 < call.due := hdue
    have heq := h.deadline id call hcall (by omega)
    rw [ticks_timer, (h.lt_deadline hcall hdue).1]
    dsimp only
    omega

/-- The deadline that `sys_sleep` computes does not wrap. -/
theorem Clocked.sleep (h : s.Clocked) {c : TaskId} {ticks : UInt64} (phase : Phase)
    (hfits : s.timed.kernel.DeadlineFits ticks) :
    Clocked { s with
      timed := { s.timed with phase }
      sleeps := Function.update s.sleeps c
        (some ⟨s.clock + ticks.toNat, s.timed.kernel.ticks + ticks⟩) } where
  ticks := h.ticks
  deadline id call hcall hdue := by
    dsimp only at hcall hdue ⊢
    by_cases hid : id = c
    · subst hid
      rw [Function.update_self, Option.mem_some] at hcall
      subst hcall
      dsimp only
      rw [UInt64.toNat_add, Nat.mod_eq_of_lt hfits]
      omega
    · rw [Function.update_of_ne hid] at hcall
      exact h.deadline id call hcall hdue

/-! ## The timer interrupt -/

section Timer

variable {pendingUnlocked deadlinesUnlocked unlocked : Bool}

theorem timer_frame (rule : HeapRule DeadlineEntry) (u : TimedKernel)
    (pendingUnlocked deadlinesUnlocked unlocked : Bool) :
    (u.timer rule pendingUnlocked deadlinesUnlocked unlocked).phase = u.phase ∧
      (u.timer rule pendingUnlocked deadlinesUnlocked unlocked).current = u.current := by
  obtain ⟨ids, deadlines, htimer, -⟩ :=
    TimedKernel.timer_eq rule u pendingUnlocked deadlinesUnlocked unlocked
  rw [htimer]
  exact ⟨rfl, ((u.kernel.settles_countTick pendingUnlocked unlocked).trans
    (Kernel.settles_wakeAll _ ids unlocked)).current⟩

/-- At a tick the sleepers must stay blocked whose time does not come with it. -/
theorem Rested.timer_iff (hs : s.Rested) (hcustody : s.timed.kernel.tasks.Custody) :
    Rested { s with
      timed := s.timed.timer rule pendingUnlocked deadlinesUnlocked unlocked
      clock := s.clock + 1 } ↔
      ∀ id ∈ s.timed.blockedIds, ∀ call ∈ s.sleeps id, s.clock + 1 < call.due →
        id ∈ (s.timed.timer rule pendingUnlocked deadlinesUnlocked unlocked).blockedIds := by
  obtain ⟨hphase, hcurrent⟩ :=
    timer_frame rule s.timed pendingUnlocked deadlinesUnlocked unlocked
  constructor
  · intro h id hid call hcall hdue
    refine (h.asleep id ⟨call, hcall, hdue⟩).resolve_right ?_
    rintro ⟨-, c, hc, rfl⟩
    have hc : c ∈ s.timed.current := hcurrent ▸ hc
    exact TimedKernel.current_notMem_blockedIds hcustody hc hid
  · intro h
    refine ⟨hs.onTime, ?_⟩
    rintro x ⟨call, hcall, hdue⟩
    have hdue : s.clock + 1 < call.due := hdue
    rcases hs.asleep x ⟨call, hcall, by omega⟩ with hblocked | ⟨hsleeping, c, hc, rfl⟩
    · exact .inl (h x hblocked call hcall hdue)
    · refine .inr ⟨?_, c, ?_, rfl⟩
      · rw [hphase]
        exact hsleeping
      · rw [hcurrent]
        exact hc

/-- A sleeper whose time does not come is woken by the tick exactly if something else is due. -/
theorem Clocked.mem_blockedIds_timer_iff (h : s.Clocked)
    (hcustody : s.timed.kernel.tasks.Custody) (hid : id ∈ s.timed.blockedIds) {call : SleepCall}
    (hcall : call ∈ s.sleeps id) (hdue : s.clock + 1 < call.due) :
    id ∈ (s.timed.timer rule pendingUnlocked deadlinesUnlocked true).blockedIds ↔
      ¬s.timed.Disturbs pendingUnlocked deadlinesUnlocked id call.deadline := by
  rw [TimedKernel.mem_blockedIds_timer_true hcustody, TimedKernel.Disturbs]
  have hpops : ∀ e, s.timed.Pops deadlinesUnlocked e → e.deadlineTick < call.deadline := by
    rintro e ⟨-, hle⟩
    exact UInt64.lt_of_le_of_lt hle (h.lt_deadline hcall hdue).2
  constructor
  · rintro ⟨-, hexpires, hnone⟩ (⟨e, he, heq, -, hpop⟩ | ⟨m, hm, req, hreq, heq⟩)
    · exact hnone ⟨e, he, hpop, heq⟩
    · exact hexpires m (Kernel.mem_due.mp hm) req hreq heq
  · intro hnone
    refine ⟨hid, fun m hm req hreq heq => hnone (.inr ?_), ?_⟩
    · exact ⟨m, Kernel.mem_due.mpr hm, req, hreq, heq⟩
    · rintro ⟨e, he, hpop, heq⟩
      exact hnone (.inl ⟨e, he, heq, hpops e hpop, hpop⟩)

end Timer

end SleepKernel

/-! ## Steps of the timed kernel -/

namespace TimedKernel

variable {rule : HeapRule DeadlineEntry} {s t : TimedKernel} {op : TimedOp}

/-- A step that neither is an interrupt nor goes on with a call begins between two calls. -/
theorem begins_of_step (h : s.step rule op = some t)
    (htimer : ∀ pendingUnlocked deadlinesUnlocked unlocked,
      op ≠ .timer pendingUnlocked deadlinesUnlocked unlocked) (hproceed : op ≠ .proceed) :
    s.phase = .between ∧ s.Begins op t := by
  rcases step_cases h with ⟨_, _, _, heq, -, -⟩ | ⟨heq, -⟩ | ⟨heq, -⟩ | ⟨heq, -⟩ | ⟨heq, -⟩ | hbegin
  · exact absurd heq (htimer _ _ _)
  · exact absurd heq hproceed
  · exact absurd heq hproceed
  · exact absurd heq hproceed
  · exact absurd heq hproceed
  · exact hbegin

/-- Only the timer interrupt counts. -/
theorem ticks_begins (h : s.Begins op t) : t.kernel.ticks = s.kernel.ticks := by
  cases h with
  | call hplain hstep => exact (Kernel.leaves_step hplain hstep).ticks
  | yieldNow hres => exact SleepKernel.ticks_reschedule hres
  | block hblock => exact SleepKernel.ticks_block hblock
  | exit hkill hres =>
    exact (SleepKernel.ticks_reschedule hres).trans (SleepKernel.ticks_withTasks hkill)
  | requested _ hstep _ => exact (Kernel.leaves_step (KernelOp.isPlain_gated _) hstep).ticks
  | refused _ hstep => exact (Kernel.leaves_step (KernelOp.isPlain_gated _) hstep).ticks
  | _ => rfl

/-- Only the timer moves the clock. -/
theorem ticks_step (h : s.step rule op = some t)
    (htimer : ∀ pendingUnlocked deadlinesUnlocked unlocked,
      op ≠ .timer pendingUnlocked deadlinesUnlocked unlocked) :
    t.kernel.ticks = s.kernel.ticks := by
  rcases step_cases h with ⟨_, _, _, heq, -, -⟩ | ⟨-, masked, taskId, deadline, -, rfl⟩ |
    ⟨-, masked, -, hblock⟩ | ⟨-, m, -, hblock⟩ | ⟨-, m, msg, unlocked, -, rfl⟩ | ⟨-, hbegin⟩
  · exact absurd heq (htimer _ _ _)
  · rfl
  · exact SleepKernel.ticks_block hblock
  · exact SleepKernel.ticks_block hblock
  · exact (s.kernel.leaves_leaveReply m msg unlocked).ticks
  · exact ticks_begins hbegin

end TimedKernel

namespace SleepKernel

variable {rule : HeapRule DeadlineEntry} {s t : SleepKernel} {u : TimedKernel} {op : TimedOp}
  {id x : TaskId}

/-! ## The steps that cut no sleep short -/

section Runs

variable {frames : Option BitmapFrameAllocator} {pageTable : PageTable}

open TransitionSystem

theorem timed_switched : (s.switched u).timed = u := by
  rw [switched]
  split
  · rfl
  · exact timed_finish

theorem timed_observe : (s.observe op u).timed = u := by
  cases op with
  | sleep masked ticks =>
    rw [observe]
    split <;> rfl
  | yieldNow => exact timed_switched
  | blockAndYield => exact timed_switched
  | exitCurrent => exact timed_switched
  | proceed =>
    rw [observe]
    split
    · exact timed_switched
    · rfl
  | _ => rfl

/-- **The calls are followed beside the kernel**, which takes its own steps. -/
theorem timed_projects : (system rule frames pageTable).Projects
    (TimedKernel.system rule frames pageTable) timed where
  init := by
    rintro s rfl
    rfl
  step := by
    intro s op t h
    obtain ⟨u, hu, rfl⟩ := Option.map_eq_some_iff.mp h
    rw [timed_observe]
    exact ⟨[op], .cons hu (.nil u)⟩

theorem Clocked.observe (hs : s.Clocked) (h : s.timed.step rule op = some u) :
    (s.observe op u).Clocked := by
  have hticks := TimedKernel.ticks_step h
  cases op with
  | timer pendingUnlocked deadlinesUnlocked unlocked =>
    rw [TimedKernel.step] at h
    split_ifs at h
    obtain rfl := Option.some.inj h
    exact hs.timer pendingUnlocked deadlinesUnlocked unlocked
  | sleep masked ticks =>
    obtain ⟨-, hbegin⟩ := TimedKernel.begins_of_step h (by rintro _ _ _ ⟨⟩) (by rintro ⟨⟩)
    cases hbegin with
    | idle _ _ _ hnone =>
      simp only [SleepKernel.observe, TimedKernel.current, hnone]
      exact hs.of_sleeps rfl rfl fun _ _ => id
    | sleep _ _ hfits hc =>
      simp only [SleepKernel.observe, TimedKernel.current, hc]
      exact hs.sleep _ hfits
  | yieldNow => exact hs.switched (hticks (by rintro _ _ _ ⟨⟩))
  | blockAndYield => exact hs.switched (hticks (by rintro _ _ _ ⟨⟩))
  | exitCurrent => exact hs.switched (hticks (by rintro _ _ _ ⟨⟩))
  | proceed =>
    rw [SleepKernel.observe]
    split
    · exact hs.switched (hticks (by rintro _ _ _ ⟨⟩))
    · exact hs.of_sleeps (hticks (by rintro _ _ _ ⟨⟩)) rfl fun _ _ => id
  | _ => exact hs.of_sleeps (hticks (by rintro _ _ _ ⟨⟩)) rfl fun _ _ => id

theorem clocked_invariant : (system rule frames pageTable).Invariant Clocked where
  init := by
    rintro s rfl
    exact ⟨rfl, fun id call hcall => by cases hcall⟩
  step := by
    rintro s op t hs h
    obtain ⟨u, hu, rfl⟩ := Option.map_eq_some_iff.mp h
    exact hs.observe hu

/-- The first half of a call keeps the sleepers at rest iff it is careful. -/
theorem Rested.begins_iff (hs : s.Rested) (hcustody : s.timed.kernel.tasks.Custody)
    (hsound : s.timed.Sound) (hcustody' : u.kernel.tasks.Custody)
    (hphase : s.timed.phase = .between) (h : s.timed.Begins op u) :
    (s.observe op u).Rested ↔ s.Careful op := by
  have hquiet : s.timed.phase.sleeping = false := by rw [hphase]; rfl
  have hidle : ∀ {u : TimedKernel}, u.kernel.ticks = s.timed.kernel.ticks →
      u.kernel.tasks = s.timed.kernel.tasks → u.phase.sleeping = false →
        Rested { s with timed := u } := by
    intro u hticks htasks hphase'
    have hleaves := Kernel.leaves_of_tasks_eq hticks htasks
    refine (hs.leaves_iff hcustody hquiet hleaves hphase').mpr ?_
    rintro _ ⟨⟩
  cases h with
  | call hplain hstep =>
    exact hs.leaves_iff hcustody hquiet (Kernel.leaves_step hplain hstep) hquiet
  | yieldNow hres =>
    have hresigns := TimedKernel.resigns_yieldNow hsound hres
    refine iff_of_true (hs.switched hcustody hquiet hcustody' fun x hx => ?_) trivial
    exact hresigns.blocked ▸ hx
  | block hblock =>
    have hblocks := TimedKernel.blocks_of_block hcustody hblock
    refine iff_of_true (hs.switched hcustody hquiet hcustody' fun x hx => ?_) trivial
    exact hblocks.mem_blockedIds.mpr (.inl hx)
  | exit hkill hres =>
    have hresigns := TimedKernel.resigns_exit hkill hres
    refine iff_of_true (hs.switched hcustody hquiet hcustody' fun x hx => ?_) trivial
    exact hresigns.blocked ▸ hx
  | idle masked ticks _ hnone =>
    simp only [observe, Careful, TimedKernel.current, hnone, forall_const]
    exact hs.idle_iff ticks
  | sleep masked ticks _ hc =>
    simp only [observe, Careful, TimedKernel.current, hc]
    exact iff_of_true (hs.sleep hquiet hc _ masked _) (by rintro ⟨⟩)
  | schedule taskId deadlineTick => exact iff_of_true (hidle rfl rfl hquiet) trivial
  | cancel callbackId => exact iff_of_true (hidle rfl rfl hquiet) trivial
  | requested hc hstep =>
    simp only [observe, Careful, TimedKernel.current, hc, Option.mem_some, forall_eq']
    exact hs.leaves_iff hcustody hquiet (Kernel.leaves_step (KernelOp.isPlain_gated _) hstep) rfl
  | refused hc hstep =>
    simp only [observe, Careful, TimedKernel.current, hc, Option.mem_some, forall_eq']
    exact hs.leaves_iff hcustody hquiet (Kernel.leaves_step (KernelOp.isPlain_gated _) hstep) hquiet
  | replying msg => exact iff_of_true (hidle rfl rfl rfl) trivial
  | unasked => exact iff_of_true (hidle rfl rfl hquiet) trivial

/-- So does the second half. -/
theorem Rested.proceed_iff (hs : s.Rested) (hcustody : s.timed.kernel.tasks.Custody)
    (hcustody' : u.kernel.tasks.Custody) (h : s.timed.step rule .proceed = some u) :
    (s.observe .proceed u).Rested ↔ s.Careful .proceed := by
  rcases TimedKernel.step_cases h with ⟨_, _, _, heq, -, -⟩ |
    ⟨-, masked, taskId, deadline, hphase, rfl⟩ | ⟨-, masked, hphase, hblock⟩ |
    ⟨-, m, hphase, hblock⟩ | ⟨-, m, msg, unlocked, hphase, rfl⟩ | ⟨-, hbegin⟩
  · cases heq
  · have hwait : s.timed.phase.wait = none := by rw [hphase]; rfl
    rw [observe, hwait]
    refine iff_of_true ⟨hs.onTime, fun x hx => ?_⟩ ?_
    · exact (hs.asleep x hx).imp_right fun h => ⟨rfl, h.2⟩
    · simp [Careful, hphase, Phase.wait, Phase.wakes]
  · have hwait : s.timed.phase.wait.isSome = true := by rw [hphase]; rfl
    rw [observe, if_pos hwait]
    exact hs.block_iff hcustody hphase hblock hcustody'
  · have hwait : s.timed.phase.wait.isSome = true := by rw [hphase]; rfl
    have hquiet : s.timed.phase.sleeping = false := by rw [hphase]; rfl
    have hblocks := TimedKernel.blocks_of_block hcustody hblock
    rw [observe, if_pos hwait]
    refine iff_of_true (hs.switched hcustody hquiet hcustody' fun x hx => ?_) ?_
    · exact hblocks.mem_blockedIds.mpr (.inl hx)
    · simp [Careful, hphase, Phase.wait, Phase.wakes]
  · have hwait : s.timed.phase.wait = none := by rw [hphase]; rfl
    have hquiet : s.timed.phase.sleeping = false := by rw [hphase]; rfl
    have hwakes : s.timed.phase.wakes = if unlocked then some msg.recipient else none := by
      rw [hphase]
      rfl
    rw [observe, hwait, Careful, hwait, hwakes]
    simp only [reduceCtorEq, IsEmpty.forall_iff, true_and]
    exact hs.leaves_iff hcustody hquiet (s.timed.kernel.leaves_leaveReply m msg unlocked) rfl
  · cases hbegin

theorem Rested.observe_timer_iff {pendingUnlocked deadlinesUnlocked unlocked : Bool}
    (hs : s.Rested) (hclocked : s.Clocked) (hcustody : s.timed.kernel.tasks.Custody) :
    (s.observe (.timer pendingUnlocked deadlinesUnlocked unlocked)
      (s.timed.timer rule pendingUnlocked deadlinesUnlocked unlocked)).Rested ↔
      s.Careful (.timer pendingUnlocked deadlinesUnlocked unlocked) := by
  rw [observe, hs.timer_iff hcustody]
  cases unlocked with
  | false =>
    refine iff_of_true (fun id hid _ _ _ => ?_) trivial
    rw [TimedKernel.blockedIds_timer_false]
    exact hid
  | true =>
    refine forall₂_congr fun id hid => forall₂_congr fun call hcall => ?_
    refine forall_congr' fun hdue => ?_
    exact hclocked.mem_blockedIds_timer_iff hcustody hid hcall hdue

/-- **A step cuts no sleep short if and only if it is careful.** -/
theorem rested_step_iff (hreach : (system rule frames pageTable).Reachable s) (hs : s.Rested)
    (h : step rule s op = some t) : t.Rested ↔ s.Careful op := by
  have htimed := timed_projects.reachable hreach
  have hcustody := TimedKernel.custody_of_reachable htimed
  have hcustody' := TimedKernel.custody_of_reachable (timed_projects.reachable (hreach.step h))
  obtain ⟨u, hu, rfl⟩ := Option.map_eq_some_iff.mp h
  rw [timed_observe] at hcustody'
  cases op with
  | timer pendingUnlocked deadlinesUnlocked unlocked =>
    rw [TimedKernel.step] at hu
    split_ifs at hu
    obtain rfl := Option.some.inj hu
    exact hs.observe_timer_iff (clocked_invariant.of_reachable hreach) hcustody
  | proceed => exact hs.proceed_iff hcustody hcustody' hu
  | _ =>
    obtain ⟨hphase, hbegin⟩ :=
      TimedKernel.begins_of_step hu (by rintro _ _ _ ⟨⟩) (by rintro ⟨⟩)
    exact hs.begins_iff hcustody (TimedKernel.sound_of_reachable htimed) hcustody' hphase hbegin

/-- Along careful runs every early sleeper rests. -/
theorem rested_invariant : ((system rule frames pageTable).restrict Careful).Invariant
    fun s => (system rule frames pageTable).Reachable s ∧ s.Rested where
  init := by
    rintro s rfl
    refine ⟨.init rfl, List.forall_mem_nil _, ?_⟩
    rintro id ⟨call, hcall, -⟩
    cases hcall
  step := by
    rintro s op t ⟨hreach, hs⟩ ⟨hstep, hcareful⟩
    exact ⟨hreach.step hstep, (rested_step_iff hreach hs hstep).mpr hcareful⟩

/-- `sys_sleep` can be called between two calls, and panics exactly if its deadline overflows. -/
theorem isSome_step_sleep_iff (hphase : s.timed.phase = .between) (masked : Bool) (ticks : UInt64) :
    (step rule s (.sleep masked ticks)).isSome ↔ s.timed.kernel.DeadlineFits ticks := by
  rw [step, Option.isSome_map]
  change (if s.timed.phase = .between then s.timed.begin _ else none).isSome ↔ _
  rw [if_pos hphase, TimedKernel.begin]
  split_ifs with hfits
  · refine iff_of_true ?_ hfits
    split <;> rfl
  · exact iff_of_false Bool.false_ne_true hfits

/-- **No sleep is too short in a run of careful steps**.  The next step lets no call return before
its time, and leaves every caller whose time has not come blocked, if and only if it is careful too:
one that only wakes a sleeper has cut nothing short yet, but is not careful.  `sys_sleep` panics
exactly if the deadline it computes does not fit. -/
theorem sleeps_long_enough (h : ((system rule frames pageTable).restrict Careful).Reachable s) :
    s.OnTime ∧ s.timed.kernel.ticks.toNat = s.clock % 2 ^ 64 ∧
      (∀ masked ticks, s.timed.phase = .between →
        ((step rule s (.sleep masked ticks)).isSome ↔ s.timed.kernel.DeadlineFits ticks)) ∧
      ∀ op t, step rule s op = some t → (t.Rested ↔ s.Careful op) := by
  obtain ⟨hreach, hs⟩ := rested_invariant.of_reachable h
  refine ⟨hs.onTime, (clocked_invariant.of_reachable hreach).ticks, ?_, ?_⟩
  · intro masked ticks hphase
    exact isSome_step_sleep_iff hphase masked ticks
  · intro op t hstep
    exact rested_step_iff hreach hs hstep

/-- Of two tasks, the first sleeps for two ticks. -/
def sleepsTwoTicks : List TimedOp :=
  [.call (.spawn .normal), .call (.spawn .normal), .yieldNow, .sleep true 2, .proceed, .proceed,
    .timer true true true, .timer true true true, .yieldNow]

theorem sleepsTwoTicks_isSome : (sleepsTwoTicks.foldlM
    (fun s op => if Careful s op then step DeadlineQueue.firstEarliest s op else none)
    (boot Kernel.sixteenFrames .empty)).isSome := by
  decide +kernel

theorem sleeps_long_enough_twoTicks : ∃ s,
    ((system DeadlineQueue.firstEarliest Kernel.sixteenFrames .empty).restrict
      Careful).Reachable s ∧ s.returns = [⟨2, 2⟩] ∧ s.OnTime :=
  have hreach := reachable_restrict_ofPartial_iff.mpr
    ⟨sleepsTwoTicks, (Option.some_get sleepsTwoTicks_isSome).symm⟩
  ⟨_, hreach, by decide +kernel, (sleeps_long_enough hreach).1⟩

/-- Of two tasks, the first sleeps for five ticks, and the second sends it a message. -/
def messaged : List TimedOp :=
  [.call (.capability (.createRoot 2 (.agent 1) .all)), .call (.spawn .normal),
    .call (.spawn .normal), .call (.registerMailbox 1), .yieldNow, .sleep true 5, .proceed,
    .proceed, .call (.gated (.send 2 1 .data [] none none 1 true)), .yieldNow]

/-- The only task sleeps for five ticks. -/
def sleepsAlone : List TimedOp :=
  [.call (.spawn .normal), .yieldNow, .sleep true 5, .proceed, .proceed]

/-- The only task runs, after the first tick. -/
def ticksOnce : List TimedOp := [.call (.spawn .normal), .yieldNow, .timer true true true]

/-- **Sleeps that are cut short**: in both runs a call that is due at tick 5 returns at tick 0.  And
with the greatest argument `sys_sleep` panics after the first tick. -/
theorem sleep_cut_short :
    (∀ ops ∈ [messaged, sleepsAlone], ∃ s,
      ops.foldlM (step DeadlineQueue.firstEarliest) (boot Kernel.sixteenFrames .empty) = some s ∧
        s.returns = [⟨5, 0⟩] ∧ ¬s.OnTime) ∧
      ∃ s, ticksOnce.foldlM (step DeadlineQueue.firstEarliest)
        (boot Kernel.sixteenFrames .empty) = some s ∧ s.timed.phase = .between ∧
          step DeadlineQueue.firstEarliest s (.sleep true 0xFFFFFFFFFFFFFFFF) = none := by
  have hreturns : ∀ ops ∈ [messaged, sleepsAlone],
      (ops.foldlM (step DeadlineQueue.firstEarliest)
        (boot Kernel.sixteenFrames .empty)).map returns = some [⟨5, 0⟩] := by
    decide +kernel
  have hpanics : (ticksOnce.foldlM (step DeadlineQueue.firstEarliest)
      (boot Kernel.sixteenFrames .empty)).map (fun s =>
        (s.timed.phase, s.timed.kernel.ticks)) = some (.between, 1) := by
    decide +kernel
  constructor
  · intro ops hops
    obtain ⟨s, hs, heq⟩ := Option.map_eq_some_iff.mp (hreturns ops hops)
    refine ⟨s, hs, heq, fun hontime => ?_⟩
    have hle : 5 ≤ 0 := hontime ⟨5, 0⟩ (heq ▸ List.mem_singleton_self _)
    omega
  · obtain ⟨s, hs, heq⟩ := Option.map_eq_some_iff.mp hpanics
    obtain ⟨hphase, hticks⟩ := Prod.mk.inj heq
    refine ⟨s, hs, hphase, ?_⟩
    rw [← Option.not_isSome_iff_eq_none, isSome_step_sleep_iff hphase, Kernel.DeadlineFits, hticks]
    decide

end Runs

end SleepKernel

end OxideOS
