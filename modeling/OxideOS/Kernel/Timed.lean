import OxideOS.Kernel.RequestLife
import OxideOS.Task.Machine
import OxideOS.Timer.Deadline

/-!
# The kernel and the timer interrupt

The kernel with the deadline queue, and with what its running task is in the middle of.  The timer
interrupt comes between any two steps of a task with interrupts enabled; it finds the locks of the
interrupted task taken.  Tasks give up the CPU only in `yield_now`, with interrupts disabled: so no
other task takes a step while one is in the middle of a call, and giving up the CPU is one step.

`sys_sleep` takes three steps: it computes the deadline, enters it in the queue, and blocks.  When
it is entered by the `syscall` instruction, interrupts are masked until `yield_now` enables them
again.  A task that waits for the reply to a request takes two steps: it makes the request, and
blocks.  A reply takes two steps: it takes the request out of one table, and enters its message in
the other and wakes the requester.  What a task has blocked for is not kept by the kernel; it is
kept here, beside the kernel.

The calls of other tasks are the steps of `Kernel.system`.

## Main definitions

* `TimedKernel`, `TimedKernel.step`, `TimedKernel.system`
* `TimedKernel.timer`: the timer interrupt
* `TimedKernel.Begins`: what a step between two calls does
* `Kernel.Settles`: what a call cannot do to the tasks that have blocked

## Main results

* `Kernel.settles_step`: what a call that does not switch tasks leaves as it is
* `TimedKernel.step_cases`: what a step does
* `TimedKernel.tasks_projects`: the tasks follow their own system
* `TimedKernel.timer_eq`: whom the deadline queue wakes, and what is left of it
-/

namespace OxideOS

/-- What a task has blocked for. -/
inductive Wait
  | sleep
  | reply (msgId : MessageId)
  | other
deriving DecidableEq

/-- What the running task is in the middle of. -/
inductive Phase
  /-- Nothing: it is between two calls. -/
  | between
  /-- `sys_sleep` has computed the deadline; `masked` tells whether interrupts are disabled. -/
  | sleep (masked : Bool) (taskId : TaskId) (deadline : UInt64)
  /-- `sys_sleep` has entered the deadline, and is about to block. -/
  | scheduled (masked : Bool)
  /-- `request` has returned, and the task is about to block. -/
  | requested (msgId : MessageId)
  /-- `reply` has taken the request out, and is about to leave its message. -/
  | replying (msgId : MessageId) (msg : Message) (unlocked : Bool)
deriving DecidableEq

/-- Interrupts are disabled. -/
def Phase.masked : Phase → Bool
  | .sleep masked _ _ | .scheduled masked => masked
  | .between | .requested _ | .replying _ _ _ => false

structure TimedKernel where
  kernel : Kernel
  /-- `DEADLINES`. -/
  deadlines : DeadlineQueue
  phase : Phase
  waits : TaskId → Wait

/-- The steps of the tasks, and the timer interrupt. -/
inductive TimedOp
  /-- A call that neither switches tasks nor belongs to the timer. -/
  | call (op : KernelOp)
  | yieldNow
  | blockAndYield
  | exitCurrent
  /-- `sys_sleep`, through `syscall_entry` or by a call of `dispatch`. -/
  | sleep (masked : Bool) (ticks : UInt64)
  /-- `timer::deadline::schedule`. -/
  | schedule (taskId : TaskId) (deadlineTick : UInt64)
  /-- `timer::deadline::cancel`. -/
  | cancel (callbackId : Nat)
  /-- `request` by the running task, which will block for the reply. -/
  | request (recipient : TaskId) (payload : List UInt8) (senderCap : CapId)
      (timeoutTicks : UInt64) (unlocked : Bool)
  /-- `request_reply::reply`. -/
  | reply (sender : TaskId) (originalMsgId : MessageId) (payload : List UInt8) (senderCap : CapId)
      (unlocked : Bool)
  /-- The running task goes on with the call it is in. -/
  | proceed
  /-- The timer interrupt; the arguments tell which of `PENDING`, `DEADLINES` and `SCHEDULER` are
  not held by the interrupted task. -/
  | timer (pendingUnlocked deadlinesUnlocked unlocked : Bool)

/-- The calls that neither switch tasks nor belong to the timer, and are one step. -/
def KernelOp.IsPlain : KernelOp → Prop
  | .reschedule | .blockCurrent | .killCurrent | .reply _ _ _ _ _ | .checkTimeouts _ _ | .tick =>
    False
  | _ => True

instance : (op : KernelOp) → Decidable op.IsPlain
  | .reschedule | .blockCurrent | .killCurrent | .reply _ _ _ _ _ | .checkTimeouts _ _ | .tick =>
    .isFalse id
  | .capability _ | .spawn _ | .unblock _ | .registerMailbox _ | .unregisterMailbox _
  | .receive _ | .createChannel _ | .unsubscribe _ _ | .collectReply _ | .gated _ => .isTrue trivial

theorem KernelOp.isPlain_gated (call : GatedCall) : (gated call).IsPlain := trivial

/-- Wake these tasks, as far as the scheduler can be locked. -/
def Kernel.wakeAll (k : Kernel) (ids : List TaskId) (unlocked : Bool) : Kernel :=
  ids.foldl (fun k id => k.wake id unlocked) k

/-- The first half of `timer_handler`: the tick is counted, and every 50 ticks requests may
expire. -/
def Kernel.countTick (k : Kernel) (pendingUnlocked unlocked : Bool) : Kernel :=
  let k := { k with ticks := k.ticks + 1 }
  if k.ticks % 50 = 0 then k.checkTimeouts pendingUnlocked unlocked else k

namespace TimedKernel

/-- `block_and_yield`, for this. -/
def block (s : TimedKernel) (wait : Wait) : Option TimedKernel := do
  let kernel ← s.kernel.withTasks .blockCurrent
  let kernel ← kernel.reschedule
  let waits :=
    match s.kernel.tasks.sched.current with
    | none => s.waits
    | some current => Function.update s.waits current.id wait
  some { s with kernel, phase := .between, waits }

/-- `timer_handler`, but for the network. -/
def timer (rule : HeapRule DeadlineEntry) (s : TimedKernel)
    (pendingUnlocked deadlinesUnlocked unlocked : Bool) : TimedKernel :=
  let kernel := s.kernel.countTick pendingUnlocked unlocked
  if deadlinesUnlocked then
    let (popped, deadlines) := s.deadlines.checkExpired rule kernel.ticks
    { s with kernel := kernel.wakeAll (popped.map DeadlineEntry.taskId) unlocked, deadlines }
  else { s with kernel }

/-- A step that begins between two calls. -/
def begin (s : TimedKernel) : TimedOp → Option TimedKernel
  | .call op =>
    if op.IsPlain then (s.kernel.step op).map fun kernel => { s with kernel } else none
  | .yieldNow => s.kernel.reschedule.map fun kernel => { s with kernel }
  | .blockAndYield => s.block .other
  | .exitCurrent => do
    let kernel ← s.kernel.withTasks .killCurrent
    let kernel ← kernel.reschedule
    some { s with kernel }
  | .sleep masked ticks =>
    -- the sum is checked for overflow
    if s.kernel.DeadlineFits ticks then
      match s.kernel.tasks.sched.current with
      | none => some s
      | some current => some { s with phase := .sleep masked current.id (s.kernel.ticks + ticks) }
    else none
  | .schedule taskId deadlineTick =>
    some { s with deadlines := (s.deadlines.schedule taskId deadlineTick).2 }
  | .cancel callbackId => some { s with deadlines := s.deadlines.cancel callbackId }
  | .request recipient payload senderCap timeoutTicks unlocked =>
    match s.kernel.tasks.sched.current with
    | none => none
    | some current =>
      match s.kernel.request current.id recipient payload senderCap timeoutTicks unlocked with
      | none => none
      | some (.ok msgId, kernel) => some { s with kernel, phase := .requested msgId }
      | some (.error _, kernel) => some { s with kernel }
  | .reply sender originalMsgId payload _ unlocked =>
    match s.kernel.pending[originalMsgId]? with
    | none => some s
    | some req =>
      some { s with
        kernel := { s.kernel with pending := s.kernel.pending.erase originalMsgId }
        phase := .replying originalMsgId
          (Kernel.replyMsg originalMsgId sender req.requester payload) unlocked }
  | .proceed => none
  | .timer _ _ _ => none

/-- The state after a step; `none` is a panic, or a step that cannot be taken now. -/
def step (rule : HeapRule DeadlineEntry) (s : TimedKernel) : TimedOp → Option TimedKernel
  | .timer pendingUnlocked deadlinesUnlocked unlocked =>
    if s.phase.masked then none
    else some (s.timer rule pendingUnlocked deadlinesUnlocked unlocked)
  | .proceed =>
    match s.phase with
    | .between => none
    | .sleep masked taskId deadline =>
      some { s with
        deadlines := (s.deadlines.schedule taskId deadline).2, phase := .scheduled masked }
    | .scheduled _ => s.block .sleep
    | .requested msgId => s.block (.reply msgId)
    | .replying msgId msg unlocked =>
      some { s with kernel := s.kernel.leaveReply msgId msg unlocked, phase := .between }
  | op => if s.phase = .between then s.begin op else none

/-- Nothing scheduled, and nobody blocked. -/
def boot (frames : Option BitmapFrameAllocator) (pageTable : PageTable) : TimedKernel :=
  ⟨.boot frames pageTable, .new, .between, fun _ => .other⟩

/-- Any steps after boot, interrupted at any time. -/
def system (rule : HeapRule DeadlineEntry) (frames : Option BitmapFrameAllocator)
    (pageTable : PageTable) : TransitionSystem TimedKernel TimedOp :=
  .ofPartial (boot frames pageTable) (step rule)

end TimedKernel

/-! ## What a call leaves as it is -/

/-- The current task stays, nobody is blocked, and requests that have been made are not changed. -/
structure Kernel.Settles (k k' : Kernel) : Prop where
  current : k'.tasks.sched.current = k.tasks.sched.current
  blocked : k'.tasks.sched.blockedIds.Sublist k.tasks.sched.blockedIds
  nextMsgId : k.nextMsgId ≤ k'.nextMsgId
  pending : ∀ (m : MessageId) req, m < k.nextMsgId → k'.pending[m]? = some req →
    k.pending[m]? = some req

namespace Kernel

variable {k k' k'' : Kernel} {op : KernelOp} {taskId : TaskId}

theorem Settles.refl (k : Kernel) : k.Settles k :=
  ⟨rfl, List.Sublist.refl _, Nat.le_refl _, fun _ _ _ h => h⟩

theorem Settles.trans (h : k.Settles k') (h' : k'.Settles k'') : k.Settles k'' where
  current := h'.current.trans h.current
  blocked := h'.blocked.trans h.blocked
  nextMsgId := Nat.le_trans h.nextMsgId h'.nextMsgId
  pending m req hm hreq :=
    h.pending m req hm (h'.pending m req (Nat.lt_of_lt_of_le hm h.nextMsgId) hreq)

/-- Tasks that are spawned or woken: nobody blocks, and nobody is switched to. -/
def TasksSettle (tasks tasks' : TaskSystem) : Prop :=
  tasks'.sched.current = tasks.sched.current ∧
    tasks'.sched.blockedIds.Sublist tasks.sched.blockedIds

theorem tasksSettle_wakeEach (tasks : TaskSystem) (taskIds : List TaskId) :
    TasksSettle tasks (tasks.wakeEach taskIds) := by
  induction taskIds generalizing tasks with
  | nil => exact ⟨rfl, List.Sublist.refl _⟩
  | cons taskId taskIds ih =>
    obtain ⟨hcurrent, hblocked⟩ := ih { tasks with sched := (tasks.sched.unblock taskId).2 }
    refine ⟨hcurrent.trans (Scheduler.current_unblock _ _), hblocked.trans ?_⟩
    rw [Scheduler.blockedIds_unblock]
    exact List.erase_sublist

theorem tasksSettle_spawn {tasks tasks' : TaskSystem} {priority : Priority}
    {stackFrames : List UInt64} (h : tasks.step (.spawn priority stackFrames) = some tasks') :
    TasksSettle tasks tasks' := by
  obtain ⟨task, -, hspawn⟩ := TaskSystem.step_spawn h
  rw [Scheduler.spawn] at hspawn
  split at hspawn
  · obtain hsched := Option.some.inj hspawn
    rw [TasksSettle, ← hsched]
    exact ⟨rfl, List.Sublist.refl _⟩
  · cases hspawn

theorem tasksSettle_step (hop : op.IsPlain) (h : k.step op = some k') :
    TasksSettle k.tasks k'.tasks := by
  by_cases hmoves : op.MovesTasks
  · cases op with
    | spawn priority =>
      obtain ⟨stackFrames, tasks, htasks, pageTable, frames, rfl⟩ := spawnTask_eq_some h
      exact tasksSettle_spawn htasks
    | reschedule => exact hop.elim
    | blockCurrent => exact hop.elim
    | killCurrent => exact hop.elim
    | _ => exact hmoves.elim
  · obtain ⟨taskIds, htasks⟩ := (step_onlyWakes hmoves h).tasks
    rw [htasks]
    exact tasksSettle_wakeEach k.tasks taskIds

theorem getElem?_pending_of_erase {id m : MessageId} {req : PendingRequest}
    (h : (k.pending.erase id)[m]? = some req) : k.pending[m]? = some req := by
  rw [Std.ExtTreeMap.getElem?_erase] at h
  split at h
  · cases h
  · exact h

/-- Requests that have been made are not changed. -/
theorem Exchanges.pending_of_lt {events : List RequestEvent} (h : Exchanges k events k') :
    k.nextMsgId ≤ k'.nextMsgId ∧ ∀ (m : MessageId) req, m < k.nextMsgId →
      k'.pending[m]? = some req → k.pending[m]? = some req := by
  cases h with
  | other hpending _ hnext => exact ⟨hnext, fun m req _ hreq => hpending ▸ hreq⟩
  | request sender recipient deadlineTick hpending _ hnext =>
    refine ⟨hnext ▸ Nat.le_succ _, fun m req hm hreq => ?_⟩
    rw [hpending, Std.ExtTreeMap.getElem?_insert] at hreq
    split at hreq
    · next heq => exact absurd (Std.LawfulEqCmp.eq_of_compare heq) (Nat.ne_of_gt hm)
    · exact hreq
  | reply id sender payload owned req hreq hpending _ hnext =>
    refine ⟨Nat.le_of_eq hnext.symm, fun m req' _ hreq' => ?_⟩
    rw [hpending] at hreq'
    exact getElem?_pending_of_erase hreq'
  | timeouts hpending _ hnext =>
    refine ⟨Nat.le_of_eq hnext.symm, fun m req _ hreq => ?_⟩
    rw [hpending] at hreq
    split at hreq
    · cases hreq
    · exact hreq
  | collect id msg hmsg hpending _ hnext =>
    exact ⟨Nat.le_of_eq hnext.symm, fun m req _ hreq => hpending ▸ hreq⟩

/-- Something will answer the request, or has answered it. -/
def Answerable (k : Kernel) (m : MessageId) : Prop := m ∈ k.pending ∨ m ∈ k.replies

instance (k : Kernel) (m : MessageId) : Decidable (k.Answerable m) :=
  inferInstanceAs (Decidable (_ ∨ _))

/-- A request stays answerable until it expires or its reply is collected. -/
theorem Exchanges.answerable {events : List RequestEvent} (h : Exchanges k events k')
    {m : MessageId} (hm : k.Answerable m) (hexpired : .expired m ∉ events)
    (hcollected : ∀ msg, .collected m msg ∉ events) : k'.Answerable m := by
  cases h with
  | other hpending hreplies _ => rwa [Answerable, hpending, hreplies]
  | request sender recipient deadlineTick hpending hreplies _ =>
    rw [Answerable, hpending, hreplies, Std.ExtTreeMap.mem_insert]
    exact hm.imp_left .inr
  | reply id sender payload owned req hreq hpending hreplies _ =>
    rw [Answerable, hpending, hreplies, Std.ExtTreeMap.mem_insert, Std.ExtTreeMap.mem_erase]
    by_cases heq : compare id m = .eq
    · exact .inr (.inl heq)
    · exact hm.imp (fun h => ⟨heq, h⟩) .inr
  | timeouts hpending hreplies _ =>
    rw [Answerable, hreplies]
    refine hm.imp_left fun hmem => ?_
    rw [Std.ExtTreeMap.mem_iff_isSome_getElem?] at hmem ⊢
    rwa [hpending, if_neg fun hmem => hexpired (List.mem_map_of_mem hmem)]
  | collect id msg hmsg hpending hreplies _ =>
    rw [Answerable, hpending, hreplies, Std.ExtTreeMap.mem_erase]
    refine hm.imp_right fun hmem => ⟨fun heq => ?_, hmem⟩
    obtain rfl := Std.LawfulEqCmp.eq_of_compare heq
    exact hcollected msg (List.mem_singleton_self _)

/-- Only the timer lets requests expire. -/
theorem expired_notMem_observe (hop : op.IsPlain) (m : MessageId) :
    .expired m ∉ k.observe op := by
  cases op with
  | gated call =>
    cases call with
    | request sender recipient payload senderCap timeoutTicks unlocked =>
      rw [observe]
      split <;> simp
    | _ => exact List.not_mem_nil
  | collectReply msgId =>
    rw [observe]
    split <;> simp
  | reply sender originalMsgId payload senderCap unlocked => exact hop.elim
  | checkTimeouts pendingUnlocked unlocked => exact hop.elim
  | _ => exact List.not_mem_nil

/-- Only the call that collects a reply takes it. -/
theorem eq_collectReply_of_mem_observe {m : MessageId} {msg : Message}
    (h : .collected m msg ∈ k.observe op) : op = .collectReply m := by
  cases op with
  | gated call =>
    cases call with
    | request sender recipient payload senderCap timeoutTicks unlocked =>
      rw [observe] at h
      split at h <;> simp at h
    | _ => cases h
  | reply sender originalMsgId payload senderCap unlocked =>
    rw [observe] at h
    split at h <;> simp at h
  | collectReply msgId =>
    rw [observe] at h
    split at h
    · rw [List.mem_singleton, RequestEvent.collected.injEq] at h
      rw [h.1]
    · cases h
  | checkTimeouts pendingUnlocked unlocked =>
    rw [observe] at h
    split at h
    · simp at h
    · cases h
  | _ => cases h

/-- No exchange changes a request that was made before. -/
theorem settles_of_exchanges {events : List RequestEvent} (h : Exchanges k events k')
    (htasks : TasksSettle k.tasks k'.tasks) : k.Settles k' :=
  ⟨htasks.1, htasks.2, h.pending_of_lt.1, h.pending_of_lt.2⟩

/-- **A call that does not switch tasks** leaves the current task and the requests that have been
made, and blocks nobody. -/
theorem settles_step (hop : op.IsPlain) (h : k.step op = some k') : k.Settles k' :=
  settles_of_exchanges (exchanges_step h) (tasksSettle_step hop h)

/-- The first half of a reply takes a request out. -/
theorem settles_erase (k : Kernel) (m : MessageId) :
    k.Settles { k with pending := k.pending.erase m } :=
  ⟨rfl, List.Sublist.refl _, Nat.le_refl _, fun _ _ _ h => getElem?_pending_of_erase h⟩

/-- The second half leaves its message, and wakes a task. -/
theorem settles_leaveReply (k : Kernel) (m : MessageId) (msg : Message) (unlocked : Bool) :
    k.Settles (k.leaveReply m msg unlocked) := by
  obtain ⟨taskIds, hleave⟩ := k.leaveReply_frame m msg unlocked
  obtain ⟨hcurrent, hblocked⟩ := tasksSettle_wakeEach k.tasks taskIds
  rw [hleave]
  exact ⟨hcurrent, hblocked, Nat.le_refl _, fun _ _ _ h => h⟩

/-! ## Whom the timer wakes -/

theorem blockedIds_wake (k : Kernel) (taskId : TaskId) (unlocked : Bool) :
    (k.wake taskId unlocked).tasks.sched.blockedIds =
      bif unlocked then k.tasks.sched.blockedIds.erase taskId else k.tasks.sched.blockedIds := by
  cases unlocked with
  | false => rfl
  | true => exact Scheduler.blockedIds_unblock _ _

/-- Waking tasks changes nothing but the tasks. -/
theorem wakeAll_eq (k : Kernel) (ids : List TaskId) (unlocked : Bool) :
    k.wakeAll ids unlocked =
      { k with tasks := k.tasks.wakeEach (bif unlocked then ids else []) } := by
  induction ids generalizing k with
  | nil => cases unlocked <;> rfl
  | cons id ids ih =>
    rw [wakeAll, List.foldl_cons, ← wakeAll, ih, wake_eq]
    cases unlocked <;> rfl

/-- With the scheduler unlocked they are all woken. -/
theorem mem_blockedIds_wakeAll (hnodup : k.tasks.sched.blockedIds.Nodup) (ids : List TaskId)
    {x : TaskId} : x ∈ (k.wakeAll ids true).tasks.sched.blockedIds ↔
      x ∈ k.tasks.sched.blockedIds ∧ x ∉ ids := by
  have hdiff : (k.wakeAll ids true).tasks.sched.blockedIds = k.tasks.sched.blockedIds.diff ids := by
    induction ids generalizing k with
    | nil => rw [List.diff_nil]; rfl
    | cons id ids ih =>
      have hfirst := blockedIds_wake k id true
      rw [cond_true] at hfirst
      rw [List.diff_cons, ← hfirst]
      exact ih (hfirst ▸ hnodup.erase id)
  rw [hdiff, hnodup.mem_sdiff_iff]

theorem blockedIds_expire (unlocked : Bool) (k : Kernel) (m : MessageId) :
    (expire unlocked k m).tasks.sched.blockedIds =
      match k.pending[m]? with
      | none => k.tasks.sched.blockedIds
      | some req => bif unlocked then k.tasks.sched.blockedIds.erase req.requester
        else k.tasks.sched.blockedIds := by
  rw [expire]
  cases k.pending[m]? with
  | none => rfl
  | some req => exact blockedIds_wake _ req.requester unlocked

/-- With the scheduler unlocked the requesters of expired requests are woken. -/
theorem mem_blockedIds_foldl_expire (hnodup : k.tasks.sched.blockedIds.Nodup)
    {ids : List MessageId} (hids : ids.Nodup) {x : TaskId} :
    x ∈ (ids.foldl (expire true) k).tasks.sched.blockedIds ↔
      x ∈ k.tasks.sched.blockedIds ∧
        ∀ m ∈ ids, ∀ req, k.pending[m]? = some req → req.requester ≠ x := by
  induction ids generalizing k with
  | nil => simp
  | cons m ids ih =>
    obtain ⟨hm, hids⟩ := List.nodup_cons.mp hids
    have hfirst := blockedIds_expire true k m
    have hpending : ∀ m' ∈ ids, (expire true k m).pending[m']? = k.pending[m']? := by
      intro m' hm'
      have hexpire := getElem?_pending_foldl_expire true [m] k m'
      rw [if_neg] at hexpire
      · exact hexpire
      · intro hmem
        obtain rfl := List.mem_singleton.mp hmem
        exact hm hm'
    have hrest : (∀ m' ∈ ids, ∀ req, (expire true k m).pending[m']? = some req →
        req.requester ≠ x) ↔ ∀ m' ∈ ids, ∀ req, k.pending[m']? = some req → req.requester ≠ x := by
      refine forall₂_congr fun m' hm' => ?_
      rw [hpending m' hm']
    rw [List.foldl_cons]
    cases hreq : k.pending[m]? with
    | none =>
      rw [hreq] at hfirst
      rw [ih (hfirst ▸ hnodup) hids, hrest, hfirst]
      simp [hreq]
    | some req =>
      rw [hreq] at hfirst
      dsimp only [cond_true] at hfirst
      rw [ih (hfirst ▸ hnodup.erase _) hids, hrest, hfirst, hnodup.mem_erase_iff]
      simp only [List.mem_cons, forall_eq_or_imp, hreq, Option.some.injEq, forall_eq']
      rw [and_assoc, and_left_comm, ne_comm]

theorem blockedIds_foldl_expire_false (ids : List MessageId) (k : Kernel) :
    (ids.foldl (expire false) k).tasks.sched.blockedIds = k.tasks.sched.blockedIds := by
  induction ids generalizing k with
  | nil => rfl
  | cons m ids ih =>
    rw [List.foldl_cons, ih, blockedIds_expire]
    cases k.pending[m]? <;> rfl

/-- The request expires at the next tick, if the table of requests can be locked then. -/
def Expires (k : Kernel) (pendingUnlocked : Bool) (m : MessageId) : Prop :=
  pendingUnlocked = true ∧ (k.ticks + 1) % 50 = 0 ∧
    k.pending[m]?.any fun req => req.deadlineTick ≤ k.ticks + 1

instance (k : Kernel) (pendingUnlocked : Bool) (m : MessageId) :
    Decidable (k.Expires pendingUnlocked m) := inferInstanceAs (Decidable (_ ∧ _ ∧ _))

/-- The requests that expire at the next tick. -/
def due (k : Kernel) (pendingUnlocked : Bool) : List MessageId :=
  if pendingUnlocked = true ∧ (k.ticks + 1) % 50 = 0 then expired { k with ticks := k.ticks + 1 }
  else []

variable {pendingUnlocked unlocked : Bool} {m : MessageId} {x : TaskId}

theorem mem_due : m ∈ k.due pendingUnlocked ↔ k.Expires pendingUnlocked m := by
  rw [due, Expires]
  split
  · next h => simp [mem_expired, h.1, h.2, Option.any_eq_true]
  · next h =>
    refine iff_of_false List.not_mem_nil fun hexpires => h ⟨hexpires.1, hexpires.2.1⟩

theorem nodup_due : (k.due pendingUnlocked).Nodup := by
  rw [due]
  split
  · exact nodup_expired _
  · exact List.nodup_nil

theorem countTick_eq (k : Kernel) (pendingUnlocked unlocked : Bool) :
    k.countTick pendingUnlocked unlocked =
      (k.due pendingUnlocked).foldl (expire unlocked) { k with ticks := k.ticks + 1 } := by
  rw [countTick, due]
  dsimp only
  by_cases htick : (k.ticks + 1) % 50 = 0
  · cases pendingUnlocked with
    | false => simp [checkTimeouts, htick]
    | true => simp [checkTimeouts, htick]
  · simp [htick]

/-- A tick counts, wakes tasks and lets requests expire; it changes nothing else. -/
theorem countTick_frame (k : Kernel) (pendingUnlocked unlocked : Bool) :
    ∃ pending taskIds, k.countTick pendingUnlocked unlocked =
      { k with ticks := k.ticks + 1, pending, tasks := k.tasks.wakeEach taskIds } := by
  obtain ⟨pending, taskIds, hframe⟩ := foldl_expire_frame unlocked (k.due pendingUnlocked)
    { k with ticks := k.ticks + 1 }
  exact ⟨pending, taskIds, (countTick_eq k pendingUnlocked unlocked).trans hframe⟩

/-- The requests that are left are those that do not expire, as they were. -/
theorem getElem?_pending_countTick :
    (k.countTick pendingUnlocked unlocked).pending[m]? =
      if k.Expires pendingUnlocked m then none else k.pending[m]? := by
  rw [countTick_eq, getElem?_pending_foldl_expire]
  simp only [mem_due]

/-- A tick wakes the requesters of the expired requests. -/
theorem mem_blockedIds_countTick (hnodup : k.tasks.sched.blockedIds.Nodup) :
    x ∈ (k.countTick pendingUnlocked true).tasks.sched.blockedIds ↔
      x ∈ k.tasks.sched.blockedIds ∧ ∀ m, k.Expires pendingUnlocked m →
        ∀ req, k.pending[m]? = some req → req.requester ≠ x := by
  rw [countTick_eq, mem_blockedIds_foldl_expire (k := { k with ticks := k.ticks + 1 }) hnodup
    nodup_due]
  simp only [mem_due]

theorem blockedIds_countTick_false :
    (k.countTick pendingUnlocked false).tasks.sched.blockedIds = k.tasks.sched.blockedIds := by
  rw [countTick_eq, blockedIds_foldl_expire_false]

theorem settles_countTick (k : Kernel) (pendingUnlocked unlocked : Bool) :
    k.Settles (k.countTick pendingUnlocked unlocked) := by
  obtain ⟨pending, taskIds, hframe⟩ := countTick_frame k pendingUnlocked unlocked
  obtain ⟨hcurrent, hblocked⟩ := tasksSettle_wakeEach k.tasks taskIds
  refine ⟨?_, ?_, ?_, fun m req _ hreq => ?_⟩
  · rwa [hframe]
  · rwa [hframe]
  · rw [hframe]
  · rw [getElem?_pending_countTick] at hreq
    split at hreq
    · cases hreq
    · exact hreq

theorem settles_wakeAll (k : Kernel) (ids : List TaskId) (unlocked : Bool) :
    k.Settles (k.wakeAll ids unlocked) := by
  obtain ⟨hcurrent, hblocked⟩ := tasksSettle_wakeEach k.tasks (bif unlocked then ids else [])
  rw [wakeAll_eq]
  exact ⟨hcurrent, hblocked, Nat.le_refl _, fun _ _ _ hreq => hreq⟩

/-! ## Switching tasks -/

/-- What a reschedule does: the current task is filed as blocked if it has been marked so, another
one runs, and the requests are as they were. -/
structure Switches (k k' : Kernel) : Prop where
  blocked : k'.tasks.sched.blockedIds = k.tasks.sched.blockedIds ++ k.tasks.sched.blockingIds
  running : ∀ c ∈ k'.tasks.sched.current, c.state = .running
  pending : k'.pending = k.pending
  replies : k'.replies = k.replies
  nextMsgId : k'.nextMsgId = k.nextMsgId

theorem switches_of_reschedule (h : k.reschedule = some k') : k.Switches k' := by
  obtain ⟨⟨oldId, newId⟩, reaped, sched, hres, frames, mailboxes, rfl⟩ := reschedule_cases h
  refine ⟨Scheduler.blockedIds_reschedule hres, fun c hc => ?_, rfl, rfl, rfl⟩
  obtain ⟨-, -, ⟨task, hcurrent, hrunning, -⟩ | ⟨hcurrent, -⟩, -⟩ := Scheduler.reschedule_cases hres
  · obtain rfl := Option.some.inj (hcurrent.symm.trans hc)
    exact hrunning
  · cases hcurrent.symm.trans hc

end Kernel

/-! ## The timer interrupt -/

namespace TimedKernel

variable {rule : HeapRule DeadlineEntry} {s t : TimedKernel}
  {pendingUnlocked deadlinesUnlocked unlocked : Bool} {e : DeadlineEntry} {x : TaskId}

/-- The entry is popped at the next tick, if the queue can be locked then. -/
def Pops (s : TimedKernel) (deadlinesUnlocked : Bool) (e : DeadlineEntry) : Prop :=
  deadlinesUnlocked = true ∧ e.deadlineTick ≤ s.kernel.ticks + 1

instance (s : TimedKernel) (deadlinesUnlocked : Bool) (e : DeadlineEntry) :
    Decidable (s.Pops deadlinesUnlocked e) := inferInstanceAs (Decidable (_ ∧ _))

/-- The tasks that the deadline queue wakes, and what is left of it. -/
theorem timer_eq (rule : HeapRule DeadlineEntry) (s : TimedKernel)
    (pendingUnlocked deadlinesUnlocked unlocked : Bool) :
    ∃ ids deadlines, s.timer rule pendingUnlocked deadlinesUnlocked unlocked =
        { s with
          kernel := (s.kernel.countTick pendingUnlocked unlocked).wakeAll ids unlocked
          deadlines } ∧
      (∀ x, x ∈ ids ↔ ∃ e ∈ s.deadlines.heap, s.Pops deadlinesUnlocked e ∧ e.taskId = x) ∧
      ∀ e, e ∈ deadlines.heap ↔ e ∈ s.deadlines.heap ∧ ¬s.Pops deadlinesUnlocked e := by
  obtain ⟨pending, taskIds, hframe⟩ := s.kernel.countTick_frame pendingUnlocked unlocked
  have hticks : (s.kernel.countTick pendingUnlocked unlocked).ticks = s.kernel.ticks + 1 := by
    rw [hframe]
  cases deadlinesUnlocked with
  | false =>
    refine ⟨[], s.deadlines, rfl, fun x => ?_, fun e => ?_⟩
    · simp [Pops]
    · simp [Pops]
  | true =>
    refine ⟨(s.deadlines.checkExpired rule _).1.map DeadlineEntry.taskId,
      (s.deadlines.checkExpired rule _).2, rfl, fun x => ?_, fun e => ?_⟩
    · simp only [List.mem_map, DeadlineQueue.mem_popped, hticks, Pops, true_and, and_assoc]
    · simp only [DeadlineQueue.mem_left, hticks, Pops, true_and]

/-- What blocking does. -/
theorem block_eq_some {wait : Wait} (h : s.block wait = some t) :
    ∃ k₁ k₂, s.kernel.step .blockCurrent = some k₁ ∧ k₁.step .reschedule = some k₂ ∧
      t = { s with
        kernel := k₂
        phase := .between
        waits := match s.kernel.tasks.sched.current with
          | none => s.waits
          | some current => Function.update s.waits current.id wait } := by
  simp only [block, Option.bind_eq_bind, Option.bind_eq_some_iff] at h
  obtain ⟨k₁, hblock, k₂, hres, ht⟩ := h
  exact ⟨k₁, k₂, hblock, hres, (Option.some.inj ht).symm⟩

/-- What a step that begins between two calls does. -/
inductive Begins (s : TimedKernel) : TimedOp → TimedKernel → Prop
  | call {op : KernelOp} {k' : Kernel} (hplain : op.IsPlain)
      (hstep : s.kernel.step op = some k') : Begins s (.call op) { s with kernel := k' }
  | yieldNow {k' : Kernel} (hres : s.kernel.step .reschedule = some k') :
      Begins s .yieldNow { s with kernel := k' }
  | block {t : TimedKernel} (hblock : s.block .other = some t) : Begins s .blockAndYield t
  | exit {k₁ k₂ : Kernel} (hkill : s.kernel.step .killCurrent = some k₁)
      (hres : k₁.step .reschedule = some k₂) : Begins s .exitCurrent { s with kernel := k₂ }
  /-- Nobody runs, so nobody sleeps. -/
  | idle (masked : Bool) (ticks : UInt64) (hfits : s.kernel.DeadlineFits ticks)
      (hcurrent : s.kernel.tasks.sched.current = none) : Begins s (.sleep masked ticks) s
  | sleep (masked : Bool) (ticks : UInt64) {c : Task} (hfits : s.kernel.DeadlineFits ticks)
      (hcurrent : s.kernel.tasks.sched.current = some c) :
      Begins s (.sleep masked ticks)
        { s with phase := .sleep masked c.id (s.kernel.ticks + ticks) }
  | schedule (taskId : TaskId) (deadlineTick : UInt64) : Begins s (.schedule taskId deadlineTick)
      { s with deadlines := (s.deadlines.schedule taskId deadlineTick).2 }
  | cancel (callbackId : Nat) :
      Begins s (.cancel callbackId) { s with deadlines := s.deadlines.cancel callbackId }
  | requested {recipient : TaskId} {payload : List UInt8} {senderCap : CapId}
      {timeoutTicks : UInt64} {unlocked : Bool} {c : Task} {m : MessageId} {k' : Kernel}
      (hcurrent : s.kernel.tasks.sched.current = some c)
      (hstep : s.kernel.step
        (.gated (.request c.id recipient payload senderCap timeoutTicks unlocked)) = some k')
      (hobserve : .requested m c.id recipient ∈ s.kernel.observe
        (.gated (.request c.id recipient payload senderCap timeoutTicks unlocked))) :
      Begins s (.request recipient payload senderCap timeoutTicks unlocked)
        { s with kernel := k', phase := .requested m }
  | refused {recipient : TaskId} {payload : List UInt8} {senderCap : CapId}
      {timeoutTicks : UInt64} {unlocked : Bool} {c : Task} {k' : Kernel}
      (hcurrent : s.kernel.tasks.sched.current = some c)
      (hstep : s.kernel.step
        (.gated (.request c.id recipient payload senderCap timeoutTicks unlocked)) = some k') :
      Begins s (.request recipient payload senderCap timeoutTicks unlocked) { s with kernel := k' }
  | replying {sender : TaskId} {m : MessageId} {payload : List UInt8} {senderCap : CapId}
      {unlocked : Bool} (msg : Message) :
      Begins s (.reply sender m payload senderCap unlocked)
        { s with
          kernel := { s.kernel with pending := s.kernel.pending.erase m }
          phase := .replying m msg unlocked }
  /-- There is no such request. -/
  | unasked {sender : TaskId} {m : MessageId} {payload : List UInt8} {senderCap : CapId}
      {unlocked : Bool} : Begins s (.reply sender m payload senderCap unlocked) s

theorem begins_request {recipient : TaskId} {payload : List UInt8} {senderCap : CapId}
    {timeoutTicks : UInt64} {unlocked : Bool}
    (h : s.begin (.request recipient payload senderCap timeoutTicks unlocked) = some t) :
    s.Begins (.request recipient payload senderCap timeoutTicks unlocked) t := by
  rw [begin] at h
  split at h
  · cases h
  next c hcurrent =>
  have hstep : ∀ {result k}, s.kernel.request c.id recipient payload senderCap timeoutTicks
      unlocked = some (result, k) → s.kernel.step
        (.gated (.request c.id recipient payload senderCap timeoutTicks unlocked)) = some k := by
    intro result k hrequest
    rw [Kernel.step, Kernel.exec, hrequest]
    rfl
  split at h
  · cases h
  · next m k' hrequest =>
    obtain rfl := Option.some.inj h
    refine .requested hcurrent (hstep hrequest) ?_
    rw [Kernel.observe, hrequest]
    exact List.mem_singleton_self _
  · next e k' hrequest =>
    obtain rfl := Option.some.inj h
    exact .refused hcurrent (hstep hrequest)

/-- What the first half of a call can do. -/
theorem begins_of_begin {op : TimedOp} (h : s.begin op = some t) : s.Begins op t := by
  cases op with
  | call op =>
    rw [begin] at h
    split_ifs at h with hplain
    obtain ⟨k', hstep, rfl⟩ := Option.map_eq_some_iff.mp h
    exact .call hplain hstep
  | yieldNow =>
    obtain ⟨k', hres, rfl⟩ := Option.map_eq_some_iff.mp h
    exact .yieldNow hres
  | blockAndYield => exact .block h
  | exitCurrent =>
    simp only [begin, Option.bind_eq_bind, Option.bind_eq_some_iff] at h
    obtain ⟨k₁, hkill, k₂, hres, ht⟩ := h
    obtain rfl := Option.some.inj ht
    exact .exit hkill hres
  | sleep masked ticks =>
    rw [begin] at h
    split_ifs at h with hfits
    split at h
    · next hnone =>
      obtain rfl := Option.some.inj h
      exact .idle masked ticks hfits hnone
    · next c hcurrent =>
      obtain rfl := Option.some.inj h
      exact .sleep masked ticks hfits hcurrent
  | schedule taskId deadlineTick =>
    obtain rfl := Option.some.inj h
    exact .schedule taskId deadlineTick
  | cancel callbackId =>
    obtain rfl := Option.some.inj h
    exact .cancel callbackId
  | request recipient payload senderCap timeoutTicks unlocked => exact begins_request h
  | reply sender originalMsgId payload senderCap unlocked =>
    rw [begin] at h
    split at h
    · obtain rfl := Option.some.inj h
      exact .unasked
    · obtain rfl := Option.some.inj h
      exact .replying _
  | proceed => cases h
  | timer pendingUnlocked deadlinesUnlocked unlocked => cases h

/-- The steps: an interrupt, one that goes on with a call, or one that begins between two calls. -/
theorem step_cases {op : TimedOp} (h : step rule s op = some t) :
    (∃ pendingUnlocked deadlinesUnlocked unlocked,
        op = .timer pendingUnlocked deadlinesUnlocked unlocked ∧ s.phase.masked = false ∧
          t = s.timer rule pendingUnlocked deadlinesUnlocked unlocked) ∨
      (op = .proceed ∧ ∃ masked taskId deadline, s.phase = .sleep masked taskId deadline ∧
        t = { s with
          deadlines := (s.deadlines.schedule taskId deadline).2, phase := .scheduled masked }) ∨
      (op = .proceed ∧ ∃ masked, s.phase = .scheduled masked ∧ s.block .sleep = some t) ∨
      (op = .proceed ∧ ∃ m, s.phase = .requested m ∧ s.block (.reply m) = some t) ∨
      (op = .proceed ∧ ∃ m msg unlocked, s.phase = .replying m msg unlocked ∧
        t = { s with kernel := s.kernel.leaveReply m msg unlocked, phase := .between }) ∨
      s.phase = .between ∧ s.Begins op t := by
  cases op with
  | timer pendingUnlocked deadlinesUnlocked unlocked =>
    rw [step] at h
    split_ifs at h with hmasked
    exact .inl ⟨_, _, _, rfl, Bool.eq_false_of_not_eq_true hmasked, (Option.some.inj h).symm⟩
  | proceed =>
    rw [step] at h
    split at h
    · cases h
    · next masked taskId deadline hphase =>
      exact .inr (.inl ⟨rfl, masked, taskId, deadline, hphase, (Option.some.inj h).symm⟩)
    · next masked hphase => exact .inr (.inr (.inl ⟨rfl, masked, hphase, h⟩))
    · next m hphase => exact .inr (.inr (.inr (.inl ⟨rfl, m, hphase, h⟩)))
    · next m msg unlocked hphase =>
      exact .inr (.inr (.inr (.inr (.inl ⟨rfl, m, msg, unlocked, hphase,
        (Option.some.inj h).symm⟩))))
  | _ =>
    change (if s.phase = .between then s.begin _ else none) = some t at h
    split_ifs at h with hphase
    exact .inr (.inr (.inr (.inr (.inr ⟨hphase, begins_of_begin h⟩))))

/-! ## The tasks' own steps -/

section Projects

variable {frames : Option BitmapFrameAllocator} {pageTable : PageTable} {op : TimedOp}

open TransitionSystem

/-- A step of the kernel is a run of the tasks. -/
theorem run_step {k k' : Kernel} {kernelOp : KernelOp} (h : k.step kernelOp = some k') :
    ∃ ops, TaskSystem.system.Run k.tasks ops k'.tasks :=
  (Kernel.step_evolves h).tasks

theorem run_step_step {k₁ k₂ k₃ : Kernel} {op₁ op₂ : KernelOp} (h : k₁.step op₁ = some k₂)
    (h' : k₂.step op₂ = some k₃) : ∃ ops, TaskSystem.system.Run k₁.tasks ops k₃.tasks := by
  obtain ⟨ops, hfirst⟩ := run_step h
  obtain ⟨ops', hrest⟩ := run_step h'
  exact ⟨ops ++ ops', hfirst.append hrest⟩

theorem run_block {wait : Wait} (h : s.block wait = some t) :
    ∃ ops, TaskSystem.system.Run s.kernel.tasks ops t.kernel.tasks := by
  obtain ⟨k₁, k₂, hblock, hres, rfl⟩ := block_eq_some h
  exact run_step_step hblock hres

/-- The first half of a call is a run of the scheduler. -/
theorem run_begins (h : s.Begins op t) :
    ∃ ops, TaskSystem.system.Run s.kernel.tasks ops t.kernel.tasks := by
  cases h with
  | call _ hstep => exact run_step hstep
  | yieldNow hres => exact run_step hres
  | block hblock => exact run_block hblock
  | exit hkill hres => exact run_step_step hkill hres
  | requested _ hstep _ => exact run_step hstep
  | refused _ hstep => exact run_step hstep
  | _ => exact ⟨[], .nil _⟩

/-- **The tasks follow their own system**, whatever the timer does. -/
theorem tasks_projects : (system rule frames pageTable).Projects TaskSystem.system
    fun s => s.kernel.tasks where
  init := by
    rintro s rfl
    rfl
  step := by
    intro s op t h
    rcases step_cases h with ⟨pendingUnlocked, deadlinesUnlocked, unlocked, -, -, rfl⟩ |
      ⟨-, masked, taskId, deadline, -, rfl⟩ | ⟨-, masked, -, hblock⟩ | ⟨-, m, -, hblock⟩ |
      ⟨-, m, msg, unlocked, -, rfl⟩ | ⟨-, hbegin⟩
    · obtain ⟨ids, deadlines, htimer, -⟩ :=
        timer_eq rule s pendingUnlocked deadlinesUnlocked unlocked
      obtain ⟨pending, taskIds, hcount⟩ := s.kernel.countTick_frame pendingUnlocked unlocked
      rw [htimer, Kernel.wakeAll_eq, hcount]
      exact ⟨_, (TaskSystem.run_wakeEach _ taskIds).append (TaskSystem.run_wakeEach _ _)⟩
    · exact ⟨[], .nil _⟩
    · exact run_block hblock
    · exact run_block hblock
    · obtain ⟨taskIds, hleave⟩ := s.kernel.leaveReply_frame m msg unlocked
      rw [hleave]
      exact ⟨_, TaskSystem.run_wakeEach _ taskIds⟩
    · exact run_begins hbegin

end Projects

end TimedKernel

end OxideOS
