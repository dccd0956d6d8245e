import OxideOS.Ipc.Channel
import OxideOS.Ipc.RequestReply
import OxideOS.Storage.Isolation

/-!
# The kernel as a transition system

The calls on the kernel's state as the labels of one transition system.  Seven of them present a
capability for what they do; the others are the table's own operations, the scheduler's, and the
parts of IPC that ask for no capability.

Whatever the kernel does, its capability table goes through calls of the table, its tasks through
calls of the scheduler, and the context store and the file system through calls of the store.  So
what holds in every reachable table, or in every reachable state of the scheduler and the ids, or of
the store, holds in every reachable kernel.

## Main definitions

* `GatedCall`, `Kernel.exec`, `Kernel.Succeeds`: the calls that present a capability
* `KernelOp`, `Kernel.step`, `Kernel.system`
* `KernelOp.writes`: the parts of the state that a call may write

## Main results

* `Kernel.step_frame`, `Kernel.step_effect`: what one call writes, and what it can do
* `Kernel.caps_projects`, `Kernel.tasks_projects`, `Kernel.storage_projects`: the kernel projects to
  the capability table, to the task system, and to the context store
* `Kernel.wellFormed_of_reachable`, `Kernel.custody_of_reachable`,
  `Kernel.wellFormed_fs_of_reachable`: so their invariants hold in it
-/

namespace OxideOS

/-- The calls that present a capability. -/
inductive GatedCall
  /-- `message::send`. -/
  | send (sender recipient : TaskId) (msgType : MessageType) (payload : List UInt8)
      (capTransfer : Option CapId) (replyTo : Option MessageId) (senderCap : CapId)
      (unlocked : Bool)
  /-- `request_reply::request`. -/
  | request (sender recipient : TaskId) (payload : List UInt8) (senderCap : CapId)
      (timeoutTicks : UInt64) (unlocked : Bool)
  /-- `channel::subscribe`. -/
  | subscribe (channelName : String) (taskId : TaskId) (capId : CapId)
  /-- `channel::publish`. -/
  | publish (channelName : String) (sender : TaskId) (payload : List UInt8) (publishCap : CapId)
  /-- `context_store::set`. -/
  | contextSet (agentId : AgentId) (key : String) (value : List UInt8) (capId : CapId)
  /-- `context_store::get`. -/
  | contextGet (agentId : AgentId) (key : String) (capId : CapId)
  /-- `gpu::scheduler::submit_request`. -/
  | submitRequest (agentId : AgentId) (modelId : String) (priority : InferencePriority)
      (deadlineTick : Option UInt64) (capId : CapId)

/-- The calls on the kernel's state. -/
inductive KernelOp
  /-- A call on the capability table. -/
  | capability (op : CapabilityTable.CapOp)
  /-- `Task::new` followed by `Scheduler::spawn`. -/
  | spawn (priority : Priority)
  | reschedule
  | blockCurrent
  | unblock (taskId : TaskId)
  | killCurrent
  | registerMailbox (taskId : TaskId)
  | unregisterMailbox (taskId : TaskId)
  | receive (taskId : TaskId)
  | createChannel (name : String)
  | unsubscribe (channelName : String) (taskId : TaskId)
  | reply (sender : TaskId) (originalMsgId : MessageId) (payload : List UInt8) (senderCap : CapId)
      (unlocked : Bool)
  | collectReply (msgId : MessageId)
  | checkTimeouts (pendingUnlocked unlocked : Bool)
  /-- A call that presents a capability. -/
  | gated (call : GatedCall)
  /-- The timer interrupt counts. -/
  | tick

/-- The parts of the kernel's state. -/
inductive KernelPart
  | caps | tasks | memory | mailboxes | msgIds | channels | requests | storage | gpu | clock
  deriving DecidableEq

/-- The parts that a call may write. -/
def KernelOp.writes : KernelOp → List KernelPart
  | .capability _ => [.caps]
  | .spawn _ => [.tasks, .memory]
  | .reschedule => [.tasks, .memory, .mailboxes]
  | .blockCurrent | .unblock _ | .killCurrent => [.tasks]
  | .registerMailbox _ | .unregisterMailbox _ | .receive _ => [.mailboxes]
  | .createChannel _ | .unsubscribe _ _ => [.channels]
  | .reply _ _ _ _ _ | .checkTimeouts _ _ => [.requests, .tasks]
  | .collectReply _ => [.requests]
  | .gated (.send _ _ _ _ _ _ _ _) => [.caps, .msgIds, .mailboxes, .tasks]
  | .gated (.request _ _ _ _ _ _) => [.caps, .msgIds, .mailboxes, .tasks, .requests]
  | .gated (.subscribe _ _ _) => [.channels]
  | .gated (.publish _ _ _ _) => [.mailboxes]
  | .gated (.contextSet _ _ _ _) => [.storage]
  | .gated (.contextGet _ _ _) => []
  | .gated (.submitRequest _ _ _ _ _) => [.gpu]
  | .tick => [.clock]

/-- The calls that create a task, switch tasks, or mark the current one. -/
def KernelOp.MovesTasks : KernelOp → Prop
  | .spawn _ | .reschedule | .blockCurrent | .killCurrent => True
  | _ => False

namespace Kernel

/-- `submit_request`. -/
def submitRequest (k : Kernel) (agentId : AgentId) (modelId : String)
    (priority : InferencePriority) (deadlineTick : Option UInt64) (capId : CapId) :
    Except String RequestId × Kernel :=
  match k.caps.validate capId agentId .execute with
  | .error _ => (.error "insufficient inference capability", k)
  | .ok _ =>
    let (id, gpu) := k.gpu.submit agentId modelId priority deadlineTick k.ticks
    (.ok id, { k with gpu })

/-- A submission goes through exactly when the capability is valid for execution. -/
theorem submitRequest_ok_iff {k : Kernel} {agentId : AgentId} {modelId : String}
    {priority : InferencePriority} {deadlineTick : Option UInt64} {capId : CapId} :
    (∃ id, (k.submitRequest agentId modelId priority deadlineTick capId).1 = .ok id) ↔
      ∃ cap, k.caps.validate capId agentId .execute = .ok cap := by
  rw [submitRequest]
  cases k.caps.validate capId agentId .execute with
  | error e => simp
  | ok cap => simp

theorem submitRequest_frame (k : Kernel) (agentId : AgentId) (modelId : String)
    (priority : InferencePriority) (deadlineTick : Option UInt64) (capId : CapId) :
    ∃ gpu, (k.submitRequest agentId modelId priority deadlineTick capId).2 = { k with gpu } := by
  rw [submitRequest]
  split
  · exact ⟨k.gpu, rfl⟩
  · exact ⟨_, rfl⟩

/-- Whether a call returns `Ok`, and the state after it; `none` is a panic. -/
def exec (k : Kernel) : GatedCall → Option (Bool × Kernel)
  | .send sender recipient msgType payload capTransfer replyTo senderCap unlocked =>
    let (result, k) :=
      k.send sender recipient msgType payload capTransfer replyTo senderCap unlocked
    some (result.isOk, k)
  | .request sender recipient payload senderCap timeoutTicks unlocked =>
    (k.request sender recipient payload senderCap timeoutTicks unlocked).map
      fun (result, k) => (result.isOk, k)
  | .subscribe channelName taskId capId =>
    let (result, k) := k.subscribe channelName taskId capId
    some (result.isOk, k)
  | .publish channelName sender payload publishCap =>
    let (result, k) := k.publish channelName sender payload publishCap
    some (result.isOk, k)
  | .contextSet agentId key value capId =>
    let (result, store, fs) := k.store.gatedSet k.caps k.fs agentId key value capId k.ticks
    some (result.isOk, { k with store, fs })
  | .contextGet agentId key capId =>
    some ((k.store.gatedGet k.caps k.fs agentId key capId).isOk, k)
  | .submitRequest agentId modelId priority deadlineTick capId =>
    let (result, k) := k.submitRequest agentId modelId priority deadlineTick capId
    some (result.isOk, k)

/-- The call returns `Ok`. -/
def Succeeds (k : Kernel) (call : GatedCall) : Prop := ∃ k', k.exec call = some (true, k')

/-- A call of the scheduler. -/
def withTasks (k : Kernel) (op : TaskOp) : Option Kernel :=
  (k.tasks.step op).map fun tasks => { k with tasks }

/-- The state after a call; `none` is a panic. -/
def step (k : Kernel) : KernelOp → Option Kernel
  | .capability op => some { k with caps := k.caps.step op }
  | .spawn priority => k.spawnTask priority
  | .reschedule => k.reschedule
  | .blockCurrent => k.withTasks .blockCurrent
  | .unblock taskId => k.withTasks (.unblock taskId)
  | .killCurrent => k.withTasks .killCurrent
  | .registerMailbox taskId => some (k.registerMailbox taskId)
  | .unregisterMailbox taskId => some (k.unregisterMailbox taskId)
  | .receive taskId => some (k.receive taskId).2
  | .createChannel name => some (k.createChannel name).2
  | .unsubscribe channelName taskId => some (k.unsubscribe channelName taskId).2
  | .reply sender originalMsgId payload senderCap unlocked =>
    some (k.reply sender originalMsgId payload senderCap unlocked).2
  | .collectReply msgId => some (k.collectReply msgId).2
  | .checkTimeouts pendingUnlocked unlocked => some (k.checkTimeouts pendingUnlocked unlocked)
  | .gated call => (k.exec call).map Prod.snd
  | .tick => some { k with ticks := k.ticks + 1 }

/-- Any calls after boot. -/
def system (frames : Option BitmapFrameAllocator) (pageTable : PageTable) :
    TransitionSystem Kernel KernelOp :=
  .ofPartial (boot frames pageTable) step

/-! ## What a call does -/

/-- The state `k` with these parts of `k'`. -/
def writing (k : Kernel) (parts : List KernelPart) (k' : Kernel) : Kernel where
  caps := bif parts.contains .caps then k'.caps else k.caps
  tasks := bif parts.contains .tasks then k'.tasks else k.tasks
  frames := bif parts.contains .memory then k'.frames else k.frames
  pageTable := bif parts.contains .memory then k'.pageTable else k.pageTable
  mailboxes := bif parts.contains .mailboxes then k'.mailboxes else k.mailboxes
  nextMsgId := bif parts.contains .msgIds then k'.nextMsgId else k.nextMsgId
  channels := bif parts.contains .channels then k'.channels else k.channels
  nextChannelId := bif parts.contains .channels then k'.nextChannelId else k.nextChannelId
  pending := bif parts.contains .requests then k'.pending else k.pending
  replies := bif parts.contains .requests then k'.replies else k.replies
  store := bif parts.contains .storage then k'.store else k.store
  fs := bif parts.contains .storage then k'.fs else k.fs
  gpu := bif parts.contains .gpu then k'.gpu else k.gpu
  ticks := bif parts.contains .clock then k'.ticks else k.ticks

/-- The capability table went through calls of its own, so did the tasks, and a task that is newly
listed by a channel has subscribed to it. -/
structure Evolves (k : Kernel) (op : KernelOp) (k' : Kernel) : Prop where
  caps : ∃ ops, CapabilityTable.system.Run k.caps ops k'.caps
  tasks : ∃ ops, TaskSystem.system.Run k.tasks ops k'.tasks
  channels : ∀ name id, k'.Lists name id → k.Lists name id ∨
    ∃ capId, op = .gated (.subscribe name id capId) ∧ (k.subscribe name id capId).1 = .ok ()

/-- Of the tasks, a call has only woken some, and the memory is as it was. -/
structure OnlyWakes (k k' : Kernel) : Prop where
  frames : k'.frames = k.frames
  pageTable : k'.pageTable = k.pageTable
  tasks : ∃ taskIds, k'.tasks = k.tasks.wakeEach taskIds

/-- What a call does to each part of the kernel. -/
structure Effect (k : Kernel) (op : KernelOp) (k' : Kernel) : Prop where
  frame : k' = k.writing op.writes k'
  evolves : Evolves k op k'
  onlyWakes : ¬op.MovesTasks → OnlyWakes k k'
  storage : ∃ ops, ContextStore.system.Run (k.store, k.fs) ops (k'.store, k'.fs)

variable {k k' : Kernel} {op : KernelOp}

theorem onlyWakes_of_tasks_eq (hframes : k'.frames = k.frames)
    (hpageTable : k'.pageTable = k.pageTable) (htasks : k'.tasks = k.tasks) : OnlyWakes k k' :=
  ⟨hframes, hpageTable, [], htasks⟩

theorem lists_of_channels_eq (hchannels : k'.channels = k.channels) {name : String} {id : TaskId}
    (hlists : k'.Lists name id) : k.Lists name id := by
  rwa [Lists, hchannels] at hlists

/-- One call of the table and some wake-ups at most; the channels, and what is stored, as they
were. -/
theorem effect_of_wakes (hframe : k' = k.writing op.writes k')
    (hcaps : k'.caps = k.caps ∨ ∃ op, k'.caps = k.caps.step op) (hwakes : OnlyWakes k k')
    (hchannels : k'.channels = k.channels) (hstorage : (k'.store, k'.fs) = (k.store, k.fs)) :
    Effect k op k' := by
  refine ⟨hframe, ⟨?_, ?_, fun _ _ hlists => .inl (lists_of_channels_eq hchannels hlists)⟩,
    fun _ => hwakes, TransitionSystem.exists_run_of_step (.inl hstorage)⟩
  · apply TransitionSystem.exists_run_of_step
    exact hcaps.imp_right fun ⟨op, h⟩ => ⟨op, h.symm⟩
  · obtain ⟨taskIds, htasks⟩ := hwakes.tasks
    rw [htasks]
    exact ⟨_, k.tasks.run_wakeEach taskIds⟩

/-- One call of the scheduler, which may move tasks. -/
theorem effect_of_moves (hframe : k' = k.writing op.writes k') (hop : op.MovesTasks)
    (htasks : ∃ op, k.tasks.step op = some k'.tasks) (hcaps : k'.caps = k.caps)
    (hchannels : k'.channels = k.channels) (hstorage : (k'.store, k'.fs) = (k.store, k.fs)) :
    Effect k op k' :=
  ⟨hframe, ⟨TransitionSystem.exists_run_of_step (.inl hcaps),
      TransitionSystem.exists_run_of_step (.inr htasks),
      fun _ _ hlists => .inl (lists_of_channels_eq hchannels hlists)⟩,
    fun hnot => absurd hop hnot, TransitionSystem.exists_run_of_step (.inl hstorage)⟩

/-- Only the channels change, and lose subscribers or gain the one that subscribed. -/
theorem effect_of_channels (hframe : k' = k.writing [.channels] k')
    (hwrites : op.writes = [.channels])
    (hlists : ∀ name id, k'.Lists name id → k.Lists name id ∨
      ∃ capId, op = .gated (.subscribe name id capId) ∧ (k.subscribe name id capId).1 = .ok ()) :
    Effect k op k' := by
  refine ⟨hwrites ▸ hframe, ⟨?_, ?_, hlists⟩, fun _ => ?_, ?_⟩
  all_goals rw [hframe]
  · exact ⟨[], .nil _⟩
  · exact ⟨[], .nil _⟩
  · exact onlyWakes_of_tasks_eq rfl rfl rfl
  · exact ⟨[], .nil _⟩

theorem exec_effect {call : GatedCall} {ok : Bool} (h : k.exec call = some (ok, k')) :
    Effect k (.gated call) k' := by
  cases call with
  | send sender recipient msgType payload capTransfer replyTo senderCap unlocked =>
    obtain ⟨caps, nextMsgId, mailboxes, taskIds, hframe, hcaps⟩ :=
      k.send_frame sender recipient msgType payload capTransfer replyTo senderCap unlocked
    obtain rfl := hframe.symm.trans (Prod.mk.inj (Option.some.inj h)).2
    exact effect_of_wakes rfl hcaps ⟨rfl, rfl, taskIds, rfl⟩ rfl rfl
  | request sender recipient payload senderCap timeoutTicks unlocked =>
    obtain ⟨⟨result, k''⟩, hrequest, hk⟩ := Option.map_eq_some_iff.mp h
    obtain ⟨-, rfl⟩ := Prod.mk.inj hk
    obtain ⟨caps, nextMsgId, mailboxes, taskIds, pending, rfl, hcaps⟩ :=
      request_frame k sender recipient payload senderCap timeoutTicks unlocked hrequest
    exact effect_of_wakes rfl hcaps ⟨rfl, rfl, taskIds, rfl⟩ rfl rfl
  | subscribe channelName taskId capId =>
    obtain rfl : (k.subscribe channelName taskId capId).2 = k' :=
      (Prod.mk.inj (Option.some.inj h)).2
    obtain ⟨channels, hframe⟩ := k.subscribe_frame channelName taskId capId
    refine effect_of_channels ?_ rfl fun name id hlists => ?_
    · rw [hframe]
      rfl
    · rcases lists_of_subscribe hlists with hbefore | ⟨rfl, rfl, hok⟩
      · exact .inl hbefore
      · exact .inr ⟨capId, rfl, hok⟩
  | contextSet agentId key value capId =>
    obtain ⟨-, rfl⟩ := Prod.mk.inj (Option.some.inj h)
    exact ⟨rfl, ⟨⟨[], .nil _⟩, ⟨[], .nil _⟩, fun _ _ => .inl⟩,
      fun _ => onlyWakes_of_tasks_eq rfl rfl rfl,
      TransitionSystem.exists_run_of_step
        (k.store.gatedSet_cases k.caps k.fs agentId key value capId k.ticks)⟩
  | publish channelName sender payload publishCap =>
    obtain ⟨mailboxes, hframe⟩ := k.publish_frame channelName sender payload publishCap
    obtain rfl := hframe.symm.trans (Prod.mk.inj (Option.some.inj h)).2
    exact effect_of_wakes rfl (.inl rfl) (onlyWakes_of_tasks_eq rfl rfl rfl) rfl rfl
  | contextGet agentId key capId =>
    obtain ⟨-, rfl⟩ := Prod.mk.inj (Option.some.inj h)
    exact effect_of_wakes rfl (.inl rfl) (onlyWakes_of_tasks_eq rfl rfl rfl) rfl rfl
  | submitRequest agentId modelId priority deadlineTick capId =>
    obtain ⟨gpu, hframe⟩ := k.submitRequest_frame agentId modelId priority deadlineTick capId
    obtain rfl := hframe.symm.trans (Prod.mk.inj (Option.some.inj h)).2
    exact effect_of_wakes rfl (.inl rfl) (onlyWakes_of_tasks_eq rfl rfl rfl) rfl rfl

theorem exec_frame {call : GatedCall} {ok : Bool} (h : k.exec call = some (ok, k')) :
    k' = k.writing (KernelOp.gated call).writes k' :=
  (exec_effect h).frame

/-- **What one call can do.** -/
theorem step_effect (h : k.step op = some k') : Effect k op k' := by
  cases op with
  | spawn priority =>
    obtain ⟨stackFrames, tasks, htasks, pageTable, frames, rfl⟩ := spawnTask_eq_some h
    exact effect_of_moves rfl trivial ⟨_, htasks⟩ rfl rfl rfl
  | reschedule =>
    obtain ⟨change, reaped, sched, hres, frames, mailboxes, rfl⟩ := reschedule_cases h
    refine effect_of_moves rfl trivial ⟨.reschedule, ?_⟩ rfl rfl rfl
    rw [TaskSystem.step, hres]
  | blockCurrent | killCurrent =>
    rw [step, withTasks] at h
    obtain ⟨tasks, htasks, rfl⟩ := Option.map_eq_some_iff.mp h
    exact effect_of_moves rfl trivial ⟨_, htasks⟩ rfl rfl rfl
  | unblock taskId =>
    rw [step, withTasks] at h
    obtain ⟨tasks, htasks, rfl⟩ := Option.map_eq_some_iff.mp h
    obtain rfl := Option.some.inj htasks
    exact effect_of_wakes rfl (.inl rfl) ⟨rfl, rfl, [taskId], rfl⟩ rfl rfl
  | receive taskId =>
    obtain ⟨mailboxes, hframe⟩ := k.receive_frame taskId
    obtain rfl := hframe.symm.trans (Option.some.inj h)
    exact effect_of_wakes rfl (.inl rfl) (onlyWakes_of_tasks_eq rfl rfl rfl) rfl rfl
  | createChannel name =>
    obtain rfl := Option.some.inj h
    exact effect_of_channels rfl rfl fun _ _ hlists => .inl (lists_of_createChannel hlists)
  | unsubscribe channelName taskId =>
    obtain rfl : (k.unsubscribe channelName taskId).2 = k' := Option.some.inj h
    obtain ⟨channels, hframe⟩ := k.unsubscribe_frame channelName taskId
    refine effect_of_channels ?_ rfl fun name id hlists => .inl (lists_of_unsubscribe hlists)
    rw [hframe]
    rfl
  | reply sender originalMsgId payload senderCap unlocked =>
    obtain ⟨pending, replies, taskIds, hframe⟩ :=
      k.reply_frame sender originalMsgId payload senderCap unlocked
    obtain rfl := hframe.symm.trans (Option.some.inj h)
    exact effect_of_wakes rfl (.inl rfl) ⟨rfl, rfl, taskIds, rfl⟩ rfl rfl
  | checkTimeouts pendingUnlocked unlocked =>
    obtain ⟨pending, taskIds, hframe⟩ := k.checkTimeouts_frame pendingUnlocked unlocked
    obtain rfl := hframe.symm.trans (Option.some.inj h)
    exact effect_of_wakes rfl (.inl rfl) ⟨rfl, rfl, taskIds, rfl⟩ rfl rfl
  | gated call =>
    obtain ⟨⟨ok, k''⟩, hexec, rfl⟩ := Option.map_eq_some_iff.mp h
    exact exec_effect hexec
  | capability op =>
    obtain rfl := Option.some.inj h
    exact effect_of_wakes rfl (.inr ⟨op, rfl⟩) (onlyWakes_of_tasks_eq rfl rfl rfl) rfl rfl
  | _ =>
    obtain rfl := Option.some.inj h
    exact effect_of_wakes rfl (.inl rfl) (onlyWakes_of_tasks_eq rfl rfl rfl) rfl rfl

/-- **It writes no other parts.** -/
theorem step_frame (h : k.step op = some k') : k' = k.writing op.writes k' := (step_effect h).frame

/-- To the capability table, to the tasks and to the channels. -/
theorem step_evolves (h : k.step op = some k') : Evolves k op k' := (step_effect h).evolves

/-- Unless a call creates a task, switches tasks or marks the current one, it wakes tasks at
most. -/
theorem step_onlyWakes (hop : ¬op.MovesTasks) (h : k.step op = some k') : OnlyWakes k k' :=
  (step_effect h).onlyWakes hop

/-! ## Projections -/

section Reachable

variable {frames : Option BitmapFrameAllocator} {pageTable : PageTable}

/-- **The kernel projects to the capability table.** -/
theorem caps_projects : (system frames pageTable).Projects CapabilityTable.system Kernel.caps where
  init := by
    rintro k rfl
    rfl
  step := fun _ _ _ hstep => (step_evolves hstep).caps

/-- **The kernel projects to the scheduler and the id allocator.** -/
theorem tasks_projects : (system frames pageTable).Projects TaskSystem.system Kernel.tasks where
  init := by
    rintro k rfl
    rfl
  step := fun _ _ _ hstep => (step_evolves hstep).tasks

/-- **The kernel projects to the context store and the file system.** -/
theorem storage_projects : (system frames pageTable).Projects ContextStore.system
    fun k => (k.store, k.fs) where
  init := by
    rintro k rfl
    rfl
  step := fun _ _ _ hstep => (step_effect hstep).storage

theorem wellFormed_of_reachable (h : (system frames pageTable).Reachable k) : k.caps.WellFormed :=
  CapabilityTable.wellFormed_of_reachable (caps_projects.reachable h)

theorem custody_of_reachable (h : (system frames pageTable).Reachable k) : k.tasks.Custody :=
  TaskSystem.custody_of_reachable (tasks_projects.reachable h)

theorem wellFormed_fs_of_reachable (h : (system frames pageTable).Reachable k) :
    k.fs.WellFormed :=
  OxideFs.wellFormed_of_reachable
    (ContextStore.fs_projects.reachable (storage_projects.reachable h))

end Reachable

end Kernel

end OxideOS
