import OxideOS.Agent.Outsiders
import OxideOS.Kernel.Recycling
import OxideOS.Syscall.Dispatch

/-!
# What a task without capabilities can do

A task that owns no live capability makes a system call.  The handlers take the ids of agents,
senders and mailboxes from the arguments, and only a send asks for a capability: for one of the
sender that the caller names.  So the call concerns nobody else if the caller names itself, and
otherwise only by accident: nothing is there to kill, receive or overwrite, or the send fails.

Others are told apart by their ids, which agents share with tasks.  The return value depends on the
stored data of others if it is not the same in every state that differs in that data only.  The
memory that pointers are read from is the same in these states: buffers are the caller's own, and
nothing is said about pointers into the kernel's data.

## Main definitions

* `Kernel.Spares`, `SyscallState.Spares`: everything of others is as it was
* `SyscallState.Independent`: the return value does not depend on what others have stored
* `SyscallState.Harmless`, `Syscall.Discreet`: what this takes, call by call
* `Syscall.OwnName`: the caller names itself

## Main results

* `SyscallState.Handles.spares_iff`, `SyscallState.Handles.independent_iff`
* `SyscallState.no_ambient_authority`: the same for `dispatch`, and for calls in one's own name
-/

namespace OxideOS

/-! ## The kernel -/

namespace Kernel

/-- What other agents have stored, and the mailboxes of other tasks, are as they were. -/
structure Spares (t : TaskId) (k k' : Kernel) : Prop where
  store : ∀ b, b ≠ t → ∀ key, k'.store.get k'.fs b key = k.store.get k.fs b key
  mailboxes : ∀ b : TaskId, b ≠ t → k'.mailboxes[b]? = k.mailboxes[b]?

variable {k k' k'' : Kernel} {t : TaskId}

theorem Spares.refl (t : TaskId) (k : Kernel) : Spares t k k :=
  ⟨fun _ _ _ => rfl, fun _ _ => rfl⟩

theorem Spares.trans (h : Spares t k k') (h' : Spares t k' k'') : Spares t k k'' :=
  ⟨fun b hb key => (h'.store b hb key).trans (h.store b hb key),
    fun b hb => (h'.mailboxes b hb).trans (h.mailboxes b hb)⟩

theorem spares_of_mailboxes (hstore : k'.store = k.store) (hfs : k'.fs = k.fs)
    (hmailboxes : ∀ b : TaskId, b ≠ t → k'.mailboxes[b]? = k.mailboxes[b]?) : Spares t k k' where
  store b _ key := by rw [hstore, hfs]
  mailboxes := hmailboxes

theorem spares_withTasks {mark : TaskOp} (h : k.withTasks mark = some k') : Spares t k k' := by
  obtain ⟨tasks, -, rfl⟩ := Option.map_eq_some_iff.mp h
  exact ⟨fun _ _ _ => rfl, fun _ _ => rfl⟩

/-- Only the current task can be found dead and lose its mailbox. -/
theorem spares_reschedule (hcurrent : ∀ task, k.tasks.sched.current = some task → task.id = t)
    (h : k.reschedule = some k') : Spares t k k' := by
  rcases hres : k.tasks.sched.reschedule with ⟨change, _ | task, sched⟩
  · rw [reschedule, hres] at h
    obtain rfl := Option.some.inj h
    exact ⟨fun _ _ _ => rfl, fun _ _ => rfl⟩
  · rw [reschedule, hres] at h
    obtain ⟨frames, rfl⟩ := cleanupDeadTask_eq_some h
    have hreaped := Scheduler.toList_reaped hres
    have hmem : task ∈ k.tasks.sched.current.toList.filter fun task => task.state = .dead := by
      rw [← hreaped]
      exact List.mem_singleton_self task
    have hid := hcurrent task (Option.mem_toList.mp (List.mem_of_mem_filter hmem))
    refine spares_of_mailboxes rfl rfl fun b hb => ?_
    have hne : compare task.id b ≠ .eq := by
      rw [hid, ne_eq, Std.LawfulEqCmp.compare_eq_iff_eq]
      exact hb.symm
    exact Std.ExtTreeMap.getElem?_erase.trans (if_neg hne)

/-- A send concerns nobody else if it is for the task itself, or fails. -/
theorem spares_send_iff {sender recipient : TaskId} {msgType : MessageType} {payload : List UInt8}
    {replyTo : Option MessageId} {senderCap : CapId} {unlocked : Bool}
    {result : Except IpcError MessageId}
    (h : k.send sender recipient msgType payload none replyTo senderCap unlocked = (result, k')) :
    Spares t k k' ↔
      recipient = t ∨ ¬(k.caps.Grants senderCap sender .write ∧ k.HasRoom recipient) := by
  have hok := k.send_ok_iff sender recipient msgType payload none replyTo senderCap unlocked
  obtain ⟨caps, nextMsgId, mailboxes, taskIds, hframe, -⟩ :=
    k.send_frame sender recipient msgType payload none replyTo senderCap unlocked
  rw [h] at hok hframe
  have htransfer : k.caps.Transferable sender none := fun capId hnone => by cases hnone
  have hstorage : k'.store = k.store ∧ k'.fs = k.fs := by
    obtain rfl := hframe
    exact ⟨rfl, rfl⟩
  rcases mailboxes_send h with
    ⟨⟨e, rfl⟩, hmail⟩ | ⟨msgId, msg, mailbox, rfl, hmailbox, hmail⟩
  · apply iff_of_true
    · apply spares_of_mailboxes hstorage.1 hstorage.2
      intro b _
      rw [hmail]
    · refine .inr fun ⟨hgrants, hroom⟩ => ?_
      obtain ⟨msgId, hmsgId⟩ := hok.mpr ⟨hgrants, htransfer, hroom⟩
      cases hmsgId
  · obtain ⟨hgrants, -, hroom⟩ := hok.mp ⟨msgId, rfl⟩
    constructor
    · intro hspares
      by_contra hother
      obtain ⟨hne, -⟩ := not_or.mp hother
      have hsame := hspares.mailboxes recipient hne
      rw [hmail, Std.ExtTreeMap.getElem?_insert_self, hmailbox] at hsame
      have hqueue := congrArg Mailbox.queue (Option.some.inj hsame)
      simp at hqueue
    · rintro (rfl | hfails)
      · apply spares_of_mailboxes hstorage.1 hstorage.2
        intro b hb
        rw [hmail, Std.ExtTreeMap.getElem?_insert_eq_ite, if_neg hb]
      · exact absurd ⟨hgrants, hroom⟩ hfails

/-- A receive concerns nobody else if it is from the task's own mailbox, or finds nothing. -/
theorem spares_receive_iff (k : Kernel) (taskId : TaskId) :
    Spares t k (k.receive taskId).2 ↔ taskId = t ∨ k.mailboxLen taskId = 0 := by
  rcases k.receive_cases taskId with ⟨hlen, hreceive⟩ | ⟨msg, rest, hmailbox, hreceive⟩
  · rw [hreceive]
    exact iff_of_true (.refl t k) (.inr hlen)
  · have hlen : k.mailboxLen taskId ≠ 0 := by
      rw [mailboxLen, hmailbox]
      exact Nat.succ_ne_zero _
    rw [hreceive, or_iff_left hlen]
    constructor
    · intro hspares
      by_contra hne
      have hsame := hspares.mailboxes taskId hne
      rw [hmailbox, Std.ExtTreeMap.getElem?_insert_self] at hsame
      have hqueue := congrArg Mailbox.queue (Option.some.inj hsame)
      exact absurd hqueue.symm (List.cons_ne_self msg rest)
    · rintro rfl
      refine spares_of_mailboxes rfl rfl fun b hb => ?_
      rw [Std.ExtTreeMap.getElem?_insert_eq_ite, if_neg hb]

/-- Setting a key concerns nobody else if it is one's own, or has that value. -/
theorem spares_set_iff (hfs : k.fs.WellFormed) (agentId : AgentId) (key : String)
    (value : List UInt8) (tick : UInt64) :
    Spares t k { k with
        store := (k.store.set k.fs agentId key value tick).1
        fs := (k.store.set k.fs agentId key value tick).2 } ↔
      agentId = t ∨ k.store.get k.fs agentId key = some value := by
  have hothers : ∀ b, b ≠ agentId → ∀ key',
      (k.store.set k.fs agentId key value tick).1.get (k.store.set k.fs agentId key value tick).2 b
        key' = k.store.get k.fs b key' := by
    intro b hb key'
    have hop : (StoreOp.set agentId key value tick).agentId ≠ b := hb.symm
    exact ContextStore.get_step_of_ne (s := (k.store, k.fs)) hfs hop key'
  constructor
  · intro hspares
    by_cases hown : agentId = t
    · exact .inl hown
    · refine .inr ((hspares.store agentId hown key).symm.trans ?_)
      exact ContextStore.get_set_self k.store k.fs agentId key value tick
  · intro hset
    refine ⟨fun b hb key' => ?_, fun _ _ => rfl⟩
    by_cases hagent : b = agentId
    · subst hagent
      rcases hset with rfl | hvalue
      · exact absurd rfl hb
      by_cases hkey : key' = key
      · subst hkey
        rw [hvalue]
        exact ContextStore.get_set_self k.store k.fs b key' value tick
      · exact ContextStore.get_set_of_ne k.store hfs b hkey value tick
    · exact hothers b hagent key'

/-- A send does not read what is stored. -/
theorem send_storage (k : Kernel) (store : ContextStore) (fs : OxideFs) (sender recipient : TaskId)
    (msgType : MessageType) (payload : List UInt8) (capTransfer : Option CapId)
    (replyTo : Option MessageId) (senderCap : CapId) (unlocked : Bool) :
    (send { k with store, fs } sender recipient msgType payload capTransfer replyTo senderCap
      unlocked).1 =
      (k.send sender recipient msgType payload capTransfer replyTo senderCap unlocked).1 := by
  rw [send, send]
  cases k.caps.validate senderCap sender .write with
  | error e => rfl
  | ok cap =>
    cases transferCap k.caps sender recipient capTransfer with
    | error e => rfl
    | ok caps =>
      dsimp only [deliver]
      cases k.mailboxes[recipient]? with
      | none => rfl
      | some mailbox =>
        dsimp only
        cases mailbox.push
          ⟨k.nextMsgId, sender, recipient, msgType, payload, capTransfer, replyTo⟩ with
        | error e => rfl
        | ok mailbox => rfl

theorem receive_storage (k : Kernel) (store : ContextStore) (fs : OxideFs) (taskId : TaskId) :
    (receive { k with store, fs } taskId).1 = (k.receive taskId).1 := by
  rw [receive, receive]
  cases k.mailboxes[taskId]? with
  | none => rfl
  | some mailbox =>
    dsimp only
    cases mailbox.pop with
    | none => rfl
    | some popped => rfl

end Kernel

/-! ## What is asked of a call -/

namespace Syscall

/-- The caller names itself, wherever the call takes a name. -/
def OwnName (t : TaskId) : Syscall → Prop
  | .agentKill _ => False
  | .ipcSend sender _ _ _ _ => sender = t
  | .ipcReceive taskId => taskId = t
  | .storageSet agentId _ _ _ _ => agentId = t
  | .storageGet agentId _ _ => agentId = t
  | _ => True

/-- The call reads no key of others. -/
def Discreet (mem : UserMemory) (t : TaskId) : Syscall → Prop
  | .storageGet agentId keyPtr keyLen => mem.key keyPtr keyLen = none ∨ agentId = t
  | _ => True

theorem Discreet.of_ownName {mem : UserMemory} {t : TaskId} {call : Syscall}
    (h : call.OwnName t) : call.Discreet mem t := by
  cases call with
  | storageGet agentId keyPtr keyLen => exact .inr h
  | _ => trivial

end Syscall

namespace SyscallState

/-- What other agents have stored, the mailboxes of other tasks, and the registry entries of other
agents are as they were. -/
structure Spares (t : TaskId) (s s' : SyscallState) : Prop where
  kernel : s.kernel.Spares t s'.kernel
  registry : AgentRegistry.SameBut t s.registry s'.registry

/-- The state with other data in the context store. -/
def withStorage (s : SyscallState) (store : ContextStore) (fs : OxideFs) : SyscallState :=
  { s with kernel := { s.kernel with store, fs } }

/-- The call returns the same in every state in which only other agents have stored something
else. -/
def Independent (mem : UserMemory) (unlocked : Bool) (t : TaskId) (s : SyscallState)
    (call : Syscall) (value : Option Int) : Prop :=
  ∀ store fs value' s', OxideFs.WellFormed fs →
    (∀ key, store.get fs t key = s.kernel.store.get s.kernel.fs t key) →
      Handles mem unlocked (s.withStorage store fs) call value' s' → value' = value

/-- What it takes for a call to concern nobody but the task `t`. -/
def Harmless (mem : UserMemory) (t : TaskId) (s : SyscallState) : Syscall → Prop
  -- nobody is killed, or the task itself, and it has no relatives that this touches
  | .agentKill agentId =>
    ∀ agent, s.registry.get agentId = some agent → agentId = t ∧ s.registry.Alone t agent
  -- there is no message, it is for the task, or the send fails
  | .ipcSend sender recipient payloadPtr payloadLen capId =>
    mem.payload payloadPtr payloadLen = none ∨ recipient = t ∨
      ¬(s.kernel.caps.Grants capId sender .write ∧ s.kernel.HasRoom recipient)
  -- there is nothing to receive
  | .ipcReceive taskId => taskId = t ∨ s.kernel.mailboxLen taskId = 0
  -- the key has this value anyway
  | .storageSet agentId keyPtr keyLen valPtr valLen =>
    ∀ key value, mem.entry keyPtr keyLen valPtr valLen = some (key, value) →
      agentId = t ∨ s.kernel.store.get s.kernel.fs agentId key = some value
  | _ => True

variable {mem : UserMemory} {unlocked : Bool} {s s' : SyscallState} {call : Syscall}
  {value : Option Int} {task : Task} {t : TaskId}

theorem Spares.refl (t : TaskId) (s : SyscallState) : Spares t s s :=
  ⟨.refl t s.kernel, .refl t s.registry⟩

/-- A call that does not touch the registry. -/
theorem spares_withKernel_iff {kernel : Kernel} {deadlines : DeadlineQueue} :
    Spares t s { s with kernel, deadlines } ↔ s.kernel.Spares t kernel :=
  ⟨fun h => h.kernel, fun h => ⟨h, .refl t s.registry⟩⟩

/-- Calls in one's own name do no harm, as long as one owns nothing: then a send fails. -/
theorem Harmless.of_ownName (hcaps : s.kernel.caps.OwnsNothing t) (h : call.OwnName t) :
    s.Harmless mem t call := by
  cases call with
  | agentKill agentId => exact h.elim
  | ipcSend sender recipient payloadPtr payloadLen capId =>
    obtain rfl : sender = t := h
    exact .inr (.inr fun hsend => hcaps.not_grants capId .write hsend.1)
  | ipcReceive taskId => exact .inl h
  | storageSet agentId keyPtr keyLen valPtr valLen => exact fun _ _ _ => .inl h
  | _ => trivial

/-! ## Effects -/

/-- Marking the current task leaves its id alone, so that the reschedule reaps nobody else. -/
theorem spares_markAndYield {mark : TaskOp} (hcurrent : s.current = some task)
    (hmark : mark = .blockCurrent ∨ mark = .killCurrent) (h : s.markAndYield mark = some s') :
    Spares task.id s s' := by
  rw [markAndYield, Option.bind_eq_bind, Option.bind_eq_some_iff] at h
  obtain ⟨marked, hmarked, h⟩ := h
  obtain ⟨kernel, hreschedule, h⟩ := Option.bind_eq_some_iff.mp h
  obtain rfl := Option.some.inj h
  refine ⟨(Kernel.spares_withTasks hmarked).trans (Kernel.spares_reschedule ?_ hreschedule),
    .refl _ _⟩
  intro task' htask'
  obtain ⟨tasks, htasks, rfl⟩ := Option.map_eq_some_iff.mp hmarked
  rw [current] at hcurrent
  rcases hmark with rfl | rfl
  all_goals
    obtain rfl := Option.some.inj htasks
    simp only [Scheduler.blockCurrent, Scheduler.killCurrent, hcurrent, Option.map_some,
      Option.some.injEq] at htask'
    rw [← htask']

theorem handles_agentKill {agentId : AgentId}
    (h : Handles mem unlocked s (.agentKill agentId) value s') :
    ∃ result registry, s.registry.Kills agentId result registry ∧
      value = some (killValue result) ∧ s' = { s with registry } := by
  obtain ⟨fuel, h⟩ := h
  rw [handle, sysAgentKill, Option.map_map] at h
  obtain ⟨⟨result, registry⟩, hkill, heq⟩ := Option.map_eq_some_iff.mp h
  obtain ⟨rfl, rfl⟩ := Prod.mk.inj heq
  exact ⟨result, registry, ⟨fuel, hkill⟩, rfl, rfl⟩

theorem spares_sysIpcSend_iff {sender recipient : TaskId} {payloadPtr payloadLen : UInt64}
    {capId : CapId} :
    Spares t s (s.sysIpcSend mem unlocked sender recipient payloadPtr payloadLen capId).2 ↔
      s.Harmless mem t (.ipcSend sender recipient payloadPtr payloadLen capId) := by
  rw [sysIpcSend, Harmless]
  cases mem.payload payloadPtr payloadLen with
  | none => exact iff_of_true (.refl t s) (.inl rfl)
  | some payload =>
    rw [or_iff_right (Option.some_ne_none payload)]
    exact spares_withKernel_iff.trans (Kernel.spares_send_iff rfl)

theorem spares_sysStorageSet_iff (hfs : s.kernel.fs.WellFormed) {agentId : AgentId}
    {keyPtr keyLen valPtr valLen : UInt64} :
    Spares t s (s.sysStorageSet mem agentId keyPtr keyLen valPtr valLen).2 ↔
      s.Harmless mem t (.storageSet agentId keyPtr keyLen valPtr valLen) := by
  rw [sysStorageSet, Harmless]
  cases mem.entry keyPtr keyLen valPtr valLen with
  | none => exact iff_of_true (.refl t s) fun key value hnone => by cases hnone
  | some entry =>
    obtain ⟨key, data⟩ := entry
    apply (spares_withKernel_iff.trans (Kernel.spares_set_iff hfs agentId key data _)).trans
    constructor
    · rintro hset key' data' heq
      obtain ⟨rfl, rfl⟩ := Prod.mk.inj (Option.some.inj heq)
      exact hset
    · intro hall
      exact hall key data rfl

/-- **A call spares everybody but the caller** exactly if it is harmless.  The cases are the
handlers. -/
theorem Handles.spares_iff (hfs : s.kernel.fs.WellFormed) (hcurrent : s.current = some task)
    (h : Handles mem unlocked s call value s') :
    Spares task.id s s' ↔ s.Harmless mem task.id call := by
  cases call with
  | agentKill agentId =>
    obtain ⟨result, registry, hkills, -, rfl⟩ := handles_agentKill h
    exact Iff.trans ⟨fun h => h.registry, fun h => ⟨.refl _ _, h⟩⟩ hkills.spares_iff
  | ipcSend sender recipient payloadPtr payloadLen capId =>
    obtain ⟨fuel, h⟩ := h
    obtain ⟨-, rfl⟩ := Prod.mk.inj (Option.some.inj h)
    exact spares_sysIpcSend_iff
  | ipcReceive taskId =>
    obtain ⟨fuel, h⟩ := h
    obtain ⟨-, rfl⟩ := Prod.mk.inj (Option.some.inj h)
    exact spares_withKernel_iff.trans (s.kernel.spares_receive_iff taskId)
  | storageSet agentId keyPtr keyLen valPtr valLen =>
    obtain ⟨fuel, h⟩ := h
    obtain ⟨-, rfl⟩ := Prod.mk.inj (Option.some.inj h)
    exact spares_sysStorageSet_iff hfs
  | exit code =>
    obtain ⟨fuel, h⟩ := h
    obtain ⟨s₁, hyield, heq⟩ := Option.map_eq_some_iff.mp h
    obtain ⟨-, rfl⟩ := Prod.mk.inj heq
    exact iff_of_true (spares_markAndYield hcurrent (.inr rfl) hyield) trivial
  | timerSleep ticks =>
    obtain ⟨fuel, h⟩ := h
    obtain ⟨s₁, hsleep, heq⟩ := Option.map_eq_some_iff.mp h
    obtain ⟨-, rfl⟩ := Prod.mk.inj heq
    rw [sysSleep, hcurrent] at hsleep
    split_ifs at hsleep
    have hspares := spares_markAndYield
      (s := { s with deadlines := (s.deadlines.schedule task.id (s.kernel.ticks + ticks)).2 })
      hcurrent (.inl rfl) hsleep
    exact iff_of_true ⟨hspares.kernel, hspares.registry⟩ trivial
  | yieldNow =>
    obtain ⟨fuel, h⟩ := h
    obtain ⟨kernel, hreschedule, heq⟩ := Option.map_eq_some_iff.mp h
    obtain ⟨-, rfl⟩ := Prod.mk.inj heq
    refine iff_of_true (spares_withKernel_iff.mpr (Kernel.spares_reschedule ?_ hreschedule)) trivial
    intro task' htask'
    rw [Option.some.inj (htask'.symm.trans hcurrent)]
  | _ =>
    obtain ⟨fuel, h⟩ := h
    obtain ⟨-, rfl⟩ := Prod.mk.inj (Option.some.inj h)
    exact iff_of_true (.refl _ s) trivial

/-! ## Return values -/

/-- A call whose value is a function of what is not stored. -/
theorem independent_of_value {v : SyscallState → Option Int}
    (hv : ∀ fuel s value s', handle mem unlocked fuel s call = some (value, s') → value = v s)
    (hsame : ∀ store fs, v (s.withStorage store fs) = v s)
    (h : Handles mem unlocked s call value s') : Independent mem unlocked t s call value := by
  intro store fs value' s₁ _ _ h'
  obtain ⟨fuel, h⟩ := h
  obtain ⟨fuel', h'⟩ := h'
  rw [hv _ _ _ _ h, hv _ _ _ _ h', hsame]

theorem value_eq_of_some {s₁ : SyscallState} {v : Option Int}
    (h : some (v, s₁) = some (value, s')) : value = v :=
  (Prod.mk.inj (Option.some.inj h)).1.symm

theorem value_eq_of_map {α : Type} {o : Option α} {f : α → SyscallState} {v : Option Int}
    (h : (o.map fun a => (v, f a)) = some (value, s')) : value = v := by
  obtain ⟨a, -, heq⟩ := Option.map_eq_some_iff.mp h
  exact (Prod.mk.inj heq).1.symm

theorem sysIpcSend_withStorage (mem : UserMemory) (unlocked : Bool) (s : SyscallState)
    (store : ContextStore) (fs : OxideFs) (sender recipient : TaskId)
    (payloadPtr payloadLen : UInt64) (capId : CapId) :
    ((s.withStorage store fs).sysIpcSend mem unlocked sender recipient payloadPtr payloadLen
      capId).1 = (s.sysIpcSend mem unlocked sender recipient payloadPtr payloadLen capId).1 := by
  rw [sysIpcSend, sysIpcSend]
  cases mem.payload payloadPtr payloadLen with
  | none => rfl
  | some payload => exact congrArg sendValue (s.kernel.send_storage store fs ..)

theorem sysIpcReceive_withStorage (s : SyscallState) (store : ContextStore) (fs : OxideFs)
    (taskId : TaskId) :
    ((s.withStorage store fs).sysIpcReceive taskId).1 = (s.sysIpcReceive taskId).1 :=
  congrArg (fun msg : Option Message => if msg.isSome then 1 else 0)
    (s.kernel.receive_storage store fs taskId)

theorem sysStorageSet_withStorage (mem : UserMemory) (s : SyscallState) (store : ContextStore)
    (fs : OxideFs) (agentId : AgentId) (keyPtr keyLen valPtr valLen : UInt64) :
    ((s.withStorage store fs).sysStorageSet mem agentId keyPtr keyLen valPtr valLen).1 =
      (s.sysStorageSet mem agentId keyPtr keyLen valPtr valLen).1 := by
  rw [sysStorageSet, sysStorageSet]
  cases mem.entry keyPtr keyLen valPtr valLen with
  | none => rfl
  | some entry => rfl

theorem exists_getValue_ne (v : Int) : ∃ data, getValue (some data) ≠ v := by
  by_cases hv : v = 0
  · subst hv
    exact ⟨[0], by decide⟩
  · exact ⟨[], fun h => hv h.symm⟩

/-- What another agent has under a key shows in what is returned for it. -/
theorem not_independent_storageGet (hfs : s.kernel.fs.WellFormed) {agentId : AgentId}
    (hother : agentId ≠ t) {keyPtr keyLen : UInt64} {key : String}
    (hkey : mem.key keyPtr keyLen = some key) :
    ¬Independent mem unlocked t s (.storageGet agentId keyPtr keyLen) value := by
  intro hindep
  obtain ⟨data, hdata⟩ := exists_getValue_ne (value.getD 0)
  have hset := s.kernel.store.get_set_self s.kernel.fs agentId key data 0
  have hown : ∀ key', (s.kernel.store.set s.kernel.fs agentId key data 0).1.get
      (s.kernel.store.set s.kernel.fs agentId key data 0).2 t key' =
        s.kernel.store.get s.kernel.fs t key' := by
    have hop : (StoreOp.set agentId key data 0).agentId ≠ t := hother
    exact ContextStore.get_step_of_ne (s := (s.kernel.store, s.kernel.fs)) hfs hop
  have hvalue := hindep _ _ _ _ hfs.writeFile hown ⟨0, rfl⟩
  apply hdata
  rw [← hvalue, Option.getD_some, sysStorageGet, hkey]
  exact (congrArg getValue hset).symm

/-- What is read under the task's own name is the same in both states. -/
theorem sysStorageGet_withStorage {store : ContextStore} {fs : OxideFs} {agentId : AgentId}
    {keyPtr keyLen : UInt64}
    (hdiscreet : Syscall.Discreet mem t (.storageGet agentId keyPtr keyLen))
    (hown : ∀ key, store.get fs t key = s.kernel.store.get s.kernel.fs t key) :
    (s.withStorage store fs).sysStorageGet mem agentId keyPtr keyLen =
      s.sysStorageGet mem agentId keyPtr keyLen := by
  rw [sysStorageGet, sysStorageGet]
  rcases hdiscreet with hnone | rfl
  · rw [hnone]
  · cases mem.key keyPtr keyLen with
    | none => rfl
    | some key => exact congrArg getValue (hown key)

/-- **The return value does not depend on what others have stored** exactly if the call is
discreet. -/
theorem Handles.independent_iff (hfs : s.kernel.fs.WellFormed)
    (h : Handles mem unlocked s call value s') :
    Independent mem unlocked t s call value ↔ call.Discreet mem t := by
  cases call with
  | storageGet agentId keyPtr keyLen =>
    rw [Syscall.Discreet]
    constructor
    · intro hindep
      cases hkey : mem.key keyPtr keyLen with
      | none => exact .inl rfl
      | some key =>
        by_contra hother
        exact not_independent_storageGet hfs (not_or.mp hother).2 hkey hindep
    · intro hdiscreet store fs value' s₁ _ hown h'
      obtain ⟨_, h⟩ := h
      obtain ⟨_, h'⟩ := h'
      obtain ⟨rfl, -⟩ := Prod.mk.inj (Option.some.inj h)
      obtain ⟨rfl, -⟩ := Prod.mk.inj (Option.some.inj h')
      exact congrArg some (sysStorageGet_withStorage hdiscreet hown)
  | agentKill agentId =>
    refine iff_of_true (fun store fs value' s₁ _ _ h' => ?_) trivial
    obtain ⟨result, registry, hkills, rfl, -⟩ := handles_agentKill h
    obtain ⟨result', registry', hkills', rfl, -⟩ := handles_agentKill h'
    obtain ⟨rfl, -⟩ := hkills.unique hkills'
    rfl
  | ipcSend sender recipient payloadPtr payloadLen capId =>
    refine iff_of_true (independent_of_value (fun _ _ _ _ => value_eq_of_some) ?_ h) trivial
    intro store fs
    exact congrArg some (sysIpcSend_withStorage mem unlocked s store fs ..)
  | ipcReceive taskId =>
    refine iff_of_true (independent_of_value (fun _ _ _ _ => value_eq_of_some) ?_ h) trivial
    intro store fs
    exact congrArg some (s.sysIpcReceive_withStorage store fs taskId)
  | storageSet agentId keyPtr keyLen valPtr valLen =>
    refine iff_of_true (independent_of_value (fun _ _ _ _ => value_eq_of_some) ?_ h) trivial
    intro store fs
    exact congrArg some (sysStorageSet_withStorage mem s store fs ..)
  | exit code =>
    exact iff_of_true (independent_of_value (fun _ _ _ _ => value_eq_of_map)
      (fun _ _ => rfl) h) trivial
  | yieldNow =>
    exact iff_of_true (independent_of_value (fun _ _ _ _ => value_eq_of_map)
      (fun _ _ => rfl) h) trivial
  | timerSleep ticks =>
    exact iff_of_true (independent_of_value (fun _ _ _ _ => value_eq_of_map)
      (fun _ _ => rfl) h) trivial
  | _ =>
    exact iff_of_true (independent_of_value (fun _ _ _ _ => value_eq_of_some)
      (fun _ _ => rfl) h) trivial

/-! ## Dispatch -/

/-- **What a task without capabilities can do to others, or learn from them.**  It names others in
the arguments, and the calls that are neither harmless nor discreet go through; in its own name it
does nothing to others. -/
theorem no_ambient_authority {number arg1 arg2 arg3 arg4 arg5 : UInt64}
    (hfs : s.kernel.fs.WellFormed) (hcurrent : s.current = some task)
    (hcaps : s.kernel.caps.OwnsNothing task.id)
    (h : Dispatches mem unlocked s number arg1 arg2 arg3 arg4 arg5 value s') :
    let call := Syscall.decode number arg1 arg2 arg3 arg4 arg5
    (Spares task.id s s' ∧ Independent mem unlocked task.id s call value ↔
      s.Harmless mem task.id call ∧ call.Discreet mem task.id) ∧
    (call.OwnName task.id →
      Spares task.id s s' ∧ Independent mem unlocked task.id s call value) := by
  intro call
  have hiff : Spares task.id s s' ∧ Independent mem unlocked task.id s call value ↔
      s.Harmless mem task.id call ∧ call.Discreet mem task.id :=
    and_congr (Handles.spares_iff hfs hcurrent h) (Handles.independent_iff hfs h)
  exact ⟨hiff, fun hown => hiff.mpr ⟨.of_ownName hcaps hown, .of_ownName hown⟩⟩

/-- Two tasks, of which the first runs. -/
def twoTasks : List KernelOp := [.spawn .normal, .spawn .normal, .reschedule]

/-- The agents of the two tasks. -/
def twoAgents : AgentRegistry :=
  let config : AgentConfig := ⟨"worker", .permanent, ⟨4⟩⟩
  ((AgentRegistry.new.spawn none config 1).2.spawn none config 2).2

/-- Memory that is zero everywhere. -/
def zeroes : UserMemory := ⟨fun _ len => List.replicate len 0, fun _ _ => List.length_replicate⟩

/-- Task 1 runs, and owns nothing. -/
theorem twoTasks_run : ∃ k task, twoTasks.foldlM Kernel.step (.boot Kernel.sixteenFrames .empty) =
    some k ∧ k.tasks.sched.current = some task ∧ task.id = 1 ∧ k.caps.OwnsNothing 1 := by
  have hrun : (twoTasks.foldlM Kernel.step (.boot Kernel.sixteenFrames .empty)).map (fun k =>
      (k.tasks.sched.current.map Task.id, decide (k.caps.OwnsNothing 1))) =
      some (some 1, true) := by
    decide
  obtain ⟨k, hk, hstate⟩ := Option.map_eq_some_iff.mp hrun
  obtain ⟨hcurrent, hcaps⟩ := Prod.mk.inj hstate
  obtain ⟨task, htask, hid⟩ := Option.map_eq_some_iff.mp hcurrent
  exact ⟨k, task, hk, htask, hid, of_decide_eq_true hcaps⟩

/-- A send in its own name, to task 2: it does nothing. -/
theorem no_ambient_authority_send :
    ∃ k value s', twoTasks.foldlM Kernel.step (.boot Kernel.sixteenFrames .empty) = some k ∧
      Dispatches zeroes true ⟨k, twoAgents, .new⟩ 20 1 2 1 0 1 value s' ∧
      Spares 1 ⟨k, twoAgents, .new⟩ s' ∧
      Independent zeroes true 1 ⟨k, twoAgents, .new⟩ (.decode 20 1 2 1 0 1) value := by
  obtain ⟨k, task, hk, htask, hid, hcaps⟩ := twoTasks_run
  have hfs : k.fs.WellFormed := Kernel.wellFormed_fs_of_reachable
    (TransitionSystem.reachable_ofPartial_iff.mpr ⟨twoTasks, hk⟩)
  rw [← hid] at hcaps ⊢
  have hcurrent : (⟨k, twoAgents, .new⟩ : SyscallState).current = some task := htask
  have hdispatch : Dispatches zeroes true ⟨k, twoAgents, .new⟩ 20 1 2 1 0 1 _ _ := ⟨0, rfl⟩
  have hown : (Syscall.decode 20 1 2 1 0 1).OwnName task.id := hid.symm
  exact ⟨k, _, _, hk, hdispatch, (no_ambient_authority hfs hcurrent hcaps hdispatch).2 hown⟩

/-- Task 1 kills agent 2, without any capability. -/
theorem kill_without_capability :
    ∃ k task s', twoTasks.foldlM Kernel.step (.boot Kernel.sixteenFrames .empty) = some k ∧
      k.tasks.sched.current = some task ∧ task.id = 1 ∧ k.caps.OwnsNothing 1 ∧
      Dispatches zeroes true ⟨k, twoAgents, .new⟩ 11 2 0 0 0 0 (some 0) s' ∧
      (twoAgents.get 2).isSome ∧ s'.registry.get 2 = none ∧
      ¬Spares 1 ⟨k, twoAgents, .new⟩ s' := by
  obtain ⟨k, task, hk, htask, hid, hcaps⟩ := twoTasks_run
  have hkill : (AgentRegistry.kill 5 twoAgents 2).map (fun r => (killValue r.1, r.2.get 2)) =
      some (0, none) := by
    decide
  obtain ⟨⟨result, registry⟩, hkill, hstate⟩ := Option.map_eq_some_iff.mp hkill
  obtain ⟨hvalue, hgone⟩ := Prod.mk.inj hstate
  have hsome : (twoAgents.get 2).isSome := by decide
  refine ⟨k, task, ⟨k, registry, .new⟩, hk, htask, hid, hcaps, ⟨5, ?_⟩, hsome, hgone, ?_⟩
  · have hcall : Syscall.decode 11 2 0 0 0 0 = .agentKill 2 := rfl
    rw [dispatch, hcall, handle, sysAgentKill, hkill, ← hvalue]
    rfl
  · intro hspares
    have hsame := hspares.registry 2 (by decide)
    rw [← hsame, hgone] at hsome
    cases hsome

end SyscallState

end OxideOS
