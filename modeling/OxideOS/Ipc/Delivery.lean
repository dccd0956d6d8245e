import OxideOS.Kernel.System
import OxideOS.Lib.BoundedQueue

/-!
# Delivery through mailboxes

Messages reach a mailbox from two sides: `send`, and the loop of `publish` over the subscribers. A
send that finds no room has drawn a message id all the same; a publish passes over a full mailbox.
Whatever the calls and whoever makes them, the mailboxes are bounded queues: each call is a few
events at the ends of the queues it addresses. So messages are received in the order in which they
were accepted, each of them once.

Mailboxes are only touched by calls that keep the processor from start to end, so a sequence of
calls is any interleaving of those of the tasks.

## Main definitions

* `MailEvent`, `Kernel.mailEvents`: what a call does to the mailboxes
* `Kernel.mailSystem`: the kernel with a record of these events
* `Kernel.Addresses`: the tasks whose mailbox a call is about

## Main results

* `Kernel.step_mails`: one call is a run of the queues, and draws at most one id
* `Kernel.mailboxes_fifo`: delivery in order and exactly once, within the capacity
-/

namespace OxideOS

/-- What happens to a mailbox. -/
inductive MailEvent
  | registered (taskId : TaskId)
  | unregistered (taskId : TaskId)
  /-- A message is accepted by `send`. -/
  | sent (msg : Message)
  /-- A message is pushed by `publish`. -/
  | published (msg : Message)
  /-- A message is returned by `receive`. -/
  | received (taskId : TaskId) (msg : Message)
deriving DecidableEq, Repr

namespace MailEvent

/-- The event, as one of the queue of a task. -/
def toQueue : MailEvent → QueueEvent TaskId Message
  | registered taskId => .opened taskId
  | unregistered taskId => .closed taskId
  | sent msg => .put msg.recipient msg
  | published msg => .put msg.recipient msg
  | received taskId msg => .took taskId msg

/-- The mailbox of the task is registered or unregistered. -/
def Resets (taskId : TaskId) : MailEvent → Prop
  | registered id => id = taskId
  | unregistered id => id = taskId
  | _ => False

/-- The messages accepted for a task, in the order of acceptance. -/
def acceptedFor (taskId : TaskId) (events : List MailEvent) : List Message :=
  events.filterMap fun
    | sent msg => if msg.recipient = taskId then some msg else none
    | published msg => if msg.recipient = taskId then some msg else none
    | _ => none

/-- The messages that a task received, in order. -/
def receivedBy (taskId : TaskId) (events : List MailEvent) : List Message :=
  events.filterMap fun
    | received id msg => if id = taskId then some msg else none
    | _ => none

/-- The ids of the messages accepted by `send`, in the order of acceptance. -/
def sentIds (events : List MailEvent) : List MessageId :=
  events.filterMap fun
    | sent msg => some msg.id
    | _ => none

theorem putTo_map_toQueue (taskId : TaskId) (events : List MailEvent) :
    QueueEvent.putTo taskId (events.map toQueue) = acceptedFor taskId events := by
  unfold QueueEvent.putTo acceptedFor
  rw [List.filterMap_map]
  congr 1
  funext e
  cases e <;> rfl

theorem tookFrom_map_toQueue (taskId : TaskId) (events : List MailEvent) :
    QueueEvent.tookFrom taskId (events.map toQueue) = receivedBy taskId events := by
  unfold QueueEvent.tookFrom receivedBy
  rw [List.filterMap_map]
  congr 1
  funext e
  cases e <;> rfl

theorem resets_toQueue {taskId : TaskId} {e : MailEvent} :
    e.toQueue.Resets taskId ↔ e.Resets taskId := by
  cases e <;> rfl

end MailEvent

namespace Kernel

/-! ## What a call does to the mailboxes -/

/-- The pushes of the loop of `publish` that find a mailbox with room. -/
def offered (sender : TaskId) (payload : List UInt8) : List TaskId → Kernel → List MailEvent
  | [], _ => []
  | subTask :: rest, k =>
    (match k.deliver (publishedMsg sender payload subTask) with
      | .ok _ => [.published (publishedMsg sender payload subTask)]
      | .error _ => []) ++
    offered sender payload rest (offer sender payload k subTask)

/-- What happens to the mailboxes in a call. -/
def mailEvents (k : Kernel) : KernelOp → List MailEvent
  | .registerMailbox taskId => [.registered taskId]
  | .unregisterMailbox taskId => [.unregistered taskId]
  | .reschedule =>
    -- the cleanup of a dead task unregisters its mailbox
    match k.tasks.sched.reschedule with
    | (_, some task, _) => [.unregistered task.id]
    | (_, none, _) => []
  | .receive taskId =>
    match k.receive taskId with
    | (some msg, _) => [.received taskId msg]
    | (none, _) => []
  | .gated (.send sender recipient msgType payload capTransfer replyTo senderCap unlocked) =>
    match k.send sender recipient msgType payload capTransfer replyTo senderCap unlocked with
    | (.ok id, _) => [.sent ⟨id, sender, recipient, msgType, payload, capTransfer, replyTo⟩]
    | (.error _, _) => []
  | .gated (.request sender recipient payload senderCap timeoutTicks unlocked) =>
    match k.request sender recipient payload senderCap timeoutTicks unlocked with
    | some (.ok id, _) => [.sent ⟨id, sender, recipient, .request, payload, none, none⟩]
    | _ => []
  | .gated (.publish channelName sender payload publishCap) =>
    match k.publish channelName sender payload publishCap, k.channels[channelName]? with
    | (.ok _, _), some channel =>
      offered sender payload ((channel.subscribers.map Prod.fst).filter fun t => t != sender) k
    | _, _ => []
  | _ => []

/-- Any calls after boot, with a record of what happens to the mailboxes. -/
def mailSystem (frames : Option BitmapFrameAllocator) (pageTable : PageTable) :
    TransitionSystem (Kernel × List MailEvent) KernelOp :=
  .recorded (boot frames pageTable) step mailEvents

/-- The task is the one whose mailbox the call is about. -/
def Addresses (k : Kernel) : KernelOp → TaskId → Prop
  | .registerMailbox taskId, id => id = taskId
  | .unregisterMailbox taskId, id => id = taskId
  | .reschedule, id => ∃ change task sched,
      k.tasks.sched.reschedule = (change, some task, sched) ∧ id = task.id
  | .receive taskId, id => id = taskId
  | .gated (.send _ recipient _ _ _ _ _ _), id => id = recipient
  | .gated (.request _ recipient _ _ _ _), id => id = recipient
  | .gated (.publish channelName sender _ _), id => k.Lists channelName id ∧ id ≠ sender
  | _, _ => False

/-- The mailboxes as queues. -/
def queues (k : Kernel) : QueueMap TaskId Message := fun taskId =>
  k.mailboxes[taskId]?.map Mailbox.queue

variable {k k' : Kernel} {op : KernelOp} {msg : Message} {taskId : TaskId}

theorem queues_insert {mailbox : Mailbox} :
    queues { k with mailboxes := k.mailboxes.insert taskId mailbox } =
      Function.update k.queues taskId (some mailbox.queue) := by
  funext id
  unfold queues
  rw [Std.ExtTreeMap.getElem?_insert]
  by_cases hid : id = taskId
  · subst hid
    simp
  · rw [Function.update_of_ne hid, if_neg fun h => hid (Std.LawfulEqCmp.eq_of_compare h).symm]

theorem queues_erase (k : Kernel) (taskId : TaskId) :
    queues { k with mailboxes := k.mailboxes.erase taskId } =
      Function.update k.queues taskId none := by
  funext id
  unfold queues
  rw [Std.ExtTreeMap.getElem?_erase]
  by_cases hid : id = taskId
  · subst hid
    simp
  · rw [Function.update_of_ne hid, if_neg fun h => hid (Std.LawfulEqCmp.eq_of_compare h).symm]

theorem queues_congr (h : k'.mailboxes = k.mailboxes) : k'.queues = k.queues := by
  unfold queues
  rw [h]

/-- A delivery puts one message. -/
theorem queues_deliver (h : k.deliver msg = .ok k') :
    QueueMap.Step mailboxCapacity k.queues (.put msg.recipient msg) k'.queues := by
  obtain ⟨mailbox, hmailbox, hroom, rfl⟩ := deliver_cases h
  rw [queues_insert]
  exact .put (by rw [queues, hmailbox]; rfl) hroom

/-- What a call may do to the mailboxes and the counter of ids: a run of the queues, and at most
one id for at most one message. -/
structure Mails (k : Kernel) (events : List MailEvent) (k' : Kernel) : Prop where
  run : (QueueMap.system TaskId Message mailboxCapacity).Run k.queues
    (events.map MailEvent.toQueue) k'.queues
  ids : (MailEvent.sentIds events = [] ∧ k.nextMsgId ≤ k'.nextMsgId) ∨
    (MailEvent.sentIds events = [k.nextMsgId] ∧ k'.nextMsgId = k.nextMsgId + 1)

/-- A call that leaves the mailboxes alone. -/
theorem mails_nil (hmailboxes : k'.mailboxes = k.mailboxes) (hnext : k.nextMsgId ≤ k'.nextMsgId) :
    Mails k [] k' where
  run := by
    rw [queues_congr hmailboxes]
    exact .nil _
  ids := .inl ⟨rfl, hnext⟩

/-- A call with one event that is no send. -/
theorem mails_one {e : MailEvent}
    (hstep : QueueMap.Step mailboxCapacity k.queues e.toQueue k'.queues)
    (hsent : MailEvent.sentIds [e] = []) (hnext : k'.nextMsgId = k.nextMsgId) :
    Mails k [e] k' :=
  ⟨.cons hstep (.nil _), .inl ⟨hsent, Nat.le_of_eq hnext.symm⟩⟩

theorem mails_receive (k : Kernel) (taskId : TaskId) :
    Mails k (k.mailEvents (.receive taskId)) (k.receive taskId).2 := by
  rw [mailEvents]
  rcases k.receive_cases taskId with ⟨-, hreceive⟩ | ⟨msg, rest, hmailbox, hreceive⟩
  · rw [hreceive]
    exact mails_nil rfl (Nat.le_refl _)
  · rw [hreceive]
    refine mails_one (e := .received taskId msg) ?_ rfl rfl
    simp only [queues_insert]
    refine .took ?_
    rw [queues, hmailbox]
    rfl

/-- A send that succeeds puts one message, under a fresh id; one that fails puts none, but may
have drawn an id. -/
theorem send_delivers {k k' : Kernel} {sender recipient : TaskId} {msgType : MessageType}
    {payload : List UInt8} {capTransfer : Option CapId} {replyTo : Option MessageId}
    {senderCap : CapId} {unlocked : Bool} {result : Except IpcError MessageId}
    (h : k.send sender recipient msgType payload capTransfer replyTo senderCap unlocked =
      (result, k')) :
    (∃ e, result = .error e ∧ k'.mailboxes = k.mailboxes ∧ k.nextMsgId ≤ k'.nextMsgId) ∨
      (result = .ok k.nextMsgId ∧ k'.nextMsgId = k.nextMsgId + 1 ∧
        QueueMap.Step mailboxCapacity k.queues (.put recipient
          ⟨k.nextMsgId, sender, recipient, msgType, payload, capTransfer, replyTo⟩) k'.queues) := by
  rcases send_cases h with ⟨e, rfl, rfl, -⟩ | ⟨caps, -, -, ⟨e, rfl, -, rfl⟩ | hsent⟩
  · exact .inl ⟨e, rfl, rfl, Nat.le_refl _⟩
  · exact .inl ⟨e, rfl, rfl, Nat.le_succ _⟩
  · obtain ⟨k₁, rfl, hdeliver, rfl⟩ := hsent
    have hput := queues_deliver hdeliver
    obtain ⟨mailboxes, rfl⟩ := deliver_eq_ok hdeliver
    exact .inr ⟨rfl, rfl, hput⟩

theorem mails_send (k : Kernel) (sender recipient : TaskId) (msgType : MessageType)
    (payload : List UInt8) (capTransfer : Option CapId) (replyTo : Option MessageId)
    (senderCap : CapId) (unlocked : Bool) :
    Mails k (k.mailEvents
        (.gated (.send sender recipient msgType payload capTransfer replyTo senderCap unlocked)))
      (k.send sender recipient msgType payload capTransfer replyTo senderCap unlocked).2 := by
  rcases hsend : k.send sender recipient msgType payload capTransfer replyTo senderCap unlocked
    with ⟨result, k'⟩
  rw [mailEvents, hsend]
  rcases send_delivers hsend with ⟨e, rfl, hmailboxes, hnext⟩ | ⟨rfl, hnext, hput⟩
  · exact mails_nil hmailboxes hnext
  · exact ⟨.cons hput (.nil _), .inr ⟨rfl, hnext⟩⟩

/-- A request is a send; the table of requests is not the mailboxes' concern. -/
theorem mails_request {k k' : Kernel} {sender recipient : TaskId} {payload : List UInt8}
    {senderCap : CapId} {timeoutTicks : UInt64} {unlocked : Bool}
    {result : Except IpcError MessageId}
    (h : k.request sender recipient payload senderCap timeoutTicks unlocked = some (result, k')) :
    Mails k (k.mailEvents
      (.gated (.request sender recipient payload senderCap timeoutTicks unlocked))) k' := by
  rw [mailEvents, h]
  obtain ⟨k₁, hsend, hk'⟩ :=
    request_send k sender recipient payload senderCap timeoutTicks unlocked h
  rcases send_delivers hsend with ⟨e, rfl, hmailboxes, hnext⟩ | ⟨rfl, hnext, hput⟩
  · rcases hk' with ⟨-, -, rfl⟩ | ⟨msgId, hok, -⟩
    · exact mails_nil hmailboxes hnext
    · cases hok
  · rcases hk' with ⟨e, herror, -⟩ | ⟨msgId, hok, rfl⟩
    · cases herror
    · obtain rfl := Except.ok.inj hok
      exact ⟨.cons hput (.nil _), .inr ⟨rfl, hnext⟩⟩

/-- The loop of `publish` puts the messages that find room. -/
theorem run_offered (sender : TaskId) (payload : List UInt8) (subscribers : List TaskId)
    (k : Kernel) :
    (QueueMap.system TaskId Message mailboxCapacity).Run k.queues
        ((offered sender payload subscribers k).map MailEvent.toQueue)
        (subscribers.foldl (offer sender payload) k).queues ∧
      MailEvent.sentIds (offered sender payload subscribers k) = [] := by
  induction subscribers generalizing k with
  | nil => exact ⟨.nil _, rfl⟩
  | cons subTask rest ih =>
    obtain ⟨hrun, hids⟩ := ih (offer sender payload k subTask)
    rw [List.foldl_cons, offered, List.map_append]
    cases hdeliver : k.deliver (publishedMsg sender payload subTask) with
    | error e =>
      have hoffer : offer sender payload k subTask = k := by
        rw [offer, hdeliver]
      rw [hoffer] at hrun hids ⊢
      exact ⟨hrun, hids⟩
    | ok k₁ =>
      have hoffer : offer sender payload k subTask = k₁ := by
        rw [offer, hdeliver]
      rw [hoffer] at hrun hids ⊢
      exact ⟨.cons (queues_deliver hdeliver) hrun, hids⟩

theorem mails_publish (k : Kernel) (channelName : String) (sender : TaskId)
    (payload : List UInt8) (publishCap : CapId) :
    Mails k (k.mailEvents (.gated (.publish channelName sender payload publishCap)))
      (k.publish channelName sender payload publishCap).2 := by
  rw [mailEvents]
  rcases k.publish_cases channelName sender payload publishCap with
    ⟨e, hrefused, -⟩ | ⟨channel, subscribers, -, hchannel, rfl, hok⟩
  · rw [hrefused]
    exact mails_nil rfl (Nat.le_refl _)
  · rw [hok, hchannel]
    obtain ⟨hrun, hids⟩ := run_offered sender payload
      ((channel.subscribers.map Prod.fst).filter fun t => t != sender) k
    obtain ⟨mailboxes, hframe⟩ := foldl_offer_frame sender payload
      ((channel.subscribers.map Prod.fst).filter fun t => t != sender) k
    refine ⟨hrun, .inl ⟨hids, ?_⟩⟩
    rw [hframe]

theorem mails_reschedule (h : k.reschedule = some k') :
    Mails k (k.mailEvents .reschedule) k' := by
  rw [reschedule] at h
  rw [mailEvents]
  split at h
  · next hres =>
    obtain rfl := Option.some.inj h
    rw [hres]
    exact mails_nil rfl (Nat.le_refl _)
  · next task sched hres =>
    obtain ⟨frames, rfl⟩ := cleanupDeadTask_eq_some h
    rw [hres]
    refine mails_one (e := .unregistered task.id) ?_ rfl rfl
    rw [show queues { k with
      frames := frames
      mailboxes := k.mailboxes.erase task.id
      tasks := ⟨sched, k.tasks.ids.free task.id⟩ } = _ from queues_erase k task.id]
    exact .closed task.id

theorem mails_exec {call : GatedCall} {ok : Bool} (h : k.exec call = some (ok, k')) :
    Mails k (k.mailEvents (.gated call)) k' := by
  cases call with
  | send sender recipient msgType payload capTransfer replyTo senderCap unlocked =>
    obtain ⟨-, rfl⟩ := Prod.mk.inj (Option.some.inj h)
    exact mails_send ..
  | request sender recipient payload senderCap timeoutTicks unlocked =>
    obtain ⟨⟨result, k₁⟩, hrequest, hk⟩ := Option.map_eq_some_iff.mp h
    obtain ⟨-, rfl⟩ := Prod.mk.inj hk
    exact mails_request hrequest
  | publish channelName sender payload publishCap =>
    obtain ⟨-, rfl⟩ := Prod.mk.inj (Option.some.inj h)
    exact mails_publish ..
  | subscribe | contextSet | contextGet | submitRequest =>
    rw [exec_frame h]
    exact mails_nil rfl (Nat.le_refl _)

/-- **What a call does to the mailboxes.** -/
theorem step_mails (h : k.step op = some k') : Mails k (k.mailEvents op) k' := by
  cases op with
  | reschedule => exact mails_reschedule h
  | registerMailbox taskId =>
    obtain rfl := Option.some.inj h
    refine mails_one (e := .registered taskId) ?_ rfl rfl
    rw [registerMailbox, queues_insert]
    exact .opened taskId
  | unregisterMailbox taskId =>
    obtain rfl := Option.some.inj h
    refine mails_one (e := .unregistered taskId) ?_ rfl rfl
    rw [unregisterMailbox, queues_erase]
    exact .closed taskId
  | receive taskId =>
    obtain rfl := Option.some.inj h
    exact mails_receive k taskId
  | gated call =>
    obtain ⟨⟨ok, k''⟩, hexec, rfl⟩ := Option.map_eq_some_iff.mp h
    exact mails_exec hexec
  | _ =>
    rw [step_frame h]
    exact mails_nil rfl (Nat.le_refl _)

/-! ## Other recipients -/

/-- The loop of `publish` delivers to subscribers. -/
theorem mem_offered {sender : TaskId} {payload : List UInt8} {subscribers : List TaskId}
    {e : MailEvent} (he : e ∈ offered sender payload subscribers k) :
    ∃ subTask ∈ subscribers, e = .published (publishedMsg sender payload subTask) := by
  induction subscribers generalizing k with
  | nil => cases he
  | cons subTask rest ih =>
    rw [offered] at he
    rcases List.mem_append.mp he with hfirst | hrest
    · split at hfirst
      · exact ⟨subTask, List.mem_cons_self, List.mem_singleton.mp hfirst⟩
      · cases hfirst
    · obtain ⟨subTask', hmem, heq⟩ := ih hrest
      exact ⟨subTask', List.mem_cons_of_mem _ hmem, heq⟩

/-- What happens in a call happens to the mailboxes it is about, and published messages have no id
of their own. -/
theorem mailEvents_spec {e : MailEvent} (he : e ∈ k.mailEvents op) :
    k.Addresses op e.toQueue.key ∧ ∀ msg, e = .published msg → msg.id = 0 := by
  unfold mailEvents at he
  split at he
  · obtain rfl := List.mem_singleton.mp he
    exact ⟨rfl, by rintro _ ⟨⟩⟩
  · obtain rfl := List.mem_singleton.mp he
    exact ⟨rfl, by rintro _ ⟨⟩⟩
  · split at he
    · next hres =>
      obtain rfl := List.mem_singleton.mp he
      exact ⟨⟨_, _, _, hres, rfl⟩, by rintro _ ⟨⟩⟩
    · cases he
  iterate 3
    · split at he
      · obtain rfl := List.mem_singleton.mp he
        exact ⟨rfl, by rintro _ ⟨⟩⟩
      · cases he
  · split at he
    · next channel _ hchannel =>
      obtain ⟨subTask, hoffered, rfl⟩ := mem_offered he
      obtain ⟨hmem, hsender⟩ := List.mem_filter.mp hoffered
      obtain ⟨subscriber, hsubscriber, hid⟩ := List.mem_map.mp hmem
      refine ⟨⟨⟨channel, hchannel, ?_⟩, bne_iff_ne.mp hsender⟩, ?_⟩
      · rw [Channel.listed, List.any_eq_true]
        exact ⟨subscriber, hsubscriber, beq_iff_eq.mpr hid⟩
      · rintro msg heq
        obtain rfl := MailEvent.published.inj heq
        rfl
    · cases he
  · cases he

/-- A call leaves the mailboxes alone that it is not about. -/
theorem mailboxes_of_not_addresses (h : k.step op = some k') (ht : ¬ k.Addresses op taskId) :
    k'.mailboxes[taskId]? = k.mailboxes[taskId]? := by
  have hqueue : k'.queues taskId = k.queues taskId := by
    refine QueueMap.eq_of_forall_key_ne (step_mails h).run fun e he hkey => ht ?_
    obtain ⟨e', he', rfl⟩ := List.mem_map.mp he
    exact hkey ▸ (mailEvents_spec he').1
  exact Option.map_injective (fun _ _ heq => congrArg Mailbox.mk heq) hqueue

/-! ## Whole runs -/

section Reachable

variable {frames : Option BitmapFrameAllocator} {pageTable : PageTable} {log : List MailEvent}

/-- The whole record is a run of the queues. -/
theorem run_queues (h : (mailSystem frames pageTable).Reachable (k, log)) :
    (QueueMap.system TaskId Message mailboxCapacity).Run (fun _ => none)
      (log.map MailEvent.toQueue) k.queues := by
  have hboot : (boot frames pageTable).queues = fun _ => none := by
    funext taskId
    rfl
  rw [← hboot]
  exact TransitionSystem.run_of_recorded (fun _ _ _ hstep => (step_mails hstep).run) h

/-- The ids of the messages accepted by `send` increase, up to the counter. -/
theorem pairwise_sentIds (h : (mailSystem frames pageTable).Reachable (k, log)) :
    (MailEvent.sentIds log).Pairwise (· < ·) ∧ ∀ id ∈ MailEvent.sentIds log, id < k.nextMsgId := by
  refine TransitionSystem.Invariant.of_reachable
    (P := fun x : Kernel × List MailEvent => (MailEvent.sentIds x.2).Pairwise (· < ·) ∧
      ∀ id ∈ MailEvent.sentIds x.2, id < x.1.nextMsgId) ⟨?_, ?_⟩ h
  · rintro x rfl
    exact ⟨.nil, fun id hid => absurd hid List.not_mem_nil⟩
  · rintro ⟨k, log⟩ op ⟨k', log'⟩ ⟨hpairwise, hlt⟩ hstep
    obtain ⟨hop, rfl⟩ := TransitionSystem.step_recorded hstep
    have happend : MailEvent.sentIds (log ++ k.mailEvents op) =
        MailEvent.sentIds log ++ MailEvent.sentIds (k.mailEvents op) := List.filterMap_append
    dsimp only at happend ⊢
    rw [happend]
    rcases (step_mails hop).ids with ⟨hnone, hnext⟩ | ⟨hone, hnext⟩
    · rw [hnone, List.append_nil]
      exact ⟨hpairwise, fun id hid => Nat.lt_of_lt_of_le (hlt id hid) hnext⟩
    · rw [hone]
      refine ⟨List.pairwise_append.mpr ⟨hpairwise, List.pairwise_singleton _ _, ?_⟩, ?_⟩
      · rintro id hid _ hnew
        obtain rfl := List.mem_singleton.mp hnew
        exact hlt id hid
      · intro id hid
        rw [hnext]
        rcases List.mem_append.mp hid with hold | hnew
        · exact Nat.lt_succ_of_lt (hlt id hold)
        · obtain rfl := List.mem_singleton.mp hnew
          exact Nat.lt_succ_self _

/-- **Mailboxes deliver in order, exactly once.** After any calls: since the mailbox of a task was
registered last, the messages received from it followed by those it holds are the messages accepted
for it, in the order of acceptance; no mailbox holds more than 256 messages; the messages accepted
by `send` have increasing ids; and a call leaves every mailbox alone that it is not about. -/
theorem mailboxes_fifo (h : (mailSystem frames pageTable).Reachable (k, log)) :
    (∀ taskId before during, log = before ++ .registered taskId :: during →
      (∀ e ∈ during, ¬ MailEvent.Resets taskId e) →
      ∃ mailbox, k.mailboxes[taskId]? = some mailbox ∧
        MailEvent.receivedBy taskId during ++ mailbox.queue =
          MailEvent.acceptedFor taskId during) ∧
    (∀ (taskId : TaskId) mailbox, k.mailboxes[taskId]? = some mailbox → mailbox.len ≤ 256) ∧
    (MailEvent.sentIds log).Pairwise (· < ·) ∧
    ∀ op k' (taskId : TaskId), k.step op = some k' → ¬ k.Addresses op taskId →
      k'.mailboxes[taskId]? = k.mailboxes[taskId]? := by
  have hrun := run_queues h
  refine ⟨?_, ?_, (pairwise_sentIds h).1, fun _ _ _ => mailboxes_of_not_addresses⟩
  · intro taskId before during hlog hreset
    rw [hlog, List.map_append, List.map_cons] at hrun
    have hduring : ∀ e ∈ during.map MailEvent.toQueue, ¬ e.Resets taskId := by
      intro e he
      obtain ⟨e', he', rfl⟩ := List.mem_map.mp he
      rw [MailEvent.resets_toQueue]
      exact hreset e' he'
    obtain ⟨items, hitems, hfifo⟩ := QueueMap.fifo hrun hduring
    obtain ⟨mailbox, hmailbox, rfl⟩ := Option.map_eq_some_iff.mp hitems
    refine ⟨mailbox, hmailbox, ?_⟩
    rw [← MailEvent.tookFrom_map_toQueue, ← MailEvent.putTo_map_toQueue]
    exact hfifo
  · intro taskId mailbox hmailbox
    refine QueueMap.length_le ⟨_, _, rfl, hrun⟩ taskId mailbox.queue ?_
    rw [queues, hmailbox]
    rfl

end Reachable

/-- Task 1 sends to task 2 and to a task without a mailbox, publishes to it, and sends again; task 2
receives two messages. -/
def sentAndPublished : List KernelOp :=
  [.capability (.createRoot 1 (.agent 2) .all), .capability (.createRoot 2 (.channel "news") .all),
    .registerMailbox 2, .createChannel "news", .gated (.subscribe "news" 2 2),
    .gated (.send 1 2 .data [7] none none 1 true), .gated (.send 1 3 .data [] none none 1 true),
    .gated (.publish "news" 1 [8] 1), .receive 2, .gated (.send 1 2 .data [9] none none 1 true),
    .receive 2]

/-- The message in the mailbox at the end is the one accepted last. -/
theorem mailboxes_fifo_sentAndPublished :
    ∃ k log, sentAndPublished.foldlM (TransitionSystem.recordStep step mailEvents)
        (boot none .empty, []) = some (k, log) ∧
      MailEvent.sentIds log = [1, 3] ∧
      ∃ mailbox, k.mailboxes[2]? = some mailbox ∧
        [⟨1, 1, 2, .data, [7], none, none⟩, publishedMsg 1 [8] 2] ++ mailbox.queue =
          [⟨1, 1, 2, .data, [7], none, none⟩, publishedMsg 1 [8] 2,
            ⟨3, 1, 2, .data, [9], none, none⟩] := by
  have hrun : (sentAndPublished.foldlM (TransitionSystem.recordStep step mailEvents)
      (boot none .empty, [])).map Prod.snd =
      some [.registered 2, .sent ⟨1, 1, 2, .data, [7], none, none⟩,
        .published (publishedMsg 1 [8] 2), .received 2 ⟨1, 1, 2, .data, [7], none, none⟩,
        .sent ⟨3, 1, 2, .data, [9], none, none⟩, .received 2 (publishedMsg 1 [8] 2)] := by
    decide
  obtain ⟨⟨k, log⟩, hx, rfl⟩ := Option.map_eq_some_iff.mp hrun
  have hreach : (mailSystem none .empty).Reachable (k, _) :=
    TransitionSystem.reachable_ofPartial_iff.mpr ⟨sentAndPublished, hx⟩
  refine ⟨k, _, hx, rfl, ?_⟩
  exact (mailboxes_fifo hreach).1 2 [] _ rfl (by simp [MailEvent.Resets])

end Kernel

end OxideOS
