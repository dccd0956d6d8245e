import OxideOS.Capability.Table

/-!
# Messages, mailboxes and channels

The data of the `ipc` modules.  A task receives through its mailbox, a bounded queue; a channel is a
name with a list of subscribers, each with the capability it subscribed with; a request waits in a
table until it is answered or its deadline has passed.

Message and channel ids are drawn from atomic counters that start at 1.  They are natural numbers:
no kernel runs long enough to draw `2 ^ 64` of them.
-/

namespace OxideOS

/-- `ipc::MessageId`. -/
abbrev MessageId := Nat

/-- `ipc::channel::ChannelId`. -/
abbrev ChannelId := Nat

inductive MessageType
  | data
  | request
  | reply
  | capTransfer
  | signal
deriving DecidableEq, Repr

inductive IpcError
  | recipientNotFound
  | mailboxFull
  | noMessage
  | timeout
  | capabilityDenied
  | invalidCapTransfer
deriving DecidableEq, Repr

structure Message where
  id : MessageId
  sender : TaskId
  recipient : TaskId
  msgType : MessageType
  payload : List UInt8
  capTransfer : Option CapId
  replyTo : Option MessageId
deriving DecidableEq, Repr

/-! ## Mailboxes -/

/-- `MAILBOX_CAPACITY`. -/
def mailboxCapacity : Nat := 256

structure Mailbox where
  queue : List Message
deriving DecidableEq, Repr

namespace Mailbox

/-- `Mailbox::new`. -/
def new : Mailbox := ⟨[]⟩

/-- `Mailbox::push`. -/
def push (mailbox : Mailbox) (msg : Message) : Except IpcError Mailbox :=
  if mailboxCapacity ≤ mailbox.queue.length then .error .mailboxFull
  else .ok ⟨mailbox.queue ++ [msg]⟩

/-- `Mailbox::pop`. -/
def pop (mailbox : Mailbox) : Option (Message × Mailbox) :=
  match mailbox.queue with
  | [] => none
  | msg :: rest => some (msg, ⟨rest⟩)

/-- `Mailbox::len`. -/
def len (mailbox : Mailbox) : Nat := mailbox.queue.length

theorem push_eq_ok {mailbox mailbox' : Mailbox} {msg : Message} :
    mailbox.push msg = .ok mailbox' ↔
      mailbox.len < mailboxCapacity ∧ mailbox' = ⟨mailbox.queue ++ [msg]⟩ := by
  rw [push, Except.guard_eq_ok, len, Nat.not_le, Except.ok.injEq, eq_comm (b := mailbox')]

end Mailbox

/-! ## Channels -/

structure Channel where
  id : ChannelId
  name : String
  subscribers : List (TaskId × CapId)
deriving DecidableEq, Repr

namespace Channel

/-- The task is among the subscribers: `subscribers.iter().any(|(t, _)| *t == task_id)`. -/
def listed (channel : Channel) (taskId : TaskId) : Bool :=
  channel.subscribers.any fun subscriber => subscriber.1 == taskId

/-- The entry that `subscribe` makes.  A task that is listed keeps the capability it has. -/
def addSubscriber (channel : Channel) (taskId : TaskId) (capId : CapId) : Channel :=
  if channel.listed taskId then channel
  else { channel with subscribers := channel.subscribers ++ [(taskId, capId)] }

/-- `subscribers.retain(|(t, _)| *t != task_id)`. -/
def removeSubscriber (channel : Channel) (taskId : TaskId) : Channel :=
  { channel with
    subscribers := channel.subscribers.filter fun subscriber => subscriber.1 != taskId }

variable {channel : Channel} {taskId id : TaskId} {capId : CapId}

theorem listed_addSubscriber :
    (channel.addSubscriber taskId capId).listed id = true ↔
      channel.listed id = true ∨ id = taskId := by
  rw [addSubscriber]
  split_ifs with hlisted
  · constructor
    · exact Or.inl
    · rintro (h | rfl)
      · exact h
      · exact hlisted
  · simp [listed, eq_comm (a := id)]

theorem listed_of_removeSubscriber (h : (channel.removeSubscriber taskId).listed id = true) :
    channel.listed id = true := by
  rw [listed, List.any_eq_true] at h ⊢
  obtain ⟨subscriber, hmem, hid⟩ := h
  exact ⟨subscriber, (List.mem_filter.mp hmem).1, hid⟩

end Channel

/-! ## Requests -/

/-- `request_reply::PendingRequest`. -/
structure PendingRequest where
  requester : TaskId
  deadlineTick : UInt64
deriving DecidableEq, Repr

end OxideOS
