import OxideOS.Capability.Confinement
import OxideOS.Kernel.State

/-!
# Sending and receiving

`ipc/message.rs`.  A send asks for a capability with the right to write, hands on the capability
that the message carries, if any, and only then looks for the mailbox of the recipient.  So a send
that fails for want of a mailbox, or of room in it, has drawn a message id and delegated the
capability.

## Main definitions

* `Kernel.registerMailbox`, `Kernel.unregisterMailbox`
* `Kernel.transferCap`, `Kernel.deliver`, `Kernel.send`, `Kernel.receive`
* `CapabilityTable.Grants`, `CapabilityTable.Transferable`, `Kernel.HasRoom`: what a send needs

## Main results

* `Kernel.send_ok_iff`: when a send succeeds
* `Kernel.send_cases`: how a send goes, with all that it changes
* `Kernel.send_frame`: what a send changes, whether it succeeds or not
-/

namespace OxideOS

namespace CapabilityTable

/-- The task owns the capability, which is live and has the rights required. -/
def Grants (t : CapabilityTable) (capId : CapId) (taskId : TaskId) (required : PermissionBits) :
    Prop :=
  ∃ cap, t.slot capId = some cap ∧ cap.revoked = false ∧ cap.owner = taskId ∧
    cap.permissions.contains required = true

theorem grants_iff {t : CapabilityTable} {capId : CapId} {taskId : TaskId}
    {required : PermissionBits} :
    t.Grants capId taskId required ↔ ∃ cap, t.validate capId taskId required = .ok cap := by
  simp only [Grants, validate_eq_ok]

/-- The task owns no live capability. -/
def OwnsNothing (t : CapabilityTable) (taskId : TaskId) : Prop :=
  ∀ i cap, t.slot i = some cap → cap.owner = taskId → cap.revoked = true

theorem OwnsNothing.not_grants {t : CapabilityTable} {taskId : TaskId} (h : t.OwnsNothing taskId)
    (capId : CapId) (required : PermissionBits) : ¬t.Grants capId taskId required := by
  rintro ⟨cap, hslot, hlive, howner, -⟩
  rw [h capId cap hslot howner] at hlive
  cases hlive

/-- The slots say so, one by one. -/
theorem ownsNothing_iff {t : CapabilityTable} {taskId : TaskId} : t.OwnsNothing taskId ↔
    ∀ slot ∈ t.capabilities, ∀ cap ∈ slot, cap.owner = taskId → cap.revoked = true := by
  constructor
  · rintro hcaps slot hslot cap rfl howner
    obtain ⟨i, hi⟩ := List.mem_iff_getElem?.mp hslot
    exact hcaps i cap (slot_eq_some.mpr hi) howner
  · intro hcaps i cap hslot howner
    exact hcaps _ (List.mem_of_getElem? (slot_eq_some.mp hslot)) cap rfl howner

instance {t : CapabilityTable} {taskId : TaskId} : Decidable (t.OwnsNothing taskId) :=
  decidable_of_iff _ ownsNothing_iff.symm

/-- The sender can hand on the capability that a message carries, with all of its rights. -/
def Transferable (t : CapabilityTable) (sender : TaskId) (capTransfer : Option CapId) : Prop :=
  ∀ capId, capTransfer = some capId →
    ∃ cap, t.slot capId = some cap ∧ cap.revoked = false ∧ cap.owner = sender ∧
      cap.permissions.contains .delegate = true

end CapabilityTable

namespace Kernel

/-- `register_mailbox`.  A mailbox that exists is replaced by an empty one. -/
def registerMailbox (k : Kernel) (taskId : TaskId) : Kernel :=
  { k with mailboxes := k.mailboxes.insert taskId .new }

/-- `unregister_mailbox`. -/
def unregisterMailbox (k : Kernel) (taskId : TaskId) : Kernel :=
  { k with mailboxes := k.mailboxes.erase taskId }

/-- The capability transfer of `send`: the capability is delegated with all of its permissions. -/
def transferCap (caps : CapabilityTable) (sender recipient : TaskId) :
    Option CapId → Except IpcError CapabilityTable
  | none => .ok caps
  | some transferCapId =>
    match caps.get transferCapId with
    | .error _ => .error .invalidCapTransfer
    | .ok cap =>
      match caps.delegate transferCapId sender recipient cap.permissions none with
      | (.error _, _) => .error .invalidCapTransfer
      | (.ok _, caps) => .ok caps

/-- Push a message into the mailbox of its recipient. -/
def deliver (k : Kernel) (msg : Message) : Except IpcError Kernel :=
  match k.mailboxes[msg.recipient]? with
  | none => .error .recipientNotFound
  | some mailbox =>
    match mailbox.push msg with
    | .error e => .error e
    | .ok mailbox => .ok { k with mailboxes := k.mailboxes.insert msg.recipient mailbox }

/-- `message::send`, where `unlocked` tells whether the scheduler can be locked at the end. -/
def send (k : Kernel) (sender recipient : TaskId) (msgType : MessageType) (payload : List UInt8)
    (capTransfer : Option CapId) (replyTo : Option MessageId) (senderCap : CapId)
    (unlocked : Bool) : Except IpcError MessageId × Kernel :=
  match k.caps.validate senderCap sender .write with
  | .error _ => (.error .capabilityDenied, k)
  | .ok _ =>
    match transferCap k.caps sender recipient capTransfer with
    | .error e => (.error e, k)
    | .ok caps =>
      let msgId := k.nextMsgId
      let k := { k with caps, nextMsgId := k.nextMsgId + 1 }
      -- the message carries the id of the sender's capability, not of the delegated one
      match k.deliver
        { id := msgId, sender, recipient, msgType, payload, capTransfer, replyTo } with
      | .error e => (.error e, k)
      | .ok k => (.ok msgId, k.wake recipient unlocked)

/-- `message::receive`. -/
def receive (k : Kernel) (taskId : TaskId) : Option Message × Kernel :=
  match k.mailboxes[taskId]? with
  | none => (none, k)
  | some mailbox =>
    match mailbox.pop with
    | none => (none, k)
    | some (msg, mailbox) =>
      (some msg, { k with mailboxes := k.mailboxes.insert taskId mailbox })

/-- `message::mailbox_len`. -/
def mailboxLen (k : Kernel) (taskId : TaskId) : Nat :=
  (k.mailboxes[taskId]?.map Mailbox.len).getD 0

/-- The task has a mailbox, and room in it. -/
def HasRoom (k : Kernel) (taskId : TaskId) : Prop :=
  ∃ mailbox, k.mailboxes[taskId]? = some mailbox ∧ mailbox.len < mailboxCapacity

/-! ## Transfers -/

section Transfer

variable {caps caps' : CapabilityTable} {sender recipient : TaskId} {capTransfer : Option CapId}

/-- Delegating a capability with its own permissions needs the delegation right, and no more. -/
theorem delegable_self (sender : TaskId) {capId : CapId} {cap : Capability}
    (hslot : caps.slot capId = some cap) (hlive : cap.revoked = false) :
    (∃ resource, caps.delegable capId sender cap.permissions none = .ok resource) ↔
      cap.owner = sender ∧ cap.permissions.contains .delegate = true := by
  simp only [CapabilityTable.delegable_eq_ok, PermissionBits.canDelegateTo_iff]
  constructor
  · rintro ⟨resource, source, ⟨hsource, -⟩, howner, ⟨hdelegate, -⟩, -⟩
    obtain rfl := Option.some.inj (hslot.symm.trans hsource)
    exact ⟨howner, hdelegate⟩
  · rintro ⟨howner, hdelegate⟩
    exact ⟨cap.resource, cap, ⟨hslot, hlive⟩, howner,
      ⟨hdelegate, PermissionBits.contains_refl _⟩, rfl⟩

/-- A transfer is one delegation. -/
theorem transferCap_eq_ok (h : transferCap caps sender recipient capTransfer = .ok caps') :
    caps' = caps ∨ ∃ op, caps' = caps.step op := by
  cases capTransfer with
  | none => exact .inl (Except.ok.inj h).symm
  | some capId =>
    rw [transferCap] at h
    split at h
    · cases h
    · next cap _ =>
      split at h
      · cases h
      · next hdelegate =>
        refine .inr ⟨.delegate capId sender recipient cap.permissions none, ?_⟩
        rw [CapabilityTable.step, hdelegate]
        exact (Except.ok.inj h).symm

theorem exists_transferCap_iff (recipient : TaskId) :
    (∃ caps', transferCap caps sender recipient capTransfer = .ok caps') ↔
      caps.Transferable sender capTransfer := by
  cases capTransfer with
  | none => simp [transferCap, CapabilityTable.Transferable]
  | some capId =>
    simp only [CapabilityTable.Transferable, Option.some.injEq, forall_eq', transferCap]
    cases hget : caps.get capId with
    | error e =>
      simp only [reduceCtorEq, exists_false, false_iff, not_exists]
      rintro cap ⟨hslot, hlive, -⟩
      rw [CapabilityTable.get_eq_ok.mpr ⟨hslot, hlive⟩] at hget
      cases hget
    | ok cap =>
      obtain ⟨hslot, hlive⟩ := CapabilityTable.get_eq_ok.mp hget
      have hself := delegable_self sender hslot hlive
      simp only [hslot, Option.some.injEq, exists_eq_left', hlive, true_and, ← hself,
        CapabilityTable.delegate]
      cases caps.delegable capId sender cap.permissions none with
      | error e => simp
      | ok resource => simp

end Transfer

/-! ## Delivery -/

variable {k k' : Kernel} {msg : Message}

theorem deliver_cases (h : k.deliver msg = .ok k') :
    ∃ mailbox, k.mailboxes[msg.recipient]? = some mailbox ∧ mailbox.len < mailboxCapacity ∧
      k' = { k with
        mailboxes := k.mailboxes.insert msg.recipient ⟨mailbox.queue ++ [msg]⟩ } := by
  rw [deliver] at h
  split at h
  · cases h
  next mailbox hmailbox =>
  split at h
  · cases h
  next mailbox' hpush =>
  obtain ⟨hroom, rfl⟩ := Mailbox.push_eq_ok.mp hpush
  exact ⟨mailbox, hmailbox, hroom, (Except.ok.inj h).symm⟩

theorem deliver_eq_ok (h : k.deliver msg = .ok k') : ∃ mailboxes, k' = { k with mailboxes } := by
  obtain ⟨mailbox, -, -, rfl⟩ := deliver_cases h
  exact ⟨_, rfl⟩

theorem exists_deliver_iff (k : Kernel) (msg : Message) :
    (∃ k', k.deliver msg = .ok k') ↔ k.HasRoom msg.recipient := by
  rw [deliver, HasRoom]
  cases hmailbox : k.mailboxes[msg.recipient]? with
  | none => simp
  | some mailbox =>
    cases hpush : mailbox.push msg with
    | error e =>
      have hfull : ¬mailbox.len < mailboxCapacity := fun hroom => by
        rw [Mailbox.push_eq_ok.mpr ⟨hroom, rfl⟩] at hpush
        cases hpush
      simp [hpush, hfull]
    | ok mailbox' => simp [hpush, (Mailbox.push_eq_ok.mp hpush).1]

@[simp] theorem hasRoom_caps {caps : CapabilityTable} {nextMsgId : MessageId} {taskId : TaskId} :
    HasRoom { k with caps, nextMsgId } taskId ↔ k.HasRoom taskId := .rfl

/-- Waking a task is an `unblock`, or nothing. -/
theorem wake_eq (k : Kernel) (taskId : TaskId) (unlocked : Bool) : k.wake taskId unlocked =
    { k with tasks := k.tasks.wakeEach (bif unlocked then [taskId] else []) } := by
  cases unlocked with
  | false => rfl
  | true => rfl

/-! ## Sending -/

section Send

variable {sender recipient : TaskId} {msgType : MessageType} {payload : List UInt8}
  {capTransfer : Option CapId} {replyTo : Option MessageId} {senderCap : CapId} {unlocked : Bool}
  {result : Except IpcError MessageId}

/-- **How a send goes.**  It is refused and changes nothing, or the capability that it carries is
handed on.  Then there is no room for the message, or it is delivered and its recipient is woken. -/
theorem send_cases (h : k.send sender recipient msgType payload capTransfer replyTo senderCap
    unlocked = (result, k')) :
    (∃ e, result = .error e ∧ k' = k ∧ ¬(k.caps.Grants senderCap sender .write ∧
        k.caps.Transferable sender capTransfer)) ∨
      ∃ caps, k.caps.Grants senderCap sender .write ∧
        transferCap k.caps sender recipient capTransfer = .ok caps ∧
        ((∃ e, result = .error e ∧ ¬k.HasRoom recipient ∧
            k' = { k with caps, nextMsgId := k.nextMsgId + 1 }) ∨
          ∃ k₁, result = .ok k.nextMsgId ∧
            deliver { k with caps, nextMsgId := k.nextMsgId + 1 }
              ⟨k.nextMsgId, sender, recipient, msgType, payload, capTransfer, replyTo⟩ = .ok k₁ ∧
            k' = { k₁ with
              tasks := k.tasks.wakeEach (bif unlocked then [recipient] else []) }) := by
  rw [CapabilityTable.grants_iff, ← exists_transferCap_iff recipient]
  rw [send] at h
  cases hvalid : k.caps.validate senderCap sender .write with
  | error e =>
    rw [hvalid] at h
    obtain ⟨rfl, rfl⟩ := Prod.mk.inj h
    exact .inl ⟨_, rfl, rfl, by simp⟩
  | ok cap =>
    cases htransfer : transferCap k.caps sender recipient capTransfer with
    | error e =>
      rw [hvalid, htransfer] at h
      obtain ⟨rfl, rfl⟩ := Prod.mk.inj h
      exact .inl ⟨_, rfl, rfl, by simp⟩
    | ok caps =>
      rw [hvalid, htransfer] at h
      dsimp only at h
      refine .inr ⟨caps, ⟨cap, rfl⟩, rfl, ?_⟩
      split at h
      · next e hdeliver =>
        obtain ⟨rfl, rfl⟩ := Prod.mk.inj h
        refine .inl ⟨e, rfl, fun hroom => ?_, rfl⟩
        obtain ⟨k₁, hk₁⟩ := (exists_deliver_iff { k with caps, nextMsgId := k.nextMsgId + 1 }
          ⟨k.nextMsgId, sender, recipient, msgType, payload, capTransfer, replyTo⟩).mpr hroom
        rw [hk₁] at hdeliver
        cases hdeliver
      · next k₁ hdeliver =>
        obtain ⟨rfl, rfl⟩ := Prod.mk.inj h
        obtain ⟨mailboxes, rfl⟩ := deliver_eq_ok hdeliver
        exact .inr ⟨_, rfl, hdeliver, wake_eq _ recipient unlocked⟩

/-- A send that fails leaves the mailboxes alone, and one that succeeds puts one message into the
mailbox of the recipient. -/
theorem mailboxes_send
    (h : k.send sender recipient msgType payload capTransfer replyTo senderCap unlocked =
      (result, k')) :
    ((∃ e, result = .error e) ∧ k'.mailboxes = k.mailboxes) ∨
      ∃ msgId msg mailbox, result = .ok msgId ∧ k.mailboxes[recipient]? = some mailbox ∧
        k'.mailboxes = k.mailboxes.insert recipient ⟨mailbox.queue ++ [msg]⟩ := by
  rcases send_cases h with ⟨e, rfl, rfl, -⟩ | ⟨caps, -, -, ⟨e, rfl, -, rfl⟩ | hsent⟩
  · exact .inl ⟨⟨e, rfl⟩, rfl⟩
  · exact .inl ⟨⟨e, rfl⟩, rfl⟩
  · obtain ⟨k₁, rfl, hdeliver, rfl⟩ := hsent
    obtain ⟨mailbox, hmailbox, -, rfl⟩ := deliver_cases hdeliver
    exact .inr ⟨_, _, mailbox, rfl, hmailbox, rfl⟩

/-- A send draws at most one message id, and returns the id it drew. -/
theorem nextMsgId_send
    (h : k.send sender recipient msgType payload capTransfer replyTo senderCap unlocked =
      (result, k')) :
    k.nextMsgId ≤ k'.nextMsgId ∧
      ∀ msgId, result = .ok msgId → msgId = k.nextMsgId ∧ k'.nextMsgId = k.nextMsgId + 1 := by
  rcases send_cases h with ⟨e, rfl, rfl, -⟩ | ⟨caps, -, -, ⟨e, rfl, -, rfl⟩ | hsent⟩
  · refine ⟨Nat.le_refl _, fun msgId hid => ?_⟩
    cases hid
  · refine ⟨Nat.le_succ _, fun msgId hid => ?_⟩
    cases hid
  · obtain ⟨k₁, rfl, hdeliver, rfl⟩ := hsent
    obtain ⟨mailboxes, rfl⟩ := deliver_eq_ok hdeliver
    exact ⟨Nat.le_succ _, fun msgId hid => ⟨(Except.ok.inj hid).symm, rfl⟩⟩

variable (k sender recipient msgType payload capTransfer replyTo senderCap unlocked)

/-- **A send succeeds** exactly when the sender holds the capability with the right to write, can
hand on the one it sends, and the recipient has room.  What the capability is for is not asked. -/
theorem send_ok_iff :
    (∃ msgId, (k.send sender recipient msgType payload capTransfer replyTo senderCap
      unlocked).1 = .ok msgId) ↔
      k.caps.Grants senderCap sender .write ∧ k.caps.Transferable sender capTransfer ∧
        k.HasRoom recipient := by
  rcases hsend : k.send sender recipient msgType payload capTransfer replyTo senderCap unlocked
    with ⟨result, k'⟩
  rcases send_cases hsend with ⟨e, rfl, -, hnot⟩ | ⟨caps, hgrants, htransfer, hrest⟩
  · refine iff_of_false ?_ fun hall => hnot ⟨hall.1, hall.2.1⟩
    rintro ⟨msgId, hid⟩
    cases hid
  · have htransferable := (exists_transferCap_iff recipient).mp ⟨caps, htransfer⟩
    rcases hrest with ⟨e, rfl, hfull, -⟩ | ⟨k₁, rfl, hdeliver, -⟩
    · refine iff_of_false ?_ fun hall => hfull hall.2.2
      rintro ⟨msgId, hid⟩
      cases hid
    · have hroom := (exists_deliver_iff _ _).mp ⟨k₁, hdeliver⟩
      exact iff_of_true ⟨_, rfl⟩ ⟨hgrants, htransferable, hasRoom_caps.mp hroom⟩

/-- **What a send changes**: the capability table by one delegation at most, the counter, the
mailboxes, and the scheduler by wake-ups. -/
theorem send_frame :
    ∃ caps nextMsgId mailboxes taskIds,
      (k.send sender recipient msgType payload capTransfer replyTo senderCap unlocked).2 =
        { k with caps, nextMsgId, mailboxes, tasks := k.tasks.wakeEach taskIds } ∧
      (caps = k.caps ∨ ∃ op, caps = k.caps.step op) := by
  rcases hsend : k.send sender recipient msgType payload capTransfer replyTo senderCap unlocked
    with ⟨result, k'⟩
  rcases send_cases hsend with ⟨-, -, rfl, -⟩ | ⟨caps, -, htransfer, hrest⟩
  · exact ⟨k'.caps, k'.nextMsgId, k'.mailboxes, [], rfl, .inl rfl⟩
  · have hcaps := transferCap_eq_ok htransfer
    rcases hrest with ⟨-, -, -, rfl⟩ | ⟨k₁, -, hdeliver, rfl⟩
    · exact ⟨caps, k.nextMsgId + 1, k.mailboxes, [], rfl, hcaps⟩
    · obtain ⟨mailboxes, rfl⟩ := deliver_eq_ok hdeliver
      exact ⟨caps, k.nextMsgId + 1, mailboxes, _, rfl, hcaps⟩

end Send

/-- A receive finds nothing, or takes the first message. -/
theorem receive_cases (k : Kernel) (taskId : TaskId) :
    (k.mailboxLen taskId = 0 ∧ k.receive taskId = (none, k)) ∨
      ∃ msg rest, k.mailboxes[taskId]? = some ⟨msg :: rest⟩ ∧
        k.receive taskId =
          (some msg, { k with mailboxes := k.mailboxes.insert taskId ⟨rest⟩ }) := by
  rw [receive, mailboxLen]
  cases hmailbox : k.mailboxes[taskId]? with
  | none => exact .inl ⟨rfl, rfl⟩
  | some mailbox =>
    obtain ⟨_ | ⟨msg, rest⟩⟩ := mailbox
    · exact .inl ⟨rfl, rfl⟩
    · exact .inr ⟨msg, rest, rfl, rfl⟩

theorem receive_frame (k : Kernel) (taskId : TaskId) :
    ∃ mailboxes, (k.receive taskId).2 = { k with mailboxes } := by
  rcases k.receive_cases taskId with ⟨-, hreceive⟩ | ⟨msg, rest, -, hreceive⟩
  · exact ⟨k.mailboxes, by rw [hreceive]⟩
  · exact ⟨_, by rw [hreceive]⟩

end Kernel

end OxideOS
