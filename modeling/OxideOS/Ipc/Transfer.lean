import OxideOS.Ipc.Delivery
import OxideOS.Kernel.Tables

/-!
# Capabilities in messages

A send may carry a capability.  It delegates the capability to the recipient first, and looks for
the mailbox afterwards, so a send that fails for want of a mailbox or of room has granted the
capability all the same.

And the message carries the id of the sender's capability, not of the one that was delegated: the
recipient owns a capability whose id it does not learn, and learns an id that is of no use to it.

## Main definitions

* `KernelOp.Revokes`: the calls that revoke capabilities
* `Kernel.Holds`: a message waits in a mailbox

## Main results

* `Kernel.send_error_cases`: the two ways in which a send fails
* `Kernel.slot_run`: capabilities stay as they are while none is revoked
* `Kernel.holds_step`: a message in a mailbox was there before, or is new and under a fresh id
-/

namespace OxideOS

/-- The call revokes capabilities. -/
def KernelOp.Revokes : KernelOp → Prop
  | .capability (.revoke _ _) => True
  | _ => False

namespace Kernel

variable {k k' k₁ k₂ k₃ : Kernel} {op : KernelOp} {msg : Message}
  {caps caps' : CapabilityTable} {sender recipient : TaskId} {msgType : MessageType}
  {payload : List UInt8} {capTransfer : Option CapId} {replyTo : Option MessageId}
  {senderCap c i : CapId} {unlocked : Bool} {cap : Capability} {msgId : MessageId} {e : IpcError}
  {result : Except IpcError MessageId}

/-! ## Failed sends -/

/-- A send fails before it has done anything, or after the transfer. -/
theorem send_error_cases (h : k.send sender recipient msgType payload capTransfer replyTo senderCap
    unlocked = (.error e, k')) :
    (k' = k ∧ ¬(k.caps.Grants senderCap sender .write ∧
        k.caps.Transferable sender capTransfer)) ∨
      ∃ caps, k.caps.Grants senderCap sender .write ∧
        transferCap k.caps sender recipient capTransfer = .ok caps ∧
        k' = { k with caps, nextMsgId := k.nextMsgId + 1 } := by
  rcases send_cases h with ⟨-, -, rfl, hnot⟩ | ⟨caps, hgrants, htransfer, hrest⟩
  · exact .inl ⟨rfl, hnot⟩
  · rcases hrest with ⟨-, -, -, rfl⟩ | ⟨k₁, hok, -⟩
    · exact .inr ⟨caps, hgrants, htransfer, rfl⟩
    · cases hok

/-- **When a failed send changes nothing.**  The capability table, the mailboxes and the scheduler
are as before exactly unless the send carried a capability that was handed on, that is, unless it
failed only for want of a mailbox or of room in it. -/
theorem send_error_iff (h : k.send sender recipient msgType payload capTransfer replyTo senderCap
    unlocked = (.error e, k')) :
    (k'.caps = k.caps ∧ k'.mailboxes = k.mailboxes ∧ k'.tasks = k.tasks) ↔
      ¬(k.caps.Grants senderCap sender .write ∧ capTransfer ≠ none ∧
        k.caps.Transferable sender capTransfer) := by
  rcases send_error_cases h with ⟨rfl, hnot⟩ | ⟨caps, hgrants, htransfer, rfl⟩
  · refine ⟨fun _ hboth => hnot ⟨hboth.1, hboth.2.2⟩, fun _ => ⟨rfl, rfl, rfl⟩⟩
  · have htransferable := (exists_transferCap_iff recipient).mp ⟨caps, htransfer⟩
    cases capTransfer with
    | none =>
      obtain rfl := Except.ok.inj htransfer
      exact ⟨fun _ hboth => hboth.2.1 rfl, fun _ => ⟨rfl, rfl, rfl⟩⟩
    | some c =>
      obtain ⟨source, resource, -, -, -, hadds⟩ := transferCap_adds htransfer
      constructor
      · rintro ⟨hcaps, -⟩
        have hnext := hadds.nextId
        rw [show caps = k.caps from hcaps] at hnext
        exact absurd hnext (Nat.succ_ne_self _).symm
      · exact fun hnot => absurd ⟨hgrants, Option.some_ne_none c, htransferable⟩ hnot

/-- Task 2 has no mailbox.  The send fails, and as it hands on no capability it changes nothing. -/
theorem send_error_noMailbox : ∃ k e k', (system none .empty).Reachable k ∧
    k.caps.slot 1 = some ⟨1, .agent 2, .all, 1, none, false⟩ ∧
      k.send 1 2 .data [7] none none 1 true = (.error e, k') ∧ k'.caps = k.caps ∧
      k'.mailboxes = k.mailboxes ∧ k'.tasks = k.tasks := by
  have hrun : ([.capability (.createRoot 1 (.agent 2) .all)].foldlM step (boot none .empty)).map
      (fun k => (k.caps.slot 1, (k.send 1 2 .data [7] none none 1 true).1)) =
      some (some ⟨1, .agent 2, .all, 1, none, false⟩, .error .recipientNotFound) := by
    decide +kernel
  obtain ⟨k, hreach, hstate⟩ := TransitionSystem.exists_reachable_of_map hrun
  obtain ⟨hslot, hsend⟩ := Prod.mk.inj hstate
  refine ⟨k, _, _, hreach, hslot, Prod.ext hsend rfl,
    (send_error_iff (Prod.ext hsend rfl)).mpr ?_⟩
  rintro ⟨-, hsome, -⟩
  exact hsome rfl

/-- Task 2 has no mailbox.  The send fails, and task 2 owns a capability more. -/
theorem send_error_grants : ∃ k k',
    (system none .empty).Reachable k ∧
      k.send 1 2 .data [] (some 1) none 1 true = (.error .recipientNotFound, k') ∧
      k.caps.slot 2 = none ∧ k'.caps.slot 2 = some ⟨2, .agent 2, .all, 2, some 1, false⟩ := by
  have hrun : ([.capability (.createRoot 1 (.agent 2) .all)].foldlM step (boot none .empty)).map
      (fun k =>
        let sent := k.send 1 2 .data [] (some 1) none 1 true
        (sent.1, k.caps.slot 2, sent.2.caps.slot 2)) =
      some (.error .recipientNotFound, none,
        some ⟨2, .agent 2, .all, 2, some 1, false⟩) := by
    decide +kernel
  obtain ⟨k, hreach, hstate⟩ := TransitionSystem.exists_reachable_of_map hrun
  simp only [Prod.mk.injEq] at hstate
  obtain ⟨hsend, hbefore, hafter⟩ := hstate
  exact ⟨k, _, hreach, Prod.ext hsend rfl, hbefore, hafter⟩

/-! ## Capabilities over a run -/

/-- Without a revocation all capabilities stay as they are. -/
theorem slot_step (hwf : k.caps.WellFormed) (hop : ¬op.Revokes) (h : k.step op = some k')
    (hslot : k.caps.slot i = some cap) : k'.caps.slot i = some cap := by
  rcases (step_tables h).caps with hcaps | ⟨cap', hadds⟩ | ⟨capId, revoker, rfl, -⟩
  · rw [hcaps]
    exact hslot
  · exact hadds.slot_of_slot hwf hslot
  · exact absurd trivial hop

/-! ## Messages over a run -/

/-- The message waits in a mailbox. -/
def Holds (k : Kernel) (msg : Message) : Prop :=
  ∃ taskId items, k.queues taskId = some items ∧ msg ∈ items

/-- A message in a mailbox was there before, or was published, or has the id drawn last. -/
theorem holds_step (h : k.step op = some k') (hm : k'.Holds msg) :
    k.Holds msg ∨ msg.id = 0 ∨ (msg.id = k.nextMsgId ∧ k'.nextMsgId = k.nextMsgId + 1) := by
  obtain ⟨taskId, items, hitems, hmem⟩ := hm
  have hmails := step_mails h
  rcases QueueMap.mem_of_run hmails.run hitems hmem with ⟨items₀, hitems₀, hmem₀⟩ | hput
  · exact .inl ⟨taskId, items₀, hitems₀, hmem₀⟩
  · obtain ⟨event, hevent, hqueue⟩ := List.mem_map.mp hput
    cases event with
    | sent msg' =>
      obtain ⟨-, rfl⟩ := QueueEvent.put.inj hqueue
      have hid : msg'.id ∈ MailEvent.sentIds (k.mailEvents op) :=
        List.mem_filterMap.mpr ⟨_, hevent, rfl⟩
      rcases hmails.ids with ⟨hnone, -⟩ | ⟨hone, hnext⟩
      · rw [hnone] at hid
        cases hid
      · rw [hone] at hid
        exact .inr (.inr ⟨List.mem_singleton.mp hid, hnext⟩)
    | published msg' =>
      obtain ⟨-, rfl⟩ := QueueEvent.put.inj hqueue
      exact .inr (.inl ((mailEvents_spec hevent).2 _ rfl))
    | registered | unregistered | received => cases hqueue

theorem nextMsgId_step (h : k.step op = some k') : k.nextMsgId ≤ k'.nextMsgId := by
  rcases (step_mails h).ids with ⟨-, hle⟩ | ⟨-, hnext⟩
  · exact hle
  · rw [hnext]
    exact Nat.le_succ _

section Reachable

variable {frames : Option BitmapFrameAllocator} {pageTable : PageTable} {ops : List KernelOp}

/-- Without a revocation in between. -/
theorem slot_run (hreach : (system frames pageTable).Reachable k)
    (hrun : (system frames pageTable).Run k ops k') (hops : ∀ op ∈ ops, ¬op.Revokes)
    (hslot : k.caps.slot i = some cap) : k'.caps.slot i = some cap := by
  induction hrun with
  | nil k => exact hslot
  | @cons k k₁ k₂ op ops hstep _ ih =>
    apply ih (hreach.step hstep) (fun op' hop' => hops op' (List.mem_cons_of_mem _ hop'))
    exact slot_step (wellFormed_of_reachable hreach) (hops op List.mem_cons_self) hstep hslot

/-- All ids of messages lie below the counter. -/
theorem id_lt_nextMsgId (hreach : (system frames pageTable).Reachable k) :
    0 < k.nextMsgId ∧ ∀ msg, k.Holds msg → msg.id < k.nextMsgId := by
  refine TransitionSystem.Invariant.of_reachable
    (P := fun k => 0 < k.nextMsgId ∧ ∀ msg, k.Holds msg → msg.id < k.nextMsgId) ⟨?_, ?_⟩ hreach
  · rintro k rfl
    refine ⟨Nat.one_pos, ?_⟩
    rintro msg ⟨taskId, items, hitems, -⟩
    cases hitems
  · rintro k op k' ⟨hpos, hlt⟩ hstep
    have hle := nextMsgId_step hstep
    refine ⟨Nat.lt_of_lt_of_le hpos hle, fun msg hm => ?_⟩
    rcases holds_step hstep hm with hold | hzero | ⟨hid, hnext⟩
    · exact Nat.lt_of_lt_of_le (hlt msg hold) hle
    · rw [hzero]
      exact Nat.lt_of_lt_of_le hpos hle
    · rw [hid, hnext]
      exact Nat.lt_succ_self _

/-- No other message gets the id of one that has been sent. -/
theorem eq_of_id_run {sent : Message} (hpos : 0 < sent.id) (hlt : sent.id < k.nextMsgId)
    (honly : ∀ msg, k.Holds msg → msg.id = sent.id → msg = sent)
    (hrun : (system frames pageTable).Run k ops k') (hm : k'.Holds msg)
    (hid : msg.id = sent.id) : msg = sent := by
  induction hrun with
  | nil k => exact honly msg hm hid
  | @cons k k₁ k₂ op ops hstep _ ih =>
    apply ih (Nat.lt_of_lt_of_le hlt (nextMsgId_step hstep)) _ hm
    intro msg hm hid
    rcases holds_step hstep hm with hold | hzero | ⟨hnew, -⟩
    · exact honly msg hold hid
    · exact absurd (hid.symm.trans hzero) (Nat.ne_of_gt hpos)
    · exact absurd (hid.symm.trans hnew) (Nat.ne_of_lt hlt)

/-- The message that is received under the id of a send is the one that was sent. -/
theorem eq_of_send_of_receive (hreach : (system frames pageTable).Reachable k)
    (hsend : k.send sender recipient msgType payload capTransfer replyTo senderCap unlocked =
      (.ok msgId, k₁)) (hrun : (system frames pageTable).Run k₁ ops k₂) {taskId : TaskId}
    (hreceive : k₂.receive taskId = (some msg, k₃)) (hid : msg.id = msgId) :
    msg = ⟨msgId, sender, recipient, msgType, payload, capTransfer, replyTo⟩ := by
  obtain ⟨hpos, hlt⟩ := id_lt_nextMsgId hreach
  rcases send_delivers hsend with ⟨e, he, -⟩ | ⟨hok, hnext, hput⟩
  · cases he
  obtain rfl := Except.ok.inj hok
  have hheld : k₂.Holds msg := by
    rcases k₂.receive_cases taskId with ⟨-, hnone⟩ | ⟨msg', rest, hmailbox, hsome⟩
    · rw [hnone] at hreceive
      cases hreceive
    · rw [hsome] at hreceive
      obtain rfl := Option.some.inj (Prod.mk.inj hreceive).1
      exact ⟨taskId, msg' :: rest, by rw [queues, hmailbox]; rfl, List.mem_cons_self⟩
  refine eq_of_id_run (k := k₁) hpos ?_ ?_ hrun hheld hid
  · rw [hnext]
    exact Nat.lt_succ_self _
  · rintro msg ⟨taskId, items, hitems, hmem⟩ hid
    rcases QueueMap.Step.mem hput hitems hmem with ⟨items₀, hitems₀, hmem₀⟩ | hnew
    · exact absurd hid (Nat.ne_of_lt (hlt msg ⟨taskId, items₀, hitems₀, hmem₀⟩))
    · exact (QueueEvent.put.inj hnew).2.symm

/-- The capability that was sent is still its sender's. -/
theorem slot_of_send_transfer (hreach : (system frames pageTable).Reachable k)
    (hsend : k.send sender recipient msgType payload (some c) replyTo senderCap unlocked =
      (.ok msgId, k₁)) :
    ∃ source, k.caps.slot c = some source ∧ source.revoked = false ∧ source.owner = sender ∧
      k₁.caps.slot c = some source := by
  have hok := (send_ok_iff k sender recipient msgType payload (some c) replyTo senderCap
    unlocked).mp ⟨msgId, by rw [hsend]⟩
  obtain ⟨source, hsource, hlive, howner, -⟩ := hok.2.1 c rfl
  refine ⟨source, hsource, hlive, howner, ?_⟩
  rcases caps_send hsend with hcaps | ⟨_, -, htransfer⟩
  · rw [hcaps]
    exact hsource
  · obtain ⟨_, _, -, -, -, hadds⟩ := transferCap_adds htransfer
    exact hadds.slot_of_slot (wellFormed_of_reachable hreach) hsource

/-- **When a transferred capability can be used.**  A message that carries a capability has been
sent, and the recipient receives it with no revocation in between.  What it carries can be used by
the recipient, with all the rights of the capability that was sent, exactly when the recipient is
the sender. -/
theorem transferred_usable_iff (hreach : (system frames pageTable).Reachable k)
    (hsend : k.send sender recipient msgType payload (some c) replyTo senderCap unlocked =
      (.ok msgId, k₁)) (hrun : (system frames pageTable).Run k₁ ops k₂)
    (hops : ∀ op ∈ ops, ¬op.Revokes) (hreceive : k₂.receive recipient = (some msg, k₃))
    (hid : msg.id = msgId) :
    (∃ c' cap cap', k.caps.slot c = some cap ∧ msg.capTransfer = some c' ∧
      k₃.caps.slot c' = some cap' ∧ cap'.resource = cap.resource ∧
      ∀ p, cap.permissions.contains p = true →
        ∃ found, k₃.caps.validate c' recipient p = .ok found) ↔
      sender = recipient := by
  obtain rfl := eq_of_send_of_receive hreach hsend hrun hreceive hid
  obtain ⟨source, hsource, hlive, howner, hsource₁⟩ := slot_of_send_transfer hreach hsend
  have hstep : k.step (.gated (.send sender recipient msgType payload (some c) replyTo senderCap
      unlocked)) = some k₁ := by
    rw [step, exec, hsend]
    rfl
  have hsource₂ := slot_run (hreach.step hstep) hrun hops hsource₁
  have hsource₃ : k₃.caps.slot c = some source := by
    obtain ⟨mailboxes, hframe⟩ := k₂.receive_frame recipient
    rw [hreceive] at hframe
    rw [show k₃ = _ from hframe]
    exact hsource₂
  constructor
  · rintro ⟨c', cap, cap', hcap, hc', -, -, hvalid⟩
    obtain rfl := Option.some.inj hc'
    obtain rfl := Option.some.inj (hcap.symm.trans hsource)
    obtain ⟨found, hfound⟩ := hvalid cap.permissions (PermissionBits.contains_refl _)
    obtain ⟨hslot, -, howner', -⟩ := CapabilityTable.validate_eq_ok.mp hfound
    obtain rfl := Option.some.inj (hslot.symm.trans hsource₃)
    exact howner.symm.trans howner'
  · rintro rfl
    refine ⟨c, source, source, hsource, rfl, hsource₃, rfl, fun p hp => ?_⟩
    exact ⟨source, CapabilityTable.validate_eq_ok.mpr ⟨hsource₃, hlive, howner, hp⟩⟩

end Reachable

/-- Task 1 has a capability with all rights, and both tasks have a mailbox. -/
def withMailboxes : List KernelOp :=
  [.capability (.createRoot 1 (.agent 2) .all), .registerMailbox 1, .registerMailbox 2]

/-- Sent to its owner, the capability can be used. -/
theorem transferred_usable_self : ∃ k k₁ k₃ msg c',
    (system none .empty).Reachable k ∧
      k.send 1 1 .data [] (some 1) none 1 true = (.ok 1, k₁) ∧
      k₁.receive 1 = (some msg, k₃) ∧ msg.capTransfer = some c' ∧
      ∃ found, k₃.caps.validate c' 1 .read = .ok found := by
  have hrun : (withMailboxes.foldlM step (boot none .empty)).map (fun k =>
      ((k.send 1 1 .data [] (some 1) none 1 true).1,
        ((k.send 1 1 .data [] (some 1) none 1 true).2.receive 1).1, k.caps.slot 1)) =
      some (.ok 1, some ⟨1, 1, 1, .data, [], some 1, none⟩,
        some ⟨1, .agent 2, .all, 1, none, false⟩) := by
    decide +kernel
  obtain ⟨k, hreach, hstate⟩ := TransitionSystem.exists_reachable_of_map hrun
  simp only [Prod.mk.injEq] at hstate
  obtain ⟨hsend, hreceive, hslot⟩ := hstate
  obtain ⟨c', cap, cap', hcap, hc', -, -, hvalid⟩ :=
    (transferred_usable_iff hreach (Prod.ext hsend rfl) (.nil _) (by simp)
      (Prod.ext hreceive rfl) rfl).mpr rfl
  obtain rfl := Option.some.inj (hcap.symm.trans hslot)
  exact ⟨k, _, _, _, c', hreach, Prod.ext hsend rfl, Prod.ext hreceive rfl, hc',
    hvalid .read (by decide)⟩

/-- Task 2 receives the id of task 1's capability, which it does not own.  The capability that was
made for it is under another id. -/
theorem transferred_unusable : ∃ k k₁ k₃ msg,
    (system none .empty).Reachable k ∧
      k.send 1 2 .data [] (some 1) none 1 true = (.ok 1, k₁) ∧
      k₁.receive 2 = (some msg, k₃) ∧ msg.capTransfer = some 1 ∧
      k₃.caps.validate 1 2 .read = .error .notOwner ∧
      k₃.caps.slot 2 = some ⟨2, .agent 2, .all, 2, some 1, false⟩ := by
  have hrun : (withMailboxes.foldlM step (boot none .empty)).map (fun k =>
      let sent := k.send 1 2 .data [] (some 1) none 1 true
      let received := sent.2.receive 2
      (sent.1, received.1, received.2.caps.validate 1 2 .read, received.2.caps.slot 2)) =
      some (.ok 1, some ⟨1, 1, 2, .data, [], some 1, none⟩, .error .notOwner,
        some ⟨2, .agent 2, .all, 2, some 1, false⟩) := by
    decide +kernel
  obtain ⟨k, hreach, hstate⟩ := TransitionSystem.exists_reachable_of_map hrun
  simp only [Prod.mk.injEq] at hstate
  obtain ⟨hsend, hreceive, hvalid, hslot⟩ := hstate
  exact ⟨k, _, _, _, hreach, Prod.ext hsend rfl, Prod.ext hreceive rfl, rfl, hvalid, hslot⟩

end Kernel

end OxideOS
