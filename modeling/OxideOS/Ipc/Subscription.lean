import OxideOS.Ipc.Delivery
import OxideOS.Kernel.Tables

/-!
# Subscriptions and revocation

A channel lists each subscriber with the capability it subscribed with.  Nothing looks at that
capability again: neither a revocation, which knows nothing of channels, nor `publish`, which only
reads the tasks.  So an entry whose capability is revoked, directly or with an ancestor, goes on
receiving until the task unsubscribes or the channel is made anew.

## Main definitions

* `Kernel.HasEntry`: a channel lists a task with a capability
* `Kernel.Abstains`: the call is no successful subscription of a task to a channel

## Main results

* `Kernel.entry_step`: a new entry is a successful subscription of a task that was not listed
* `Kernel.entry_unique`: a task has one entry at most
* `Kernel.mailbox_publish_iff`: when a publish leaves a mailbox alone
-/

namespace OxideOS

namespace Kernel

variable {k k' k₁ : Kernel} {op : KernelOp} {name channelName : String} {taskId sender : TaskId}
  {payload : List UInt8} {publishCap c c' : CapId}

/-- The channel lists the task, with the capability it subscribed with. -/
def HasEntry (k : Kernel) (name : String) (taskId : TaskId) (c : CapId) : Prop :=
  ∃ channel, k.channels[name]? = some channel ∧ (taskId, c) ∈ channel.subscribers

theorem lists_iff : k.Lists name taskId ↔ ∃ c, k.HasEntry name taskId c := by
  simp only [Lists, HasEntry, Channel.listed, List.any_eq_true, beq_iff_eq]
  constructor
  · rintro ⟨channel, hchannel, ⟨id, c⟩, hmem, rfl⟩
    exact ⟨c, channel, hchannel, hmem⟩
  · rintro ⟨c, channel, hchannel, hmem⟩
    exact ⟨channel, hchannel, (taskId, c), hmem, rfl⟩

/-! ## Entries -/

theorem mem_addSubscriber {channel : Channel} {id : TaskId}
    (h : (taskId, c) ∈ (channel.addSubscriber id c').subscribers) :
    (taskId, c) ∈ channel.subscribers ∨
      taskId = id ∧ c = c' ∧ channel.listed taskId = false := by
  rw [Channel.addSubscriber] at h
  split_ifs at h with hlisted
  · exact .inl h
  · rcases List.mem_append.mp h with hold | hnew
    · exact .inl hold
    · obtain ⟨rfl, rfl⟩ := Prod.mk.inj (List.mem_singleton.mp hnew)
      exact .inr ⟨rfl, rfl, Bool.eq_false_iff.mpr hlisted⟩

/-- A new entry is a successful subscription of a task that was not listed. -/
theorem entry_step (h : k.step op = some k') (hentry : k'.HasEntry name taskId c) :
    k.HasEntry name taskId c ∨ op = .gated (.subscribe name taskId c) ∧
      (k.subscribe name taskId c).1 = .ok () ∧ ¬k.Lists name taskId := by
  obtain ⟨channel, hchannel, hmem⟩ := hentry
  rcases (step_tables h).channels with hsame | ⟨edited, channel', hedit, hinsert⟩
  · rw [hsame] at hchannel
    exact .inl ⟨channel, hchannel, hmem⟩
  rw [hinsert, Std.ExtTreeMap.getElem?_insert_eq_ite] at hchannel
  split_ifs at hchannel with hname
  · subst hname
    obtain rfl := Option.some.inj hchannel
    cases hedit with
    | created _ hempty =>
      rw [hempty] at hmem
      cases hmem
    | subscribed old id capId hold hok =>
      rcases mem_addSubscriber hmem with hmem | ⟨rfl, rfl, hlisted⟩
      · exact .inl ⟨old, hold, hmem⟩
      · refine .inr ⟨rfl, hok, ?_⟩
        rintro ⟨channel, hchannel, hlisted'⟩
        obtain rfl := Option.some.inj (hchannel.symm.trans hold)
        rw [hlisted] at hlisted'
        cases hlisted'
    | unsubscribed old id hold => exact .inl ⟨old, hold, (List.mem_filter.mp hmem).1⟩
  · exact .inl ⟨channel, hchannel, hmem⟩

section Reachable

variable {frames : Option BitmapFrameAllocator} {pageTable : PageTable} {ops : List KernelOp}

/-- A task has one entry in a channel at most. -/
theorem entry_unique (hreach : (system frames pageTable).Reachable k)
    (h : k.HasEntry name taskId c) (h' : k.HasEntry name taskId c') : c' = c := by
  refine TransitionSystem.Invariant.of_reachable
    (P := fun k => ∀ name taskId c c', k.HasEntry name taskId c → k.HasEntry name taskId c' →
      c' = c) ⟨?_, ?_⟩ hreach name taskId c c' h h'
  · rintro k rfl name taskId c c' ⟨channel, hchannel, -⟩
    simp [boot] at hchannel
  · intro k op k' hunique hstep name taskId c c' hentry hentry'
    rcases entry_step hstep hentry with hold | ⟨rfl, -, hnot⟩
    · rcases entry_step hstep hentry' with hold' | ⟨-, -, hnot'⟩
      · exact hunique name taskId c c' hold hold'
      · exact absurd (lists_iff.mpr ⟨c, hold⟩) hnot'
    · rcases entry_step hstep hentry' with hold' | ⟨heq, -, -⟩
      · exact absurd (lists_iff.mpr ⟨c', hold'⟩) hnot
      · simpa using heq.symm

end Reachable

/-! ## Publishing -/

theorem hasRoom_congr (h : k'.mailboxes[taskId]? = k.mailboxes[taskId]?) :
    k'.HasRoom taskId ↔ k.HasRoom taskId := by
  rw [HasRoom, HasRoom, h]

/-- A turn of the loop of `publish` is about the mailbox of its subscriber. -/
theorem hasRoom_offer_of_ne {subTask : TaskId} (h : taskId ≠ subTask) :
    (offer sender payload k subTask).HasRoom taskId ↔ k.HasRoom taskId := by
  apply hasRoom_congr
  rw [offer]
  split
  · next hdeliver =>
    obtain ⟨mailbox, -, -, rfl⟩ := deliver_cases hdeliver
    rw [Std.ExtTreeMap.getElem?_insert_eq_ite]
    exact if_neg h
  · rfl

/-- The loop makes no room. -/
theorem hasRoom_of_offer {subTask : TaskId} (h : (offer sender payload k subTask).HasRoom taskId) :
    k.HasRoom taskId := by
  by_cases heq : taskId = subTask
  · subst heq
    rw [offer] at h
    split at h
    · next hdeliver => exact (k.exists_deliver_iff _).mp ⟨_, hdeliver⟩
    · exact h
  · exact (hasRoom_offer_of_ne heq).mp h

/-- The loop reaches the subscribers that have room. -/
theorem mem_offered_iff {subscribers : List TaskId} :
    .published (publishedMsg sender payload taskId) ∈ offered sender payload subscribers k ↔
      taskId ∈ subscribers ∧ k.HasRoom taskId := by
  induction subscribers generalizing k with
  | nil => simp [offered]
  | cons subTask rest ih =>
    have hroom : (∃ k', k.deliver (publishedMsg sender payload subTask) = .ok k') ↔
        k.HasRoom subTask := k.exists_deliver_iff _
    rw [offered, List.mem_append, ih, List.mem_cons]
    by_cases heq : taskId = subTask
    · subst heq
      cases hdeliver : k.deliver (publishedMsg sender payload taskId) with
      | error e =>
        have hnone : ¬k.HasRoom taskId := by
          rw [← hroom, hdeliver]
          simp
        have hnone' : ¬(offer sender payload k taskId).HasRoom taskId :=
          fun hhas => hnone (hasRoom_of_offer hhas)
        simp [hnone, hnone']
      | ok k' => simp [hroom.mp ⟨k', hdeliver⟩]
    · rw [hasRoom_offer_of_ne heq]
      cases k.deliver (publishedMsg sender payload subTask) with
      | error e => simp [heq]
      | ok k' => simp [heq, publishedMsg]

/-- The loop leaves a mailbox alone unless it has a message for it. -/
theorem mailbox_offered_iff (sender : TaskId) (payload : List UInt8) (subscribers : List TaskId)
    (k : Kernel) (taskId : TaskId) :
    (subscribers.foldl (offer sender payload) k).mailboxes[taskId]? = k.mailboxes[taskId]? ↔
      ¬(taskId ∈ subscribers ∧ k.HasRoom taskId) := by
  have hrun := (run_offered sender payload subscribers k).1
  have hevents : ∀ event ∈ (offered sender payload subscribers k).map MailEvent.toQueue,
      ∃ subTask, event = .put subTask (publishedMsg sender payload subTask) ∧
        subTask ∈ subscribers ∧ k.HasRoom subTask := by
    intro event hevent
    obtain ⟨event', hevent', rfl⟩ := List.mem_map.mp hevent
    obtain ⟨subTask, -, rfl⟩ := mem_offered hevent'
    exact ⟨subTask, rfl, mem_offered_iff.mp hevent'⟩
  constructor
  · rintro hsame ⟨hmem, hroom⟩
    have hpublished : .published (publishedMsg sender payload taskId) ∈
        offered sender payload subscribers k := mem_offered_iff.mpr ⟨hmem, hroom⟩
    have hput := QueueMap.eq_of_forall_put (k := taskId) hrun fun event hevent => by
      obtain ⟨subTask, rfl, -⟩ := hevents event hevent
      exact ⟨_, _, rfl⟩
    obtain ⟨mailbox, hmailbox, -⟩ := hroom
    rw [queues, hsame, queues, hmailbox] at hput
    have hempty := List.self_eq_append_right.mp (Option.some.inj hput)
    have hmsg : publishedMsg sender payload taskId ∈ QueueEvent.putTo taskId
        ((offered sender payload subscribers k).map MailEvent.toQueue) :=
      List.mem_filterMap.mpr ⟨_, List.mem_map_of_mem hpublished, if_pos rfl⟩
    rw [hempty] at hmsg
    cases hmsg
  · intro hnot
    have hqueue := QueueMap.eq_of_forall_key_ne (k := taskId) hrun fun event hevent => by
      obtain ⟨subTask, rfl, hsub⟩ := hevents event hevent
      rintro rfl
      exact hnot hsub
    exact Option.map_injective (fun _ _ heq => congrArg Mailbox.mk heq) hqueue

/-- **When a publish leaves a mailbox alone**: when it is refused, when the task is not listed or
publishes itself, or when it has no room. -/
theorem mailbox_publish_iff (k : Kernel) (channelName : String) (sender : TaskId)
    (payload : List UInt8) (publishCap : CapId) (taskId : TaskId) :
    (k.publish channelName sender payload publishCap).2.mailboxes[taskId]? =
        k.mailboxes[taskId]? ↔
      ¬(k.caps.Grants publishCap sender .publish ∧ k.Lists channelName taskId ∧
        taskId ≠ sender ∧ k.HasRoom taskId) := by
  rcases k.publish_cases channelName sender payload publishCap with
    ⟨e, hrefused, hnot⟩ | ⟨channel, subscribers, hgrants, hchannel, rfl, hok⟩
  · rw [hrefused]
    refine iff_of_true rfl ?_
    rintro ⟨hgrants, ⟨channel, hchannel, -⟩, -⟩
    exact hnot ⟨hgrants, mem_channels_of_some hchannel⟩
  · have hmem : taskId ∈ (channel.subscribers.map Prod.fst).filter (fun t => t != sender) ↔
        k.Lists channelName taskId ∧ taskId ≠ sender := by
      simp [Lists, hchannel, Channel.listed, List.any_eq_true]
    rw [hok, mailbox_offered_iff, hmem, and_iff_right hgrants, and_assoc]

/-! ## Revocation -/

/-- The call is no successful subscription of the task to the channel. -/
def Abstains (name : String) (taskId : TaskId) (k : Kernel) (op : KernelOp) : Prop :=
  ∀ c, op = .gated (.subscribe name taskId c) → (k.subscribe name taskId c).1 ≠ .ok ()

section Reachable

variable {frames : Option BitmapFrameAllocator} {pageTable : PageTable} {ops : List KernelOp}

/-- Without a new subscription a task is listed with the capability it was listed with. -/
theorem entry_run (hrun : ((system frames pageTable).restrict (Abstains name taskId)).Run k ops k₁)
    (hentry : k₁.HasEntry name taskId c) : k.HasEntry name taskId c := by
  induction hrun with
  | nil k => exact hentry
  | cons hstep _ ih =>
    rcases entry_step hstep.1 (ih hentry) with hold | ⟨hop, hok, -⟩
    · exact hold
    · exact absurd hok (hstep.2 _ hop)

/-- **What a revocation does not stop.**  A channel lists a task with a capability that is revoked,
and the task has not subscribed again since.  A publish on the channel adds nothing to the mailbox
of the task exactly when the entry is gone, or the publish is refused, or the task publishes
itself, or it has no room.  The capability is still revoked then. -/
theorem revoked_delivery_iff (hreach : (system frames pageTable).Reachable k)
    (hentry : k.HasEntry name taskId c) {cap : Capability} (hcap : k.caps.slot c = some cap)
    (hrevoked : cap.revoked = true)
    (hrun : ((system frames pageTable).restrict (Abstains name taskId)).Run k ops k₁) :
    (∃ cap, k₁.caps.slot c = some cap ∧ cap.revoked = true) ∧
      ∀ sender payload publishCap,
        (k₁.publish name sender payload publishCap).2.mailboxes[taskId]? =
            k₁.mailboxes[taskId]? ↔
          ¬k₁.HasEntry name taskId c ∨ ¬k₁.caps.Grants publishCap sender .publish ∨
            taskId = sender ∨ ¬k₁.HasRoom taskId := by
  constructor
  · obtain ⟨capOps, hcapRun⟩ := caps_projects.run hrun.of_restrict
    obtain ⟨cap', hcap', -, hstays⟩ := (wellFormed_of_reachable hreach).keeps_run hcapRun c cap hcap
    exact ⟨cap', hcap', hstays hrevoked⟩
  · intro sender payload publishCap
    have hlists : k₁.Lists name taskId ↔ k₁.HasEntry name taskId c := by
      rw [lists_iff]
      constructor
      · rintro ⟨c', hentry'⟩
        obtain rfl := entry_unique hreach hentry (entry_run hrun hentry')
        exact hentry'
      · exact fun h => ⟨c, h⟩
    rw [mailbox_publish_iff, hlists]
    tauto

end Reachable

/-- Task 2 subscribes with a capability that task 1 has delegated to it, and task 1 revokes its own
capability, which takes the delegated one with it.  Task 3 may publish. -/
def revokedSubscriber : List KernelOp :=
  [.capability (.createRoot 1 (.channel "news") .all),
    .capability (.delegate 1 1 2 .subscribe none),
    .capability (.createRoot 3 (.channel "news") .all), .registerMailbox 2, .createChannel "news",
    .gated (.subscribe "news" 2 2), .capability (.revoke 1 1)]

theorem revoked_delivery_unsubscribed : ∃ k, (system none .empty).Reachable k ∧
    k.HasEntry "news" 2 2 ∧
    ((k.unsubscribe "news" 2).2.publish "news" 3 [7] 3).2.mailboxes[2]? =
      (k.unsubscribe "news" 2).2.mailboxes[2]? := by
  have hrun : (revokedSubscriber.foldlM step (boot none .empty)).map (fun k =>
      (k.channels["news"]?, k.caps.slot 2, (k.unsubscribe "news" 2).2.channels["news"]?)) =
      some (some ⟨1, "news", [(2, 2)]⟩,
        some ⟨2, .channel "news", .subscribe, 2, some 1, true⟩, some ⟨1, "news", []⟩) := by
    decide +kernel
  obtain ⟨k, hreach, hstate⟩ := TransitionSystem.exists_reachable_of_map hrun
  simp only [Prod.mk.injEq] at hstate
  obtain ⟨hchannel, hcap, hgone⟩ := hstate
  have hentry : k.HasEntry "news" 2 2 := ⟨_, hchannel, List.mem_singleton_self _⟩
  have hleave : ((system none .empty).restrict (Abstains "news" 2)).Run k
      [.unsubscribe "news" 2] (k.unsubscribe "news" 2).2 :=
    .cons ⟨rfl, fun c hop => by cases hop⟩ (.nil _)
  refine ⟨k, hreach, hentry, ((revoked_delivery_iff hreach hentry hcap rfl hleave).2 3 [7] 3).mpr
    (.inl ?_)⟩
  rintro ⟨channel, hchannel', hmem⟩
  obtain rfl := Option.some.inj (hchannel'.symm.trans hgone)
  cases hmem

/-- Without that, the message arrives. -/
theorem revoked_delivery : ∃ k, (system none .empty).Reachable k ∧
    k.HasEntry "news" 2 2 ∧
    k.caps.slot 2 = some ⟨2, .channel "news", .subscribe, 2, some 1, true⟩ ∧
    k.mailboxes[2]? = some ⟨[]⟩ ∧
    (k.publish "news" 3 [7] 3).2.mailboxes[2]? = some ⟨[publishedMsg 3 [7] 2]⟩ := by
  have hrun : (revokedSubscriber.foldlM step (boot none .empty)).map (fun k =>
      (k.channels["news"]?, k.caps.slot 2, k.mailboxes[2]?,
        (k.publish "news" 3 [7] 3).2.mailboxes[2]?)) =
      some (some ⟨1, "news", [(2, 2)]⟩,
        some ⟨2, .channel "news", .subscribe, 2, some 1, true⟩, some ⟨[]⟩,
        some ⟨[publishedMsg 3 [7] 2]⟩) := by
    decide +kernel
  obtain ⟨k, hreach, hstate⟩ := TransitionSystem.exists_reachable_of_map hrun
  simp only [Prod.mk.injEq] at hstate
  obtain ⟨hchannel, hcap, hbefore, hafter⟩ := hstate
  exact ⟨k, hreach, ⟨_, hchannel, List.mem_singleton_self _⟩, hcap, hbefore, hafter⟩

end Kernel

end OxideOS
