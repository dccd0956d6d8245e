import OxideOS.Ipc.Subscription

/-!
# Publishing once

`publish` copies the subscribers of a channel and offers each of them the message.  Whether a task
gets the message once depends on the list: `subscribe` enters a task only if it is not listed, so no
task is listed twice, and a turn of the loop touches one mailbox.

## Main definitions

* `Mailbox.accept`: a mailbox after a push that may be refused
* `Kernel.ListsOnce`: no channel lists a task twice

## Main results

* `Kernel.listsOnce_of_reachable`: no channel lists a task twice
* `Kernel.mailbox_foldl_offer`: the mailboxes after the loop of `publish`
* `Kernel.publish_exactly_once`: a publish delivers to each subscriber once
-/

namespace OxideOS

/-- The mailbox with the message at its end, if there is room. -/
def Mailbox.accept (mailbox : Mailbox) (msg : Message) : Mailbox :=
  if mailbox.len < mailboxCapacity then ⟨mailbox.queue ++ [msg]⟩ else mailbox

namespace Channel

variable {channel : Channel} {taskId : TaskId} {capId : CapId}

theorem mem_map_fst_iff : taskId ∈ channel.subscribers.map Prod.fst ↔ channel.listed taskId := by
  simp [listed]

theorem nodup_addSubscriber (h : (channel.subscribers.map Prod.fst).Nodup) :
    ((channel.addSubscriber taskId capId).subscribers.map Prod.fst).Nodup := by
  rw [addSubscriber]
  split_ifs with hlisted
  · exact h
  · rw [List.map_append]
    refine h.append (List.nodup_singleton _) (List.disjoint_singleton.mpr ?_)
    rw [mem_map_fst_iff]
    exact hlisted

theorem nodup_removeSubscriber (h : (channel.subscribers.map Prod.fst).Nodup) :
    ((channel.removeSubscriber taskId).subscribers.map Prod.fst).Nodup :=
  h.sublist (List.filter_sublist.map Prod.fst)

end Channel

namespace Kernel

variable {k k' : Kernel} {op : KernelOp} {name channelName : String} {taskId sender : TaskId}
  {payload : List UInt8} {publishCap : CapId} {channel : Channel}

/-- No channel lists a task twice. -/
def ListsOnce (k : Kernel) : Prop :=
  ∀ (name : String) (channel : Channel), k.channels[name]? = some channel →
    (channel.subscribers.map Prod.fst).Nodup

/-- A call edits one channel at most: it empties the list, or enters a task that is not listed, or
takes a task out. -/
theorem ListsOnce.step (h : k.ListsOnce) (hstep : k.step op = some k') : k'.ListsOnce := by
  intro name channel hchannel
  rcases (step_tables hstep).channels with hsame | ⟨edited, channel', hedit, hinsert⟩
  · exact h name channel (hsame ▸ hchannel)
  rw [hinsert, Std.ExtTreeMap.getElem?_insert_eq_ite] at hchannel
  split_ifs at hchannel with hname
  · obtain rfl := Option.some.inj hchannel
    cases hedit with
    | created _ hempty =>
      rw [hempty]
      exact List.nodup_nil
    | subscribed old id capId hold _ => exact Channel.nodup_addSubscriber (h edited old hold)
    | unsubscribed old id hold => exact Channel.nodup_removeSubscriber (h edited old hold)
  · exact h name channel hchannel

section Reachable

variable {frames : Option BitmapFrameAllocator} {pageTable : PageTable}

/-- **No task is listed twice.** -/
theorem listsOnce_of_reachable (hreach : (system frames pageTable).Reachable k) : k.ListsOnce := by
  refine TransitionSystem.Invariant.of_reachable (P := ListsOnce) ⟨?_, ?_⟩ hreach
  · rintro k rfl name channel hchannel
    simp [boot] at hchannel
  · exact fun k op k' h hstep => h.step hstep

end Reachable

/-! ## The loop -/

/-- A turn of the loop offers the message to one mailbox. -/
theorem mailbox_offer (sender : TaskId) (payload : List UInt8) (k : Kernel)
    (subTask taskId : TaskId) :
    (offer sender payload k subTask).mailboxes[taskId]? =
      if taskId = subTask then
        k.mailboxes[taskId]?.map (·.accept (publishedMsg sender payload taskId))
      else k.mailboxes[taskId]? := by
  rw [offer]
  cases hdeliver : k.deliver (publishedMsg sender payload subTask) with
  | ok k' =>
    obtain ⟨mailbox, hmailbox, hroom, rfl⟩ := deliver_cases hdeliver
    change k.mailboxes[subTask]? = some mailbox at hmailbox
    change (k.mailboxes.insert subTask _)[taskId]? = _
    rw [Std.ExtTreeMap.getElem?_insert_eq_ite]
    split_ifs with heq
    · subst heq
      rw [hmailbox, Option.map_some, Mailbox.accept, if_pos hroom]
    · rfl
  | error e =>
    have hfull : ¬k.HasRoom subTask := by
      intro hroom
      obtain ⟨k', hk'⟩ := (k.exists_deliver_iff (publishedMsg sender payload subTask)).mpr hroom
      rw [hdeliver] at hk'
      cases hk'
    split_ifs with heq
    · subst heq
      cases hmailbox : k.mailboxes[taskId]? with
      | none => rfl
      | some mailbox =>
        rw [Option.map_some, Mailbox.accept, if_neg fun hroom => hfull ⟨mailbox, hmailbox, hroom⟩]
    · rfl

/-- The loop offers the message to each of its tasks, if these are different. -/
theorem mailbox_foldl_offer (sender : TaskId) (payload : List UInt8) (k : Kernel)
    {subscribers : List TaskId} (hnodup : subscribers.Nodup) (taskId : TaskId) :
    (subscribers.foldl (offer sender payload) k).mailboxes[taskId]? =
      if taskId ∈ subscribers then
        k.mailboxes[taskId]?.map (·.accept (publishedMsg sender payload taskId))
      else k.mailboxes[taskId]? := by
  induction subscribers generalizing k with
  | nil => rfl
  | cons subTask rest ih =>
    obtain ⟨hnot, hrest⟩ := List.nodup_cons.mp hnodup
    rw [List.foldl_cons, ih _ hrest, mailbox_offer]
    by_cases heq : taskId = subTask
    · subst heq
      rw [if_neg hnot, if_pos rfl, if_pos List.mem_cons_self]
    · rw [if_neg heq]
      simp only [List.mem_cons, heq, false_or]

/-! ## Publishing -/

section Reachable

variable {frames : Option BitmapFrameAllocator} {pageTable : PageTable}

/-- **A publish delivers once.**  In every reachable kernel a publish that is refused changes no
mailbox.  One that succeeds appends one message, with its sender and payload, to the mailbox of
every subscriber but the sender that has a mailbox with room; it leaves all other mailboxes alone,
and returns the number of subscribers but the sender. -/
theorem publish_exactly_once (hreach : (system frames pageTable).Reachable k)
    (channelName : String) (sender : TaskId) (payload : List UInt8) (publishCap : CapId) :
    (∀ e, (k.publish channelName sender payload publishCap).1 = .error e →
        (k.publish channelName sender payload publishCap).2.mailboxes = k.mailboxes) ∧
      ∀ n, (k.publish channelName sender payload publishCap).1 = .ok n →
        (∃ others : Finset TaskId, n = others.card ∧
          ∀ id, id ∈ others ↔ k.Lists channelName id ∧ id ≠ sender) ∧
        (∀ (id : TaskId) (mailbox : Mailbox), k.Lists channelName id → id ≠ sender →
          k.mailboxes[id]? = some mailbox → mailbox.len < 256 →
          ∃ msg : Message, msg.sender = sender ∧ msg.payload = payload ∧
            (k.publish channelName sender payload publishCap).2.mailboxes[id]? =
              some ⟨mailbox.queue ++ [msg]⟩) ∧
        ∀ id, ¬(k.Lists channelName id ∧ id ≠ sender ∧ k.HasRoom id) →
          (k.publish channelName sender payload publishCap).2.mailboxes[id]? =
            k.mailboxes[id]? := by
  rcases k.publish_cases channelName sender payload publishCap with
    ⟨e, hrefused, -⟩ | ⟨channel, subscribers, hgrants, hchannel, hsubscribers, hok⟩
  · rw [hrefused]
    refine ⟨fun _ _ => rfl, fun n hn => ?_⟩
    cases hn
  have hnodup : subscribers.Nodup := by
    rw [hsubscribers]
    exact (listsOnce_of_reachable hreach channelName channel hchannel).filter _
  have hmem : ∀ id, id ∈ subscribers ↔ k.Lists channelName id ∧ id ≠ sender := fun id => by
    rw [hsubscribers, List.mem_filter, Channel.mem_map_fst_iff, bne_iff_ne, Lists, hchannel]
    simp
  rw [hok]
  refine ⟨fun e he => ?_, fun n hn => ⟨⟨subscribers.toFinset, ?_, fun id => ?_⟩, ?_, ?_⟩⟩
  · cases he
  · rw [List.toFinset_card_of_nodup hnodup]
    exact (Except.ok.inj hn).symm
  · rw [List.mem_toFinset, hmem]
  · intro id mailbox hlists hne hmailbox hroom
    refine ⟨publishedMsg sender payload id, rfl, rfl, ?_⟩
    rw [mailbox_foldl_offer sender payload k hnodup, if_pos ((hmem id).mpr ⟨hlists, hne⟩),
      hmailbox, Option.map_some, Mailbox.accept]
    exact congrArg some (if_pos hroom)
  · intro id hnot
    rw [mailbox_offered_iff, hmem, and_assoc]
    exact hnot

end Reachable

/-- Tasks 1 and 2 have subscribed, task 2 twice, and have mailboxes. -/
def twoSubscribers : List KernelOp :=
  [.capability (.createRoot 1 (.channel "news") .all),
    .capability (.createRoot 2 (.channel "news") .all), .registerMailbox 1, .registerMailbox 2,
    .createChannel "news", .gated (.subscribe "news" 1 1), .gated (.subscribe "news" 2 2),
    .gated (.subscribe "news" 2 2)]

theorem publish_exactly_once_twoSubscribers : ∃ k, (system none .empty).Reachable k ∧
    ∃ msg : Message, msg.sender = 1 ∧ msg.payload = [7] ∧
      (k.publish "news" 1 [7] 1).2.mailboxes[2]? = some ⟨[msg]⟩ := by
  have hrun : (twoSubscribers.foldlM step (boot none .empty)).map (fun k =>
      (k.channels["news"]?, k.mailboxes[2]?, (k.publish "news" 1 [7] 1).1.toOption)) =
      some (some ⟨1, "news", [(1, 1), (2, 2)]⟩, some ⟨[]⟩, some 1) := by
    decide +kernel
  obtain ⟨k, hreach, hstate⟩ := TransitionSystem.exists_reachable_of_map hrun
  simp only [Prod.mk.injEq] at hstate
  obtain ⟨hchannel, hmailbox, hok⟩ := hstate
  have hcount : (k.publish "news" 1 [7] 1).1 = .ok 1 := by
    cases hresult : (k.publish "news" 1 [7] 1).1 with
    | error e =>
      rw [hresult] at hok
      cases hok
    | ok n =>
      rw [hresult] at hok
      exact congrArg _ (Option.some.inj hok)
  exact ⟨k, hreach, ((publish_exactly_once hreach "news" 1 [7] 1).2 1 hcount).2.1 2 ⟨[]⟩
    ⟨_, hchannel, by decide⟩ (by decide) hmailbox (by decide)⟩

end Kernel

end OxideOS
