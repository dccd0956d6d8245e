import OxideOS.Ipc.Message

/-!
# Publish and subscribe

`ipc/channel.rs`.  A task subscribes with a capability, which is checked then and recorded, and is
not looked at again when a message is published.  Delivery is best effort: a subscriber without a
mailbox, or with a full one, misses the message.
-/

namespace OxideOS

namespace Kernel

/-- `channel::create`.  A channel of the same name is replaced, subscribers included. -/
def createChannel (k : Kernel) (name : String) : ChannelId × Kernel :=
  let id := k.nextChannelId
  (id, { k with
    nextChannelId := k.nextChannelId + 1
    channels := k.channels.insert name { id, name, subscribers := [] } })

/-- `channel::subscribe`. -/
def subscribe (k : Kernel) (channelName : String) (taskId : TaskId) (capId : CapId) :
    Except IpcError Unit × Kernel :=
  match k.caps.validate capId taskId .subscribe with
  | .error _ => (.error .capabilityDenied, k)
  | .ok _ =>
    match k.channels[channelName]? with
    | none => (.error .recipientNotFound, k)
    | some channel =>
      (.ok (), { k with
        channels := k.channels.insert channelName (channel.addSubscriber taskId capId) })

/-- `channel::unsubscribe`. -/
def unsubscribe (k : Kernel) (channelName : String) (taskId : TaskId) :
    Except IpcError Unit × Kernel :=
  match k.channels[channelName]? with
  | none => (.error .recipientNotFound, k)
  | some channel =>
    (.ok (), { k with channels := k.channels.insert channelName (channel.removeSubscriber taskId) })

/-- The message that `publish` pushes for a subscriber. -/
def publishedMsg (sender : TaskId) (payload : List UInt8) (subTask : TaskId) : Message :=
  { id := 0, sender, recipient := subTask, msgType := .data, payload, capTransfer := none
    replyTo := none }

/-- One turn of the loop of `publish`: push the message if there is a mailbox with room for it. -/
def offer (sender : TaskId) (payload : List UInt8) (k : Kernel) (subTask : TaskId) : Kernel :=
  match k.deliver (publishedMsg sender payload subTask) with
  | .ok k => k
  | .error _ => k

/-- `channel::publish`.  The count returned includes the subscribers that missed the message. -/
def publish (k : Kernel) (channelName : String) (sender : TaskId) (payload : List UInt8)
    (publishCap : CapId) : Except IpcError Nat × Kernel :=
  match k.caps.validate publishCap sender .publish with
  | .error _ => (.error .capabilityDenied, k)
  | .ok _ =>
    match k.channels[channelName]? with
    | none => (.error .recipientNotFound, k)
    | some channel =>
      let subscribers := (channel.subscribers.map Prod.fst).filter fun t => t != sender
      (.ok subscribers.length, subscribers.foldl (offer sender payload) k)

/-- The channel of this name lists the task as a subscriber. -/
def Lists (k : Kernel) (channelName : String) (taskId : TaskId) : Prop :=
  ∃ channel, k.channels[channelName]? = some channel ∧ channel.listed taskId = true

variable {k : Kernel} {channelName name : String} {taskId id : TaskId} {capId : CapId}

/-! ## How a call goes -/

theorem mem_channels_of_some {channel : Channel} (h : k.channels[channelName]? = some channel) :
    channelName ∈ k.channels := by
  rw [Std.ExtTreeMap.mem_iff_isSome_getElem?, h]
  rfl

theorem not_mem_channels_of_none (h : k.channels[channelName]? = none) :
    channelName ∉ k.channels := by
  rw [Std.ExtTreeMap.mem_iff_isSome_getElem?, h]
  exact Bool.false_ne_true

/-- A call of `subscribe` is refused and changes nothing, or enters the task in the channel. -/
theorem subscribe_cases (k : Kernel) (channelName : String) (taskId : TaskId) (capId : CapId) :
    (∃ e, k.subscribe channelName taskId capId = (.error e, k) ∧
        ¬(k.caps.Grants capId taskId .subscribe ∧ channelName ∈ k.channels)) ∨
      ∃ channel, k.caps.Grants capId taskId .subscribe ∧
        k.channels[channelName]? = some channel ∧
        k.subscribe channelName taskId capId = (.ok (), { k with
          channels := k.channels.insert channelName (channel.addSubscriber taskId capId) }) := by
  rw [subscribe, CapabilityTable.grants_iff]
  cases k.caps.validate capId taskId .subscribe with
  | error e => exact .inl ⟨_, rfl, by simp⟩
  | ok cap =>
    cases hchannel : k.channels[channelName]? with
    | none => exact .inl ⟨_, rfl, fun hall => not_mem_channels_of_none hchannel hall.2⟩
    | some channel => exact .inr ⟨channel, ⟨cap, rfl⟩, rfl, rfl⟩

/-- A call of `publish` is refused and changes nothing, or goes through the subscribers. -/
theorem publish_cases (k : Kernel) (channelName : String) (sender : TaskId) (payload : List UInt8)
    (publishCap : CapId) :
    (∃ e, k.publish channelName sender payload publishCap = (.error e, k) ∧
        ¬(k.caps.Grants publishCap sender .publish ∧ channelName ∈ k.channels)) ∨
      ∃ channel subscribers, k.caps.Grants publishCap sender .publish ∧
        k.channels[channelName]? = some channel ∧
        subscribers = ((channel.subscribers.map Prod.fst).filter fun t => t != sender) ∧
        k.publish channelName sender payload publishCap =
          (.ok subscribers.length, subscribers.foldl (offer sender payload) k) := by
  rw [publish, CapabilityTable.grants_iff]
  cases k.caps.validate publishCap sender .publish with
  | error e => exact .inl ⟨_, rfl, by simp⟩
  | ok cap =>
    cases hchannel : k.channels[channelName]? with
    | none => exact .inl ⟨_, rfl, fun hall => not_mem_channels_of_none hchannel hall.2⟩
    | some channel => exact .inr ⟨channel, _, ⟨cap, rfl⟩, rfl, rfl, rfl⟩

/-- Only the channel has to exist for `unsubscribe`. -/
theorem unsubscribe_cases (k : Kernel) (channelName : String) (taskId : TaskId) :
    (∃ e, k.unsubscribe channelName taskId = (.error e, k)) ∨
      ∃ channel, k.channels[channelName]? = some channel ∧
        k.unsubscribe channelName taskId = (.ok (), { k with
          channels := k.channels.insert channelName (channel.removeSubscriber taskId) }) := by
  rw [unsubscribe]
  cases k.channels[channelName]? with
  | none => exact .inl ⟨_, rfl⟩
  | some channel => exact .inr ⟨channel, rfl, rfl⟩

/-- **Subscribing succeeds** exactly when the task holds the capability with the right to subscribe
and the channel exists. -/
theorem subscribe_ok_iff :
    (∃ u, (k.subscribe channelName taskId capId).1 = .ok u) ↔
      k.caps.Grants capId taskId .subscribe ∧ channelName ∈ k.channels := by
  rcases k.subscribe_cases channelName taskId capId with
    ⟨e, hrefused, hnot⟩ | ⟨channel, hgrants, hchannel, hok⟩
  · rw [hrefused]
    refine iff_of_false ?_ hnot
    rintro ⟨u, hu⟩
    cases hu
  · rw [hok]
    exact iff_of_true ⟨(), rfl⟩ ⟨hgrants, mem_channels_of_some hchannel⟩

/-- **Publishing succeeds** exactly when the sender holds the capability with the right to publish
and the channel exists. -/
theorem publish_ok_iff {sender : TaskId} {payload : List UInt8} {publishCap : CapId} :
    (∃ count, (k.publish channelName sender payload publishCap).1 = .ok count) ↔
      k.caps.Grants publishCap sender .publish ∧ channelName ∈ k.channels := by
  rcases k.publish_cases channelName sender payload publishCap with
    ⟨e, hrefused, hnot⟩ | ⟨channel, subscribers, hgrants, hchannel, -, hok⟩
  · rw [hrefused]
    refine iff_of_false ?_ hnot
    rintro ⟨count, hcount⟩
    cases hcount
  · rw [hok]
    exact iff_of_true ⟨_, rfl⟩ ⟨hgrants, mem_channels_of_some hchannel⟩

/-! ## What a call changes -/

theorem subscribe_frame (k : Kernel) (channelName : String) (taskId : TaskId) (capId : CapId) :
    ∃ channels, (k.subscribe channelName taskId capId).2 = { k with channels } := by
  rcases k.subscribe_cases channelName taskId capId with
    ⟨e, hrefused, -⟩ | ⟨channel, -, -, hok⟩
  · exact ⟨k.channels, congrArg Prod.snd hrefused⟩
  · exact ⟨_, congrArg Prod.snd hok⟩

theorem unsubscribe_frame (k : Kernel) (channelName : String) (taskId : TaskId) :
    ∃ channels, (k.unsubscribe channelName taskId).2 = { k with channels } := by
  rcases k.unsubscribe_cases channelName taskId with ⟨e, hrefused⟩ | ⟨channel, -, hok⟩
  · exact ⟨k.channels, congrArg Prod.snd hrefused⟩
  · exact ⟨_, congrArg Prod.snd hok⟩

theorem offer_frame (sender : TaskId) (payload : List UInt8) (k : Kernel) (subTask : TaskId) :
    ∃ mailboxes, offer sender payload k subTask = { k with mailboxes } := by
  rw [offer]
  split
  · next hdeliver => exact deliver_eq_ok hdeliver
  · exact ⟨k.mailboxes, rfl⟩

theorem foldl_offer_frame (sender : TaskId) (payload : List UInt8) (subscribers : List TaskId)
    (k : Kernel) :
    ∃ mailboxes, subscribers.foldl (offer sender payload) k = { k with mailboxes } := by
  induction subscribers generalizing k with
  | nil => exact ⟨k.mailboxes, rfl⟩
  | cons subTask rest ih =>
    obtain ⟨mailboxes, hoffer⟩ := offer_frame sender payload k subTask
    rw [List.foldl_cons, hoffer]
    exact ih { k with mailboxes }

/-- Publishing changes mailboxes only. -/
theorem publish_frame (k : Kernel) (channelName : String) (sender : TaskId) (payload : List UInt8)
    (publishCap : CapId) :
    ∃ mailboxes, (k.publish channelName sender payload publishCap).2 = { k with mailboxes } := by
  rcases k.publish_cases channelName sender payload publishCap with
    ⟨e, hrefused, -⟩ | ⟨channel, subscribers, -, -, -, hok⟩
  · exact ⟨k.mailboxes, congrArg Prod.snd hrefused⟩
  · rw [hok]
    exact foldl_offer_frame sender payload subscribers k

/-! ## Who is listed -/

/-- Who is listed after the channel of one name is replaced. -/
theorem lists_insert {channel : Channel} :
    Lists { k with channels := k.channels.insert channelName channel } name id ↔
      if name = channelName then channel.listed id = true else k.Lists name id := by
  rw [Lists, Lists]
  split_ifs with hname
  · subst hname
    simp
  · simp only [Std.ExtTreeMap.getElem?_insert]
    rw [if_neg (fun h => hname (Std.LawfulEqCmp.eq_of_compare h).symm)]

/-- Creating a channel lists nobody. -/
theorem lists_of_createChannel (h : (k.createChannel channelName).2.Lists name id) :
    k.Lists name id := by
  have h' := (lists_insert (k := { k with nextChannelId := k.nextChannelId + 1 })).mp h
  split_ifs at h' with hname
  · cases h'
  · exact h'

/-- A successful call lists its task, and no other. -/
theorem lists_of_subscribe (h : (k.subscribe channelName taskId capId).2.Lists name id) :
    k.Lists name id ∨
      name = channelName ∧ id = taskId ∧ (k.subscribe channelName taskId capId).1 = .ok () := by
  rcases k.subscribe_cases channelName taskId capId with
    ⟨e, hrefused, -⟩ | ⟨channel, -, hchannel, hok⟩
  · rw [hrefused] at h
    exact .inl h
  · rw [hok, lists_insert] at h
    rw [hok]
    split_ifs at h with hname
    · subst hname
      rcases Channel.listed_addSubscriber.mp h with hlisted | rfl
      · exact .inl ⟨channel, hchannel, hlisted⟩
      · exact .inr ⟨rfl, rfl, rfl⟩
    · exact .inl h

theorem lists_of_unsubscribe (h : (k.unsubscribe channelName taskId).2.Lists name id) :
    k.Lists name id := by
  rcases k.unsubscribe_cases channelName taskId with ⟨e, hrefused⟩ | ⟨channel, hchannel, hok⟩
  · rw [hrefused] at h
    exact h
  · rw [hok, lists_insert] at h
    split_ifs at h with hname
    · subst hname
      exact ⟨channel, hchannel, Channel.listed_of_removeSubscriber h⟩
    · exact h

end Kernel

end OxideOS
