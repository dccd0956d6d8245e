import OxideOS.Kernel.System

/-!
# The capability table and the channels

What one call does to the two tables that decide who may do what: to the capability table it adds a
capability at most, unless it is a revocation, and to the channels it changes one of them at most,
by a call that is about channels.
-/

namespace OxideOS

namespace Kernel

variable {k k' : Kernel} {op : KernelOp} {caps caps' : CapabilityTable}
  {sender recipient : TaskId} {msgType : MessageType} {payload : List UInt8}
  {capTransfer : Option CapId} {replyTo : Option MessageId} {senderCap c : CapId}
  {unlocked : Bool} {result : Except IpcError MessageId}

/-- A transfer adds a capability for the recipient below the one that is sent. -/
theorem transferCap_adds (h : transferCap caps sender recipient (some c) = .ok caps') :
    ∃ source resource, caps.slot c = some source ∧ source.revoked = false ∧
      source.owner = sender ∧ caps.Adds
        ⟨caps.nextId, resource, source.permissions, recipient, some c, false⟩ caps' := by
  rw [transferCap] at h
  split at h
  · cases h
  next cap hget =>
  obtain ⟨hslot, -⟩ := CapabilityTable.get_eq_ok.mp hget
  rcases caps.delegate_cases c sender recipient cap.permissions none with
    ⟨e, he⟩ | ⟨source, resource, t', hsource, hlive, howner, -, -, hok, hadds⟩
  · rw [he] at h
    cases h
  · rw [hok] at h
    obtain rfl := Except.ok.inj h
    obtain rfl := Option.some.inj (hslot.symm.trans hsource)
    exact ⟨cap, resource, hsource, hlive, howner, hadds⟩

/-- What a send does to the capability table. -/
theorem caps_send (h : k.send sender recipient msgType payload capTransfer replyTo senderCap
    unlocked = (result, k')) :
    k'.caps = k.caps ∨ ∃ c, capTransfer = some c ∧
      transferCap k.caps sender recipient (some c) = .ok k'.caps := by
  rcases send_cases h with ⟨-, -, rfl, -⟩ | ⟨caps, -, htransfer, hrest⟩
  · exact .inl rfl
  have hcaps : k'.caps = caps := by
    rcases hrest with ⟨-, -, -, rfl⟩ | ⟨k₁, -, hdeliver, rfl⟩
    · rfl
    · obtain ⟨mailboxes, rfl⟩ := deliver_eq_ok hdeliver
      rfl
  cases capTransfer with
  | none => exact .inl (hcaps.trans (Except.ok.inj htransfer).symm)
  | some c => exact .inr ⟨c, rfl, hcaps ▸ htransfer⟩

/-- A request carries no capability. -/
theorem caps_request {timeoutTicks : UInt64}
    (h : k.request sender recipient payload senderCap timeoutTicks unlocked = some (result, k')) :
    k'.caps = k.caps := by
  obtain ⟨k₁, hsend, hk'⟩ :=
    request_send k sender recipient payload senderCap timeoutTicks unlocked h
  have hcaps : k'.caps = k₁.caps := by
    rcases hk' with ⟨-, -, rfl⟩ | ⟨msgId, -, rfl⟩
    · rfl
    · rfl
  rcases caps_send hsend with hsame | ⟨c, hc, -⟩
  · exact hcaps.trans hsame
  · cases hc

/-- How a call may change a channel. -/
inductive ChannelEdit (k : Kernel) (name : String) : KernelOp → Channel → Prop
  | created (channel : Channel) (h : channel.subscribers = []) :
      ChannelEdit k name (.createChannel name) channel
  | subscribed (channel : Channel) (taskId : TaskId) (capId : CapId)
      (hchannel : k.channels[name]? = some channel)
      (hok : (k.subscribe name taskId capId).1 = .ok ()) :
      ChannelEdit k name (.gated (.subscribe name taskId capId))
        (channel.addSubscriber taskId capId)
  | unsubscribed (channel : Channel) (taskId : TaskId)
      (hchannel : k.channels[name]? = some channel) :
      ChannelEdit k name (.unsubscribe name taskId) (channel.removeSubscriber taskId)

/-- The capability table gains a capability at most, or goes through a revocation; of the channels
one is edited at most. -/
structure TableEffect (k : Kernel) (op : KernelOp) (k' : Kernel) : Prop where
  caps : k'.caps = k.caps ∨ (∃ cap, k.caps.Adds cap k'.caps) ∨
    ∃ capId revoker, op = .capability (.revoke capId revoker) ∧
      k'.caps = (k.caps.revoke capId revoker).2
  channels : k'.channels = k.channels ∨ ∃ name channel,
    ChannelEdit k name op channel ∧ k'.channels = k.channels.insert name channel

/-- The call is about neither table. -/
theorem tableEffect_of_eq (hcaps : k'.caps = k.caps) (hchannels : k'.channels = k.channels) :
    TableEffect k op k' :=
  ⟨.inl hcaps, .inl hchannels⟩

theorem subscribe_tables (k : Kernel) (channelName : String) (taskId : TaskId) (capId : CapId) :
    TableEffect k (.gated (.subscribe channelName taskId capId))
      (k.subscribe channelName taskId capId).2 := by
  rcases k.subscribe_cases channelName taskId capId with
    ⟨e, hrefused, -⟩ | ⟨channel, -, hchannel, hok⟩
  · rw [hrefused]
    exact tableEffect_of_eq rfl rfl
  · have hedit := ChannelEdit.subscribed channel taskId capId hchannel (congrArg Prod.fst hok)
    rw [hok]
    exact ⟨.inl rfl, .inr ⟨channelName, _, hedit, rfl⟩⟩

theorem unsubscribe_tables (k : Kernel) (channelName : String) (taskId : TaskId) :
    TableEffect k (.unsubscribe channelName taskId) (k.unsubscribe channelName taskId).2 := by
  rcases k.unsubscribe_cases channelName taskId with ⟨e, hrefused⟩ | ⟨channel, hchannel, hok⟩
  · rw [hrefused]
    exact tableEffect_of_eq rfl rfl
  · rw [hok]
    exact ⟨.inl rfl, .inr ⟨channelName, _, .unsubscribed channel taskId hchannel, rfl⟩⟩

theorem exec_tables {call : GatedCall} {ok : Bool} (h : k.exec call = some (ok, k')) :
    TableEffect k (.gated call) k' := by
  cases call with
  | send sender recipient msgType payload capTransfer replyTo senderCap unlocked =>
    have hchannels := congrArg Kernel.channels (exec_frame h)
    refine ⟨?_, .inl hchannels⟩
    obtain rfl : (k.send sender recipient msgType payload capTransfer replyTo senderCap
      unlocked).2 = k' := (Prod.mk.inj (Option.some.inj h)).2
    rcases caps_send (k := k) rfl with hcaps | ⟨c, -, htransfer⟩
    · exact .inl hcaps
    · obtain ⟨source, resource, -, -, -, hadds⟩ := transferCap_adds htransfer
      exact .inr (.inl ⟨_, hadds⟩)
  | request sender recipient payload senderCap timeoutTicks unlocked =>
    have hchannels := congrArg Kernel.channels (exec_frame h)
    obtain ⟨⟨result, k₁⟩, hrequest, hk⟩ := Option.map_eq_some_iff.mp h
    obtain ⟨-, rfl⟩ := Prod.mk.inj hk
    exact tableEffect_of_eq (caps_request hrequest) hchannels
  | subscribe channelName taskId capId =>
    obtain ⟨-, rfl⟩ := Prod.mk.inj (Option.some.inj h)
    exact k.subscribe_tables channelName taskId capId
  | publish | contextSet | contextGet | submitRequest =>
    rw [exec_frame h]
    exact tableEffect_of_eq rfl rfl

theorem capability_tables (k : Kernel) (op : CapabilityTable.CapOp) :
    TableEffect k (.capability op) { k with caps := k.caps.step op } := by
  refine ⟨?_, .inl rfl⟩
  cases op with
  | createRoot owner resource permissions =>
    exact .inr (.inl ⟨_, k.caps.adds_createRoot owner resource permissions⟩)
  | delegate sourceId fromTask toTask permissions resourceOverride =>
    rcases k.caps.delegate_cases sourceId fromTask toTask permissions resourceOverride with
      ⟨e, he⟩ | ⟨source, resource, t', -, -, -, -, -, hok, hadds⟩
    · exact .inl (congrArg Prod.snd he)
    · have hcaps : k.caps.step (.delegate sourceId fromTask toTask permissions
          resourceOverride) = t' := congrArg Prod.snd hok
      exact .inr (.inl ⟨_, hcaps ▸ hadds⟩)
  | revoke capId revoker => exact .inr (.inr ⟨capId, revoker, rfl, rfl⟩)

/-- **What one call does to the capability table and the channels.** -/
theorem step_tables (h : k.step op = some k') : TableEffect k op k' := by
  cases op with
  | capability op =>
    obtain rfl := Option.some.inj h
    exact k.capability_tables op
  | createChannel name =>
    obtain rfl := Option.some.inj h
    exact ⟨.inl rfl, .inr ⟨name, _, .created _ rfl, rfl⟩⟩
  | unsubscribe channelName taskId =>
    obtain rfl := Option.some.inj h
    exact k.unsubscribe_tables channelName taskId
  | gated call =>
    obtain ⟨⟨ok, k''⟩, hexec, rfl⟩ := Option.map_eq_some_iff.mp h
    exact exec_tables hexec
  | _ =>
    rw [step_frame h]
    exact tableEffect_of_eq rfl rfl

end Kernel

end OxideOS
