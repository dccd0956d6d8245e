import OxideOS.Kernel.System

/-!
# Capabilities and the resources they name

A capability names a resource, and a call that presents one works on a target: the agent a message
goes to, the channel, the path of a key in the context store, the model.  The entry points check
that the caller owns the capability and that it has the right for the call, and then never look at
the resource.  So a call works on its target with a capability for anything.

## Main definitions

* `GatedCall.capId`, `GatedCall.caller`, `GatedCall.required`: what a call presents, who makes it
  and which right it needs
* `GatedCall.Names`, `Kernel.Named`: the resource is the target of the call
* `Kernel.Ready`: everything a call needs besides the capability

## Main results

* `Kernel.succeeds_iff`: a call succeeds when the capability grants the right and the rest is ready
* `Kernel.confined_to_resource_iff`: when success implies that the capability names the target
-/

namespace OxideOS

namespace GatedCall

/-- The capability presented. -/
def capId : GatedCall → CapId
  | send _ _ _ _ _ _ senderCap _ => senderCap
  | request _ _ _ senderCap _ _ => senderCap
  | subscribe _ _ capId => capId
  | publish _ _ _ publishCap => publishCap
  | contextSet _ _ _ capId => capId
  | contextGet _ _ capId => capId
  | submitRequest _ _ _ _ capId => capId

/-- The task the capability has to belong to. -/
def caller : GatedCall → TaskId
  | send sender _ _ _ _ _ _ _ => sender
  | request sender _ _ _ _ _ => sender
  | subscribe _ taskId _ => taskId
  | publish _ sender _ _ => sender
  | contextSet agentId _ _ _ => agentId
  | contextGet agentId _ _ => agentId
  | submitRequest agentId _ _ _ _ => agentId

/-- The right the capability has to have. -/
def required : GatedCall → PermissionBits
  | send .. => .write
  | request .. => .write
  | subscribe .. => .subscribe
  | publish .. => .publish
  | contextSet .. => .write
  | contextGet .. => .read
  | submitRequest .. => .execute

/-- The resource names what the call works on. -/
def Names : GatedCall → ResourceRef → Prop
  | send _ recipient _ _ _ _ _ _, resource => resource = .agent recipient
  | request _ recipient _ _ _ _, resource => resource = .agent recipient
  | subscribe channelName _ _, resource => resource = .channel channelName
  | publish channelName _ _ _, resource => resource = .channel channelName
  | contextSet agentId key _ _, resource =>
    ∃ path, resource = .storage path ∧ startsWith (agentPath agentId key) path = true
  | contextGet agentId key _, resource =>
    ∃ path, resource = .storage path ∧ startsWith (agentPath agentId key) path = true
  | submitRequest _ modelId _ _ _, resource => resource = .model modelId

end GatedCall

namespace Kernel

/-- The capability presented names what the call works on. -/
def Named (k : Kernel) (call : GatedCall) : Prop :=
  ∃ cap, k.caps.slot call.capId = some cap ∧ call.Names cap.resource

/-- What a call needs besides the capability: a message needs room in the mailbox, and a capability
it carries has to be the sender's to hand on; the deadline of a request has to fit; a channel has to
exist. -/
def Ready (k : Kernel) : GatedCall → Prop
  | .send sender recipient _ _ capTransfer _ _ _ =>
    k.caps.Transferable sender capTransfer ∧ k.HasRoom recipient
  | .request _ recipient _ _ timeoutTicks _ => k.HasRoom recipient ∧ k.DeadlineFits timeoutTicks
  | .subscribe channelName _ _ => channelName ∈ k.channels
  | .publish channelName _ _ _ => channelName ∈ k.channels
  | .contextSet .. => True
  | .contextGet .. => True
  | .submitRequest .. => True

variable {k : Kernel} {call : GatedCall}

theorem isOk_iff {ε α : Type} {x : Except ε α} : x.isOk = true ↔ ∃ a, x = .ok a := by
  cases x with
  | error e => simp [Except.isOk, Except.toBool]
  | ok a => simp [Except.isOk, Except.toBool]

/-- A call of a total function succeeds when the function returns `Ok`. -/
theorem succeeds_of_exec {ε α : Type} {result : Except ε α} {k' : Kernel}
    (h : k.exec call = some (result.isOk, k')) : k.Succeeds call ↔ ∃ a, result = .ok a := by
  rw [Succeeds, h, ← isOk_iff]
  simp

/-- **A call succeeds** exactly when the caller owns the capability, live and with the right for the
call, and the rest is ready.  The resource of the capability does not occur. -/
theorem succeeds_iff :
    k.Succeeds call ↔
      k.caps.Grants call.capId call.caller call.required ∧ k.Ready call := by
  cases call with
  | send sender recipient msgType payload capTransfer replyTo senderCap unlocked =>
    rw [succeeds_of_exec rfl]
    exact k.send_ok_iff sender recipient msgType payload capTransfer replyTo senderCap unlocked
  | request sender recipient payload senderCap timeoutTicks unlocked =>
    have hrequest := k.request_ok_iff sender recipient payload senderCap timeoutTicks unlocked
    refine Iff.trans ?_ hrequest
    rw [Succeeds, exec]
    cases k.request sender recipient payload senderCap timeoutTicks unlocked with
    | none => simp
    | some outcome => simp [Prod.ext_iff, isOk_iff]
  | subscribe channelName taskId capId =>
    rw [succeeds_of_exec rfl]
    exact subscribe_ok_iff
  | publish channelName sender payload publishCap =>
    rw [succeeds_of_exec rfl]
    exact publish_ok_iff
  | contextSet agentId key value capId =>
    rw [succeeds_of_exec rfl, CapabilityTable.grants_iff]
    exact ContextStore.gatedSet_ok_iff.trans (iff_of_eq (and_true _)).symm
  | contextGet agentId key capId =>
    rw [succeeds_of_exec rfl, CapabilityTable.grants_iff]
    exact ContextStore.gatedGet_ok_iff.trans (iff_of_eq (and_true _)).symm
  | submitRequest agentId modelId priority deadlineTick capId =>
    rw [succeeds_of_exec rfl, CapabilityTable.grants_iff]
    exact submitRequest_ok_iff.trans (iff_of_eq (and_true _)).symm

/-- **When a call is confined to the resource of its capability**: success implies that the
capability names the target exactly when it does, or the capability does not grant the right to the
caller, or something else the call needs is missing. -/
theorem confined_to_resource_iff (k : Kernel) (call : GatedCall) :
    (k.Succeeds call → k.Named call) ↔
      k.Named call ∨ ¬k.caps.Grants call.capId call.caller call.required ∨ ¬k.Ready call := by
  rw [succeeds_iff]
  constructor
  · intro hconfined
    by_cases hgrants : k.caps.Grants call.capId call.caller call.required
    · by_cases hready : k.Ready call
      · exact .inl (hconfined ⟨hgrants, hready⟩)
      · exact .inr (.inr hready)
    · exact .inr (.inl hgrants)
  · rintro (hnamed | hdenied | hrefused) ⟨hgrants, hready⟩
    · exact hnamed
    · exact absurd hgrants hdenied
    · exact absurd hready hrefused

/-- Agent 1 holds one capability, for agent 2; agent 3 has a mailbox, and there is a channel. -/
def oneCapability : List KernelOp :=
  [.capability (.createRoot 1 (.agent 2) .all), .registerMailbox 3, .createChannel "results"]

/-- A call of each kind by agent 1, none of them to agent 2. -/
def elsewhere : List GatedCall :=
  [.send 1 3 .data [1] none none 1 true, .request 1 3 [1] 1 10 true, .subscribe "results" 1 1,
    .publish "results" 1 [1] 1, .contextSet 1 "key" [1] 1, .contextGet 1 "key" 1,
    .submitRequest 1 "gpt-4" .normal none 1]

/-- The capability for agent 2 opens everything else, at every entry point. -/
theorem capability_works_elsewhere :
    ∃ k, oneCapability.foldlM step (boot none .empty) = some k ∧
      ∀ call ∈ elsewhere, k.Succeeds call ∧ ¬k.Named call := by
  have hrun : (oneCapability.foldlM step (boot none .empty)).map (fun k =>
      (k.caps.slot 1, elsewhere.all fun call => (k.exec call).any Prod.fst)) =
      some (some ⟨1, .agent 2, .all, 1, none, false⟩, true) := by
    decide
  obtain ⟨k, hk, hstate⟩ := Option.map_eq_some_iff.mp hrun
  obtain ⟨hslot, hall⟩ := Prod.mk.inj hstate
  refine ⟨k, hk, fun call hcall => ⟨?_, ?_⟩⟩
  · have hexec := List.all_eq_true.mp hall call hcall
    obtain ⟨⟨ok, k'⟩, hexec, rfl⟩ := (Option.any_eq_true _ _).mp hexec
    exact ⟨k', hexec⟩
  · rintro ⟨cap, hcap, hnames⟩
    simp only [elsewhere, List.mem_cons, List.not_mem_nil, or_false] at hcall
    rcases hcall with rfl | rfl | rfl | rfl | rfl | rfl | rfl
    all_goals
      obtain rfl := Option.some.inj (hslot.symm.trans hcap)
      simp [GatedCall.Names] at hnames

end Kernel

end OxideOS
