import OxideOS.Agent.Lifecycle

/-!
# The log of a kill

The calls that `kill`, `notify_child_death` and `escalate` make of each other, as a relation between
the registry before, the log of what happens, and the registry after.  The log has an entry when an
agent is unregistered whose parent is registered, and when `notify_child_death` is called for a
registered parent.
-/

namespace OxideOS

/-- What a log records. -/
inductive AgentEvent
  /-- The agent was registered and is unregistered while its parent is registered. -/
  | removed (agentId parentId : AgentId)
  /-- `notify_child_death` is called for a registered parent, which escalates or does not. -/
  | notified (parentId deadChildId : AgentId) (escalates : Bool)
deriving DecidableEq

/-- The agent whose death the event is about. -/
def AgentEvent.dead : AgentEvent → AgentId
  | removed a _ => a
  | notified _ a _ => a

/-- The calls of which a kill consists. -/
inductive AgentCall
  | kill (agentId : AgentId)
  /-- The loop over the children. -/
  | killAll (ids : List AgentId)
  /-- The report of a death to the parent, if there is one. -/
  | report (parentId : Option AgentId) (agentId : AgentId)

namespace AgentRegistry

/-- The registry once the agent is out of the list of its parent and unregistered. -/
def remove (r : AgentRegistry) (parentId : Option AgentId) (a : AgentId) : AgentRegistry :=
  ((r.detach parentId a).unregister a).2

/-- The record of removing the agent. -/
def removal (r : AgentRegistry) (parentId : Option AgentId) (a : AgentId) : List AgentEvent :=
  match parentId with
  | none => []
  | some p => if (r.get a).isSome ∧ (r.get p).isSome then [.removed a p] else []

/-- The call leaves this log and this registry. -/
inductive Logs : AgentRegistry → AgentCall → List AgentEvent → AgentRegistry → Prop
  | killNone {r : AgentRegistry} {a : AgentId} (hget : r.get a = none) : Logs r (.kill a) [] r
  | killSome {r r₁ r₂ : AgentRegistry} {a : AgentId} {agent : Agent} {log₁ log₂ : List AgentEvent}
      (hget : r.get a = some agent)
      (hall : Logs (r.modify a (Agent.withState .dead)) (.killAll agent.children) log₁ r₁)
      (hreport : Logs (r₁.remove agent.parent a) (.report agent.parent a) log₂ r₂) :
      Logs r (.kill a) (log₁ ++ (r₁.removal agent.parent a ++ log₂)) r₂
  | nil {r : AgentRegistry} : Logs r (.killAll []) [] r
  | cons {r r₁ r₂ : AgentRegistry} {a : AgentId} {ids : List AgentId} {log₁ log₂ : List AgentEvent}
      (hkill : Logs r (.kill a) log₁ r₁) (hrest : Logs r₁ (.killAll ids) log₂ r₂) :
      Logs r (.killAll (a :: ids)) (log₁ ++ log₂) r₂
  | reportNone {r : AgentRegistry} {a : AgentId} : Logs r (.report none a) [] r
  | reportGone {r : AgentRegistry} {p a : AgentId} (hget : r.get p = none) :
      Logs r (.report (some p) a) [] r
  | reportAbsorbed {r : AgentRegistry} {p a : AgentId} {agent : Agent} (hget : r.get p = some agent)
      (hesc : ¬agent.Escalates) :
      Logs r (.report (some p) a) [.notified p a false]
        (r.modify p (Agent.restarted (agent.counts 1)))
  | reportEscalated {r r₁ r₂ : AgentRegistry} {p a : AgentId} {agent : Agent}
      {log₁ log₂ : List AgentEvent} (hget : r.get p = some agent) (hesc : agent.Escalates)
      (hkill : Logs r (.kill p) log₁ r₁)
      (hreport : Logs r₁ (.report agent.parent p) log₂ r₂) :
      Logs r (.report (some p) a) (.notified p a true :: (log₁ ++ log₂)) r₂

/-- The call returns with this registry. -/
def Returns (r : AgentRegistry) (call : AgentCall) (r' : AgentRegistry) : Prop :=
  match call with
  | .kill a => ∃ result, r.Kills a result r'
  | .killAll ids => r.KillsAll ids r'
  | .report parentId a => r.NotifiesParent parentId a r'

variable {r r' r'' : AgentRegistry} {a p x : AgentId} {agent : Agent} {call : AgentCall}
  {log log' : List AgentEvent} {parentId : Option AgentId}

/-! ## The calls with a log return -/

/-- **What is logged returns.** -/
theorem Logs.returns (h : Logs r call log r') : r.Returns call r' := by
  induction h with
  | killNone hget => exact ⟨_, kills_of_none hget⟩
  | killSome hget _ _ ihall ihreport => exact ⟨_, .intro hget ihall ihreport⟩
  | nil => exact killsAll_nil
  | cons _ _ ihkill ihrest =>
    obtain ⟨result, hkill⟩ := ihkill
    exact .cons hkill ihrest
  | reportNone => exact notifiesParent_none
  | reportGone hget => exact notifies_of_none hget
  | reportAbsorbed hget hesc => exact notifies_of_not_escalates hget hesc
  | reportEscalated hget hesc _ _ ihkill ihreport =>
    obtain ⟨result, hkill⟩ := ihkill
    exact Notifies.of_escalates hget hesc (.intro hget hkill ihreport)

/-- The kill of an agent that is registered returns `Ok`. -/
theorem Logs.kills (h : Logs r (.kill a) log r') (hget : r.get a = some agent) :
    r.Kills a (.ok ()) r' := by
  cases h with
  | killNone hnone =>
    rw [hget] at hnone
    cases hnone
  | killSome hget hall hreport => exact .intro hget hall.returns hreport.returns

theorem Logs.shrinks (h : Logs r (.report parentId a) log r') : r.Shrinks r' := by
  have hreport : r.NotifiesParent parentId a r' := h.returns
  exact hreport.shrinks

/-- **A call has one log**, and leaves one registry. -/
theorem Logs.unique (h : Logs r call log r') (h' : Logs r call log' r'') :
    log = log' ∧ r' = r'' := by
  induction h generalizing log' r'' with
  | killNone hget =>
    cases h' with
    | killNone => exact ⟨rfl, rfl⟩
    | killSome hget' => cases hget.symm.trans hget'
  | killSome hget _ _ ihall ihreport =>
    cases h' with
    | killNone hget' => cases hget.symm.trans hget'
    | killSome hget' hall' hreport' =>
      obtain rfl := Option.some.inj (hget.symm.trans hget')
      obtain ⟨rfl, rfl⟩ := ihall hall'
      obtain ⟨rfl, rfl⟩ := ihreport hreport'
      exact ⟨rfl, rfl⟩
  | nil =>
    cases h' with
    | nil => exact ⟨rfl, rfl⟩
  | cons _ _ ihkill ihrest =>
    cases h' with
    | cons hkill' hrest' =>
      obtain ⟨rfl, rfl⟩ := ihkill hkill'
      obtain ⟨rfl, rfl⟩ := ihrest hrest'
      exact ⟨rfl, rfl⟩
  | reportNone =>
    cases h' with
    | reportNone => exact ⟨rfl, rfl⟩
  | reportGone hget =>
    cases h' with
    | reportGone => exact ⟨rfl, rfl⟩
    | reportAbsorbed hget' => cases hget.symm.trans hget'
    | reportEscalated hget' => cases hget.symm.trans hget'
  | reportAbsorbed hget hesc =>
    cases h' with
    | reportGone hget' => cases hget.symm.trans hget'
    | reportAbsorbed hget' =>
      obtain rfl := Option.some.inj (hget.symm.trans hget')
      exact ⟨rfl, rfl⟩
    | reportEscalated hget' hesc' =>
      obtain rfl := Option.some.inj (hget.symm.trans hget')
      exact absurd hesc' hesc
  | reportEscalated hget hesc _ _ ihkill ihreport =>
    cases h' with
    | reportGone hget' => cases hget.symm.trans hget'
    | reportAbsorbed hget' hesc' =>
      obtain rfl := Option.some.inj (hget.symm.trans hget')
      exact absurd hesc hesc'
    | reportEscalated hget' hesc' hkill' hreport' =>
      obtain rfl := Option.some.inj (hget.symm.trans hget')
      obtain ⟨rfl, rfl⟩ := ihkill hkill'
      obtain ⟨rfl, rfl⟩ := ihreport hreport'
      exact ⟨rfl, rfl⟩

/-! ## The record of a removal -/

theorem removal_some (ha : r.get a = some agent) (hp : (r.get p).isSome) :
    r.removal (some p) a = [.removed a p] := by
  rw [removal, if_pos ⟨by rw [ha]; rfl, hp⟩]

/-- The record depends on who is registered. -/
theorem removal_congr (ha : (r'.get a).isSome = (r.get a).isSome)
    (hp : ∀ p ∈ parentId, (r'.get p).isSome = (r.get p).isSome) :
    r'.removal parentId a = r.removal parentId a := by
  cases parentId with
  | none => rfl
  | some p => rw [removal, removal, ha, hp p rfl]

end AgentRegistry

end OxideOS
