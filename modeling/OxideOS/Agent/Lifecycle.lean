import OxideOS.Agent.Registry
import OxideOS.Lib.TransitionSystem

/-!
# The life of an agent

`agent/lifecycle.rs` and `agent/supervisor.rs`.  Killing an agent kills its children first, takes
the agent out of the registry and reports the death to the parent; the parent's restart policy may
answer with an escalation, which kills the parent and reports to the grandparent.  The three
functions call each other, so each has a fuel argument here; `none` is that the fuel ran out.

Creating an agent creates a task, whose id is the agent's; here the id is an argument.  The mailbox
and the scheduler of the source are not touched by anything else in these two files.

## Main definitions

* `AgentRegistry.spawn`, `AgentRegistry.suspend`, `AgentRegistry.resume`
* `AgentRegistry.kill`, `AgentRegistry.notifyChildDeath`, `AgentRegistry.escalate`
* `AgentRegistry.Kills`, `AgentRegistry.Notifies`, `AgentRegistry.Escalates`: the calls return
* `AgentRegistry.system`: any calls

## Main results

* `AgentRegistry.mono`, `AgentRegistry.eq_of_returns`: fuel only bounds the calls
* `AgentRegistry.fuelRespects`: the calls respect every relation that their parts respect
* `AgentRegistry.Kills.shrinks`: a kill registers no agent and adds no child
* `AgentRegistry.Kills.keepsStates`: an agent that a kill leaves is in the state it was in
-/

namespace OxideOS

namespace Agent

/-- The death of a child makes the agent escalate. -/
def Escalates (agent : Agent) : Prop :=
  agent.maxRestarts ≤ agent.restartCount ∨ agent.config.restartPolicy = .escalate

instance (agent : Agent) : Decidable agent.Escalates := inferInstanceAs (Decidable (_ ∨ _))

/-- How many restarts are counted for so many deaths, as long as the agent does not escalate. -/
def counts (agent : Agent) (deaths : Nat) : Nat :=
  match agent.config.restartPolicy with
  | .permanent => 0
  | _ => deaths

end Agent

namespace AgentRegistry

/-- The check of `spawn`: the parent has all the children it may have. -/
def childrenFull (r : AgentRegistry) (parentId : Option AgentId) : Bool :=
  match parentId.bind r.get with
  | none => false
  | some parent => parent.config.resourceLimits.maxChildren ≤ parent.children.length

/-- The agent that `spawn` registers. -/
def spawned (parentId : Option AgentId) (config : AgentConfig) (agentId : AgentId) : Agent where
  id := agentId
  config := config
  state := .running
  parent := parentId
  children := []
  restartCount := 0
  maxRestarts := 5

/-- `lifecycle::spawn`, where `agentId` is the id of the task that is created for the agent. -/
def spawn (r : AgentRegistry) (parentId : Option AgentId) (config : AgentConfig)
    (agentId : AgentId) : Except String AgentId × AgentRegistry :=
  if r.childrenFull parentId then (.error "parent has reached max children", r)
  else
    let r := r.register (spawned parentId config agentId)
    let r :=
      match parentId with
      | none => r
      | some parent => r.modify parent (Agent.adopt agentId)
    (.ok agentId, r)

/-- `increment_restart_count`. -/
def incrementRestartCount (r : AgentRegistry) (agentId : AgentId) : AgentRegistry :=
  r.modify agentId (Agent.restarted 1)

/-- Remove an agent from the list of children of its parent. -/
def detach (r : AgentRegistry) (parentId : Option AgentId) (agentId : AgentId) : AgentRegistry :=
  match parentId with
  | none => r
  | some parent => r.modify parent (Agent.forget agentId)

mutual

/-- `lifecycle::kill`. -/
def kill : Nat → AgentRegistry → AgentId → Option (Except String Unit × AgentRegistry)
  | 0, _, _ => none
  | fuel + 1, r, agentId =>
    match r.get agentId with
    | none => some (.error "agent not found", r)
    | some agent => do
      let r := r.modify agentId (Agent.withState .dead)
      -- the list is the one from before; what the deaths of the children do to it is not seen
      let r ← agent.children.foldlM (fun r childId => (kill fuel r childId).map Prod.snd) r
      let r := r.detach agent.parent agentId
      let r := (r.unregister agentId).2
      let r ←
        match agent.parent with
        | none => some r
        | some parent => notifyChildDeath fuel r parent agentId
      some (.ok (), r)
termination_by structural fuel => fuel

/-- `supervisor::notify_child_death`.  Restarting is left to the runtime: it is only counted. -/
def notifyChildDeath : Nat → AgentRegistry → AgentId → AgentId → Option AgentRegistry
  | 0, _, _, _ => none
  | fuel + 1, r, parentId, _deadChildId =>
    match r.get parentId with
    | none => some r
    | some parent =>
      if parent.maxRestarts ≤ parent.restartCount then escalate fuel r parentId
      else
        match parent.config.restartPolicy with
        | .restartOne => some (r.incrementRestartCount parentId)
        | .restartAll => some (r.incrementRestartCount parentId)
        | .escalate => escalate fuel r parentId
        | .permanent => some r
termination_by structural fuel => fuel

/-- `supervisor::escalate`. -/
def escalate : Nat → AgentRegistry → AgentId → Option AgentRegistry
  | 0, _, _ => none
  | fuel + 1, r, agentId => do
    let parent := (r.get agentId).bind Agent.parent
    let (_, r) ← kill fuel r agentId
    match parent with
    | none => some r
    | some grandparent => notifyChildDeath fuel r grandparent agentId
termination_by structural fuel => fuel

end

/-- `lifecycle::suspend`. -/
def suspend (r : AgentRegistry) (agentId : AgentId) : Except String Unit × AgentRegistry :=
  match r.get agentId with
  | none => (.error "agent not found", r)
  | some _ => (.ok (), r.modify agentId (Agent.withState .suspended))

/-- `lifecycle::resume`. -/
def resume (r : AgentRegistry) (agentId : AgentId) : Except String Unit × AgentRegistry :=
  match r.get agentId with
  | none => (.error "agent not found", r)
  | some _ => (.ok (), r.modify agentId (Agent.withState .running))

/-- The report of a death to the parent, if there is one. -/
def notifyParent (fuel : Nat) (r : AgentRegistry) (parentId : Option AgentId) (agentId : AgentId) :
    Option AgentRegistry :=
  match parentId with
  | none => some r
  | some parent => notifyChildDeath fuel r parent agentId

/-- Kill the agents one after the other. -/
def killAll (fuel : Nat) (r : AgentRegistry) (ids : List AgentId) : Option AgentRegistry :=
  ids.foldlM (fun r childId => (kill fuel r childId).map Prod.snd) r

variable {r r' r'' : AgentRegistry} {a p : AgentId} {parentId : Option AgentId} {agent : Agent}
  {ids : List AgentId} {fuel n m : Nat} {result : Except String Unit}

theorem get_detach (r : AgentRegistry) (parentId : Option AgentId) (a x : AgentId) :
    (r.detach parentId a).get x =
      if parentId = some x then (r.get x).map (Agent.forget a) else r.get x := by
  cases parentId with
  | none => rfl
  | some p =>
    rw [detach, get_modify]
    by_cases h : x = p
    · simp [h]
    · simp [h, Ne.symm h]

theorem nameIndex_detach (r : AgentRegistry) (parentId : Option AgentId) (a : AgentId) :
    (r.detach parentId a).nameIndex = r.nameIndex := by
  cases parentId with
  | none => rfl
  | some p => rfl

/-! ## Fuel -/

theorem kill_of_none (h : r.get a = none) :
    kill (fuel + 1) r a = some (.error "agent not found", r) := by
  rw [kill, h]

theorem kill_of_some (h : r.get a = some agent) :
    kill (fuel + 1) r a =
      (killAll fuel (r.modify a (Agent.withState .dead)) agent.children).bind fun r =>
        (notifyParent fuel ((r.detach agent.parent a).unregister a).2 agent.parent a).map
          fun r => (.ok (), r) := by
  rw [kill, h]
  obtain ⟨id, config, state, _ | parent, children, restartCount, maxRestarts⟩ := agent
  · rfl
  · exact congrArg (Option.bind _) (funext fun r => Option.map_eq_bind.symm)

/-- The two parts of a kill that returns. -/
theorem kill_parts (hget : r.get a = some agent) (h : kill (fuel + 1) r a = some (result, r'')) :
    ∃ r', killAll fuel (r.modify a (Agent.withState .dead)) agent.children = some r' ∧
      notifyParent fuel ((r'.detach agent.parent a).unregister a).2 agent.parent a = some r'' := by
  rw [kill_of_some hget, Option.bind_eq_some_iff] at h
  obtain ⟨r', hall, hmap⟩ := h
  obtain ⟨_, hnotify, heq⟩ := Option.map_eq_some_iff.mp hmap
  obtain ⟨-, rfl⟩ := Prod.mk.inj heq
  exact ⟨r', hall, hnotify⟩

theorem escalate_succ : escalate (fuel + 1) r a =
    (kill fuel r a).bind fun x => notifyParent fuel x.2 ((r.get a).bind Agent.parent) a := by
  rw [escalate]
  cases (r.get a).bind Agent.parent with
  | none => rfl
  | some parent => rfl

theorem killAll_cons : killAll fuel r (a :: ids) =
    (kill fuel r a).bind fun x => killAll fuel x.2 ids := by
  rw [killAll, List.foldlM_cons, Option.bind_eq_bind, Option.bind_map]
  rfl

/-- One more unit of fuel changes nothing that has returned. -/
structure FuelStable (fuel : Nat) : Prop where
  kill : ∀ {r a x}, kill fuel r a = some x → AgentRegistry.kill (fuel + 1) r a = some x
  notifyChildDeath : ∀ {r p a x}, notifyChildDeath fuel r p a = some x →
    AgentRegistry.notifyChildDeath (fuel + 1) r p a = some x
  escalate : ∀ {r a x}, escalate fuel r a = some x →
    AgentRegistry.escalate (fuel + 1) r a = some x

theorem FuelStable.notifyParent (h : FuelStable fuel)
    (hr : notifyParent fuel r parentId a = some r') :
    AgentRegistry.notifyParent (fuel + 1) r parentId a = some r' := by
  cases parentId with
  | none => exact hr
  | some parent => exact h.notifyChildDeath hr

theorem FuelStable.killAll (h : FuelStable fuel) (hr : killAll fuel r ids = some r') :
    AgentRegistry.killAll (fuel + 1) r ids = some r' := by
  induction ids generalizing r with
  | nil => exact hr
  | cons a ids ih =>
    rw [killAll_cons, Option.bind_eq_some_iff] at hr ⊢
    obtain ⟨x, hkill, hrest⟩ := hr
    exact ⟨x, h.kill hkill, ih hrest⟩

/-- More fuel gives the same result. -/
theorem fuelStable (fuel : Nat) : FuelStable fuel := by
  induction fuel with
  | zero =>
    refine ⟨fun h => ?_, fun h => ?_, fun h => ?_⟩
    · rw [kill] at h
      cases h
    · rw [notifyChildDeath] at h
      cases h
    · rw [escalate] at h
      cases h
  | succ fuel ih =>
    refine ⟨fun {r a x} h => ?_, fun {r p a x} h => ?_, fun {r a x} h => ?_⟩
    · cases hget : r.get a with
      | none =>
        rw [kill_of_none hget] at h ⊢
        exact h
      | some agent =>
        rw [kill_of_some hget, Option.bind_eq_some_iff] at h ⊢
        obtain ⟨r₁, hall, hnotify⟩ := h
        obtain ⟨r₂, hparent, rfl⟩ := Option.map_eq_some_iff.mp hnotify
        exact ⟨r₁, ih.killAll hall, Option.map_eq_some_iff.mpr ⟨r₂, ih.notifyParent hparent, rfl⟩⟩
    · rw [notifyChildDeath] at h ⊢
      cases hget : r.get p with
      | none =>
        rw [hget] at h
        exact h
      | some parent =>
        rw [hget] at h
        dsimp only at h ⊢
        split at h
        · next hmax =>
          rw [if_pos hmax]
          exact ih.escalate h
        · next hmax =>
          rw [if_neg hmax]
          cases hpolicy : parent.config.restartPolicy with
          | escalate =>
            rw [hpolicy] at h
            exact ih.escalate h
          | restartOne => rwa [hpolicy] at h
          | restartAll => rwa [hpolicy] at h
          | permanent => rwa [hpolicy] at h
    · rw [escalate_succ, Option.bind_eq_some_iff] at h ⊢
      obtain ⟨y, hkill, hnotify⟩ := h
      exact ⟨y, ih.kill hkill, ih.notifyParent hnotify⟩

/-- **Fuel only bounds the calls**: what has returned with some returns the same with more. -/
theorem mono {α : Type} {f : Nat → Option α} (hf : ∀ n x, f n = some x → f (n + 1) = some x)
    (hnm : n ≤ m) {x : α} (h : f n = some x) : f m = some x := by
  induction hnm with
  | refl => exact h
  | step _ ih => exact hf _ x ih

/-- Two calls that return do so with one fuel. -/
theorem exists_fuel {α β : Type} {f : Nat → Option α} {g : Nat → Option β} {x : α} {y : β}
    (hx : ∃ n, f n = some x) (hy : ∃ n, g n = some y)
    (hf : ∀ n x, f n = some x → f (n + 1) = some x)
    (hg : ∀ n y, g n = some y → g (n + 1) = some y) : ∃ n, f n = some x ∧ g n = some y := by
  obtain ⟨n, hn⟩ := hx
  obtain ⟨m, hm⟩ := hy
  exact ⟨max n m, mono hf (Nat.le_max_left n m) hn, mono hg (Nat.le_max_right n m) hm⟩

/-- So a call returns one thing only. -/
theorem eq_of_returns {α : Type} {f : Nat → Option α} {x y : α} (hx : ∃ n, f n = some x)
    (hy : ∃ n, f n = some y) (hf : ∀ n x, f n = some x → f (n + 1) = some x) : x = y := by
  obtain ⟨n, hn, hm⟩ := exists_fuel hx hy hf hf
  exact Option.some.inj (hn.symm.trans hm)

/-! ## Calls that return -/

/-- `kill` returns this. -/
def Kills (r : AgentRegistry) (a : AgentId) (result : Except String Unit) (r' : AgentRegistry) :
    Prop :=
  ∃ fuel, kill fuel r a = some (result, r')

/-- The agents are killed one after the other. -/
def KillsAll (r : AgentRegistry) (ids : List AgentId) (r' : AgentRegistry) : Prop :=
  ∃ fuel, killAll fuel r ids = some r'

/-- `notify_child_death` returns. -/
def Notifies (r : AgentRegistry) (p a : AgentId) (r' : AgentRegistry) : Prop :=
  ∃ fuel, notifyChildDeath fuel r p a = some r'

/-- The report to the parent, if there is one, returns. -/
def NotifiesParent (r : AgentRegistry) (parentId : Option AgentId) (a : AgentId)
    (r' : AgentRegistry) : Prop :=
  ∃ fuel, notifyParent fuel r parentId a = some r'

/-- `escalate` returns. -/
def Escalates (r : AgentRegistry) (a : AgentId) (r' : AgentRegistry) : Prop :=
  ∃ fuel, escalate fuel r a = some r'

/-- A call returns one thing only. -/
theorem Kills.unique {result' : Except String Unit} (h : r.Kills a result r')
    (h' : r.Kills a result' r'') : result = result' ∧ r' = r'' :=
  Prod.mk.inj (eq_of_returns h h' fun n _ => (fuelStable n).kill)

/-- A notification has one result. -/
theorem NotifiesParent.unique (h : r.NotifiesParent parentId a r')
    (h' : r.NotifiesParent parentId a r'') : r' = r'' :=
  eq_of_returns h h' fun n _ => (fuelStable n).notifyParent

theorem kills_of_none (h : r.get a = none) : r.Kills a (.error "agent not found") r :=
  ⟨1, kill_of_none h⟩

theorem notifiesParent_none : r.NotifiesParent none a r := ⟨0, rfl⟩

theorem notifiesParent_some : r.NotifiesParent (some p) a r' ↔ r.Notifies p a r' := Iff.rfl

theorem killsAll_nil : r.KillsAll [] r := ⟨0, rfl⟩

theorem KillsAll.cons (hkill : r.Kills a result r') (hrest : r'.KillsAll ids r'') :
    r.KillsAll (a :: ids) r'' := by
  obtain ⟨n, hfirst, hothers⟩ := exists_fuel hkill hrest (fun n _ => (fuelStable n).kill)
    fun n _ => (fuelStable n).killAll
  refine ⟨n, ?_⟩
  rw [killAll_cons, hfirst]
  exact hothers

/-- Killing a registered agent: its children, then itself, then the report. -/
theorem Kills.intro (hget : r.get a = some agent)
    (hall : (r.modify a (Agent.withState .dead)).KillsAll agent.children r')
    (hnotify : ((r'.detach agent.parent a).unregister a).2.NotifiesParent agent.parent a r'') :
    r.Kills a (.ok ()) r'' := by
  obtain ⟨n, hkids, hreport⟩ := exists_fuel hall hnotify (fun n _ => (fuelStable n).killAll)
    fun n _ => (fuelStable n).notifyParent
  refine ⟨n + 1, ?_⟩
  rw [kill_of_some hget, hkids, Option.bind_some, hreport]
  rfl

/-- And there is no other way. -/
theorem Kills.cases (h : r.Kills a result r'') (hget : r.get a = some agent) :
    ∃ r', (r.modify a (Agent.withState .dead)).KillsAll agent.children r' ∧
      ((r'.detach agent.parent a).unregister a).2.NotifiesParent agent.parent a r'' := by
  obtain ⟨_ | fuel, hkill⟩ := h
  · rw [kill] at hkill
    cases hkill
  · obtain ⟨r', hall, hnotify⟩ := kill_parts hget hkill
    exact ⟨r', ⟨fuel, hall⟩, ⟨fuel, hnotify⟩⟩

theorem Escalates.intro (hget : r.get a = some agent) (hkill : r.Kills a result r')
    (hnotify : r'.NotifiesParent agent.parent a r'') : r.Escalates a r'' := by
  obtain ⟨n, hdeath, hreport⟩ := exists_fuel hkill hnotify (fun n _ => (fuelStable n).kill)
    fun n _ => (fuelStable n).notifyParent
  refine ⟨n + 1, ?_⟩
  rw [escalate_succ, hget, hdeath]
  exact hreport

/-- What the report of a death does: nothing to an agent that is gone, an escalation, or one more
restart. -/
theorem notifies_of_none (h : r.get p = none) : r.Notifies p a r := by
  refine ⟨1, ?_⟩
  rw [notifyChildDeath, h]

theorem notifyChildDeath_of_escalates (hget : r.get p = some agent) (hesc : agent.Escalates) :
    notifyChildDeath (fuel + 1) r p a = escalate fuel r p := by
  rw [notifyChildDeath, hget]
  dsimp only
  split
  · rfl
  · next hmax => rw [hesc.resolve_left hmax]

/-- A parent out of restarts is killed itself. -/
theorem Notifies.of_escalates (hget : r.get p = some agent) (hesc : agent.Escalates)
    (h : r.Escalates p r') : r.Notifies p a r' := by
  obtain ⟨n, hn⟩ := h
  exact ⟨n + 1, (notifyChildDeath_of_escalates hget hesc).trans hn⟩

/-- A parent with restarts left counts the death. -/
theorem notifies_of_not_escalates (hget : r.get p = some agent) (hesc : ¬agent.Escalates) :
    r.Notifies p a (r.modify p (Agent.restarted (agent.counts 1))) := by
  refine ⟨1, ?_⟩
  rw [Agent.Escalates, not_or] at hesc
  rw [notifyChildDeath, hget]
  dsimp only
  rw [if_neg hesc.1]
  cases hpolicy : agent.config.restartPolicy with
  | restartOne => rw [Agent.counts, hpolicy]; rfl
  | restartAll => rw [Agent.counts, hpolicy]; rfl
  | escalate => exact absurd hpolicy hesc.2
  | permanent =>
    rw [Agent.counts, hpolicy]
    refine congrArg some (modify_of_eq fun agent _ => rfl).symm

/-! ## What the calls keep -/

/-- A relation between registries before and after that no part of a call breaks.  A death is one
part: while it lasts the agent is marked dead, and in the end it is unregistered. -/
structure Respected (R : AgentRegistry → AgentRegistry → Prop) : Prop where
  refl : ∀ r, R r r
  trans : ∀ {r r' r''}, R r r' → R r' r'' → R r r''
  detach : ∀ r parentId a, R r (r.detach parentId a)
  restart : ∀ r a, R r (r.incrementRestartCount a)
  death : ∀ {r r' a}, R (r.modify a (Agent.withState .dead)) r' → R r (r'.unregister a).2

/-- Whatever returns with this fuel respects the relation. -/
structure FuelRespects (R : AgentRegistry → AgentRegistry → Prop) (fuel : Nat) : Prop where
  kill : ∀ {r a result r'}, kill fuel r a = some (result, r') → R r r'
  notifyChildDeath : ∀ {r p a r'}, notifyChildDeath fuel r p a = some r' → R r r'
  escalate : ∀ {r a r'}, escalate fuel r a = some r' → R r r'

section Respected

variable {R : AgentRegistry → AgentRegistry → Prop}

theorem FuelRespects.notifyParent (hR : Respected R) (h : FuelRespects R fuel)
    (hr : notifyParent fuel r parentId a = some r') : R r r' := by
  cases parentId with
  | none =>
    obtain rfl := Option.some.inj hr
    exact hR.refl r
  | some parent => exact h.notifyChildDeath hr

theorem FuelRespects.killAll (hR : Respected R) (h : FuelRespects R fuel)
    (hr : killAll fuel r ids = some r') : R r r' := by
  induction ids generalizing r with
  | nil =>
    obtain rfl := Option.some.inj hr
    exact hR.refl r
  | cons a ids ih =>
    rw [killAll_cons, Option.bind_eq_some_iff] at hr
    obtain ⟨⟨result, r₁⟩, hkill, hrest⟩ := hr
    exact hR.trans (h.kill hkill) (ih hrest)

/-- The calls respect whatever their parts do. -/
theorem fuelRespects (hR : Respected R) (fuel : Nat) : FuelRespects R fuel := by
  induction fuel with
  | zero =>
    refine ⟨fun h => ?_, fun h => ?_, fun h => ?_⟩
    · rw [kill] at h
      cases h
    · rw [notifyChildDeath] at h
      cases h
    · rw [escalate] at h
      cases h
  | succ fuel ih =>
    refine ⟨fun {r a result r'} h => ?_, fun {r p a r'} h => ?_, fun {r a r'} h => ?_⟩
    · cases hget : r.get a with
      | none =>
        rw [kill_of_none hget] at h
        obtain ⟨-, rfl⟩ := Prod.mk.inj (Option.some.inj h)
        exact hR.refl r
      | some agent =>
        obtain ⟨r₁, hall, hnotify⟩ := kill_parts hget h
        have hdeath : R r ((r₁.detach agent.parent a).unregister a).2 :=
          hR.death (hR.trans (ih.killAll hR hall) (hR.detach r₁ agent.parent a))
        exact hR.trans hdeath (ih.notifyParent hR hnotify)
    · rw [notifyChildDeath] at h
      split at h
      · obtain rfl := Option.some.inj h
        exact hR.refl r
      · split at h
        · exact ih.escalate h
        · split at h
          · obtain rfl := Option.some.inj h
            exact hR.restart r p
          · obtain rfl := Option.some.inj h
            exact hR.restart r p
          · exact ih.escalate h
          · obtain rfl := Option.some.inj h
            exact hR.refl r
    · rw [escalate_succ, Option.bind_eq_some_iff] at h
      obtain ⟨⟨result, r₁⟩, hkill, hnotify⟩ := h
      exact hR.trans (ih.kill hkill) (ih.notifyParent hR hnotify)

/-- What every change respects, a kill respects. -/
theorem Kills.respects (h : r.Kills a result r') (hR : Respected R) : R r r' := by
  obtain ⟨fuel, hkill⟩ := h
  exact (fuelRespects hR fuel).kill hkill

end Respected

/-! ## Calls only shrink the registry -/

theorem tracks_detach {P : Agent → Agent → Prop} (hP : ∀ agent, P agent agent)
    (hforget : ∀ agent, P agent (agent.forget a)) (r : AgentRegistry) (parentId : Option AgentId) :
    Tracks P r (r.detach parentId a) := by
  cases parentId with
  | none => exact .refl hP r
  | some parent => exact tracks_modify hP hforget r parent

theorem shrinks_detach (r : AgentRegistry) (parentId : Option AgentId) (a : AgentId) :
    r.Shrinks (r.detach parentId a) :=
  tracks_detach .refl (fun agent => agent.covers_forget a) r parentId

theorem respected_shrinks : Respected Shrinks where
  refl := .refl
  trans := .trans
  detach := shrinks_detach
  restart _ a := shrinks_modify (Agent.inner_restarted 1).covers a
  death {r r' a} h := by
    have hdead : r.Shrinks (r.modify a (Agent.withState .dead)) :=
      shrinks_modify (Agent.inner_withState .dead).covers a
    exact (hdead.trans h).trans (shrinks_unregister r' a)

theorem shrinks_of_notifyParent (hr : notifyParent fuel r parentId a = some r') : r.Shrinks r' :=
  (fuelRespects respected_shrinks fuel).notifyParent respected_shrinks hr

theorem Kills.shrinks (h : r.Kills a result r') : r.Shrinks r' := h.respects respected_shrinks

theorem NotifiesParent.shrinks (h : r.NotifiesParent parentId a r') : r.Shrinks r' := by
  obtain ⟨fuel, hnotify⟩ := h
  exact shrinks_of_notifyParent hnotify

/-- Whoever is killed is gone. -/
theorem Kills.get_eq_none (h : r.Kills a result r') : r'.get a = none := by
  cases hget : r.get a with
  | none => exact h.shrinks.get_eq_none hget
  | some agent =>
    obtain ⟨r₁, -, hnotify⟩ := h.cases hget
    apply hnotify.shrinks.get_eq_none
    rw [get_unregister, if_pos rfl]

/-! ## Calls leave the states of the others -/

/-- Every agent that is left is in the state it was in. -/
def KeepsStates (r r' : AgentRegistry) : Prop :=
  Tracks (fun agent agent' => agent'.state = agent.state) r r'

theorem respected_keepsStates : Respected KeepsStates where
  refl := Tracks.refl fun _ => rfl
  trans := Tracks.trans fun hstate hstate' => hstate'.trans hstate
  detach r parentId _ := tracks_detach (P := fun agent agent' => agent'.state = agent.state)
    (fun _ => rfl) (fun _ => rfl) r parentId
  restart := tracks_modify (fun _ => rfl) fun _ => rfl
  death {r r' a} h x agent' hget := by
    rw [get_unregister] at hget
    split_ifs at hget with hx
    obtain ⟨agent, hagent, hstate⟩ := h x agent' hget
    rw [get_modify, if_neg hx] at hagent
    exact ⟨agent, hagent, hstate⟩

theorem Kills.keepsStates (h : r.Kills a result r') : r.KeepsStates r' :=
  h.respects respected_keepsStates

/-- An agent that escalates at the report of a death is gone afterwards. -/
theorem Notifies.get_eq_none (h : r.Notifies p a r') (hget : r.get p = some agent)
    (hesc : agent.Escalates) : r'.get p = none := by
  obtain ⟨_ | _ | fuel, hnotify⟩ := h
  · rw [notifyChildDeath] at hnotify
    cases hnotify
  · rw [notifyChildDeath_of_escalates hget hesc, escalate] at hnotify
    cases hnotify
  · rw [notifyChildDeath_of_escalates hget hesc, escalate_succ, Option.bind_eq_some_iff] at hnotify
    obtain ⟨⟨result, r₁⟩, hkill, hup⟩ := hnotify
    have hkills : r.Kills p result r₁ := ⟨fuel, hkill⟩
    exact (shrinks_of_notifyParent hup).get_eq_none hkills.get_eq_none

end AgentRegistry

/-! ## Any calls -/

/-- The calls on the agents. -/
inductive AgentOp
  | spawn (agentId : AgentId) (parentId : Option AgentId) (config : AgentConfig)
  | kill (agentId : AgentId)
  | suspend (agentId : AgentId)
  | resume (agentId : AgentId)

namespace AgentRegistry

/-- What a call leaves.  The id of a new agent is not in use, and its parent is registered. -/
inductive Step (r : AgentRegistry) : AgentOp → AgentRegistry → Prop
  | spawn (agentId : AgentId) (parentId : Option AgentId) (config : AgentConfig)
      (hfresh : r.get agentId = none) (hparent : ∀ p ∈ parentId, (r.get p).isSome) :
      Step r (.spawn agentId parentId config) (r.spawn parentId config agentId).2
  | kill {agentId : AgentId} {result : Except String Unit} {r' : AgentRegistry}
      (h : r.Kills agentId result r') : Step r (.kill agentId) r'
  | suspend (agentId : AgentId) : Step r (.suspend agentId) (r.suspend agentId).2
  | resume (agentId : AgentId) : Step r (.resume agentId) (r.resume agentId).2

/-- Any calls on an empty registry. -/
def system : TransitionSystem AgentRegistry AgentOp where
  Init r := r = new
  Step := Step

/-- Run a call, if it is one of the system's; `none` also if the fuel runs out. -/
def exec (fuel : Nat) (r : AgentRegistry) : AgentOp → Option AgentRegistry
  | .spawn agentId parentId config =>
    if (r.get agentId).isNone ∧ parentId.all fun p => (r.get p).isSome then
      some (r.spawn parentId config agentId).2
    else none
  | .kill agentId => (kill fuel r agentId).map Prod.snd
  | .suspend agentId => some (r.suspend agentId).2
  | .resume agentId => some (r.resume agentId).2

/-- An execution with enough fuel is a step. -/
theorem step_of_exec {op : AgentOp} (h : exec fuel r op = some r') : r.Step op r' := by
  cases op with
  | spawn agentId parentId config =>
    rw [exec] at h
    split_ifs at h with hok
    obtain rfl := Option.some.inj h
    refine .spawn agentId parentId config (Option.isNone_iff_eq_none.mp hok.1) fun p hp => ?_
    obtain rfl := hp
    exact hok.2
  | kill agentId =>
    obtain ⟨⟨result, r''⟩, hkill, rfl⟩ := Option.map_eq_some_iff.mp h
    exact .kill ⟨fuel, hkill⟩
  | suspend agentId =>
    obtain rfl := Option.some.inj h
    exact .suspend agentId
  | resume agentId =>
    obtain rfl := Option.some.inj h
    exact .resume agentId

theorem reachable_of_exec {ops : List AgentOp} (h : ops.foldlM (exec fuel) new = some r) :
    system.Reachable r := by
  have hrun : (TransitionSystem.ofPartial new (exec fuel)).Run new ops r :=
    TransitionSystem.run_ofPartial_iff.mpr h
  exact ⟨new, ops, rfl, hrun.imp fun _ _ _ hstep => step_of_exec hstep⟩

end AgentRegistry

end OxideOS
