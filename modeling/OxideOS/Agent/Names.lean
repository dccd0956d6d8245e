import OxideOS.Agent.Registry
import OxideOS.Lib.TransitionSystem

/-!
# Looking agents up by name

`find_by_name` reads an index from names to ids, which `register` and `unregister` keep beside the
agents.  Two agents may bear one name; the index then has the one that was registered last.  When
either of the two is unregistered the name goes from the index, and the other is no longer found
although it is still registered.

## Main definitions

* `AgentRegistry.findByName`
* `AgentRegistry.Bears`: an agent is registered and has the name
* `AgentRegistry.NamesResolve`: exactly the names of registered agents are found, with their agents
* `AgentRegistry.SparesNames`: a call that unregisters nobody whose name another agent bears

## Main results

* `AgentRegistry.findsBearers_of_reachable`: whoever is found is registered and has the name
* `AgentRegistry.names_resolve`: runs that spare names keep them resolved, and no other call does
* `AgentRegistry.name_lost`: of two agents with one name, one is unregistered
-/

namespace OxideOS

/-- The calls that keep the registry and its index. -/
inductive RegistryOp
  | register (agent : Agent)
  | unregister (agentId : AgentId)

namespace AgentRegistry

/-- `find_by_name`. -/
def findByName (r : AgentRegistry) (name : String) : Option AgentId := r.nameIndex[name]?

/-- The agent is registered and has the name. -/
def Bears (r : AgentRegistry) (x : AgentId) (name : String) : Prop :=
  ∃ agent, r.get x = some agent ∧ agent.config.name = name

/-- The registry after a call.  The id of an agent that is registered is not in use. -/
def registryStep (r : AgentRegistry) : RegistryOp → Option AgentRegistry
  | .register agent => if (r.get agent.id).isNone then some (r.register agent) else none
  | .unregister agentId => some (r.unregister agentId).2

/-- Any calls of `register` and `unregister` on an empty registry. -/
def registrySystem : TransitionSystem AgentRegistry RegistryOp := .ofPartial new registryStep

/-- Whoever is found under a name is registered and has it. -/
def FindsBearers (r : AgentRegistry) : Prop :=
  ∀ name x, r.findByName name = some x → r.Bears x name

/-- A name is found exactly if a registered agent has it, and then such an agent is found. -/
def NamesResolve (r : AgentRegistry) : Prop :=
  ∀ name, ((r.findByName name).isSome ↔ ∃ x, r.Bears x name) ∧
    ∀ x, r.findByName name = some x → r.Bears x name

/-- The call unregisters nobody whose name another agent bears. -/
def SparesNames (r : AgentRegistry) : RegistryOp → Prop
  | .register _ => True
  | .unregister agentId => ∀ name, r.Bears agentId name → ∀ x, r.Bears x name → x = agentId

variable {r r' : AgentRegistry} {a x : AgentId} {agent : Agent} {name : String} {op : RegistryOp}

/-! ## The index after a call -/

theorem findByName_register (r : AgentRegistry) (agent : Agent) (name : String) :
    (r.register agent).findByName name =
      if name = agent.config.name then some agent.id else r.findByName name :=
  Std.ExtTreeMap.getElem?_insert_eq_ite r.nameIndex agent.config.name name agent.id

theorem findByName_unregister (hget : r.get a = some agent) (name : String) :
    (r.unregister a).2.findByName name =
      if name = agent.config.name then none else r.findByName name := by
  rw [findByName, nameIndex_unregister, hget]
  dsimp only
  rw [Std.ExtTreeMap.getElem?_erase]
  by_cases h : name = agent.config.name
  · simp [h]
  · simp [h, Ne.symm h, findByName]

theorem bears_register (hfresh : r.get agent.id = none) :
    (r.register agent).Bears x name ↔
      (x = agent.id ∧ agent.config.name = name) ∨ r.Bears x name := by
  rw [Bears, Bears, get_register]
  by_cases h : x = agent.id
  · subst h
    simp [hfresh]
  · simp [h]

theorem bears_unregister : (r.unregister a).2.Bears x name ↔ x ≠ a ∧ r.Bears x name := by
  rw [Bears, Bears, get_unregister]
  by_cases h : x = a
  · simp [h]
  · simp [h]

/-! ## Every run -/

theorem FindsBearers.register (h : r.FindsBearers) (hfresh : r.get agent.id = none) :
    (r.register agent).FindsBearers := by
  intro name x hx
  rw [findByName_register] at hx
  rw [bears_register hfresh]
  split_ifs at hx with hname
  · exact .inl ⟨(Option.some.inj hx).symm, hname.symm⟩
  · exact .inr (h name x hx)

theorem FindsBearers.unregister (h : r.FindsBearers) (hget : r.get a = some agent) :
    (r.unregister a).2.FindsBearers := by
  intro name x hx
  rw [findByName_unregister hget] at hx
  split_ifs at hx with hname
  have hbears := h name x hx
  refine bears_unregister.mpr ⟨?_, hbears⟩
  rintro rfl
  obtain ⟨agent', hget', hname'⟩ := hbears
  obtain rfl := Option.some.inj (hget.symm.trans hget')
  exact hname hname'.symm

/-- What a call does: it registers a new agent, or unregisters one, or finds nobody to
unregister. -/
theorem registryStep_cases (h : r.registryStep op = some r') :
    (∃ agent, op = .register agent ∧ r.get agent.id = none ∧ r' = r.register agent) ∨
      ∃ a, op = .unregister a ∧ ((r.get a = none ∧ r' = r) ∨
        ∃ agent, r.get a = some agent ∧ r' = (r.unregister a).2) := by
  cases op with
  | register agent =>
    rw [registryStep] at h
    split_ifs at h with hfresh
    exact .inl ⟨agent, rfl, Option.isNone_iff_eq_none.mp hfresh, (Option.some.inj h).symm⟩
  | unregister a =>
    obtain rfl := Option.some.inj h
    refine .inr ⟨a, rfl, ?_⟩
    cases hget : r.get a with
    | none => exact .inl ⟨rfl, unregister_of_none hget⟩
    | some agent => exact .inr ⟨agent, rfl, rfl⟩

theorem findsBearers_invariant : registrySystem.Invariant FindsBearers where
  init := by
    rintro r rfl name x hx
    simp [findByName, new] at hx
  step := by
    intro r op r' hr hstep
    rcases registryStep_cases hstep with ⟨agent, -, hfresh, rfl⟩ |
      ⟨a, -, ⟨-, rfl⟩ | ⟨agent, hget, rfl⟩⟩
    · exact hr.register hfresh
    · exact hr
    · exact hr.unregister hget

/-- **Whoever is found is registered and has the name**, also where names are shared. -/
theorem findsBearers_of_reachable (h : registrySystem.Reachable r) : r.FindsBearers :=
  findsBearers_invariant.of_reachable h

/-! ## Names that are found -/

/-- What is left to show: the names of registered agents are found. -/
theorem FindsBearers.namesResolve_iff (h : r.FindsBearers) :
    r.NamesResolve ↔ ∀ x name, r.Bears x name → (r.findByName name).isSome := by
  constructor
  · intro hr x name hx
    exact (hr name).1.mpr ⟨x, hx⟩
  · intro hr name
    refine ⟨⟨fun hsome => ?_, ?_⟩, h name⟩
    · obtain ⟨x, hx⟩ := Option.isSome_iff_exists.mp hsome
      exact ⟨x, h name x hx⟩
    · rintro ⟨x, hx⟩
      exact hr x name hx

theorem NamesResolve.register (hr : r.NamesResolve) (h : r.FindsBearers)
    (hfresh : r.get agent.id = none) : (r.register agent).NamesResolve := by
  rw [(h.register hfresh).namesResolve_iff]
  intro x name hx
  rw [findByName_register]
  split_ifs with hname
  · rfl
  · rcases (bears_register hfresh).mp hx with ⟨-, rfl⟩ | hx
    · exact absurd rfl hname
    · exact (hr name).1.mpr ⟨x, hx⟩

/-- The name of an agent that goes is not found any more; so nobody else may have it. -/
theorem NamesResolve.unregister_iff (hr : r.NamesResolve) (h : r.FindsBearers)
    (hget : r.get a = some agent) :
    (r.unregister a).2.NamesResolve ↔ ∀ x, r.Bears x agent.config.name → x = a := by
  rw [(h.unregister hget).namesResolve_iff]
  constructor
  · intro hr' x hx
    by_contra hne
    have hsome := hr' x agent.config.name (bears_unregister.mpr ⟨hne, hx⟩)
    rw [findByName_unregister hget, if_pos rfl] at hsome
    cases hsome
  · intro hsole x name hx
    obtain ⟨hne, hx⟩ := bears_unregister.mp hx
    have hname : name ≠ agent.config.name := by
      rintro rfl
      exact hne (hsole x hx)
    rw [findByName_unregister hget, if_neg hname]
    exact (hr name).1.mpr ⟨x, hx⟩

/-- **A call keeps the names resolved if and only if it spares them.** -/
theorem NamesResolve.step_iff (hr : r.NamesResolve) (h : r.FindsBearers)
    (hstep : r.registryStep op = some r') : r'.NamesResolve ↔ r.SparesNames op := by
  rcases registryStep_cases hstep with ⟨agent, rfl, hfresh, rfl⟩ |
    ⟨a, rfl, ⟨hget, rfl⟩ | ⟨agent, hget, rfl⟩⟩
  · exact iff_of_true (hr.register h hfresh) trivial
  · refine iff_of_true hr ?_
    rintro name ⟨agent, hsome, -⟩
    rw [hget] at hsome
    cases hsome
  · rw [hr.unregister_iff h hget]
    constructor
    · rintro hsole name ⟨agent', hget', rfl⟩
      obtain rfl := Option.some.inj (hget.symm.trans hget')
      exact hsole
    · exact fun hspares => hspares agent.config.name ⟨agent, hget, rfl⟩

theorem namesResolve_invariant :
    (registrySystem.restrict SparesNames).Invariant fun r => r.FindsBearers ∧ r.NamesResolve where
  init := by
    rintro r rfl
    refine ⟨findsBearers_of_reachable (.init rfl), fun name => ⟨?_, fun x hx => ?_⟩⟩
    · simp [findByName, Bears, new, get]
    · simp [findByName, new] at hx
  step r op r' hr hstep :=
    ⟨findsBearers_invariant.step r op r' hr.1 hstep.1, (hr.2.step_iff hr.1 hstep.1).mpr hstep.2⟩

/-- **Names resolve** as long as nobody is unregistered whose name another agent bears, and such a
call leaves a registered agent that is not found. -/
theorem names_resolve (h : (registrySystem.restrict SparesNames).Reachable r) :
    r.NamesResolve ∧
      ∀ op r', r.registryStep op = some r' → (r'.NamesResolve ↔ r.SparesNames op) := by
  obtain ⟨hfinds, hr⟩ := namesResolve_invariant.of_reachable h
  exact ⟨hr, fun op r' hstep => hr.step_iff hfinds hstep⟩

/-- An agent without a parent. -/
def named (id : AgentId) (name : String) : Agent :=
  ⟨id, ⟨name, .permanent, ⟨8⟩⟩, .running, none, [], 0, 5⟩

/-- Registering spares the names. -/
theorem reachable_register (h : (registrySystem.restrict SparesNames).Reachable r)
    (hfresh : r.get agent.id = none) :
    (registrySystem.restrict SparesNames).Reachable (r.register agent) := by
  refine h.step (i := .register agent) ⟨?_, trivial⟩
  show r.registryStep (.register agent) = some (r.register agent)
  rw [registryStep, hfresh]
  rfl

/-- Two agents with names of their own, of which one is unregistered. -/
theorem names_resolve_run : ∃ r, (registrySystem.restrict SparesNames).Reachable r ∧
    r.findByName "log" = some 2 ∧ r.NamesResolve := by
  have hboth : (registrySystem.restrict SparesNames).Reachable
      ((new.register (named 1 "root")).register (named 2 "log")) :=
    reachable_register (reachable_register (.init rfl) get_new) (by decide +kernel)
  have hspares : SparesNames ((new.register (named 1 "root")).register (named 2 "log"))
      (.unregister 1) := by
    intro name hname x hx
    obtain rfl : name = "root" := by simpa [Bears, get_register, named, eq_comm] using hname
    by_contra hne
    simp [Bears, get_register, named, hne] at hx
  have hlast : (registrySystem.restrict SparesNames).Reachable
      ((new.register (named 1 "root")).register (named 2 "log") |>.unregister 1).2 :=
    hboth.step (i := .unregister 1) ⟨rfl, hspares⟩
  exact ⟨_, hlast, by decide +kernel, (names_resolve hlast).1⟩

/-- **A name is lost.**  Agents 1 and 2 have the same name; when agent 2 is unregistered, agent 1 is
not found either. -/
theorem name_lost : ∃ r, registrySystem.Reachable r ∧ r.Bears 1 "worker" ∧
    r.findByName "worker" = none ∧ ¬r.NamesResolve := by
  have hrun : ([.register (named 1 "worker"), .register (named 2 "worker"),
      .unregister 2] : List RegistryOp).foldlM registryStep new =
        some ((new.register (named 1 "worker")).register (named 2 "worker") |>.unregister 2).2 := by
    rfl
  have hbears :
      (((new.register (named 1 "worker")).register (named 2 "worker")).unregister 2).2.Bears 1
        "worker" := ⟨named 1 "worker", by decide +kernel, rfl⟩
  refine ⟨_, TransitionSystem.reachable_ofPartial_iff.mpr ⟨_, hrun⟩, hbears, by decide +kernel, ?_⟩
  intro hr
  have hsome := (hr "worker").1.mpr ⟨1, hbears⟩
  revert hsome
  decide +kernel

end AgentRegistry

end OxideOS
