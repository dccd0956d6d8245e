import OxideOS.Basic
import OxideOS.Lib.OrderedMap

/-!
# The agent registry

`agent/mod.rs` and `agent/registry.rs`.  An agent is a task with a place in a tree: it names its
parent and lists its children.  The registry keeps the agents by id, and their ids by name.

An agent's prompt, model, tools, capabilities and memory limit are carried along by the source and
read by nothing here.

## Main definitions

* `Agent`, `AgentRegistry`
* `AgentRegistry.register`, `AgentRegistry.unregister`, `AgentRegistry.get`, `AgentRegistry.modify`
* `AgentRegistry.drop`: take an agent out of the registry and out of all lists of children

## Main results

* `AgentRegistry.drop_modify_self`, `AgentRegistry.drop_modify_of_ne`: what is changed inside an
  agent does not outlive it, and does not depend on the other agents
-/

namespace OxideOS

inductive AgentState
  | initializing
  | running
  | waiting
  | suspended
  | dead
deriving DecidableEq

inductive RestartPolicy
  | restartOne
  | restartAll
  | escalate
  | permanent
deriving DecidableEq

structure ResourceLimits where
  maxChildren : Nat
deriving DecidableEq

structure AgentConfig where
  name : String
  restartPolicy : RestartPolicy
  resourceLimits : ResourceLimits
deriving DecidableEq

structure Agent where
  id : AgentId
  config : AgentConfig
  state : AgentState
  parent : Option AgentId
  children : List AgentId
  restartCount : Nat
  maxRestarts : Nat
deriving DecidableEq

namespace Agent

/-- The agent in another state. -/
def withState (state : AgentState) (agent : Agent) : Agent := { agent with state }

/-- The agent after so many more restarts. -/
def restarted (n : Nat) (agent : Agent) : Agent :=
  { agent with restartCount := agent.restartCount + n }

/-- The agent with one more child: `children.push(child)`. -/
def adopt (child : AgentId) (agent : Agent) : Agent :=
  { agent with children := agent.children ++ [child] }

/-- The agent without a child: `children.retain(|&id| id != child)`. -/
def forget (child : AgentId) (agent : Agent) : Agent :=
  { agent with children := agent.children.filter (· ≠ child) }

theorem forget_of_notMem {agent : Agent} {child : AgentId} (h : child ∉ agent.children) :
    agent.forget child = agent := by
  have hfilter : agent.children.filter (· ≠ child) = agent.children := by
    rw [List.filter_eq_self]
    intro c hc
    rw [decide_eq_true_eq]
    rintro rfl
    exact h hc
  rw [forget, hfilter]

theorem forget_forget (agent : Agent) (a b : AgentId) :
    (agent.forget a).forget b = (agent.forget b).forget a := by
  simp only [forget, List.filter_filter, Bool.and_comm]

/-- The agent without the children in the list. -/
def forgetAll (ids : List AgentId) (agent : Agent) : Agent :=
  { agent with children := agent.children.filter (· ∉ ids) }

theorem forgetAll_forget (agent : Agent) (child : AgentId) (ids : List AgentId) :
    (agent.forget child).forgetAll ids = agent.forgetAll (child :: ids) := by
  have hfilter : (agent.children.filter (· ≠ child)).filter (· ∉ ids) =
      agent.children.filter (· ∉ child :: ids) := by
    rw [List.filter_filter]
    refine List.filter_congr fun c _ => ?_
    simp [Bool.and_comm]
  rw [forgetAll, forgetAll, ← hfilter]
  rfl

/-- A change inside an agent: of its state and its restarts only. -/
structure Inner (f : Agent → Agent) : Prop where
  id : ∀ agent, (f agent).id = agent.id
  config : ∀ agent, (f agent).config = agent.config
  parent : ∀ agent, (f agent).parent = agent.parent
  children : ∀ agent, (f agent).children = agent.children
  maxRestarts : ∀ agent, (f agent).maxRestarts = agent.maxRestarts
  forget : ∀ agent child, f (agent.forget child) = (f agent).forget child

theorem inner_withState (state : AgentState) : Inner (withState state) :=
  ⟨fun _ => rfl, fun _ => rfl, fun _ => rfl, fun _ => rfl, fun _ => rfl, fun _ _ => rfl⟩

theorem inner_restarted (n : Nat) : Inner (restarted n) :=
  ⟨fun _ => rfl, fun _ => rfl, fun _ => rfl, fun _ => rfl, fun _ => rfl, fun _ _ => rfl⟩

/-- The other is the same agent but for its state and its restarts, with the same children or
fewer. -/
structure Covers (agent agent' : Agent) : Prop where
  id : agent'.id = agent.id
  config : agent'.config = agent.config
  parent : agent'.parent = agent.parent
  maxRestarts : agent'.maxRestarts = agent.maxRestarts
  children : agent'.children.Sublist agent.children

theorem Covers.refl (agent : Agent) : agent.Covers agent := ⟨rfl, rfl, rfl, rfl, .refl _⟩

theorem Covers.trans {agent agent' agent'' : Agent} (h : agent.Covers agent')
    (h' : agent'.Covers agent'') : agent.Covers agent'' :=
  ⟨h'.id.trans h.id, h'.config.trans h.config, h'.parent.trans h.parent,
    h'.maxRestarts.trans h.maxRestarts, h'.children.trans h.children⟩

theorem Inner.covers {f : Agent → Agent} (hf : Inner f) (agent : Agent) : agent.Covers (f agent) :=
  ⟨hf.id agent, hf.config agent, hf.parent agent, hf.maxRestarts agent,
    (hf.children agent).symm ▸ .refl _⟩

theorem covers_forget (agent : Agent) (child : AgentId) : agent.Covers (agent.forget child) :=
  ⟨rfl, rfl, rfl, rfl, List.filter_sublist⟩

end Agent

@[ext]
structure AgentRegistry where
  agents : BTreeMap AgentId Agent
  nameIndex : BTreeMap String AgentId

namespace AgentRegistry

/-- `AgentRegistry::new`. -/
def new : AgentRegistry := ⟨∅, ∅⟩

def register (r : AgentRegistry) (agent : Agent) : AgentRegistry where
  agents := r.agents.insert agent.id agent
  nameIndex := r.nameIndex.insert agent.config.name agent.id

def unregister (r : AgentRegistry) (id : AgentId) : Option Agent × AgentRegistry :=
  match r.agents[id]? with
  | none => (none, r)
  | some agent => (some agent, ⟨r.agents.erase id, r.nameIndex.erase agent.config.name⟩)

def get (r : AgentRegistry) (id : AgentId) : Option Agent := r.agents[id]?

/-- `if let Some(agent) = registry.get_mut(id)`, and a change of the agent. -/
def modify (r : AgentRegistry) (id : AgentId) (f : Agent → Agent) : AgentRegistry :=
  { r with agents := r.agents.modify id f }

/-- Unregister an agent and take it out of all lists of children. -/
def drop (r : AgentRegistry) (id : AgentId) : AgentRegistry :=
  { (r.unregister id).2 with
    agents := (r.unregister id).2.agents.map fun _ agent => agent.forget id }

/-- Drop agents one after the other. -/
def dropAll (r : AgentRegistry) (ids : List AgentId) : AgentRegistry := ids.foldl drop r

variable {r : AgentRegistry} {a b x : AgentId} {agent : Agent} {f g : Agent → Agent}
  {ids : List AgentId}

/-! ## Looking agents up -/

@[simp] theorem get_new : new.get x = none := by simp [new, get]

theorem get_register (r : AgentRegistry) (agent : Agent) (x : AgentId) :
    (r.register agent).get x = if x = agent.id then some agent else r.get x := by
  rw [get, register, Std.ExtTreeMap.getElem?_insert]
  by_cases h : x = agent.id
  · simp [h]
  · simp [h, Ne.symm h, get]

/-- Only the modified agent changes. -/
theorem get_modify (r : AgentRegistry) (a x : AgentId) (f : Agent → Agent) :
    (r.modify a f).get x = if x = a then (r.get x).map f else r.get x := by
  rw [get, modify, Std.ExtTreeMap.getElem?_modify]
  by_cases h : x = a
  · simp [h, get]
  · simp [h, Ne.symm h, get]

/-- Only the unregistered agent is lost. -/
theorem get_unregister (r : AgentRegistry) (a x : AgentId) :
    (r.unregister a).2.get x = if x = a then none else r.get x := by
  rw [unregister]
  split
  · next hnone =>
    by_cases h : x = a
    · simp [h, get, hnone]
    · simp [h]
  · by_cases h : x = a
    · simp [h, get]
    · simp [h, Ne.symm h, get, Std.ExtTreeMap.getElem?_erase]

theorem unregister_of_none (h : r.get a = none) : (r.unregister a).2 = r := by
  have hnone : r.agents[a]? = none := h
  rw [unregister, hnone]

/-- A dropped agent is lost and forgotten by all others. -/
theorem get_drop (r : AgentRegistry) (a x : AgentId) :
    (r.drop a).get x = if x = a then none else (r.get x).map (Agent.forget a) := by
  have hget : (r.drop a).get x = ((r.unregister a).2.get x).map (Agent.forget a) := by
    rw [get, drop, Std.ExtTreeMap.getElem?_map]
    rfl
  rw [hget, get_unregister]
  split
  · rfl
  · rfl

theorem nameIndex_unregister (r : AgentRegistry) (a : AgentId) :
    (r.unregister a).2.nameIndex =
      match r.get a with
      | none => r.nameIndex
      | some agent => r.nameIndex.erase agent.config.name := by
  rw [get, unregister]
  cases r.agents[a]? with
  | none => rfl
  | some agent => rfl

theorem nameIndex_drop (r : AgentRegistry) (a : AgentId) :
    (r.drop a).nameIndex =
      match r.get a with
      | none => r.nameIndex
      | some agent => r.nameIndex.erase agent.config.name :=
  nameIndex_unregister r a

/-- Two registries with the same agents and the same names are the same. -/
theorem ext_get {r' : AgentRegistry} (hget : ∀ x, r.get x = r'.get x)
    (hname : r.nameIndex = r'.nameIndex) : r = r' :=
  AgentRegistry.ext (Std.ExtTreeMap.ext_getElem? fun {x} => hget x) hname

/-! ## Changes inside agents, and dropping them -/

theorem modify_of_eq (h : ∀ agent, r.get a = some agent → f agent = agent) : r.modify a f = r := by
  refine ext_get (fun x => ?_) rfl
  rw [get_modify]
  split
  · next heq =>
    subst heq
    cases hget : r.get x with
    | none => rfl
    | some agent => rw [Option.map_some, h agent hget]
  · rfl

theorem modify_modify (r : AgentRegistry) (a : AgentId) (f g : Agent → Agent) :
    (r.modify a f).modify a g = r.modify a (g ∘ f) := by
  refine ext_get (fun x => ?_) rfl
  simp only [get_modify]
  split
  · rw [Option.map_map]
  · rfl

/-- What is changed inside an agent does not outlive it. -/
theorem drop_modify_self (hf : Agent.Inner f) : (r.modify a f).drop a = r.drop a := by
  refine ext_get (fun x => ?_) ?_
  · simp only [get_drop, get_modify]
    split
    · rfl
    · rfl
  · rw [nameIndex_drop, nameIndex_drop, get_modify, if_pos rfl]
    cases r.get a with
    | none => rfl
    | some agent =>
      show r.nameIndex.erase (f agent).config.name = r.nameIndex.erase agent.config.name
      rw [hf.config]

/-- What is changed inside an agent does not depend on the others. -/
theorem drop_modify_of_ne (hf : Agent.Inner f) (h : a ≠ b) :
    (r.modify a f).drop b = (r.drop b).modify a f := by
  refine ext_get (fun x => ?_) ?_
  · simp only [get_drop, get_modify]
    by_cases hb : x = b
    · simp [hb]
    · by_cases ha : x = a
      · simp only [ha, h, if_true, if_false, Option.map_map]
        congr 1
        exact funext fun agent => (hf.forget agent b).symm
      · simp [ha, hb]
  · show (r.modify a f |>.drop b).nameIndex = (r.drop b).nameIndex
    rw [nameIndex_drop, nameIndex_drop, get_modify, if_neg (Ne.symm h)]
    rfl

@[simp] theorem dropAll_nil (r : AgentRegistry) : r.dropAll [] = r := rfl

@[simp] theorem dropAll_cons (r : AgentRegistry) (a : AgentId) (ids : List AgentId) :
    r.dropAll (a :: ids) = (r.drop a).dropAll ids := rfl

theorem dropAll_append (r : AgentRegistry) (ids ids' : List AgentId) :
    r.dropAll (ids ++ ids') = (r.dropAll ids).dropAll ids' := List.foldl_append

/-- The order in which two agents are dropped does not matter. -/
theorem drop_comm (r : AgentRegistry) (a b : AgentId) : (r.drop a).drop b = (r.drop b).drop a := by
  by_cases h : a = b
  · rw [h]
  · refine ext_get (fun x => ?_) ?_
    · simp only [get_drop]
      by_cases ha : x = a
      · simp [ha]
      · by_cases hb : x = b
        · simp [hb]
        · simp only [ha, hb, if_false, Option.map_map]
          congr 1
          exact funext fun agent => Agent.forget_forget agent a b
    · rw [nameIndex_drop, nameIndex_drop, nameIndex_drop, nameIndex_drop, get_drop, get_drop,
        if_neg h, if_neg (Ne.symm h)]
      cases r.get a with
      | none => cases r.get b <;> rfl
      | some first =>
        cases r.get b with
        | none => rfl
        | some second =>
          show (r.nameIndex.erase first.config.name).erase second.config.name =
            (r.nameIndex.erase second.config.name).erase first.config.name
          refine Std.ExtTreeMap.ext_getElem? fun {name} => ?_
          simp only [Std.ExtTreeMap.getElem?_erase]
          split_ifs <;> rfl

/-- The order of dropping does not matter. -/
theorem dropAll_perm {ids' : List AgentId} (h : ids.Perm ids') :
    r.dropAll ids = r.dropAll ids' := by
  have hcomm : RightCommutative drop := ⟨drop_comm⟩
  exact h.foldl_eq r

theorem dropAll_modify (hf : Agent.Inner f) (h : a ∉ ids) :
    (r.modify a f).dropAll ids = (r.dropAll ids).modify a f := by
  induction ids generalizing r with
  | nil => rfl
  | cons b ids ih =>
    rw [List.mem_cons, not_or] at h
    rw [dropAll_cons, dropAll_cons, drop_modify_of_ne hf h.1, ih h.2]

theorem get_dropAll (r : AgentRegistry) (ids : List AgentId) (x : AgentId) :
    (r.dropAll ids).get x = if x ∈ ids then none else (r.get x).map (Agent.forgetAll ids) := by
  induction ids generalizing r with
  | nil =>
    have hid : Agent.forgetAll [] = id := funext fun agent => by simp [Agent.forgetAll]
    rw [dropAll_nil, hid]
    simp
  | cons b ids ih =>
    rw [dropAll_cons, ih, get_drop]
    by_cases hb : x = b
    · simp [hb]
    · by_cases hids : x ∈ ids
      · simp [hids]
      · simp only [hids, hb, if_false, List.mem_cons, or_self, Option.map_map]
        congr 1
        exact funext fun agent => Agent.forgetAll_forget agent b ids

/-! ## Agents that are left -/

/-- No agent is new, and every agent that is left is related to what it was. -/
def Tracks (P : Agent → Agent → Prop) (r r' : AgentRegistry) : Prop :=
  ∀ x agent', r'.get x = some agent' → ∃ agent, r.get x = some agent ∧ P agent agent'

section Tracks

variable {P : Agent → Agent → Prop} {r' r'' : AgentRegistry}

theorem Tracks.refl (hP : ∀ agent, P agent agent) (r : AgentRegistry) : Tracks P r r :=
  fun _ agent hget => ⟨agent, hget, hP agent⟩

theorem Tracks.trans (hP : ∀ {a b c}, P a b → P b c → P a c) (h : Tracks P r r')
    (h' : Tracks P r' r'') : Tracks P r r'' := by
  intro x agent'' hget
  obtain ⟨agent', hget', hrel'⟩ := h' x agent'' hget
  obtain ⟨agent, hagent, hrel⟩ := h x agent' hget'
  exact ⟨agent, hagent, hP hrel hrel'⟩

/-- A relation each change respects tracks the modification. -/
theorem tracks_modify (hP : ∀ agent, P agent agent) (hf : ∀ agent, P agent (f agent))
    (r : AgentRegistry) (a : AgentId) : Tracks P r (r.modify a f) := by
  intro x agent' hget
  rw [get_modify] at hget
  split at hget
  · obtain ⟨agent, hagent, rfl⟩ := Option.map_eq_some_iff.mp hget
    exact ⟨agent, hagent, hf agent⟩
  · exact ⟨agent', hget, hP agent'⟩

theorem tracks_unregister (hP : ∀ agent, P agent agent) (r : AgentRegistry) (a : AgentId) :
    Tracks P r (r.unregister a).2 := by
  intro x agent' hget
  rw [get_unregister] at hget
  split at hget
  · cases hget
  · exact ⟨agent', hget, hP agent'⟩

end Tracks

/-- No agent is new, and every agent that is left is what it was but for its state and its restarts,
with the same children or fewer. -/
def Shrinks (r r' : AgentRegistry) : Prop := Tracks Agent.Covers r r'

theorem Shrinks.refl (r : AgentRegistry) : r.Shrinks r := Tracks.refl .refl r

theorem Shrinks.trans {r' r'' : AgentRegistry} (h : r.Shrinks r') (h' : r'.Shrinks r'') :
    r.Shrinks r'' :=
  Tracks.trans .trans h h'

theorem Shrinks.get_eq_none {r' : AgentRegistry} (h : r.Shrinks r') (hnone : r.get x = none) :
    r'.get x = none := by
  cases hget : r'.get x with
  | none => rfl
  | some agent' =>
    obtain ⟨agent, hagent, -⟩ := h x agent' hget
    rw [hnone] at hagent
    cases hagent

theorem shrinks_modify (hf : ∀ agent : Agent, agent.Covers (f agent)) (a : AgentId) :
    r.Shrinks (r.modify a f) :=
  tracks_modify .refl hf r a

theorem shrinks_unregister (r : AgentRegistry) (a : AgentId) : r.Shrinks (r.unregister a).2 :=
  tracks_unregister .refl r a

theorem shrinks_drop (r : AgentRegistry) (a : AgentId) : r.Shrinks (r.drop a) := by
  intro x agent' hget
  rw [get_drop] at hget
  split at hget
  · cases hget
  · obtain ⟨agent, hagent, rfl⟩ := Option.map_eq_some_iff.mp hget
    exact ⟨agent, hagent, agent.covers_forget a⟩

theorem shrinks_dropAll (r : AgentRegistry) (ids : List AgentId) : r.Shrinks (r.dropAll ids) := by
  induction ids generalizing r with
  | nil => exact .refl r
  | cons a ids ih => exact (shrinks_drop r a).trans (ih (r.drop a))

end AgentRegistry

end OxideOS
