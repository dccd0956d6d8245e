import OxideOS.Agent.Forest
import Mathlib.Data.Finset.Card

/-!
# Killing comes to an end

`spawn` takes whatever id it is given for the parent: also one that is not registered, which may be
registered later, and also the id that the new agent is about to get.  Parents then no longer lead
to a root.  But a kill does not follow parents for long: it goes down the lists of children, and up
only from an agent that is gone.  The lists lead from agents that were spawned earlier to agents
that were spawned later, with one exception: an agent that was spawned as its own parent lists
itself, and killing it kills it first, without end.

## Main definitions

* `AgentRegistry.openSystem`: spawns with any parent, and kills
* `AgentRegistry.NotOwnParent`: a call that spawns nobody as its own parent
* `AgentRegistry.Descends`: lists of children lead to higher ranks
* `AgentRegistry.KillReturns`

## Main results

* `AgentRegistry.Descends.killReturns`: every kill returns where lists of children lead to higher
  ranks
* `AgentRegistry.not_killReturns`: killing an agent that lists itself first does not return
* `AgentRegistry.kill_terminates`: every kill returns until an agent is spawned as its own parent
-/

namespace OxideOS

namespace AgentRegistry

/-- `kill` returns. -/
def KillReturns (r : AgentRegistry) (a : AgentId) : Prop := ∃ result r', r.Kills a result r'

/-- What a spawn leaves, whoever is named as the parent, and what a kill leaves that returns.  The
id of a new agent is not in use. -/
inductive OpenStep (r : AgentRegistry) : AgentOp → AgentRegistry → Prop
  | spawn (agentId : AgentId) (parentId : Option AgentId) (config : AgentConfig)
      (hfresh : r.get agentId = none) :
      OpenStep r (.spawn agentId parentId config) (r.spawn parentId config agentId).2
  | kill {agentId : AgentId} {result : Except String Unit} {r' : AgentRegistry}
      (h : r.Kills agentId result r') : OpenStep r (.kill agentId) r'

/-- Any spawns and kills on an empty registry. -/
def openSystem : TransitionSystem AgentRegistry AgentOp where
  Init r := r = new
  Step := OpenStep

/-- The call spawns nobody as its own parent. -/
def NotOwnParent : AgentOp → Prop
  | .spawn agentId parentId _ => parentId ≠ some agentId
  | _ => True

instance : (op : AgentOp) → Decidable (NotOwnParent op)
  | .spawn agentId parentId _ => inferInstanceAs (Decidable (parentId ≠ some agentId))
  | .kill _ | .suspend _ | .resume _ => .isTrue trivial

/-- Lists of children lead to higher ranks, which are bounded. -/
structure Descends (r : AgentRegistry) (rank : AgentId → Nat) (bound : Nat) : Prop where
  lt_bound : ∀ x agent, r.get x = some agent → rank x < bound
  lt_child : ∀ x agent c, r.get x = some agent → c ∈ agent.children → rank x < rank c

/-- Only these agents are registered. -/
def Within (r : AgentRegistry) (s : Finset AgentId) : Prop :=
  ∀ x agent, r.get x = some agent → x ∈ s

variable {r r' r'' : AgentRegistry} {a c p x : AgentId} {agent : Agent} {ids : List AgentId}
  {rank : AgentId → Nat} {bound : Nat} {s : Finset AgentId} {parentId : Option AgentId}

/-! ## Kills that return -/

theorem Shrinks.descends (h : r.Shrinks r') (hr : r.Descends rank bound) :
    r'.Descends rank bound where
  lt_bound x agent' hx := by
    obtain ⟨agent, hagent, -⟩ := h x agent' hx
    exact hr.lt_bound x agent hagent
  lt_child x agent' c hx hc := by
    obtain ⟨agent, hagent, hcovers⟩ := h x agent' hx
    exact hr.lt_child x agent c hagent (hcovers.children.subset hc)

theorem Shrinks.within (h : r.Shrinks r') (hr : r.Within s) : r'.Within s := by
  intro x agent' hx
  obtain ⟨agent, hagent, -⟩ := h x agent' hx
  exact hr x agent hagent

theorem Within.erase (h : r.Within s) (hnone : r.get a = none) : r.Within (s.erase a) := by
  intro x agent hx
  refine Finset.mem_erase.mpr ⟨?_, h x agent hx⟩
  rintro rfl
  rw [hnone] at hx
  cases hx

theorem exists_within (r : AgentRegistry) : ∃ s, r.Within s := by
  refine ⟨r.agents.keys.toFinset, fun x agent hx => ?_⟩
  rw [List.mem_toFinset, Std.ExtTreeMap.mem_keys, Std.ExtTreeMap.mem_iff_isSome_getElem?]
  exact Option.isSome_iff_exists.mpr ⟨agent, hx⟩

/-- Agents are killed one after the other if each of them can be killed in whatever is left. -/
theorem exists_killsAll (h : ∀ c ∈ ids, ∀ r', r.Shrinks r' → r'.KillReturns c) :
    ∃ r', r.KillsAll ids r' := by
  induction ids generalizing r with
  | nil => exact ⟨r, killsAll_nil⟩
  | cons c ids ih =>
    obtain ⟨result, r₁, hkill⟩ := h c List.mem_cons_self r (.refl r)
    obtain ⟨r₂, hrest⟩ := ih fun c' hc' r' hr' =>
      h c' (List.mem_cons_of_mem c hc') r' (hkill.shrinks.trans hr')
    exact ⟨r₂, hrest.cons hkill⟩

theorem KillsAll.shrinks (h : r.KillsAll ids r') : r.Shrinks r' := by
  obtain ⟨fuel, hall⟩ := h
  exact (fuelRespects respected_shrinks fuel).killAll respected_shrinks hall

/-- The reports to parents return, as long as only these agents are registered. -/
def ReportsReturn (rank : AgentId → Nat) (bound : Nat) (s : Finset AgentId) : Prop :=
  ∀ r : AgentRegistry, r.Within s → r.Descends rank bound → ∀ parentId a,
    ∃ r', r.NotifiesParent parentId a r'

/-- A kill returns if reports return once an agent is gone.  The children of an agent have higher
ranks. -/
theorem killReturns_of_reportsReturn (h : ∀ x ∈ s, ReportsReturn rank bound (s.erase x))
    (hs : r.Within s) (hr : r.Descends rank bound) (a : AgentId) : r.KillReturns a := by
  induction hleft : bound - rank a using Nat.strong_induction_on generalizing r a with
  | _ left ih =>
    subst hleft
    cases hget : r.get a with
    | none => exact ⟨_, r, kills_of_none hget⟩
    | some agent =>
      have hdead : r.Shrinks (r.modify a (Agent.withState .dead)) :=
        shrinks_modify (Agent.inner_withState .dead).covers a
      obtain ⟨r₁, hall⟩ :
          ∃ r₁, (r.modify a (Agent.withState .dead)).KillsAll agent.children r₁ := by
        refine exists_killsAll fun c hc r' hr' => ?_
        refine ih _ ?_ ((hdead.trans hr').within hs) ((hdead.trans hr').descends hr) c rfl
        have hbound := hr.lt_bound a agent hget
        have hchild := hr.lt_child a agent c hget hc
        omega
      have hgone : r.Shrinks ((r₁.detach agent.parent a).unregister a).2 :=
        (hdead.trans hall.shrinks).trans
          ((shrinks_detach r₁ agent.parent a).trans (shrinks_unregister _ a))
      have hnone : ((r₁.detach agent.parent a).unregister a).2.get a = none := by
        rw [get_unregister, if_pos rfl]
      obtain ⟨r₂, hnotify⟩ := h a (hs a agent hget) _ ((hgone.within hs).erase hnone)
        (hgone.descends hr) agent.parent a
      exact ⟨_, r₂, Kills.intro hget hall hnotify⟩

/-- **Reports return**: each escalation leaves fewer agents. -/
theorem reportsReturn (rank : AgentId → Nat) (bound : Nat) (s : Finset AgentId) :
    ReportsReturn rank bound s := by
  induction s using Finset.strongInduction with
  | H s ih =>
    intro r hs hr parentId a
    have hsmaller : ∀ x ∈ s, ReportsReturn rank bound (s.erase x) :=
      fun x hx => ih _ (Finset.erase_ssubset hx)
    cases parentId with
    | none => exact ⟨r, notifiesParent_none⟩
    | some p =>
      cases hget : r.get p with
      | none => exact ⟨r, notifies_of_none hget⟩
      | some parent =>
        by_cases hesc : parent.Escalates
        · obtain ⟨result, r₁, hkill⟩ := killReturns_of_reportsReturn hsmaller hs hr p
          obtain ⟨r₂, hnotify⟩ := hsmaller p (hs p parent hget) r₁
            ((hkill.shrinks.within hs).erase hkill.get_eq_none) (hkill.shrinks.descends hr)
            parent.parent p
          exact ⟨r₂, Notifies.of_escalates hget hesc (Escalates.intro hget hkill hnotify)⟩
        · exact ⟨_, notifies_of_not_escalates hget hesc⟩

/-- **Every kill returns** where lists of children lead to higher ranks. -/
theorem Descends.killReturns (hr : r.Descends rank bound) (a : AgentId) : r.KillReturns a := by
  obtain ⟨s, hs⟩ := exists_within r
  exact killReturns_of_reportsReturn (fun x _ => reportsReturn rank bound (s.erase x)) hs hr a

/-! ## Agents that list themselves -/

/-- Nobody lists itself. -/
def NoneListsItself (r : AgentRegistry) : Prop :=
  ∀ x agent, r.get x = some agent → x ∉ agent.children

/-- An agent that lists itself is the first on its list, and not on it again. -/
def ListsItselfFirst (x : AgentId) (agent : Agent) : Prop :=
  ∃ rest, agent.children = x :: rest ∧ x ∉ rest

/-- Killing an agent that lists itself first does not return. -/
theorem not_killReturns (hget : r.get a = some agent) (h : ListsItselfFirst a agent) :
    ¬r.KillReturns a := by
  rintro ⟨result, r', fuel, hkill⟩
  induction fuel generalizing r agent result r' with
  | zero =>
    rw [kill] at hkill
    cases hkill
  | succ fuel ih =>
    obtain ⟨rest, hchildren, -⟩ := id h
    rw [kill_of_some hget, hchildren, killAll_cons, Option.bind_assoc] at hkill
    obtain ⟨⟨result', r₁⟩, hagain, -⟩ := Option.bind_eq_some_iff.mp hkill
    exact ih (get_modify_self hget (Agent.withState .dead)) h result' r₁ hagain

/-- The invariant of spawns with any parent: lists of children lead from agents that were spawned
earlier to agents that were spawned later, but for agents that list themselves. -/
structure Layered (r : AgentRegistry) : Prop where
  rank : ∃ (rank : AgentId → Nat) (bound : Nat), ∀ x agent, r.get x = some agent →
    rank x < bound ∧ ∀ c ∈ agent.children, c = x ∨ rank x < rank c
  first : ∀ x agent, r.get x = some agent → x ∈ agent.children → ListsItselfFirst x agent

theorem layered_new : new.Layered where
  rank := ⟨fun _ => 0, 0, fun x agent hx => by rw [get_new] at hx; cases hx⟩
  first x agent hx := by
    rw [get_new] at hx
    cases hx

theorem Layered.shrinks (hr : r.Layered) (h : r.Shrinks r') : r'.Layered where
  rank := by
    obtain ⟨rank, bound, hrank⟩ := hr.rank
    refine ⟨rank, bound, fun x agent' hx => ?_⟩
    obtain ⟨agent, hagent, hcovers⟩ := h x agent' hx
    obtain ⟨hbound, hchildren⟩ := hrank x agent hagent
    exact ⟨hbound, fun c hc => hchildren c (hcovers.children.subset hc)⟩
  first x agent' hx hmem := by
    obtain ⟨agent, hagent, hcovers⟩ := h x agent' hx
    have hsublist := hcovers.children
    obtain ⟨rest, hchildren, hnot⟩ := hr.first x agent hagent (hsublist.subset hmem)
    rw [hchildren] at hsublist
    rcases List.sublist_cons_iff.mp hsublist with hrest | ⟨rest', heq, hrest⟩
    · exact absurd (hrest.subset hmem) hnot
    · exact ⟨rest', heq, fun hmem' => hnot (hrest.subset hmem')⟩

/-- Who is registered after a spawn: the new agent, and those that were registered before. -/
theorem get_spawn_cases {config : AgentConfig} (hroom : r.childrenFull parentId = false)
    {x : AgentId} {agent' : Agent} (hx : (r.spawn parentId config a).2.get x = some agent') :
    (x = a ∧ agent' = grown parentId a a (spawned parentId config a)) ∨
      x ≠ a ∧ ∃ agent, r.get x = some agent ∧ agent' = grown parentId a x agent := by
  rw [get_spawn config hroom] at hx
  obtain ⟨agent, hagent, rfl⟩ := Option.map_eq_some_iff.mp hx
  by_cases hxa : x = a
  · subst hxa
    rw [if_pos rfl] at hagent
    obtain rfl := Option.some.inj hagent
    exact .inl ⟨rfl, rfl⟩
  · rw [if_neg hxa] at hagent
    exact .inr ⟨hxa, agent, hagent, rfl⟩

/-- A spawn, with any parent, leaves the new agent on top. -/
theorem Layered.spawn (hr : r.Layered) (config : AgentConfig)
    (hroom : r.childrenFull parentId = false) : (r.spawn parentId config a).2.Layered where
  rank := by
    obtain ⟨rank, bound, hrank⟩ := hr.rank
    refine ⟨Function.update rank a bound, bound + 1, fun x agent' hx => ?_⟩
    rcases get_spawn_cases hroom hx with ⟨rfl, rfl⟩ | ⟨hxa, agent, hagent, rfl⟩
    · rw [Function.update_self]
      refine ⟨Nat.lt_succ_self bound, fun c hc => ?_⟩
      rcases mem_grown.mp hc with hc | ⟨-, rfl⟩
      · cases hc
      · exact .inl rfl
    · obtain ⟨hbound, hchildren⟩ := hrank x agent hagent
      rw [Function.update_of_ne hxa]
      refine ⟨Nat.lt_succ_of_lt hbound, fun c hc => ?_⟩
      by_cases hca : c = a
      · subst hca
        rw [Function.update_self]
        exact .inr hbound
      · rw [Function.update_of_ne hca]
        rcases mem_grown.mp hc with hc | ⟨-, rfl⟩
        · exact hchildren c hc
        · exact absurd rfl hca
  first x agent' hx hmem := by
    rcases get_spawn_cases hroom hx with ⟨rfl, rfl⟩ | ⟨hxa, agent, hagent, rfl⟩
    · rcases mem_grown.mp hmem with hmem | ⟨hparent, -⟩
      · cases hmem
      · exact ⟨[], by rw [grown, if_pos hparent]; rfl, List.not_mem_nil⟩
    · rcases mem_grown.mp hmem with hmem | ⟨-, rfl⟩
      · obtain ⟨rest, hchildren, hnot⟩ := hr.first x agent hagent hmem
        rw [ListsItselfFirst, grown]
        split
        · refine ⟨rest ++ [a], by rw [Agent.adopt, hchildren]; rfl, fun hmem' => ?_⟩
          rcases List.mem_append.mp hmem' with hmem' | hmem'
          · exact hnot hmem'
          · exact hxa (List.mem_singleton.mp hmem')
        · exact ⟨rest, hchildren, hnot⟩
      · exact absurd rfl hxa

/-- **Every kill returns if and only if nobody lists itself.** -/
theorem Layered.killReturns_iff (hr : r.Layered) :
    (∀ a, r.KillReturns a) ↔ r.NoneListsItself := by
  constructor
  · intro hkills x agent hx hmem
    exact not_killReturns hx (hr.first x agent hx hmem) (hkills x)
  · intro hnot a
    obtain ⟨rank, bound, hrank⟩ := hr.rank
    have hdescends : r.Descends rank bound := by
      refine ⟨fun x agent hx => (hrank x agent hx).1, fun x agent c hx hc => ?_⟩
      refine ((hrank x agent hx).2 c hc).resolve_left ?_
      rintro rfl
      exact hnot c agent hx hc
    exact hdescends.killReturns a

/-! ## Every run -/

theorem Layered.step {op : AgentOp} (hr : r.Layered) (h : r.OpenStep op r') : r'.Layered := by
  cases h with
  | spawn agentId parentId config hfresh =>
    cases hroom : r.childrenFull parentId with
    | true =>
      rw [AgentRegistry.spawn, hroom]
      exact hr
    | false => exact hr.spawn config hroom
  | kill h => exact hr.shrinks h.shrinks

theorem layered_of_reachable (h : openSystem.Reachable r) : r.Layered := by
  refine TransitionSystem.Invariant.of_reachable (P := Layered) ⟨?_, ?_⟩ h
  · rintro r rfl
    exact layered_new
  · intro r op r' hr hstep
    exact hr.step hstep

/-- **A call makes somebody list itself if and only if it spawns an agent as its own parent.** -/
theorem NoneListsItself.step_iff {op : AgentOp} (hr : r.NoneListsItself) (h : r.OpenStep op r') :
    r'.NoneListsItself ↔ NotOwnParent op := by
  cases h with
  | spawn a parentId config hfresh =>
    by_cases hown : parentId = some a
    · subst hown
      have hroom : r.childrenFull (some a) = false := by simp [childrenFull, hfresh]
      refine iff_of_false (fun hr' => ?_) fun h => h rfl
      refine hr' a _ ((get_spawn config hroom a).trans (by rw [if_pos rfl]; rfl)) ?_
      exact mem_grown.mpr (.inr ⟨rfl, rfl⟩)
    · refine iff_of_true (fun x agent' hx hmem => ?_) hown
      cases hroom : r.childrenFull parentId with
      | true =>
        rw [AgentRegistry.spawn, hroom] at hx
        exact hr x agent' hx hmem
      | false =>
        rcases get_spawn_cases hroom hx with ⟨rfl, rfl⟩ | ⟨hxa, agent, hagent, rfl⟩
        · rcases mem_grown.mp hmem with hmem | ⟨hparent, -⟩
          · cases hmem
          · exact hown hparent
        · rcases mem_grown.mp hmem with hmem | ⟨-, rfl⟩
          · exact hr x agent hagent hmem
          · exact hxa rfl
  | kill h =>
    refine iff_of_true (fun x agent' hx hmem => ?_) trivial
    obtain ⟨agent, hagent, hcovers⟩ := h.shrinks x agent' hx
    exact hr x agent hagent (hcovers.children.subset hmem)

theorem noneListsItself_of_reachable
    (h : (openSystem.restrict fun _ => NotOwnParent).Reachable r) : r.NoneListsItself := by
  refine TransitionSystem.Invariant.of_reachable (P := NoneListsItself) ⟨?_, ?_⟩ h
  · rintro r rfl x agent hx
    rw [get_new] at hx
    cases hx
  · intro r op r' hr hstep
    exact (hr.step_iff hstep.1).mpr hstep.2

/-- **Every kill comes to an end** until an agent is spawned as its own parent, whatever ids are
named as parents otherwise; and then not every kill does. -/
theorem kill_terminates (h : (openSystem.restrict fun _ => NotOwnParent).Reachable r) :
    (∀ a, r.KillReturns a) ∧
      ∀ op r', r.OpenStep op r' → ((∀ a, r'.KillReturns a) ↔ NotOwnParent op) := by
  have hlayered := layered_of_reachable h.of_restrict
  have hnone := noneListsItself_of_reachable h
  refine ⟨hlayered.killReturns_iff.mpr hnone, fun op r' hstep => ?_⟩
  exact (hlayered.step hstep).killReturns_iff.trans (hnone.step_iff hstep)

/-- Agent 1 is spawned under agent 2, which is spawned under agent 1 later: each is named as the
parent of the other. -/
theorem kill_terminates_mutual : ∃ r, (openSystem.restrict fun _ => NotOwnParent).Reachable r ∧
    (r.get 1).map (fun agent => (agent.parent, agent.children)) = some (some 2, [2]) ∧
    (r.get 2).map (fun agent => (agent.parent, agent.children)) = some (some 1, []) ∧
    ∀ a, r.KillReturns a := by
  have hfirst : (openSystem.restrict fun _ => NotOwnParent).Reachable
      (new.spawn (some 2) (configOf "first" .escalate) 1).2 :=
    (TransitionSystem.Reachable.init rfl).step
      ⟨.spawn 1 (some 2) (configOf "first" .escalate) get_new, show NotOwnParent _ by decide⟩
  have hfresh : (new.spawn (some 2) (configOf "first" .escalate) 1).2.get 2 = none := by
    decide +kernel
  have hsecond := hfirst.step
    ⟨.spawn 2 (some 1) (configOf "second" .escalate) hfresh, show NotOwnParent _ by decide⟩
  exact ⟨_, hsecond, by decide +kernel, by decide +kernel, (kill_terminates hsecond).1⟩

/-- **A kill without end.**  The first task has id 1; an agent that is spawned for it with parent 1
is its own child, and killing it begins with killing it. -/
theorem kill_without_end : ∃ r, openSystem.Reachable r ∧ (r.get 1).isSome ∧ ¬r.KillReturns 1 := by
  have hget : (new.spawn (some 1) (configOf "own" .permanent) 1).2.get 1 =
      some ⟨1, configOf "own" .permanent, .running, some 1, [1], 0, 5⟩ := by decide +kernel
  refine ⟨_, (TransitionSystem.Reachable.init rfl).step
    (.spawn 1 (some 1) (configOf "own" .permanent) get_new), by rw [hget]; rfl, ?_⟩
  exact not_killReturns hget ⟨[], rfl, List.not_mem_nil⟩

end AgentRegistry

end OxideOS
