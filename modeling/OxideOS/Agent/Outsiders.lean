import OxideOS.Agent.Lifecycle

/-!
# Kills that concern nobody else

Killing an agent takes its children out of the registry, takes it from the list of its parent, and
reports its death there.  So the entries of all other agents stay as they are only if the agent has
no relatives in the registry, or a parent that neither lists it nor does anything about its death.
This holds whatever the registry is: no tree is asked for.

## Main definitions

* `AgentRegistry.Alone`: the agent has no relatives that its death would touch

## Main results

* `AgentRegistry.Kills.spares_iff`: a kill spares all agents but one exactly if that one is killed,
  and is alone
-/

namespace OxideOS

namespace AgentRegistry

/-- No other agent is a child of this one, and its parent, if it is another, does not list it, does
not escalate and does not count deaths. -/
structure Alone (r : AgentRegistry) (t : AgentId) (agent : Agent) : Prop where
  children : ∀ c ∈ agent.children, c ≠ t → r.get c = none
  parent : ∀ p parent, agent.parent = some p → p ≠ t → r.get p = some parent →
    t ∉ parent.children ∧ ¬parent.Escalates ∧ parent.config.restartPolicy = .permanent

/-- The entries of all agents but one are the same. -/
def SameBut (t : AgentId) (r r' : AgentRegistry) : Prop := ∀ b, b ≠ t → r'.get b = r.get b

variable {r r' r'' : AgentRegistry} {t a p : AgentId} {agent agent' : Agent} {fuel : Nat}
  {result : Except String Unit} {ids : List AgentId}

theorem SameBut.refl (t : AgentId) (r : AgentRegistry) : SameBut t r r := fun _ _ => rfl

theorem SameBut.trans (h : SameBut t r r') (h' : SameBut t r' r'') : SameBut t r r'' :=
  fun b hb => (h' b hb).trans (h b hb)

theorem sameBut_modify (r : AgentRegistry) (t : AgentId) (f : Agent → Agent) :
    SameBut t r (r.modify t f) := by
  intro b hb
  rw [get_modify, if_neg hb]

theorem sameBut_unregister (r : AgentRegistry) (t : AgentId) :
    SameBut t r (r.unregister t).2 := by
  intro b hb
  rw [get_unregister, if_neg hb]

/-- Being alone is a matter of the other agents, and of the links of this one. -/
theorem Alone.of_sameBut (h : r.Alone t agent) (hsame : SameBut t r r')
    (hparent : agent'.parent = agent.parent) (hchildren : agent'.children = agent.children) :
    r'.Alone t agent' where
  children c hc hne := by
    rw [hsame c hne]
    exact h.children c (hchildren ▸ hc) hne
  parent p parent hp hne hget := by
    rw [hsame p hne] at hget
    exact h.parent p parent (hparent ▸ hp) hne hget

/-! ## An agent that is alone -/

theorem Alone.sameBut_detach (h : r.Alone t agent) : SameBut t r (r.detach agent.parent t) := by
  intro b hb
  rw [get_detach]
  split_ifs with hp
  · cases hparent : r.get b with
    | none => rfl
    | some parent =>
      obtain ⟨hlist, -, -⟩ := h.parent b parent hp hb hparent
      rw [Option.map_some, Agent.forget_of_notMem hlist]
  · rfl

/-- The report of the death reaches nobody, or a parent that does nothing about it. -/
theorem Alone.sameBut_notifiesParent (h : r.Alone t agent) (hgone : r.get t = none)
    (hnotify : r.NotifiesParent agent.parent t r') : SameBut t r r' := by
  cases hp : agent.parent with
  | none =>
    rw [hp] at hnotify
    obtain rfl := hnotify.unique notifiesParent_none
    exact .refl t r'
  | some p =>
    rw [hp] at hnotify
    cases hget : r.get p with
    | none =>
      obtain rfl := hnotify.unique (notifiesParent_some.mpr (notifies_of_none hget))
      exact .refl t r'
    | some parent =>
      have hne : p ≠ t := by
        rintro rfl
        rw [hgone] at hget
        cases hget
      obtain ⟨-, hesc, hpolicy⟩ := h.parent p parent hp hne hget
      obtain rfl := hnotify.unique (notifiesParent_some.mpr (notifies_of_not_escalates hget hesc))
      have hcounts : parent.counts 1 = 0 := by rw [Agent.counts, hpolicy]
      intro b _
      rw [hcounts, modify_of_eq]
      exact fun agent _ => rfl

/-- The statement of `Alone.sameBut_kill` for some fuel. -/
def SparesOthers (t : AgentId) (fuel : Nat) : Prop :=
  ∀ {r r' agent result}, r.get t = some agent → r.Alone t agent →
    kill fuel r t = some (result, r') → SameBut t r r'

/-- What holds while the children of an agent are killed: it is the only one touched, and its links
stay until it is gone. -/
structure OnlyMarked (r : AgentRegistry) (t : AgentId) (agent : Agent) (r' : AgentRegistry) :
    Prop where
  same : SameBut t r r'
  links : ∀ agent', r'.get t = some agent' →
    agent'.parent = agent.parent ∧ agent'.children = agent.children

/-- One child: it is not registered, or it is the agent itself. -/
theorem OnlyMarked.kill (h : r.OnlyMarked t agent r') (halone : r.Alone t agent)
    (ih : SparesOthers t fuel) (ha : a ∈ agent.children)
    (hkill : AgentRegistry.kill fuel r' a = some (result, r'')) :
    r.OnlyMarked t agent r'' := by
  have hkills : r'.Kills a result r'' := ⟨fuel, hkill⟩
  cases hget : r'.get a with
  | none =>
    obtain ⟨-, rfl⟩ := hkills.unique (kills_of_none hget)
    exact h
  | some agent' =>
    obtain rfl : a = t := by
      by_contra hne
      rw [h.same a hne, halone.children a ha hne] at hget
      cases hget
    obtain ⟨hparent, hchildren⟩ := h.links agent' hget
    refine ⟨h.same.trans (ih hget (halone.of_sameBut h.same hparent hchildren) hkill), ?_⟩
    intro agent'' hget''
    rw [hkills.get_eq_none] at hget''
    cases hget''

theorem OnlyMarked.killAll (h : r.OnlyMarked t agent r') (halone : r.Alone t agent)
    (ih : SparesOthers t fuel) (hids : ∀ a ∈ ids, a ∈ agent.children)
    (hall : AgentRegistry.killAll fuel r' ids = some r'') :
    r.OnlyMarked t agent r'' := by
  induction ids generalizing r' with
  | nil =>
    obtain rfl := Option.some.inj hall
    exact h
  | cons a ids ihids =>
    rw [killAll_cons, Option.bind_eq_some_iff] at hall
    obtain ⟨⟨result, r₁⟩, hkill, hrest⟩ := hall
    exact ihids (h.kill halone ih (hids a List.mem_cons_self) hkill)
      (fun a' ha' => hids a' (List.mem_cons_of_mem a ha')) hrest

/-- Killing an agent that is alone spares all others.  The induction is on the fuel, for a registry
in which the agent may be listed as a child of its own. -/
theorem Alone.sameBut_kill (hget : r.get t = some agent) (halone : r.Alone t agent)
    (hkill : kill fuel r t = some (result, r')) : SameBut t r r' := by
  induction fuel generalizing r r' agent result with
  | zero =>
    rw [kill] at hkill
    cases hkill
  | succ fuel ih =>
    obtain ⟨r₁, hall, hnotify⟩ := kill_parts hget hkill
    have hmarked : r.OnlyMarked t agent (r.modify t (Agent.withState .dead)) := by
      refine ⟨sameBut_modify r t _, ?_⟩
      intro agent' hget'
      rw [get_modify, if_pos rfl, hget] at hget'
      obtain rfl := Option.some.inj hget'
      exact ⟨rfl, rfl⟩
    have hsame := (hmarked.killAll halone ih (fun _ => id) hall).same
    have hdetach := (halone.of_sameBut hsame rfl rfl).sameBut_detach
    have hgone := (hsame.trans hdetach).trans (sameBut_unregister _ t)
    refine hgone.trans ((halone.of_sameBut hgone rfl rfl).sameBut_notifiesParent ?_ ⟨fuel, hnotify⟩)
    rw [get_unregister, if_pos rfl]

/-! ## An agent that is not -/

/-- Restarts are only ever counted up. -/
def KeepsCounts (r r' : AgentRegistry) : Prop :=
  Tracks (fun agent agent' => agent.restartCount ≤ agent'.restartCount) r r'

theorem KeepsCounts.trans (h : r.KeepsCounts r') (h' : r'.KeepsCounts r'') : r.KeepsCounts r'' :=
  Tracks.trans Nat.le_trans h h'

theorem keepsCounts_detach (r : AgentRegistry) (parentId : Option AgentId) (a : AgentId) :
    r.KeepsCounts (r.detach parentId a) :=
  tracks_detach (fun _ => Nat.le_refl _) (fun _ => Nat.le_refl _) r parentId

theorem keepsCounts_unregister (r : AgentRegistry) (a : AgentId) :
    r.KeepsCounts (r.unregister a).2 :=
  tracks_unregister (fun _ => Nat.le_refl _) r a

theorem keepsCounts_marked (r : AgentRegistry) (a : AgentId) :
    r.KeepsCounts (r.modify a (Agent.withState .dead)) :=
  tracks_modify (fun _ => Nat.le_refl _) (fun _ => Nat.le_refl _) r a

theorem respected_keepsCounts : Respected KeepsCounts where
  refl := Tracks.refl fun _ => Nat.le_refl _
  trans := .trans
  detach := keepsCounts_detach
  restart := tracks_modify (fun _ => Nat.le_refl _) fun _ => Nat.le_succ _
  death {r r' a} h := ((keepsCounts_marked r a).trans h).trans (keepsCounts_unregister r' a)

theorem KillsAll.respects {R : AgentRegistry → AgentRegistry → Prop} (h : r.KillsAll ids r')
    (hR : Respected R) : R r r' := by
  obtain ⟨fuel, hall⟩ := h
  exact (fuelRespects hR fuel).killAll hR hall

/-- Children are gone after they have been killed. -/
theorem KillsAll.get_eq_none (h : r.KillsAll ids r') (ha : a ∈ ids) : r'.get a = none := by
  obtain ⟨fuel, hall⟩ := h
  induction ids generalizing r with
  | nil => cases ha
  | cons b ids ih =>
    rw [killAll_cons, Option.bind_eq_some_iff] at hall
    obtain ⟨⟨result, r₁⟩, hkill, hrest⟩ := hall
    rcases List.mem_cons.mp ha with rfl | ha
    · have hkills : r.Kills a result r₁ := ⟨fuel, hkill⟩
      have hshrinks : r₁.Shrinks r' := KillsAll.respects ⟨fuel, hrest⟩ respected_shrinks
      exact hshrinks.get_eq_none hkills.get_eq_none
    · exact ih ha hrest

/-- A parent whose entry is the same after the report of a death has done nothing about it. -/
theorem Notifies.of_get_eq {parent parent' : Agent} (h : r.Notifies p a r')
    (hget : r.get p = some parent) (hget' : r'.get p = some parent')
    (hle : parent'.restartCount ≤ parent.restartCount) :
    parent' = parent ∧ ¬parent.Escalates ∧ parent.config.restartPolicy = .permanent := by
  have hesc : ¬parent.Escalates := by
    intro hesc
    rw [h.get_eq_none hget hesc] at hget'
    cases hget'
  have hnotify : r.NotifiesParent (some p) a r' := h
  obtain rfl := hnotify.unique (notifiesParent_some.mpr (notifies_of_not_escalates hget hesc))
  rw [get_modify, if_pos rfl, hget] at hget'
  obtain rfl := Option.some.inj hget'
  have hcounts : parent.counts 1 = 0 := by
    have hsum : parent.restartCount + parent.counts 1 ≤ parent.restartCount := hle
    omega
  refine ⟨by rw [hcounts]; rfl, hesc, ?_⟩
  rw [Agent.Escalates, not_or] at hesc
  rw [Agent.counts] at hcounts
  cases hpolicy : parent.config.restartPolicy with
  | permanent => rfl
  | escalate => exact absurd hpolicy hesc.2
  | restartOne => rw [hpolicy] at hcounts; cases hcounts
  | restartAll => rw [hpolicy] at hcounts; cases hcounts

theorem Kills.alone (h : r.Kills t result r') (hget : r.get t = some agent)
    (hsame : SameBut t r r') : r.Alone t agent := by
  obtain ⟨r₁, hall, hnotify⟩ := h.cases hget
  constructor
  · intro c hc hne
    have hshrinks : r₁.Shrinks r' := ((shrinks_detach r₁ agent.parent t).trans
      (shrinks_unregister _ t)).trans hnotify.shrinks
    rw [← hsame c hne]
    exact hshrinks.get_eq_none (hall.get_eq_none hc)
  · intro p parent hp hne hparent
    rw [hp] at hnotify
    have hparent' : r'.get p = some parent := (hsame p hne).trans hparent
    obtain ⟨parent₂, hparent₂, -⟩ := hnotify.shrinks p parent hparent'
    have hcounts : r.KeepsCounts ((r₁.detach (some p) t).unregister t).2 :=
      (((keepsCounts_marked r t).trans (hall.respects respected_keepsCounts)).trans
        (keepsCounts_detach r₁ (some p) t)).trans (keepsCounts_unregister _ t)
    obtain ⟨parent₀, hparent₀, hle⟩ := hcounts p parent₂ hparent₂
    obtain rfl := Option.some.inj (hparent.symm.trans hparent₀)
    obtain ⟨rfl, hesc, hpolicy⟩ :=
      (notifiesParent_some.mp hnotify).of_get_eq hparent₂ hparent' hle
    refine ⟨?_, hesc, hpolicy⟩
    rw [get_unregister, if_neg hne, get_detach, if_pos rfl] at hparent₂
    obtain ⟨parent₁, -, rfl⟩ := Option.map_eq_some_iff.mp hparent₂
    simp [Agent.forget]

/-- **A kill spares all agents but one** exactly if nobody is killed, or that one, which is
alone. -/
theorem Kills.spares_iff (h : r.Kills a result r') :
    SameBut t r r' ↔ ∀ agent, r.get a = some agent → a = t ∧ r.Alone t agent := by
  constructor
  · intro hsame agent hget
    obtain rfl : a = t := by
      by_contra hne
      rw [← hsame a hne, h.get_eq_none] at hget
      cases hget
    exact ⟨rfl, h.alone hget hsame⟩
  · intro hall
    cases hget : r.get a with
    | none =>
      obtain ⟨-, rfl⟩ := h.unique (kills_of_none hget)
      exact .refl t r'
    | some agent =>
      obtain ⟨rfl, halone⟩ := hall agent hget
      obtain ⟨fuel, hkill⟩ := h
      exact halone.sameBut_kill hget hkill

end AgentRegistry

end OxideOS
