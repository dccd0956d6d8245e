import OxideOS.Agent.Forest

/-!
# What a kill reaches

Killing an agent is meant to take the agents below it and nothing else.  It does so exactly as long
as the parent absorbs the reports of the death.  There can be many of them: an agent that escalates
while its own children die is killed once more for each child that is left, by a call of `escalate`
that reports a death which `kill` has reported already.

## Main definitions

* `AgentRegistry.Contained`: the agents below one are gone, and nothing else has happened

## Main results

* `AgentRegistry.kill_contained`: a kill is contained if and only if the parent absorbs the reports
* `AgentRegistry.kill_escapes`: one kill kills a parent that had counted no death yet
-/

namespace OxideOS

namespace AgentRegistry

open AgentTree (ids reports)

/-- The agents below `a` are gone, and no others; and these are in the state they were in. -/
structure Contained (r : AgentRegistry) (a : AgentId) (r' : AgentRegistry) : Prop where
  gone : ∀ x, r'.get x = none ↔ r.get x = none ∨ r.Below x a
  state : ∀ x, ¬r.Below x a → (r'.get x).map Agent.state = (r.get x).map Agent.state

variable {r r' : AgentRegistry} {a p x : AgentId} {agent : Agent} {t : AgentTree}
  {kids : List AgentTree} {n : Nat} {log : List AgentEvent}

/-! ## The tree, and the reports -/

theorem mem_ids_iff_below (hr : r.WellFormed) (h : r.Attached t) :
    x ∈ ids t ↔ r.Below x t.label.id :=
  ⟨below_of_mem_ids h.holds, mem_ids_of_below hr h.holds⟩

theorem get_dropAll_eq_none_iff {dropped : List AgentId} :
    (r.dropAll dropped).get x = none ↔ r.get x = none ∨ x ∈ dropped := by
  rw [get_dropAll]
  split
  · next hx => exact iff_of_true rfl (.inr hx)
  · next hx => rw [Option.map_eq_none_iff, or_iff_left hx]

theorem get_modify_eq_none_iff {f : Agent → Agent} :
    (r.modify p f).get x = none ↔ r.get x = none := by
  rw [get_modify]
  split
  · exact Option.map_eq_none_iff
  · rfl

/-- Dropping the tree is contained. -/
theorem contained_dropAll (hr : r.WellFormed) (h : r.Attached (.node agent kids)) :
    r.Contained agent.id (r.dropAll (ids (.node agent kids))) where
  gone := by
    intro x
    rw [get_dropAll_eq_none_iff, mem_ids_iff_below hr h]
    rfl
  state := by
    intro x hx
    have hx : x ∉ ids (.node agent kids) := mt (mem_ids_iff_below hr h).mp hx
    rw [get_dropAll, if_neg hx, Option.map_map]
    rfl

/-- Counting a death is contained. -/
theorem Contained.restarted (h : r.Contained a r') (p : AgentId) (n : Nat) :
    r.Contained a (r'.modify p (Agent.restarted n)) where
  gone := by
    intro x
    rw [get_modify_eq_none_iff]
    exact h.gone x
  state := by
    intro x hx
    rw [← h.state x hx, get_modify]
    split
    · rw [Option.map_map]
      rfl
    · rfl

/-- The death of the root of the tree, reported so often, kills this agent with all below it: the
root itself, or an ancestor that does not absorb the reports made to it. -/
inductive Topples (r : AgentRegistry) : AgentTree → Nat → AgentId → Prop
  | here {t : AgentTree} {n : Nat} : Topples r t n t.label.id
  | up {t : AgentTree} {n : Nat} {parent : Agent} {before after : List AgentTree} {q : AgentId}
      (hattached : r.Attached (.node parent (before ++ t :: after))) (habsorbs : ¬parent.Absorbs n)
      (hup : Topples r (.node parent (before ++ t :: after)) (2 * (before ++ after).length + 2) q) :
      Topples r t n q

/-- Who is gone once the reports have come to an end. -/
theorem Spreads.get_eq_none_iff (h : r.Spreads t n log r') (hr : r.WellFormed)
    (ht : r.Attached t) :
    r'.get x = none ↔ r.get x = none ∨ ∃ q, r.Topples t n q ∧ r.Below x q := by
  induction h with
  | @root t n hparent =>
    rw [get_dropAll_eq_none_iff, mem_ids_iff_below hr ht]
    refine or_congr_right ⟨fun hx => ⟨_, .here, hx⟩, ?_⟩
    rintro ⟨q, htopples, hx⟩
    cases htopples with
    | here => exact hx
    | up hattached =>
      rw [hattached.parent_kid] at hparent
      cases hparent
  | @absorbed t n parent hparent hget habsorbs =>
    rw [get_modify_eq_none_iff, get_dropAll_eq_none_iff, mem_ids_iff_below hr ht]
    refine or_congr_right ⟨fun hx => ⟨_, .here, hx⟩, ?_⟩
    rintro ⟨q, htopples, hx⟩
    cases htopples with
    | here => exact hx
    | up hattached hnot =>
      obtain hid := Option.some.inj (hattached.parent_kid.symm.trans hparent)
      rw [← hid, hattached.get] at hget
      obtain rfl := Option.some.inj hget
      exact absurd habsorbs hnot
  | @escalated t n parent before after outer r' hattached habsorbs _ ih =>
    rw [ih hattached]
    refine or_congr_right ⟨?_, ?_⟩
    · rintro ⟨q, htopples, hx⟩
      exact ⟨q, .up hattached habsorbs htopples, hx⟩
    · rintro ⟨q, htopples, hx⟩
      cases htopples with
      | here => exact ⟨_, .here, hx.tail ⟨_, ht.get_label, hattached.parent_kid⟩⟩
      | @up _ _ parent' before' after' _ hattached' _ hup =>
        have hid := Option.some.inj (hattached'.parent_kid.symm.trans hattached.parent_kid)
        have hsame := holds_unique hattached'.holds hattached.holds hid
        have hlength : (before' ++ after').length = (before ++ after).length := by
          have hkids := congrArg List.length (RoseTree.node.inj hsame).2
          simp only [List.length_append, List.length_cons] at hkids ⊢
          omega
        rw [hsame, hlength] at hup
        exact ⟨q, hup, hx⟩

/-- Killing the agent `a` takes the agent `x` out of the registry. -/
def TakesAway (r : AgentRegistry) (a x : AgentId) : Prop :=
  ∃ result r', r.Kills a result r' ∧ (r.get x).isSome ∧ r'.get x = none

/-- **Who is taken away**, in terms of the registry before the kill: the agents below the one that
is killed, and those below its ancestors as far up as they do not absorb the reports. -/
theorem takesAway_iff (hr : r.WellFormed) :
    r.TakesAway a x ↔ (r.get x).isSome ∧ ∃ t q, r.Attached t ∧ t.label.id = a ∧
      r.Topples t (reports t) q ∧ r.Below x q := by
  cases hget : r.get a with
  | none =>
    refine iff_of_false ?_ ?_
    · rintro ⟨result, r', hkills, hx, hnone⟩
      obtain ⟨-, rfl⟩ := hkills.unique (kills_of_none hget)
      rw [hnone] at hx
      cases hx
    · rintro ⟨-, t, q, ht, rfl, -⟩
      rw [ht.get_label] at hget
      cases hget
  | some agent =>
    obtain ⟨kids, log, r', hattached, hspreads, hlogs, -⟩ := exists_kills hr hget
    have hgone := hspreads.get_eq_none_iff hr hattached (x := x)
    obtain rfl := hr.id_eq a agent hget
    constructor
    · rintro ⟨result, r'', hkills, hx, hnone⟩
      obtain ⟨-, rfl⟩ := hkills.unique (hlogs.kills hget)
      obtain ⟨q, htopples, hbelow⟩ :=
        (hgone.mp hnone).resolve_left (Option.isSome_iff_ne_none.mp hx)
      exact ⟨hx, _, q, hattached, rfl, htopples, hbelow⟩
    · rintro ⟨hx, t, q, ht, hid, htopples, hbelow⟩
      obtain rfl := holds_unique ht.holds hattached.holds hid
      exact ⟨_, r', hlogs.kills hget, hx, hgone.mpr (.inr ⟨q, htopples, hbelow⟩)⟩

/-! ## Containment -/

/-- **A kill is contained if and only if the parent absorbs the reports.**  From every reachable
registry, killing a registered agent comes to an end.  The agents below it are gone, no others, and
the others are in the state they were in, exactly if the agent has no parent or the parent absorbs
as many deaths as are reported for the tree below the agent. -/
theorem kill_contained (h : system.Reachable r) (hget : r.get a = some agent) :
    ∃ kids r', r.Attached (.node agent kids) ∧ r.Kills a (.ok ()) r' ∧
      (r.Contained a r' ↔ ∀ p ∈ agent.parent, ∃ parent, r.get p = some parent ∧
        parent.Absorbs (reports (.node agent kids))) := by
  have hr := wellFormed_invariant.of_reachable h
  obtain ⟨kids, log, r', hattached, hspreads, hlogs, -⟩ := exists_kills hr hget
  obtain rfl := hr.id_eq a agent hget
  refine ⟨kids, r', hattached, hlogs.kills hget, ?_⟩
  have hdropped := contained_dropAll hr hattached
  cases hspreads with
  | root hparent =>
    have hparent : agent.parent = none := hparent
    refine iff_of_true hdropped fun p hp => ?_
    rw [hparent] at hp
    cases hp
  | @absorbed _ _ parent hparent hgetp habsorbs =>
    refine iff_of_true (hdropped.restarted _ _) fun p hp => ?_
    obtain rfl := Option.some.inj (hparent.symm.trans hp)
    exact ⟨parent, hgetp, habsorbs⟩
  | @escalated _ _ parent before after _ _ hattached' habsorbs hup =>
    refine iff_of_false ?_ ?_
    · intro hcontained
      have hgone : r'.get parent.id = none := hup.get_eq_none (by simp)
      rcases (hcontained.gone parent.id).mp hgone with hnone | hbelow
      · rw [hattached'.get] at hnone
        cases hnone
      · have hmem := (mem_ids_iff_below hr hattached).mpr hbelow
        exact hattached.outside _ hattached'.parent_kid hmem
    · intro hall
      obtain ⟨parent', hget', habsorbs'⟩ := hall _ hattached'.parent_kid
      obtain rfl := Option.some.inj (hattached'.get.symm.trans hget')
      exact habsorbs habsorbs'

/-- An agent that escalates, with one child, under a parent that counts restarts. -/
def crew : List AgentOp :=
  [.spawn 1 none (configOf "root" .restartOne), .spawn 2 (some 1) (configOf "group" .escalate),
    .spawn 3 (some 2) (configOf "worker" .permanent)]

theorem crew_isSome : (crew.foldlM (exec 20) new).isSome := by decide +kernel

/-- The root absorbs three reports: the death of agent 2 and its escalation, when its child has
died, and once more the death of agent 2. -/
theorem kill_contained_crew :
    ∃ r r', crew.foldlM (exec 20) new = some r ∧ r.Kills 2 (.ok ()) r' ∧ r.Contained 2 r' ∧
      (r'.get 1).map Agent.restartCount = some 3 := by
  obtain ⟨r, hr, hroot, hgroup, hworker, hrun⟩ : ∃ r, crew.foldlM (exec 20) new = some r ∧
      r.get 1 = some (agentOf 1 "root" .restartOne none [2]) ∧
      r.get 2 = some (agentOf 2 "group" .escalate (some 1) [3]) ∧
      r.get 3 = some (agentOf 3 "worker" .permanent (some 2) []) ∧
      (kill 20 r 2).map (fun x => (x.2.get 1).map Agent.restartCount) = some (some 3) :=
    ⟨_, (Option.some_get crew_isSome).symm, by decide +kernel, by decide +kernel,
      by decide +kernel, by decide +kernel⟩
  obtain ⟨kids, r', hattached, hkills, hiff⟩ := kill_contained (reachable_of_exec hr) hgroup
  have hleaf : (RoseTree.node (agentOf 3 "worker" .permanent (some 2) []) []).All r.Holds :=
    .node ⟨hworker, rfl, by simp⟩ (by simp)
  have hholds : (RoseTree.node (agentOf 2 "group" .escalate (some 1) [3])
      [.node (agentOf 3 "worker" .permanent (some 2) []) []]).All r.Holds :=
    .node ⟨hgroup, rfl, by decide⟩ (by simpa using hleaf)
  obtain ⟨-, rfl⟩ := RoseTree.node.inj (holds_unique hattached.holds hholds rfl)
  obtain ⟨⟨result, r''⟩, hkill, hcount⟩ := Option.map_eq_some_iff.mp hrun
  obtain ⟨-, rfl⟩ := hkills.unique ⟨20, hkill⟩
  refine ⟨r, r', hr, hkills, hiff.mpr fun p hp => ?_, hcount⟩
  obtain rfl := Option.some.inj hp
  exact ⟨_, hroot, by decide⟩

/-- An agent with two children: one has none itself, the other escalates and has three. -/
def supervised : List AgentOp :=
  [.spawn 1 none (configOf "root" .restartOne), .spawn 2 (some 1) (configOf "group" .escalate),
    .spawn 3 (some 2) (configOf "worker" .permanent),
    .spawn 4 (some 2) (configOf "worker" .permanent),
    .spawn 5 (some 2) (configOf "worker" .permanent), .spawn 6 (some 1) (configOf "log" .permanent)]

theorem supervised_isSome : (supervised.foldlM (exec 20) new).isSome := by decide +kernel

/-- The root and the agent that escalates, as they are after these calls. -/
theorem supervised_run : ∃ r, supervised.foldlM (exec 20) new = some r ∧
    r.get 1 = some (agentOf 1 "root" .restartOne none [2, 6]) ∧
    r.get 2 = some (agentOf 2 "group" .escalate (some 1) [3, 4, 5]) ∧
    (kill 20 r 2).map (fun x => (x.1.isOk, x.2.get 1)) = some (true, none) :=
  ⟨_, (Option.some_get supervised_isSome).symm, by decide +kernel, by decide +kernel,
    by decide +kernel⟩

/-- **A kill that is not contained.**  Agent 1 has counted no death of the five it may, and its
policy is to restart one.  Killing agent 2 reports seven deaths to it, and it is killed as well. -/
theorem kill_escapes :
    ∃ r r', system.Reachable r ∧
      (∀ x agent, Relation.TransGen r.ParentOf 2 x → r.get x = some agent →
        agent.restartCount < agent.maxRestarts ∧ agent.config.restartPolicy ≠ .escalate) ∧
      r.Kills 2 (.ok ()) r' ∧ r'.get 1 = none ∧ ¬r.Contained 2 r' := by
  obtain ⟨r, hr, hroot, hgroup, hrun⟩ := supervised_run
  obtain ⟨⟨result, r'⟩, hkill, hgone⟩ := Option.map_eq_some_iff.mp hrun
  obtain ⟨hresult, hgone⟩ := Prod.mk.inj hgone
  have hok : result = .ok () := by
    cases result with
    | error message => cases hresult
    | ok _ => rfl
  subst hok
  have habove : ∀ x, Relation.TransGen r.ParentOf 2 x → x = 1 := by
    intro x hx
    obtain ⟨p, ⟨agent, hget, hp⟩, hup⟩ := Relation.TransGen.head'_iff.mp hx
    obtain rfl := Option.some.inj (hgroup.symm.trans hget)
    obtain rfl := Option.some.inj hp
    rcases hup.cases_head with rfl | ⟨q, ⟨agent, hget, hq⟩, -⟩
    · rfl
    · obtain rfl := Option.some.inj (hroot.symm.trans hget)
      cases hq
  refine ⟨r, r', reachable_of_exec hr, ?_, ⟨20, hkill⟩, hgone, ?_⟩
  · intro x agent hx hget
    obtain rfl := habove x hx
    obtain rfl := Option.some.inj (hroot.symm.trans hget)
    decide
  · intro hcontained
    rcases (hcontained.gone 1).mp hgone with hnone | hbelow
    · rw [hroot] at hnone
      cases hnone
    · rcases hbelow.cases_head with heq | ⟨q, ⟨agent, hget, hq⟩, -⟩
      · cases heq
      · obtain rfl := Option.some.inj (hroot.symm.trans hget)
        cases hq

end AgentRegistry

end OxideOS
