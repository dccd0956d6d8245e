import OxideOS.Agent.CallLog
import OxideOS.Lib.RoseTree

/-!
# Killing a subtree

The agents below an agent form a tree, which the registry spells out by its lists of children.
Killing the root of such a tree drops the whole tree, and then reports the death of the root to its
parent.  Not always once: while its children die an agent may come to escalate, and then it is
killed again from within its own death, once for each child that is left, and each of these deaths
and each of the escalations is reported.

How often the death of a root is reported, and what the log says until then, are functions of the
tree.

## Main definitions

* `AgentRegistry.Linked`, `AgentRegistry.Attached`: lists of children that are right, and a tree
  that the registry holds
* `Agent.Absorbs`: an agent takes so many deaths without escalating
* `AgentTree.reports`: how often the death of the root of a tree is reported
* `AgentTree.deaths`: the log of a kill, until the root is removed
* `AgentRegistry.LogsTimes`: so many reports of one death

## Main results

* `AgentRegistry.logs_of_attached`: killing the root of a tree drops the tree, and reports so often
-/

namespace OxideOS

/-- An agent with the agents below it. -/
abbrev AgentTree := RoseTree Agent

namespace AgentTree

/-- The ids of the agents of a tree, in the order in which they die. -/
def ids (t : AgentTree) : List AgentId := t.postorder.map Agent.id

/-- The ids of the agents of several trees. -/
def idsAll (ts : List AgentTree) : List AgentId := (RoseTree.postorderAll ts).map Agent.id

variable {agent : Agent} {t : AgentTree} {kids ts : List AgentTree}

@[simp] theorem ids_node : ids (.node agent kids) = idsAll kids ++ [agent.id] := by
  simp [ids, idsAll]

@[simp] theorem idsAll_nil : idsAll [] = [] := by simp [idsAll]

@[simp] theorem idsAll_cons : idsAll (t :: ts) = ids t ++ idsAll ts := by simp [ids, idsAll]

theorem idsAll_append (ts ts' : List AgentTree) : idsAll (ts ++ ts') = idsAll ts ++ idsAll ts' := by
  induction ts with
  | nil => simp
  | cons t ts ih => simp [ih]

theorem label_id_mem_ids (t : AgentTree) : t.label.id ∈ ids t :=
  List.mem_map_of_mem t.label_mem_postorder

theorem mem_idsAll {x : AgentId} : x ∈ idsAll ts ↔ ∃ t ∈ ts, x ∈ ids t := by
  simp only [idsAll, ids, List.mem_map, RoseTree.mem_postorderAll]
  constructor
  · rintro ⟨agent, ⟨t, ht, hagent⟩, rfl⟩
    exact ⟨t, ht, agent, hagent, rfl⟩
  · rintro ⟨t, ht, agent, hagent, rfl⟩
    exact ⟨agent, ⟨t, ht, hagent⟩, rfl⟩

end AgentTree

open AgentTree (ids idsAll ids_node idsAll_nil idsAll_cons)

namespace Agent

/-- The agent takes so many deaths of children, at least one, without escalating. -/
def Absorbs (agent : Agent) (deaths : Nat) : Prop :=
  ¬agent.Escalates ∧ agent.restartCount + agent.counts deaths ≤ agent.maxRestarts

instance (agent : Agent) (deaths : Nat) : Decidable (agent.Absorbs deaths) :=
  inferInstanceAs (Decidable (_ ∧ _))

variable {agent agent' : Agent} {n m : Nat}

theorem counts_restarted (agent : Agent) (n m : Nat) :
    (agent.restarted n).counts m = agent.counts m := rfl

theorem counts_add (agent : Agent) (n m : Nat) :
    agent.counts (n + m) = agent.counts n + agent.counts m := by
  rw [counts, counts, counts]
  cases agent.config.restartPolicy <;> rfl

theorem restarted_restarted (agent : Agent) (n m : Nat) :
    (agent.restarted n).restarted m = agent.restarted (n + m) := by
  simp [restarted, Nat.add_assoc]

/-- Absorbing one death after the other. -/
theorem absorbs_succ (hn : 0 < n) :
    agent.Absorbs (1 + n) ↔ ¬agent.Escalates ∧ (agent.restarted (agent.counts 1)).Absorbs n := by
  simp only [Absorbs, Escalates, counts_add, counts_restarted]
  simp only [restarted]
  cases hpolicy : agent.config.restartPolicy <;> simp [counts, hpolicy] <;> omega

/-- One death counts for one at most. -/
theorem counts_one_le (agent : Agent) : agent.counts 1 ≤ 1 := by
  rw [counts]
  cases agent.config.restartPolicy <;> decide

/-- An agent that does not escalate has room for one death. -/
theorem absorbs_one : agent.Absorbs 1 ↔ ¬agent.Escalates := by
  rw [Absorbs, and_iff_left_iff_imp, Escalates]
  intro hesc
  rw [not_or] at hesc
  have hone := agent.counts_one_le
  omega

/-- What matters for a report is the same. -/
structure Alike (agent agent' : Agent) : Prop where
  id : agent'.id = agent.id
  config : agent'.config = agent.config
  restartCount : agent'.restartCount = agent.restartCount
  maxRestarts : agent'.maxRestarts = agent.maxRestarts

theorem Alike.escalates_iff (h : agent.Alike agent') : agent'.Escalates ↔ agent.Escalates := by
  rw [Escalates, Escalates, h.config, h.restartCount, h.maxRestarts]

theorem Alike.absorbs_iff (h : agent.Alike agent') : agent'.Absorbs n ↔ agent.Absorbs n := by
  rw [Absorbs, Absorbs, h.escalates_iff, counts, counts, h.config, h.restartCount, h.maxRestarts]

theorem Alike.restarted (h : agent.Alike agent') :
    (agent.restarted (agent.counts n)).Alike (agent'.restarted (agent'.counts n)) := by
  refine ⟨h.id, h.config, ?_, h.maxRestarts⟩
  simp only [Agent.restarted, counts, h.config, h.restartCount]

/-- An agent that does not absorb the deaths escalates after them, or did before. -/
theorem escalates_restarted (h : ¬agent.Absorbs n) :
    (agent.restarted (agent.counts n)).Escalates := by
  rw [Absorbs, not_and] at h
  by_cases hesc : agent.Escalates
  · exact hesc.imp_left fun hmax => hmax.trans (Nat.le_add_right _ _)
  · exact .inl (Nat.le_of_lt (Nat.not_le.mp (h hesc)))

/-- What the agent is told when the death of a child is reported so often.  It escalates once, and
is gone after that. -/
def hears : Agent → AgentId → Nat → List AgentEvent
  | _, _, 0 => []
  | agent, child, n + 1 =>
    if agent.Escalates then [.notified agent.id child true]
    else .notified agent.id child false :: hears (agent.restarted (agent.counts 1)) child n

theorem Alike.hears_eq (h : agent.Alike agent') (child : AgentId) (n : Nat) :
    agent'.hears child n = agent.hears child n := by
  induction n generalizing agent agent' with
  | zero => rfl
  | succ n ih =>
    rw [hears, hears, ih h.restarted, h.id]
    exact if_congr h.escalates_iff rfl rfl

end Agent

namespace AgentTree

mutual

/-- How often the death of the root is reported to its parent when it is killed: once, unless it
comes to escalate. -/
def reports : AgentTree → Nat
  | .node agent kids =>
    match escalatesAt agent kids with
    | none => 1
    | some left => 2 * left + 3

/-- Whether the agent comes to escalate while these children die, and then how many are left. -/
def escalatesAt : Agent → List AgentTree → Option Nat
  | _, [] => none
  | agent, t :: ts =>
    if agent.Absorbs (reports t) then
      escalatesAt (agent.restarted (agent.counts (reports t))) ts
    else some ts.length

end

mutual

/-- What happens while the agents below the root die, and it is told of them. -/
def deaths : AgentTree → List AgentEvent
  | .node agent kids => deathsAll agent kids

/-- What happens while these children of an agent die.  An agent that has escalated is told of every
child that was left then. -/
def deathsAll : Agent → List AgentTree → List AgentEvent
  | _, [] => []
  | agent, t :: ts =>
    deaths t ++ (.removed t.label.id agent.id :: (agent.hears t.label.id (reports t) ++
      deathsAll (agent.restarted (agent.counts (reports t))) ts))

end

/-- Every death is reported. -/
theorem reports_pos (t : AgentTree) : 0 < reports t := by
  cases t with
  | node agent kids =>
    rw [reports]
    split
    · exact Nat.one_pos
    · exact Nat.succ_pos _

theorem escalatesAt_alike {agent agent' : Agent} (h : agent.Alike agent') (kids : List AgentTree) :
    escalatesAt agent' kids = escalatesAt agent kids := by
  induction kids generalizing agent agent' with
  | nil => rw [escalatesAt, escalatesAt]
  | cons t ts ih => rw [escalatesAt, escalatesAt, ih h.restarted, if_congr h.absorbs_iff rfl rfl]

theorem deathsAll_alike {agent agent' : Agent} (h : agent.Alike agent') (kids : List AgentTree) :
    deathsAll agent' kids = deathsAll agent kids := by
  induction kids generalizing agent agent' with
  | nil => rw [deathsAll, deathsAll]
  | cons t ts ih => rw [deathsAll, deathsAll, ih h.restarted, h.hears_eq, h.id]

/-- For an agent that escalates it does not matter how many deaths it has counted. -/
theorem deathsAll_of_escalates {agent : Agent} (h : agent.Escalates) (kids : List AgentTree)
    (n : Nat) : deathsAll (agent.restarted n) kids = deathsAll agent kids := by
  induction kids generalizing agent n with
  | nil => rw [deathsAll, deathsAll]
  | cons t ts ih =>
    have hmore : ∀ m, (agent.restarted m).Escalates := fun m =>
      h.imp_left fun hmax => hmax.trans (Nat.le_add_right _ _)
    obtain ⟨k, hk⟩ := Nat.exists_eq_succ_of_ne_zero (reports_pos t).ne'
    have hhears : (agent.restarted n).hears t.label.id (reports t) =
        agent.hears t.label.id (reports t) := by
      rw [hk, Agent.hears, Agent.hears, if_pos h, if_pos (hmore n)]
      rfl
    rw [deathsAll, deathsAll, ih (hmore n), ih h, ih h, hhears]
    rfl

/-- An agent that escalates at once is killed again for each child. -/
theorem reports_of_escalates {agent : Agent} (h : agent.Escalates) (kids : List AgentTree) :
    reports (.node agent kids) = 2 * kids.length + 1 := by
  cases kids with
  | nil => rw [reports, escalatesAt]; rfl
  | cons t ts =>
    rw [reports, escalatesAt, if_neg fun habsorbs => habsorbs.1 h, List.length_cons]
    rfl

end AgentTree

open AgentTree (reports escalatesAt deathsAll)

namespace AgentRegistry

variable {r r' r'' : AgentRegistry} {a p x : AgentId} {agent : Agent} {f : Agent → Agent}
  {parentId : Option AgentId} {t : AgentTree} {kids ts : List AgentTree} {n m : Nat}
  {dropped : List AgentId} {log log₁ log₂ outer : List AgentEvent}

/-! ## Reports -/

/-- So many reports of a death leave this log and this registry. -/
inductive LogsTimes (parentId : Option AgentId) (a : AgentId) :
    Nat → AgentRegistry → List AgentEvent → AgentRegistry → Prop
  | zero (r : AgentRegistry) : LogsTimes parentId a 0 r [] r
  | succ {n : Nat} {r r₁ r₂ : AgentRegistry} {log₁ log₂ : List AgentEvent}
      (hfirst : Logs r (.report parentId a) log₁ r₁)
      (hrest : LogsTimes parentId a n r₁ log₂ r₂) :
      LogsTimes parentId a (n + 1) r (log₁ ++ log₂) r₂

/-- The last report. -/
theorem LogsTimes.last (h : LogsTimes parentId a (n + 1) r log r') :
    ∃ r₁ log₁ log₂, LogsTimes parentId a n r log₁ r₁ ∧ Logs r₁ (.report parentId a) log₂ r' ∧
      log = log₁ ++ log₂ := by
  induction n generalizing r log with
  | zero =>
    cases h with
    | succ hfirst hrest =>
      cases hrest
      exact ⟨r, [], _, .zero r, hfirst, List.append_nil _⟩
  | succ n ih =>
    cases h with
    | succ hfirst hrest =>
      obtain ⟨r₁, log₁, log₂, hbefore, hlast, rfl⟩ := ih hrest
      exact ⟨r₁, _, log₂, .succ hfirst hbefore, hlast, (List.append_assoc _ _ _).symm⟩

theorem LogsTimes.one (h : LogsTimes parentId a 1 r log r') :
    Logs r (.report parentId a) log r' := by
  obtain ⟨r₁, log₁, log₂, hzero, hlast, rfl⟩ := h.last
  cases hzero
  exact hlast

theorem LogsTimes.shrinks (h : LogsTimes parentId a n r log r') : r.Shrinks r' := by
  induction h with
  | zero r => exact .refl r
  | succ hfirst _ ih => exact hfirst.shrinks.trans ih

/-- Nobody is told of the death of a root. -/
theorem logsTimes_none (r : AgentRegistry) (a : AgentId) (n : Nat) : LogsTimes none a n r [] r := by
  induction n with
  | zero => exact .zero r
  | succ n ih => exact .succ .reportNone ih

/-- An agent that is gone takes no notice. -/
theorem logsTimes_of_none (h : r.get p = none) (n : Nat) : LogsTimes (some p) a n r [] r := by
  induction n with
  | zero => exact .zero r
  | succ n ih => exact .succ (.reportGone h) ih

/-- Counting one death and then others. -/
theorem modify_restarted (r : AgentRegistry) (p : AgentId) (agent : Agent) (n : Nat) :
    (r.modify p (Agent.restarted (agent.counts 1))).modify p (Agent.restarted (agent.counts n)) =
      r.modify p (Agent.restarted (agent.counts (n + 1))) := by
  rw [modify_modify]
  congr 1
  ext1 agent'
  rw [Function.comp_apply, Agent.restarted_restarted, Nat.add_comm n 1, Agent.counts_add]

theorem get_modify_self (hget : r.get p = some agent) (f : Agent → Agent) :
    (r.modify p f).get p = some (f agent) := by
  rw [get_modify, if_pos rfl, hget]
  rfl

theorem isSome_get_modify (r : AgentRegistry) (a : AgentId) (f : Agent → Agent) (x : AgentId) :
    ((r.modify a f).get x).isSome = (r.get x).isSome := by
  rw [get_modify]
  split
  · exact Option.isSome_map
  · rfl

/-- An agent that absorbs the deaths counts them. -/
theorem logsTimes_of_absorbs (hn : 0 < n) (hget : r.get agent.id = some agent)
    (h : agent.Absorbs n) :
    LogsTimes (some agent.id) a n r (agent.hears a n)
      (r.modify agent.id (Agent.restarted (agent.counts n))) := by
  induction n generalizing r agent with
  | zero => cases hn
  | succ n ih =>
    rw [Agent.hears, if_neg h.1]
    have hfirst : Logs r (.report (some agent.id) a) _ _ := .reportAbsorbed hget h.1
    rcases Nat.eq_zero_or_pos n with rfl | hpos
    · exact .succ hfirst (.zero _)
    · rw [Nat.add_comm, Agent.absorbs_succ hpos] at h
      have hrest := ih hpos (get_modify_self hget _) h.2
      rw [Agent.counts_restarted, show (agent.restarted _).id = agent.id from rfl,
        modify_restarted] at hrest
      exact .succ hfirst hrest

/-! ## Trees in the registry -/

/-- Every child that is listed is registered, with that parent. -/
def Linked (r : AgentRegistry) : Prop :=
  ∀ p parent c, r.get p = some parent → c ∈ parent.children →
    ∃ child, r.get c = some child ∧ child.parent = some p

/-- The registry holds the agent, with these agents as its children. -/
structure Holds (r : AgentRegistry) (agent : Agent) (kids : List Agent) : Prop where
  get : r.get agent.id = some agent
  children : agent.children = kids.map Agent.id
  parent : ∀ kid ∈ kids, kid.parent = some agent.id

/-- The registry holds the tree, and the parent of its root is outside. -/
structure Attached (r : AgentRegistry) (t : AgentTree) : Prop where
  linked : r.Linked
  holds : t.All r.Holds
  nodup : (ids t).Nodup
  outside : ∀ p ∈ t.label.parent, p ∉ ids t

theorem Linked.modify (h : r.Linked) (hf : Agent.Inner f) : (r.modify a f).Linked := by
  intro p parent c hp hc
  have hback : ∀ x agent', (r.modify a f).get x = some agent' → ∃ agent, r.get x = some agent ∧
      agent'.children = agent.children ∧ agent'.parent = agent.parent := by
    intro x agent' hx
    rw [get_modify] at hx
    split at hx
    · obtain ⟨agent, hagent, rfl⟩ := Option.map_eq_some_iff.mp hx
      exact ⟨agent, hagent, hf.children agent, hf.parent agent⟩
    · exact ⟨agent', hx, rfl, rfl⟩
  obtain ⟨parent', hparent', hchildren, -⟩ := hback p parent hp
  rw [hchildren] at hc
  obtain ⟨child, hchild, hparent⟩ := h p parent' c hparent' hc
  rw [get_modify, hchild]
  split
  · exact ⟨f child, rfl, (hf.parent child).trans hparent⟩
  · exact ⟨child, rfl, hparent⟩

/-- Dropping an agent keeps the links. -/
theorem Linked.drop (h : r.Linked) (a : AgentId) : (r.drop a).Linked := by
  intro p parent c hp hc
  rw [get_drop] at hp
  split at hp
  · cases hp
  · obtain ⟨parent', hparent', rfl⟩ := Option.map_eq_some_iff.mp hp
    obtain ⟨hmem, hne⟩ := List.mem_filter.mp hc
    obtain ⟨child, hchild, hparent⟩ := h p parent' c hparent' hmem
    rw [get_drop, if_neg (of_decide_eq_true hne), hchild]
    exact ⟨child.forget a, rfl, hparent⟩

theorem Linked.dropAll (h : r.Linked) (dropped : List AgentId) : (r.dropAll dropped).Linked := by
  induction dropped generalizing r with
  | nil => exact h
  | cons a dropped ih => exact ih (h.drop a)

/-- Taking an agent out of the list of its parent is taking it out of all lists. -/
theorem unregister_detach (h : r.Linked) (hget : r.get a = some agent) :
    ((r.detach agent.parent a).unregister a).2 = r.drop a := by
  refine ext_get (fun x => ?_) ?_
  · rw [get_unregister, get_drop, get_detach]
    by_cases hxa : x = a
    · rw [if_pos hxa, if_pos hxa]
    · rw [if_neg hxa, if_neg hxa]
      by_cases hparent : agent.parent = some x
      · rw [if_pos hparent]
      · rw [if_neg hparent]
        cases hx : r.get x with
        | none => rfl
        | some other =>
          have hnot : a ∉ other.children := by
            intro hmem
            obtain ⟨child, hchild, hp⟩ := h x other a hx hmem
            obtain rfl := Option.some.inj (hget.symm.trans hchild)
            exact hparent hp
          rw [Option.map_some, Agent.forget_of_notMem hnot]
  · rw [nameIndex_unregister, nameIndex_drop, nameIndex_detach, get_detach, hget]
    by_cases hparent : agent.parent = some a
    · rw [if_pos hparent]
      rfl
    · rw [if_neg hparent]

/-- An agent that is gone, and in no list, can be taken out again. -/
theorem unregister_detach_of_none (hget : r.get a = none)
    (hlists : ∀ p parent, r.get p = some parent → a ∉ parent.children) :
    ((r.detach parentId a).unregister a).2 = r := by
  have hdetach : r.detach parentId a = r := by
    cases parentId with
    | none => rfl
    | some p => exact modify_of_eq fun parent hp => Agent.forget_of_notMem (hlists p parent hp)
  rw [hdetach, unregister_of_none hget]

/-- A tree is not touched by dropping agents outside of it. -/
theorem holds_dropAll (h : t.All r.Holds) (hdisjoint : ∀ x ∈ ids t, x ∉ dropped) :
    t.All (r.dropAll dropped).Holds := by
  refine h.imp fun agent kids hagent hkids hholds => ?_
  have hmem : ∀ {agent'}, agent' ∈ t.postorder → agent'.id ∉ dropped := fun hagent' =>
    hdisjoint _ (List.mem_map_of_mem hagent')
  refine ⟨?_, hholds.children, hholds.parent⟩
  have hsame : agent.forgetAll dropped = agent := by
    have hfilter : agent.children.filter (· ∉ dropped) = agent.children := by
      rw [List.filter_eq_self, hholds.children]
      intro c hc
      obtain ⟨kid, hkid, rfl⟩ := List.mem_map.mp hc
      exact decide_eq_true (hmem (hkids kid hkid))
    rw [Agent.forgetAll, hfilter]
  rw [get_dropAll, if_neg (hmem hagent), hholds.get, Option.map_some, hsame]

/-- Nor is it touched by a change inside an agent outside of it. -/
theorem holds_modify (h : t.All r.Holds) (ha : a ∉ ids t) : t.All (r.modify a f).Holds := by
  refine h.imp fun agent kids hagent _ hholds => ⟨?_, hholds.children, hholds.parent⟩
  have hne : agent.id ≠ a := by
    rintro rfl
    exact ha (List.mem_map_of_mem hagent)
  rw [get_modify, if_neg hne, hholds.get]

section Attached

variable {c : AgentTree} {before after : List AgentTree}

theorem Attached.get (h : r.Attached (.node agent kids)) : r.get agent.id = some agent :=
  h.holds.root.get

theorem Attached.get_label (h : r.Attached t) : r.get t.label.id = some t.label := by
  obtain ⟨agent, kids⟩ := t
  exact h.get

theorem Attached.children (h : r.Attached (.node agent kids)) :
    agent.children = kids.map fun t => t.label.id := by
  rw [h.holds.root.children, List.map_map]
  rfl

theorem Attached.notMem_idsAll (h : r.Attached (.node agent kids)) : agent.id ∉ idsAll kids := by
  have hnodup := h.nodup
  rw [ids_node, List.nodup_append] at hnodup
  exact fun hmem => hnodup.2.2 _ hmem _ (List.mem_singleton_self _) rfl

/-- The ids of the tree, those below one child first. -/
theorem ids_perm (agent : Agent) (before after : List AgentTree) (c : AgentTree) :
    (ids (.node agent (before ++ c :: after))).Perm
      (ids c ++ ids (.node agent (before ++ after))) := by
  simp only [ids_node, AgentTree.idsAll_append, idsAll_cons]
  rw [← List.append_assoc (ids c)]
  refine .append_right _ ?_
  rw [← List.append_assoc, ← List.append_assoc]
  exact .append_right _ List.perm_append_comm

/-- The tree of a child. -/
theorem Attached.kid (h : r.Attached (.node agent (before ++ c :: after))) : r.Attached c where
  linked := h.linked
  holds := h.holds.kid (by simp)
  nodup := ((ids_perm agent before after c).nodup_iff.mp h.nodup).of_append_left
  outside := by
    intro p hp hmem
    rw [h.holds.root.parent c.label (by simp)] at hp
    obtain rfl := Option.some.inj hp
    exact h.notMem_idsAll (AgentTree.mem_idsAll.mpr ⟨c, by simp, hmem⟩)

/-- A change inside the root. -/
theorem Attached.modify (h : r.Attached (.node agent kids)) (hf : Agent.Inner f) :
    (r.modify agent.id f).Attached (.node (f agent) kids) := by
  have hids : ids (.node (f agent) kids) = ids (.node agent kids) := by
    rw [ids_node, ids_node, hf.id]
  refine ⟨h.linked.modify hf, .node ⟨?_, ?_, ?_⟩ fun t ht => ?_, ?_, ?_⟩
  · rw [hf.id]
    exact get_modify_self h.get f
  · rw [hf.children]
    exact h.holds.root.children
  · rw [hf.id]
    exact h.holds.root.parent
  · exact holds_modify (h.holds.kid ht) fun hmem =>
      h.notMem_idsAll (AgentTree.mem_idsAll.mpr ⟨t, ht, hmem⟩)
  · rw [hids]
    exact h.nodup
  · rw [hids, RoseTree.label_node, hf.parent]
    exact h.outside

/-- Once the tree of a child is gone. -/
theorem Attached.without (h : r.Attached (.node agent (before ++ c :: after))) :
    (r.dropAll (ids c)).Attached (.node (agent.forgetAll (ids c)) (before ++ after)) := by
  have hperm := ids_perm agent before after c
  obtain ⟨-, hrest, hdisjoint⟩ := List.nodup_append.mp (hperm.nodup_iff.mp h.nodup)
  have hagent : agent.id ∉ ids c := fun hmem => hdisjoint _ hmem _ (by simp) rfl
  have hkids : ∀ t ∈ before ++ after, ∀ x ∈ ids t, x ∉ ids c := by
    intro t ht x hx hmem
    have hall : x ∈ idsAll (before ++ after) := AgentTree.mem_idsAll.mpr ⟨t, ht, hx⟩
    exact hdisjoint x hmem x (by simp [hall]) rfl
  have hchildren : (agent.forgetAll (ids c)).children =
      (before ++ after).map fun t => t.label.id := by
    have hkeep : ∀ ts, ts ⊆ before ++ after →
        (ts.map fun t : AgentTree => t.label.id).filter (· ∉ ids c) =
          ts.map fun t => t.label.id := by
      intro ts hts
      rw [List.filter_eq_self]
      intro x hx
      obtain ⟨t, ht, rfl⟩ := List.mem_map.mp hx
      exact decide_eq_true (hkids t (hts ht) _ t.label_id_mem_ids)
    rw [Agent.forgetAll, h.children, List.map_append, List.map_cons, List.filter_append,
      List.filter_cons_of_neg (by simpa using c.label_id_mem_ids),
      hkeep before (List.subset_append_left _ _), hkeep after (List.subset_append_right _ _),
      ← List.map_append]
  have hids : ids (.node (agent.forgetAll (ids c)) (before ++ after)) =
      ids (.node agent (before ++ after)) := by
    rw [ids_node, ids_node]
    rfl
  refine ⟨h.linked.dropAll _, .node ⟨?_, ?_, ?_⟩ fun t ht => ?_, hids ▸ hrest, ?_⟩
  · show (r.dropAll (ids c)).get agent.id = _
    rw [get_dropAll, if_neg hagent, h.get, Option.map_some]
  · rw [hchildren, List.map_map]
    rfl
  · intro kid hkid
    refine h.holds.root.parent kid ?_
    rw [List.map_append] at hkid ⊢
    exact (List.mem_append.mp hkid).elim (List.mem_append_left _)
      fun hafter => List.mem_append_right _ (List.mem_cons_of_mem _ hafter)
  · refine holds_dropAll (h.holds.kid ?_) (hkids t ht)
    exact (List.mem_append.mp ht).elim (List.mem_append_left _)
      fun hafter => List.mem_append_right _ (List.mem_cons_of_mem _ hafter)
  · intro p hp hmem
    rw [hids] at hmem
    exact h.outside p hp (hperm.mem_iff.mpr (List.mem_append_right _ hmem))

/-- The tree of the first child. -/
theorem Attached.first (h : r.Attached (.node agent (c :: kids))) : r.Attached c :=
  Attached.kid (show r.Attached (.node agent ([] ++ c :: kids)) from h)

/-- Once the tree of the first child is gone. -/
theorem Attached.next (h : r.Attached (.node agent (c :: kids))) :
    (r.dropAll (ids c)).Attached (.node (agent.forgetAll (ids c)) kids) :=
  Attached.without (show r.Attached (.node agent ([] ++ c :: kids)) from h)

end Attached

/-! ## Killing the root of a tree -/

/-- What is changed inside the root of a tree is lost with the tree. -/
theorem dropAll_modify_root (hf : Agent.Inner f) (hmem : a ∉ idsAll kids) :
    (r.modify a f).dropAll (idsAll kids ++ [a]) = r.dropAll (idsAll kids ++ [a]) := by
  rw [dropAll_append, dropAll_append, dropAll_modify hf hmem]
  exact drop_modify_self hf

/-- The statement of `logs_of_attached` for one tree. -/
def LogsTree (t : AgentTree) : Prop :=
  ∀ (r r' : AgentRegistry) (outer : List AgentEvent), r.Attached t →
    LogsTimes t.label.parent t.label.id (reports t) (r.dropAll (ids t)) outer r' →
      Logs r (.kill t.label.id) (t.deaths ++ (r.removal t.label.parent t.label.id ++ outer)) r'

theorem LogsTree.node (h : LogsTree (.node agent kids)) (hr : r.Attached (.node agent kids))
    (hn : reports (.node agent kids) = n)
    (hreports : LogsTimes agent.parent agent.id n (r.dropAll (ids (.node agent kids))) outer r') :
    Logs r (.kill agent.id) (deathsAll agent kids ++ (r.removal agent.parent agent.id ++ outer))
      r' := by
  have hlogs := h r r' outer hr (hn ▸ hreports)
  rwa [AgentTree.deaths] at hlogs

section Loop

variable {c : AgentTree} {before after : List AgentTree}

/-- Dropping the first child's tree, and then the rest with whatever has changed inside the root. -/
theorem Attached.dropAll_next (h : r.Attached (.node agent (c :: kids))) (hf : Agent.Inner f) :
    ((r.dropAll (ids c)).modify agent.id f).dropAll (idsAll kids ++ [agent.id]) =
      r.dropAll (ids (.node agent (c :: kids))) := by
  have hmem : agent.id ∉ idsAll kids := h.next.notMem_idsAll
  rw [ids_node, idsAll_cons, List.append_assoc, dropAll_append r, dropAll_modify_root hf hmem]

theorem Attached.parent_first (h : r.Attached (.node agent (c :: kids))) :
    c.label.parent = some agent.id :=
  h.holds.root.parent c.label (by simp)

theorem isSome_get_dropAll (r : AgentRegistry) (h : p ∉ dropped) :
    ((r.dropAll dropped).get p).isSome = (r.get p).isSome := by
  rw [get_dropAll, if_neg h, Option.isSome_map]

/-- The removal of the root is recorded as before when other agents have been dropped. -/
theorem Attached.removal_eq (h : r.Attached (.node agent kids)) {s : AgentRegistry}
    {agent' : Agent} (hget : s.get agent.id = some agent')
    (hs : ∀ p ∈ agent.parent, (s.get p).isSome = (r.get p).isSome) :
    s.removal agent.parent agent.id = r.removal agent.parent agent.id := by
  refine removal_congr ?_ hs
  rw [hget, h.get]
  rfl

/-- The root is told of the death of an agent, and does not absorb the reports: it is killed, with
its tree, and its own death is reported. -/
theorem Attached.logsTimes_of_not_absorbs (h : r.Attached (.node agent kids)) (hn : 0 < n)
    (hroot : ∀ agent', LogsTree (.node agent' kids)) (habsorbs : ¬agent.Absorbs n)
    (hreports : LogsTimes agent.parent agent.id (2 * kids.length + 2)
      (r.dropAll (ids (.node agent kids))) outer r') :
    LogsTimes (some agent.id) a n r (agent.hears a n ++
      (deathsAll (agent.restarted (agent.counts n)) kids ++
        (r.removal agent.parent agent.id ++ outer))) r' := by
  induction n generalizing r agent with
  | zero => cases hn
  | succ n ih =>
    rw [Agent.hears]
    by_cases hesc : agent.Escalates
    · obtain ⟨r₁, log₁, log₂, hdeaths, hlast, rfl⟩ := hreports.last
      have hkill := (hroot agent).node h (AgentTree.reports_of_escalates hesc kids) hdeaths
      have hgone : r'.get agent.id = none := by
        apply hreports.shrinks.get_eq_none
        rw [get_dropAll, if_pos (by simp)]
      have hfirst : Logs r (.report (some agent.id) a) _ r' :=
        .reportEscalated h.get hesc hkill hlast
      rw [if_pos hesc, AgentTree.deathsAll_of_escalates hesc]
      simpa using LogsTimes.succ hfirst (logsTimes_of_none hgone n)
    · have hpos : 0 < n := by
        rcases Nat.eq_zero_or_pos n with rfl | hpos
        · exact absurd (Agent.absorbs_one.mpr hesc) habsorbs
        · exact hpos
      rw [Nat.add_comm, Agent.absorbs_succ hpos, not_and] at habsorbs
      have hinner := Agent.inner_restarted (agent.counts 1)
      have hmodified := h.modify hinner
      rw [if_neg hesc]
      have hrest := ih hmodified hpos (habsorbs hesc) (by
        rw [ids_node]
        rw [ids_node, ← dropAll_modify_root hinner h.notMem_idsAll] at hreports
        exact hreports)
      rw [Agent.counts_restarted, Agent.restarted_restarted, ← Agent.counts_add,
        Nat.add_comm 1 n] at hrest
      have hremoval := h.removal_eq hmodified.get (s := r.modify agent.id _) fun p _ =>
        isSome_get_modify r _ _ p
      have hfirst : Logs r (.report (some agent.id) a) _ _ := .reportAbsorbed h.get hesc
      rw [← hremoval]
      have hall := LogsTimes.succ hfirst hrest
      exact hall

/-- The first child dies and its parent absorbs the deaths reported. -/
theorem Attached.absorbs (h : r.Attached (.node agent (c :: kids))) (hc : LogsTree c)
    (habsorbs : agent.Absorbs (reports c)) :
    ∃ r₁, Logs r (.kill c.label.id)
        (c.deaths ++ (.removed c.label.id agent.id :: agent.hears c.label.id (reports c))) r₁ ∧
      r₁.Attached (.node ((agent.forgetAll (ids c)).restarted (agent.counts (reports c))) kids) ∧
      r₁.dropAll (idsAll kids ++ [agent.id]) = r.dropAll (ids (.node agent (c :: kids))) := by
  have hinner := Agent.inner_restarted (agent.counts (reports c))
  have habsorbs' : (agent.forgetAll (ids c)).Absorbs (reports c) := habsorbs
  have hcount := logsTimes_of_absorbs (a := c.label.id) (AgentTree.reports_pos c) h.next.get
    habsorbs'
  have hkill := hc r _ _ h.first (by rw [h.parent_first]; exact hcount)
  refine ⟨_, ?_, h.next.modify hinner, h.dropAll_next hinner⟩
  have halike : agent.Alike (agent.forgetAll (ids c)) := ⟨rfl, rfl, rfl, rfl⟩
  rwa [h.parent_first, removal_some h.first.get_label (by rw [h.get]; rfl), halike.hears_eq,
    List.singleton_append] at hkill

/-- The tree of a child is gone, and its parent does not absorb the reports: it is killed, with the
children that are left. -/
theorem Attached.logsTimes_without (h : r.Attached (.node agent (before ++ c :: after)))
    (hn : 0 < n) (hroot : ∀ agent', LogsTree (.node agent' (before ++ after)))
    (habsorbs : ¬agent.Absorbs n)
    (hreports : LogsTimes agent.parent agent.id (2 * (before ++ after).length + 2)
      (r.dropAll (ids (.node agent (before ++ c :: after)))) outer r') :
    LogsTimes (some agent.id) c.label.id n (r.dropAll (ids c)) (agent.hears c.label.id n ++
      (deathsAll (agent.restarted (agent.counts n)) (before ++ after) ++
        (r.removal agent.parent agent.id ++ outer))) r' := by
  have halike : agent.Alike (agent.forgetAll (ids c)) := ⟨rfl, rfl, rfl, rfl⟩
  have hdrop : (r.dropAll (ids c)).dropAll
      (ids (.node (agent.forgetAll (ids c)) (before ++ after))) =
      r.dropAll (ids (.node agent (before ++ c :: after))) := by
    rw [dropAll_perm (ids_perm agent before after c), dropAll_append, ids_node, ids_node]
    rfl
  have hremoval : (r.dropAll (ids c)).removal (agent.forgetAll (ids c)).parent
      (agent.forgetAll (ids c)).id = r.removal agent.parent agent.id := by
    refine h.removal_eq h.without.get fun p hp => isSome_get_dropAll r fun hmem => ?_
    exact h.outside p hp ((ids_perm agent before after c).mem_iff.mpr
      (List.mem_append_left _ hmem))
  have hlogs := h.without.logsTimes_of_not_absorbs (a := c.label.id) hn hroot
    (mt halike.absorbs_iff.mp habsorbs) (hdrop.symm ▸ hreports)
  rwa [halike.hears_eq, AgentTree.deathsAll_alike halike.restarted, hremoval] at hlogs

/-- The first child dies and its parent comes to escalate: it is killed, with the children that are
left, from within the death of the first child. -/
theorem Attached.escalates (h : r.Attached (.node agent (c :: kids))) (hc : LogsTree c)
    (hroot : ∀ agent', LogsTree (.node agent' kids)) (habsorbs : ¬agent.Absorbs (reports c))
    (hreports : LogsTimes agent.parent agent.id (2 * kids.length + 2)
      (r.dropAll (ids (.node agent (c :: kids)))) outer r') :
    Logs r (.kill c.label.id) (deathsAll agent (c :: kids) ++
      (r.removal agent.parent agent.id ++ outer)) r' := by
  have hfirst : r.Attached (.node agent ([] ++ c :: kids)) := h
  have houter := hfirst.logsTimes_without (AgentTree.reports_pos c) hroot habsorbs hreports
  have hkill := hc r r' _ h.first (by rw [h.parent_first]; exact houter)
  rw [h.parent_first, removal_some h.first.get_label (by rw [h.get]; rfl)] at hkill
  rw [deathsAll]
  simpa using hkill

/-- Agents that are gone cannot be killed. -/
theorem logs_killAll_of_none {dead : List AgentId} (h : ∀ x ∈ dead, r.get x = none) :
    Logs r (.killAll dead) [] r := by
  induction dead with
  | nil => exact .nil
  | cons x dead ih =>
    exact .cons (.killNone (h x List.mem_cons_self))
      (ih fun y hy => h y (List.mem_cons_of_mem x hy))

/-- **The loop of `kill`**: if the root absorbs the deaths of its children, they are gone after it
and the root is left; otherwise the whole tree is gone, and reported as often as the root was killed
from within. -/
theorem Attached.logs_killAll (h : r.Attached (.node agent kids))
    (hsmaller : ∀ t : AgentTree, t.size < (RoseTree.node agent kids).size → LogsTree t) :
    (escalatesAt agent kids = none →
      ∃ r₁, Logs r (.killAll (kids.map fun t => t.label.id)) (deathsAll agent kids) r₁ ∧
        r₁.Linked ∧ (∃ agent₁, r₁.get agent.id = some agent₁ ∧ agent₁.parent = agent.parent) ∧
        r₁.drop agent.id = r.dropAll (ids (.node agent kids))) ∧
    ∀ left outer r', escalatesAt agent kids = some left →
      LogsTimes agent.parent agent.id (2 * left + 2) (r.dropAll (ids (.node agent kids))) outer
        r' →
        Logs r (.killAll (kids.map fun t => t.label.id))
          (deathsAll agent kids ++ (r.removal agent.parent agent.id ++ outer)) r' := by
  induction kids generalizing r agent with
  | nil =>
    rw [escalatesAt, deathsAll]
    refine ⟨fun _ => ⟨r, .nil, h.linked, ⟨agent, h.get, rfl⟩, ?_⟩, fun left outer r' hnone => ?_⟩
    · rw [ids_node, idsAll_nil]
      rfl
    · cases hnone
  | cons c kids ih =>
    have hc : LogsTree c := hsmaller c (RoseTree.size_lt_first agent c kids)
    rw [escalatesAt]
    by_cases habsorbs : agent.Absorbs (reports c)
    · obtain ⟨r₁, hkill, hattached, hdrop⟩ := h.absorbs hc habsorbs
      have halike : (agent.restarted (agent.counts (reports c))).Alike
          ((agent.forgetAll (ids c)).restarted (agent.counts (reports c))) := ⟨rfl, rfl, rfl, rfl⟩
      obtain ⟨hnone, hsome⟩ := ih hattached fun t ht =>
        hsmaller t (ht.trans (RoseTree.size_lt_next _ agent c kids))
      rw [AgentTree.escalatesAt_alike halike, AgentTree.deathsAll_alike halike, ids_node] at hnone
      rw [AgentTree.escalatesAt_alike halike, AgentTree.deathsAll_alike halike, ids_node] at hsome
      rw [if_pos habsorbs, deathsAll, ← hdrop]
      constructor
      · intro hesc
        obtain ⟨r₂, hall, hlinked, hget, hlast⟩ := hnone hesc
        exact ⟨r₂, by simpa using hkill.cons hall, hlinked, hget, hlast⟩
      · intro left outer r' hesc hreports
        have hremoval := h.removal_eq hattached.get fun p hp => by
          have hp' : p ∉ ids (.node agent (c :: kids)) := h.outside p hp
          have hnext : p ∉ idsAll kids ++ [agent.id] := by
            rw [ids_node, idsAll_cons, List.append_assoc, List.mem_append, not_or] at hp'
            exact hp'.2
          rw [← isSome_get_dropAll r hp', ← hdrop, isSome_get_dropAll r₁ hnext]
        have hall := hkill.cons (hsome left outer r' hesc hreports)
        rw [show ((agent.forgetAll (ids c)).restarted _).parent = agent.parent from rfl,
          show ((agent.forgetAll (ids c)).restarted _).id = agent.id from rfl, hremoval] at hall
        simpa using hall
    · rw [if_neg habsorbs]
      refine ⟨fun hnone => (nomatch hnone), fun left outer r' hleft hreports => ?_⟩
      obtain rfl := Option.some.inj hleft
      have hkill := h.escalates hc
        (fun agent' => hsmaller _ (RoseTree.size_lt_next agent' agent c kids)) habsorbs hreports
      have hgone : ∀ x ∈ kids.map fun t => t.label.id, r'.get x = none := by
        intro x hx
        obtain ⟨t, ht, rfl⟩ := List.mem_map.mp hx
        have hmem : t.label.id ∈ idsAll kids :=
          AgentTree.mem_idsAll.mpr ⟨t, ht, t.label_id_mem_ids⟩
        apply hreports.shrinks.get_eq_none
        rw [get_dropAll, if_pos (by simp [hmem])]
      simpa using hkill.cons (logs_killAll_of_none hgone)

end Loop

/-- **Killing the root of a tree** drops the tree, and reports the death of the root to its parent.
The induction is on the size of the tree: an agent that escalates is killed with the children that
are left. -/
theorem logs_of_attached (t : AgentTree) : LogsTree t := by
  induction hsize : t.size using Nat.strong_induction_on generalizing t with
  | _ size ih =>
    subst hsize
    obtain ⟨agent, kids⟩ := t
    intro r r' outer hr hreports
    rw [RoseTree.label_node] at hreports ⊢
    have hinner := Agent.inner_withState .dead
    have hmarked := hr.modify hinner
    obtain ⟨hnone, hsome⟩ := hmarked.logs_killAll fun t ht =>
      ih t.size (ht.trans_eq (RoseTree.size_relabel _ agent kids)) t rfl
    have halike : agent.Alike (agent.withState .dead) := ⟨rfl, rfl, rfl, rfl⟩
    have hdrop : (r.modify agent.id (Agent.withState .dead)).dropAll
        (ids (.node (agent.withState .dead) kids)) = r.dropAll (ids (.node agent kids)) := by
      rw [ids_node, ids_node]
      exact dropAll_modify_root hinner hr.notMem_idsAll
    rw [AgentTree.escalatesAt_alike halike, AgentTree.deathsAll_alike halike, hdrop] at hnone
    rw [AgentTree.escalatesAt_alike halike, AgentTree.deathsAll_alike halike, hdrop] at hsome
    rw [reports] at hreports
    rw [AgentTree.deaths]
    cases hesc : escalatesAt agent kids with
    | none =>
      rw [hesc] at hreports
      obtain ⟨r₁, hall, hlinked, ⟨agent₁, hget₁, hparent₁⟩, hlast⟩ := hnone hesc
      have hgone : r₁.remove agent.parent agent.id = r.dropAll (ids (.node agent kids)) := by
        rw [← hlast, ← hparent₁.trans (hinner.parent agent)]
        exact unregister_detach hlinked hget₁
      have hremoval := hr.removal_eq hget₁ fun p hp => by
        have hp' : p ∉ ids (.node agent kids) := hr.outside p hp
        have hne : p ∉ [agent.id] := by
          rw [ids_node, List.mem_append, not_or] at hp'
          exact hp'.2
        rw [← isSome_get_dropAll r hp', ← hlast]
        exact (isSome_get_dropAll r₁ hne).symm
      rw [← hremoval]
      refine .killSome hr.get (by rw [hr.children]; exact hall) ?_
      rw [hgone]
      exact hreports.one
    | some left =>
      rw [hesc] at hreports
      obtain ⟨r₁, log₁, log₂, hwithin, hlast, rfl⟩ := LogsTimes.last hreports
      have hall : Logs _ _ (deathsAll agent kids ++
          ((r.modify agent.id (Agent.withState .dead)).removal agent.parent agent.id ++ log₁)) r₁ :=
        hsome left log₁ r₁ hesc hwithin
      have hshrinks := hwithin.shrinks
      have hnone₁ : r₁.get agent.id = none := by
        apply hshrinks.get_eq_none
        rw [get_dropAll, if_pos (by simp)]
      have hsame : r₁.remove agent.parent agent.id = r₁ := by
        refine unregister_detach_of_none hnone₁ fun p parent hp hmem => ?_
        obtain ⟨parent', hp', hcovers⟩ := hshrinks p parent hp
        rw [get_dropAll] at hp'
        split at hp'
        · cases hp'
        · obtain ⟨parent'', -, rfl⟩ := Option.map_eq_some_iff.mp hp'
          have hmem' := hcovers.children.subset hmem
          simp [Agent.forgetAll] at hmem'
      have hremoval : r₁.removal agent.parent agent.id = [] := by
        cases hp : agent.parent with
        | none => rfl
        | some p => simp [removal, hnone₁]
      have hkill := Logs.killSome hr.get (by rw [hr.children]; exact hall)
        (by rw [hsame]; exact hlast)
      rw [hremoval] at hkill
      have hfirst := hr.removal_eq hmarked.get (s := r.modify agent.id _) fun p _ =>
        isSome_get_modify r _ _ p
      rw [← hfirst]
      simpa using hkill

end AgentRegistry

end OxideOS
