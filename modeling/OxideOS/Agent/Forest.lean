import OxideOS.Agent.Subtree
import Mathlib.Logic.Relation

/-!
# The agents form a forest

Every agent names its parent and every parent lists its children, and the two agree.  New agents are
leaves; killing drops whole trees; so the agents form a forest at all times.  An escalation goes up,
and kills only trees that contain the one where it started, so killing comes to an end: the depth of
the agent that is notified goes down from one escalation to the next.

## Main definitions

* `AgentRegistry.ParentOf`, `AgentRegistry.Below`
* `AgentRegistry.Forest`: the agents form a forest, within their limits
* `AgentRegistry.WellFormed`: the invariant behind it

## Main results

* `AgentRegistry.exists_attached`: below every agent there is a tree
* `AgentRegistry.exists_kills`: killing comes to an end
* `AgentRegistry.registry_forest`: the agents form a forest in every reachable registry
-/

namespace OxideOS

namespace AgentRegistry

open AgentTree (ids idsAll ids_node idsAll_nil idsAll_cons reports deathsAll)

/-- The agent is registered, and names this parent. -/
def ParentOf (r : AgentRegistry) (x p : AgentId) : Prop :=
  ∃ agent, r.get x = some agent ∧ agent.parent = some p

/-- The agent is the other, or one of its descendants. -/
def Below (r : AgentRegistry) : AgentId → AgentId → Prop := Relation.ReflTransGen r.ParentOf

/-- The agents form a forest: children are listed once by their parent, listed children are
registered with that parent, and nobody is among its own ancestors; and every agent keeps to its
limits. -/
structure Forest (r : AgentRegistry) : Prop where
  listed : ∀ x agent p, r.get x = some agent → agent.parent = some p →
    ∃ parent, r.get p = some parent ∧ parent.children.count x = 1
  registered : ∀ p parent c, r.get p = some parent → c ∈ parent.children →
    ∃ child, r.get c = some child ∧ child.parent = some p
  acyclic : ∀ x, ¬Relation.TransGen r.ParentOf x x
  children_le : ∀ x agent, r.get x = some agent →
    agent.children.length ≤ agent.config.resourceLimits.maxChildren
  restarts_le : ∀ x agent, r.get x = some agent → agent.restartCount ≤ agent.maxRestarts

/-- The invariant.  Depths go up from parents to children, and heights from children to parents. -/
structure WellFormed (r : AgentRegistry) : Prop where
  id_eq : ∀ x agent, r.get x = some agent → agent.id = x
  listed : ∀ x agent p, r.get x = some agent → agent.parent = some p →
    ∃ parent, r.get p = some parent ∧ x ∈ parent.children
  linked : r.Linked
  nodup : ∀ x agent, r.get x = some agent → agent.children.Nodup
  depth : ∃ depth : AgentId → Nat, ∀ x p, r.ParentOf x p → depth p < depth x
  height : ∃ height : AgentId → Nat, ∀ x p, r.ParentOf x p → height x < height p
  children_le : ∀ x agent, r.get x = some agent →
    agent.children.length ≤ agent.config.resourceLimits.maxChildren
  restarts_le : ∀ x agent, r.get x = some agent → agent.restartCount ≤ agent.maxRestarts

variable {r r' : AgentRegistry} {a p x : AgentId} {agent : Agent} {f : Agent → Agent}
  {t : AgentTree} {kids ts : List AgentTree}

theorem parentOf_rightUnique : Relator.RightUnique r.ParentOf := by
  rintro x p q ⟨agent, hx, hp⟩ ⟨agent', hx', hq⟩
  obtain rfl := Option.some.inj (hx.symm.trans hx')
  exact Option.some.inj (hp.symm.trans hq)

theorem Shrinks.parentOf (h : r.Shrinks r') (hx : r'.ParentOf x p) : r.ParentOf x p := by
  obtain ⟨agent', hget', hparent⟩ := hx
  obtain ⟨agent, hget, hcovers⟩ := h x agent' hget'
  exact ⟨agent, hget, hcovers.parent ▸ hparent⟩

/-- Numbers that order children and parents still do after agents are gone. -/
theorem Shrinks.exists_order {P : (AgentId → Nat) → AgentId → AgentId → Prop} (h : r.Shrinks r')
    (hr : ∃ f, ∀ x p, r.ParentOf x p → P f x p) : ∃ f, ∀ x p, r'.ParentOf x p → P f x p := by
  obtain ⟨f, hf⟩ := hr
  exact ⟨f, fun x p hx => hf x p (h.parentOf hx)⟩

/-- Depths do not go down towards the descendants. -/
theorem Below.depth_le {depth : AgentId → Nat} (hdepth : ∀ x p, r.ParentOf x p → depth p < depth x)
    (h : r.Below x a) : depth a ≤ depth x := by
  induction h with
  | refl => exact Nat.le_refl _
  | tail _ hparent ih => exact (hdepth _ _ hparent).le.trans ih

/-- A well-formed registry is a forest. -/
theorem WellFormed.forest (h : r.WellFormed) : r.Forest where
  listed := by
    intro x agent p hx hp
    obtain ⟨parent, hparent, hmem⟩ := h.listed x agent p hx hp
    exact ⟨parent, hparent, List.count_eq_one_of_mem (h.nodup p parent hparent) hmem⟩
  registered := h.linked
  acyclic := by
    obtain ⟨depth, hdepth⟩ := h.depth
    intro x hx
    obtain ⟨p, hparent, hbelow⟩ := Relation.TransGen.head'_iff.mp hx
    have hle : depth x ≤ depth p := Below.depth_le hdepth hbelow
    exact absurd (hdepth x p hparent) (Nat.not_lt.mpr hle)
  children_le := h.children_le
  restarts_le := h.restarts_le

/-! ## Trees below agents -/

theorem mem_ids_iff {t : AgentTree} : x ∈ ids t ↔ ∃ agent ∈ t.postorder, agent.id = x :=
  List.mem_map

/-- The children of an agent of the tree are in the tree. -/
theorem mem_ids_of_child {parent : Agent} {c : AgentId} (h : t.All r.Holds) (hp : p ∈ ids t)
    (hget : r.get p = some parent) (hc : c ∈ parent.children) : c ∈ ids t := by
  obtain ⟨agent, hagent, rfl⟩ := mem_ids_iff.mp hp
  obtain ⟨kids, hholds, hkids⟩ := h.of_mem hagent
  obtain rfl := Option.some.inj (hholds.get.symm.trans hget)
  rw [hholds.children] at hc
  obtain ⟨kid, hkid, rfl⟩ := List.mem_map.mp hc
  exact List.mem_map_of_mem (hkids kid hkid)

/-- The agents of a tree are below its root. -/
theorem below_of_mem_ids (h : t.All r.Holds) (hx : x ∈ ids t) : r.Below x t.label.id := by
  induction h with
  | @node agent kids h hkids ih =>
    rw [ids_node, List.mem_append, List.mem_singleton] at hx
    rcases hx with hx | rfl
    · obtain ⟨t, ht, hxt⟩ := AgentTree.mem_idsAll.mp hx
      obtain ⟨_, hroot, -⟩ := (hkids t ht).of_mem t.label_mem_postorder
      have hparent : t.label.parent = some agent.id := h.parent _ (List.mem_map_of_mem ht)
      exact (ih t ht hxt).tail ⟨t.label, hroot.get, hparent⟩
    · exact .refl

/-- And every agent below the root is in the tree. -/
theorem mem_ids_of_below (hr : r.WellFormed) (h : t.All r.Holds) (hx : r.Below x t.label.id) :
    x ∈ ids t := by
  induction hx using Relation.ReflTransGen.head_induction_on with
  | refl => exact AgentTree.label_id_mem_ids t
  | head hparent _ ih =>
    obtain ⟨agent, hget, hp⟩ := hparent
    obtain ⟨parent, hgetp, hmem⟩ := hr.listed _ agent _ hget hp
    exact mem_ids_of_child h ih hgetp hmem

/-- Below two children of one agent there is nothing in common. -/
theorem WellFormed.disjoint_of_siblings {c c' : AgentId} (hr : r.WellFormed)
    (hc : r.ParentOf c p) (hc' : r.ParentOf c' p) (hne : c ≠ c') (hx : r.Below x c) :
    ¬r.Below x c' := by
  obtain ⟨depth, hdepth⟩ := hr.depth
  have hnot : ∀ {c c'}, c ≠ c' → r.ParentOf c p → r.ParentOf c' p → ¬r.Below c c' := by
    intro c c' hne hc hc' hbelow
    rcases hbelow.cases_head with heq | ⟨q, hq, hbelow'⟩
    · exact hne heq
    · obtain rfl := parentOf_rightUnique hc hq
      exact absurd (hdepth c' p hc') (Nat.not_lt.mpr (Below.depth_le hdepth hbelow'))
  intro hx'
  rcases Relation.ReflTransGen.total_of_right_unique parentOf_rightUnique hx hx' with h | h
  · exact hnot hne hc hc' h
  · exact hnot hne.symm hc' hc h

theorem nodup_idsAll (hnodup : ∀ t ∈ ts, (ids t).Nodup)
    (hdisjoint : ts.Pairwise fun t t' => ∀ x ∈ ids t, x ∉ ids t') : (idsAll ts).Nodup := by
  induction ts with
  | nil => exact List.nodup_nil
  | cons t ts ih =>
    rw [List.pairwise_cons] at hdisjoint
    rw [idsAll_cons, List.nodup_append]
    refine ⟨hnodup t List.mem_cons_self,
      ih (fun t' ht' => hnodup t' (List.mem_cons_of_mem t ht')) hdisjoint.2, ?_⟩
    rintro x hx y hy rfl
    obtain ⟨t', ht', hxt'⟩ := AgentTree.mem_idsAll.mp hy
    exact hdisjoint.1 t' ht' x hx hxt'

/-- No agent is twice in a tree. -/
theorem WellFormed.nodup_ids (hr : r.WellFormed) (h : t.All r.Holds) : (ids t).Nodup := by
  obtain ⟨depth, hdepth⟩ := hr.depth
  induction h with
  | @node agent kids h hkids ih =>
    have hparent : ∀ t ∈ kids, r.ParentOf t.label.id agent.id := by
      intro t ht
      obtain ⟨_, hroot, -⟩ := (hkids t ht).of_mem t.label_mem_postorder
      exact ⟨t.label, hroot.get, h.parent _ (List.mem_map_of_mem ht)⟩
    have hdistinct : (kids.map fun t => t.label.id).Nodup := by
      have hchildren := hr.nodup _ _ h.get
      rwa [h.children, List.map_map] at hchildren
    rw [ids_node, List.nodup_append]
    refine ⟨nodup_idsAll ih ?_, List.nodup_singleton _, ?_⟩
    · rw [List.Nodup, List.pairwise_map] at hdistinct
      refine hdistinct.imp_of_mem ?_
      intro t t' ht ht' hne x hx hx'
      exact hr.disjoint_of_siblings (hparent t ht) (hparent t' ht') hne
        (below_of_mem_ids (hkids t ht) hx) (below_of_mem_ids (hkids t' ht') hx')
    · rintro x hx y hy rfl
      obtain rfl := List.mem_singleton.mp hy
      obtain ⟨t, ht, hxt⟩ := AgentTree.mem_idsAll.mp hx
      have hle := Below.depth_le hdepth (below_of_mem_ids (hkids t ht) hxt)
      exact absurd (hdepth _ _ (hparent t ht)) (Nat.not_lt.mpr hle)

theorem WellFormed.attached (hr : r.WellFormed) (h : t.All r.Holds) : r.Attached t where
  linked := hr.linked
  holds := h
  nodup := hr.nodup_ids h
  outside := by
    obtain ⟨depth, hdepth⟩ := hr.depth
    intro p hp hmem
    obtain ⟨_, hroot, -⟩ := h.of_mem t.label_mem_postorder
    have hle := Below.depth_le hdepth (below_of_mem_ids h hmem)
    exact absurd (hdepth _ p ⟨t.label, hroot.get, hp⟩) (Nat.not_lt.mpr hle)

/-- Trees for all members of a list. -/
theorem exists_trees {children : List AgentId} {Q : AgentTree → Prop}
    (h : ∀ c ∈ children, ∃ t : AgentTree, t.label.id = c ∧ Q t) :
    ∃ ts : List AgentTree, ts.map (fun t => t.label.id) = children ∧ ∀ t ∈ ts, Q t := by
  induction children with
  | nil => exact ⟨[], rfl, fun t ht => nomatch ht⟩
  | cons c children ih =>
    obtain ⟨t, rfl, ht⟩ := h c List.mem_cons_self
    obtain ⟨ts, rfl, hts⟩ := ih fun c' hc' => h c' (List.mem_cons_of_mem _ hc')
    exact ⟨t :: ts, rfl, List.forall_mem_cons.mpr ⟨ht, hts⟩⟩

/-- **Below every agent there is a tree.** -/
theorem exists_attached (hr : r.WellFormed) (hget : r.get a = some agent) :
    ∃ kids, r.Attached (.node agent kids) := by
  obtain ⟨height, hheight⟩ := hr.height
  have htree : ∀ n a agent, height a < n → r.get a = some agent →
      ∃ kids, (RoseTree.node agent kids).All r.Holds := by
    intro n
    induction n with
    | zero => exact fun a agent hlt => absurd hlt (Nat.not_lt_zero _)
    | succ n ih =>
      intro a agent hlt hget
      obtain rfl := hr.id_eq a agent hget
      have hchild : ∀ c ∈ agent.children, ∃ t : AgentTree, t.label.id = c ∧
          t.All r.Holds ∧ t.label.parent = some agent.id := by
        intro c hc
        obtain ⟨child, hgetc, hparent⟩ := hr.linked agent.id agent c hget hc
        have hlower := hheight c agent.id ⟨child, hgetc, hparent⟩
        obtain ⟨kids, hkids⟩ := ih c child (by omega) hgetc
        exact ⟨.node child kids, hr.id_eq c child hgetc, hkids, hparent⟩
      obtain ⟨ts, hts, hQ⟩ := exists_trees hchild
      refine ⟨ts, .node ⟨hget, ?_, ?_⟩ fun t ht => (hQ t ht).1⟩
      · rw [← hts, List.map_map]
        rfl
      · intro kid hkid
        obtain ⟨t, ht, rfl⟩ := List.mem_map.mp hkid
        exact (hQ t ht).2
  obtain ⟨kids, hkids⟩ := htree (height a + 1) a agent (Nat.lt_succ_self _) hget
  exact ⟨kids, hr.attached hkids⟩

theorem trees_unique (hunique : ∀ t ∈ ts, ∀ t', t'.All r.Holds → t.label.id = t'.label.id → t = t')
    (hkids : ∀ t ∈ kids, t.All r.Holds)
    (hids : ts.map (fun t => t.label.id) = kids.map fun t => t.label.id) : ts = kids := by
  induction ts generalizing kids with
  | nil => exact (List.map_eq_nil_iff.mp hids.symm).symm
  | cons t ts ih =>
    cases kids with
    | nil => cases hids
    | cons t' kids =>
      obtain ⟨hid, hrest⟩ := List.cons.inj hids
      rw [List.forall_mem_cons] at hunique hkids
      rw [hunique.1 t' hkids.1 hid, ih hunique.2 hkids.2 hrest]

/-- Below an agent there is one tree. -/
theorem holds_unique {t' : AgentTree} (h : t.All r.Holds) (h' : t'.All r.Holds)
    (hid : t.label.id = t'.label.id) : t = t' := by
  induction h generalizing t' with
  | @node agent kids h hkids ih =>
    obtain ⟨agent', kids'⟩ := t'
    have hroot := h'.root
    obtain rfl : agent = agent' := by
      have hsame : agent.id = agent'.id := hid
      exact Option.some.inj (h.get.symm.trans (hsame ▸ hroot.get))
    have hids := h.children.symm.trans hroot.children
    rw [List.map_map, List.map_map] at hids
    rw [trees_unique (fun t ht t' => ih t ht) (fun t ht => h'.kid ht) hids]

/-! ## What keeps the agents a forest -/

/-- A registry that shrinks stays a forest, if it keeps both ends of its links and the limit of
restarts. -/
theorem WellFormed.of_shrinks (hr : r.WellFormed) (hshrinks : r.Shrinks r') (hlinked : r'.Linked)
    (hlisted : ∀ x agent p, r'.get x = some agent → agent.parent = some p →
      ∃ parent, r'.get p = some parent ∧ x ∈ parent.children)
    (hrestarts : ∀ x agent, r'.get x = some agent → agent.restartCount ≤ agent.maxRestarts) :
    r'.WellFormed where
  id_eq x agent' hx := by
    obtain ⟨agent, hagent, hcovers⟩ := hshrinks x agent' hx
    exact hcovers.id.trans (hr.id_eq x agent hagent)
  listed := hlisted
  linked := hlinked
  nodup x agent' hx := by
    obtain ⟨agent, hagent, hcovers⟩ := hshrinks x agent' hx
    exact (hr.nodup x agent hagent).sublist hcovers.children
  depth := hshrinks.exists_order hr.depth
  height := hshrinks.exists_order hr.height
  children_le x agent' hx := by
    obtain ⟨agent, hagent, hcovers⟩ := hshrinks x agent' hx
    rw [hcovers.config]
    exact hcovers.children.length_le.trans (hr.children_le x agent hagent)
  restarts_le := hrestarts

/-- A change inside an agent that keeps to the limit of restarts. -/
theorem WellFormed.modify (hr : r.WellFormed) (hf : Agent.Inner f)
    (hrestarts : ∀ agent, r.get a = some agent → (f agent).restartCount ≤ agent.maxRestarts) :
    (r.modify a f).WellFormed := by
  refine hr.of_shrinks (shrinks_modify hf.covers a) (hr.linked.modify hf) ?_ ?_
  · intro x agent' p hx hp
    obtain ⟨agent, hagent, hcovers⟩ := shrinks_modify hf.covers a x agent' hx
    obtain ⟨parent, hparent, hmem⟩ := hr.listed x agent p hagent (hcovers.parent ▸ hp)
    rw [get_modify, hparent]
    split
    · exact ⟨f parent, rfl, (hf.children parent).symm ▸ hmem⟩
    · exact ⟨parent, rfl, hmem⟩
  · intro x agent' hx
    rw [get_modify] at hx
    split at hx
    · next heq =>
      subst heq
      obtain ⟨agent, hagent, rfl⟩ := Option.map_eq_some_iff.mp hx
      rw [(hf.covers agent).maxRestarts]
      exact hrestarts agent hagent
    · exact hr.restarts_le x agent' hx

/-- Dropping a tree. -/
theorem WellFormed.dropAll (hr : r.WellFormed) (ht : t.All r.Holds) :
    (r.dropAll (ids t)).WellFormed := by
  have hback : ∀ x agent', (r.dropAll (ids t)).get x = some agent' → x ∉ ids t ∧
      ∃ agent, r.get x = some agent ∧ agent.forgetAll (ids t) = agent' := by
    intro x agent' hx
    rw [get_dropAll] at hx
    split at hx
    · cases hx
    · next hnot => exact ⟨hnot, Option.map_eq_some_iff.mp hx⟩
  refine hr.of_shrinks (shrinks_dropAll r (ids t)) (hr.linked.dropAll _) ?_ ?_
  · intro x agent' p hx hp
    obtain ⟨hnot, agent, hagent, rfl⟩ := hback x agent' hx
    obtain ⟨parent, hparent, hmem⟩ := hr.listed x agent p hagent hp
    have hp' : p ∉ ids t := fun hp => hnot (mem_ids_of_child ht hp hparent hmem)
    rw [get_dropAll, if_neg hp', hparent]
    exact ⟨parent.forgetAll (ids t), rfl, List.mem_filter.mpr ⟨hmem, decide_eq_true hnot⟩⟩
  · intro x agent' hx
    obtain ⟨-, agent, hagent, rfl⟩ := hback x agent' hx
    exact hr.restarts_le x agent hagent

/-! ## Killing comes to an end -/

/-- How the reports of the death of the root of a tree, so many of them, go on up the tree, with
their log and the registry after them.  The parent absorbs them; or it is killed, with the other
agents below it, and its own death is reported twice, and twice more for each child it had left. -/
inductive Spreads (r : AgentRegistry) :
    AgentTree → Nat → List AgentEvent → AgentRegistry → Prop
  | root {t : AgentTree} {n : Nat} (hparent : t.label.parent = none) :
      Spreads r t n [] (r.dropAll (ids t))
  | absorbed {t : AgentTree} {n : Nat} {parent : Agent} (hparent : t.label.parent = some parent.id)
      (hget : r.get parent.id = some parent) (habsorbs : parent.Absorbs n) :
      Spreads r t n (parent.hears t.label.id n)
        ((r.dropAll (ids t)).modify parent.id (Agent.restarted (parent.counts n)))
  | escalated {t : AgentTree} {n : Nat} {parent : Agent} {before after : List AgentTree}
      {outer : List AgentEvent} {r' : AgentRegistry}
      (hattached : r.Attached (.node parent (before ++ t :: after))) (habsorbs : ¬parent.Absorbs n)
      (hup : Spreads r (.node parent (before ++ t :: after)) (2 * (before ++ after).length + 2)
        outer r') :
      Spreads r t n (parent.hears t.label.id n ++
        (deathsAll (parent.restarted (parent.counts n)) (before ++ after) ++
          (r.removal parent.parent parent.id ++ outer))) r'

section Spreads

variable {n : Nat} {parent : Agent} {before after : List AgentTree} {log : List AgentEvent}

theorem Attached.parent_kid (h : r.Attached (.node parent (before ++ t :: after))) :
    t.label.parent = some parent.id :=
  h.holds.root.parent t.label (by simp)

theorem Attached.get_parent (h : r.Attached t) (hparent : t.label.parent = some p)
    (hget : r.get p = some parent) :
    (r.dropAll (ids t)).get p = some (parent.forgetAll (ids t)) := by
  rw [get_dropAll, if_neg (h.outside p hparent), hget]
  rfl

/-- **What is said to happen happens.** -/
theorem Spreads.logsTimes (h : r.Spreads t n log r') (ht : r.Attached t) (hn : 0 < n) :
    LogsTimes t.label.parent t.label.id n (r.dropAll (ids t)) log r' := by
  induction h with
  | root hparent =>
    rw [hparent]
    exact logsTimes_none _ _ _
  | @absorbed t n parent hparent hget habsorbs =>
    have halike : parent.Alike (parent.forgetAll (ids t)) := ⟨rfl, rfl, rfl, rfl⟩
    rw [hparent, ← halike.hears_eq]
    exact logsTimes_of_absorbs hn (ht.get_parent hparent hget) (halike.absorbs_iff.mpr habsorbs)
  | escalated hattached habsorbs _ ih =>
    rw [hattached.parent_kid]
    exact hattached.logsTimes_without hn (fun agent' => logs_of_attached _) habsorbs
      (ih hattached (Nat.succ_pos _))

/-- The tree is gone. -/
theorem Spreads.get_eq_none (h : r.Spreads t n log r') (hx : x ∈ ids t) : r'.get x = none := by
  induction h with
  | root => rw [get_dropAll, if_pos hx]
  | absorbed =>
    rw [get_modify, get_dropAll, if_pos hx]
    exact ite_self _
  | @escalated t n parent before after _ _ _ _ _ ih =>
    exact ih ((ids_perm parent before after t).mem_iff.mpr (List.mem_append_left _ hx))

/-- However far a death spreads, what is left is well formed. -/
theorem Spreads.wellFormed (h : r.Spreads t n log r') (hr : r.WellFormed) (ht : r.Attached t) :
    r'.WellFormed := by
  induction h with
  | root => exact hr.dropAll ht.holds
  | absorbed hparent hget habsorbs =>
    refine (hr.dropAll ht.holds).modify (Agent.inner_restarted _) fun agent hagent => ?_
    obtain rfl := Option.some.inj ((ht.get_parent hparent hget).symm.trans hagent)
    exact habsorbs.2
  | escalated hattached _ _ ih => exact ih hattached

/-- The tree of the parent, which has the tree of the child below it. -/
theorem WellFormed.exists_above (hr : r.WellFormed) (ht : r.Attached t)
    (hparent : t.label.parent = some p) (hget : r.get p = some parent) :
    ∃ before after, r.Attached (.node parent (before ++ t :: after)) := by
  obtain ⟨kids, hattached⟩ := exists_attached hr hget
  obtain ⟨parent', hget', hmem⟩ := hr.listed _ _ p ht.get_label hparent
  obtain rfl := Option.some.inj (hget.symm.trans hget')
  rw [hattached.children] at hmem
  obtain ⟨t', ht', hid⟩ := List.mem_map.mp hmem
  obtain rfl := holds_unique (hattached.holds.kid ht') ht.holds hid
  obtain ⟨before, after, rfl⟩ := List.append_of_mem ht'
  exact ⟨before, after, hattached⟩

/-- **Reports come to an end**: the parent is less deep than the child. -/
theorem exists_spreads (hr : r.WellFormed) (ht : r.Attached t) (n : Nat) :
    ∃ log r', r.Spreads t n log r' := by
  obtain ⟨depth, hdepth⟩ := hr.depth
  induction hd : depth t.label.id using Nat.strong_induction_on generalizing t n with
  | _ d ih =>
    cases hparent : t.label.parent with
    | none => exact ⟨_, _, .root hparent⟩
    | some p =>
      obtain ⟨parent, hget, -⟩ := hr.listed _ _ p ht.get_label hparent
      obtain rfl := hr.id_eq p parent hget
      by_cases habsorbs : parent.Absorbs n
      · exact ⟨_, _, .absorbed hparent hget habsorbs⟩
      · obtain ⟨before, after, hattached⟩ := hr.exists_above ht hparent hget
        have hless := hdepth _ _ ⟨_, ht.get_label, hparent⟩
        obtain ⟨outer, r', hup⟩ := ih _ (hd ▸ hless) hattached _ rfl
        exact ⟨_, r', .escalated hattached habsorbs hup⟩

/-- **Killing an agent comes to an end**: its tree dies, it is removed, and its death is reported as
often as the tree says. -/
theorem exists_kills (hr : r.WellFormed) (hget : r.get a = some agent) :
    ∃ kids log r', r.Attached (.node agent kids) ∧
      r.Spreads (.node agent kids) (reports (.node agent kids)) log r' ∧
      Logs r (.kill a) (deathsAll agent kids ++ (r.removal agent.parent a ++ log)) r' ∧
      r'.WellFormed := by
  obtain ⟨kids, hattached⟩ := exists_attached hr hget
  obtain rfl := hr.id_eq a agent hget
  obtain ⟨log, r', hspreads⟩ := exists_spreads hr hattached (reports (.node agent kids))
  have htimes := hspreads.logsTimes hattached (AgentTree.reports_pos _)
  exact ⟨kids, log, r', hattached, hspreads,
    (logs_of_attached (.node agent kids)).node hattached rfl htimes,
    hspreads.wellFormed hr hattached⟩

end Spreads

/-! ## Any calls -/

theorem wellFormed_new : new.WellFormed := by
  refine ⟨?_, ?_, ?_, ?_, ⟨fun _ => 0, ?_⟩, ⟨fun _ => 0, ?_⟩, ?_, ?_⟩
  · intro x agent hx
    simp at hx
  · intro x agent p hx
    simp at hx
  · intro p parent c hp
    simp at hp
  · intro x agent hx
    simp at hx
  · rintro x p ⟨agent, hx, -⟩
    simp at hx
  · rintro x p ⟨agent, hx, -⟩
    simp at hx
  · intro x agent hx
    simp at hx
  · intro x agent hx
    simp at hx

theorem WellFormed.withState (hr : r.WellFormed) (a : AgentId) (state : AgentState) :
    (r.modify a (Agent.withState state)).WellFormed :=
  hr.modify (Agent.inner_withState state) fun agent hget => hr.restarts_le a agent hget

theorem WellFormed.kills (hr : r.WellFormed) {result : Except String Unit}
    (h : r.Kills a result r') : r'.WellFormed := by
  cases hget : r.get a with
  | none =>
    obtain ⟨-, rfl⟩ := h.unique (kills_of_none hget)
    exact hr
  | some agent =>
    obtain ⟨kids, log, r'', -, -, hlogs, hr''⟩ := exists_kills hr hget
    obtain ⟨-, rfl⟩ := h.unique (hlogs.kills hget)
    exact hr''

section Spawn

variable {parentId : Option AgentId} {config : AgentConfig} {leaf agent' : Agent}

/-- An agent that was there before, with the new one among its children if it is the parent. -/
def grown (parentId : Option AgentId) (a x : AgentId) (agent : Agent) : Agent :=
  if parentId = some x then agent.adopt a else agent

theorem grown_covers (parentId : Option AgentId) (a x : AgentId) (agent : Agent) :
    (grown parentId a x agent).Covers agent ∧
      (grown parentId a x agent).restartCount = agent.restartCount := by
  rw [grown]
  split
  · exact ⟨⟨rfl, rfl, rfl, rfl, List.sublist_append_left _ _⟩, rfl⟩
  · exact ⟨.refl agent, rfl⟩

theorem mem_grown {c : AgentId} :
    c ∈ (grown parentId a x agent).children ↔
      c ∈ agent.children ∨ parentId = some x ∧ c = a := by
  rw [grown]
  split
  · next h => simp [Agent.adopt, h]
  · next h => simp [h]

/-- There is a new agent, its parent lists it, and the other agents are as they were. -/
structure Grows (r : AgentRegistry) (a : AgentId) (leaf : Agent) (r' : AgentRegistry) : Prop where
  fresh : r.get a = none
  parent : ∀ p ∈ leaf.parent, (r.get p).isSome
  get : ∀ x, r'.get x = if x = a then some leaf else (r.get x).map (grown leaf.parent a x)

theorem Grows.ne (h : r.Grows a leaf r') (hx : r.get x = some agent) : x ≠ a := by
  rintro rfl
  rw [h.fresh] at hx
  cases hx

theorem Grows.new (h : r.Grows a leaf r') : r'.get a = some leaf := by
  rw [h.get, if_pos rfl]

theorem Grows.old (h : r.Grows a leaf r') (hx : r.get x = some agent) :
    r'.get x = some (grown leaf.parent a x agent) := by
  rw [h.get, if_neg (h.ne hx), hx]
  rfl

/-- Nothing is registered but the leaf and what was there. -/
theorem Grows.cases (h : r.Grows a leaf r') (hx : r'.get x = some agent') :
    (x = a ∧ agent' = leaf) ∨ ∃ agent, r.get x = some agent ∧
      grown leaf.parent a x agent = agent' := by
  rw [h.get] at hx
  split at hx
  · next hxa => exact .inl ⟨hxa, (Option.some.inj hx).symm⟩
  · exact .inr (Option.map_eq_some_iff.mp hx)

theorem Grows.parentOf (h : r.Grows a leaf r') (hx : r'.ParentOf x p) :
    (x = a ∧ leaf.parent = some p) ∨ (x ≠ a ∧ r.ParentOf x p) := by
  obtain ⟨agent', hget, hp⟩ := hx
  rcases h.cases hget with ⟨rfl, rfl⟩ | ⟨agent, hagent, rfl⟩
  · exact .inl ⟨rfl, hp⟩
  · exact .inr ⟨h.ne hagent, agent, hagent, (grown_covers _ a x agent).1.parent.trans hp⟩

/-- The new agent is nobody's parent. -/
theorem Grows.parent_ne (h : r.Grows a leaf r') (hr : r.WellFormed) (hx : r'.ParentOf x p) :
    p ≠ a := by
  rcases h.parentOf hx with ⟨-, hp⟩ | ⟨-, agent, hagent, hp⟩
  · obtain ⟨parent, hget⟩ := Option.isSome_iff_exists.mp (h.parent p hp)
    exact h.ne hget
  · obtain ⟨parent, hget, -⟩ := hr.listed x agent p hagent hp
    exact h.ne hget

theorem Grows.listed (h : r.Grows a leaf r') (hr : r.WellFormed) (hx : r'.ParentOf x p) :
    ∃ parent, r'.get p = some parent ∧ x ∈ parent.children := by
  rcases h.parentOf hx with ⟨rfl, hp⟩ | ⟨-, agent, hagent, hp⟩
  · obtain ⟨parent, hget⟩ := Option.isSome_iff_exists.mp (h.parent p hp)
    exact ⟨_, h.old hget, mem_grown.mpr (.inr ⟨hp, rfl⟩)⟩
  · obtain ⟨parent, hget, hmem⟩ := hr.listed x agent p hagent hp
    exact ⟨_, h.old hget, mem_grown.mpr (.inl hmem)⟩

theorem Grows.linked (h : r.Grows a leaf r') (hr : r.WellFormed) (hleaf : leaf.children = []) :
    r'.Linked := by
  intro p parent' c hp hc
  rcases h.cases hp with ⟨rfl, rfl⟩ | ⟨parent, hparent, rfl⟩
  · rw [hleaf] at hc
    cases hc
  · rcases mem_grown.mp hc with hmem | ⟨hp', rfl⟩
    · obtain ⟨child, hchild, hp'⟩ := hr.linked p parent c hparent hmem
      exact ⟨_, h.old hchild, (grown_covers _ a c child).1.parent.symm.trans hp'⟩
    · exact ⟨leaf, h.new, hp'⟩

theorem Grows.nodup (h : r.Grows a leaf r') (hr : r.WellFormed) (hx : r.get x = some agent) :
    (grown leaf.parent a x agent).children.Nodup := by
  have hnodup := hr.nodup x agent hx
  rw [grown]
  split
  · refine List.nodup_append.mpr ⟨hnodup, List.nodup_singleton a, ?_⟩
    rintro c hc c' hc' rfl
    obtain ⟨child, hchild, -⟩ := hr.linked x agent c hx hc
    exact h.ne hchild (List.mem_singleton.mp hc')
  · exact hnodup

/-- The new agent is one deeper than its parent. -/
theorem Grows.depth (h : r.Grows a leaf r') (hr : r.WellFormed) :
    ∃ depth : AgentId → Nat, ∀ x p, r'.ParentOf x p → depth p < depth x := by
  obtain ⟨depth, hdepth⟩ := hr.depth
  refine ⟨fun x => if x = a then (leaf.parent.map depth).getD 0 + 1 else depth x, fun x p hx => ?_⟩
  rcases h.parentOf hx with ⟨rfl, hp⟩ | ⟨hxa, hx'⟩
  · simp [h.parent_ne hr hx, hp]
  · simp only [if_neg hxa, if_neg (h.parent_ne hr hx)]
    exact hdepth x p hx'

/-- The new agent has the least height, and the others are higher than before. -/
theorem Grows.height (h : r.Grows a leaf r') (hr : r.WellFormed) :
    ∃ height : AgentId → Nat, ∀ x p, r'.ParentOf x p → height x < height p := by
  obtain ⟨height, hheight⟩ := hr.height
  refine ⟨fun x => if x = a then 0 else height x + 1, fun x p hx => ?_⟩
  rcases h.parentOf hx with ⟨rfl, hp⟩ | ⟨hxa, hx'⟩
  · simp [h.parent_ne hr hx]
  · simp only [if_neg hxa, if_neg (h.parent_ne hr hx)]
    exact Nat.succ_lt_succ (hheight x p hx')

/-- The agents after a spawn that the limit of the parent does not stop, whoever is named as the
parent. -/
theorem get_spawn (config : AgentConfig) (hroom : r.childrenFull parentId = false) (x : AgentId) :
    (r.spawn parentId config a).2.get x =
      (if x = a then some (spawned parentId config a) else r.get x).map (grown parentId a x) := by
  rw [spawn, hroom, if_neg Bool.false_ne_true]
  cases parentId with
  | none =>
    have hid : grown none a x = id := funext fun agent => if_neg (by simp)
    rw [hid, Option.map_id]
    exact get_register r _ x
  | some p =>
    simp only [get_modify, get_register]
    by_cases hxp : x = p
    · subst hxp
      have hadopt : grown (some x) a x = Agent.adopt a := funext fun agent => if_pos rfl
      rw [if_pos rfl, hadopt]
      rfl
    · have hid : grown (some p) a x = id := funext fun agent => if_neg (by simp [Ne.symm hxp])
      rw [if_neg hxp, hid, Option.map_id]
      rfl

/-- **What `spawn` does**: nothing if the parent has all its children; otherwise there is a new
agent. -/
theorem spawn_cases (config : AgentConfig) (hfresh : r.get a = none)
    (hparent : ∀ p ∈ parentId, (r.get p).isSome) :
    (r.spawn parentId config a).2 = r ∨
      r.Grows a (spawned parentId config a) (r.spawn parentId config a).2 ∧
      ∀ p parent, parentId = some p → r.get p = some parent →
        parent.children.length < parent.config.resourceLimits.maxChildren := by
  cases hfull : r.childrenFull parentId with
  | true =>
    rw [spawn, hfull]
    exact .inl rfl
  | false =>
    refine .inr ⟨⟨hfresh, hparent, fun x => ?_⟩, ?_⟩
    · rw [get_spawn config hfull]
      by_cases hxa : x = a
      · subst hxa
        have hne : parentId ≠ some x := by
          rintro rfl
          have hsome := hparent x rfl
          rw [hfresh] at hsome
          cases hsome
        simp [grown, hne]
      · simp [hxa, spawned]
    · rintro p parent rfl hp
      simpa [childrenFull, hp] using hfull

theorem WellFormed.spawn (hr : r.WellFormed) (hfresh : r.get a = none)
    (hparent : ∀ p ∈ parentId, (r.get p).isSome) :
    (r.spawn parentId config a).2.WellFormed := by
  rcases spawn_cases config hfresh hparent with hsame | ⟨h, hroom⟩
  · rw [hsame]
    exact hr
  · refine ⟨fun x agent' hx => ?_, fun x agent' p hx hp => h.listed hr ⟨agent', hx, hp⟩,
      h.linked hr rfl, fun x agent' hx => ?_, h.depth hr, h.height hr, fun x agent' hx => ?_,
      fun x agent' hx => ?_⟩
    · rcases h.cases hx with ⟨rfl, rfl⟩ | ⟨agent, hagent, rfl⟩
      · rfl
      · exact (grown_covers _ a x agent).1.id.symm.trans (hr.id_eq x agent hagent)
    · rcases h.cases hx with ⟨rfl, rfl⟩ | ⟨agent, hagent, rfl⟩
      · exact List.nodup_nil
      · exact h.nodup hr hagent
    · rcases h.cases hx with ⟨rfl, rfl⟩ | ⟨agent, hagent, rfl⟩
      · exact Nat.zero_le _
      · rw [grown]
        split
        · next hp => simpa [Agent.adopt, Nat.succ_le_iff] using hroom x agent hp hagent
        · exact hr.children_le x agent hagent
    · rcases h.cases hx with ⟨rfl, rfl⟩ | ⟨agent, hagent, rfl⟩
      · exact Nat.zero_le _
      · obtain ⟨hcovers, hcount⟩ := grown_covers (spawned parentId config a).parent a x agent
        rw [hcount, ← hcovers.maxRestarts]
        exact hr.restarts_le x agent hagent

end Spawn

/-- Every reachable registry is well formed. -/
theorem wellFormed_invariant : system.Invariant WellFormed where
  init := by
    rintro r rfl
    exact wellFormed_new
  step := by
    rintro r op r' hr hstep
    cases hstep with
    | spawn agentId parentId config hfresh hparent => exact hr.spawn hfresh hparent
    | kill h => exact hr.kills h
    | suspend agentId =>
      rw [suspend]
      split
      · exact hr
      · exact hr.withState agentId .suspended
    | resume agentId =>
      rw [resume]
      split
      · exact hr
      · exact hr.withState agentId .running

/-- **The agents form a forest** in every reachable registry, whatever the policies and the limits;
killing an agent comes to an end; and when it returns `Ok` the agent is gone with everything that
was below it. -/
theorem registry_forest (h : system.Reachable r) :
    r.Forest ∧ ∀ a, ∃ result r', r.Kills a result r' ∧
      (result = .ok () → ∀ x, r.Below x a → r'.get x = none) := by
  have hr := wellFormed_invariant.of_reachable h
  refine ⟨hr.forest, fun a => ?_⟩
  cases hget : r.get a with
  | none => exact ⟨_, r, kills_of_none hget, fun hok => nomatch hok⟩
  | some agent =>
    obtain ⟨kids, log, r', hattached, hspreads, hlogs, -⟩ := exists_kills hr hget
    refine ⟨_, r', hlogs.kills hget, fun _ x hx => hspreads.get_eq_none ?_⟩
    obtain rfl := hr.id_eq a agent hget
    exact mem_ids_of_below hr hattached.holds hx

/-- An agent with up to eight children. -/
def configOf (name : String) (restartPolicy : RestartPolicy) : AgentConfig :=
  ⟨name, restartPolicy, ⟨8⟩⟩

/-- An agent of that kind that is running and has counted no death. -/
def agentOf (id : AgentId) (name : String) (restartPolicy : RestartPolicy)
    (parent : Option AgentId) (children : List AgentId) : Agent :=
  ⟨id, configOf name restartPolicy, .running, parent, children, 0, 5⟩

/-- The death of agent 3 is escalated by its parent, agent 2; agent 1 counts two deaths of
agent 2. -/
def escalated : List AgentOp :=
  [.spawn 1 none (configOf "root" .restartOne), .spawn 2 (some 1) (configOf "left" .escalate),
    .spawn 3 (some 2) (configOf "leaf" .permanent), .spawn 4 (some 1) (configOf "right" .permanent),
    .kill 3]

theorem registry_forest_escalated :
    ∃ r, escalated.foldlM (exec 20) new = some r ∧
      (r.get 1).map (fun agent => (agent.children, agent.restartCount)) = some ([4], 2) ∧
      r.get 2 = none ∧ r.Forest := by
  have hrun : (escalated.foldlM (exec 20) new).map (fun r =>
      ((r.get 1).map fun agent => (agent.children, agent.restartCount), r.get 2)) =
      some (some ([4], 2), none) := by decide +kernel
  obtain ⟨r, hr, hget⟩ := Option.map_eq_some_iff.mp hrun
  obtain ⟨hroot, hleft⟩ := Prod.mk.inj hget
  exact ⟨r, hr, hroot, hleft, (registry_forest (reachable_of_exec hr)).1⟩

end AgentRegistry

end OxideOS
