import OxideOS.Agent.Forest

/-!
# How often a death is reported

A kill unregisters an agent and then reports its death to the parent.  An agent that escalates is
killed by its own escalation, which reports the death once more when that kill has returned.  If the
parent escalates at the first report it is gone at the second; but a parent that takes the report as
one more restart, or ignores it, is still there and is told twice.

Whether this happens can be read off the registry before the kill.  In the tree that is killed, an
agent that comes to escalate must do so under an agent that escalates; and if the death of its root
is passed on at all, every ancestor must escalate, and in the trees below the ancestors it must be
so too.

## Main definitions

* `heard`: the deaths that an agent is told of, in a log
* `ReportedOnce`: every agent that is removed under a registered parent is reported to it once
* `AgentTree.PassesOn`, `AgentRegistry.PassesUp`: no agent that comes to escalate has a parent that
  does not, in a tree and above it

## Main results

* `AgentTree.reportedOnce_deaths`, `AgentRegistry.Spreads.reportedOnce_iff`: what is reported once
  within a tree, and above it
* `AgentRegistry.deaths_reported_once`
-/

namespace OxideOS

/-- The death that the event tells the agent of. -/
def AgentEvent.heardBy (p : AgentId) : AgentEvent → Option AgentId
  | removed _ _ => none
  | notified q a _ => if q = p then some a else none

variable {log log₁ log₂ : List AgentEvent} {x p c : AgentId} {e : AgentEvent}

/-- The deaths that the agent is told of. -/
def heard (p : AgentId) (log : List AgentEvent) : List AgentId := log.filterMap (·.heardBy p)

/-- Every agent that is removed under a registered parent is reported to it once. -/
def ReportedOnce (log : List AgentEvent) : Prop :=
  ∀ x p, .removed x p ∈ log → (heard p log).count x = 1

/-! ## Logs about different agents -/

theorem heard_append (p : AgentId) (log₁ log₂ : List AgentEvent) :
    heard p (log₁ ++ log₂) = heard p log₁ ++ heard p log₂ :=
  List.filterMap_append

/-- A log that is about the deaths of others does not tell of this one. -/
theorem count_heard_eq_zero (h : ∀ e ∈ log, e.dead ≠ x) (p : AgentId) :
    (heard p log).count x = 0 := by
  rw [List.count_eq_zero, heard, List.mem_filterMap]
  rintro ⟨_ | ⟨q, a, escalates⟩, hmem, heq⟩
  · cases heq
  · rw [AgentEvent.heardBy] at heq
    split_ifs at heq
    exact h _ hmem (Option.some.inj heq)

/-- Logs that are about the deaths of different agents can be judged one by one. -/
theorem reportedOnce_append (h : ∀ e ∈ log₁, ∀ e' ∈ log₂, e.dead ≠ e'.dead) :
    ReportedOnce (log₁ ++ log₂) ↔ ReportedOnce log₁ ∧ ReportedOnce log₂ := by
  have hleft : ∀ x p, .removed x p ∈ log₁ →
      (heard p (log₁ ++ log₂)).count x = (heard p log₁).count x := by
    intro x p hmem
    have hzero : (heard p log₂).count x = 0 :=
      count_heard_eq_zero (fun e he => (h _ hmem e he).symm) p
    rw [heard_append, List.count_append, hzero, Nat.add_zero]
  have hright : ∀ x p, .removed x p ∈ log₂ →
      (heard p (log₁ ++ log₂)).count x = (heard p log₂).count x := by
    intro x p hmem
    have hzero : (heard p log₁).count x = 0 := count_heard_eq_zero (fun e he => h e he _ hmem) p
    rw [heard_append, List.count_append, hzero, Nat.zero_add]
  constructor
  · intro honce
    refine ⟨fun x p hmem => ?_, fun x p hmem => ?_⟩
    · rw [← hleft x p hmem]
      exact honce x p (List.mem_append_left _ hmem)
    · rw [← hright x p hmem]
      exact honce x p (List.mem_append_right _ hmem)
  · rintro ⟨hfirst, hsecond⟩ x p hmem
    rcases List.mem_append.mp hmem with hmem | hmem
    · rw [hleft x p hmem]
      exact hfirst x p hmem
    · rw [hright x p hmem]
      exact hsecond x p hmem

theorem reportedOnce_nil : ReportedOnce [] := fun _ _ hmem => absurd hmem List.not_mem_nil

/-! ## What one agent is told of one child -/

namespace Agent

variable {agent : Agent} {n : Nat}

theorem mem_hears (he : e ∈ agent.hears c n) : ∃ escalates, e = .notified agent.id c escalates := by
  induction n generalizing agent with
  | zero => cases he
  | succ n ih =>
    rw [hears] at he
    split at he
    · exact ⟨true, List.mem_singleton.mp he⟩
    · rcases List.mem_cons.mp he with rfl | he
      · exact ⟨false, rfl⟩
      · have hrest := ih he
        exact hrest

theorem dead_of_mem_hears (he : e ∈ agent.hears c n) : e.dead = c := by
  obtain ⟨escalates, rfl⟩ := mem_hears he
  rfl

theorem dead_of_mem_removed_hears (he : e ∈ .removed c p :: agent.hears c n) : e.dead = c := by
  rcases List.mem_cons.mp he with rfl | he
  · rfl
  · exact dead_of_mem_hears he

theorem count_heard_hears (agent : Agent) (c : AgentId) (n : Nat) :
    (heard agent.id (agent.hears c n)).count c = (agent.hears c n).length := by
  have hall : ∀ log : List AgentEvent,
      (∀ e ∈ log, ∃ escalates, e = .notified agent.id c escalates) →
        (heard agent.id log).count c = log.length := by
    intro log hlog
    induction log with
    | nil => rfl
    | cons e log ih =>
      obtain ⟨⟨escalates, rfl⟩, hrest⟩ := List.forall_mem_cons.mp hlog
      have hcons : heard agent.id (.notified agent.id c escalates :: log) =
          c :: heard agent.id log := List.filterMap_cons_some (if_pos rfl)
      rw [hcons, List.count_cons_self, ih hrest, List.length_cons]
  exact hall _ fun e he => mem_hears he

/-- The agent is told once if the death is reported once, or if it escalates. -/
theorem length_hears_eq_one_iff (hn : 0 < n) :
    (agent.hears c n).length = 1 ↔ n = 1 ∨ agent.Escalates := by
  obtain ⟨m, rfl⟩ := Nat.exists_eq_succ_of_ne_zero hn.ne'
  rw [hears]
  split
  · next hesc => exact iff_of_true rfl (.inr hesc)
  · next hesc =>
    rw [or_iff_left hesc, List.length_cons, Nat.add_eq_right, Nat.succ_inj]
    cases m with
    | zero => exact iff_of_true rfl rfl
    | succ m =>
      refine iff_of_false ?_ (Nat.succ_ne_zero m)
      rw [hears]
      split <;> exact Nat.succ_ne_zero _

theorem reportedOnce_hears (hn : 0 < n) :
    ReportedOnce (.removed c agent.id :: agent.hears c n) ↔ n = 1 ∨ agent.Escalates := by
  have hcount : (heard agent.id (.removed c agent.id :: agent.hears c n)).count c =
      (agent.hears c n).length := count_heard_hears agent c n
  rw [← length_hears_eq_one_iff (c := c) hn]
  constructor
  · intro honce
    rw [← hcount]
    exact honce c agent.id List.mem_cons_self
  · intro hone x p hmem
    rcases List.mem_cons.mp hmem with heq | hmem
    · obtain ⟨rfl, rfl⟩ := AgentEvent.removed.inj heq
      exact hcount.trans hone
    · obtain ⟨escalates, heq⟩ := mem_hears hmem
      cases heq

end Agent

/-! ## Within a tree -/

namespace AgentTree

mutual

/-- In the tree, an agent that comes to escalate does so under an agent that escalates. -/
def PassesOn : AgentTree → Prop
  | .node agent kids => PassesOnAll agent kids

/-- So it is with these children of an agent, when they die one after the other. -/
def PassesOnAll : Agent → List AgentTree → Prop
  | _, [] => True
  | agent, t :: ts =>
    PassesOn t ∧ (reports t = 1 ∨ agent.Escalates) ∧
      PassesOnAll (agent.restarted (agent.counts (reports t))) ts

end

variable {agent : Agent} {t : AgentTree} {ts : List AgentTree}

/-- Under an agent that escalates, the children can be judged one by one. -/
theorem passesOnAll_of_escalates (h : agent.Escalates) :
    PassesOnAll agent ts ↔ ∀ t ∈ ts, PassesOn t := by
  induction ts generalizing agent with
  | nil =>
    rw [PassesOnAll]
    exact iff_of_true trivial (List.forall_mem_nil _)
  | cons t ts ih =>
    have hmore : (agent.restarted (agent.counts (reports t))).Escalates :=
      h.imp_left fun hmax => hmax.trans (Nat.le_add_right _ _)
    have hparent : reports t = 1 ∨ agent.Escalates := .inr h
    rw [PassesOnAll, ih hmore, List.forall_mem_cons, and_iff_right hparent]

theorem dead_of_mem_deathsAll_of (h : ∀ t ∈ ts, ∀ e ∈ deaths t, e.dead ∈ ids t)
    (he : e ∈ deathsAll agent ts) : e.dead ∈ idsAll ts := by
  induction ts generalizing agent with
  | nil =>
    rw [deathsAll] at he
    cases he
  | cons t ts ih =>
    obtain ⟨ht, hts⟩ := List.forall_mem_cons.mp h
    rw [deathsAll, ← List.cons_append, List.mem_append, List.mem_append] at he
    rw [idsAll_cons, List.mem_append]
    rcases he with he | he | he
    · exact .inl (ht e he)
    · rw [Agent.dead_of_mem_removed_hears he]
      exact .inl t.label_id_mem_ids
    · exact .inr (ih hts he)

/-- While a tree dies, the deaths are those of its agents. -/
theorem dead_of_mem_deaths (t : AgentTree) : ∀ e ∈ deaths t, e.dead ∈ ids t := by
  induction t using RoseTree.induction_kids with
  | h agent kids ih =>
    intro e he
    rw [deaths] at he
    rw [ids_node]
    exact List.mem_append_left _ (dead_of_mem_deathsAll_of ih he)

theorem dead_of_mem_deathsAll (he : e ∈ deathsAll agent ts) : e.dead ∈ idsAll ts :=
  dead_of_mem_deathsAll_of (fun t _ => dead_of_mem_deaths t) he

/-- That of the root is not among them. -/
theorem dead_ne_label (hnodup : (ids t).Nodup) (he : e ∈ deaths t) : e.dead ≠ t.label.id := by
  obtain ⟨agent, kids⟩ := t
  rw [deaths] at he
  rw [ids_node] at hnodup
  exact (List.nodup_append.mp hnodup).2.2 _ (dead_of_mem_deathsAll he) _ (List.mem_singleton_self _)

theorem reportedOnce_deathsAll_of
    (h : ∀ t ∈ ts, (ids t).Nodup → (ReportedOnce t.deaths ↔ t.PassesOn))
    (hnodup : (idsAll ts).Nodup) : ReportedOnce (deathsAll agent ts) ↔ PassesOnAll agent ts := by
  induction ts generalizing agent with
  | nil =>
    rw [deathsAll, PassesOnAll]
    exact iff_of_true reportedOnce_nil trivial
  | cons t ts ih =>
    obtain ⟨ht, hts⟩ := List.forall_mem_cons.mp h
    rw [idsAll_cons, List.nodup_append] at hnodup
    obtain ⟨hfirst, hrest, hdisjoint⟩ := hnodup
    rw [deathsAll, ← List.cons_append, reportedOnce_append, reportedOnce_append, ht hfirst,
      Agent.reportedOnce_hears (reports_pos t), ih hts hrest, PassesOnAll]
    · intro e he e' he'
      rw [Agent.dead_of_mem_removed_hears he]
      exact hdisjoint _ t.label_id_mem_ids _ (dead_of_mem_deathsAll he')
    · intro e he e' he'
      rcases List.mem_append.mp he' with he' | he'
      · rw [Agent.dead_of_mem_removed_hears he']
        exact dead_ne_label hfirst he
      · exact hdisjoint _ (dead_of_mem_deaths t e he) _ (dead_of_mem_deathsAll he')

/-- **Within a tree** every death is reported once exactly if the escalations are passed on. -/
theorem reportedOnce_deaths (t : AgentTree) :
    (ids t).Nodup → (ReportedOnce t.deaths ↔ t.PassesOn) := by
  induction t using RoseTree.induction_kids with
  | h agent kids ih =>
    intro hnodup
    rw [ids_node] at hnodup
    rw [deaths, PassesOn]
    exact reportedOnce_deathsAll_of ih hnodup.of_append_left

theorem reportedOnce_deathsAll (hnodup : (idsAll ts).Nodup) :
    ReportedOnce (deathsAll agent ts) ↔ PassesOnAll agent ts :=
  reportedOnce_deathsAll_of (fun t _ => reportedOnce_deaths t) hnodup

end AgentTree

/-! ## Above a tree -/

namespace AgentRegistry

open AgentTree (ids idsAll ids_node reports deathsAll PassesOn PassesOnAll)

variable {r r' : AgentRegistry} {a : AgentId} {agent parent agent' : Agent} {t : AgentTree}
  {kids before after : List AgentTree} {n : Nat}

/-- Every ancestor escalates, and passes escalations on in the tree below it. -/
def AllEscalateAbove (r : AgentRegistry) (x : AgentId) : Prop :=
  ∀ u, r.Attached u → Relation.TransGen r.ParentOf x u.label.id → u.label.Escalates ∧ u.PassesOn

/-- If the death of the root is reported more than once, or its parent escalates, then so do all
its ancestors. -/
def EscalatesAbove (r : AgentRegistry) (t : AgentTree) (n : Nat) : Prop :=
  (n ≠ 1 ∨ ∃ p parent, t.label.parent = some p ∧ r.get p = some parent ∧ parent.Escalates) →
    r.AllEscalateAbove t.label.id

/-- No agent that comes to escalate when the agent is killed has a parent that does not. -/
def PassesUp (r : AgentRegistry) (a : AgentId) : Prop :=
  ∀ t, r.Attached t → t.label.id = a → t.PassesOn ∧ r.EscalatesAbove t (reports t)

theorem dead_of_mem_removal {parentId : Option AgentId} (he : e ∈ r.removal parentId a) :
    e.dead = a := by
  cases parentId with
  | none => cases he
  | some p =>
    rw [removal] at he
    split at he
    · rw [List.mem_singleton.mp he]
      rfl
    · cases he

theorem Attached.parentOf_kid (h : r.Attached (.node parent (before ++ t :: after))) :
    r.ParentOf t.label.id parent.id :=
  ⟨t.label, h.kid.get_label, h.parent_kid⟩

theorem Attached.removal_kid (h : r.Attached (.node parent (before ++ t :: after))) :
    r.removal t.label.parent t.label.id = [.removed t.label.id parent.id] := by
  rw [h.parent_kid]
  exact removal_some h.kid.get_label (by rw [h.get]; rfl)

/-- The deaths reported above a tree are that of its root and those of agents outside. -/
theorem Spreads.dead (h : r.Spreads t n log r') (he : e ∈ log) :
    e.dead = t.label.id ∨ e.dead ∉ ids t := by
  induction h with
  | root => cases he
  | absorbed => exact .inl (Agent.dead_of_mem_hears he)
  | @escalated t n parent before after outer r' hattached _ _ ih =>
    have hperm := ids_perm parent before after t
    obtain ⟨-, -, hdisjoint⟩ := List.nodup_append.mp (hperm.nodup_iff.mp hattached.nodup)
    have hroot : parent.id ∉ ids t := fun hmem => hdisjoint _ hmem _ (by simp) rfl
    simp only [List.mem_append] at he
    rcases he with he | he | he | he
    · exact .inl (Agent.dead_of_mem_hears he)
    · have hmem := AgentTree.dead_of_mem_deathsAll he
      exact .inr fun hdead => hdisjoint _ hdead _ (by simp [hmem]) rfl
    · rw [dead_of_mem_removal he]
      exact .inr hroot
    · rcases ih he with heq | hnot
      · rw [heq]
        exact .inr hroot
      · exact .inr fun hmem => hnot (hperm.mem_iff.mpr (List.mem_append_left _ hmem))

/-- None of these is the death of an agent below the root. -/
theorem Spreads.dead_notMem (h : r.Spreads (.node agent kids) n log r')
    (hattached : r.Attached (.node agent kids))
    (he : e ∈ r.removal agent.parent agent.id ++ log) : e.dead ∉ idsAll kids := by
  have hdead : e.dead = agent.id ∨ e.dead ∉ ids (.node agent kids) := by
    rcases List.mem_append.mp he with he | he
    · exact .inl (dead_of_mem_removal he)
    · exact h.dead he
  rcases hdead with heq | hnot
  · rw [heq]
    exact hattached.notMem_idsAll
  · rw [ids_node] at hnot
    exact fun hmem => hnot (List.mem_append_left _ hmem)

/-- A root has no ancestors. -/
theorem Attached.allEscalateAbove_root (ht : r.Attached t) (hparent : t.label.parent = none) :
    r.AllEscalateAbove t.label.id := by
  intro u _ hup
  obtain ⟨p, ⟨agent, hget, hp⟩, -⟩ := Relation.TransGen.head'_iff.mp hup
  obtain rfl := Option.some.inj (ht.get_label.symm.trans hget)
  rw [hparent] at hp
  cases hp

/-- The ancestors of a child are its parent and the ancestors of the parent. -/
theorem Attached.allEscalateAbove_iff (h : r.Attached (.node parent (before ++ t :: after))) :
    r.AllEscalateAbove t.label.id ↔
      (parent.Escalates ∧ PassesOn (.node parent (before ++ t :: after))) ∧
        r.AllEscalateAbove parent.id := by
  constructor
  · intro hall
    exact ⟨hall _ h (.single h.parentOf_kid), fun u hu hup => hall u hu (.head h.parentOf_kid hup)⟩
  · rintro ⟨hparent, hall⟩ u hu hup
    obtain ⟨q, hq, hup⟩ := Relation.TransGen.head'_iff.mp hup
    obtain rfl := parentOf_rightUnique h.parentOf_kid hq
    rcases hup.cases_head with hid | ⟨q', hq', hup⟩
    · obtain rfl := holds_unique h.holds hu.holds hid
      exact hparent
    · exact hall u hu (.head' hq' hup)

/-- A parent that does not absorb the reports was told more than once, or escalates. -/
theorem Attached.escalatesAbove_iff (h : r.Attached (.node parent (before ++ t :: after)))
    (habsorbs : ¬parent.Absorbs n) :
    r.EscalatesAbove t n ↔ r.AllEscalateAbove t.label.id := by
  refine forall_prop_of_true ?_
  by_cases hn : n = 1
  · rw [hn, Agent.absorbs_one, not_not] at habsorbs
    exact .inr ⟨_, parent, h.parent_kid, h.get, habsorbs⟩
  · exact .inl hn

/-- **Above a tree** every death is reported once exactly if, once the death of the root is passed
on, it is passed on all the way up. -/
theorem Spreads.reportedOnce_iff (h : r.Spreads t n log r') (hr : r.WellFormed)
    (ht : r.Attached t) (hn : 0 < n) (hpasses : t.PassesOn) :
    ReportedOnce (r.removal t.label.parent t.label.id ++ log) ↔ r.EscalatesAbove t n := by
  induction h with
  | @root t n hparent =>
    rw [hparent]
    exact iff_of_true reportedOnce_nil fun _ => ht.allEscalateAbove_root hparent
  | @absorbed t n parent hparent hget habsorbs =>
    obtain ⟨before, after, hattached⟩ := hr.exists_above ht hparent hget
    rw [hattached.removal_kid, List.singleton_append, Agent.reportedOnce_hears hn,
      or_iff_left habsorbs.1]
    constructor
    · rintro rfl (hne | ⟨p, parent', hp, hget', hesc⟩)
      · exact absurd rfl hne
      · obtain rfl := Option.some.inj (hparent.symm.trans hp)
        obtain rfl := Option.some.inj (hget.symm.trans hget')
        exact absurd hesc habsorbs.1
    · intro habove
      by_contra hne
      exact habsorbs.1 (hattached.allEscalateAbove_iff.mp (habove (.inl hne))).1.1
  | @escalated t n parent before after outer r' hattached habsorbs hup ih =>
    have hperm := (ids_perm parent before after t).nodup_iff.mp hattached.nodup
    obtain ⟨-, hnodup, hdisjoint⟩ := List.nodup_append.mp hperm
    rw [ids_node] at hnodup
    have hesc : n = 1 ∨ parent.Escalates ↔ parent.Escalates := by
      refine or_iff_right_of_imp ?_
      rintro rfl
      exact not_not.mp (mt Agent.absorbs_one.mpr habsorbs)
    have hkids : parent.Escalates → (PassesOn (.node parent (before ++ t :: after)) ↔
        ∀ t ∈ before ++ after, PassesOn t) := by
      intro hesc
      rw [PassesOn, AgentTree.passesOnAll_of_escalates hesc]
      simp only [List.mem_append, List.mem_cons]
      constructor
      · exact fun hall t' ht' => hall t' (ht'.imp_right .inr)
      · rintro hall t' (ht' | rfl | ht')
        · exact hall t' (.inl ht')
        · exact hpasses
        · exact hall t' (.inr ht')
    have habove : PassesOn (.node parent (before ++ t :: after)) →
        (ReportedOnce (r.removal parent.parent parent.id ++ outer) ↔
          r.AllEscalateAbove parent.id) := by
      intro hu
      rw [← RoseTree.label_node parent (before ++ t :: after), ih hattached (Nat.succ_pos _) hu]
      exact forall_prop_of_true (.inl (by omega))
    rw [hattached.escalatesAbove_iff habsorbs, hattached.allEscalateAbove_iff,
      hattached.removal_kid, List.singleton_append, ← List.cons_append, reportedOnce_append,
      reportedOnce_append, Agent.reportedOnce_hears hn,
      AgentTree.reportedOnce_deathsAll hnodup.of_append_left,
      AgentTree.passesOnAll_of_escalates (Agent.escalates_restarted habsorbs), hesc]
    · constructor
      · rintro ⟨hparent, hall, honce⟩
        have hu := (hkids hparent).mpr hall
        exact ⟨⟨hparent, hu⟩, (habove hu).mp honce⟩
      · rintro ⟨⟨hparent, hu⟩, hall⟩
        exact ⟨hparent, (hkids hparent).mp hu, (habove hu).mpr hall⟩
    · intro e he e' he' heq
      refine hup.dead_notMem hattached he' (heq ▸ ?_)
      rw [AgentTree.idsAll_append, List.mem_append, AgentTree.idsAll_cons, List.mem_append]
      have hmem := AgentTree.dead_of_mem_deathsAll he
      rw [AgentTree.idsAll_append, List.mem_append] at hmem
      exact hmem.imp_right .inr
    · intro e he e' he' heq
      rw [Agent.dead_of_mem_removed_hears he] at heq
      rcases List.mem_append.mp he' with he' | he'
      · have hmem := AgentTree.dead_of_mem_deathsAll he'
        exact hdisjoint _ t.label_id_mem_ids _ (by simp [hmem]) heq
      · refine hup.dead_notMem hattached he' (heq ▸ ?_)
        exact AgentTree.mem_idsAll.mpr ⟨t, by simp, t.label_id_mem_ids⟩

/-- Then nobody counts more deaths than there were among its children. -/
theorem Spreads.restartCount_le (h : r.Spreads t n log r') (hr : r.WellFormed) (ht : r.Attached t)
    (habove : r.EscalatesAbove t n) (hget : r.get x = some agent) (hget' : r'.get x = some agent') :
    agent'.restartCount ≤ agent.restartCount +
      (agent.children.filter fun c => (r'.get c).isNone).length := by
  induction h with
  | root =>
    rw [get_dropAll, hget] at hget'
    split at hget'
    · cases hget'
    · obtain rfl := Option.some.inj hget'
      exact Nat.le_add_right _ _
  | @absorbed t n parent hparent hgetp habsorbs =>
    obtain ⟨before, after, hattached⟩ := hr.exists_above ht hparent hgetp
    rw [get_modify] at hget'
    split at hget'
    · next hx =>
      subst hx
      obtain rfl := Option.some.inj (hget.symm.trans hgetp)
      rw [ht.get_parent hparent hget] at hget'
      obtain rfl := Option.some.inj hget'
      have hone : n = 1 := by
        by_contra hne
        exact habsorbs.1 (hattached.allEscalateAbove_iff.mp (habove (.inl hne))).1.1
      have hmem : t.label.id ∈ agent.children := by
        rw [hattached.children]
        simp
      have hgone : ((r.dropAll (ids t)).modify agent.id
          (Agent.restarted (agent.counts n))).get t.label.id = none := by
        rw [get_modify, get_dropAll, if_pos t.label_id_mem_ids, Option.map_none, ite_self]
      subst hone
      refine Nat.add_le_add_left (agent.counts_one_le.trans ?_) _
      exact List.length_pos_of_mem (List.mem_filter.mpr ⟨hmem, by rw [hgone]; rfl⟩)
    · rw [get_dropAll, hget] at hget'
      split at hget'
      · cases hget'
      · obtain rfl := Option.some.inj hget'
        exact Nat.le_add_right _ _
  | escalated hattached habsorbs _ ih =>
    rw [hattached.escalatesAbove_iff habsorbs, hattached.allEscalateAbove_iff] at habove
    exact ih hattached (fun _ => habove.2) hget'

/-! ## Every kill -/

theorem passesUp_iff (ht : r.Attached t) :
    r.PassesUp t.label.id ↔ t.PassesOn ∧ r.EscalatesAbove t (reports t) := by
  refine ⟨fun h => h t ht rfl, fun h u hu hid => ?_⟩
  obtain rfl := holds_unique hu.holds ht.holds hid
  exact h

/-- A kill, its log, and what follows for both. -/
theorem WellFormed.exists_logs (hr : r.WellFormed) (a : AgentId) :
    ∃ log r', Logs r (.kill a) log r' ∧ (ReportedOnce log ↔ r.PassesUp a) ∧
      (r.PassesUp a → ∀ x agent agent', r.get x = some agent → r'.get x = some agent' →
        agent'.restartCount ≤ agent.restartCount +
          (agent.children.filter fun c => (r'.get c).isNone).length) := by
  cases hget : r.get a with
  | none =>
    refine ⟨[], r, .killNone hget, iff_of_true reportedOnce_nil ?_, ?_⟩
    · rintro t ht rfl
      rw [ht.get_label] at hget
      cases hget
    · intro _ x agent agent' hx hx'
      obtain rfl := Option.some.inj (hx.symm.trans hx')
      exact Nat.le_add_right _ _
  | some agent =>
    obtain ⟨kids, log, r', hattached, hspreads, hlogs, -⟩ := exists_kills hr hget
    obtain rfl := hr.id_eq a agent hget
    have hnodup := hattached.nodup
    rw [ids_node] at hnodup
    have hiff := passesUp_iff hattached
    rw [RoseTree.label_node] at hiff
    refine ⟨_, r', hlogs, ?_, fun hpasses x agent agent' hx hx' => ?_⟩
    · rw [reportedOnce_append, AgentTree.reportedOnce_deathsAll hnodup.of_append_left, hiff,
        PassesOn]
      · refine and_congr_right fun hkids => ?_
        exact hspreads.reportedOnce_iff hr hattached (AgentTree.reports_pos _) (by rwa [PassesOn])
      · intro e he e' he' heq
        exact hspreads.dead_notMem hattached he' (heq ▸ AgentTree.dead_of_mem_deathsAll he)
    · exact hspreads.restartCount_le hr hattached (hiff.mp hpasses).2 hx hx'

/-- **When each death is reported once.**  From every reachable registry, killing an agent returns.
Each agent that it removes under a registered parent is reported to that parent once, exactly if no
agent that comes to escalate has a parent that does not; and then the restarts of an agent that
survives rise at most by the number of its children that are gone. -/
theorem deaths_reported_once (h : system.Reachable r) (a : AgentId) :
    (∃ log r', Logs r (.kill a) log r') ∧
      ∀ log r', Logs r (.kill a) log r' →
        (∃ result, r.Kills a result r') ∧ (ReportedOnce log ↔ r.PassesUp a) ∧
        (r.PassesUp a → ∀ x agent agent', r.get x = some agent → r'.get x = some agent' →
          agent'.restartCount ≤ agent.restartCount +
            (agent.children.filter fun c => (r'.get c).isNone).length) := by
  obtain ⟨log, r', hlogs, honce, hrestarts⟩ := (wellFormed_invariant.of_reachable h).exists_logs a
  refine ⟨⟨log, r', hlogs⟩, fun log' r'' hlogs' => ⟨hlogs'.returns, ?_⟩⟩
  obtain ⟨rfl, rfl⟩ := hlogs.unique hlogs'
  exact ⟨honce, hrestarts⟩

/-- An agent under two that escalate. -/
def chain : List AgentOp :=
  [.spawn 1 none (configOf "root" .escalate), .spawn 2 (some 1) (configOf "group" .escalate),
    .spawn 3 (some 2) (configOf "leaf" .permanent)]

theorem chain_isSome : (chain.foldlM (exec 20) new).isSome := by decide +kernel

/-- The leaf and the group above it. -/
def chainLeaf : AgentTree := .node (agentOf 3 "leaf" .permanent (some 2) []) []

def chainGroup : AgentTree := .node (agentOf 2 "group" .escalate (some 1) [3]) [chainLeaf]

/-- Agent 2 escalates the death of agent 3, and agent 1 that of agent 2. -/
theorem deaths_reported_once_chain :
    ∃ r r' log, system.Reachable r ∧ Logs r (.kill 3) log r' ∧ .notified 2 3 true ∈ log ∧
      .removed 2 1 ∈ log ∧ r.PassesUp 3 ∧ ReportedOnce log := by
  obtain ⟨r, hr, hroot, hgroup, hleaf⟩ : ∃ r, chain.foldlM (exec 20) new = some r ∧
      r.get 1 = some (agentOf 1 "root" .escalate none [2]) ∧
      r.get 2 = some (agentOf 2 "group" .escalate (some 1) [3]) ∧
      r.get 3 = some (agentOf 3 "leaf" .permanent (some 2) []) :=
    ⟨_, (Option.some_get chain_isSome).symm, by decide +kernel, by decide +kernel,
      by decide +kernel⟩
  have hreach := reachable_of_exec hr
  have hwell := wellFormed_invariant.of_reachable hreach
  have hholds₃ : chainLeaf.All r.Holds := .node ⟨hleaf, rfl, by decide⟩ (by simp)
  have hholds₂ : chainGroup.All r.Holds := .node ⟨hgroup, rfl, by decide⟩ (by simpa using hholds₃)
  have hholds₁ : (RoseTree.node (agentOf 1 "root" .escalate none [2]) [chainGroup]).All r.Holds :=
    .node ⟨hroot, rfl, by decide⟩ (by simpa using hholds₂)
  have h₂ : r.Attached (.node _ ([] ++ chainLeaf :: [])) := hwell.attached hholds₂
  have h₁ : r.Attached (.node _ ([] ++ chainGroup :: [])) := hwell.attached hholds₁
  have hspreads : r.Spreads chainLeaf (reports chainLeaf) _ _ :=
    .escalated h₂ (by decide) (.escalated h₁ (by decide) (.root rfl))
  have hlogs := logs_of_attached chainLeaf r _ _ h₂.kid
    (hspreads.logsTimes h₂.kid (AgentTree.reports_pos _))
  have hpasses₃ : PassesOn chainLeaf := by
    rw [chainLeaf, PassesOn, PassesOnAll]
    trivial
  have hpasses₂ : PassesOn chainGroup := by
    rw [chainGroup, PassesOn, AgentTree.passesOnAll_of_escalates (by decide)]
    simpa using hpasses₃
  have hpasses₁ : PassesOn (.node (agentOf 1 "root" .escalate none [2]) [chainGroup]) := by
    rw [PassesOn, AgentTree.passesOnAll_of_escalates (by decide)]
    simpa using hpasses₂
  have hpasses : r.PassesUp 3 := by
    refine (passesUp_iff h₂.kid).mpr ⟨hpasses₃, fun _ => ?_⟩
    exact h₂.allEscalateAbove_iff.mpr ⟨⟨by decide, hpasses₂⟩, h₁.allEscalateAbove_iff.mpr
      ⟨⟨by decide, hpasses₁⟩, h₁.allEscalateAbove_root rfl⟩⟩
  obtain ⟨-, honce, -⟩ := (deaths_reported_once hreach 3).2 _ _ hlogs
  have hremoved : .removed 2 1 ∈ r.removal (some 1) 2 := by
    rw [show r.removal (some 1) 2 = _ from h₁.removal_kid]
    exact List.mem_singleton_self _
  refine ⟨r, _, _, hreach, hlogs, ?_, ?_, hpasses, honce.mpr hpasses⟩
  · exact List.mem_append_right _ (List.mem_append_right _ (List.mem_append_left _ (by decide)))
  · exact List.mem_append_right _ (List.mem_append_right _ (List.mem_append_right _
      (List.mem_append_right _ (List.mem_append_left _ hremoved))))

theorem escalated_isSome : (escalated.dropLast.foldlM (exec 20) new).isSome := by decide +kernel

/-- The death of agent 3 is escalated by agent 2.  The kill that the escalation makes reports the
death of agent 2, and so does the escalation; agent 1 counts both as restarts. -/
theorem death_reported_twice :
    ∃ r r' log, system.Reachable r ∧ Logs r (.kill 3) log r' ∧ .removed 2 1 ∈ log ∧
      (heard 1 log).count 2 ≠ 1 ∧
      (r.get 1).map (fun agent => (agent.children, agent.restartCount)) = some ([2, 4], 0) ∧
      (r'.get 1).map (fun agent => (agent.children, agent.restartCount)) = some ([4], 2) := by
  obtain ⟨r, hr, hroot, hgroup, hleaf⟩ : ∃ r, escalated.dropLast.foldlM (exec 20) new = some r ∧
      r.get 1 = some (agentOf 1 "root" .restartOne none [2, 4]) ∧
      r.get 2 = some (agentOf 2 "left" .escalate (some 1) [3]) ∧
      r.get 3 = some (agentOf 3 "leaf" .permanent (some 2) []) :=
    ⟨_, (Option.some_get escalated_isSome).symm, by decide +kernel, by decide +kernel,
      by decide +kernel⟩
  have hreach := reachable_of_exec hr
  have hwell := wellFormed_invariant.of_reachable hreach
  have hholds₃ : chainLeaf.All r.Holds := .node ⟨hleaf, rfl, by decide⟩ (by simp)
  have hholds₂ :=
    RoseTree.All.node (a := agentOf 2 "left" .escalate (some 1) [3]) (P := r.Holds)
      ⟨hgroup, rfl, by decide⟩ (List.forall_mem_singleton.mpr hholds₃)
  have h₂ : r.Attached (.node _ ([] ++ chainLeaf :: [])) := hwell.attached hholds₂
  have hget : r.get (agentOf 1 "root" .restartOne none [2, 4]).id = some _ := hroot
  have hspreads : r.Spreads chainLeaf (reports chainLeaf) _ _ :=
    .escalated h₂ (by decide) (.absorbed rfl hget (by decide))
  have hlogs : Logs r (.kill 3) ([] ++ (r.removal (some 2) 3 ++ ([.notified 2 3 true] ++ ([] ++
      (r.removal (some 1) 2 ++ [.notified 1 2 false, .notified 1 2 false]))))) _ :=
    logs_of_attached chainLeaf r _ _ h₂.kid
      (hspreads.logsTimes h₂.kid (AgentTree.reports_pos _))
  rw [removal_some hleaf (by rw [hgroup]; rfl), removal_some hgroup (by rw [hroot]; rfl)] at hlogs
  refine ⟨r, _, _, hreach, hlogs, by decide, by decide, by rw [hroot]; rfl, ?_⟩
  have hids : ids (.node (agentOf 2 "left" .escalate (some 1) [3]) [chainLeaf]) = [3, 2] := by
    simp [chainLeaf, agentOf]
  have hparent := (hwell.attached hholds₂).get_parent rfl hroot
  rw [hids] at hparent
  show (((r.dropAll (ids (.node _ [chainLeaf]))).modify 1 _).get 1).map _ = _
  rw [hids, get_modify_self hparent]
  rfl

end AgentRegistry

end OxideOS
