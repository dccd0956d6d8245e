import OxideOS.Kernel.System

/-!
# Recycled task ids

Capabilities and subscriptions name a task by its id, and the id of a dead task is handed out again.
The cleanup of a dead task gives back its frames, its mailbox and its id.  It revokes none of its
capabilities and ends none of its subscriptions, so what the dead task held is held by its id, and
works for whoever has the id next.

Nothing is passed on exactly when the task held nothing at the time of the cleanup.  From then on
its old capabilities cannot come back to life, and a channel lists the id only after a new
subscription.

## Main definitions

* `Disowned`: a task owns no live capability and is a subscriber of no channel
* `SubscribedAnew`: a subscription made during a run by a task that was not listed
* `NoInheritedAuthority`: what a dead task held does not work for its id

## Main results

* `subscribedAnew_of_lists`: a task that a run lists has subscribed in it
* `no_inherited_authority_iff`: a cleanup passes nothing on exactly when the task is disowned
-/

namespace OxideOS

namespace Kernel

variable {k k₁ k₂ : Kernel} {id : TaskId} {name : String} {ops : List KernelOp}
  {frames : Option BitmapFrameAllocator} {pageTable : PageTable}

/-- The task owns no live capability, and no channel lists it. -/
structure Disowned (k : Kernel) (id : TaskId) : Prop where
  caps : ∀ i cap, k.caps.slot i = some cap → cap.owner = id → cap.revoked = true
  channels : ∀ name, ¬k.Lists name id

/-- The calls `ops` from `k₁` contain a successful subscription of a task that was not listed. -/
def SubscribedAnew (M : TransitionSystem Kernel KernelOp) (k₁ : Kernel) (ops : List KernelOp)
    (name : String) (id : TaskId) : Prop :=
  ∃ before after capId k, ops = before ++ .gated (.subscribe name id capId) :: after ∧
    M.Run k₁ before k ∧ ¬k.Lists name id ∧ (k.subscribe name id capId).1 = .ok ()

/-- The calls `ops` lead from `k₁`, right after the cleanup of the task `id` in `k`, to `k₂`, and
there the id has nothing from the dead task: no capability of that time is valid for it, and a
channel that lists it has been subscribed to anew. -/
structure NoInheritedAuthority (M : TransitionSystem Kernel KernelOp) (k k₁ : Kernel)
    (ops : List KernelOp) (k₂ : Kernel) (id : TaskId) : Prop where
  caps : ∀ i cap, k.caps.slot i = some cap →
    ∀ required cap', k₂.caps.validate i id required ≠ .ok cap'
  channels : ∀ name, k₂.Lists name id → SubscribedAnew M k₁ ops name id

/-! ## Deciding -/

/-- A task is disowned when the slots and the channels say so, one by one. -/
theorem disowned_iff : k.Disowned id ↔
    k.caps.OwnsNothing id ∧ ∀ entry ∈ k.channels.toList, entry.2.listed id = false := by
  constructor
  · rintro ⟨hcaps, hchannels⟩
    refine ⟨hcaps, ?_⟩
    rintro ⟨name, channel⟩ hentry
    by_contra hlisted
    refine hchannels name ⟨channel, ?_, Bool.eq_true_of_not_eq_false hlisted⟩
    exact Std.ExtTreeMap.mem_toList_iff_getElem?_eq_some.mp hentry
  · rintro ⟨hcaps, hchannels⟩
    refine ⟨hcaps, ?_⟩
    rintro name ⟨channel, hchannel, hlisted⟩
    have hnot := hchannels _ (Std.ExtTreeMap.mem_toList_iff_getElem?_eq_some.mpr hchannel)
    rw [hlisted] at hnot
    cases hnot

instance : Decidable (k.Disowned id) := decidable_of_iff _ disowned_iff.symm

/-! ## Subscriptions along a run -/

/-- **A task that a run lists has subscribed in it**: between a state in which the channel does not
list the task and one in which it does, there is a first call that lists it. -/
theorem subscribedAnew_of_lists (hrun : (system frames pageTable).Run k₁ ops k₂)
    (h₁ : ¬k₁.Lists name id) (h₂ : k₂.Lists name id) :
    SubscribedAnew (system frames pageTable) k₁ ops name id := by
  induction hrun with
  | nil k => exact absurd h₂ h₁
  | @cons k m _ op ops hstep hrest ih =>
    by_cases hm : m.Lists name id
    · rcases (step_evolves hstep).channels name id hm with hk | ⟨capId, rfl, hok⟩
      · exact absurd hk h₁
      · exact ⟨[], ops, capId, k, rfl, .nil k, h₁, hok⟩
    · obtain ⟨before, after, capId, k', rfl, hbefore, hnot, hok⟩ := ih hm h₂
      exact ⟨op :: before, after, capId, k', rfl, .cons hstep hbefore, hnot, hok⟩

/-! ## Cleanup -/

variable {task : Task}

/-- The cleanup of a dead task frees its id, and touches neither capabilities nor channels. -/
theorem reschedule_of_dead (hcurrent : k.tasks.sched.current = some task)
    (hdead : task.state = .dead) (hstep : k.step .reschedule = some k₁) :
    k₁.caps = k.caps ∧ k₁.channels = k.channels ∧
      k₁.tasks.ids = k.tasks.ids.free task.id := by
  obtain ⟨change, reaped, sched, hres, frames, mailboxes, rfl⟩ := reschedule_cases hstep
  have hreaped : k.tasks.sched.putBack.1 = reaped := congrArg (fun r => r.2.1) hres
  rw [Scheduler.putBack, hcurrent] at hreaped
  simp only [hdead] at hreaped
  subst hreaped
  exact ⟨rfl, rfl, rfl⟩

theorem alloc_free (ids : IdAllocator) (id : TaskId) : (ids.free id).alloc.1 = id := by
  simp [IdAllocator.free, IdAllocator.alloc]

theorem contains_none (permissions : PermissionBits) : permissions.contains .none = true := by
  simp [PermissionBits.contains, PermissionBits.none]

/-- A live capability is valid for its owner, if no right is required. -/
theorem revoked_of_validate_ne {t : CapabilityTable} {i : CapId} {cap : Capability}
    (hslot : t.slot i = some cap)
    (h : ∀ required cap', t.validate i cap.owner required ≠ .ok cap') :
    cap.revoked = true := by
  by_contra hlive
  apply h .none cap
  exact CapabilityTable.validate_eq_ok.mpr
    ⟨hslot, Bool.eq_false_of_not_eq_true hlive, rfl, contains_none _⟩

/-- A capability that is revoked for a task stays invalid for it, along every run. -/
theorem validate_ne_of_keeps {t t' : CapabilityTable} (hkeeps : t.Keeps t')
    (hdisowned : ∀ i cap, t.slot i = some cap → cap.owner = id → cap.revoked = true)
    {i : CapId} {cap cap' : Capability} {required : PermissionBits}
    (hslot : t.slot i = some cap) : t'.validate i id required ≠ .ok cap' := by
  intro hvalid
  obtain ⟨hslot', hlive, howner, -⟩ := CapabilityTable.validate_eq_ok.mp hvalid
  obtain ⟨c, hc, hcowner, hrevoked⟩ := hkeeps i cap hslot
  obtain rfl := Option.some.inj (hslot'.symm.trans hc)
  rw [hrevoked (hdisowned i cap hslot (hcowner.symm.trans howner))] at hlive
  cases hlive

/-- **A cleanup passes nothing on exactly when the task is disowned.**  In every reachable state in
which the current task is dead, the next reschedule frees its id, and the id is the next to be
handed out.  Along all runs from there nothing of the dead task works for the id if and only if,
before the reschedule, the dead task owned no live capability and was listed by no channel. -/
theorem no_inherited_authority_iff (hk : (system frames pageTable).Reachable k)
    (hcurrent : k.tasks.sched.current = some task) (hdead : task.state = .dead)
    (hstep : k.step .reschedule = some k₁) :
    k₁.tasks.ids.alloc.1 = task.id ∧
      ((∀ ops k₂, (system frames pageTable).Run k₁ ops k₂ →
        NoInheritedAuthority (system frames pageTable) k k₁ ops k₂ task.id) ↔
        k.Disowned task.id) := by
  obtain ⟨hcaps, hchannels, hids⟩ := reschedule_of_dead hcurrent hdead hstep
  refine ⟨by rw [hids, alloc_free], fun hall => ?_, fun hdisowned ops k₂ hrun => ?_⟩
  · obtain ⟨hinvalid, hanew⟩ := hall [] k₁ (.nil k₁)
    constructor
    · intro i cap hslot howner
      rw [hcaps, ← howner] at hinvalid
      exact revoked_of_validate_ne hslot (hinvalid i cap hslot)
    · intro name hlists
      rw [Lists, ← hchannels] at hlists
      obtain ⟨before, after, capId, k', hnil, -⟩ := hanew name hlists
      simp at hnil
  · have hkeeps : k.caps.Keeps k₂.caps := by
      obtain ⟨capOps, hcapRun⟩ := caps_projects.run (TransitionSystem.Run.cons hstep hrun)
      exact (wellFormed_of_reachable hk).keeps_run hcapRun
    constructor
    · intro i cap hslot required cap'
      exact validate_ne_of_keeps hkeeps hdisowned.caps hslot
    · intro name hlists
      have hfresh : ¬k₁.Lists name task.id := by
        rw [Lists, hchannels]
        exact hdisowned.channels name
      exact subscribedAnew_of_lists hrun hfresh hlists

/-! ## Two deaths -/

/-- Sixteen free frames. -/
def sixteenFrames : Option BitmapFrameAllocator :=
  some ((BitmapFrameAllocator.new 16).markRegionFree 0 16)

/-- Task 1 gets two capabilities and subscribes to a channel. -/
def subscribed : List KernelOp :=
  [.spawn .normal, .capability (.createRoot 1 (.agent 2) .write),
    .capability (.createRoot 1 (.channel "results") .subscribe), .createChannel "results",
    .reschedule, .gated (.subscribe "results" 1 2)]

/-- Task 1 gives up what it has, and exits. -/
def retired : List KernelOp :=
  subscribed ++ [.unsubscribe "results" 1, .capability (.revoke 1 1), .capability (.revoke 2 1),
    .killCurrent]

/-- Task 1 exits. -/
def exited : List KernelOp := subscribed ++ [.killCurrent]

theorem no_inherited_authority_retired :
    ∃ k k₁, retired.foldlM step (boot sixteenFrames .empty) = some k ∧
      k.step .reschedule = some k₁ ∧
      ∀ ops k₂, (system sixteenFrames .empty).Run k₁ ops k₂ →
        NoInheritedAuthority (system sixteenFrames .empty) k k₁ ops k₂ 1 := by
  have hrun : ((retired.foldlM step (boot sixteenFrames .empty)).bind fun k =>
      (k.step .reschedule).map fun _ =>
        (k.tasks.sched.current.map fun t => (t.id, t.state), decide (k.Disowned 1))) =
      some (some (1, .dead), true) := by
    decide
  obtain ⟨k, hk, hrest⟩ := Option.bind_eq_some_iff.mp hrun
  obtain ⟨k₁, hstep, hstate⟩ := Option.map_eq_some_iff.mp hrest
  obtain ⟨hcurrent, hdisowned⟩ := Prod.mk.inj hstate
  obtain ⟨task, hcurrent, htask⟩ := Option.map_eq_some_iff.mp hcurrent
  obtain ⟨hid, hdead⟩ := Prod.mk.inj htask
  refine ⟨k, k₁, hk, hstep, ?_⟩
  rw [← hid] at hdisowned ⊢
  exact (no_inherited_authority_iff (TransitionSystem.reachable_ofPartial_iff.mpr ⟨retired, hk⟩)
    hcurrent hdead hstep).2.mpr (of_decide_eq_true hdisowned)

/-- Task 1 exits and is cleaned up: its id is handed out next, its capability to write to agent 2 is
valid for that id, and the channel still lists it. -/
theorem authority_outlives_task :
    ∃ k k₁, exited.foldlM step (boot sixteenFrames .empty) = some k ∧
      k.tasks.sched.current.map (fun t => (t.id, t.state)) = some (1, .dead) ∧
      k.step .reschedule = some k₁ ∧ k₁.tasks.ids.alloc.1 = 1 ∧
      (k₁.caps.validate 1 1 .write).isOk = true ∧ k₁.Lists "results" 1 ∧
      ¬NoInheritedAuthority (system sixteenFrames .empty) k k₁ [] k₁ 1 := by
  have hrun : ((exited.foldlM step (boot sixteenFrames .empty)).bind fun k =>
      (k.step .reschedule).map fun k₁ =>
        (k.tasks.sched.current.map fun t => (t.id, t.state), k₁.tasks.ids.alloc.1,
          (k₁.caps.validate 1 1 .write).isOk, k₁.channels["results"]?.map (Channel.listed · 1))) =
      some (some (1, .dead), 1, true, some true) := by
    decide
  obtain ⟨k, hk, hrest⟩ := Option.bind_eq_some_iff.mp hrun
  obtain ⟨k₁, hstep, hstate⟩ := Option.map_eq_some_iff.mp hrest
  simp only [Prod.mk.injEq, Option.map_eq_some_iff] at hstate
  obtain ⟨hcurrent, hid, hvalid, channel, hchannel, hlisted⟩ := hstate
  have hlists : k₁.Lists "results" 1 := ⟨channel, hchannel, hlisted⟩
  refine ⟨k, k₁, hk, ?_, hstep, hid, hvalid, hlists, fun hnone => ?_⟩
  · simpa using hcurrent
  · obtain ⟨before, after, capId, k', hnil, -⟩ := hnone.channels "results" hlists
    simp at hnil

end Kernel

end OxideOS
