import OxideOS.Kernel.Recycling
import OxideOS.Kernel.Timed

/-!
# Lost wake-ups

A task that sleeps is woken by its entry in the deadline queue, and a task that waits for a reply by
the reply or by the expiry of its request.  The record of this is made before the task blocks, and
the timer interrupt uses it up whether or not it can wake the task.  So the record can be gone when
the task blocks, or while it is blocked: if the interrupt comes between the two, which it can unless
interrupts are masked, or finds the scheduler locked.  Then nothing will wake the task.  A reply
that has taken its request out of one table and not yet entered its message in the other counts as a
record: whoever replies goes on with it.

## Main definitions

* `TimedKernel.NoLostWakeUp`: every sleeper has an entry, and every requester a request or a reply,
  which may be in progress
* `TimedKernel.Careful`: a step that uses up no record whose task is not woken

## Main results

* `TimedKernel.noLostWakeUp_step_iff`: a step loses no wake-up if and only if it is careful
* `TimedKernel.no_lost_wake_up`: runs of careful steps lose none
* `TimedKernel.sleeper_lost`: an interrupt that finds the scheduler locked loses a sleeper
-/

namespace OxideOS

/-- What the running task is about to block for. -/
def Phase.wait : Phase → Option Wait
  | .scheduled _ => some .sleep
  | .requested msgId => some (.reply msgId)
  | _ => none

/-- The request that a reply in progress answers. -/
def Phase.answers : Phase → Option MessageId
  | .replying msgId _ _ => some msgId
  | _ => none

/-- The reply that a call takes. -/
def KernelOp.collected : KernelOp → Option MessageId
  | .collectReply m => some m
  | _ => none

theorem KernelOp.collected_eq_some {op : KernelOp} {m : MessageId} (h : op.collected = some m) :
    op = .collectReply m := by
  cases op with
  | collectReply m' => exact congrArg collectReply (Option.some.inj h)
  | _ => cases h

namespace Kernel

variable {k k' : Kernel} {m : MessageId} {id : TaskId}

/-- The request was made, and by this task. -/
def Owned (k : Kernel) (m : MessageId) (id : TaskId) : Prop :=
  m < k.nextMsgId ∧ ∀ req, k.pending[m]? = some req → req.requester = id

theorem Settles.owned (h : k.Settles k') (ho : k.Owned m id) : k'.Owned m id :=
  ⟨Nat.lt_of_lt_of_le ho.1 h.nextMsgId, fun req hreq => ho.2 req (h.pending m req ho.1 hreq)⟩

theorem Exchanges.owned {events : List RequestEvent} {recipient : TaskId}
    (h : Exchanges k events k') (hm : .requested m id recipient ∈ events) : k'.Owned m id := by
  cases h with
  | request sender recipient deadlineTick hpending _ hnext =>
    obtain ⟨rfl, rfl, -⟩ := RequestEvent.requested.inj (List.mem_singleton.mp hm)
    refine ⟨hnext ▸ Nat.lt_succ_self _, fun req hreq => ?_⟩
    rw [hpending, Std.ExtTreeMap.getElem?_insert_self] at hreq
    exact congrArg PendingRequest.requester (Option.some.inj hreq).symm
  | _ => simp at hm

end Kernel

namespace TimedKernel

abbrev blockedIds (s : TimedKernel) : List TaskId := s.kernel.tasks.sched.blockedIds

abbrev current (s : TimedKernel) : Option Task := s.kernel.tasks.sched.current

/-- There is a record that will wake a task which has blocked for this. -/
def Wakeable (s : TimedKernel) (id : TaskId) : Wait → Prop
  | .sleep => ∃ e ∈ s.deadlines.heap, e.taskId = id
  | .reply m => s.kernel.Answerable m ∨ s.phase.answers = some m
  | .other => True

/-- Every sleeper has an entry in the deadline queue, and every requester a request that is pending
or a reply. -/
def NoLostWakeUp (s : TimedKernel) : Prop := ∀ id ∈ s.blockedIds, s.Wakeable id (s.waits id)

/-- A record is left after the next tick. -/
def Outlasts (s : TimedKernel) (pendingUnlocked deadlinesUnlocked : Bool) (id : TaskId) :
    Wait → Prop
  | .sleep => ∃ e ∈ s.deadlines.heap, e.taskId = id ∧ ¬s.Pops deadlinesUnlocked e
  | .reply m => ((m ∈ s.kernel.pending ∧ ¬s.kernel.Expires pendingUnlocked m) ∨
      m ∈ s.kernel.replies) ∨ s.phase.answers = some m
  | .other => True

/-- A step that uses up no record whose task is not woken. -/
def Careful (s : TimedKernel) : TimedOp → Prop
  -- nobody waits for a reply that is collected
  | .call op => ∀ m ∈ op.collected, ∀ id ∈ s.blockedIds, s.waits id = .reply m →
      m ∈ s.kernel.pending
  -- nobody sleeps on an entry that is cancelled
  | .cancel callbackId => ∀ id ∈ s.blockedIds, s.waits id = .sleep →
      ∃ e ∈ s.deadlines.heap, e.taskId = id ∧ e.callbackId ≠ callbackId
  -- the record is still there when the task blocks
  | .proceed => ∀ wait ∈ s.phase.wait, ∀ c ∈ s.current, s.Wakeable c.id wait
  -- no record comes due while the scheduler is locked
  | .timer pendingUnlocked deadlinesUnlocked false => ∀ id ∈ s.blockedIds,
      s.Outlasts pendingUnlocked deadlinesUnlocked id (s.waits id)
  | _ => True

instance (s : TimedKernel) (id : TaskId) : (wait : Wait) → Decidable (s.Wakeable id wait)
  | .sleep => inferInstanceAs (Decidable (∃ e ∈ s.deadlines.heap, e.taskId = id))
  | .reply m => inferInstanceAs (Decidable (s.kernel.Answerable m ∨ _))
  | .other => .isTrue trivial

instance (s : TimedKernel) (pendingUnlocked deadlinesUnlocked : Bool) (id : TaskId) :
    (wait : Wait) → Decidable (s.Outlasts pendingUnlocked deadlinesUnlocked id wait)
  | .sleep => inferInstanceAs (Decidable (∃ e ∈ s.deadlines.heap, _))
  | .reply m => inferInstanceAs (Decidable (((m ∈ s.kernel.pending ∧ _) ∨ _) ∨ _))
  | .other => .isTrue trivial

instance (s : TimedKernel) : (op : TimedOp) → Decidable (s.Careful op)
  | .call op => inferInstanceAs (Decidable (∀ m ∈ op.collected, ∀ id ∈ s.blockedIds, _ → _))
  | .cancel _ => inferInstanceAs (Decidable (∀ id ∈ s.blockedIds, _ → _))
  | .proceed => inferInstanceAs (Decidable (∀ wait ∈ s.phase.wait, ∀ c ∈ s.current, _))
  | .timer _ _ false => inferInstanceAs (Decidable (∀ id ∈ s.blockedIds, _))
  | .timer _ _ true | .yieldNow | .blockAndYield | .exitCurrent | .sleep _ _ | .schedule _ _
  | .request _ _ _ _ _ | .reply _ _ _ _ _ => .isTrue trivial

instance (s : TimedKernel) : Decidable s.NoLostWakeUp :=
  inferInstanceAs (Decidable (∀ id ∈ s.blockedIds, _))

variable {rule : HeapRule DeadlineEntry} {s t : TimedKernel} {op : TimedOp} {wait : Wait}
  {id : TaskId} {m : MessageId}

/-! ## What is known of every state -/

/-- A task runs, and whoever waits for a reply made the request. -/
structure Sound (s : TimedKernel) : Prop where
  running : ∀ c ∈ s.current, c.state = .running
  blocked : ∀ id ∈ s.blockedIds, ∀ m, s.waits id = .reply m → s.kernel.Owned m id
  requested : ∀ m, s.phase = .requested m → ∀ c ∈ s.current, s.kernel.Owned m c.id

theorem nodup_ids (h : s.kernel.tasks.Custody) :
    (s.blockedIds ++ s.current.toList.map Task.id).Nodup := by
  have hnodup := h.covers.nodup.of_append_left
  rw [Scheduler.ids, Scheduler.tasks, List.map_append, List.map_append, List.append_assoc] at hnodup
  exact hnodup.of_append_right

theorem nodup_blockedIds (h : s.kernel.tasks.Custody) : s.blockedIds.Nodup :=
  (nodup_ids h).of_append_left

/-- The current task is not blocked. -/
theorem current_notMem_blockedIds (h : s.kernel.tasks.Custody) {c : Task} (hc : c ∈ s.current) :
    c.id ∉ s.blockedIds := by
  have hmem : c.id ∈ s.current.toList.map Task.id :=
    List.mem_map_of_mem (Option.mem_toList.mpr hc)
  exact fun hblocked => List.disjoint_of_nodup_append (nodup_ids h) hblocked hmem

/-- What blocking does. -/
structure Blocks (s : TimedKernel) (wait : Wait) (t : TimedKernel) : Prop where
  blocked : t.blockedIds = s.blockedIds ++ s.current.toList.map Task.id
  running : ∀ c ∈ t.current, c.state = .running
  pending : t.kernel.pending = s.kernel.pending
  replies : t.kernel.replies = s.kernel.replies
  nextMsgId : t.kernel.nextMsgId = s.kernel.nextMsgId
  deadlines : t.deadlines = s.deadlines
  phase : t.phase = .between
  waits_old : ∀ id ∈ s.blockedIds, t.waits id = s.waits id
  waits_new : ∀ c ∈ s.current, t.waits c.id = wait

theorem blocks_of_block (hcustody : s.kernel.tasks.Custody) (h : s.block wait = some t) :
    s.Blocks wait t := by
  obtain ⟨k₁, k₂, hblock, hres, rfl⟩ := block_eq_some h
  rw [Kernel.step, Kernel.withTasks] at hblock
  obtain ⟨tasks, hstep, rfl⟩ := Option.map_eq_some_iff.mp hblock
  obtain rfl := Option.some.inj hstep
  have hswitches := Kernel.switches_of_reschedule hres
  refine ⟨?_, hswitches.running, hswitches.pending, hswitches.replies, hswitches.nextMsgId, rfl,
    rfl, fun id hid => ?_, fun c hc => ?_⟩
  · rw [← (Scheduler.marked_blockCurrent _).2]
    exact hswitches.blocked
  · cases hc : s.kernel.tasks.sched.current with
    | none => rfl
    | some c =>
      have hne : id ≠ c.id := by
        rintro rfl
        exact current_notMem_blockedIds hcustody hc hid
      exact Function.update_of_ne hne wait s.waits
  · have hc' : s.kernel.tasks.sched.current = some c := hc
    simp only [hc', Function.update_self]

theorem Blocks.mem_blockedIds (h : s.Blocks wait t) :
    id ∈ t.blockedIds ↔ id ∈ s.blockedIds ∨ ∃ c ∈ s.current, c.id = id := by
  rw [h.blocked, List.mem_append, List.mem_map]
  simp only [Option.mem_toList, Option.mem_def]

theorem Sound.blocks (hs : s.Sound) (h : s.Blocks wait t)
    (hwait : ∀ m, wait = .reply m → ∀ c ∈ s.current, s.kernel.Owned m c.id) : t.Sound where
  running := h.running
  blocked := by
    intro id hid m hm
    rw [Kernel.Owned, h.nextMsgId, h.pending]
    rcases h.mem_blockedIds.mp hid with hid | ⟨c, hc, rfl⟩
    · rw [h.waits_old id hid] at hm
      exact hs.blocked id hid m hm
    · rw [h.waits_new c hc] at hm
      exact hwait m hm c hc
  requested := by
    intro m hm
    rw [h.phase] at hm
    cases hm

/-- A call that does not switch tasks, after which the running task is in the middle of this. -/
theorem Sound.settles (hs : s.Sound) (h : s.kernel.Settles t.kernel) (hwaits : t.waits = s.waits)
    (hphase : ∀ m, t.phase = .requested m → s.phase = .requested m ∨
      ∀ c ∈ t.current, t.kernel.Owned m c.id) : t.Sound where
  running := by
    intro c hc
    rw [current, h.current] at hc
    exact hs.running c hc
  blocked := by
    intro id hid m hm
    rw [hwaits] at hm
    exact h.owned (hs.blocked id (h.blocked.subset hid) m hm)
  requested := by
    intro m hm c hc
    rcases hphase m hm with hphase | hnew
    · rw [current, h.current] at hc
      exact h.owned (hs.requested m hphase c hc)
    · exact hnew c hc

/-- What giving up the CPU does, between two calls or at the end of the task: nobody is blocked. -/
structure Resigns (s t : TimedKernel) : Prop where
  blocked : t.blockedIds = s.blockedIds
  running : ∀ c ∈ t.current, c.state = .running
  pending : t.kernel.pending = s.kernel.pending
  replies : t.kernel.replies = s.kernel.replies
  nextMsgId : t.kernel.nextMsgId = s.kernel.nextMsgId
  deadlines : t.deadlines = s.deadlines
  phase : t.phase = s.phase
  waits : t.waits = s.waits

/-- A reschedule that finds nobody marked as blocked. -/
theorem resigns_of_reschedule {k k' : Kernel} (hres : k.step .reschedule = some k')
    (hblocking : k.tasks.sched.blockingIds = [])
    (hblocked : k.tasks.sched.blockedIds = s.blockedIds) (hpending : k.pending = s.kernel.pending)
    (hreplies : k.replies = s.kernel.replies) (hnext : k.nextMsgId = s.kernel.nextMsgId) :
    s.Resigns { s with kernel := k' } := by
  have hswitches := Kernel.switches_of_reschedule hres
  refine ⟨?_, hswitches.running, hswitches.pending.trans hpending, hswitches.replies.trans hreplies,
    hswitches.nextMsgId.trans hnext, rfl, rfl, rfl⟩
  exact hswitches.blocked.trans (by rw [hblocking, List.append_nil, hblocked])

theorem resigns_yieldNow (hs : s.Sound) {k' : Kernel}
    (hres : s.kernel.step .reschedule = some k') : s.Resigns { s with kernel := k' } :=
  resigns_of_reschedule hres (Scheduler.marked_of_running hs.running).2 rfl rfl rfl rfl

theorem resigns_exit {k₁ k₂ : Kernel} (hkill : s.kernel.step .killCurrent = some k₁)
    (hres : k₁.step .reschedule = some k₂) : s.Resigns { s with kernel := k₂ } := by
  rw [Kernel.step, Kernel.withTasks] at hkill
  obtain ⟨tasks, hstep, rfl⟩ := Option.map_eq_some_iff.mp hkill
  obtain rfl := Option.some.inj hstep
  exact resigns_of_reschedule hres (Scheduler.marked_killCurrent _).2 rfl rfl rfl rfl

theorem Sound.resigns (hs : s.Sound) (h : s.Resigns t) (hphase : s.phase = .between) :
    t.Sound where
  running := h.running
  blocked := by
    intro id hid m hm
    rw [h.blocked] at hid
    rw [h.waits] at hm
    rw [Kernel.Owned, h.nextMsgId, h.pending]
    exact hs.blocked id hid m hm
  requested := by
    intro m hm
    rw [h.phase, hphase] at hm
    cases hm

/-- The first half of a call keeps the waits sound. -/
theorem Sound.begins (hcustody : s.kernel.tasks.Custody) (hs : s.Sound)
    (hphase : s.phase = .between) (h : s.Begins op t) : t.Sound := by
  cases h with
  | call hplain hstep => exact hs.settles (Kernel.settles_step hplain hstep) rfl fun m hm => .inl hm
  | yieldNow hres => exact hs.resigns (resigns_yieldNow hs hres) hphase
  | block hblock => exact hs.blocks (blocks_of_block hcustody hblock) fun m hm => nomatch hm
  | exit hkill hres => exact hs.resigns (resigns_exit hkill hres) hphase
  | idle masked ticks => exact hs
  | sleep masked ticks => exact hs.settles (.refl _) rfl fun m hm => nomatch hm
  | schedule taskId deadlineTick => exact hs.settles (.refl _) rfl fun m hm => .inl hm
  | cancel callbackId => exact hs.settles (.refl _) rfl fun m hm => .inl hm
  | @requested _ _ _ _ _ c m k' hcurrent hstep hobserve =>
    have hsettles := Kernel.settles_step (KernelOp.isPlain_gated _) hstep
    refine hs.settles hsettles rfl fun m' hm => .inr fun c' hc => ?_
    obtain rfl := Phase.requested.inj hm
    rw [current, hsettles.current] at hc
    obtain rfl := Option.some.inj (hcurrent.symm.trans hc)
    exact (Kernel.exchanges_step hstep).owned hobserve
  | refused _ hstep =>
    exact hs.settles (Kernel.settles_step (KernelOp.isPlain_gated _) hstep) rfl fun m hm => .inl hm
  | replying msg => exact hs.settles (s.kernel.settles_erase _) rfl fun m hm => nomatch hm
  | unasked => exact hs

/-- Every step keeps the waits sound. -/
theorem Sound.step (hcustody : s.kernel.tasks.Custody) (hs : s.Sound)
    (h : step rule s op = some t) : t.Sound := by
  rcases step_cases h with ⟨pendingUnlocked, deadlinesUnlocked, unlocked, -, -, rfl⟩ |
    ⟨-, masked, taskId, deadline, -, rfl⟩ | ⟨-, masked, -, hblock⟩ | ⟨-, m, hphase, hblock⟩ |
    ⟨-, m, msg, unlocked, -, rfl⟩ | ⟨hphase, hbegin⟩
  · obtain ⟨ids, deadlines, htimer, -⟩ :=
      timer_eq rule s pendingUnlocked deadlinesUnlocked unlocked
    rw [htimer]
    have hsettles := (s.kernel.settles_countTick pendingUnlocked unlocked).trans
      (Kernel.settles_wakeAll _ ids unlocked)
    exact hs.settles hsettles rfl fun m hm => .inl hm
  · exact hs.settles (.refl _) rfl fun m hm => nomatch hm
  · exact hs.blocks (blocks_of_block hcustody hblock) fun m hm => nomatch hm
  · refine hs.blocks (blocks_of_block hcustody hblock) fun m' hm => ?_
    obtain rfl := Wait.reply.inj hm
    exact hs.requested m hphase
  · exact hs.settles (s.kernel.settles_leaveReply m msg unlocked) rfl fun m hm => nomatch hm
  · exact hs.begins hcustody hphase hbegin

section Reachable

variable {frames : Option BitmapFrameAllocator} {pageTable : PageTable}

theorem custody_of_reachable (h : (system rule frames pageTable).Reachable s) :
    s.kernel.tasks.Custody :=
  TaskSystem.custody_of_reachable (tasks_projects.reachable h)

theorem sound_boot : (boot frames pageTable).Sound where
  running c hc := by cases hc
  blocked id hid := by cases hid
  requested m hm := by cases hm

theorem sound_of_reachable (h : (system rule frames pageTable).Reachable s) : s.Sound := by
  have hinvariant : (system rule frames pageTable).Invariant fun s =>
      (system rule frames pageTable).Reachable s ∧ s.Sound := by
    refine ⟨?_, fun s op t ⟨hreach, hs⟩ hstep => ?_⟩
    · rintro s rfl
      exact ⟨.init rfl, sound_boot⟩
    · exact ⟨hreach.step hstep, hs.step (custody_of_reachable hreach) hstep⟩
  exact (hinvariant.of_reachable h).2

end Reachable

/-! ## What a step loses -/

theorem wakeable_congr (hheap : t.deadlines = s.deadlines)
    (hpending : t.kernel.pending = s.kernel.pending)
    (hreplies : t.kernel.replies = s.kernel.replies)
    (hanswers : t.phase.answers = s.phase.answers) : t.Wakeable id wait ↔ s.Wakeable id wait := by
  cases wait <;> simp only [Wakeable, Kernel.Answerable, hheap, hpending, hreplies, hanswers]

/-- A step that blocks nobody loses no wake-up if it keeps what the tasks wait for. -/
theorem NoLostWakeUp.of_subset (hlost : s.NoLostWakeUp) (hblocked : t.blockedIds ⊆ s.blockedIds)
    (hwaits : t.waits = s.waits)
    (hwake : ∀ id wait, s.Wakeable id wait → t.Wakeable id wait) : t.NoLostWakeUp := by
  intro id hid
  rw [hwaits]
  exact hwake id _ (hlost id (hblocked hid))

/-- A call loses the reply it collects, if anything. -/
theorem wakeable_call {op : KernelOp} {k' : Kernel} (hplain : op.IsPlain)
    (hstep : s.kernel.step op = some k') (hcollect : ∀ m, wait = .reply m → op ≠ .collectReply m)
    (h : s.Wakeable id wait) (hphase : s.phase = .between) (phase : Phase) :
    Wakeable { s with kernel := k', phase } id wait := by
  cases wait with
  | sleep => exact h
  | reply m =>
    have hanswerable : s.kernel.Answerable m := h.resolve_right (hphase ▸ nofun)
    refine .inl ((Kernel.exchanges_step hstep).answerable hanswerable
      (Kernel.expired_notMem_observe hplain m) fun msg hmem => ?_)
    exact hcollect m rfl (Kernel.eq_collectReply_of_mem_observe hmem)
  | other => trivial

theorem noLostWakeUp_call {op : KernelOp} {k' : Kernel} (hplain : op.IsPlain)
    (hstep : s.kernel.step op = some k') (hcollect : ∀ m, op ≠ .collectReply m)
    (hlost : s.NoLostWakeUp) (hphase : s.phase = .between) (phase : Phase) :
    NoLostWakeUp { s with kernel := k', phase } :=
  hlost.of_subset (Kernel.settles_step hplain hstep).blocked.subset rfl fun _ _ h =>
    wakeable_call hplain hstep (fun m _ => hcollect m) h hphase phase

/-- Collecting a reply loses it for those who wait for it. -/
theorem noLostWakeUp_collectReply (hlost : s.NoLostWakeUp) (hphase : s.phase = .between)
    (m : MessageId) :
    NoLostWakeUp { s with kernel := (s.kernel.collectReply m).2 } ↔
      ∀ id ∈ s.blockedIds, s.waits id = .reply m → m ∈ s.kernel.pending := by
  have hstep : s.kernel.step (.collectReply m) = some (s.kernel.collectReply m).2 := rfl
  constructor
  · intro h id hid hm
    have hwake := h id hid
    rw [hm] at hwake
    refine (hwake.resolve_right (hphase ▸ nofun)).resolve_right fun hmem => ?_
    exact (Std.ExtTreeMap.mem_erase.mp hmem).1 Std.ReflCmp.compare_self
  · intro h id hid
    by_cases hm : s.waits id = .reply m
    · rw [hm]
      exact .inl (.inl (h id hid hm))
    · have hplain : (KernelOp.collectReply m).IsPlain := trivial
      refine wakeable_call hplain hstep (fun m' hm' hcollect => hm ?_) (hlost id hid) hphase _
      rw [hm', KernelOp.collectReply.inj hcollect]

/-- Blocking needs a record. -/
theorem Blocks.noLostWakeUp_iff (h : s.Blocks wait t) (hlost : s.NoLostWakeUp)
    (hanswers : s.phase.answers = none) :
    t.NoLostWakeUp ↔ ∀ c ∈ s.current, s.Wakeable c.id wait := by
  have hphase : t.phase.answers = s.phase.answers := by
    rw [h.phase, hanswers]
    rfl
  have hcongr : ∀ id wait, t.Wakeable id wait ↔ s.Wakeable id wait :=
    fun _ _ => wakeable_congr h.deadlines h.pending h.replies hphase
  constructor
  · intro ht c hc
    have hwake := ht c.id (h.mem_blockedIds.mpr (.inr ⟨c, hc, rfl⟩))
    rwa [h.waits_new c hc, hcongr] at hwake
  · intro hwait id hid
    rw [hcongr]
    rcases h.mem_blockedIds.mp hid with hid | ⟨c, hc, rfl⟩
    · rw [h.waits_old id hid]
      exact hlost id hid
    · rw [h.waits_new c hc]
      exact hwait c hc

theorem NoLostWakeUp.resigns (hlost : s.NoLostWakeUp) (h : s.Resigns t) : t.NoLostWakeUp :=
  hlost.of_subset (h.blocked ▸ List.Subset.refl _) h.waits fun _ _ =>
    (wakeable_congr h.deadlines h.pending h.replies (congrArg Phase.answers h.phase)).mpr

/-- More entries lose nothing. -/
theorem NoLostWakeUp.schedule (hlost : s.NoLostWakeUp) (taskId : TaskId) (deadlineTick : UInt64)
    {phase : Phase} (hphase : phase.answers = s.phase.answers) : NoLostWakeUp
      { s with deadlines := (s.deadlines.schedule taskId deadlineTick).2, phase } := by
  refine hlost.of_subset (List.Subset.refl _) rfl fun id wait hwake => ?_
  cases wait with
  | sleep =>
    obtain ⟨e, he, hid⟩ := hwake
    exact ⟨e, List.mem_cons_of_mem _ he, hid⟩
  | reply m => exact hwake.imp_right fun h => hphase.trans h
  | other => trivial

/-- The first half of a reply takes the request out, and is in progress then. -/
theorem NoLostWakeUp.replying (hlost : s.NoLostWakeUp) (hphase : s.phase = .between)
    (m : MessageId) (msg : Message) (unlocked : Bool) : NoLostWakeUp
      { s with
        kernel := { s.kernel with pending := s.kernel.pending.erase m }
        phase := .replying m msg unlocked } := by
  refine hlost.of_subset (List.Subset.refl _) rfl fun id wait hwake => ?_
  cases wait with
  | sleep => exact hwake
  | reply m' =>
    by_cases heq : compare m m' = .eq
    · exact .inr (congrArg some (Std.LawfulEqCmp.eq_of_compare heq))
    · refine .inl ((hwake.resolve_right (hphase ▸ nofun)).imp_left fun hmem => ?_)
      exact Std.ExtTreeMap.mem_erase.mpr ⟨heq, hmem⟩
  | other => trivial

/-- The second half leaves its message. -/
theorem NoLostWakeUp.leaveReply (hlost : s.NoLostWakeUp) {msg : Message} {unlocked : Bool}
    (hphase : s.phase = .replying m msg unlocked) : NoLostWakeUp
      { s with kernel := s.kernel.leaveReply m msg unlocked, phase := .between } := by
  obtain ⟨taskIds, hleave⟩ := s.kernel.leaveReply_frame m msg unlocked
  have hsettles := s.kernel.settles_leaveReply m msg unlocked
  refine hlost.of_subset hsettles.blocked.subset rfl fun id wait hwake => ?_
  cases wait with
  | sleep => exact hwake
  | reply m' =>
    rw [Wakeable, Kernel.Answerable, hleave, Std.ExtTreeMap.mem_insert]
    rcases hwake with (hpending | hreplied) | hanswers
    · exact .inl (.inl hpending)
    · exact .inl (.inr (.inr hreplied))
    · rw [hphase] at hanswers
      obtain rfl := Option.some.inj hanswers
      exact .inl (.inr (.inl Std.ReflCmp.compare_self))
  | other => trivial

theorem noLostWakeUp_cancel (hlost : s.NoLostWakeUp) (callbackId : Nat) :
    NoLostWakeUp { s with deadlines := s.deadlines.cancel callbackId } ↔
      ∀ id ∈ s.blockedIds, s.waits id = .sleep →
        ∃ e ∈ s.deadlines.heap, e.taskId = id ∧ e.callbackId ≠ callbackId := by
  have hmem : ∀ e, e ∈ (s.deadlines.cancel callbackId).heap ↔
      e ∈ s.deadlines.heap ∧ e.callbackId ≠ callbackId := by
    intro e
    rw [DeadlineQueue.cancel, List.mem_filter, decide_eq_true_iff]
  refine forall₂_congr fun id hid => ?_
  cases hwait : s.waits id with
  | sleep =>
    simp only [Wakeable, hmem, forall_const]
    exact exists_congr fun e => and_assoc.trans (and_congr_right fun _ => and_comm)
  | reply m =>
    have hwake := hlost id hid
    rw [hwait] at hwake
    exact iff_of_true hwake nofun
  | other => exact iff_of_true trivial nofun

/-! ## What the timer interrupt loses -/

section Timer

variable {pendingUnlocked deadlinesUnlocked unlocked : Bool}

/-- What is left after the interrupt. -/
theorem wakeable_timer :
    (s.timer rule pendingUnlocked deadlinesUnlocked unlocked).Wakeable id wait ↔
      s.Outlasts pendingUnlocked deadlinesUnlocked id wait := by
  obtain ⟨ids, deadlines, htimer, -, hleft⟩ :=
    timer_eq rule s pendingUnlocked deadlinesUnlocked unlocked
  rw [htimer]
  cases wait with
  | sleep =>
    simp only [Wakeable, Outlasts, hleft]
    exact exists_congr fun e => and_assoc.trans (and_congr_right fun _ => and_comm)
  | reply m =>
    obtain ⟨pending, taskIds, hcount⟩ := s.kernel.countTick_frame pendingUnlocked unlocked
    simp only [Wakeable, Outlasts, Kernel.Answerable, Kernel.wakeAll_eq]
    refine or_congr_left (or_congr ?_ (by rw [hcount]))
    rw [Std.ExtTreeMap.mem_iff_isSome_getElem?, Std.ExtTreeMap.mem_iff_isSome_getElem?,
      Kernel.getElem?_pending_countTick]
    split
    · next hexpires => simp [hexpires]
    · next hexpires => simp [hexpires]
  | other => exact Iff.rfl

theorem waits_timer :
    (s.timer rule pendingUnlocked deadlinesUnlocked unlocked).waits = s.waits := by
  obtain ⟨ids, deadlines, htimer, -⟩ := timer_eq rule s pendingUnlocked deadlinesUnlocked unlocked
  rw [htimer]

/-- With the scheduler locked nobody is woken. -/
theorem blockedIds_timer_false :
    (s.timer rule pendingUnlocked deadlinesUnlocked false).blockedIds = s.blockedIds := by
  obtain ⟨ids, deadlines, htimer, -⟩ := timer_eq rule s pendingUnlocked deadlinesUnlocked false
  rw [htimer, Kernel.wakeAll_eq]
  exact Kernel.blockedIds_countTick_false

/-- With the scheduler unlocked those stay blocked who have neither a request that expires nor an
entry that is popped. -/
theorem mem_blockedIds_timer_true (hcustody : s.kernel.tasks.Custody) :
    id ∈ (s.timer rule pendingUnlocked deadlinesUnlocked true).blockedIds ↔
      id ∈ s.blockedIds ∧
        (∀ m, s.kernel.Expires pendingUnlocked m → ∀ req, s.kernel.pending[m]? = some req →
          req.requester ≠ id) ∧
        ¬∃ e ∈ s.deadlines.heap, s.Pops deadlinesUnlocked e ∧ e.taskId = id := by
  obtain ⟨ids, deadlines, htimer, hids, -⟩ :=
    timer_eq rule s pendingUnlocked deadlinesUnlocked true
  have hnodup := nodup_blockedIds hcustody
  have hcount := hnodup.sublist (s.kernel.settles_countTick pendingUnlocked true).blocked
  rw [htimer, blockedIds, Kernel.mem_blockedIds_wakeAll hcount,
    Kernel.mem_blockedIds_countTick hnodup, hids, and_assoc]

/-- What comes due while the scheduler is locked is lost. -/
theorem noLostWakeUp_timer_false :
    (s.timer rule pendingUnlocked deadlinesUnlocked false).NoLostWakeUp ↔
      ∀ id ∈ s.blockedIds, s.Outlasts pendingUnlocked deadlinesUnlocked id (s.waits id) := by
  rw [NoLostWakeUp, blockedIds_timer_false, waits_timer]
  exact forall₂_congr fun id _ => wakeable_timer

/-- With the scheduler unlocked whoever stays blocked has nothing that comes due. -/
theorem outlasts_of_mem_blockedIds_timer (hcustody : s.kernel.tasks.Custody) (hs : s.Sound)
    (hlost : s.NoLostWakeUp)
    (hid : id ∈ (s.timer rule pendingUnlocked deadlinesUnlocked true).blockedIds) :
    s.Outlasts pendingUnlocked deadlinesUnlocked id (s.waits id) := by
  obtain ⟨hblocked, hexpires, hpops⟩ := (mem_blockedIds_timer_true hcustody).mp hid
  have hwake := hlost id hblocked
  cases hwait : s.waits id with
  | sleep =>
    rw [hwait] at hwake
    obtain ⟨e, he, rfl⟩ := hwake
    exact ⟨e, he, rfl, fun hpop => hpops ⟨e, he, hpop, rfl⟩⟩
  | reply m =>
    rw [hwait] at hwake
    refine hwake.imp_left (Or.imp_left fun hpending => ⟨hpending, fun hexp => ?_⟩)
    obtain ⟨req, hreq⟩ := Option.isSome_iff_exists.mp
      (Std.ExtTreeMap.mem_iff_isSome_getElem?.mp hpending)
    exact hexpires m hexp req hreq ((hs.blocked id hblocked m hwait).2 req hreq)
  | other => trivial

/-- With the scheduler unlocked the timer loses no wake-up. -/
theorem noLostWakeUp_timer_true (hcustody : s.kernel.tasks.Custody) (hs : s.Sound)
    (hlost : s.NoLostWakeUp) :
    (s.timer rule pendingUnlocked deadlinesUnlocked true).NoLostWakeUp := by
  intro id hid
  rw [waits_timer, wakeable_timer]
  exact outlasts_of_mem_blockedIds_timer hcustody hs hlost hid

end Timer

/-! ## The steps that lose nothing -/

/-- The first half of a call loses no wake-up iff it is careful. -/
theorem noLostWakeUp_begins_iff (hcustody : s.kernel.tasks.Custody) (hs : s.Sound)
    (hlost : s.NoLostWakeUp) (hphase : s.phase = .between) (h : s.Begins op t) :
    t.NoLostWakeUp ↔ s.Careful op := by
  have hanswers : s.phase.answers = none := by
    rw [hphase]
    rfl
  cases h with
  | @call op k' hplain hstep =>
    simp only [Careful, Option.mem_def]
    cases hcollect : op.collected with
    | none =>
      refine iff_of_true (noLostWakeUp_call hplain hstep ?_ hlost hphase s.phase) nofun
      rintro m rfl
      cases hcollect
    | some m =>
      obtain rfl := KernelOp.collected_eq_some hcollect
      obtain rfl := Option.some.inj hstep
      simp only [Option.some.injEq, forall_eq']
      exact noLostWakeUp_collectReply hlost hphase m
  | yieldNow hres => exact iff_of_true (hlost.resigns (resigns_yieldNow hs hres)) trivial
  | block hblock =>
    refine iff_of_true ?_ trivial
    have hblocks := blocks_of_block hcustody hblock
    exact (hblocks.noLostWakeUp_iff hlost hanswers).mpr fun _ _ => trivial
  | exit hkill hres => exact iff_of_true (hlost.resigns (resigns_exit hkill hres)) trivial
  | idle masked ticks => exact iff_of_true hlost trivial
  | @sleep masked ticks c =>
    have hcongr : ∀ id wait, Wakeable { s with
        phase := .sleep masked c.id (s.kernel.ticks + ticks) } id wait ↔ s.Wakeable id wait :=
      fun _ _ => wakeable_congr rfl rfl rfl hanswers.symm
    refine iff_of_true (hlost.of_subset (List.Subset.refl _) rfl fun id wait => ?_) trivial
    exact (hcongr id wait).mpr
  | schedule taskId deadlineTick =>
    exact iff_of_true (hlost.schedule taskId deadlineTick rfl) trivial
  | cancel callbackId => exact noLostWakeUp_cancel hlost callbackId
  | requested _ hstep _ =>
    exact iff_of_true
      (noLostWakeUp_call (KernelOp.isPlain_gated _) hstep nofun hlost hphase _) trivial
  | refused _ hstep =>
    exact iff_of_true
      (noLostWakeUp_call (KernelOp.isPlain_gated _) hstep nofun hlost hphase _) trivial
  | replying msg => exact iff_of_true (hlost.replying hphase _ msg _) trivial
  | unasked => exact iff_of_true hlost trivial

/-- A step loses no wake-up iff it is careful. -/
theorem noLostWakeUp_step_iff (hcustody : s.kernel.tasks.Custody) (hs : s.Sound)
    (hlost : s.NoLostWakeUp) (h : step rule s op = some t) : t.NoLostWakeUp ↔ s.Careful op := by
  rcases step_cases h with ⟨pendingUnlocked, deadlinesUnlocked, unlocked, rfl, -, rfl⟩ |
    ⟨rfl, masked, taskId, deadline, hphase, rfl⟩ | ⟨rfl, masked, hphase, hblock⟩ |
    ⟨rfl, m, hphase, hblock⟩ | ⟨rfl, m, msg, unlocked, hphase, rfl⟩ | ⟨hphase, hbegin⟩
  · cases unlocked with
    | false => exact noLostWakeUp_timer_false
    | true => exact iff_of_true (noLostWakeUp_timer_true hcustody hs hlost) trivial
  · refine iff_of_true (hlost.schedule taskId deadline (by rw [hphase]; rfl)) ?_
    simp [Careful, hphase, Phase.wait]
  · rw [(blocks_of_block hcustody hblock).noLostWakeUp_iff hlost (by rw [hphase]; rfl)]
    simp [Careful, hphase, Phase.wait]
  · rw [(blocks_of_block hcustody hblock).noLostWakeUp_iff hlost (by rw [hphase]; rfl)]
    simp [Careful, hphase, Phase.wait]
  · refine iff_of_true (hlost.leaveReply hphase) ?_
    simp [Careful, hphase, Phase.wait]
  · exact noLostWakeUp_begins_iff hcustody hs hlost hphase hbegin

section Runs

variable {frames : Option BitmapFrameAllocator} {pageTable : PageTable}

open TransitionSystem

theorem noLostWakeUp_invariant : ((system rule frames pageTable).restrict Careful).Invariant
    fun s => (system rule frames pageTable).Reachable s ∧ s.NoLostWakeUp where
  init := by
    rintro s rfl
    exact ⟨.init rfl, fun id hid => by cases hid⟩
  step := by
    rintro s op t ⟨hreach, hlost⟩ ⟨hstep, hcareful⟩
    refine ⟨hreach.step hstep, ?_⟩
    exact (noLostWakeUp_step_iff (custody_of_reachable hreach) (sound_of_reachable hreach) hlost
      hstep).mpr hcareful

/-- **No wake-up is lost in a run of careful steps**, and the next step loses none if and only if it
is careful too. -/
theorem no_lost_wake_up (h : ((system rule frames pageTable).restrict Careful).Reachable s) :
    s.NoLostWakeUp ∧ ∀ op t, step rule s op = some t → (t.NoLostWakeUp ↔ s.Careful op) := by
  obtain ⟨hreach, hlost⟩ := noLostWakeUp_invariant.of_reachable h
  exact ⟨hlost, fun op t hstep => noLostWakeUp_step_iff (custody_of_reachable hreach)
    (sound_of_reachable hreach) hlost hstep⟩

/-- Of two tasks, the first goes to sleep for one tick. -/
def goesToSleep : List TimedOp :=
  [.call (.spawn .normal), .call (.spawn .normal), .yieldNow, .sleep true 1, .proceed, .proceed]

theorem goesToSleep_isSome : (goesToSleep.foldlM
    (fun s op => if Careful s op then step DeadlineQueue.firstEarliest s op else none)
    (boot Kernel.sixteenFrames .empty)).isSome := by
  decide +kernel

theorem no_lost_wake_up_goesToSleep : ∃ s,
    ((system DeadlineQueue.firstEarliest Kernel.sixteenFrames .empty).restrict
      Careful).Reachable s ∧ s.blockedIds = [1] ∧ s.waits 1 = .sleep ∧ s.NoLostWakeUp ∧
      ∀ op t, step DeadlineQueue.firstEarliest s op = some t → (t.NoLostWakeUp ↔ s.Careful op) :=
  have hreach := reachable_restrict_ofPartial_iff.mpr
    ⟨goesToSleep, (Option.some_get goesToSleep_isSome).symm⟩
  ⟨_, hreach, by decide +kernel, by decide +kernel, no_lost_wake_up hreach⟩

/-- The second task holds the scheduler when the tick comes. -/
def ticksLocked : List TimedOp := goesToSleep ++ [.timer true true false]

theorem ticksLocked_isSome : (ticksLocked.foldlM (step DeadlineQueue.firstEarliest)
    (boot Kernel.sixteenFrames .empty)).isSome := by
  decide +kernel

/-- **A sleeper is lost**: the interrupt uses up its entry and does not wake it. -/
theorem sleeper_lost : ∃ s,
    (system DeadlineQueue.firstEarliest Kernel.sixteenFrames .empty).Reachable s ∧
      s.blockedIds = [1] ∧ s.waits 1 = .sleep ∧ s.deadlines.heap = [] ∧ ¬s.NoLostWakeUp :=
  ⟨_, reachable_ofPartial_iff.mpr ⟨ticksLocked, (Option.some_get ticksLocked_isSome).symm⟩,
    by decide +kernel, by decide +kernel, by decide +kernel, by decide +kernel⟩

end Runs

end TimedKernel

end OxideOS
