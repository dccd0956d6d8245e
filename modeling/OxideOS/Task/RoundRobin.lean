import OxideOS.Lib.PriorityRotation
import OxideOS.Task.Conservation

/-!
# Whose turn it is

`reschedule` promises to rotate over all ready tasks, whatever their priorities: the task that ran
last is passed over when another one is ready.  But the queues are searched in the order of
priorities, and the task that was passed over is back at the end of its queue.  So the calls hand
out turns as a `Rota` does: the realtime tasks take turns among themselves as soon as there are two
of them, and a single one has every other turn.

## Main definitions

* `Scheduler.turns`: the tasks that the next calls of `reschedule` make current
* `Scheduler.rota`: the current task, and the queues one after the other
* `Scheduler.Rotates`: when every task has a turn

## Main results

* `Scheduler.rota_reschedule`: a reschedule is the next turn of the rota
* `TaskSystem.turns_perm_iff`: the runnable tasks have one turn each exactly when they rotate
-/

namespace OxideOS

/-- `priority as usize`, the number of the queue. -/
def Priority.level : Priority → ℕ
  | .realtime => 0
  | .normal => 1
  | .background => 2

theorem Priority.level_injective : Function.Injective Priority.level := by
  intro p q
  cases p <;> cases q <;> decide

def Task.level (task : Task) : ℕ := task.priority.level

/-! ## The queues, one after the other -/

namespace Queues

variable {queues queues' : Queues} {task : Task} {lastId : TaskId}

theorem pairwise_queued (h : ∀ p, ∀ t ∈ queues p, t.priority = p) :
    queues.queued.Pairwise fun t t' => t.level ≤ t'.level := by
  have hlevel : ∀ p, ∀ t ∈ queues p, t.level = p.level := fun p t ht =>
    congrArg Priority.level (h p t ht)
  have hqueue : ∀ p, (queues p).Pairwise fun t t' => t.level ≤ t'.level := fun p =>
    List.pairwise_of_forall_mem_list fun t ht t' ht' => by rw [hlevel p t ht, hlevel p t' ht']
  rw [queued, List.pairwise_append, List.pairwise_append]
  refine ⟨⟨hqueue _, hqueue _, fun t ht t' ht' => ?_⟩, hqueue _, fun t ht t' ht' => ?_⟩
  · rw [hlevel _ t ht, hlevel _ t' ht']
    decide
  · rw [hlevel _ t' ht']
    rcases List.mem_append.mp ht with ht | ht
    · rw [hlevel _ t ht]
      decide
    · rw [hlevel _ t ht]
      decide

/-- A task that is pushed waits behind those of its priority and of higher ones. -/
theorem queued_push_eq (h : ∀ p, ∀ t ∈ queues p, t.priority = p) (task : Task) :
    (queues.push task).queued = Rota.enqueue Task.level task queues.queued := by
  have hle : ∀ p, p.level ≤ task.priority.level → ∀ t ∈ queues p, t.level ≤ task.level := by
    intro p hp t ht
    have hlevel : t.level = p.level := congrArg Priority.level (h p t ht)
    exact hlevel.le.trans hp
  have hlt : ∀ p, task.priority.level < p.level → ∀ t ∈ queues p, task.level < t.level := by
    intro p hp t ht
    have hlevel : t.level = p.level := congrArg Priority.level (h p t ht)
    exact hp.trans_eq hlevel.symm
  have hcut : ∀ l₁ l₂ : List Task, queues.queued = l₁ ++ l₂ →
      (∀ t ∈ l₁, t.level ≤ task.level) → (∀ t ∈ l₂, task.level < t.level) →
      Rota.enqueue Task.level task queues.queued = l₁ ++ task :: l₂ := by
    intro l₁ l₂ hq hbefore hbehind
    rw [hq]
    exact Rota.enqueue_append hbefore hbehind
  cases hp : task.priority with
  | realtime =>
    rw [hp] at hle hlt
    have hbehind := List.forall_mem_append.mpr
      ⟨hlt .normal (by decide), hlt .background (by decide)⟩
    rw [hcut _ _ (List.append_assoc _ _ _) (hle .realtime (by decide)) hbehind]
    simp [queued, push, hp]
  | normal =>
    rw [hp] at hle hlt
    have hbefore := List.forall_mem_append.mpr ⟨hle .realtime (by decide), hle .normal (by decide)⟩
    rw [hcut _ _ rfl hbefore (hlt .background (by decide))]
    simp [queued, push, hp]
  | background =>
    rw [hp] at hle
    have hbefore := List.forall_mem_append.mpr ⟨List.forall_mem_append.mpr
      ⟨hle .realtime (by decide), hle .normal (by decide)⟩, hle .background (by decide)⟩
    rw [hcut _ [] (List.append_nil _).symm hbefore (List.forall_mem_nil _)]
    simp [queued, push, hp]

/-- A task is taken from the queues as from a single one. -/
theorem map_takeFirst (select : Task → Bool) (queues : Queues) :
    (takeFirst select order queues).map (fun taken => (taken.1, taken.2.queued)) =
      (queues.queued.find? select).map fun task =>
        ({ task with state := .running }, queues.queued.eraseP select) := by
  have hany : ∀ p, (queues p).any select = ((queues p).find? select).isSome := by
    intro p
    rw [Bool.eq_iff_iff, List.any_eq_true, List.find?_isSome]
  simp only [queued, order, takeFirst, List.find?_append, List.eraseP_append, List.any_append, hany]
  cases hr : (queues .realtime).find? select with
  | some task => simp
  | none =>
    cases hn : (queues .normal).find? select with
    | some task => simp
    | none =>
      cases hb : (queues .background).find? select with
      | some task => simp
      | none => simp

/-- The tasks that the first pass of a pick looks for. -/
def isOther (lastId : TaskId) (task : Task) : Bool := task.id != lastId

theorem isOther_iff : isOther lastId task ↔ task.id ≠ lastId := bne_iff_ne

theorem pickNextFair_of_some (h : takeFirst (isOther lastId) order queues = some (task, queues')) :
    queues.pickNextFair lastId = some (task, queues') := by
  have htake : takeFirst (fun task => task.id != lastId) order queues = some (task, queues') := h
  rw [pickNextFair, htake]

theorem pickNextFair_of_none (h : takeFirst (isOther lastId) order queues = none) :
    queues.pickNextFair lastId = queues.pickNext := by
  have htake : takeFirst (fun task => task.id != lastId) order queues = none := h
  rw [pickNextFair, htake]

end Queues

/-! ## One reschedule -/

namespace Scheduler

variable {s : Scheduler} {task : Task} {lastId : TaskId} {k : ℕ}

/-- The current task and the tasks in the queues. -/
def runnable (s : Scheduler) : List Task := s.current.toList ++ s.queues.queued

/-- The ids of the tasks that the next `k` calls of `reschedule` make current. -/
def turns : ℕ → Scheduler → List TaskId
  | 0, _ => []
  | k + 1, s => s.reschedule.1.2 :: turns k s.reschedule.2.2

/-- Every task has a turn: there are at most two, or all have the same priority, or there are three
and the current one is ahead of the two others, which have the same priority. -/
def Rotates (s : Scheduler) : Prop :=
  s.runnable.length ≤ 2 ∨
    (∀ t ∈ s.runnable, ∀ t' ∈ s.runnable, t.priority = t'.priority) ∨
      ∃ c t t', s.current = some c ∧ s.queues.queued = [t, t'] ∧
        c.priority.level < t.priority.level ∧ t.priority = t'.priority

/-- Who has the turn and who waits.  The current task waits as a ready one later. -/
def rota (s : Scheduler) : Rota Task :=
  ⟨s.current.map fun task => { task with state := .ready }, s.queues.queued⟩

/-- The tasks are filed, have ids of their own, and the current one has not been marked. -/
structure Spinning (s : Scheduler) : Prop where
  filed : s.Filed
  running : ∀ c, s.current = some c → c.state = .running
  nodup : s.runnableIds.Nodup
  pos : 0 ∉ s.runnableIds

theorem runnableIds_eq (s : Scheduler) : s.runnableIds = s.rota.members.map Task.id := by
  rw [runnableIds, rota, Rota.members]
  cases s.current <;> rfl

theorem sorted_rota (hs : s.Filed) : s.rota.Sorted Task.level :=
  Queues.pairwise_queued fun p t ht => (hs.queued p t ht).1

/-- The first pass takes the first task with another id. -/
theorem rota_pick_of_find (hfind : s.queues.queued.find? (Queues.isOther lastId) = some task) :
    (s.pick lastId).rota = ⟨some { task with state := .ready },
      s.queues.queued.eraseP (Queues.isOther lastId)⟩ := by
  have hmap := Queues.map_takeFirst (Queues.isOther lastId) s.queues
  rw [hfind] at hmap
  obtain ⟨⟨task', queues⟩, htake, heq⟩ := Option.map_eq_some_iff.mp hmap
  obtain ⟨rfl, hqueues⟩ := Prod.mk.inj heq
  rw [pick, Queues.pickNextFair_of_some htake]
  exact congrArg (Rota.mk _) hqueues

/-- The second pass takes the last task again when there is no other one. -/
theorem rota_pick_of_single (hqueued : s.queues.queued = [task]) (hid : task.id = lastId) :
    (s.pick lastId).rota = ⟨some { task with state := .ready }, []⟩ := by
  have hfirst := Queues.map_takeFirst (Queues.isOther lastId) s.queues
  have hsecond := Queues.map_takeFirst (fun _ => true) s.queues
  rw [hqueued] at hfirst hsecond
  have hnone : Queues.takeFirst (Queues.isOther lastId) Queues.order s.queues = none := by
    simpa [Queues.isOther, hid] using hfirst
  obtain ⟨⟨task', queues⟩, htake, heq⟩ := Option.map_eq_some_iff.mp hsecond
  obtain ⟨rfl, hqueues⟩ := Prod.mk.inj heq
  rw [pick, Queues.pickNextFair_of_none hnone, Queues.pickNext, htake]
  exact congrArg (Rota.mk _) hqueues

theorem rota_pick_of_nil (hqueued : s.queues.queued = []) :
    (s.pick lastId).rota = ⟨none, []⟩ := by
  rw [pick]
  split
  · next task queues hpick =>
    obtain ⟨task, -, htaken, -⟩ := Queues.pickNextFair_eq_some hpick
    have hperm := htaken.perm
    rw [hqueued] at hperm
    exact absurd hperm.symm.eq_nil (List.cons_ne_nil _ _)
  · exact congrArg (Rota.mk none) hqueued

theorem Filed.ready_eq (hs : s.Filed) (h : task ∈ s.queues.queued) :
    { task with state := .ready } = task := by
  obtain ⟨p, hp⟩ := Queues.mem_queued.mp h
  rw [← (hs.queued p task hp).2]

/-- Without a current task, the first one that waits is picked: its id is not 0. -/
theorem rota_reschedule_of_none (hs : s.Spinning) (hcurrent : s.current = none) :
    s.reschedule.2.2.rota = s.rota.next Task.level := by
  have hresult : s.reschedule.2.2 = s.pick 0 := by
    rw [reschedule_eq, putBack, currentId, hcurrent]
    rfl
  rw [hresult, rota.eq_def s, hcurrent]
  rcases hqueued : s.queues.queued with _ | ⟨t, l⟩
  · exact rota_pick_of_nil hqueued
  · have ht : t ∈ s.queues.queued := hqueued ▸ List.mem_cons_self
    have hid : Queues.isOther 0 t := by
      rw [Queues.isOther_iff]
      rintro hzero
      exact hs.pos (hzero ▸ List.mem_map_of_mem (List.mem_append_right _ ht))
    have hfind : s.queues.queued.find? (Queues.isOther 0) = some t := by
      rw [hqueued, List.find?_cons_of_pos hid]
    rw [rota_pick_of_find hfind, hs.filed.ready_eq ht, hqueued, List.eraseP_cons_of_pos hid]
    rfl

/-- The current task is pushed and passed over, so the first one that waited before is picked. -/
theorem rota_reschedule_of_some (hs : s.Spinning) {c : Task} (hcurrent : s.current = some c) :
    s.reschedule.2.2.rota = s.rota.next Task.level := by
  let c' : Task := { c with state := .ready }
  have hresult : s.reschedule.2.2 =
      pick { s with current := none, queues := s.queues.push c' } c.id := by
    rw [reschedule_eq, putBack, currentId, hcurrent]
    simp only [hs.running c hcurrent]
    rfl
  have hpush := Queues.queued_push_eq (fun p t ht => (hs.filed.queued p t ht).1) c'
  have hself : ¬Queues.isOther c.id c' := fun hother => Queues.isOther_iff.mp hother rfl
  rw [hresult, rota.eq_def s, hcurrent]
  rcases hqueued : s.queues.queued with _ | ⟨t, l⟩
  · rw [hqueued] at hpush
    have hpick := rota_pick_of_single
      (s := { s with current := none, queues := s.queues.push c' }) hpush rfl
    exact hpick
  · have ht : t ∈ s.queues.queued := hqueued ▸ List.mem_cons_self
    have hid : Queues.isOther c.id t := by
      have hnodup := hs.nodup
      rw [runnableIds, hcurrent, hqueued] at hnodup
      exact Queues.isOther_iff.mpr (List.ne_of_not_mem_cons (List.nodup_cons.mp hnodup).1).symm
    rw [hqueued] at hpush
    have hsorted : (t :: l).Pairwise fun t t' => t.level ≤ t'.level := by
      rw [← hqueued]
      exact sorted_rota hs.filed
    have hfind : (s.queues.push c').queued.find? (Queues.isOther c.id) = some t := by
      rw [hpush, Rota.find?_enqueue hself, List.find?_cons_of_pos hid]
    have herase : (s.queues.push c').queued.eraseP (Queues.isOther c.id) =
        Rota.enqueue Task.level c' l := by
      rw [hpush, Rota.eraseP_enqueue hself hid hsorted]
    have hpick := rota_pick_of_find
      (s := { s with current := none, queues := s.queues.push c' }) hfind
    rw [hpick, herase, hs.filed.ready_eq ht]
    rfl

/-- **A reschedule is the next turn of the rota.** -/
theorem rota_reschedule (hs : s.Spinning) : s.reschedule.2.2.rota = s.rota.next Task.level := by
  rcases hcurrent : s.current with _ | c
  · exact rota_reschedule_of_none hs hcurrent
  · exact rota_reschedule_of_some hs hcurrent

theorem runnableIds_reschedule_perm (hs : s.Spinning) :
    s.reschedule.2.2.runnableIds.Perm s.runnableIds := by
  rw [runnableIds_eq, runnableIds_eq, rota_reschedule hs]
  exact (Rota.perm_next s.rota).map Task.id

theorem Spinning.reschedule (hs : s.Spinning) : s.reschedule.2.2.Spinning where
  filed := hs.filed.reschedule rfl
  running _ hc := state_current_reschedule rfl hc
  nodup := (runnableIds_reschedule_perm hs).nodup_iff.mpr hs.nodup
  pos hzero := hs.pos ((runnableIds_reschedule_perm hs).mem_iff.mp hzero)

/-! ## Many reschedules -/

/-- The calls hand out the turns of the rota. -/
theorem turns_eq (hs : s.Spinning) (hne : s.rota.members ≠ []) :
    s.turns k = (s.rota.turns Task.level k).map Task.id := by
  induction k generalizing s with
  | zero => rfl
  | succ k ih =>
    have hnext := rota_reschedule hs
    have hmembers : s.reschedule.2.2.rota.members ≠ [] := by
      rw [hnext]
      exact Rota.members_next_ne_nil hne
    have hrest := ih hs.reschedule hmembers
    obtain ⟨task, htask⟩ := Rota.exists_current_next Task.level hne
    have hid : s.reschedule.1.2 = task.id := by
      rw [← hnext] at htask
      obtain ⟨c, hc, rfl⟩ := Option.map_eq_some_iff.mp htask
      have hcurrent : s.reschedule.2.2.currentId = c.id := by
        rw [currentId, hc]
        rfl
      exact hcurrent
    rw [turns, Rota.turns, hrest, hid, hnext, htask]
    rfl

theorem map_priority_members (s : Scheduler) :
    s.rota.members.map Task.priority = s.runnable.map Task.priority := by
  rw [rota, Rota.members, runnable]
  cases s.current <;> rfl

theorem rotates_iff (s : Scheduler) : s.Rotates ↔ s.rota.Balanced Task.level := by
  have hmap := s.map_priority_members
  have hlength : s.rota.members.length = s.runnable.length := by
    simpa using congrArg List.length hmap
  have hpriority : ∀ l : List Task, (∀ t ∈ l, ∀ t' ∈ l, t.priority = t'.priority) ↔
      ∀ p ∈ l.map Task.priority, ∀ q ∈ l.map Task.priority, p = q := by
    intro l
    simp only [List.forall_mem_map]
  have hlevel : (∀ t ∈ s.rota.members, ∀ t' ∈ s.rota.members, t.level = t'.level) ↔
      ∀ t ∈ s.runnable, ∀ t' ∈ s.runnable, t.priority = t'.priority := by
    rw [hpriority, ← hmap, ← hpriority]
    simp only [Task.level, Priority.level_injective.eq_iff]
  rw [Rotates, Rota.Balanced, hlength, hlevel]
  refine or_congr_right (or_congr_right ⟨?_, ?_⟩)
  · rintro ⟨c, t, t', hc, hqueued, hlt, heq⟩
    refine ⟨{ c with state := .ready }, t, t', ?_, hlt, congrArg Priority.level heq⟩
    rw [rota, hc, hqueued]
    rfl
  · rintro ⟨c, t, t', hrota, hlt, heq⟩
    obtain ⟨hcurrent, hqueued⟩ := Rota.mk.inj hrota
    obtain ⟨c, hc, rfl⟩ := Option.map_eq_some_iff.mp hcurrent
    exact ⟨c, t, t', hc, hqueued, hlt, Priority.level_injective heq⟩

/-- As many calls as there are runnable tasks make each of them current once exactly when the tasks
rotate. -/
theorem Spinning.perm_turns_iff (hs : s.Spinning) :
    (s.turns s.runnableIds.length).Perm s.runnableIds ↔ s.Rotates := by
  have hids := s.runnableIds_eq
  have hlength : s.runnableIds.length = s.rota.members.length := by rw [hids, List.length_map]
  rw [rotates_iff, hlength]
  by_cases hne : s.rota.members = []
  · rw [hids, hne]
    exact iff_of_true (.refl _) (.inl (by simp [hne]))
  · rw [turns_eq hs hne]
    constructor
    · intro hperm
      have hnodup := hperm.nodup_iff.mpr hs.nodup
      exact Rota.balanced_of_nodup_turns (sorted_rota hs.filed) hnodup.of_map
    · intro hbalanced
      rw [hids]
      exact (Rota.turns_perm_of_balanced hbalanced).map Task.id

/-- Two tasks ahead of all others share all turns, so the others have none. -/
theorem Spinning.notMem_turns (hs : s.Spinning) {m : ℕ} (hmin : ∀ t ∈ s.rota.members, m ≤ t.level)
    (hcount : 2 ≤ s.rota.members.countP fun t => t.level = m) (htask : task ∈ s.rota.members)
    (hlevel : task.level ≠ m) (k : ℕ) : task.id ∉ s.turns k := by
  rw [turns_eq hs (List.ne_nil_of_mem htask)]
  rintro hmem
  obtain ⟨t, ht, hid⟩ := List.mem_map.mp hmem
  have hnodup := hs.nodup
  rw [runnableIds_eq] at hnodup
  have heq : t = task := List.inj_on_of_nodup_map hnodup (Rota.mem_turns ht) htask hid
  exact hlevel (heq ▸ Rota.level_turns hmin (sorted_rota hs.filed) hcount t ht)

end Scheduler

/-! ## The scheduler of a running system -/

namespace TaskSystem

open Scheduler

theorem Custody.spinning {ts : TaskSystem} (hts : ts.Custody)
    (hrunning : ∀ c, ts.sched.current = some c → c.state ≠ .blocked ∧ c.state ≠ .dead) :
    ts.sched.Spinning := by
  have hsub : ∀ id ∈ ts.sched.runnableIds, id ∈ ts.sched.ids := fun id hid =>
    ts.sched.ids_perm.mem_iff.mpr (List.mem_append_left _ hid)
  refine ⟨hts.filed, fun c hc => ?_, ?_, fun hzero => ?_⟩
  · obtain ⟨hblocked, hdead⟩ := hrunning c hc
    rcases hts.filed.current c hc with hstate | hstate | hstate
    · exact hstate
    · exact absurd hstate hblocked
    · exact absurd hstate hdead
  · have hnodup := (List.nodup_append.mp hts.covers.nodup).1
    exact (List.nodup_append.mp (ts.sched.ids_perm.nodup_iff.mp hnodup)).1
  · exact absurd (hts.covers.pos_of_mem (hsub 0 hzero)) (Nat.lt_irrefl 0)

/-- **Whether the runnable tasks take turns**: while none of them blocks, dies or is added, as many
calls of `reschedule` as there are runnable tasks make each of them current exactly once if and only
if there are at most two of them, or all have the same priority, or there are three and the current
one is ahead of two others of the same priority. -/
theorem turns_perm_iff {ts : TaskSystem} (h : system.Reachable ts)
    (hrunning : ∀ c, ts.sched.current = some c → c.state ≠ .blocked ∧ c.state ≠ .dead) :
    (ts.sched.turns ts.sched.runnableIds.length).Perm ts.sched.runnableIds ↔ ts.sched.Rotates :=
  ((custody_of_reachable h).spinning hrunning).perm_turns_iff

theorem unmarked_of_running {ts : TaskSystem}
    (h : ts.sched.current.map Task.state = some .running) :
    ∀ c, ts.sched.current = some c → c.state ≠ .blocked ∧ c.state ≠ .dead := by
  intro c hc
  rw [hc] at h
  have hstate : c.state = .running := Option.some.inj h
  rw [hstate]
  decide

/-- Three normal tasks, of which the first one runs, take turns. -/
theorem turns_perm_normal :
    ∃ ts, system.Reachable ts ∧ ts.sched.runnableIds = [1, 2, 3] ∧
      (ts.sched.turns 3).Perm [1, 2, 3] := by
  have hrun : ([.spawn .normal [], .spawn .normal [], .spawn .normal [], .reschedule].foldlM step
      ⟨Scheduler.new, IdAllocator.new⟩).map
        (fun ts => (ts.sched.current.map Task.state, ts.sched.runnableIds,
          ts.sched.runnable.map Task.priority)) =
      some (some .running, [1, 2, 3], [.normal, .normal, .normal]) := by
    decide +kernel
  obtain ⟨ts, hreach, heq⟩ := TransitionSystem.exists_reachable_of_map hrun
  simp only [Prod.mk.injEq] at heq
  obtain ⟨hstate, hids, hpriority⟩ := heq
  have hnormal : ∀ t ∈ ts.sched.runnable, t.priority = .normal := by
    intro t ht
    have hmem := List.mem_map_of_mem (f := Task.priority) ht
    rw [hpriority] at hmem
    simpa using hmem
  have hperm := (turns_perm_iff hreach (unmarked_of_running hstate)).mpr
    (.inr (.inl fun t ht t' ht' => (hnormal t ht).trans (hnormal t' ht').symm))
  rw [hids] at hperm
  exact ⟨ts, hreach, hids, hperm⟩

/-- Two realtime tasks and a normal one: the normal task is never made current again. -/
theorem normal_task_starves :
    ∃ ts, system.Reachable ts ∧ ts.sched.current.map Task.state = some .running ∧
      ts.sched.runnableIds = [1, 2, 3] ∧ ¬(ts.sched.turns 3).Perm [1, 2, 3] ∧
        ∀ k, 3 ∉ ts.sched.turns k := by
  have hrun : ([.spawn .realtime [], .spawn .realtime [], .spawn .normal [], .reschedule].foldlM
      step ⟨Scheduler.new, IdAllocator.new⟩).map
        (fun ts => (ts.sched.current.map Task.state,
          ts.sched.rota.members.map fun t => (t.id, t.level))) =
      some (some .running, [(1, 0), (2, 0), (3, 1)]) := by
    decide +kernel
  obtain ⟨ts, hreach, heq⟩ := TransitionSystem.exists_reachable_of_map hrun
  obtain ⟨hstate, hmembers⟩ := Prod.mk.inj heq
  have hids : ts.sched.runnableIds = [1, 2, 3] := by
    have hfst := congrArg (List.map Prod.fst) hmembers
    rw [List.map_map] at hfst
    exact (runnableIds_eq _).trans hfst
  have hspin := (custody_of_reachable hreach).spinning (unmarked_of_running hstate)
  have hcount : 2 ≤ ts.sched.rota.members.countP fun t => t.level = 0 := by
    have hpairs := congrArg (List.countP fun pair : TaskId × ℕ => pair.2 = 0) hmembers
    rw [List.countP_map] at hpairs
    exact hpairs.ge
  obtain ⟨t, ht, hpair⟩ : ∃ t ∈ ts.sched.rota.members, (t.id, t.level) = (3, 1) := by
    rw [← List.mem_map, hmembers]
    simp
  obtain ⟨hid, hlevel⟩ := Prod.mk.inj hpair
  have hnever : ∀ k, 3 ∉ ts.sched.turns k := by
    intro k
    rw [← hid]
    exact hspin.notMem_turns (fun _ _ => Nat.zero_le _) hcount ht (by simp [hlevel]) k
  exact ⟨ts, hreach, hstate, hids, fun hperm => hnever 3 (hperm.mem_iff.mpr (by simp)), hnever⟩

end TaskSystem

end OxideOS
