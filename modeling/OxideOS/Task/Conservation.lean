import OxideOS.Lib.TransitionSystem
import OxideOS.Task.Scheduler
import Mathlib.Data.List.Range

/-!
# No task is lost or duplicated

Tasks move by value between the queues, the blocked list and the current slot, and ids move between
the tasks and the free list of the allocator.  Saved contexts are indexed by id, so an id in two
places would let two tasks share a context.

## Main definitions

* `IdAllocator.Covers`: the ids in use and the free ones are exactly those handed out so far
* `TaskSystem`: the scheduler with the id allocator, and the calls on them
* `TaskSystem.wakeEach`: a number of wake-ups
* `TaskSystem.Custody`: the invariant

## Main results

* `TaskSystem.custody_of_reachable`: the invariant holds in every reachable state
* `TaskSystem.tasks_conserved`: the ids partition, the tasks are filed, and the count is exact
-/

namespace OxideOS

/-! ## The allocator -/

namespace IdAllocator

variable {ids ids' : IdAllocator} {used used' : List TaskId} {id : TaskId}

/-- The ids in use and the free ones are exactly `1, …, next - 1`, each once. -/
structure Covers (ids : IdAllocator) (used : List TaskId) : Prop where
  pos : 1 ≤ ids.next
  perm : (used ++ ids.freeList).Perm (List.range' 1 (ids.next - 1))

theorem covers_new : new.Covers [] := ⟨Nat.le_refl 1, .refl _⟩

theorem Covers.of_perm (h : ids.Covers used) (hperm : used'.Perm used) : ids.Covers used' :=
  ⟨h.pos, (hperm.append_right _).trans h.perm⟩

theorem Covers.alloc (h : ids.Covers used) (halloc : ids.alloc = (id, ids')) :
    ids'.Covers (id :: used) := by
  rw [IdAllocator.alloc] at halloc
  split at halloc
  · next last hlast =>
    obtain ⟨rfl, rfl⟩ := Prod.mk.inj halloc
    refine ⟨h.pos, List.Perm.trans ?_ h.perm⟩
    have hsplit : ids.freeList.dropLast ++ [last] = ids.freeList :=
      List.dropLast_append_getLast? last hlast
    have hperm := (List.perm_append_singleton last (used ++ ids.freeList.dropLast)).symm
    rw [List.append_assoc, hsplit] at hperm
    exact hperm
  · next hnone =>
    obtain ⟨rfl, rfl⟩ := Prod.mk.inj halloc
    refine ⟨Nat.le_add_left 1 _, ?_⟩
    have hnext : ids.next + 1 - 1 = (ids.next - 1) + 1 := by
      have hpos := h.pos
      omega
    have hlast : 1 + (ids.next - 1) = ids.next := by
      have hpos := h.pos
      omega
    rw [hnext, List.range'_1_concat, hlast, List.cons_append]
    exact (List.Perm.cons _ h.perm).trans (List.perm_append_singleton _ _).symm

theorem Covers.free (h : ids.Covers (id :: used)) : (ids.free id).Covers used := by
  refine ⟨h.pos, List.Perm.trans ?_ h.perm⟩
  rw [IdAllocator.free, ← List.append_assoc, List.cons_append]
  exact List.perm_append_singleton _ _

theorem Covers.nodup (h : ids.Covers used) : (used ++ ids.freeList).Nodup :=
  h.perm.nodup_iff.mpr List.nodup_range'

theorem Covers.mem_iff (h : ids.Covers used) (n : Nat) :
    n ∈ used ++ ids.freeList ↔ 1 ≤ n ∧ n < ids.next := by
  have hpos := h.pos
  rw [h.perm.mem_iff, List.mem_range'_1]
  omega

theorem Covers.pos_of_mem (h : ids.Covers used) (hid : id ∈ used) : 0 < id :=
  ((h.mem_iff id).mp (List.mem_append_left _ hid)).1

end IdAllocator

/-! ## The calls -/

/-- The scheduler and the id allocator. -/
structure TaskSystem where
  sched : Scheduler
  ids : IdAllocator

/-- The calls that move tasks. -/
inductive TaskOp
  /-- `Task::new`, on a stack with these frames, followed by `Scheduler::spawn`. -/
  | spawn (priority : Priority) (stackFrames : List UInt64)
  | reschedule
  | blockCurrent
  | unblock (taskId : TaskId)
  | killCurrent

namespace TaskSystem

/-- Free the id of a task that `reschedule` found dead. -/
def recycle (ids : IdAllocator) : Option Task → IdAllocator
  | some task => ids.free task.id
  | none => ids

/-- The state after a call; `none` is the failed assertion of `spawn`. -/
def step (s : TaskSystem) : TaskOp → Option TaskSystem
  | .spawn priority stackFrames =>
    let (task, ids) := Task.new s.ids priority stackFrames
    (s.sched.spawn task).map fun sched => ⟨sched, ids⟩
  | .reschedule =>
    let (_, reaped, sched) := s.sched.reschedule
    some ⟨sched, recycle s.ids reaped⟩
  | .blockCurrent => some { s with sched := s.sched.blockCurrent }
  | .unblock taskId => some { s with sched := (s.sched.unblock taskId).2 }
  | .killCurrent => some { s with sched := s.sched.killCurrent }

/-- Wake these tasks, one after the other. -/
def wakeEach (s : TaskSystem) (taskIds : List TaskId) : TaskSystem :=
  { s with sched := taskIds.foldl (fun sched taskId => (sched.unblock taskId).2) s.sched }

/-- Any calls from the empty scheduler. -/
def system : TransitionSystem TaskSystem TaskOp := .ofPartial ⟨Scheduler.new, IdAllocator.new⟩ step

/-! ## The invariant -/

/-- Ids are in the scheduler or free, each once, and tasks are filed by state and priority. -/
structure Custody (s : TaskSystem) : Prop where
  covers : s.ids.Covers s.sched.ids
  filed : s.sched.Filed

variable {s s' : TaskSystem} {priority : Priority} {stackFrames : List UInt64}

theorem step_spawn (h : s.step (.spawn priority stackFrames) = some s') :
    ∃ task, Task.new s.ids priority stackFrames = (task, s'.ids) ∧
      s.sched.spawn task = some s'.sched := by
  rcases hnew : Task.new s.ids priority stackFrames with ⟨task, ids⟩
  rw [step, hnew] at h
  obtain ⟨sched, hsched, rfl⟩ := Option.map_eq_some_iff.mp h
  exact ⟨task, rfl, hsched⟩

theorem step_reschedule (h : s.step .reschedule = some s') :
    ∃ change reaped, s.sched.reschedule = (change, reaped, s'.sched) ∧
      s'.ids = recycle s.ids reaped := by
  rcases hres : s.sched.reschedule with ⟨change, reaped, sched⟩
  rw [step, hres] at h
  obtain rfl := Option.some.inj h
  exact ⟨change, reaped, rfl, rfl⟩

theorem run_wakeEach (s : TaskSystem) (taskIds : List TaskId) :
    system.Run s (taskIds.map .unblock) (s.wakeEach taskIds) := by
  induction taskIds generalizing s with
  | nil => exact .nil s
  | cons taskId taskIds ih => exact .cons rfl (ih { s with sched := (s.sched.unblock taskId).2 })

theorem wakeEach_append (s : TaskSystem) (taskIds taskIds' : List TaskId) :
    s.wakeEach (taskIds ++ taskIds') = (s.wakeEach taskIds).wakeEach taskIds' := by
  rw [wakeEach, List.foldl_append]
  rfl

/-- Waking moves tasks, and changes nothing of them but their state. -/
theorem map_tasks_wakeEach {β : Type} {f : Task → β} (hf : Scheduler.StateBlind f) (s : TaskSystem)
    (taskIds : List TaskId) :
    ((s.wakeEach taskIds).sched.tasks.map f).Perm (s.sched.tasks.map f) := by
  induction taskIds generalizing s with
  | nil => exact .refl _
  | cons taskId taskIds ih =>
    apply (ih { s with sched := (s.sched.unblock taskId).2 }).trans
    exact Scheduler.map_tasks_unblock hf s.sched taskId

theorem custody_spawn (hs : s.Custody) (h : s.step (.spawn priority stackFrames) = some s') :
    s'.Custody := by
  obtain ⟨task, hnew, hspawn⟩ := step_spawn h
  rcases halloc : s.ids.alloc with ⟨id, ids⟩
  rw [Task.new, halloc] at hnew
  obtain ⟨rfl, rfl⟩ := Prod.mk.inj hnew
  refine ⟨?_, hs.filed.spawn rfl hspawn⟩
  exact (hs.covers.alloc halloc).of_perm (Scheduler.ids_spawn hspawn)

theorem custody_reschedule (hs : s.Custody) (h : s.step .reschedule = some s') : s'.Custody := by
  obtain ⟨change, reaped, hres, hids⟩ := step_reschedule h
  refine ⟨?_, hs.filed.reschedule hres⟩
  have hcovers := hs.covers.of_perm (Scheduler.ids_reschedule hres).symm
  rw [hids]
  cases reaped with
  | none => exact hcovers
  | some task => exact hcovers.free

theorem custody_invariant : system.Invariant Custody where
  init := by
    rintro s rfl
    exact ⟨IdAllocator.covers_new, Scheduler.filed_new⟩
  step := by
    intro s op s' hs hstep
    cases op with
    | spawn priority stackFrames => exact custody_spawn hs hstep
    | reschedule => exact custody_reschedule hs hstep
    | blockCurrent =>
      obtain rfl := Option.some.inj hstep
      refine ⟨?_, hs.filed.blockCurrent⟩
      rw [Scheduler.ids_blockCurrent]
      exact hs.covers
    | unblock taskId =>
      obtain rfl := Option.some.inj hstep
      exact ⟨hs.covers.of_perm (Scheduler.ids_unblock s.sched taskId), hs.filed.unblock taskId⟩
    | killCurrent =>
      obtain rfl := Option.some.inj hstep
      refine ⟨?_, hs.filed.killCurrent⟩
      rw [Scheduler.ids_killCurrent]
      exact hs.covers

theorem custody_of_reachable (h : system.Reachable s) : s.Custody :=
  custody_invariant.of_reachable h

/-! ## The count -/

/-- The current task is dead, so the next reschedule removes it. -/
def CurrentDead (s : Scheduler) : Prop := ∃ task, s.current = some task ∧ task.state = .dead

theorem taskCount_eq (s : Scheduler) : s.taskCount = s.ids.length := by
  rw [Scheduler.ids, List.length_map, Scheduler.length_tasks]

/-- A reschedule removes a task exactly when the current one is dead. -/
theorem reaped_iff {s s' : Scheduler} {change : TaskId × TaskId} {reaped : Option Task}
    (h : s.reschedule = (change, reaped, s')) : reaped.isSome ↔ CurrentDead s := by
  have hput : s.putBack.1 = reaped := by
    have hreaped := congrArg (fun r => r.2.1) h
    exact hreaped
  rw [← hput, Scheduler.putBack, CurrentDead]
  cases hcurrent : s.current with
  | none => simp
  | some task => cases hstate : task.state <;> simp [hstate]

/-- How a call changes the number of tasks. -/
def Counts (s s' : Scheduler) : TaskOp → Prop
  | .spawn _ _ => s'.taskCount = s.taskCount + 1
  | .reschedule =>
    (CurrentDead s → s'.taskCount + 1 = s.taskCount) ∧
      (¬CurrentDead s → s'.taskCount = s.taskCount)
  | .blockCurrent => s'.taskCount = s.taskCount
  | .unblock _ => s'.taskCount = s.taskCount
  | .killCurrent => s'.taskCount = s.taskCount

theorem counts_of_step {op : TaskOp} (h : s.step op = some s') : Counts s.sched s'.sched op := by
  cases op with
  | spawn priority stackFrames =>
    obtain ⟨task, -, hspawn⟩ := step_spawn h
    rw [Counts, taskCount_eq, taskCount_eq, (Scheduler.ids_spawn hspawn).length_eq,
      List.length_cons]
  | reschedule =>
    obtain ⟨change, reaped, hres, -⟩ := step_reschedule h
    have hdead := reaped_iff hres
    have hlength := (Scheduler.ids_reschedule hres).length_eq
    rw [List.length_append, List.length_map] at hlength
    rw [Counts, taskCount_eq, taskCount_eq, hlength, ← hdead]
    cases reaped with
    | none => simp
    | some task => simp [Nat.add_comm]
  | blockCurrent =>
    obtain rfl := Option.some.inj h
    rw [Counts, taskCount_eq, taskCount_eq, Scheduler.ids_blockCurrent]
  | unblock taskId =>
    obtain rfl := Option.some.inj h
    rw [Counts, taskCount_eq, taskCount_eq, (Scheduler.ids_unblock s.sched taskId).length_eq]
  | killCurrent =>
    obtain rfl := Option.some.inj h
    rw [Counts, taskCount_eq, taskCount_eq, Scheduler.ids_killCurrent]

/-- **No task is lost or duplicated**: in every reachable state the ids of the queued, blocked and
current tasks and the free ids are pairwise distinct and exactly `1, …, next - 1`, every task is
filed by its state and priority, and a call changes the number of tasks only by spawning one or by
removing a dead current one. -/
theorem tasks_conserved (h : system.Reachable s) :
    (s.sched.ids ++ s.ids.freeList).Nodup ∧
      (∀ id, id ∈ s.sched.ids ++ s.ids.freeList ↔ 1 ≤ id ∧ id < s.ids.next) ∧
      (∀ p, ∀ t ∈ s.sched.queues p, t.priority = p ∧ t.state = .ready) ∧
      (∀ t ∈ s.sched.blocked, t.state = .blocked) ∧
      (∀ t, s.sched.current = some t →
        t.state = .running ∨ t.state = .blocked ∨ t.state = .dead) ∧
      ∀ op s', s.step op = some s' → Counts s.sched s'.sched op := by
  have hs : s.Custody := custody_of_reachable h
  exact ⟨hs.covers.nodup, hs.covers.mem_iff, hs.filed.queued, hs.filed.blocked, hs.filed.current,
    fun op s' hstep => counts_of_step hstep⟩

/-- Two tasks are spawned, the first one runs and dies, and its id is handed out again. -/
def respawned : List TaskOp :=
  [.spawn .normal [], .spawn .realtime [], .reschedule, .killCurrent, .reschedule,
    .spawn .background []]

theorem tasks_conserved_respawned :
    ∃ s, respawned.foldlM step ⟨Scheduler.new, IdAllocator.new⟩ = some s ∧
      (s.sched.ids ++ s.ids.freeList).Nodup := by
  obtain ⟨s, hs⟩ := Option.isSome_iff_exists.mp
    (show (respawned.foldlM step ⟨Scheduler.new, IdAllocator.new⟩).isSome by decide)
  exact ⟨s, hs, (tasks_conserved (TransitionSystem.reachable_ofPartial_iff.mpr ⟨_, hs⟩)).1⟩

end TaskSystem

end OxideOS
