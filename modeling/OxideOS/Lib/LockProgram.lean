import OxideOS.Lib.TransitionSystem
import Mathlib.Tactic.SplitIfs

/-!
# Programs with spin locks on one core

A program is seen here through the locks it takes: guards that are dropped at the end of a block,
attempts that give up when the lock is taken, branches and loops whose conditions are left open, and
blocks with interrupts disabled.  It runs on a stack, on which a guard that is held is a lock still
to be released.

A core runs one program after the other.  Between any two steps an interrupt may come, if interrupts
are enabled, and its handler runs to its end before the interrupted program goes on; a handler that
waits for a lock of that program waits for ever.  So a handler is safe when no lock it may wait for
is held at the time of the interrupt.

## Main definitions

* `LockProgram L`: programs over the locks `L`
* `LockProgram.inOrder`, `LockProgram.orReturn`, `LockProgram.briefly`: common shapes of them
* `LockProgram.awaits`: the locks a program may wait for
* `LockProgram.Guarded`: one lock is only taken under another
* `LockStack.advance`: one step
* `Core`, `Core.step`, `Core.system`: a core with interrupts
* `Core.Waits`: the handler waits for a lock that the interrupted program holds

## Main results

* `Core.clear_of_reachable`: if every interrupt finds the locks free that its handler may wait for,
  no handler ever waits for the interrupted program
* `Core.held_of_guarded`: a lock that is only taken under another is only held with it
-/

/-- What a piece of code does with locks. -/
inductive LockProgram (L : Type) where
  /-- Anything that does not touch a lock. -/
  | skip
  | seq (first second : LockProgram L)
  /-- The lock is taken as soon as it is free, and released after the body. -/
  | locked (l : L) (body : LockProgram L)
  /-- The body is skipped if the lock is not free. -/
  | tryLocked (l : L) (body : LockProgram L)
  | either (left right : LockProgram L)
  /-- Any number of times. -/
  | loop (body : LockProgram L)
  /-- With interrupts disabled. -/
  | masked (body : LockProgram L)

/-- What is left to be done. -/
inductive LockFrame (L : Type) where
  | run (p : LockProgram L)
  | release (l : L)
  | unmask

abbrev LockStack (L : Type) := List (LockFrame L)

namespace LockProgram

variable {L : Type}

/-- One thing after the other. -/
def inOrder : List (LockProgram L) → LockProgram L
  | [] => skip
  | [p] => p
  | p :: ps => seq p (inOrder ps)

/-- All of these, or an early return. -/
def orReturn (ps : List (LockProgram L)) : LockProgram L := either skip (inOrder ps)

/-- Take a lock for one thing that takes no other. -/
def briefly (l : L) : LockProgram L := locked l skip

/-- The locks that the program may wait for. -/
def awaits : LockProgram L → List L
  | skip => []
  | seq first second => first.awaits ++ second.awaits
  | locked l body => l :: body.awaits
  | tryLocked _ body => body.awaits
  | either left right => left.awaits ++ right.awaits
  | loop body => body.awaits
  | masked body => body.awaits

/-- The lock `inner` is only taken while `outer` is held. -/
def Guarded (outer inner : L) : LockProgram L → Prop
  | skip => True
  | seq first second => first.Guarded outer inner ∧ second.Guarded outer inner
  | locked l body => l = outer ∨ l ≠ inner ∧ body.Guarded outer inner
  | tryLocked l body => l = outer ∨ l ≠ inner ∧ body.Guarded outer inner
  | either left right => left.Guarded outer inner ∧ right.Guarded outer inner
  | loop body => body.Guarded outer inner
  | masked body => body.Guarded outer inner

instance decidableGuarded [DecidableEq L] (outer inner : L) :
    (p : LockProgram L) → Decidable (p.Guarded outer inner)
  | skip => .isTrue trivial
  | seq first second =>
    have := decidableGuarded outer inner first
    have := decidableGuarded outer inner second
    inferInstanceAs (Decidable (_ ∧ _))
  | locked _ body =>
    have := decidableGuarded outer inner body
    inferInstanceAs (Decidable (_ ∨ _ ∧ _))
  | tryLocked _ body =>
    have := decidableGuarded outer inner body
    inferInstanceAs (Decidable (_ ∨ _ ∧ _))
  | either left right =>
    have := decidableGuarded outer inner left
    have := decidableGuarded outer inner right
    inferInstanceAs (Decidable (_ ∧ _))
  | loop body => decidableGuarded outer inner body
  | masked body => decidableGuarded outer inner body

end LockProgram

namespace LockFrame

variable {L : Type}

def awaits : LockFrame L → List L
  | run p => p.awaits
  | _ => []

def lock? : LockFrame L → Option L
  | release l => some l
  | _ => none

def isUnmask : LockFrame L → Bool
  | unmask => true
  | _ => false

/-- The frame neither holds `inner` nor may take it, except with `outer`. -/
def Guarded (outer inner : L) : LockFrame L → Prop
  | run p => p.Guarded outer inner
  | release l => l = outer ∨ l ≠ inner
  | unmask => True

end LockFrame

namespace LockStack

open LockProgram LockFrame

variable {L : Type}

/-- The locks that are held. -/
def held (k : LockStack L) : List L := k.filterMap lock?

/-- The locks that may be waited for. -/
def awaits (k : LockStack L) : List L := k.flatMap LockFrame.awaits

/-- Interrupts are disabled. -/
def isMasked (k : LockStack L) : Bool := k.any isUnmask

/-- One step, where `taken` are locks held by others and `choice` decides branches and loops.
There is none while a lock is waited for. -/
def advance [DecidableEq L] (taken : List L) (choice : Bool) : LockStack L → Option (LockStack L)
  | [] => none
  | release _ :: k => some k
  | unmask :: k => some k
  | run .skip :: k => some k
  | run (.seq first second) :: k => some (run first :: run second :: k)
  | run (.locked l body) :: k =>
    if l ∈ taken ∨ l ∈ held k then none else some (run body :: release l :: k)
  | run (.tryLocked l body) :: k =>
    if l ∈ taken ∨ l ∈ held k then some k else some (run body :: release l :: k)
  | run (.either left right) :: k => some (run (bif choice then left else right) :: k)
  | run (.loop body) :: k => some (bif choice then run body :: run (.loop body) :: k else k)
  | run (.masked body) :: k => some (run body :: unmask :: k)

/-- What a step can do, whatever the locks and the choice. -/
inductive Advances : LockStack L → LockStack L → Prop
  | drop (f : LockFrame L) (k : LockStack L) : Advances (f :: k) k
  | split (first second : LockProgram L) (k : LockStack L) :
      Advances (run (.seq first second) :: k) (run first :: run second :: k)
  | lock (l : L) (body : LockProgram L) (k : LockStack L) :
      Advances (run (.locked l body) :: k) (run body :: release l :: k)
  | tryLock (l : L) (body : LockProgram L) (k : LockStack L) :
      Advances (run (.tryLocked l body) :: k) (run body :: release l :: k)
  | left (left right : LockProgram L) (k : LockStack L) :
      Advances (run (.either left right) :: k) (run left :: k)
  | right (left right : LockProgram L) (k : LockStack L) :
      Advances (run (.either left right) :: k) (run right :: k)
  | again (body : LockProgram L) (k : LockStack L) :
      Advances (run (.loop body) :: k) (run body :: run (.loop body) :: k)
  | mask (body : LockProgram L) (k : LockStack L) :
      Advances (run (.masked body) :: k) (run body :: unmask :: k)

variable {taken : List L} {choice : Bool} {k k' : LockStack L} {outer inner : L}

theorem advances_of_advance [DecidableEq L] (h : advance taken choice k = some k') :
    Advances k k' := by
  cases k with
  | nil => cases h
  | cons f k =>
    cases f with
    | release l =>
      obtain rfl := Option.some.inj h
      exact .drop _ k
    | unmask =>
      obtain rfl := Option.some.inj h
      exact .drop _ k
    | run p =>
      cases p with
      | skip =>
        obtain rfl := Option.some.inj h
        exact .drop _ k
      | seq first second =>
        obtain rfl := Option.some.inj h
        exact .split first second k
      | locked l body =>
        rw [advance] at h
        split_ifs at h
        obtain rfl := Option.some.inj h
        exact .lock l body k
      | tryLocked l body =>
        rw [advance] at h
        split_ifs at h
        · obtain rfl := Option.some.inj h
          exact .drop _ k
        · obtain rfl := Option.some.inj h
          exact .tryLock l body k
      | either left right =>
        obtain rfl := Option.some.inj h
        cases choice with
        | false => exact .right left right k
        | true => exact .left left right k
      | loop body =>
        obtain rfl := Option.some.inj h
        cases choice with
        | false => exact .drop _ k
        | true => exact .again body k
      | masked body =>
        obtain rfl := Option.some.inj h
        exact .mask body k

/-- A step adds no lock to wait for. -/
theorem Advances.awaits_subset (h : Advances k k') : k'.awaits ⊆ k.awaits := by
  intro l hl
  cases h with
  | drop f k => exact List.mem_append_right _ hl
  | split first second k =>
    simp only [awaits, List.flatMap_cons, LockFrame.awaits, LockProgram.awaits, List.mem_append,
      or_assoc] at hl ⊢
    exact hl
  | lock l' body k =>
    simp only [awaits, List.flatMap_cons, LockFrame.awaits, LockProgram.awaits, List.mem_append,
      List.nil_append, List.mem_cons] at hl ⊢
    exact hl.imp_left .inr
  | tryLock l' body k => exact hl
  | left left right k =>
    simp only [awaits, List.flatMap_cons, LockFrame.awaits, LockProgram.awaits, List.mem_append]
      at hl ⊢
    exact hl.imp_left .inl
  | right left right k =>
    simp only [awaits, List.flatMap_cons, LockFrame.awaits, LockProgram.awaits, List.mem_append]
      at hl ⊢
    exact hl.imp_left .inr
  | again body k =>
    simp only [awaits, List.flatMap_cons, LockFrame.awaits, LockProgram.awaits, List.mem_append]
      at hl ⊢
    exact hl.elim .inl id
  | mask body k => exact hl

/-! ## Locks taken under others -/

/-- Every frame that holds `inner`, or may take it without taking `outer`, is above one that
releases `outer`. -/
def Guarded (outer inner : L) : LockStack L → Prop
  | [] => True
  | f :: k => (f.Guarded outer inner ∨ outer ∈ held k) ∧ Guarded outer inner k

theorem Guarded.held (h : k.Guarded outer inner) (hinner : inner ∈ k.held) : outer ∈ k.held := by
  induction k with
  | nil => cases hinner
  | cons f k ih =>
    cases f with
    | run p => exact ih h.2 hinner
    | unmask => exact ih h.2 hinner
    | release l =>
      rcases List.mem_cons.mp hinner with rfl | hinner
      · rcases h.1 with (rfl | hne) | houter
        · exact List.mem_cons_self
        · exact absurd rfl hne
        · exact List.mem_cons_of_mem _ houter
      · exact List.mem_cons_of_mem _ (ih h.2 hinner)

/-- The body of a guard. -/
theorem guarded_under {l : L} {body : LockProgram L}
    (h : (l = outer ∨ l ≠ inner ∧ body.Guarded outer inner) ∨ outer ∈ k.held)
    (hk : k.Guarded outer inner) : Guarded outer inner (run body :: release l :: k) := by
  rcases h with (rfl | ⟨hne, hbody⟩) | houter
  · exact ⟨.inr List.mem_cons_self, .inl (.inl rfl), hk⟩
  · exact ⟨.inl hbody, .inl (.inr hne), hk⟩
  · exact ⟨.inr (List.mem_cons_of_mem _ houter), .inr houter, hk⟩

theorem Guarded.advances (h : k.Guarded outer inner) (hstep : Advances k k') :
    k'.Guarded outer inner := by
  cases hstep with
  | drop f k => exact h.2
  | split first second k =>
    obtain ⟨hp | houter, hk⟩ := h
    · exact ⟨.inl hp.1, .inl hp.2, hk⟩
    · exact ⟨.inr houter, .inr houter, hk⟩
  | lock l body k => exact guarded_under h.1 h.2
  | tryLock l body k => exact guarded_under h.1 h.2
  | left left right k => exact ⟨h.1.imp_left And.left, h.2⟩
  | right left right k => exact ⟨h.1.imp_left And.right, h.2⟩
  | again body k => exact ⟨h.1, h.1, h.2⟩
  | mask body k => exact ⟨h.1, .inl trivial, h.2⟩

end LockStack

/-! ## A core with interrupts -/

/-- The programs that are run, each under a name, and the handler of the `n`-th interrupt. -/
structure CoreCode (L ι : Type) where
  call : ι → LockProgram L
  interrupt : Nat → LockProgram L

/-- What the core is doing: the program that was called, and on top of it a handler.  The
interrupts so far are counted. -/
structure Core (L : Type) where
  task : LockStack L
  handler : Option (LockStack L)
  interrupts : Nat

/-- What happens next on a core: a call is made, the program takes a step, an interrupt comes, or
its handler takes a step or returns. -/
inductive CoreEvent (ι : Type) where
  | call (name : ι)
  | task (choice : Bool)
  | interrupt
  | handler (choice : Bool)

namespace Core

variable {L ι : Type}

/-- A core that has nothing to do. -/
def idle : Core L := ⟨[], none, 0⟩

/-- An interrupt can come. -/
def Interruptible (s : Core L) : Prop := s.handler = none ∧ s.task.isMasked = false

instance (s : Core L) : Decidable s.Interruptible := inferInstanceAs (Decidable (_ ∧ _))

variable (code : CoreCode L ι)

/-- The next interrupt has come. -/
def interrupted (s : Core L) : Core L :=
  { s with
    handler := some [.run (code.interrupt (s.interrupts + 1))], interrupts := s.interrupts + 1 }

def step [DecidableEq L] (s : Core L) : CoreEvent ι → Option (Core L)
  | .call name =>
    match s.handler, s.task with
    | none, [] => some { s with task := [.run (code.call name)] }
    | _, _ => none
  | .task choice =>
    match s.handler with
    | none => (LockStack.advance [] choice s.task).map fun task => { s with task }
    | some _ => none
  | .interrupt => if s.Interruptible then some (s.interrupted code) else none
  | .handler choice =>
    match s.handler with
    | none => none
    | some [] => some { s with handler := none }
    | some k => (k.advance s.task.held choice).map fun k => { s with handler := some k }

/-- Any calls, interrupted at any time. -/
def system [DecidableEq L] : TransitionSystem (Core L) (CoreEvent ι) := .ofPartial idle (step code)

/-- The handler waits for a lock that the interrupted program holds. -/
def Waits (s : Core L) (l : L) : Prop :=
  l ∈ s.task.held ∧ ∃ body k, s.handler = some (.run (.locked l body) :: k)

/-- No lock that the handler may wait for is held by the interrupted program. -/
def Clear (s : Core L) : Prop :=
  ∀ k, s.handler = some k → ∀ l ∈ k.awaits, l ∉ s.task.held

/-- The interrupt finds free what its handler may wait for. -/
def ClearEvent (s : Core L) : CoreEvent ι → Prop
  | .interrupt => ∀ l ∈ (code.interrupt (s.interrupts + 1)).awaits, l ∉ s.task.held
  | _ => True

variable {code} {s t : Core L} {e : CoreEvent ι}

theorem Clear.not_waits (h : s.Clear) (l : L) : ¬s.Waits l := by
  rintro ⟨hl, body, k, hk⟩
  exact h _ hk l (List.mem_append_left _ List.mem_cons_self) hl

theorem clear_of_handler_none (h : s.handler = none) : s.Clear := by
  intro k hk
  rw [h] at hk
  cases hk

theorem clear_interrupted (h : ClearEvent code s (.interrupt : CoreEvent ι)) :
    (s.interrupted code).Clear := by
  intro k hk l hl
  obtain rfl := Option.some.inj hk
  rw [LockStack.awaits, List.flatMap_singleton] at hl
  exact h l hl

variable [DecidableEq L]

/-- What an event does to the program and its handler. -/
theorem step_cases (h : step code s e = some t) :
    (s.task = [] ∧ t.handler = none ∧ ∃ name, t.task = [.run (code.call name)]) ∨
      (LockStack.Advances s.task t.task ∧ t.handler = none) ∨
      (e = .interrupt ∧ t = s.interrupted code) ∨
      t.task = s.task ∧ (t.handler = none ∨
        ∃ k k', s.handler = some k ∧ LockStack.Advances k k' ∧ t.handler = some k') := by
  cases e with
  | call name =>
    rw [step] at h
    split at h
    · next hhandler htask =>
      obtain rfl := Option.some.inj h
      exact .inl ⟨htask, hhandler, name, rfl⟩
    · cases h
  | task choice =>
    rw [step] at h
    split at h
    · next hhandler =>
      obtain ⟨task, hadvance, rfl⟩ := Option.map_eq_some_iff.mp h
      exact .inr (.inl ⟨LockStack.advances_of_advance hadvance, hhandler⟩)
    · cases h
  | interrupt =>
    rw [step] at h
    split_ifs at h
    obtain rfl := Option.some.inj h
    exact .inr (.inr (.inl ⟨rfl, rfl⟩))
  | handler choice =>
    rw [step] at h
    split at h
    · cases h
    · obtain rfl := Option.some.inj h
      exact .inr (.inr (.inr ⟨rfl, .inl rfl⟩))
    · next k _ hk =>
      obtain ⟨k', hadvance, rfl⟩ := Option.map_eq_some_iff.mp h
      exact .inr (.inr (.inr
        ⟨rfl, .inr ⟨k, k', hk, LockStack.advances_of_advance hadvance, rfl⟩⟩))

/-- The handler stays clear of the program. -/
theorem Clear.step (hs : s.Clear) (hclear : ClearEvent code s e) (h : step code s e = some t) :
    t.Clear := by
  rcases step_cases h with ⟨-, hnone, -⟩ | ⟨-, hnone⟩ | ⟨rfl, rfl⟩ | ⟨htask, hnone | hhandler⟩
  · exact clear_of_handler_none hnone
  · exact clear_of_handler_none hnone
  · exact clear_interrupted hclear
  · exact clear_of_handler_none hnone
  · obtain ⟨k, k', hk, hadvances, hk'⟩ := hhandler
    intro k'' hk'' l hl
    obtain rfl := Option.some.inj (hk'.symm.trans hk'')
    rw [htask]
    exact hs k hk l (hadvances.awaits_subset hl)

/-- **No handler waits for the program it has interrupted**, if every interrupt finds the locks free
that its handler may wait for. -/
theorem clear_of_reachable {ok : Core L → CoreEvent ι → Prop}
    (hok : ∀ s e, (system code).Reachable s → ok s e → ClearEvent code s e)
    (h : ((system code).restrict ok).Reachable s) : s.Clear := by
  have hinv : ((system code).restrict ok).Invariant fun s =>
      (system code).Reachable s ∧ s.Clear := by
    refine ⟨?_, ?_⟩
    · rintro s rfl
      exact ⟨.init rfl, clear_of_handler_none rfl⟩
    · rintro s e t ⟨hreach, hs⟩ ⟨hstep, he⟩
      exact ⟨hreach.step hstep, hs.step (hok s e hreach he) hstep⟩
  exact (hinv.of_reachable h).2

/-- One step of the handler. -/
def Handles (code : CoreCode L ι) (s t : Core L) : Prop :=
  ∃ choice, step code s (.handler choice) = some t

variable (code) in
theorem handles_seq {first second : LockProgram L} {k : LockStack L}
    (h : s.handler = some (.run (.seq first second) :: k)) :
    Handles code s { s with handler := some (.run first :: .run second :: k) } := by
  refine ⟨false, ?_⟩
  rw [step, h]
  rfl

variable (code) in
theorem handles_locked {l : L} {body : LockProgram L} {k : LockStack L}
    (h : s.handler = some (.run (.locked l body) :: k)) (htask : l ∉ s.task.held)
    (hk : l ∉ k.held) :
    Handles code s { s with handler := some (.run body :: .release l :: k) } := by
  refine ⟨false, ?_⟩
  rw [step, h]
  simp [LockStack.advance, htask, hk]

/-- A handler that is clear of the program stays so until it returns. -/
theorem Clear.handles (hs : s.Clear) (h : Relation.ReflTransGen (Handles code) s t) : t.Clear := by
  induction h with
  | refl => exact hs
  | tail _ hstep ih =>
    obtain ⟨choice, hstep⟩ := hstep
    exact ih.step (e := .handler choice) trivial hstep

/-- **A lock that is only taken under another is only held with it.** -/
theorem held_of_guarded {outer inner : L} (hcalls : ∀ name, (code.call name).Guarded outer inner)
    (h : (system code).Reachable s) (hinner : inner ∈ s.task.held) : outer ∈ s.task.held := by
  have hinv : (system code).Invariant fun s => s.task.Guarded outer inner := by
    refine ⟨?_, ?_⟩
    · rintro s rfl
      trivial
    · intro s e t hs hstep
      rcases step_cases hstep with ⟨-, -, name, htask⟩ | ⟨hadvances, -⟩ | ⟨-, rfl⟩ | ⟨htask, -⟩
      · rw [htask]
        exact ⟨.inl (hcalls name), trivial⟩
      · exact hs.advances hadvances
      · exact hs
      · rw [htask]
        exact hs
  exact (hinv.of_reachable h).held hinner

end Core
