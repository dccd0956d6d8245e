import OxideOS.Lib.LockProgram
import Mathlib.Data.Finset.Max
import Mathlib.Data.Fintype.Basic
import Mathlib.Data.List.FinRange

/-!
# Threads that take locks in order

Any number of threads run programs over the same locks, interleaved in any way.  The locks have
ranks, and a program is ascending if it waits for a lock only while all locks that it holds have
lower ranks; attempts that give up when the lock is taken are free.  If all programs are ascending,
a thread that waits for a lock waits for one that holds it and, if that one waits too, waits for a
lock of higher rank.  So not all of them wait, and whatever the threads are doing, one can go on.

## Main definitions

* `LockProgram.Ascending`: a program waits for locks in the order of their ranks
* `Threads`, `Threads.step`, `Threads.system`: threads that run programs, interleaved
* `Threads.Waits`: a thread waits for a lock

## Main results

* `Threads.ordered_of_reachable`: what all reachable states have in common
* `Threads.Ordered.exists_holder`: who waits, waits for another thread
* `Threads.Ordered.exists_advance`: if a thread has something to do, some thread can go on
-/

namespace LockProgram

variable {L : Type} (rank : L → ℕ)

/-- The program waits for locks in the order of their ranks, the first one of rank `lo` or more. -/
def Ascending (lo : ℕ) : LockProgram L → Prop
  | skip => True
  | seq first second => first.Ascending lo ∧ second.Ascending lo
  | locked l body => lo ≤ rank l ∧ body.Ascending (rank l + 1)
  | tryLocked l body => body.Ascending (max (rank l + 1) lo)
  | either left right => left.Ascending lo ∧ right.Ascending lo
  | loop body => body.Ascending lo
  | masked body => body.Ascending lo

instance decidableAscending : (lo : ℕ) → (p : LockProgram L) → Decidable (p.Ascending rank lo)
  | _, skip => .isTrue trivial
  | lo, seq first second =>
    have := decidableAscending lo first
    have := decidableAscending lo second
    inferInstanceAs (Decidable (_ ∧ _))
  | _, locked l body =>
    have := decidableAscending (rank l + 1) body
    inferInstanceAs (Decidable (_ ∧ _))
  | lo, tryLocked l body => decidableAscending (max (rank l + 1) lo) body
  | lo, either left right =>
    have := decidableAscending lo left
    have := decidableAscending lo right
    inferInstanceAs (Decidable (_ ∧ _))
  | lo, loop body => decidableAscending lo body
  | lo, masked body => decidableAscending lo body

/-- The program with its locks under other names. -/
def map {L' : Type} (f : L → L') : LockProgram L → LockProgram L'
  | skip => skip
  | seq first second => seq (first.map f) (second.map f)
  | locked l body => locked (f l) (body.map f)
  | tryLocked l body => tryLocked (f l) (body.map f)
  | either left right => either (left.map f) (right.map f)
  | loop body => loop (body.map f)
  | masked body => masked (body.map f)

end LockProgram

namespace LockStack

open LockProgram LockFrame

variable {L : Type} (rank : L → ℕ)

/-- The least rank above all locks that are held. -/
def bound (k : LockStack L) : ℕ := k.held.foldr (fun l lo => max (rank l + 1) lo) 0

/-- What is left to be done waits for locks in order, given what is held below it. -/
def Ascending : LockStack L → Prop
  | [] => True
  | run p :: k => p.Ascending rank (bound rank k) ∧ Ascending k
  | release _ :: k => Ascending k
  | unmask :: k => Ascending k

variable {rank} {k k' : LockStack L} {l : L}

theorem lt_bound (hl : l ∈ k.held) : rank l < bound rank k := by
  have hfold : ∀ locks : List L, l ∈ locks →
      rank l < locks.foldr (fun l lo => max (rank l + 1) lo) 0 := by
    intro locks hmem
    induction locks with
    | nil => cases hmem
    | cons l' locks ih =>
      rw [List.foldr_cons, lt_max_iff]
      rcases List.mem_cons.mp hmem with rfl | hmem
      · exact .inl (Nat.lt_succ_self _)
      · exact .inr (ih hmem)
  exact hfold k.held hl

theorem Ascending.tail {f : LockFrame L} (h : Ascending rank (f :: k)) : Ascending rank k := by
  cases f with
  | run p => exact h.2
  | release l => exact h
  | unmask => exact h

/-- A step keeps what is left in order. -/
theorem Ascending.advances (h : k.Ascending rank) (hstep : Advances k k') : k'.Ascending rank := by
  cases hstep with
  | drop f k => exact h.tail
  | split first second k => exact ⟨h.1.1, h.1.2, h.2⟩
  | lock l body k =>
    obtain ⟨⟨hlo, hbody⟩, hk⟩ := h
    refine ⟨?_, hk⟩
    change body.Ascending rank (max (rank l + 1) (bound rank k))
    rwa [max_eq_left (hlo.trans (Nat.le_succ _))]
  | tryLock l body k => exact h
  | left left right k => exact ⟨h.1.1, h.2⟩
  | right left right k => exact ⟨h.1.2, h.2⟩
  | again body k => exact ⟨h.1, h.1, h.2⟩
  | mask body k => exact h

variable [DecidableEq L] {taken : List L} {choice : Bool}

/-- Only who waits for a lock that is taken makes no step. -/
theorem advance_eq_none (h : advance taken choice k = none) :
    k = [] ∨ ∃ l body k', k = run (.locked l body) :: k' ∧ (l ∈ taken ∨ l ∈ held k') := by
  cases k with
  | nil => exact .inl rfl
  | cons f k =>
    cases f with
    | release l => cases h
    | unmask => cases h
    | run p =>
      cases p with
      | locked l body =>
        rw [advance] at h
        split_ifs at h with htaken
        exact .inr ⟨l, body, k, rfl, htaken⟩
      | tryLocked l body =>
        rw [advance] at h
        split_ifs at h
      | _ => cases h

/-- A step takes one free lock, releases one, or changes nothing that is held. -/
theorem held_advance (h : advance taken choice k = some k') :
    k'.held = k.held ∨ (∃ l, k.held = l :: k'.held) ∨
      ∃ l, l ∉ taken ∧ l ∉ k.held ∧ k'.held = l :: k.held := by
  cases id (advances_of_advance h) with
  | drop f k =>
    cases f with
    | release l => exact .inr (.inl ⟨l, rfl⟩)
    | _ => exact .inl rfl
  | lock l body k =>
    rw [advance] at h
    split_ifs at h with htaken
    rw [not_or] at htaken
    exact .inr (.inr ⟨l, htaken.1, htaken.2, rfl⟩)
  | tryLock l body k =>
    rw [advance] at h
    split_ifs at h with htaken
    · have hlength := congrArg List.length (Option.some.inj h)
      rw [List.length_cons, List.length_cons] at hlength
      omega
    · rw [not_or] at htaken
      exact .inr (.inr ⟨l, htaken.1, htaken.2, rfl⟩)
  | _ => exact .inl rfl

end LockStack

/-! ## Threads -/

/-- What each thread has left to do. -/
abbrev Threads (n : ℕ) (L : Type) := Fin n → LockStack L

/-- What happens next: a thread that has nothing to do calls a program, or a thread takes a step. -/
inductive ThreadEvent (n : ℕ) (ι : Type) where
  | call (i : Fin n) (name : ι)
  | step (i : Fin n) (choice : Bool)

namespace Threads

open LockFrame

variable {n : ℕ} {L ι : Type}

/-- No thread has anything to do. -/
def idle : Threads n L := fun _ => []

/-- The locks that the other threads hold. -/
def taken (s : Threads n L) (i : Fin n) : List L :=
  ((List.finRange n).filter (· ≠ i)).flatMap fun j => (s j).held

/-- Thread `i` is at a lock that is not free. -/
def Waits (s : Threads n L) (i : Fin n) (l : L) : Prop :=
  ∃ (body : LockProgram L) (k : LockStack L),
    s i = run (.locked l body) :: k ∧ (l ∈ s.taken i ∨ l ∈ k.held)

def step [DecidableEq L] (code : ι → LockProgram L) (s : Threads n L) :
    ThreadEvent n ι → Option (Threads n L)
  | .call i name => if (s i).isEmpty then some (Function.update s i [run (code name)]) else none
  | .step i choice => ((s i).advance (s.taken i) choice).map fun k => Function.update s i k

/-- Any calls of the threads, interleaved in any way. -/
def system [DecidableEq L] (n : ℕ) (code : ι → LockProgram L) :
    TransitionSystem (Threads n L) (ThreadEvent n ι) :=
  .ofPartial idle (step code)

variable {s t : Threads n L} {l : L} {i j : Fin n}

theorem mem_taken : l ∈ s.taken i ↔ ∃ j, j ≠ i ∧ l ∈ (s j).held := by
  simp [taken]

/-- What all states of the threads have in common, where the programs are ascending. -/
structure Ordered (rank : L → ℕ) (s : Threads n L) : Prop where
  ascending : ∀ i, (s i).Ascending rank
  nodup : ∀ i, (s i).held.Nodup
  exclusive : ∀ i j l, l ∈ (s i).held → l ∈ (s j).held → i = j

theorem ordered_idle (rank : L → ℕ) : Ordered rank (idle : Threads n L) where
  ascending _ := trivial
  nodup _ := List.nodup_nil
  exclusive _ _ _ h := by cases h

variable {rank : L → ℕ}

/-- One thread goes on, with the locks that it had and perhaps one that was free. -/
theorem Ordered.update {k : LockStack L} (h : s.Ordered rank) (hk : k.Ascending rank)
    (hnodup : k.held.Nodup) (hheld : ∀ l ∈ k.held, l ∈ (s i).held ∨ l ∉ s.taken i) :
    Ordered rank (Function.update s i k) where
  ascending := (Function.forall_update_iff s fun _ k => k.Ascending rank).mpr
    ⟨hk, fun j _ => h.ascending j⟩
  nodup := (Function.forall_update_iff s fun _ k => k.held.Nodup).mpr
    ⟨hnodup, fun j _ => h.nodup j⟩
  exclusive := by
    have hother : ∀ j l, j ≠ i → l ∈ k.held → l ∉ (s j).held := by
      intro j l hj hl hlj
      rcases hheld l hl with hown | hfree
      · exact hj (h.exclusive j i l hlj hown)
      · exact hfree (mem_taken.mpr ⟨j, hj, hlj⟩)
    intro a b l ha hb
    by_cases hai : a = i <;> by_cases hbi : b = i
    · rw [hai, hbi]
    · subst hai
      rw [Function.update_self] at ha
      rw [Function.update_of_ne hbi] at hb
      exact absurd hb (hother b l hbi ha)
    · subst hbi
      rw [Function.update_self] at hb
      rw [Function.update_of_ne hai] at ha
      exact absurd ha (hother a l hai hb)
    · rw [Function.update_of_ne hai] at ha
      rw [Function.update_of_ne hbi] at hb
      exact h.exclusive a b l ha hb

variable [DecidableEq L] {code : ι → LockProgram L}

theorem Ordered.step (hcode : ∀ name, (code name).Ascending rank 0) (h : s.Ordered rank)
    {e : ThreadEvent n ι} (hstep : step code s e = some t) : t.Ordered rank := by
  cases e with
  | call i name =>
    rw [Threads.step] at hstep
    split_ifs at hstep
    obtain rfl := Option.some.inj hstep
    exact h.update ⟨hcode name, trivial⟩ List.nodup_nil (List.forall_mem_nil _)
  | step i choice =>
    obtain ⟨k, hadvance, rfl⟩ := Option.map_eq_some_iff.mp hstep
    have hk := (h.ascending i).advances (LockStack.advances_of_advance hadvance)
    rcases LockStack.held_advance hadvance with hsame | ⟨l, hfree⟩ | ⟨l, htaken, hown, htook⟩
    · exact h.update hk (hsame ▸ h.nodup i) fun l hl => .inl (hsame ▸ hl)
    · refine h.update hk ?_ fun l' hl' => .inl ?_
      · exact (List.nodup_cons.mp (hfree ▸ h.nodup i)).2
      · rw [hfree]
        exact List.mem_cons_of_mem _ hl'
    · refine h.update hk ?_ fun l' hl' => ?_
      · rw [htook]
        exact List.nodup_cons.mpr ⟨hown, h.nodup i⟩
      · rw [htook] at hl'
        rcases List.mem_cons.mp hl' with rfl | hl'
        · exact .inr htaken
        · exact .inl hl'

theorem ordered_of_reachable (hcode : ∀ name, (code name).Ascending rank 0)
    (h : (system n code).Reachable s) : s.Ordered rank := by
  refine TransitionSystem.Invariant.of_reachable ⟨?_, ?_⟩ h
  · rintro s rfl
    exact ordered_idle rank
  · intro s e t hs hstep
    exact hs.step hcode hstep

/-! ## No deadlock -/

omit [DecidableEq L] in
/-- A thread that waits holds locks of lower rank only. -/
theorem Ordered.rank_lt (h : s.Ordered rank) (hwaits : s.Waits i l) {l' : L}
    (hheld : l' ∈ (s i).held) : rank l' < rank l := by
  obtain ⟨body, k, hi, -⟩ := hwaits
  have hascending := h.ascending i
  rw [hi] at hheld hascending
  exact (LockStack.lt_bound hheld).trans_le hascending.1.1

omit [DecidableEq L] in
/-- Who waits, waits for another thread. -/
theorem Ordered.exists_holder (h : s.Ordered rank) (hwaits : s.Waits i l) :
    ∃ j, j ≠ i ∧ l ∈ (s j).held := by
  obtain ⟨body, k, hi, htaken | hown⟩ := id hwaits
  · exact mem_taken.mp htaken
  · have hheld : l ∈ (s i).held := by rwa [hi]
    exact absurd (h.rank_lt hwaits hheld) (Nat.lt_irrefl _)

theorem waits_of_advance_eq_none {choice : Bool} (hbusy : s i ≠ [])
    (h : (s i).advance (s.taken i) choice = none) : ∃ l, s.Waits i l := by
  rcases LockStack.advance_eq_none h with hidle | ⟨l, body, k, hi, htaken⟩
  · exact absurd hidle hbusy
  · exact ⟨l, body, k, hi, htaken⟩

/-- **If a thread has something to do, some thread can go on.** -/
theorem Ordered.exists_advance (h : s.Ordered rank) (hbusy : ∃ i, s i ≠ []) (choice : Bool) :
    ∃ i k, (s i).advance (s.taken i) choice = some k := by
  by_contra hnone
  push Not at hnone
  have hwaits : ∀ i, s i ≠ [] → ∃ l, s.Waits i l := fun i hi =>
    waits_of_advance_eq_none hi (Option.eq_none_iff_forall_not_mem.mpr (hnone i))
  obtain ⟨i₀, hi₀⟩ := hbusy
  obtain ⟨l₀, -⟩ := hwaits i₀ hi₀
  have : Nonempty L := ⟨l₀⟩
  choose! lock hlock using hwaits
  obtain ⟨i, hi, hmax⟩ := Finset.exists_max_image (Finset.univ.filter fun i => s i ≠ [])
    (fun i => rank (lock i)) ⟨i₀, Finset.mem_filter.mpr ⟨Finset.mem_univ i₀, hi₀⟩⟩
  have hbusy := (Finset.mem_filter.mp hi).2
  obtain ⟨j, -, hj⟩ := h.exists_holder (hlock i hbusy)
  have hjbusy : s j ≠ [] := by
    intro hidle
    rw [hidle] at hj
    cases hj
  have hle := hmax j (Finset.mem_filter.mpr ⟨Finset.mem_univ j, hjbusy⟩)
  exact (h.rank_lt (hlock j hjbusy) hj).not_ge hle

end Threads
