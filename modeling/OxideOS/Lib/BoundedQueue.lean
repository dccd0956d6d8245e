import OxideOS.Lib.TransitionSystem
import Mathlib.Logic.Function.Basic
import Mathlib.Tactic.Common

/-!
# Bounded queues

A family of queues under keys, as a transition system. A queue is opened empty, also when there was
one before, and closed; between the two, items are put at its end while it holds less than the
capacity, and taken from its front.

Since a queue was opened last, what was taken from it followed by what it holds is what was put into
it, in that order.
-/

universe u v

/-- What happens to one of the queues. -/
inductive QueueEvent (κ : Type u) (α : Type v)
  | opened (key : κ)
  | closed (key : κ)
  | put (key : κ) (a : α)
  | took (key : κ) (a : α)

namespace QueueEvent

variable {κ : Type u} {α : Type v}

/-- The queue that it happens to. -/
def key : QueueEvent κ α → κ
  | opened key => key
  | closed key => key
  | put key _ => key
  | took key _ => key

/-- The queue is opened or closed. -/
def Resets (k : κ) : QueueEvent κ α → Prop
  | opened key => key = k
  | closed key => key = k
  | _ => False

variable [DecidableEq κ]

/-- The items put into a queue, in order. -/
def putTo (k : κ) (events : List (QueueEvent κ α)) : List α :=
  events.filterMap fun
    | put key a => if key = k then some a else none
    | _ => none

/-- The items taken from a queue, in order. -/
def tookFrom (k : κ) (events : List (QueueEvent κ α)) : List α :=
  events.filterMap fun
    | took key a => if key = k then some a else none
    | _ => none

end QueueEvent

/-- The open queues, each with the items it holds from front to end. -/
abbrev QueueMap (κ : Type u) (α : Type v) := κ → Option (List α)

namespace QueueMap

variable {κ : Type u} {α : Type v} [DecidableEq κ]

open QueueEvent Function

/-- What one event does to queues of a capacity. -/
inductive Step (capacity : Nat) (q : QueueMap κ α) : QueueEvent κ α → QueueMap κ α → Prop
  | opened (key : κ) : Step capacity q (.opened key) (update q key (some []))
  | closed (key : κ) : Step capacity q (.closed key) (update q key none)
  | put {key : κ} {a : α} {items : List α} (hitems : q key = some items)
      (hroom : items.length < capacity) :
      Step capacity q (.put key a) (update q key (some (items ++ [a])))
  | took {key : κ} {a : α} {items : List α} (hitems : q key = some (a :: items)) :
      Step capacity q (.took key a) (update q key (some items))

/-- The queues of a capacity, none of them open at first. -/
def system (κ : Type u) (α : Type v) [DecidableEq κ] (capacity : Nat) :
    TransitionSystem (QueueMap κ α) (QueueEvent κ α) where
  Init q := q = fun _ => none
  Step := Step capacity

variable {capacity : Nat} {q q' : QueueMap κ α} {e : QueueEvent κ α}
  {events : List (QueueEvent κ α)} {k : κ} {items : List α}

/-- An event leaves the other queues alone. -/
theorem Step.eq_of_key_ne (h : Step capacity q e q') (hk : e.key ≠ k) : q' k = q k := by
  cases h with
  | opened key => exact update_of_ne (Ne.symm hk) _ _
  | closed key => exact update_of_ne (Ne.symm hk) _ _
  | put _ _ => exact update_of_ne (Ne.symm hk) _ _
  | took _ => exact update_of_ne (Ne.symm hk) _ _

theorem eq_of_forall_key_ne (h : (system κ α capacity).Run q events q')
    (hk : ∀ e ∈ events, e.key ≠ k) : q' k = q k := by
  induction h with
  | nil q => rfl
  | @cons q q₁ q₂ e events hstep _ ih =>
    rw [ih fun e' he' => hk e' (List.mem_cons_of_mem e he')]
    exact Step.eq_of_key_ne hstep (hk e List.mem_cons_self)

/-- An event that neither opens nor closes an open queue takes at most an item from its front, or
puts one at its end. -/
theorem Step.fifo (h : Step capacity q e q') (hreset : ¬ e.Resets k) (hitems : q k = some items) :
    ∃ items', q' k = some items' ∧ tookFrom k [e] ++ items' = items ++ putTo k [e] := by
  by_cases hk : e.key = k
  · cases h with
    | opened key => exact absurd hk hreset
    | closed key => exact absurd hk hreset
    | @put key a items₁ hitems₁ hroom =>
      obtain rfl : key = k := hk
      obtain rfl := Option.some.inj (hitems₁.symm.trans hitems)
      exact ⟨items₁ ++ [a], update_self .., by simp [tookFrom, putTo]⟩
    | @took key a items₁ hitems₁ =>
      obtain rfl : key = k := hk
      obtain rfl := Option.some.inj (hitems₁.symm.trans hitems)
      exact ⟨items₁, update_self .., by simp [tookFrom, putTo]⟩
  · refine ⟨items, (h.eq_of_key_ne hk).trans hitems, ?_⟩
    cases e with
    | opened key => simp [tookFrom, putTo]
    | closed key => simp [tookFrom, putTo]
    | put key a => simp [tookFrom, putTo, show ¬ key = k from hk]
    | took key a => simp [tookFrom, putTo, show ¬ key = k from hk]

theorem fifo_of_open (h : (system κ α capacity).Run q events q')
    (hreset : ∀ e ∈ events, ¬ e.Resets k) (hitems : q k = some items) :
    ∃ items', q' k = some items' ∧ tookFrom k events ++ items' = items ++ putTo k events := by
  induction h generalizing items with
  | nil q => exact ⟨items, hitems, by simp [tookFrom, putTo]⟩
  | @cons q q₁ q₂ e events hstep _ ih =>
    obtain ⟨items₁, hitems₁, heq₁⟩ :=
      Step.fifo hstep (hreset e List.mem_cons_self) hitems
    obtain ⟨items₂, hitems₂, heq₂⟩ :=
      ih (fun e' he' => hreset e' (List.mem_cons_of_mem e he')) hitems₁
    refine ⟨items₂, hitems₂, ?_⟩
    have htook : tookFrom k (e :: events) = tookFrom k [e] ++ tookFrom k events :=
      List.filterMap_append (l := [e])
    have hput : putTo k (e :: events) = putTo k [e] ++ putTo k events :=
      List.filterMap_append (l := [e])
    calc tookFrom k (e :: events) ++ items₂
        = tookFrom k [e] ++ (tookFrom k events ++ items₂) := by rw [htook, List.append_assoc]
      _ = (tookFrom k [e] ++ items₁) ++ putTo k events := by rw [heq₂, List.append_assoc]
      _ = items ++ putTo k (e :: events) := by rw [heq₁, hput, List.append_assoc]

/-- Where items are only put, they are at the end. -/
theorem eq_of_forall_put (h : (system κ α capacity).Run q events q')
    (hput : ∀ e ∈ events, ∃ key a, e = .put key a) :
    q' k = (q k).map (· ++ putTo k events) := by
  induction h with
  | nil q => simp [putTo]
  | @cons q q₁ q₂ e events hstep _ ih =>
    rw [ih fun e' he' => hput e' (List.mem_cons_of_mem e he')]
    obtain ⟨key, a, rfl⟩ := hput e List.mem_cons_self
    cases hstep with
    | @put _ _ items hitems hroom =>
      by_cases hk : key = k
      · subst hk
        simp [update_self, hitems, putTo]
      · rw [update_of_ne (Ne.symm hk)]
        simp [putTo, hk]

/-- **First in, first out.** Since a queue was opened last, what was taken from it followed by what
it holds is what was put into it. -/
theorem fifo {before during : List (QueueEvent κ α)}
    (h : (system κ α capacity).Run q (before ++ .opened k :: during) q')
    (hreset : ∀ e ∈ during, ¬ e.Resets k) :
    ∃ items, q' k = some items ∧ tookFrom k during ++ items = putTo k during := by
  obtain ⟨q₁, -, hrun⟩ := TransitionSystem.run_append_iff.mp h
  cases hrun with
  | cons hstep hduring =>
    cases hstep with
    | opened => exact fifo_of_open hduring hreset (update_self ..)

/-- What a queue holds it held before, or it was put there. -/
theorem Step.mem {items' : List α} {a : α} (h : Step capacity q e q') (hitems : q' k = some items')
    (ha : a ∈ items') : (∃ items, q k = some items ∧ a ∈ items) ∨ e = .put k a := by
  by_cases hk : e.key = k
  · cases h with
    | opened key =>
      obtain rfl : key = k := hk
      rw [update_self] at hitems
      obtain rfl := Option.some.inj hitems
      cases ha
    | closed key =>
      obtain rfl : key = k := hk
      rw [update_self] at hitems
      cases hitems
    | @put key b items hitems₁ hroom =>
      obtain rfl : key = k := hk
      rw [update_self] at hitems
      obtain rfl := Option.some.inj hitems
      rcases List.mem_append.mp ha with hold | hnew
      · exact .inl ⟨items, hitems₁, hold⟩
      · rw [List.mem_singleton.mp hnew]
        exact .inr rfl
    | @took key b items hitems₁ =>
      obtain rfl : key = k := hk
      rw [update_self] at hitems
      obtain rfl := Option.some.inj hitems
      exact .inl ⟨_, hitems₁, List.mem_cons_of_mem _ ha⟩
  · rw [h.eq_of_key_ne hk] at hitems
    exact .inl ⟨items', hitems, ha⟩

theorem mem_of_run {items' : List α} {a : α} (h : (system κ α capacity).Run q events q')
    (hitems : q' k = some items') (ha : a ∈ items') :
    (∃ items, q k = some items ∧ a ∈ items) ∨ .put k a ∈ events := by
  induction h with
  | nil q => exact .inl ⟨items', hitems, ha⟩
  | @cons q q₁ q₂ e events hstep _ ih =>
    rcases ih hitems with ⟨items, hitems₁, hmem⟩ | hput
    · rcases Step.mem hstep hitems₁ hmem with hbefore | rfl
      · exact .inl hbefore
      · exact .inr List.mem_cons_self
    · exact .inr (List.mem_cons_of_mem _ hput)

/-- **No queue exceeds the capacity.** -/
theorem length_le (h : (system κ α capacity).Reachable q) :
    ∀ k items, q k = some items → items.length ≤ capacity := by
  refine TransitionSystem.Invariant.of_reachable
    (P := fun q => ∀ k items, q k = some items → items.length ≤ capacity) ⟨?_, ?_⟩ h
  · rintro q rfl k items hitems
    cases hitems
  · intro q e q' hq hstep k items hitems
    by_cases hk : e.key = k
    · cases hstep with
      | opened key =>
        obtain rfl : key = k := hk
        rw [update_self] at hitems
        obtain rfl := Option.some.inj hitems
        exact Nat.zero_le _
      | closed key =>
        obtain rfl : key = k := hk
        rw [update_self] at hitems
        cases hitems
      | @put key a items₁ hitems₁ hroom =>
        obtain rfl : key = k := hk
        rw [update_self] at hitems
        obtain rfl := Option.some.inj hitems
        rw [List.length_append]
        exact hroom
      | @took key a items₁ hitems₁ =>
        obtain rfl : key = k := hk
        rw [update_self] at hitems
        obtain rfl := Option.some.inj hitems
        exact Nat.le_of_succ_le (hq _ _ hitems₁)
    · exact hq k items ((Step.eq_of_key_ne hstep hk).symm.trans hitems)

end QueueMap
