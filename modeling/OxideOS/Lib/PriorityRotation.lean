import Mathlib.Data.List.Nodup
import Mathlib.Data.List.Sort
import Mathlib.Data.List.Perm.Subperm

/-!
# Turns by priority

A server calls the first of those who wait, and only then sends whoever had the turn before back
into the queue.  The queue is kept in the order of levels, lower numbers first, and within a level
in the order of arrival.  So nobody has two turns in a row while others wait, but this is all that
the levels leave of a rotation: once two share the first level, they have all turns.

## Main definitions

* `Rota`, `Rota.next`, `Rota.turns`: who has the turn and who waits, the next turn, and who has
  the next `k` turns
* `Rota.Balanced`: what is needed for everyone to have one of as many turns as there are members

## Main results

* `Rota.level_turns`: two members of the first level have all turns
* `Rota.turns_perm_of_balanced`, `Rota.balanced_of_nodup_turns`: everyone has one turn exactly when
  the rota is balanced
-/

/-- Who has the turn, and who waits for it. -/
structure Rota (α : Type*) where
  current : Option α
  waiting : List α

namespace Rota

variable {α : Type*} (level : α → ℕ)

/-- Wait behind those of the same level and of the levels before it. -/
def enqueue (a : α) (l : List α) : List α :=
  l.orderedInsert (fun a b => level a < level b) a

/-- The first who waits has the next turn, unless nobody waits. -/
def next : Rota α → Rota α
  | ⟨current, []⟩ => ⟨current, []⟩
  | ⟨none, a :: l⟩ => ⟨some a, l⟩
  | ⟨some c, a :: l⟩ => ⟨some a, enqueue level c l⟩

/-- Who has the next `k` turns. -/
def turns : ℕ → Rota α → List α
  | 0, _ => []
  | k + 1, r => (next level r).current.toList ++ turns k (next level r)

def members (r : Rota α) : List α := r.current.toList ++ r.waiting

/-- Those who wait are in the order of levels. -/
def Sorted (r : Rota α) : Prop := r.waiting.Pairwise fun a b => level a ≤ level b

/-- At most two members, or one level, or three members of whom the one that has the turn is alone
on the first level and the others share one. -/
def Balanced (r : Rota α) : Prop :=
  r.members.length ≤ 2 ∨
    (∀ a ∈ r.members, ∀ b ∈ r.members, level a = level b) ∨
      ∃ c a b, r = ⟨some c, [a, b]⟩ ∧ level c < level a ∧ level a = level b

variable {level} {r : Rota α} {a b c : α} {l l₁ l₂ : List α} {k m : ℕ}

/-! ## The queue -/

theorem enqueue_cons_of_lt (h : level a < level b) (l : List α) :
    enqueue level a (b :: l) = a :: b :: l :=
  if_pos h

theorem enqueue_cons_of_le (h : level b ≤ level a) (l : List α) :
    enqueue level a (b :: l) = b :: enqueue level a l :=
  if_neg (Nat.not_lt.mpr h)

theorem enqueue_append (hle : ∀ b ∈ l₁, level b ≤ level a) (hlt : ∀ b ∈ l₂, level a < level b) :
    enqueue level a (l₁ ++ l₂) = l₁ ++ a :: l₂ := by
  induction l₁ with
  | nil =>
    cases l₂ with
    | nil => rfl
    | cons b l => exact enqueue_cons_of_lt (hlt b List.mem_cons_self) l
  | cons b l ih =>
    rw [List.cons_append, enqueue_cons_of_le (hle b List.mem_cons_self)]
    exact congrArg (b :: ·) (ih fun x hx => hle x (List.mem_cons_of_mem b hx))

theorem enqueue_of_lt (h : ∀ b ∈ l, level a < level b) : enqueue level a l = a :: l :=
  enqueue_append (List.forall_mem_nil _) h

theorem enqueue_of_le (h : ∀ b ∈ l, level b ≤ level a) : enqueue level a l = l ++ [a] := by
  have happend := enqueue_append h (List.forall_mem_nil _)
  rwa [List.append_nil] at happend

theorem perm_enqueue (level : α → ℕ) (a : α) (l : List α) : (enqueue level a l).Perm (a :: l) :=
  List.perm_orderedInsert _ a l

theorem sorted_enqueue (h : l.Pairwise fun a b => level a ≤ level b) (a : α) :
    (enqueue level a l).Pairwise fun a b => level a ≤ level b := by
  induction l with
  | nil => exact List.pairwise_singleton _ a
  | cons b l ih =>
    obtain ⟨hb, hl⟩ := List.pairwise_cons.mp h
    rcases Nat.lt_or_ge (level a) (level b) with hlt | hle
    · rw [enqueue_cons_of_lt hlt]
      refine List.pairwise_cons.mpr ⟨fun x hx => ?_, h⟩
      rcases List.mem_cons.mp hx with rfl | hx
      · exact hlt.le
      · exact hlt.le.trans (hb x hx)
    · rw [enqueue_cons_of_le hle]
      refine List.pairwise_cons.mpr ⟨fun x hx => ?_, ih hl⟩
      rcases List.mem_cons.mp ((perm_enqueue level a l).mem_iff.mp hx) with rfl | hx
      · exact hle
      · exact hb x hx

/-- A search that passes over the newcomer finds what it found before. -/
theorem find?_enqueue {p : α → Bool} (ha : ¬p a) (l : List α) :
    (enqueue level a l).find? p = l.find? p := by
  induction l with
  | nil => exact List.find?_cons_of_neg ha
  | cons b l ih =>
    rcases Nat.lt_or_ge (level a) (level b) with hlt | hle
    · rw [enqueue_cons_of_lt hlt, List.find?_cons_of_neg ha]
    · rw [enqueue_cons_of_le hle, List.find?_cons, List.find?_cons, ih]

/-- Taking out the first of a sorted queue after the newcomer has come is taking it out before. -/
theorem eraseP_enqueue {p : α → Bool} (ha : ¬p a) (hb : p b)
    (h : (b :: l).Pairwise fun a b => level a ≤ level b) :
    (enqueue level a (b :: l)).eraseP p = enqueue level a l := by
  rcases Nat.lt_or_ge (level a) (level b) with hlt | hle
  · have hl : enqueue level a l = a :: l :=
      enqueue_of_lt fun x hx => hlt.trans_le ((List.pairwise_cons.mp h).1 x hx)
    rw [enqueue_cons_of_lt hlt, List.eraseP_cons_of_neg ha, List.eraseP_cons_of_pos hb, hl]
  · rw [enqueue_cons_of_le hle, List.eraseP_cons_of_pos hb]

/-! ## One turn -/

theorem perm_next (r : Rota α) : (next level r).members.Perm r.members := by
  match r with
  | ⟨_, []⟩ => exact .refl _
  | ⟨none, a :: l⟩ => exact .refl _
  | ⟨some c, a :: l⟩ =>
    have hperm : (a :: enqueue level c l).Perm (a :: c :: l) := (perm_enqueue level c l).cons a
    exact hperm.trans (.swap c a l)

theorem Sorted.next (h : r.Sorted level) : (next level r).Sorted level := by
  match r with
  | ⟨_, []⟩ => exact h
  | ⟨none, a :: l⟩ => exact (List.pairwise_cons.mp h).2
  | ⟨some c, a :: l⟩ => exact sorted_enqueue (List.pairwise_cons.mp h).2 c

theorem mem_members_of_current (h : r.current = some a) : a ∈ r.members := by
  rw [members, h]
  exact List.mem_cons_self

theorem current_next_of_waiting (h : r.waiting = a :: l) : (next level r).current = some a := by
  match r, h with
  | ⟨none, a :: l⟩, rfl => rfl
  | ⟨some c, a :: l⟩, rfl => rfl

theorem turns_succ_of_waiting (h : r.waiting = a :: l) :
    turns level (k + 1) r = a :: turns level k (next level r) := by
  rw [turns, current_next_of_waiting h]
  rfl

theorem mem_turns : ∀ {k : ℕ} {r : Rota α}, a ∈ turns level k r → a ∈ r.members
  | 0, _, h => absurd h List.not_mem_nil
  | k + 1, r, h => by
    rcases List.mem_append.mp h with h | h
    · exact (perm_next r).mem_iff.mp (mem_members_of_current (Option.mem_toList.mp h))
    · exact (perm_next r).mem_iff.mp (mem_turns h)

theorem isPrefix_turns : ∀ (j k : ℕ) (r : Rota α), turns level j r <+: turns level (j + k) r
  | 0, _, _ => List.nil_prefix
  | j + 1, k, r => by
    rw [Nat.add_right_comm]
    exact (List.prefix_append_right_inj _).mpr (isPrefix_turns j k (next level r))

theorem nodup_turns_of_le {j : ℕ} (hle : j ≤ k) (h : (turns level k r).Nodup) :
    (turns level j r).Nodup := by
  obtain ⟨i, rfl⟩ := Nat.exists_eq_add_of_le hle
  exact h.sublist (isPrefix_turns j i r).sublist

theorem exists_current_next (level : α → ℕ) (h : r.members ≠ []) :
    ∃ a, (next level r).current = some a := by
  match r, h with
  | ⟨some c, []⟩, _ => exact ⟨c, rfl⟩
  | ⟨_, a :: l⟩, _ => exact ⟨a, current_next_of_waiting rfl⟩

theorem members_next_ne_nil (h : r.members ≠ []) : (next level r).members ≠ [] := by
  obtain ⟨a, ha⟩ := exists_current_next level h
  exact List.ne_nil_of_mem (mem_members_of_current ha)

theorem length_turns : ∀ {k : ℕ} {r : Rota α}, r.members ≠ [] → (turns level k r).length = k
  | 0, _, _ => rfl
  | k + 1, r, h => by
    obtain ⟨a, ha⟩ := exists_current_next level h
    rw [turns, ha, Option.toList_some, List.singleton_append, List.length_cons,
      length_turns (members_next_ne_nil h)]

/-! ## A single level -/

/-- On a single level the turns go round. -/
theorem turns_of_level (hlevel : ∀ a ∈ r.members, level a = m)
    (h : r.waiting ++ r.current.toList = l₁ ++ l₂) : turns level l₁.length r = l₁ := by
  induction l₁ generalizing r l₂ with
  | nil => rfl
  | cons a l ih =>
    have hnext : ∀ a ∈ (next level r).members, level a = m := fun a ha =>
      hlevel a ((perm_next r).mem_iff.mp ha)
    match r, h with
    | ⟨some c, []⟩, h =>
      obtain ⟨rfl, hnil⟩ := List.cons.inj h
      obtain ⟨rfl, -⟩ := List.append_eq_nil_iff.mp hnil.symm
      rfl
    | ⟨none, b :: w⟩, h =>
      obtain ⟨rfl, hw⟩ := List.cons.inj h
      have hline : w ++ [b] = l ++ (l₂ ++ [b]) := by
        rw [← List.append_assoc, ← show w ++ [] = l ++ l₂ from hw, List.append_nil]
      exact congrArg (b :: ·) (ih hnext hline)
    | ⟨some c, b :: w⟩, h =>
      obtain ⟨rfl, hw⟩ := List.cons.inj h
      have hle : ∀ x ∈ w, level x ≤ level c := by
        intro x hx
        have hxw : x ∈ c :: b :: w := List.mem_cons_of_mem c (List.mem_cons_of_mem b hx)
        exact ((hlevel x hxw).trans (hlevel c List.mem_cons_self).symm).le
      have hline : enqueue level c w ++ [b] = l ++ (l₂ ++ [b]) := by
        rw [← List.append_assoc, ← show w ++ [c] = l ++ l₂ from hw, enqueue_of_le hle]
      exact congrArg (b :: ·) (ih hnext hline)

/-! ## Two members of the first level -/

/-- With two members of the first level, one of them waits. -/
theorem exists_waiting (hcount : 2 ≤ r.members.countP fun a => level a = m) :
    ∃ a ∈ r.waiting, level a = m := by
  have hcurrent : r.current.toList.countP (fun a => level a = m) ≤ 1 := by
    refine List.countP_le_length.trans ?_
    cases r.current with
    | none => exact Nat.zero_le 1
    | some c => exact Nat.le_refl 1
  rw [members, List.countP_append] at hcount
  have hpos : 0 < r.waiting.countP fun a => level a = m := by omega
  simpa using List.countP_pos_iff.mp hpos

/-- **Two members of the first level have all turns.** -/
theorem level_turns (hmin : ∀ a ∈ r.members, m ≤ level a) (hsorted : r.Sorted level)
    (hcount : 2 ≤ r.members.countP fun a => level a = m) :
    ∀ a ∈ turns level k r, level a = m := by
  induction k generalizing r with
  | zero => exact fun a ha => absurd ha List.not_mem_nil
  | succ k ih =>
    obtain ⟨b, hb, hbm⟩ := exists_waiting hcount
    obtain ⟨a, l, hwaiting⟩ := List.exists_cons_of_ne_nil (List.ne_nil_of_mem hb)
    have ham : level a = m := by
      have hmem : a ∈ r.members := List.mem_append_right _ (hwaiting ▸ List.mem_cons_self)
      have hle : level a ≤ level b := by
        rw [Sorted, hwaiting, List.pairwise_cons] at hsorted
        rw [hwaiting] at hb
        rcases List.mem_cons.mp hb with rfl | hb
        · exact Nat.le_refl _
        · exact hsorted.1 b hb
      exact Nat.le_antisymm (hle.trans hbm.le) (hmin a hmem)
    rw [turns_succ_of_waiting hwaiting]
    intro x hx
    rcases List.mem_cons.mp hx with rfl | hx
    · exact ham
    · refine ih (fun a ha => hmin a ((perm_next r).mem_iff.mp ha)) hsorted.next ?_ x hx
      rwa [(perm_next r).countP_eq]

/-- So if everyone has a turn, there is only the first level. -/
theorem level_eq_of_nodup_turns (hmin : ∀ a ∈ r.members, m ≤ level a) (hsorted : r.Sorted level)
    (hcount : 2 ≤ r.members.countP fun a => level a = m)
    (h : (turns level r.members.length r).Nodup) : ∀ a ∈ r.members, level a = m := by
  have hne : r.members ≠ [] := by
    rintro hnil
    rw [hnil] at hcount
    cases hcount
  have hsub : turns level r.members.length r ⊆ r.members.filter fun a => level a = m := by
    intro a ha
    exact List.mem_filter.mpr ⟨mem_turns ha, decide_eq_true (level_turns hmin hsorted hcount a ha)⟩
  have hle := (List.subperm_of_subset h hsub).length_le
  rw [length_turns hne] at hle
  have hall := List.length_filter_eq_length_iff.mp
    (Nat.le_antisymm (List.length_filter_le _ _) hle)
  exact fun a ha => of_decide_eq_true (hall a ha)

/-! ## One member of the first level -/

/-- A member alone on the first level has every other turn. -/
theorem turns_of_alone (h : ∀ b ∈ a :: l, level c < level b) :
    turns level (k + 2) ⟨some c, a :: l⟩ =
      a :: c :: turns level k ⟨some c, enqueue level a l⟩ := by
  have hl : enqueue level c l = c :: l :=
    enqueue_of_lt fun b hb => h b (List.mem_cons_of_mem a hb)
  rw [turns_succ_of_waiting rfl, next, hl, turns_succ_of_waiting rfl, next]

/-- So everyone else must have had a turn after three of them. -/
theorem not_nodup_turns_of_alone (hlt : ∀ b ∈ r.current.toList ++ l, level a < level b)
    (hwaiting : r.waiting = a :: l) (hl : r.current.toList ++ l ≠ []) :
    ¬(turns level 3 r).Nodup := by
  have hnext : ∃ x w, next level r = ⟨some a, x :: w⟩ ∧ ∀ b ∈ x :: w, level a < level b := by
    match r, hwaiting with
    | ⟨none, a :: x :: w⟩, rfl => exact ⟨x, w, rfl, hlt⟩
    | ⟨some c, a :: l⟩, rfl =>
      have hperm := perm_enqueue level c l
      obtain ⟨x, w, hxw⟩ := List.exists_cons_of_ne_nil
        (List.ne_nil_of_mem (hperm.mem_iff.mpr List.mem_cons_self))
      refine ⟨x, w, ?_, fun b hb => hlt b (hperm.mem_iff.mp (hxw ▸ hb))⟩
      rw [next, hxw]
  obtain ⟨x, w, hnext, hxw⟩ := hnext
  rw [turns_succ_of_waiting hwaiting, hnext, turns_of_alone hxw]
  simp

/-- If the one alone on the first level has the turn, there is time for two others. -/
theorem balanced_of_alone (hsorted : Sorted level ⟨some c, a :: b :: l⟩)
    (hlt : level c < level a)
    (h : (turns level (members ⟨some c, a :: b :: l⟩).length ⟨some c, a :: b :: l⟩).Nodup) :
    Balanced level ⟨some c, a :: b :: l⟩ := by
  obtain ⟨ha, hl⟩ := List.pairwise_cons.mp hsorted
  have halone : ∀ x ∈ a :: b :: l, level c < level x := by
    intro x hx
    rcases List.mem_cons.mp hx with rfl | hx
    · exact hlt
    · exact hlt.trans_le (ha x hx)
  have hperm := perm_enqueue level a (b :: l)
  cases l with
  | cons d l =>
    have hfour : (turns level 4 ⟨some c, a :: b :: d :: l⟩).Nodup :=
      nodup_turns_of_le (by simp [members]) h
    obtain ⟨x, w, hxw⟩ := List.exists_cons_of_ne_nil
      (List.ne_nil_of_mem (hperm.mem_iff.mpr List.mem_cons_self))
    have hxwlt : ∀ y ∈ x :: w, level c < level y := fun y hy =>
      halone y (hperm.mem_iff.mp (hxw ▸ hy))
    rw [turns_of_alone halone, hxw, turns_of_alone hxwlt] at hfour
    simp at hfour
  | nil =>
    have hab : level a ≤ level b := ha b List.mem_cons_self
    refine .inr (.inr ⟨c, a, b, rfl, hlt, hab.antisymm (Nat.le_of_not_lt fun hba => ?_)⟩)
    have hthree : (turns level 3 ⟨some c, [a, b]⟩).Nodup := h
    have henqueue : enqueue level a [b] = [a, b] := enqueue_of_lt (by simpa using hba)
    rw [turns_of_alone halone, henqueue, turns_succ_of_waiting rfl] at hthree
    simp at hthree

/-! ## Everyone has a turn -/

theorem turns_perm_of_balanced (h : r.Balanced level) :
    (turns level r.members.length r).Perm r.members := by
  rcases h with hlen | hlevel | ⟨c, a, b, rfl, hlt, hab⟩
  · match r, hlen with
    | ⟨none, []⟩, _ => exact .refl _
    | ⟨some c, []⟩, _ => exact .refl _
    | ⟨none, [a]⟩, _ => exact .refl _
    | ⟨some c, [a]⟩, _ => exact .swap c a []
    | ⟨none, [a, b]⟩, _ => exact .refl _
  · have hperm : (r.waiting ++ r.current.toList).Perm r.members := List.perm_append_comm
    rcases hmembers : r.members with _ | ⟨a, l⟩
    · exact .refl _
    · have hm : ∀ x ∈ r.members, level x = level a := fun x hx =>
        hlevel x hx a (hmembers ▸ List.mem_cons_self)
      have hturns := turns_of_level hm (List.append_nil (r.waiting ++ r.current.toList)).symm
      rw [hperm.length_eq, hmembers] at hturns
      rw [hturns, ← hmembers]
      exact hperm
  · have halone : ∀ x ∈ [a, b], level c < level x := by simp [hlt, ← hab]
    have henqueue : enqueue level a [b] = [b, a] := enqueue_of_le (by simp [hab])
    have hturns : turns level 3 ⟨some c, [a, b]⟩ = [a, c, b] := by
      rw [turns_of_alone halone, henqueue]
      rfl
    exact (hturns ▸ List.Perm.swap c a [b])

theorem balanced_of_nodup_turns (hsorted : r.Sorted level)
    (h : (turns level r.members.length r).Nodup) : r.Balanced level := by
  by_cases hlen : r.members.length ≤ 2
  · exact .inl hlen
  have hthree : (turns level 3 r).Nodup := nodup_turns_of_le (Nat.lt_of_not_le hlen) h
  have hshared : ∀ m, (∀ x ∈ r.members, m ≤ level x) →
      2 ≤ r.members.countP (fun x => level x = m) → r.Balanced level := by
    intro m hmin hcount
    have hm := level_eq_of_nodup_turns hmin hsorted hcount h
    exact .inr (.inl fun a ha b hb => (hm a ha).trans (hm b hb).symm)
  match r, hlen with
  | ⟨some c, []⟩, hlen => simp [members] at hlen
  | ⟨none, []⟩, hlen => simp [members] at hlen
  | ⟨current, [a]⟩, hlen => cases current <;> simp [members] at hlen
  | ⟨current, a :: b :: l⟩, hlen =>
    obtain ⟨ha, -⟩ := List.pairwise_cons.mp hsorted
    by_cases hfirst : ∃ c, current = some c ∧ level c < level a
    · obtain ⟨c, rfl, hlt⟩ := hfirst
      exact balanced_of_alone hsorted hlt h
    · have hperm : (members ⟨current, a :: b :: l⟩).Perm (a :: (current.toList ++ b :: l)) :=
        List.perm_middle
      have hmin : ∀ x ∈ current.toList ++ b :: l, level a ≤ level x := by
        intro x hx
        rcases List.mem_append.mp hx with hx | hx
        · exact Nat.le_of_not_lt fun hlt => hfirst ⟨x, Option.mem_toList.mp hx, hlt⟩
        · exact ha x hx
      by_cases halone : ∀ x ∈ current.toList ++ b :: l, level a < level x
      · exact absurd hthree (not_nodup_turns_of_alone halone rfl (by simp))
      · push Not at halone
        obtain ⟨x, hx, hxa⟩ := halone
        refine hshared (level a) (fun y hy => ?_) ?_
        · rcases List.mem_cons.mp (hperm.mem_iff.mp hy) with rfl | hy
          · exact Nat.le_refl _
          · exact hmin y hy
        · have hpos : 0 < (current.toList ++ b :: l).countP fun y => level y = level a :=
            List.countP_pos_iff.mpr ⟨x, hx, decide_eq_true (hxa.antisymm (hmin x hx))⟩
          rw [hperm.countP_eq, List.countP_cons_of_pos (by simp)]
          exact Nat.succ_le_succ hpos

end Rota
