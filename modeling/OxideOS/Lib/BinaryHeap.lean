import Mathlib.Data.List.MinMax
import Mathlib.Data.List.Rotate

/-!
# Binary heaps up to their arrangement

A binary heap is kept as the list of its elements in any order.  Which element is on top is left to
a rule, of which no more is known than that the element is in the heap and that none is greater: so
whatever is proved holds however the heap is arranged and however it breaks ties.
-/

universe u

/-- Which element of a heap is on top: one of the greatest. -/
structure HeapRule (α : Type u) [Ord α] where
  peek : List α → Option α
  eq_nil_of_peek : ∀ {heap}, peek heap = none → heap = []
  mem_of_peek : ∀ {heap x}, peek heap = some x → x ∈ heap
  not_gt_of_peek : ∀ {heap x}, peek heap = some x → ∀ y ∈ heap, compare y x ≠ .gt

namespace HeapRule

variable {α : Type u} [Ord α] [DecidableEq α] (rule : HeapRule α) (p : α → Bool)

/-- Take the element on top: the element, and what is left. -/
def pop (heap : List α) : Option (α × List α) :=
  (rule.peek heap).map fun x => (x, heap.erase x)

/-- Pop while the element on top meets the condition, at most so many times: what was popped, in
order, and what is left. -/
def popAtMost : Nat → List α → List α × List α
  | 0, heap => ([], heap)
  | n + 1, heap =>
    match rule.peek heap with
    | none => ([], heap)
    | some x =>
      if p x then
        let (popped, rest) := popAtMost n (heap.erase x)
        (x :: popped, rest)
      else ([], heap)

/-- Pop while the element on top meets the condition. -/
def popWhile (heap : List α) : List α × List α := rule.popAtMost p heap.length heap

/-- If the greatest elements are those of least rank: the first of them is on top when the elements
are gone through in a circle from the one with index `n`. -/
def ofRank {β : Type*} [LinearOrder β] (rank : α → β)
    (h : ∀ x y, compare y x ≠ .gt ↔ rank x ≤ rank y) (n : Nat) : HeapRule α where
  peek heap := (heap.rotate n).argmin rank
  eq_nil_of_peek hpeek := List.rotate_eq_nil_iff.mp (List.argmin_eq_none.mp hpeek)
  mem_of_peek hpeek := List.mem_rotate.mp (List.argmin_mem hpeek)
  not_gt_of_peek hpeek y hy :=
    (h _ y).mpr (List.le_of_mem_argmin (List.mem_rotate.mpr hy) hpeek)

/-- Every element of least rank is on top of some heap. -/
theorem ofRank_peek {β : Type*} [LinearOrder β] {rank : α → β}
    {h : ∀ x y, compare y x ≠ .gt ↔ rank x ≤ rank y} {heap : List α} {x : α} (hmem : x ∈ heap)
    (hleast : ∀ y ∈ heap, rank x ≤ rank y) :
    (ofRank rank h (heap.idxOf x)).peek heap = some x := by
  have hlt : heap.idxOf x < heap.length := List.idxOf_lt_length_of_mem hmem
  have hrotate : heap.rotate (heap.idxOf x) =
      x :: (heap.drop (heap.idxOf x + 1) ++ heap.take (heap.idxOf x)) := by
    rw [List.rotate_eq_drop_append_take (Nat.le_of_lt hlt), List.drop_eq_getElem_cons hlt,
      List.getElem_idxOf hlt, List.cons_append]
  have hargmin : (heap.rotate (heap.idxOf x)).argmin rank = some x := by
    refine List.argmin_eq_some_iff.mpr ⟨List.mem_rotate.mpr hmem, fun y hy => ?_, fun y _ _ => ?_⟩
    · exact hleast y (List.mem_rotate.mp hy)
    · rw [hrotate, List.idxOf_cons_self]
      exact Nat.zero_le _
  exact hargmin

variable {p}

theorem pop_eq_some {heap rest : List α} {x : α} (h : rule.pop heap = some (x, rest)) :
    x ∈ heap ∧ rest = heap.erase x ∧ ∀ y ∈ heap, compare y x ≠ .gt := by
  obtain ⟨y, hpeek, heq⟩ := Option.map_eq_some_iff.mp h
  obtain ⟨rfl, rfl⟩ := Prod.mk.inj heq
  exact ⟨rule.mem_of_peek hpeek, rfl, rule.not_gt_of_peek hpeek⟩

theorem pop_eq_none {heap : List α} (h : rule.pop heap = none) : heap = [] :=
  rule.eq_nil_of_peek (Option.map_eq_none_iff.mp h)

theorem popAtMost_perm (hp : ∀ x y, compare y x ≠ .gt → p y → p x) (n : Nat) (heap : List α)
    (hn : heap.length ≤ n) :
    (rule.popAtMost p n heap).1.Perm (heap.filter p) ∧
      (rule.popAtMost p n heap).2.Perm (heap.filter fun x => !p x) := by
  induction n generalizing heap with
  | zero =>
    obtain rfl := List.length_eq_zero_iff.mp (Nat.le_zero.mp hn)
    exact ⟨.refl _, .refl _⟩
  | succ n ih =>
    rw [popAtMost]
    cases hpeek : rule.peek heap with
    | none =>
      obtain rfl := rule.eq_nil_of_peek hpeek
      exact ⟨.refl _, .refl _⟩
    | some x =>
      have hmem := rule.mem_of_peek hpeek
      have hperm := List.perm_cons_erase hmem
      by_cases hpx : p x
      · have hlength : (heap.erase x).length ≤ n := by
          rw [List.length_erase_of_mem hmem]
          omega
        obtain ⟨hpopped, hrest⟩ := ih (heap.erase x) hlength
        simp only [hpx, if_true]
        refine ⟨?_, hrest.trans ?_⟩
        · have hfilter := hperm.filter p
          rw [List.filter_cons_of_pos hpx] at hfilter
          exact (hpopped.cons x).trans hfilter.symm
        · have hfilter := hperm.filter fun x => !p x
          rw [List.filter_cons_of_neg (by simp [hpx])] at hfilter
          exact hfilter.symm
      · have hnone : ∀ y ∈ heap, ¬p y = true := fun y hy hpy =>
          hpx (hp x y (rule.not_gt_of_peek hpeek y hy) hpy)
        simp only [hpx, Bool.false_eq_true, if_false]
        rw [List.filter_eq_nil_iff.mpr hnone, List.filter_eq_self.mpr fun y hy => by
          simpa using hnone y hy]
        exact ⟨.refl _, .refl _⟩

/-- **Popping takes exactly what meets the condition**, if whatever is greater meets it too. -/
theorem popWhile_perm (hp : ∀ x y, compare y x ≠ .gt → p y → p x) (heap : List α) :
    (rule.popWhile p heap).1.Perm (heap.filter p) ∧
      (rule.popWhile p heap).2.Perm (heap.filter fun x => !p x) :=
  rule.popAtMost_perm hp heap.length heap (Nat.le_refl _)

theorem mem_of_mem_popAtMost {n : Nat} {heap : List α} {x : α}
    (h : x ∈ (rule.popAtMost p n heap).1) : x ∈ heap := by
  induction n generalizing heap with
  | zero => cases h
  | succ n ih =>
    rw [popAtMost] at h
    split at h
    · cases h
    · next y hpeek =>
      split at h
      · rcases List.mem_cons.mp h with rfl | hx
        · exact rule.mem_of_peek hpeek
        · exact List.mem_of_mem_erase (ih hx)
      · cases h

theorem popAtMost_pairwise (p : α → Bool) (n : Nat) (heap : List α) :
    (rule.popAtMost p n heap).1.Pairwise fun x y => compare y x ≠ .gt := by
  induction n generalizing heap with
  | zero => exact .nil
  | succ n ih =>
    rw [popAtMost]
    split
    · exact .nil
    · next x hpeek =>
      split
      · refine .cons (fun y hy => ?_) (ih (heap.erase x))
        exact rule.not_gt_of_peek hpeek y (List.mem_of_mem_erase (rule.mem_of_mem_popAtMost hy))
      · exact .nil

/-- **Elements are taken in order**: none that is taken later is greater. -/
theorem popWhile_pairwise (p : α → Bool) (heap : List α) :
    (rule.popWhile p heap).1.Pairwise fun x y => compare y x ≠ .gt :=
  rule.popAtMost_pairwise p heap.length heap

end HeapRule
