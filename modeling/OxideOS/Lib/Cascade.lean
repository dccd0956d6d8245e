import Mathlib.Data.Finset.Card
import Mathlib.Logic.Relation

/-!
# Cascades along a relation

A depth-first traversal that consumes the live nodes below its roots takes a *cascade*: a set of
live nodes that contains the live roots, is closed under live successors, and holds nothing that
a path of live nodes does not lead to. A cascade is determined by its roots, so the order in
which a traversal visits successors does not matter; the three rules below are the three moves of
a traversal.
-/

open Relation

variable {α : Type*} {E : α → α → Prop} {L S S₁ S₂ : Finset α}
  {R R₁ R₂ : Set α} {x y : α}

/-- An edge into a live node. -/
def LiveEdge (E : α → α → Prop) (L : Finset α) (x y : α) : Prop := E x y ∧ y ∈ L

/-- What a traversal from the roots `R` takes out of the live nodes `L`. -/
structure Cascade (E : α → α → Prop) (L : Finset α) (R : Set α) (S : Finset α) : Prop where
  /-- Only live nodes are taken. -/
  sub : S ⊆ L
  /-- Every live root is taken. -/
  root : ∀ r ∈ R, r ∈ L → r ∈ S
  /-- A live path leads from a live root to every node taken. -/
  path : ∀ x ∈ S, ∃ r ∈ R, r ∈ L ∧ ReflTransGen (LiveEdge E L) r x
  /-- Live successors of a node taken are taken. -/
  closed : ∀ x ∈ S, ∀ y ∈ L, E x y → y ∈ S

namespace Cascade

theorem nil (h : ∀ r ∈ R, r ∉ L) : Cascade E L R ∅ where
  sub := Finset.empty_subset L
  root r hr hL := absurd hL (h r hr)
  path x hx := absurd hx (Finset.notMem_empty x)
  closed x hx := absurd hx (Finset.notMem_empty x)

theorem path_mono {L' : Finset α} (hL : L' ⊆ L) (h : ReflTransGen (LiveEdge E L') x y) :
    ReflTransGen (LiveEdge E L) x y :=
  ReflTransGen.mono (fun _ _ he => ⟨he.1, hL he.2⟩) _ _ h

/-- **A cascade is determined by its roots**: it holds exactly what a live path leads to. -/
theorem mem_iff (h : Cascade E L R S) :
    x ∈ S ↔ ∃ r ∈ R, r ∈ L ∧ ReflTransGen (LiveEdge E L) r x := by
  refine ⟨h.path x, ?_⟩
  rintro ⟨r, hr, hL, hp⟩
  induction hp with
  | refl => exact h.root r hr hL
  | tail _ he ih => exact h.closed _ ih _ he.2 he.1

variable [DecidableEq α]

/-- One root after another: the second traversal finds what the first one left. -/
theorem seq (h₁ : Cascade E L R₁ S₁) (h₂ : Cascade E (L \ S₁) R₂ S₂) :
    Cascade E L (R₁ ∪ R₂) (S₁ ∪ S₂) where
  sub := Finset.union_subset h₁.sub (h₂.sub.trans Finset.sdiff_subset)
  root r hr hL := by
    rcases hr with hr | hr
    · exact Finset.mem_union_left _ (h₁.root r hr hL)
    · by_cases hS : r ∈ S₁
      · exact Finset.mem_union_left _ hS
      · exact Finset.mem_union_right _ (h₂.root r hr (Finset.mem_sdiff.mpr ⟨hL, hS⟩))
  path x hx := by
    rcases Finset.mem_union.mp hx with hx | hx
    · obtain ⟨r, hr, hL, hp⟩ := h₁.path x hx
      exact ⟨r, Or.inl hr, hL, hp⟩
    · obtain ⟨r, hr, hL, hp⟩ := h₂.path x hx
      exact ⟨r, Or.inr hr, (Finset.mem_sdiff.mp hL).1, path_mono Finset.sdiff_subset hp⟩
  closed x hx y hy he := by
    by_cases hS : y ∈ S₁
    · exact Finset.mem_union_left _ hS
    · rcases Finset.mem_union.mp hx with hx | hx
      · exact absurd (h₁.closed x hx y hy he) hS
      · exact Finset.mem_union_right _
          (h₂.closed x hx y (Finset.mem_sdiff.mpr ⟨hy, hS⟩) he)

/-- A live node, and after it the successors that are still live. -/
theorem node (hx : x ∈ L) (hR : ∀ y ∈ L \ {x}, E x y → y ∈ R) (hE : ∀ y ∈ R, E x y)
    (h : Cascade E (L \ {x}) R S) : Cascade E L {x} ({x} ∪ S) where
  sub := Finset.union_subset (Finset.singleton_subset_iff.mpr hx)
    (h.sub.trans Finset.sdiff_subset)
  root r hr _ := by
    obtain rfl := Set.mem_singleton_iff.mp hr
    exact Finset.mem_union_left _ (Finset.mem_singleton_self r)
  path y hy := by
    refine ⟨x, rfl, hx, ?_⟩
    rcases Finset.mem_union.mp hy with hy | hy
    · rw [Finset.mem_singleton.mp hy]
    · obtain ⟨r, hr, hL, hp⟩ := h.path y hy
      exact (ReflTransGen.single ⟨hE r hr, (Finset.mem_sdiff.mp hL).1⟩).trans
        (path_mono Finset.sdiff_subset hp)
  closed y hy z hz he := by
    by_cases hzx : z = x
    · exact Finset.mem_union_left _ (Finset.mem_singleton.mpr hzx)
    · have hz' : z ∈ L \ {x} := Finset.mem_sdiff.mpr ⟨hz, by simpa using hzx⟩
      refine Finset.mem_union_right _ ?_
      rcases Finset.mem_union.mp hy with hy | hy
      · rw [Finset.mem_singleton.mp hy] at he
        exact h.root z (hR z hz' he) hz'
      · exact h.closed y hy z hz' he

end Cascade
