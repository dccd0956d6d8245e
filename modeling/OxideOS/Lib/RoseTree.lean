import Mathlib.Data.List.Nodup

/-!
# Rose trees

A rose tree is a label with a list of subtrees.  Its labels in postorder list the subtrees from left
to right and the label of the root last.  What holds at every node, of the label and of the labels
of its subtrees, is stated by one predicate.
-/

universe u

/-- A label with a list of subtrees. -/
inductive RoseTree (α : Type u)
  | node (label : α) (kids : List (RoseTree α))

namespace RoseTree

variable {α : Type u}

/-- The label of the root. -/
def label : RoseTree α → α
  | node a _ => a

@[simp] theorem label_node (a : α) (kids : List (RoseTree α)) : (node a kids).label = a := rfl

mutual

/-- The labels of a tree, the root last. -/
def postorder : RoseTree α → List α
  | node a kids => postorderAll kids ++ [a]

/-- The labels of several trees. -/
def postorderAll : List (RoseTree α) → List α
  | [] => []
  | t :: ts => postorder t ++ postorderAll ts

end

variable {a x : α} {t : RoseTree α} {kids ts : List (RoseTree α)}

@[simp] theorem postorder_node : (node a kids).postorder = postorderAll kids ++ [a] := by
  rw [postorder]

@[simp] theorem postorderAll_nil : postorderAll ([] : List (RoseTree α)) = [] := by
  rw [postorderAll]

@[simp] theorem postorderAll_cons : postorderAll (t :: ts) = t.postorder ++ postorderAll ts := by
  rw [postorderAll]

theorem mem_postorderAll : x ∈ postorderAll ts ↔ ∃ t ∈ ts, x ∈ t.postorder := by
  induction ts with
  | nil => simp
  | cons t ts ih => simp [ih]

theorem label_mem_postorder (t : RoseTree α) : t.label ∈ t.postorder := by
  cases t with
  | node a kids => simp

theorem length_postorder_pos (t : RoseTree α) : 0 < t.postorder.length :=
  List.length_pos_of_mem t.label_mem_postorder

/-- What holds of a tree if it holds of its subtrees holds of every tree. -/
theorem induction_kids {P : RoseTree α → Prop}
    (h : ∀ a kids, (∀ t ∈ kids, P t) → P (node a kids)) (t : RoseTree α) : P t :=
  @RoseTree.rec α P (fun kids => ∀ t ∈ kids, P t) h (List.forall_mem_nil P)
    (fun _ _ ht hts => List.forall_mem_cons.mpr ⟨ht, hts⟩) t

/-- The number of nodes. -/
def size (t : RoseTree α) : Nat := t.postorder.length

theorem size_relabel (a b : α) (kids : List (RoseTree α)) :
    (node a kids).size = (node b kids).size := by
  simp [size]

/-- The first subtree of a tree is smaller than it. -/
theorem size_lt_first (a : α) (t : RoseTree α) (kids : List (RoseTree α)) :
    t.size < (node a (t :: kids)).size := by
  simp only [size, postorder_node, postorderAll_cons, List.length_append, List.length_singleton]
  omega

/-- A tree is smaller than with one more subtree. -/
theorem size_lt_next (a b : α) (t : RoseTree α) (kids : List (RoseTree α)) :
    (node a kids).size < (node b (t :: kids)).size := by
  have hpos := t.length_postorder_pos
  simp only [size, postorder_node, postorderAll_cons, List.length_append, List.length_singleton]
  omega

/-- `P` holds at every node, of its label and the labels of its subtrees. -/
inductive All (P : α → List α → Prop) : RoseTree α → Prop
  | node {a : α} {kids : List (RoseTree α)} (h : P a (kids.map label))
      (hkids : ∀ t ∈ kids, All P t) : All P (node a kids)

variable {P Q : α → List α → Prop}

theorem All.root (h : (RoseTree.node a kids).All P) : P a (kids.map label) := by
  cases h with
  | node h _ => exact h

theorem All.kid (h : (RoseTree.node a kids).All P) (ht : t ∈ kids) : t.All P := by
  cases h with
  | node _ hkids => exact hkids t ht

/-- What follows at the labels of the tree follows in the tree. -/
theorem All.imp (h : t.All P)
    (hPQ : ∀ a ls, a ∈ t.postorder → (∀ l ∈ ls, l ∈ t.postorder) → P a ls → Q a ls) : t.All Q := by
  induction h with
  | @node a kids h hkids ih =>
    refine .node (hPQ a _ (by simp) ?_ h) fun t ht => ih t ht fun b ls hb hls hP => ?_
    · intro l hl
      obtain ⟨t, ht, rfl⟩ := List.mem_map.mp hl
      simp only [postorder_node, List.mem_append]
      exact .inl (mem_postorderAll.mpr ⟨t, ht, t.label_mem_postorder⟩)
    · have hmem : ∀ l, l ∈ t.postorder → l ∈ (RoseTree.node a kids).postorder := by
        intro l hl
        simp only [postorder_node, List.mem_append]
        exact .inl (mem_postorderAll.mpr ⟨t, ht, hl⟩)
      exact hPQ b ls (hmem b hb) (fun l hl => hmem l (hls l hl)) hP

/-- What holds at the node of a label of the tree. -/
theorem All.of_mem (h : t.All P) (hx : x ∈ t.postorder) :
    ∃ ls, P x ls ∧ ∀ l ∈ ls, l ∈ t.postorder := by
  induction h with
  | @node a kids h hkids ih =>
    have hmem : ∀ t ∈ kids, ∀ l ∈ t.postorder, l ∈ (RoseTree.node a kids).postorder := by
      intro t ht l hl
      simp only [postorder_node, List.mem_append]
      exact .inl (mem_postorderAll.mpr ⟨t, ht, hl⟩)
    simp only [postorder_node, List.mem_append, List.mem_singleton] at hx
    rcases hx with hx | rfl
    · obtain ⟨t, ht, hxt⟩ := mem_postorderAll.mp hx
      obtain ⟨ls, hP, hls⟩ := ih t ht hxt
      exact ⟨ls, hP, fun l hl => hmem t ht l (hls l hl)⟩
    · refine ⟨kids.map label, h, fun l hl => ?_⟩
      obtain ⟨t, ht, rfl⟩ := List.mem_map.mp hl
      exact hmem t ht _ t.label_mem_postorder

end RoseTree
