import Mathlib.Data.List.Infix

/-!
# Cutting and searching texts

A list is cut at every occurrence of a pair of different elements.  Occurrences of such a pair never
overlap, so a list that is put together with the pair is cut into the pieces of its parts.  The
first occurrence of a pattern in a list is found by passing over what it does not begin at.
-/

universe u

namespace Text

variable {α : Type u} {a b : α}

/-- Put an element before the first piece. -/
def consHead (x : α) : List (List α) → List (List α)
  | [] => [[x]]
  | piece :: pieces => (x :: piece) :: pieces

theorem consHead_append (x : α) {xs : List (List α)} (h : xs ≠ []) (ys : List (List α)) :
    consHead x (xs ++ ys) = consHead x xs ++ ys := by
  cases xs with
  | nil => exact absurd rfl h
  | cons piece pieces => rfl

/-- The pair occurs in a concatenation in one of the parts, or where they meet. -/
theorem pair_infix_append_iff (xs ys : List α) :
    [a, b] <:+: xs ++ ys ↔
      [a, b] <:+: xs ∨ [a, b] <:+: ys ∨ ([a] <:+ xs ∧ [b] <+: ys) := by
  rw [List.infix_append_iff]
  constructor
  · rintro (hxs | hys | ⟨l, r, heq, hl, hr⟩)
    · exact .inl hxs
    · exact .inr (.inl hys)
    · rcases l with _ | ⟨x, _ | ⟨y, l⟩⟩
      · rw [heq]
        exact .inr (.inl hr.isInfix)
      · obtain ⟨rfl, rfl⟩ := List.cons.inj heq
        exact .inr (.inr ⟨hl, hr⟩)
      · obtain ⟨rfl, hrest⟩ := List.cons.inj heq
        obtain ⟨rfl, hnil⟩ := List.cons.inj hrest
        obtain ⟨rfl, -⟩ := List.append_eq_nil_iff.mp hnil.symm
        exact .inl hl.isInfix
  · rintro (hxs | hys | ⟨hl, hr⟩)
    · exact .inl hxs
    · exact .inr (.inl hys)
    · exact .inr (.inr ⟨[a], [b], rfl, hl, hr⟩)

variable [DecidableEq α]

/-- The pieces of a list between the occurrences of `a` followed by `b`. -/
def cut (a b : α) : List α → List (List α)
  | [] => [[]]
  | [x] => [[x]]
  | x :: y :: rest =>
    if x = a ∧ y = b then [] :: cut a b rest else consHead x (cut a b (y :: rest))

theorem cut_ne_nil (xs : List α) : cut a b xs ≠ [] := by
  fun_cases cut a b xs with
  | case1 => exact List.cons_ne_nil _ _
  | case2 => exact List.cons_ne_nil _ _
  | case3 => exact List.cons_ne_nil _ _
  | case4 x y rest _ =>
    cases cut a b (y :: rest) with
    | nil => exact List.cons_ne_nil _ _
    | cons => exact List.cons_ne_nil _ _

/-- **The pieces of two lists with the pair between them** are those of the one and those of the
other. -/
theorem cut_append (hab : a ≠ b) (xs ys : List α) :
    cut a b (xs ++ a :: b :: ys) = cut a b xs ++ cut a b ys := by
  fun_induction cut a b xs with
  | case1 => simp [cut]
  | case2 x => simp [cut, hab, consHead]
  | case3 x y rest h ih => simp [cut, h, ih]
  | case4 x y rest h ih =>
    rw [List.cons_append, List.cons_append, cut, if_neg h, ← consHead_append x (cut_ne_nil _), ← ih,
      List.cons_append]

/-- **A list is one piece** exactly when the pair does not occur in it. -/
theorem cut_eq_singleton_iff (hab : a ≠ b) (xs : List α) :
    cut a b xs = [xs] ↔ ¬[a, b] <:+: xs := by
  constructor
  · rintro hcut ⟨us, vs, rfl⟩
    have hlength := congrArg List.length hcut
    rw [List.append_assoc, List.cons_append, List.singleton_append, cut_append hab,
      List.length_append] at hlength
    have hu := List.length_pos_iff.mpr (cut_ne_nil (a := a) (b := b) us)
    have hv := List.length_pos_iff.mpr (cut_ne_nil (a := a) (b := b) vs)
    rw [List.length_singleton] at hlength
    omega
  · intro hnot
    fun_induction cut a b xs with
    | case1 => rfl
    | case2 => rfl
    | case3 x y rest h _ =>
      obtain ⟨rfl, rfl⟩ := h
      exact absurd (List.prefix_append [x, y] rest).isInfix hnot
    | case4 x y rest h ih =>
      rw [ih fun hoccurs => hnot (hoccurs.trans (List.suffix_cons _ _).isInfix)]
      rfl

/-! ## Searching -/

variable {p x : α} {pattern xs ys : List α}

theorem findIdx?_beq_of_notMem (h : x ∉ xs) : xs.findIdx? (· == x) = none := by
  refine List.findIdx?_eq_none_iff.mpr fun y hy => ?_
  rw [beq_eq_false_iff_ne]
  rintro rfl
  exact h hy

/-- The first occurrence of an element is behind a list that does not have it. -/
theorem findIdx?_beq_append (h : x ∉ xs) (ys : List α) :
    (xs ++ x :: ys).findIdx? (· == x) = some xs.length := by
  rw [List.findIdx?_append, findIdx?_beq_of_notMem h]
  simp [List.findIdx?_cons]

/-- The index of the first occurrence of a pattern. -/
def find (pattern xs : List α) : Option Nat := xs.tails.findIdx? pattern.isPrefixOf

theorem find_of_prefix (h : pattern <+: xs) : find pattern xs = some 0 := by
  have hstart : pattern.isPrefixOf xs = true := List.isPrefixOf_iff_prefix.mpr h
  cases xs with
  | nil => simp [find, hstart]
  | cons x xs => simp [find, List.findIdx?_cons, hstart]

theorem find_cons (h : ¬pattern <+: x :: xs) :
    find pattern (x :: xs) = (find pattern xs).map (· + 1) := by
  have hstart : pattern.isPrefixOf (x :: xs) = false := by
    rw [Bool.eq_false_iff, ne_eq, List.isPrefixOf_iff_prefix]
    exact h
  rw [find, List.tails_cons, List.findIdx?_cons, hstart]
  rfl

/-- Elements that the pattern does not begin with are passed over. -/
theorem find_append (h : p ∉ xs) :
    find (p :: pattern) (xs ++ ys) = (find (p :: pattern) ys).map (· + xs.length) := by
  induction xs with
  | nil => simp
  | cons x xs ih =>
    obtain ⟨hx, hxs⟩ := not_or.mp (mt List.mem_cons.mpr h)
    rw [List.cons_append, find_cons fun hstart => hx (List.cons_prefix_cons.mp hstart).1,
      ih hxs, Option.map_map]
    rfl

end Text
