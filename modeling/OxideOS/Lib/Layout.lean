import Mathlib.Data.List.Basic
import Mathlib.Data.Prod.Basic
import Mathlib.Logic.Function.Basic

/-!
# Consecutive cells

A list of values laid out over consecutive cells of an array, and the array with such a list
written over it.
-/

universe u

namespace Layout

variable {α : Type u}

/-- The array holds the list in the cells from `k` on. -/
def Stored (f : Nat → α) : Nat → List α → Prop
  | _, [] => True
  | k, a :: as => f k = a ∧ Stored f (k + 1) as

/-- Write the list over the cells from `k` on. -/
def overlay (f : Nat → α) : Nat → List α → Nat → α
  | _, [] => f
  | k, a :: as => overlay (Function.update f k a) (k + 1) as

theorem stored_append {f : Nat → α} {as bs : List α} :
    ∀ {k : Nat}, Stored f k (as ++ bs) ↔ Stored f k as ∧ Stored f (k + as.length) bs := by
  induction as with
  | nil => intro k; exact ⟨fun h => ⟨trivial, h⟩, fun h => h.2⟩
  | cons a as ih =>
    intro k
    have hk : k + (a :: as).length = k + 1 + as.length := by
      rw [List.length_cons]
      omega
    rw [hk, List.cons_append, Stored, Stored, ih, and_assoc]

theorem overlay_of_lt {as : List α} {j : Nat} :
    ∀ {f : Nat → α} {k : Nat}, j < k → overlay f k as j = f j := by
  induction as with
  | nil => intro f k _; rfl
  | cons a as ih =>
    intro f k hj
    rw [overlay, ih (Nat.lt_succ_of_lt hj), Function.update_of_ne (Nat.ne_of_lt hj)]

/-- What was written is stored. -/
theorem stored_overlay {as : List α} :
    ∀ {f : Nat → α} {k : Nat}, Stored (overlay f k as) k as := by
  induction as with
  | nil => intro f k; trivial
  | cons a as ih =>
    intro f k
    refine ⟨?_, ih⟩
    rw [overlay, overlay_of_lt (Nat.lt_succ_self k), Function.update_self]

theorem overlay_of_le {as : List α} {j : Nat} :
    ∀ {f : Nat → α} {k : Nat}, k + as.length ≤ j → overlay f k as j = f j := by
  induction as with
  | nil => intro f k _; rfl
  | cons a as ih =>
    intro f k hj
    rw [List.length_cons] at hj
    rw [overlay, ih (by omega), Function.update_of_ne (by omega)]

theorem overlay_congr {as : List α} {j : Nat} :
    ∀ {f g : Nat → α} {k : Nat}, f j = g j → overlay f k as j = overlay g k as j := by
  induction as with
  | nil => exact fun h => h
  | cons a as ih =>
    intro f g k h
    refine ih ?_
    rw [Function.update_apply, Function.update_apply, h]

theorem Stored.congr {f g : Nat → α} {as : List α} :
    ∀ {k : Nat}, Stored f k as → (∀ n, k ≤ n → n < k + as.length → g n = f n) →
      Stored g k as := by
  induction as with
  | nil => exact fun _ _ => trivial
  | cons a as ih =>
    intro k h hfg
    rw [List.length_cons] at hfg
    refine ⟨(hfg k (Nat.le_refl k) (by omega)).trans h.1, ih h.2 fun n hk hn => ?_⟩
    exact hfg n (by omega) (by omega)

/-- Where the first `n` of a list are written over another, they stand before the rest of that. -/
theorem stored_overlay_take {f : Nat → α} {k n : Nat} {as bs : List α} (h : Stored f k as)
    (hn : n ≤ bs.length) : Stored (overlay f k (bs.take n)) k (bs.take n ++ as.drop n) := by
  have hlength : (bs.take n).length = n := List.length_take_of_le hn
  rw [stored_append, hlength]
  refine ⟨stored_overlay, ?_⟩
  rcases Nat.le_total n as.length with hle | hle
  · have hdrop : Stored f (k + n) (as.drop n) := by
      rw [← List.take_append_drop n as, stored_append, List.length_take_of_le hle] at h
      exact h.2
    refine hdrop.congr fun m hm _ => overlay_of_le ?_
    rwa [hlength]
  · rw [List.drop_of_length_le hle]
    trivial

/-- The cells from `k` on, each with what the list has for it. -/
def cells (k : Nat) (as : List α) : List (Nat × α) := (as.zipIdx k).map Prod.swap

theorem mem_cells {k n : Nat} {a : α} {as : List α} :
    (n, a) ∈ cells k as ↔ k ≤ n ∧ as[n - k]? = some a := by
  have hmem := List.mem_zipIdx_iff_le_and_getElem?_sub (x := (a, n)) (l := as) (k := k)
  rw [← hmem, cells, List.mem_map]
  constructor
  · rintro ⟨p, hp, hswap⟩
    obtain rfl : p = (a, n) := Prod.swap_injective hswap
    exact hp
  · exact fun h => ⟨(a, n), h, rfl⟩

theorem cells_cons {k : Nat} {a : α} {as : List α} :
    cells k (a :: as) = (k, a) :: cells (k + 1) as := by
  rw [cells, List.zipIdx_cons, List.map_cons]
  rfl

theorem cells_append {k : Nat} {as bs : List α} :
    cells k (as ++ bs) = cells k as ++ cells (k + as.length) bs := by
  rw [cells, List.zipIdx_append, List.map_append]
  rfl

theorem take_cells {n : Nat} {as : List α} :
    ∀ {k : Nat}, (cells k as).take n = cells k (as.take n) := by
  induction as generalizing n with
  | nil =>
    intro k
    rw [List.take_nil]
    exact List.take_nil
  | cons a as ih =>
    intro k
    cases n with
    | zero => rfl
    | succ n => rw [cells_cons, List.take_succ_cons, List.take_succ_cons, cells_cons, ih]

theorem pairwise_cells {k : Nat} {as : List α} :
    (cells k as).Pairwise fun p q => p.1 < q.1 := by
  have hrange : ((as.zipIdx k).map Prod.snd).Pairwise (· < ·) := by
    rw [List.zipIdx_map_snd]
    exact List.pairwise_lt_range'
  rw [cells, List.pairwise_map]
  exact List.pairwise_map.mp hrange

/-- Writing the cells one after another writes the list over them. -/
theorem foldl_cells {as : List α} : ∀ {f : Nat → α} {k : Nat},
    (cells k as).foldl (fun f p => Function.update f p.1 p.2) f = overlay f k as := by
  induction as with
  | nil => intro f k; rfl
  | cons a as ih =>
    intro f k
    rw [cells_cons, List.foldl_cons, ih, overlay]

end Layout
