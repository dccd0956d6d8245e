import Mathlib.Data.List.Dedup
import Mathlib.Data.List.Pairwise
import Mathlib.Logic.Function.Basic

/-!
# Recency

The most recently accessed elements of a sequence of accesses, and a table of time stamps that
ranks them.  Stamping an element with a new time moves it to the front of the ranking, and taking
out an element with the least stamp takes the last one.
-/

universe u

variable {κ : Type u} {k now now' a : Nat} {n m : κ} {xs : List κ}

section Recent

variable [DecidableEq κ]

/-- The last `k` distinct elements, the most recent first. -/
def recent (k : Nat) (xs : List κ) : List κ := xs.dedup.reverse.take k

@[simp] theorem recent_nil : recent k ([] : List κ) = [] := List.take_nil

theorem length_recent_le : (recent k xs).length ≤ k := List.length_take_le _ _

/-- What is repeated at the end moves there. -/
theorem dedup_concat (xs : List κ) (n : κ) : (xs ++ [n]).dedup = xs.dedup.erase n ++ [n] := by
  induction xs with
  | nil => rfl
  | cons x xs ih =>
    rw [List.cons_append]
    by_cases hx : x ∈ xs
    · rw [List.dedup_cons_of_mem hx, List.dedup_cons_of_mem (List.mem_append_left _ hx), ih]
    · rw [List.dedup_cons_of_notMem hx]
      by_cases hxn : x = n
      · subst hxn
        rw [List.dedup_cons_of_mem (by simp), ih, List.erase_cons_head,
          List.erase_of_not_mem (by simpa using hx)]
      · rw [List.dedup_cons_of_notMem (by simp [hx, hxn]), ih,
          List.erase_cons_tail (by simpa using hxn), List.cons_append]

theorem take_erase_take (k : Nat) (xs : List κ) (n : κ) :
    ((xs.take (k + 1)).erase n).take k = (xs.erase n).take k := by
  induction xs generalizing k with
  | nil => rfl
  | cons x xs ih =>
    rw [List.take_succ_cons]
    by_cases hxn : x = n
    · subst hxn
      rw [List.erase_cons_head, List.erase_cons_head, List.take_take, Nat.min_self]
    · rw [List.erase_cons_tail (by simpa using hxn), List.erase_cons_tail (by simpa using hxn)]
      cases k with
      | zero => rfl
      | succ k => rw [List.take_succ_cons, List.take_succ_cons, ih]

/-- **An access moves its element to the front.** -/
theorem recent_concat (k : Nat) (xs : List κ) (n : κ) :
    recent (k + 1) (xs ++ [n]) = n :: ((recent (k + 1) xs).erase n).take k := by
  have hnodup : xs.dedup.Nodup := List.nodup_dedup xs
  have hreverse : (xs.dedup.erase n).reverse = xs.dedup.reverse.erase n := by
    rw [hnodup.erase_eq_filter, (List.nodup_reverse.mpr hnodup).erase_eq_filter,
      List.filter_reverse]
  rw [recent, recent, dedup_concat, List.reverse_append, List.reverse_singleton,
    List.singleton_append, List.take_succ_cons, hreverse, take_erase_take]

end Recent

/-- The elements that have a stamp, the latest first; none is later than now. -/
structure Ranked (stamp : κ → Option Nat) (now : Nat) (xs : List κ) : Prop where
  mem_iff : ∀ n, n ∈ xs ↔ (stamp n).isSome
  pairwise : xs.Pairwise fun m n => ∀ a b, stamp m = some a → stamp n = some b → b < a
  le_now : ∀ n a, stamp n = some a → a ≤ now

namespace Ranked

variable {stamp : κ → Option Nat}

theorem exists_stamp (h : Ranked stamp now xs) (hn : n ∈ xs) : ∃ a, stamp n = some a :=
  Option.isSome_iff_exists.mp ((h.mem_iff n).mp hn)

theorem mem_of_stamp (h : Ranked stamp now xs) (hn : stamp n = some a) : n ∈ xs :=
  (h.mem_iff n).mpr (by rw [hn]; rfl)

theorem nodup_map (h : Ranked stamp now xs) : (xs.map stamp).Nodup := by
  refine List.pairwise_map.mpr (h.pairwise.imp_of_mem fun {m n} hm _ hlt heq => ?_)
  obtain ⟨a, ha⟩ := h.exists_stamp hm
  exact Nat.lt_irrefl a (hlt a a ha (heq ▸ ha))

theorem nodup (h : Ranked stamp now xs) : xs.Nodup := h.nodup_map.of_map stamp

/-- No two elements have the same stamp. -/
theorem stamp_inj (h : Ranked stamp now xs) (hm : stamp m = some a) (hn : stamp n = some a) :
    m = n :=
  List.inj_on_of_nodup_map h.nodup_map (h.mem_of_stamp hm) (h.mem_of_stamp hn) (hm.trans hn.symm)

/-- The last element is the one with the least stamp. -/
theorem eq_concat_of_least (h : Ranked stamp now xs) (hm : stamp m = some a)
    (hleast : ∀ n b, stamp n = some b → a ≤ b) : xs = xs.dropLast ++ [m] := by
  have hmem : m ∈ xs := h.mem_of_stamp hm
  have hne : xs ≠ [] := List.ne_nil_of_mem hmem
  have hsplit : xs.dropLast ++ [xs.getLast hne] = xs := List.dropLast_append_getLast hne
  obtain ⟨b, hb⟩ := h.exists_stamp (List.getLast_mem hne)
  rw [← hsplit] at hmem
  rcases List.mem_append.mp hmem with hbefore | hlast
  · have hlt := h.pairwise.rel_dropLast_getLast hbefore a b hm hb
    exact absurd hlt (Nat.not_lt.mpr (hleast _ b hb))
  · rw [List.mem_singleton.mp hlast]
    exact hsplit.symm

variable [DecidableEq κ]

/-- A new stamp moves its element to the front. -/
theorem stamp_update (h : Ranked stamp now xs) (n : κ) (hnow : now < now') :
    Ranked (Function.update stamp n (some now')) now' (n :: xs.erase n) := by
  have hold : ∀ x ∈ xs.erase n, Function.update stamp n (some now') x = stamp x := fun x hx =>
    Function.update_of_ne ((h.nodup.mem_erase_iff).mp hx).1 _ _
  refine ⟨fun x => ?_, List.pairwise_cons.mpr ⟨fun x hx a b ha hb => ?_, ?_⟩, fun x a ha => ?_⟩
  · by_cases hxn : x = n
    · simp [hxn]
    · simp [hxn, h.nodup.mem_erase_iff, h.mem_iff]
  · rw [Function.update_self] at ha
    rw [hold x hx] at hb
    exact Option.some.inj ha ▸ Nat.lt_of_le_of_lt (h.le_now x b hb) hnow
  · refine (h.pairwise.sublist List.erase_sublist).imp_of_mem fun {x y} hx hy hlt => ?_
    rw [hold x hx, hold y hy]
    exact hlt
  · by_cases hxn : x = n
    · rw [hxn, Function.update_self] at ha
      exact Nat.le_of_eq (Option.some.inj ha).symm
    · rw [Function.update_of_ne hxn] at ha
      exact Nat.le_trans (h.le_now x a ha) (Nat.le_of_lt hnow)

/-- Taking out the element with the least stamp takes the last one. -/
theorem drop_least (h : Ranked stamp now xs) (hm : stamp m = some a)
    (hleast : ∀ n b, stamp n = some b → a ≤ b) :
    Ranked (Function.update stamp m none) now xs.dropLast := by
  have hsplit := h.eq_concat_of_least hm hleast
  have hmem : ∀ x, x ∈ xs.dropLast ↔ x ≠ m ∧ x ∈ xs := fun x => by
    have hnodup := h.nodup
    rw [hsplit] at hnodup
    have hnot : m ∉ xs.dropLast := fun hin =>
      (List.disjoint_of_nodup_append hnodup) hin (List.mem_singleton_self m)
    constructor
    · exact fun hx => ⟨fun heq => hnot (heq ▸ hx), List.dropLast_subset xs hx⟩
    · rintro ⟨hxm, hx⟩
      rw [hsplit] at hx
      exact (List.mem_append.mp hx).resolve_right fun hlast => hxm (List.mem_singleton.mp hlast)
  have hold : ∀ x ∈ xs.dropLast, Function.update stamp m none x = stamp x := fun x hx =>
    Function.update_of_ne ((hmem x).mp hx).1 _ _
  refine ⟨fun x => ?_, ?_, fun x b hb => ?_⟩
  · rw [hmem]
    by_cases hxm : x = m
    · simp [hxm]
    · simp [hxm, h.mem_iff]
  · refine (h.pairwise.sublist (List.dropLast_sublist xs)).imp_of_mem fun {x y} hx hy hlt => ?_
    rw [hold x hx, hold y hy]
    exact hlt
  · by_cases hxm : x = m
    · rw [hxm, Function.update_self] at hb
      cases hb
    · rw [Function.update_of_ne hxm] at hb
      exact h.le_now x b hb

end Ranked
