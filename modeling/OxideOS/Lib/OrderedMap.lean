import Mathlib.Data.List.Infix
import Mathlib.Data.List.Perm.Basic

/-!
# Ordered maps

Facts about `Std.ExtTreeMap` read through the list of its entries in key order: that list is the
only ordered list with those entries, an entry with a new largest key comes last in it, and
inserting its entries one by one rebuilds the map.
-/

namespace Std.ExtTreeMap

universe u v

variable {α : Type u} {β : Type v} {cmp : α → α → Ordering} {l : List (α × β)}

theorem nodup_of_pairwise [ReflCmp cmp] (h : l.Pairwise fun a b => cmp a.1 b.1 = .lt) :
    l.Nodup := by
  refine h.imp ?_
  rintro a b hab rfl
  have heq : cmp a.1 a.1 = .eq := ReflCmp.compare_self
  rw [heq] at hab
  cases hab

variable [TransCmp cmp]

/-- An ordered list is known by its members. -/
theorem eq_of_pairwise {l' : List (α × β)} (hl : l.Pairwise fun a b => cmp a.1 b.1 = .lt)
    (hl' : l'.Pairwise fun a b => cmp a.1 b.1 = .lt) (h : ∀ p, p ∈ l ↔ p ∈ l') : l = l' := by
  have hperm : l.Perm l' := by
    rwa [List.perm_ext_iff_of_nodup (nodup_of_pairwise hl) (nodup_of_pairwise hl')]
  refine hperm.eq_of_pairwise ?_ hl hl'
  intro a b _ _ hab hba
  have hswap : cmp a.1 b.1 = (cmp b.1 a.1).swap := OrientedCmp.eq_swap
  rw [hswap, hba] at hab
  cases hab

theorem nodup_keys_toList (t : ExtTreeMap α β cmp) : (t.toList.map Prod.fst).Nodup := by
  rw [List.Nodup, List.pairwise_map]
  refine distinct_keys_toList.imp fun hne heq => hne ?_
  rw [heq]
  exact ReflCmp.compare_self

variable [LawfulEqCmp cmp] {t : ExtTreeMap α β cmp} {k : α} {v : β}

/-- The list of entries is the only ordered list with these entries. -/
theorem toList_eq_of_pairwise (hl : l.Pairwise fun a b => cmp a.1 b.1 = .lt)
    (h : ∀ k v, (k, v) ∈ l ↔ t[k]? = some v) : t.toList = l := by
  refine eq_of_pairwise ordered_keys_toList hl fun p => ?_
  rw [h p.1 p.2, mem_toList_iff_getElem?_eq_some]

/-- A key above all others is appended. -/
theorem toList_insert_last (h : ∀ k' ∈ t, cmp k' k = .lt) :
    (t.insert k v).toList = t.toList ++ [(k, v)] := by
  refine toList_eq_of_pairwise ?_ fun k' v' => ?_
  · rw [List.pairwise_append]
    refine ⟨ordered_keys_toList, List.pairwise_singleton _ _, fun a ha b hb => ?_⟩
    rw [List.mem_singleton.mp hb]
    refine h a.1 ?_
    have ha' : t[a.1]? = some a.2 := mem_toList_iff_getElem?_eq_some.mp ha
    exact mem_iff_isSome_getElem?.mpr (by rw [ha']; rfl)
  · rw [List.mem_append, List.mem_singleton, mem_toList_iff_getElem?_eq_some, getElem?_insert,
      Prod.mk.injEq]
    by_cases hk : cmp k k' = .eq
    · obtain rfl := LawfulEqCmp.eq_of_compare hk
      have hnone : t[k]? = none := by
        rw [getElem?_eq_none_iff]
        intro hmem
        rw [h k hmem] at hk
        cases hk
      simp [hk, hnone, eq_comm]
    · have hne : k' ≠ k := by
        rintro rfl
        exact hk ReflCmp.compare_self
      simp [hk, hne]

theorem ofList_toList [DecidableEq α] : ofList t.toList cmp = t := by
  refine ext_getElem? fun k => ?_
  cases hk : t[k]? with
  | none =>
    have hmem : k ∉ t.toList.map Prod.fst := by
      rw [List.mem_map]
      rintro ⟨⟨k', v⟩, hkv, rfl⟩
      rw [mem_toList_iff_getElem?_eq_some, hk] at hkv
      cases hkv
    exact getElem?_ofList_of_contains_eq_false (by simpa using hmem)
  | some v =>
    exact getElem?_ofList_of_mem ReflCmp.compare_self distinct_keys_toList
      (mem_toList_iff_getElem?_eq_some.mpr hk)

/-- A lookup after an insertion, with the keys compared by equality. -/
theorem getElem?_insert_eq_ite [DecidableEq α] (t : ExtTreeMap α β cmp) (k k' : α) (v : β) :
    (t.insert k v)[k']? = if k' = k then some v else t[k']? := by
  rw [getElem?_insert]
  by_cases h : k' = k
  · subst h
    rw [if_pos rfl, if_pos ReflCmp.compare_self]
  · have hne : cmp k k' ≠ .eq := fun heq => h (LawfulEqCmp.eq_of_compare heq).symm
    rw [if_neg h, if_neg hne]

section Fold

variable {γ : Type*} {f : γ → α} {g : γ → β} {cs : List γ} {m : ExtTreeMap α β cmp}

/-- After insertions an entry is one of them, or was there before. -/
theorem getElem?_foldl_insert
    (h : (cs.foldl (fun m c => m.insert (f c) (g c)) m)[k]? = some v) :
    m[k]? = some v ∨ ∃ c ∈ cs, f c = k ∧ g c = v := by
  induction cs generalizing m with
  | nil => exact .inl h
  | cons c cs ih =>
    rcases ih h with h | ⟨c', hc', hkv⟩
    · rw [getElem?_insert] at h
      split at h
      · next heq =>
        refine .inr ⟨c, List.mem_cons_self, LawfulEqCmp.eq_of_compare heq, ?_⟩
        exact Option.some.inj h
      · exact .inl h
    · exact .inr ⟨c', List.mem_cons_of_mem c hc', hkv⟩

theorem mem_foldl_insert :
    k ∈ cs.foldl (fun m c => m.insert (f c) (g c)) m ↔ k ∈ m ∨ ∃ c ∈ cs, f c = k := by
  induction cs generalizing m with
  | nil => simp
  | cons c cs ih =>
    rw [List.foldl_cons, ih, mem_insert, LawfulEqCmp.compare_eq_iff_eq]
    simp only [List.mem_cons, exists_eq_or_imp]
    tauto

end Fold

/-- Inserting the entries one by one rebuilds the map. -/
theorem foldl_insert_toList [DecidableEq α] :
    t.toList.foldl (fun m p => m.insert p.1 p.2) ∅ = t := by
  rw [← ofList_eq_foldl, ofList_toList]

end Std.ExtTreeMap
