import OxideOS.Capability.Table
import OxideOS.Lib.Cascade

/-!
# Cascading revocation

`revokeRecursive` flags a capability and recurses into the children it then finds unflagged. Its
effect is described by the set of slots it flags: that set is the cascade along the parent links
from the capability, so it does not depend on the order of the slots, and the count returned is
its size. The recursion ends on every table, since each level flags one more capability, and
`revoke` is therefore a total function.

## Main definitions

* `live`: the slots that hold a capability that is not revoked
* `withRevoked S`: the table with the slots in `S` flagged
* `IsParent`, `IdsMatch`: the parent links, and the slots agreeing with the ids in them
* `revoke`: the public entry point

## Main results

* `activeCount_eq`: `activeCount` is the number of live slots
* `revokeRecursive_spec`: with enough fuel the recursion returns, and flags a cascade
* `revoke_of_authorized`, `revoke_refused`: when a call of `revoke` succeeds
* `revoke_cases`: a call of `revoke` changes nothing, or flags a cascade and returns its size
-/

namespace OxideOS

namespace CapabilityTable

variable {t : CapabilityTable} {i p : CapId} {c cap : Capability} {S S' : Finset CapId}

/-- Tables are determined by their counter, their length and their slots. -/
theorem ext_slot {t' : CapabilityTable} (hn : t.nextId = t'.nextId)
    (hl : t.capabilities.length = t'.capabilities.length) (hs : ∀ i, t.slot i = t'.slot i) :
    t = t' := by
  obtain ⟨caps, n⟩ := t
  obtain ⟨caps', n'⟩ := t'
  simp only [mk.injEq] at hn hl ⊢
  refine ⟨List.ext_getElem? fun i => ?_, hn⟩
  have hi := hs i
  unfold slot at hi
  by_cases h : i < caps.length
  · rw [List.getElem?_eq_getElem h, List.getElem?_eq_getElem (hl ▸ h)] at hi ⊢
    simpa using hi
  · rw [List.getElem?_eq_none (by omega), List.getElem?_eq_none (by omega)]

/-! ## Live capabilities -/

/-- The slots that hold a capability that is not revoked. -/
def live (t : CapabilityTable) : Finset CapId :=
  {i ∈ Finset.range t.capabilities.length | (t.slot i).any fun c => !c.revoked}

theorem mem_live : i ∈ t.live ↔ ∃ c, t.slot i = some c ∧ c.revoked = false := by
  simp only [live, Finset.mem_filter, Finset.mem_range, Option.any_eq_true, Bool.not_eq_true']
  constructor
  · exact fun h => h.2
  · rintro ⟨c, hs, hr⟩
    exact ⟨lt_length_of_slot hs, c, hs, hr⟩

/-- `activeCount` is the number of live slots. -/
theorem activeCount_eq : t.activeCount = t.live.card := by
  obtain ⟨caps, n⟩ := t
  unfold activeCount live
  induction caps using List.reverseRecOn with
  | nil => rfl
  | append_singleton caps s ih =>
    rw [List.countP_append, ih]
    have hrest : {i ∈ Finset.range caps.length |
          (slot ⟨caps ++ [s], n⟩ i).any fun c => !c.revoked} =
        {i ∈ Finset.range caps.length | (slot ⟨caps, n⟩ i).any fun c => !c.revoked} := by
      refine Finset.filter_congr fun i hi => ?_
      unfold slot
      rw [List.getElem?_append_left (Finset.mem_range.mp hi)]
    have hlast : slot ⟨caps ++ [s], n⟩ caps.length = s := by simp [slot]
    rw [List.length_append, List.length_singleton, Finset.range_add_one, Finset.filter_insert,
      hrest, hlast, List.countP_singleton]
    split_ifs
    · rw [Finset.card_insert_of_notMem (by simp)]
    · rfl

/-! ## Flagging a set of slots -/

/-- The table with the slots in `S` flagged as revoked. -/
def withRevoked (t : CapabilityTable) (S : Finset CapId) : CapabilityTable :=
  { t with capabilities := t.capabilities.mapIdx fun i s =>
      s.map fun c => { c with revoked := c.revoked || decide (i ∈ S) } }

@[simp] theorem nextId_withRevoked : (t.withRevoked S).nextId = t.nextId := rfl

@[simp] theorem length_withRevoked :
    (t.withRevoked S).capabilities.length = t.capabilities.length :=
  List.length_mapIdx

theorem slot_withRevoked : (t.withRevoked S).slot i =
    (t.slot i).map fun c => { c with revoked := c.revoked || decide (i ∈ S) } := by
  unfold slot withRevoked
  rw [List.getElem?_mapIdx]
  cases t.capabilities[i]? with
  | none => rfl
  | some s => rfl

theorem slot_withRevoked_of_notMem (h : i ∉ S) : (t.withRevoked S).slot i = t.slot i := by
  rw [slot_withRevoked]
  simp [h]

@[simp] theorem withRevoked_empty : t.withRevoked ∅ = t :=
  ext_slot rfl length_withRevoked fun _ => slot_withRevoked_of_notMem (Finset.notMem_empty _)

@[simp] theorem withRevoked_withRevoked :
    (t.withRevoked S).withRevoked S' = t.withRevoked (S ∪ S') := by
  refine ext_slot rfl (by simp) fun i => ?_
  rw [slot_withRevoked, slot_withRevoked, slot_withRevoked, Option.map_map]
  congr 1
  funext c
  simp [Bool.or_assoc]

theorem live_withRevoked : (t.withRevoked S).live = t.live \ S := by
  ext i
  rw [Finset.mem_sdiff, mem_live, mem_live, slot_withRevoked]
  constructor
  · rintro ⟨c', hs, hr⟩
    obtain ⟨c, hc, rfl⟩ := Option.map_eq_some_iff.mp hs
    simp only [Bool.or_eq_false_iff, decide_eq_false_iff_not] at hr
    exact ⟨⟨c, hc, hr.1⟩, hr.2⟩
  · rintro ⟨⟨c, hc, hr⟩, hS⟩
    exact ⟨_, Option.map_eq_some_iff.mpr ⟨c, hc, rfl⟩, by simp [hr, hS]⟩

/-- The update of `revoke_recursive` at one slot. -/
theorem set_revoked_eq (h : t.slot i = some c) :
    { t with capabilities := t.capabilities.set i (some { c with revoked := true }) } =
      t.withRevoked {i} := by
  refine ext_slot rfl (by simp) fun j => ?_
  by_cases hij : i = j
  · subst hij
    rw [slot_withRevoked, h]
    simp [slot, lt_length_of_slot h]
  · rw [slot_withRevoked_of_notMem (by simpa using Ne.symm hij)]
    unfold slot
    rw [List.getElem?_set, if_neg hij]

/-! ## Parent links -/

/-- `p` is the parent of the capability in slot `i`. -/
def IsParent (t : CapabilityTable) (p i : CapId) : Prop :=
  ∃ c, t.slot i = some c ∧ c.parentCap = some p

/-- Every capability sits in the slot of its own id. -/
def IdsMatch (t : CapabilityTable) : Prop := ∀ i c, t.slot i = some c → c.id = i

/-- Flagging changes no parent link. -/
theorem isParent_withRevoked : (t.withRevoked S).IsParent p i ↔ t.IsParent p i := by
  unfold IsParent
  rw [slot_withRevoked]
  cases t.slot i with
  | none => simp
  | some c => simp

theorem IdsMatch.withRevoked (h : t.IdsMatch) : (t.withRevoked S).IdsMatch := by
  intro i c hs
  rw [slot_withRevoked] at hs
  obtain ⟨c', hc', rfl⟩ := Option.map_eq_some_iff.mp hs
  exact h i c' hc'

/-- The children collected by the recursion are the live slots with that parent. -/
theorem mem_children (h : t.IdsMatch) : i ∈ t.children p ↔ i ∈ t.live ∧ t.IsParent p i := by
  unfold children
  rw [List.mem_filterMap]
  constructor
  · rintro ⟨s, hs, hb⟩
    obtain ⟨c, rfl, hc⟩ := Option.bind_eq_some_iff.mp hb
    split_ifs at hc with hp
    obtain ⟨j, hj⟩ := List.getElem?_of_mem hs
    have hslot : t.slot j = some c := slot_eq_some.mpr hj
    obtain rfl : j = i := (h j c hslot).symm.trans (Option.some.inj hc)
    exact ⟨mem_live.mpr ⟨c, hslot, hp.2⟩, c, hslot, hp.1⟩
  · rintro ⟨hl, c, hs, hp⟩
    obtain ⟨c', hs', hr⟩ := mem_live.mp hl
    obtain rfl : c' = c := Option.some.inj (hs'.symm.trans hs)
    refine ⟨some c', List.mem_of_getElem? (slot_eq_some.mp hs), ?_⟩
    simp [hp, hr, h i c' hs]

/-! ## The recursion flags a cascade -/

/-- What a call from the roots `R` flags: live slots only and, when slots and ids agree, the
cascade along the parent links. -/
structure Flags (t : CapabilityTable) (R : Set CapId) (S : Finset CapId) : Prop where
  sub : S ⊆ t.live
  cascade : t.IdsMatch → Cascade t.IsParent t.live R S

theorem Flags.nil {R : Set CapId} (h : ∀ r ∈ R, r ∉ t.live) : t.Flags R ∅ :=
  ⟨Finset.empty_subset _, fun _ => Cascade.nil h⟩

theorem isParent_withRevoked_eq : (t.withRevoked S).IsParent = t.IsParent := by
  funext p i
  exact propext isParent_withRevoked

theorem Flags.seq {R R' : Set CapId} (h : t.Flags R S) (h' : (t.withRevoked S).Flags R' S') :
    t.Flags (R ∪ R') (S ∪ S') where
  sub := Finset.union_subset h.sub ((live_withRevoked ▸ h'.sub).trans Finset.sdiff_subset)
  cascade hid := by
    have h₂ := h'.cascade hid.withRevoked
    rw [live_withRevoked, isParent_withRevoked_eq] at h₂
    exact (h.cascade hid).seq h₂

/-- A live capability is flagged before its children. -/
theorem Flags.node (hi : i ∈ t.live)
    (h : (t.withRevoked {i}).Flags {x | x ∈ (t.withRevoked {i}).children i} S) :
    t.Flags {i} ({i} ∪ S) where
  sub := Finset.union_subset (Finset.singleton_subset_iff.mpr hi)
    ((live_withRevoked ▸ h.sub).trans Finset.sdiff_subset)
  cascade hid := by
    have h₂ := h.cascade hid.withRevoked
    rw [live_withRevoked, isParent_withRevoked_eq] at h₂
    refine Cascade.node hi (fun y hy hp => ?_) (fun y hy => ?_) h₂
    · refine (mem_children hid.withRevoked).mpr ⟨?_, isParent_withRevoked.mpr hp⟩
      rwa [live_withRevoked]
    · exact isParent_withRevoked.mp ((mem_children hid.withRevoked).mp hy).2

/-- The flagged slots of two calls in a row do not overlap, so their counts add up. -/
theorem Flags.card_union {R' : Set CapId} (h' : (t.withRevoked S).Flags R' S') :
    (S ∪ S').card = S.card + S'.card := by
  refine Finset.card_union_of_disjoint ?_
  rw [Finset.disjoint_right]
  intro x hx
  have hx' := h'.sub hx
  rw [live_withRevoked] at hx'
  exact (Finset.mem_sdiff.mp hx').2

/-- The loop over the children, given what `recurse` does on tables that are no larger. -/
theorem revokeEach_spec {recurse : CapabilityTable → CapId → Option (Nat × CapabilityTable)}
    {fuel : Nat}
    (ih : ∀ t i, t.live.card < fuel →
      ∃ S, recurse t i = some (S.card, t.withRevoked S) ∧ t.Flags {i} S)
    (cs : List CapId) (count : Nat) (t : CapabilityTable) (ht : t.live.card < fuel) :
    ∃ S, revokeEach recurse cs count t = some (count + S.card, t.withRevoked S) ∧
      t.Flags {x | x ∈ cs} S := by
  induction cs generalizing count t with
  | nil => exact ⟨∅, by simp [revokeEach], Flags.nil (by simp)⟩
  | cons c cs ihcs =>
    obtain ⟨S, hS, hF⟩ := ih t c ht
    have ht' : (t.withRevoked S).live.card < fuel := by
      rw [live_withRevoked]
      exact lt_of_le_of_lt (Finset.card_le_card Finset.sdiff_subset) ht
    obtain ⟨S', hS', hF'⟩ := ihcs (count + S.card) (t.withRevoked S) ht'
    refine ⟨S ∪ S', ?_, ?_⟩
    · rw [hF'.card_union, ← withRevoked_withRevoked, ← Nat.add_assoc, ← hS']
      unfold revokeEach
      rw [List.foldlM_cons]
      simp only [hS, bind, Option.bind, pure]
    · have hR : {x | x ∈ c :: cs} = ({c} ∪ {x | x ∈ cs} : Set CapId) := by
        ext x
        simp
      rw [hR]
      exact hF.seq hF'

/-- **The recursion returns and flags a cascade.** Each level flags one more capability, so the
number of live capabilities bounds the depth. -/
theorem revokeRecursive_spec (fuel : Nat) (t : CapabilityTable) (i : CapId)
    (ht : t.live.card < fuel) :
    ∃ S, revokeRecursive fuel t i = some (S.card, t.withRevoked S) ∧ t.Flags {i} S := by
  induction fuel generalizing t i with
  | zero => omega
  | succ fuel ih =>
    have hdead : i ∉ t.live → t.Flags {i} ∅ := fun h =>
      Flags.nil fun r hr => by rwa [Set.mem_singleton_iff.mp hr]
    unfold revokeRecursive
    cases hs : t.slot i with
    | none =>
      refine ⟨∅, by simp, hdead ?_⟩
      rw [mem_live]
      rintro ⟨c, hc, -⟩
      rw [hs] at hc
      cases hc
    | some cap =>
      by_cases hr : cap.revoked = true
      · refine ⟨∅, by simp [hr], hdead ?_⟩
        rw [mem_live]
        rintro ⟨c, hc, hc'⟩
        rw [hs, Option.some.injEq] at hc
        rw [hc, hc'] at hr
        cases hr
      · have hi : i ∈ t.live := mem_live.mpr ⟨cap, hs, by simpa using hr⟩
        have hlt : (t.withRevoked {i}).live.card < fuel := by
          rw [live_withRevoked, Finset.card_sdiff_of_subset (Finset.singleton_subset_iff.mpr hi),
            Finset.card_singleton]
          have := Finset.card_pos.mpr ⟨i, hi⟩
          omega
        obtain ⟨S, hS, hF⟩ := revokeEach_spec ih ((t.withRevoked {i}).children i) 1 _ hlt
        refine ⟨{i} ∪ S, ?_, hF.node hi⟩
        rw [hF.card_union, ← withRevoked_withRevoked, Finset.card_singleton, ← hS]
        simp only [hr, Bool.false_eq_true, if_false]
        rw [set_revoked_eq hs]

theorem revokeRecursive_isSome (t : CapabilityTable) (i : CapId) :
    (revokeRecursive (t.activeCount + 1) t i).isSome = true := by
  obtain ⟨S, hS, -⟩ :=
    revokeRecursive_spec (t.activeCount + 1) t i (by rw [activeCount_eq]; omega)
  rw [hS]
  rfl

/-! ## The public entry point -/

/-- The revoker owns the capability, or owns its parent. -/
def authorized (t : CapabilityTable) (cap : Capability) (revoker : TaskId) : Bool :=
  cap.owner == revoker ||
    match cap.parentCap with
    | none => false
    | some pid => (t.slot pid).any fun p => p.owner == revoker

/-- `CapabilityTable::revoke`: revoke a capability and everything delegated from it. -/
def revoke (t : CapabilityTable) (capId : CapId) (revoker : TaskId) :
    Except CapError Nat × CapabilityTable :=
  match t.get capId with
  | .error e => (.error e, t)
  | .ok cap =>
    if !t.authorized cap revoker then (.error .notOwner, t)
    else
      let (count, t) :=
        (revokeRecursive (t.activeCount + 1) t capId).get (revokeRecursive_isSome t capId)
      (.ok count, t)

/-- A live capability is revoked by whoever is authorised: the call flags a cascade. -/
theorem revoke_of_authorized {r : TaskId} (hs : t.slot i = some cap) (hr : cap.revoked = false)
    (ha : t.authorized cap r = true) :
    ∃ S, t.revoke i r = (.ok S.card, t.withRevoked S) ∧ t.Flags {i} S := by
  obtain ⟨S, hS, hF⟩ :=
    revokeRecursive_spec (t.activeCount + 1) t i (by rw [activeCount_eq]; omega)
  refine ⟨S, ?_, hF⟩
  unfold revoke
  rw [get_eq_ok.mpr ⟨hs, hr⟩]
  simp [ha, hS]

/-- Every other call is refused. -/
theorem revoke_refused {r : TaskId}
    (h : ∀ cap, t.slot i = some cap → cap.revoked = false → t.authorized cap r = false) :
    ∃ e, t.revoke i r = (.error e, t) := by
  unfold revoke
  cases hg : t.get i with
  | error e => exact ⟨e, rfl⟩
  | ok cap =>
    obtain ⟨hs, hr⟩ := get_eq_ok.mp hg
    exact ⟨.notOwner, by simp [h cap hs hr]⟩

/-- A call either fails and changes nothing, or flags a cascade and returns its size. -/
theorem revoke_cases (t : CapabilityTable) (i : CapId) (r : TaskId) :
    (∃ e, t.revoke i r = (.error e, t)) ∨
      ∃ S, t.revoke i r = (.ok S.card, t.withRevoked S) ∧ i ∈ t.live ∧ t.Flags {i} S := by
  by_cases h : ∃ cap, t.slot i = some cap ∧ cap.revoked = false ∧ t.authorized cap r = true
  · obtain ⟨cap, hs, hr, ha⟩ := h
    obtain ⟨S, hS, hF⟩ := revoke_of_authorized hs hr ha
    exact Or.inr ⟨S, hS, mem_live.mpr ⟨cap, hs, hr⟩, hF⟩
  · refine Or.inl (revoke_refused fun cap hs hr => ?_)
    by_contra ha
    exact h ⟨cap, hs, hr, by simpa using ha⟩

end CapabilityTable

end OxideOS
