import OxideOS.Capability.Confinement

/-!
# The order of revocations

An earlier revocation decides whether a later one succeeds and how many capabilities it counts,
but not what the calls achieve together. Who may revoke a capability depends on owners and parent
links, which no revocation changes, and a capability with live descendants is live; so a list of
calls flags the live descendants of the capabilities that some call in it may revoke, whatever
the order, and each of them is counted by the one call that flags it.

## Main definitions

* `revokeAll`: the calls of a list, one after the other
* `MayRevoke`, `doomed`: the calls that are authorised, and the slots a list of calls flags

## Main results

* `WellFormed.revokeAll_eq`: a list of calls flags `doomed`, and counts it
* `revokeAll_perm`: neither the table nor the total depends on the order of the calls
-/

namespace OxideOS

namespace CapabilityTable

/-- The count in the answer of a call, nothing for a call that fails. -/
def revokedCount : Except CapError Nat → Nat
  | .ok n => n
  | .error _ => 0

/-- The calls `revoke(cap, revoker)` of a list, one after the other: the sum of the counts
returned by those that succeed, and the table they leave. -/
def revokeAll (t : CapabilityTable) : List (CapId × TaskId) → Nat × CapabilityTable
  | [] => (0, t)
  | (capId, revoker) :: calls =>
    let (answer, t) := t.revoke capId revoker
    let (total, t) := t.revokeAll calls
    (revokedCount answer + total, t)

/-- The capability of a call is present, revoked or not, and the caller is authorised. -/
def MayRevoke (t : CapabilityTable) (call : CapId × TaskId) : Prop :=
  ∃ cap, t.slot call.1 = some cap ∧ t.authorized cap call.2 = true

open Classical in
/-- The live slots below a capability that some call of the list may revoke. -/
noncomputable def doomed (t : CapabilityTable) (calls : List (CapId × TaskId)) : Finset CapId :=
  {i ∈ t.live | ∃ call ∈ calls, t.MayRevoke call ∧ t.Descends i call.1}

variable {t : CapabilityTable} {i : CapId} {S : Finset CapId} {call : CapId × TaskId}
  {calls calls' : List (CapId × TaskId)}

theorem mem_doomed : i ∈ t.doomed calls ↔
    i ∈ t.live ∧ ∃ call ∈ calls, t.MayRevoke call ∧ t.Descends i call.1 := by
  simp [doomed]

/-! ## What other revocations leave alone -/

/-- Flagging changes no owner and no link, so the same revokers are authorised. -/
theorem authorized_withRevoked (cap : Capability) (revoked : Bool) (revoker : TaskId) :
    (t.withRevoked S).authorized { cap with revoked } revoker = t.authorized cap revoker := by
  unfold authorized
  cases cap.parentCap with
  | none => rfl
  | some p =>
    simp only [slot_withRevoked]
    cases t.slot p with
    | none => rfl
    | some a => rfl

theorem mayRevoke_withRevoked : (t.withRevoked S).MayRevoke call ↔ t.MayRevoke call := by
  unfold MayRevoke
  rw [slot_withRevoked]
  constructor
  · rintro ⟨_, hs, ha⟩
    obtain ⟨cap, hcap, rfl⟩ := Option.map_eq_some_iff.mp hs
    exact ⟨cap, hcap, (authorized_withRevoked cap _ _).symm.trans ha⟩
  · rintro ⟨cap, hs, ha⟩
    exact ⟨_, Option.map_eq_some_iff.mpr ⟨cap, hs, rfl⟩,
      (authorized_withRevoked cap _ _).trans ha⟩

/-- After some slots are flagged, the calls flag what they would have flagged of the rest. -/
theorem doomed_withRevoked : (t.withRevoked S).doomed calls = t.doomed calls \ S := by
  ext i
  rw [Finset.mem_sdiff, mem_doomed, mem_doomed, live_withRevoked, Finset.mem_sdiff]
  simp only [mayRevoke_withRevoked, Descends, isParent_withRevoked_eq]
  exact and_right_comm

theorem doomed_cons : t.doomed (call :: calls) = t.doomed [call] ∪ t.doomed calls := by
  ext i
  simp only [Finset.mem_union, mem_doomed, List.mem_cons, List.not_mem_nil, or_false,
    exists_eq_or_imp, exists_eq_left]
  exact and_or_left

/-! ## A list of calls -/

/-- One call flags the live descendants of its capability when it is authorised. A call on a
capability revoked before is refused, and there is nothing left below it to flag. -/
theorem WellFormed.revoke_eq (h : t.WellFormed) (capId : CapId) (revoker : TaskId) :
    ∃ answer, t.revoke capId revoker = (answer, t.withRevoked (t.doomed [(capId, revoker)])) ∧
      revokedCount answer = (t.doomed [(capId, revoker)]).card := by
  by_cases hcall : ∃ cap, t.slot capId = some cap ∧ cap.revoked = false ∧
      t.authorized cap revoker = true
  · obtain ⟨cap, hs, hr, ha⟩ := hcall
    obtain ⟨S, hS, hF⟩ := revoke_of_authorized hs hr ha
    have hdoomed : t.doomed [(capId, revoker)] = S := by
      ext i
      rw [h.mem_cascade_iff (hF.cascade h.ids), mem_doomed]
      simp only [List.mem_singleton, exists_eq_left]
      exact and_congr_right fun _ => and_iff_right ⟨cap, hs, ha⟩
    rw [hdoomed]
    exact ⟨.ok S.card, hS, rfl⟩
  · have hdoomed : t.doomed [(capId, revoker)] = ∅ := by
      refine Finset.eq_empty_of_forall_notMem fun i hi => hcall ?_
      rw [mem_doomed] at hi
      simp only [List.mem_singleton, exists_eq_left] at hi
      obtain ⟨hlive, ⟨cap, hs, ha⟩, hd⟩ := hi
      obtain ⟨cap', hs', hr⟩ := mem_live.mp (h.livePath hd hlive).1
      obtain rfl := Option.some.inj (hs.symm.trans hs')
      exact ⟨cap, hs, hr, ha⟩
    obtain ⟨e, he⟩ := revoke_refused (t := t) (i := capId) (r := revoker) fun cap hs hr => by
      by_contra ha
      exact hcall ⟨cap, hs, hr, by simpa using ha⟩
    rw [hdoomed, withRevoked_empty]
    exact ⟨.error e, he, rfl⟩

/-- **What a list of calls achieves.** Together the calls flag the live descendants of the
capabilities that some call may revoke, and count each of them once. -/
theorem WellFormed.revokeAll_eq (h : t.WellFormed) (calls : List (CapId × TaskId)) :
    t.revokeAll calls = ((t.doomed calls).card, t.withRevoked (t.doomed calls)) := by
  induction calls generalizing t with
  | nil =>
    have hnil : t.doomed [] = ∅ := by
      ext i
      simp [mem_doomed]
    rw [hnil, withRevoked_empty]
    rfl
  | cons call calls ih =>
    obtain ⟨capId, revoker⟩ := call
    obtain ⟨answer, hrevoke, hcount⟩ := h.revoke_eq capId revoker
    have hwf : (t.withRevoked (t.doomed [(capId, revoker)])).WellFormed := by
      have hstep := h.revoke capId revoker
      rwa [hrevoke] at hstep
    simp only [revokeAll, hrevoke, ih hwf, hcount]
    rw [doomed_withRevoked, withRevoked_withRevoked, Finset.union_sdiff_self_eq_union,
      ← doomed_cons, add_comm, Finset.card_sdiff_add_card, Finset.union_comm, ← doomed_cons]

theorem doomed_perm (hperm : calls.Perm calls') : t.doomed calls = t.doomed calls' := by
  ext i
  simp only [mem_doomed, hperm.mem_iff]

/-- **Revocations commute.** From every reachable table, the calls of a list lead to the same table
in any order, and the counts returned by those that succeed have the same sum. -/
theorem revokeAll_perm (h : system.Reachable t) (hperm : calls.Perm calls') :
    t.revokeAll calls = t.revokeAll calls' := by
  have hwf := wellFormed_of_reachable h
  rw [hwf.revokeAll_eq, hwf.revokeAll_eq, doomed_perm hperm]

/-- A call on a child before, and after, the call on its parent that flags both: the counts are
`1 + 1` in one order and `2` in the other. -/
theorem revokeAll_perm_delegatedTwice :
    (delegatedTwice.foldl step new).revokeAll [(3, 3), (2, 1), (2, 3)] =
      (delegatedTwice.foldl step new).revokeAll [(2, 1), (2, 3), (3, 3)] :=
  revokeAll_perm (TransitionSystem.reachable_ofFun_iff.mpr ⟨delegatedTwice, rfl⟩)
    (List.perm_append_singleton (3, 3) [(2, 1), (2, 3)]).symm

end CapabilityTable

end OxideOS
