import OxideOS.Capability.Revocation
import OxideOS.Lib.TransitionSystem

/-!
# Confinement of authority

Capabilities form a forest along their parent links: a delegation stores a link to an older
capability, and never changes it. Along every link rights and resources only narrow, the parent
holds the delegation right, and a revoked parent has revoked children. These are facts about one
link, so they are stated as an invariant of the table and extended to whole chains by induction
along the links, which decrease.

## Main definitions

* `CapOp`, `step`, `system`: the tables that any sequence of calls builds
* `WellFormed`: the invariant of the parent links
* `ParentChain`, `Descends`: the ancestors of a capability, and the slots below one
* `Keeps`: capabilities stay with their owners, and revoked ones stay revoked
* `flipped`: the slots whose flag differs between two tables

## Main results

* `wellFormed_of_reachable`: every reachable table is well formed
* `WellFormed.keeps_run`: no run takes a capability from its owner or revives it
* `confinement`: the ancestors of a live capability are live and at least as powerful
* `revoke_exact`: a revocation flags the live descendants, and nothing else
-/

namespace OxideOS

open Relation

namespace CapabilityTable

/-- The calls that change the table. -/
inductive CapOp
  | createRoot (owner : TaskId) (resource : ResourceRef) (permissions : PermissionBits)
  | delegate (sourceId : CapId) (fromTask toTask : TaskId) (permissions : PermissionBits)
      (resourceOverride : Option ResourceRef)
  | revoke (capId : CapId) (revoker : TaskId)

/-- The table after a call, whether the call succeeds or fails. -/
def step (t : CapabilityTable) : CapOp → CapabilityTable
  | .createRoot owner resource permissions => (t.createRoot owner resource permissions).2
  | .delegate sourceId fromTask toTask permissions resourceOverride =>
    (t.delegate sourceId fromTask toTask permissions resourceOverride).2
  | .revoke capId revoker => (t.revoke capId revoker).2

/-- Any sequence of calls from the empty table. -/
def system : TransitionSystem CapabilityTable CapOp := .ofFun new step

variable {t : CapabilityTable} {i p : CapId} {c a cap : Capability} {S : Finset CapId}

/-! ## The invariant of the parent links -/

/-- What delegation guarantees of a child and its parent. -/
structure Narrows (c a : Capability) : Prop where
  delegate : a.permissions.contains PermissionBits.delegate = true
  permissions : a.permissions.contains c.permissions = true
  resource : c.resource.isSubsetOf a.resource = true

/-- Slots agree with ids, ids are below the counter, and every parent link leads to an older
capability that the child narrows and that is not revoked before the child is. -/
structure WellFormed (t : CapabilityTable) : Prop where
  ids : t.IdsMatch
  bound : ∀ i c, t.slot i = some c → i < t.nextId
  link : ∀ i c p, t.slot i = some c → c.parentCap = some p →
    ∃ a, t.slot p = some a ∧ p < i ∧ Narrows c a ∧ (a.revoked = true → c.revoked = true)

theorem wellFormed_new : new.WellFormed where
  ids i c h := by simp at h
  bound i c h := by simp at h
  link i c p h := by simp at h

/-- Storing a fresh capability leaves the older ones where they are. -/
theorem WellFormed.slot_store_of_slot (h : t.WellFormed) (hid : cap.id = t.nextId)
    (hc : t.slot i = some c) :
    (CapabilityTable.store { t with nextId := t.nextId + 1 } cap).slot i = some c := by
  rw [slot_store, hid, if_neg (h.bound i c hc).ne]
  exact hc

/-- An old capability is where it was. -/
theorem Adds.slot_of_slot {t' : CapabilityTable} (h : t.Adds cap t') (hwf : t.WellFormed)
    (hc : t.slot i = some c) : t'.slot i = some c := by
  rw [h.slot, if_neg (hwf.bound i c hc).ne]
  exact hc

/-- A fresh capability keeps the invariant when its parent, if any, is live and wider. -/
theorem WellFormed.store (h : t.WellFormed) (hid : cap.id = t.nextId)
    (hlink : ∀ p, cap.parentCap = some p →
      ∃ a, t.slot p = some a ∧ Narrows cap a ∧ a.revoked = false) :
    WellFormed (CapabilityTable.store { t with nextId := t.nextId + 1 } cap) := by
  have hslot : ∀ j, (CapabilityTable.store { t with nextId := t.nextId + 1 } cap).slot j =
      if j = t.nextId then some cap else t.slot j := by
    intro j
    rw [slot_store, hid]
    rfl
  refine ⟨fun i c hi => ?_, fun i c hi => ?_, fun i c p hi hp => ?_⟩
  · rw [hslot] at hi
    split_ifs at hi with hin
    · rw [← Option.some.inj hi, hid, hin]
    · exact h.ids i c hi
  · rw [hslot] at hi
    rw [nextId_store]
    split_ifs at hi with hin
    · exact hin ▸ Nat.lt_succ_self i
    · exact (h.bound i c hi).trans (Nat.lt_succ_self _)
  · rw [hslot] at hi
    split_ifs at hi with hin
    · obtain rfl := Option.some.inj hi
      obtain ⟨a, ha, hn, hr⟩ := hlink p hp
      exact ⟨a, h.slot_store_of_slot hid ha, hin ▸ h.bound p a ha, hn, by simp [hr]⟩
    · obtain ⟨a, ha, hlt, hn, hr⟩ := h.link i c p hi hp
      exact ⟨a, h.slot_store_of_slot hid ha, hlt, hn, hr⟩

/-- Flagging a cascade keeps the invariant: the children of a flagged capability are flagged. -/
theorem WellFormed.withRevoked {R : Set CapId} (h : t.WellFormed) (hF : t.Flags R S) :
    (t.withRevoked S).WellFormed := by
  refine ⟨h.ids.withRevoked, fun i c hi => ?_, fun i c p hi hp => ?_⟩
  · rw [slot_withRevoked] at hi
    obtain ⟨c', hc', -⟩ := Option.map_eq_some_iff.mp hi
    exact h.bound i c' hc'
  · rw [slot_withRevoked] at hi
    obtain ⟨c', hc', rfl⟩ := Option.map_eq_some_iff.mp hi
    obtain ⟨a, ha, hlt, hn, hr⟩ := h.link i c' p hc' hp
    refine ⟨{ a with revoked := a.revoked || decide (p ∈ S) }, ?_, hlt,
      ⟨hn.delegate, hn.permissions, hn.resource⟩, ?_⟩
    · rw [slot_withRevoked, ha]
      rfl
    simp only [Bool.or_eq_true, decide_eq_true_eq]
    rintro (har | hpS)
    · exact Or.inl (hr har)
    · by_cases hcr : c'.revoked = true
      · exact Or.inl hcr
      · have hil : i ∈ t.live := mem_live.mpr ⟨c', hc', by simpa using hcr⟩
        exact Or.inr ((hF.cascade h.ids).closed p hpS i hil ⟨c', hc', hp⟩)

theorem WellFormed.createRoot (h : t.WellFormed) (owner : TaskId) (resource : ResourceRef)
    (permissions : PermissionBits) :
    (t.createRoot owner resource permissions).2.WellFormed :=
  h.store rfl (fun _ hp => by cases hp)

theorem WellFormed.delegate (h : t.WellFormed) (sourceId : CapId) (fromTask toTask : TaskId)
    (permissions : PermissionBits) (resourceOverride : Option ResourceRef) :
    (t.delegate sourceId fromTask toTask permissions resourceOverride).2.WellFormed := by
  unfold CapabilityTable.delegate
  cases hd : t.delegable sourceId fromTask permissions resourceOverride with
  | error e => exact h
  | ok resource =>
    obtain ⟨source, ⟨hs, hr⟩, -, hp, hres⟩ := delegable_eq_ok.mp hd
    obtain ⟨hdel, hsub⟩ := PermissionBits.canDelegateTo_iff.mp hp
    refine h.store rfl fun p hpar => ?_
    obtain rfl := Option.some.inj hpar
    exact ⟨source, hs, ⟨hdel, hsub, isSubsetOf_of_delegatedResource hres⟩, hr⟩

theorem WellFormed.revoke (h : t.WellFormed) (capId : CapId) (revoker : TaskId) :
    (t.revoke capId revoker).2.WellFormed := by
  rcases t.revoke_cases capId revoker with ⟨e, he⟩ | ⟨S, hS, -, hF⟩
  · rw [he]
    exact h
  · rw [hS]
    exact h.withRevoked hF

theorem wellFormed_invariant : system.Invariant WellFormed where
  init t ht := by
    rw [show t = new from ht]
    exact wellFormed_new
  step t op t' h hstep := by
    obtain rfl : t.step op = t' := hstep
    cases op with
    | createRoot owner resource permissions => exact h.createRoot owner resource permissions
    | delegate sourceId fromTask toTask permissions resourceOverride =>
      exact h.delegate sourceId fromTask toTask permissions resourceOverride
    | revoke capId revoker => exact h.revoke capId revoker

theorem wellFormed_of_reachable (h : system.Reachable t) : t.WellFormed :=
  wellFormed_invariant.of_reachable h

/-! ## What the calls keep -/

/-- Every capability of `t` is in `t'`, with its owner, and revoked if it was. -/
def Keeps (t t' : CapabilityTable) : Prop :=
  ∀ i c, t.slot i = some c →
    ∃ c', t'.slot i = some c' ∧ c'.owner = c.owner ∧ (c.revoked = true → c'.revoked = true)

theorem Keeps.refl (t : CapabilityTable) : t.Keeps t := fun _ c hc => ⟨c, hc, rfl, id⟩

theorem Keeps.trans {t' t'' : CapabilityTable} (h : t.Keeps t') (h' : t'.Keeps t'') :
    t.Keeps t'' := by
  intro i c hc
  obtain ⟨c', hc', howner, hrevoked⟩ := h i c hc
  obtain ⟨c'', hc'', howner', hrevoked'⟩ := h' i c' hc'
  exact ⟨c'', hc'', howner'.trans howner, hrevoked' ∘ hrevoked⟩

theorem keeps_withRevoked : t.Keeps (t.withRevoked S) := by
  intro i c hc
  refine ⟨{ c with revoked := c.revoked || decide (i ∈ S) }, ?_, rfl, fun hr => ?_⟩
  · rw [slot_withRevoked, hc]
    rfl
  · simp [hr]

theorem WellFormed.keeps_store (h : t.WellFormed) (hid : cap.id = t.nextId) :
    t.Keeps (CapabilityTable.store { t with nextId := t.nextId + 1 } cap) :=
  fun _ c hc => ⟨c, h.slot_store_of_slot hid hc, rfl, id⟩

theorem WellFormed.keeps_step (h : t.WellFormed) (op : CapOp) : t.Keeps (t.step op) := by
  cases op with
  | createRoot owner resource permissions => exact h.keeps_store rfl
  | delegate sourceId fromTask toTask permissions resourceOverride =>
    rw [CapabilityTable.step, CapabilityTable.delegate]
    split
    · exact Keeps.refl t
    · exact h.keeps_store rfl
  | revoke capId revoker =>
    rw [CapabilityTable.step]
    rcases t.revoke_cases capId revoker with ⟨e, he⟩ | ⟨S, hS, -, -⟩
    · rw [he]
      exact Keeps.refl t
    · rw [hS]
      exact keeps_withRevoked

/-- Along every run capabilities stay with their owners, and a revoked one stays revoked. -/
theorem WellFormed.keeps_run {t' : CapabilityTable} {ops : List CapOp} (h : t.WellFormed)
    (hrun : system.Run t ops t') : t.Keeps t' := by
  refine (hrun.preserves (P := fun t' => t'.WellFormed ∧ t.Keeps t') ?_ ⟨h, Keeps.refl t⟩).2
  rintro s op s' ⟨hs, hkeeps⟩ hstep
  obtain rfl : s.step op = s' := hstep
  exact ⟨wellFormed_invariant.step s op _ hs rfl, hkeeps.trans (hs.keeps_step op)⟩

/-! ## Ancestors -/

/-- `ParentChain t c as`: following the parent links from `c` meets the capabilities `as` and ends
at one without a parent. -/
inductive ParentChain (t : CapabilityTable) : Capability → List Capability → Prop
  | root {c : Capability} : c.parentCap = none → ParentChain t c []
  | link {c a : Capability} {p : CapId} {as : List Capability} :
      c.parentCap = some p → t.slot p = some a → ParentChain t a as → ParentChain t c (a :: as)

/-- Links lead to older capabilities, so every chain ends. -/
theorem WellFormed.exists_parentChain (h : t.WellFormed) (i : CapId) :
    ∀ c, t.slot i = some c → ∃ as, t.ParentChain c as := by
  induction i using Nat.strong_induction_on with
  | _ i ih =>
    intro c hc
    cases hp : c.parentCap with
    | none => exact ⟨[], .root hp⟩
    | some p =>
      obtain ⟨a, ha, hlt, -, -⟩ := h.link i c p hc hp
      obtain ⟨as, has⟩ := ih p hlt a ha
      exact ⟨a :: as, .link hp ha has⟩

/-- What is known of one link holds of the whole chain, narrowing being transitive. -/
theorem ParentChain.narrows (h : t.WellFormed) {as : List Capability} (hch : t.ParentChain c as)
    (hc : t.slot i = some c) (hr : c.revoked = false) :
    ∀ a ∈ as, t.slot a.id = some a ∧ a.revoked = false ∧ Narrows c a := by
  induction hch generalizing i with
  | root => simp
  | @link c b p as hp hb hrest ih =>
    obtain ⟨b', hb', -, hn, hrev⟩ := h.link i c p hc hp
    obtain rfl : b' = b := Option.some.inj (hb'.symm.trans hb)
    have hbr : b'.revoked = false := by
      by_contra hcon
      rw [hrev (by simpa using hcon)] at hr
      cases hr
    intro a ha
    rcases List.mem_cons.mp ha with rfl | ha
    · exact ⟨by rw [h.ids p a hb, hb], hbr, hn⟩
    · obtain ⟨hs, har, hn'⟩ := ih hb hbr a ha
      exact ⟨hs, har, hn'.delegate, PermissionBits.contains_trans hn'.permissions hn.permissions,
        ResourceRef.isSubsetOf_trans hn.resource hn'.resource⟩

/-- **Capability confinement.** In every reachable table the parent links of a live capability end
at a root, and every proper ancestor on the way is present and live, may delegate, and holds at
least the rights and the resource of the capability. -/
theorem confinement (h : system.Reachable t) (hc : t.slot i = some c) (hr : c.revoked = false) :
    ∃ as, t.ParentChain c as ∧ ∀ a ∈ as, t.slot a.id = some a ∧ a.revoked = false ∧
      a.permissions.contains PermissionBits.delegate = true ∧
      a.permissions.contains c.permissions = true ∧ c.resource.isSubsetOf a.resource = true := by
  have hwf := wellFormed_of_reachable h
  obtain ⟨as, has⟩ := hwf.exists_parentChain i c hc
  refine ⟨as, has, fun a ha => ?_⟩
  obtain ⟨hs, har, hn⟩ := has.narrows hwf hc hr a ha
  exact ⟨hs, har, hn.delegate, hn.permissions, hn.resource⟩

/-- A storage root delegated twice, each time to a longer path. -/
def delegatedTwice : List CapOp :=
  [.createRoot 1 (.storage "/") .all, .delegate 1 1 2 .all (some (.storage "/agents")),
    .delegate 2 2 3 .read (some (.storage "/agents/3"))]

theorem confinement_delegatedTwice :
    ∃ as, (delegatedTwice.foldl step new).ParentChain
        ⟨3, .storage "/agents/3", .read, 3, some 2, false⟩ as ∧
      ∀ a ∈ as, (delegatedTwice.foldl step new).slot a.id = some a ∧ a.revoked = false ∧
        a.permissions.contains PermissionBits.delegate = true ∧
        a.permissions.contains PermissionBits.read = true ∧
        (ResourceRef.storage "/agents/3").isSubsetOf a.resource = true :=
  confinement (i := 3) (TransitionSystem.reachable_ofFun_iff.mpr ⟨delegatedTwice, rfl⟩)
    (by decide) rfl

/-! ## Descendants -/

/-- `i` is `root` or lies below it along the parent links. -/
def Descends (t : CapabilityTable) (i root : CapId) : Prop := ReflTransGen t.IsParent root i

/-- The parent of a live capability is live. -/
theorem WellFormed.live_of_isParent (h : t.WellFormed) (hi : i ∈ t.live) (hp : t.IsParent p i) :
    p ∈ t.live := by
  obtain ⟨c, hc, hparent⟩ := hp
  obtain ⟨c', hc', hlive⟩ := mem_live.mp hi
  obtain rfl := Option.some.inj (hc.symm.trans hc')
  obtain ⟨a, ha, -, -, hrevoked⟩ := h.link i c p hc hparent
  refine mem_live.mpr ⟨a, ha, ?_⟩
  by_contra hcon
  rw [hrevoked (by simpa using hcon)] at hlive
  cases hlive

/-- The whole path to a live capability is live. -/
theorem WellFormed.livePath (h : t.WellFormed) {root : CapId} (hd : t.Descends i root)
    (hi : i ∈ t.live) :
    root ∈ t.live ∧ ReflTransGen (LiveEdge t.IsParent t.live) root i := by
  unfold Descends at hd
  induction hd with
  | refl => exact ⟨hi, .refl⟩
  | @tail b x _ hparent ih =>
    obtain ⟨hroot, hpath⟩ := ih (h.live_of_isParent hi hparent)
    exact ⟨hroot, hpath.tail ⟨hparent, hi⟩⟩

/-- Below a capability everything live is reached through live capabilities, so a cascade takes
exactly the live descendants. -/
theorem WellFormed.mem_cascade_iff (h : t.WellFormed) {root : CapId}
    (hS : Cascade t.IsParent t.live {root} S) : i ∈ S ↔ i ∈ t.live ∧ t.Descends i root := by
  constructor
  · intro hi
    obtain ⟨r, hr, -, hpath⟩ := hS.mem_iff.mp hi
    obtain rfl := Set.mem_singleton_iff.mp hr
    exact ⟨hS.sub hi, ReflTransGen.mono (fun _ _ he => he.1) _ _ hpath⟩
  · rintro ⟨hi, hd⟩
    obtain ⟨hroot, hpath⟩ := h.livePath hd hi
    exact hS.mem_iff.mpr ⟨root, rfl, hroot, hpath⟩

/-- The slots whose flag differs between two tables. -/
def flipped (t t' : CapabilityTable) : Finset CapId :=
  {i ∈ Finset.range t.capabilities.length |
    (t.slot i).map Capability.revoked ≠ (t'.slot i).map Capability.revoked}

theorem flipped_withRevoked (hS : S ⊆ t.live) : flipped t (t.withRevoked S) = S := by
  ext i
  simp only [flipped, Finset.mem_filter, Finset.mem_range, slot_withRevoked, Option.map_map]
  constructor
  · rintro ⟨-, hne⟩
    by_contra hi
    refine hne ?_
    congr 1
    funext c
    simp [hi]
  · intro hi
    obtain ⟨c, hc, hr⟩ := mem_live.mp (hS hi)
    refine ⟨lt_length_of_slot hc, ?_⟩
    simp [hc, hr, hi]

/-- **Revocation is exact.** In every reachable table a failed call changes nothing; a call that
returns `n` flips the flag of the capability and of its live descendants, `n` of them, and leaves
every other field, the counter and the number of slots alone. -/
theorem revoke_exact (h : system.Reachable t) (id : CapId) (revoker : TaskId) :
    (∀ e, (t.revoke id revoker).1 = .error e → (t.revoke id revoker).2 = t) ∧
      ∀ n t', t.revoke id revoker = (.ok n, t') →
        (∀ i, i ∈ flipped t t' ↔
          ∃ c, t.slot i = some c ∧ c.revoked = false ∧ t.Descends i id) ∧
        id ∈ flipped t t' ∧
        n = (flipped t t').card ∧
        t'.activeCount + n = t.activeCount ∧
        (∀ i, (t'.slot i).map (fun c => { c with revoked := false }) =
          (t.slot i).map fun c => { c with revoked := false }) ∧
        t'.capabilities.length = t.capabilities.length ∧ t'.nextId = t.nextId := by
  have hwf := wellFormed_of_reachable h
  rcases t.revoke_cases id revoker with ⟨e, he⟩ | ⟨S, hS, hid, hF⟩
  · rw [he]
    refine ⟨fun _ _ => rfl, fun n t' hok => ?_⟩
    cases hok
  · rw [hS]
    refine ⟨fun e he => (nomatch he), fun n t' hok => ?_⟩
    obtain ⟨hn, rfl⟩ := Prod.mk.inj hok
    obtain rfl : S.card = n := Except.ok.inj hn
    have hcas := hF.cascade hwf.ids
    rw [flipped_withRevoked hF.sub, activeCount_eq, activeCount_eq, live_withRevoked]
    refine ⟨fun i => ?_, hcas.root id rfl hid, rfl, Finset.card_sdiff_add_card_eq_card hF.sub,
      fun i => ?_, length_withRevoked, nextId_withRevoked⟩
    · rw [hwf.mem_cascade_iff hcas, mem_live]
      constructor
      · rintro ⟨⟨c, hc, hr⟩, hd⟩
        exact ⟨c, hc, hr, hd⟩
      · rintro ⟨c, hc, hr, hd⟩
        exact ⟨⟨c, hc, hr⟩, hd⟩
    · rw [slot_withRevoked, Option.map_map]
      rfl

theorem revoke_exact_delegatedTwice :
    (flipped (delegatedTwice.foldl step new)
      ((delegatedTwice.foldl step new).revoke 2 1).2).card = 2 :=
  (((revoke_exact (TransitionSystem.reachable_ofFun_iff.mpr ⟨delegatedTwice, rfl⟩) 2 1).2 2
    ((delegatedTwice.foldl step new).revoke 2 1).2 (by decide)).2.2.1).symm

end CapabilityTable

end OxideOS
