import OxideOS.Ipc.SharedMemory
import Mathlib.Logic.Relation

/-!
# Authority over shared memory

Authority over a region should flow from its owner.  Whoever holds a capability over an address of
the region is the owner, or was handed the capability by a task that could pass the address on at
that time, and so on back to the owner; and what was handed out on account of the region's
capability is gone once that is revoked.

Delegation has both properties: the new capability narrows the one that is presented, and is linked
to it.  `grant_access` has neither.  It accepts any capability with the right to delegate, whatever
memory that is over, and the capability it makes has no parent, so no revocation reaches it.

The runs keep a record of which capability was handed out when, by whom and to whom, on account of
which other one.

## Main definitions

* `RegionEvent`, `SharedMemory.observe`, `SharedMemory.system`: runs with their record
* `Entrusted`: handed on from the owner, address by address
* `OnAccount`: handed out on account of a capability
* `SharedMemory.Authority`: what should hold
* `SharedMemory.Careful`: the calls that keep it

## Main results

* `SharedMemory.authority_step_iff`: which calls keep it
* `SharedMemory.region_authority`: authority along runs
-/

namespace OxideOS

open Relation

/-- A capability that was handed to a task: on account of which capability, by which task, and what
the capability table was at that time. -/
structure Handover where
  cap : CapId
  account : CapId
  giver : TaskId
  taker : TaskId
  caps : CapabilityTable
deriving DecidableEq

/-- What is recorded of a call that succeeds. -/
inductive RegionEvent
  /-- A region, with the capability of its owner. -/
  | created (region : SharedRegionId) (cap : CapId)
  | handedOver (handover : Handover)
deriving DecidableEq

/-- The task can pass on the address through this capability. -/
def CapabilityTable.MayPass (t : CapabilityTable) (task : TaskId) (address : Nat) (i : CapId) :
    Prop :=
  ∃ cap, t.slot i = some cap ∧ cap.revoked = false ∧ cap.owner = task ∧
    cap.permissions.contains .delegate = true ∧ cap.resource.CoversAddress address

/-- The task got the capability from the owner of the address, directly or through other tasks, each
of which could pass the address on when it did so. -/
inductive Entrusted (owner : TaskId) (address : Nat) :
    List RegionEvent → CapId → TaskId → Prop
  | owner (log : List RegionEvent) (i : CapId) : Entrusted owner address log i owner
  | passed {log : List RegionEvent} {h : Handover} {j : CapId} (rest : List RegionEvent)
      (hpass : h.caps.MayPass h.giver address j) (hgiver : Entrusted owner address log j h.giver) :
      Entrusted owner address (log ++ .handedOver h :: rest) h.cap h.taker

/-- One capability was handed out when the other was presented. -/
def HandedOn (log : List RegionEvent) (j i : CapId) : Prop :=
  ∃ h : Handover, .handedOver h ∈ log ∧ h.account = j ∧ h.cap = i

/-- The capability `i` was handed out on account of `j`. -/
def OnAccount (log : List RegionEvent) (j i : CapId) : Prop := TransGen (HandedOn log) j i

namespace SharedMemory

/-- What is recorded of a region that is created. -/
def recordCreated (caps : CapabilityTable) :
    Option (Except IpcError SharedRegionId × SharedMemory) → List RegionEvent
  | some (.ok id, _) => [.created id caps.nextId]
  | some (.error _, _) | none => []

/-- What is recorded of a capability that is handed out. -/
def recordHanded {ε : Type} (account : CapId) (giver taker : TaskId) (caps : CapabilityTable) :
    Except ε CapId → List RegionEvent
  | .ok cap => [.handedOver ⟨cap, account, giver, taker, caps⟩]
  | .error _ => []

/-- What is recorded of a call. -/
def observe (s : SharedMemory) : SharedOp → List RegionEvent
  | .createRegion owner size => recordCreated s.caps (s.createRegion owner size)
  | .grantAccess regionId granter grantee granterCap =>
    recordHanded granterCap granter grantee s.caps
      (s.grantAccess regionId granter grantee granterCap).1
  | .delegate sourceId fromTask toTask permissions resourceOverride =>
    recordHanded sourceId fromTask toTask s.caps
      (s.caps.delegate sourceId fromTask toTask permissions resourceOverride).1
  | .revoke _ _ => []

/-- Any calls after boot, with their record. -/
def system (frames : Option BitmapFrameAllocator) :
    TransitionSystem (SharedMemory × List RegionEvent) SharedOp :=
  .recorded (boot frames) step observe

/-- **Authority over regions flows from their owners.**  Every live capability over an address of a
region belongs to the owner of the region or was passed on from it; and once the capability of a
region is revoked, no live capability over an address of the region was handed out on account of
it. -/
structure Authority (s : SharedMemory) (log : List RegionEvent) : Prop where
  entrusted : ∀ (id : SharedRegionId) (region : SharedRegion) (i : CapId) (cap : Capability)
    (address : Nat), s.regions[id]? = some region → s.caps.slot i = some cap →
    cap.revoked = false → region.resource.CoversAddress address →
    cap.resource.CoversAddress address → Entrusted region.owner address log i cap.owner
  revoked : ∀ (id : SharedRegionId) (region : SharedRegion) (j i : CapId) (c cap : Capability)
    (address : Nat), .created id j ∈ log → s.regions[id]? = some region →
    s.caps.slot j = some c → c.revoked = true → s.caps.slot i = some cap →
    cap.revoked = false → OnAccount log j i → region.resource.CoversAddress address →
    ¬cap.resource.CoversAddress address

/-- The calls that keep authority over regions with their owners: a grant to the owner, or by a task
that can pass on every address of the region; and the revocation of the capability of a region when
everything over its memory that was handed out on account of it is linked to it. -/
def Careful (x : SharedMemory × List RegionEvent) : SharedOp → Prop
  | .grantAccess regionId granter grantee granterCap =>
    ∀ (cap : Capability) (region : SharedRegion),
      x.1.caps.validate granterCap granter .delegate = .ok cap →
      x.1.regions[regionId]? = some region →
      grantee = region.owner ∨
        ∀ address, region.resource.CoversAddress address →
          ∃ j, x.1.caps.MayPass granter address j
  | .revoke capId revoker =>
    ∀ n, (x.1.caps.revoke capId revoker).1 = .ok n →
      ∀ (id : SharedRegionId) (region : SharedRegion) (i : CapId) (cap : Capability)
        (address : Nat), .created id capId ∈ x.2 → x.1.regions[id]? = some region →
        x.1.caps.slot i = some cap → cap.revoked = false → OnAccount x.2 capId i →
        region.resource.CoversAddress address → cap.resource.CoversAddress address →
        x.1.caps.Descends i capId
  | .createRegion _ _ | .delegate _ _ _ _ _ => True

/-- What the record says about the state. -/
structure Recorded (s : SharedMemory) (log : List RegionEvent) : Prop where
  /-- Handed out were capabilities of the table, and what is not linked to the capability that was
  presented cannot be passed on. -/
  handed : ∀ h : Handover, .handedOver h ∈ log →
    h.account < h.cap ∧ ∃ cap, s.caps.slot h.cap = some cap ∧
      (cap.parentCap = some h.account ∨ cap.permissions.contains .delegate = false)
  /-- The capability of a region has no parent. -/
  created : ∀ id j, .created id j ∈ log →
    id < s.nextRegionId ∧ ∃ c, s.caps.slot j = some c ∧ c.parentCap = none

end SharedMemory

/-! ## The record grows -/

section Log

variable {log rest : List RegionEvent} {h : Handover} {i j : CapId} {owner task : TaskId}
  {address : Nat}

theorem Entrusted.append (he : Entrusted owner address log i task) (rest : List RegionEvent) :
    Entrusted owner address (log ++ rest) i task := by
  cases he with
  | owner => exact .owner _ _
  | @passed log h j rest' hpass hgiver =>
    rw [List.append_assoc, List.cons_append]
    exact .passed (rest' ++ rest) hpass hgiver

/-- The owner apart, a task is entrusted with what was handed to it. -/
theorem Entrusted.cases (he : Entrusted owner address log i task) :
    task = owner ∨ ∃ h : Handover, .handedOver h ∈ log ∧ h.cap = i ∧
      ∃ j, h.caps.MayPass h.giver address j := by
  cases he with
  | owner => exact .inl rfl
  | @passed log h j rest hpass hgiver =>
    exact .inr ⟨h, List.mem_append_right _ List.mem_cons_self, rfl, j, hpass⟩

theorem handedOn_created {id : SharedRegionId} {k : CapId} :
    HandedOn (log ++ [.created id k]) j i ↔ HandedOn log j i := by
  simp [HandedOn]

theorem handedOn_handedOver :
    HandedOn (log ++ [.handedOver h]) j i ↔ HandedOn log j i ∨ (h.account = j ∧ h.cap = i) := by
  simp only [HandedOn, List.mem_append, List.mem_singleton, RegionEvent.handedOver.injEq]
  constructor
  · rintro ⟨h', hmem | rfl, hj, hi⟩
    · exact .inl ⟨h', hmem, hj, hi⟩
    · exact .inr ⟨hj, hi⟩
  · rintro (⟨h', hmem, hj, hi⟩ | ⟨hj, hi⟩)
    · exact ⟨h', .inl hmem, hj, hi⟩
    · exact ⟨h, .inr rfl, hj, hi⟩

theorem OnAccount.of_created {id : SharedRegionId} {k : CapId}
    (ha : OnAccount (log ++ [.created id k]) j i) : OnAccount log j i := by
  induction ha with
  | single hedge => exact .single (handedOn_created.mp hedge)
  | tail _ hedge ih => exact ih.tail (handedOn_created.mp hedge)

/-- A capability on whose account nothing was handed out before is only ever the last. -/
theorem OnAccount.of_handedOver (ha : OnAccount (log ++ [.handedOver h]) j i)
    (hfresh : ∀ k, ¬HandedOn log h.cap k) (hne : h.account ≠ h.cap) :
    OnAccount log j i ∨ i = h.cap ∧ (h.account = j ∨ OnAccount log j h.account) := by
  induction ha with
  | single hedge =>
    rcases handedOn_handedOver.mp hedge with hedge | ⟨hj, hi⟩
    · exact .inl (.single hedge)
    · exact .inr ⟨hi.symm, .inl hj⟩
  | tail _ hedge ih =>
    rcases handedOn_handedOver.mp hedge with hedge | ⟨rfl, rfl⟩
    · rcases ih with hpath | ⟨rfl, -⟩
      · exact .inl (hpath.tail hedge)
      · exact absurd hedge (hfresh _)
    · rcases ih with hpath | ⟨heq, -⟩
      · exact .inr ⟨rfl, .inr hpath⟩
      · exact absurd heq hne

end Log

namespace SharedMemory

variable {s s' : SharedMemory} {log : List RegionEvent} {m : Nat} {h : Handover} {i j : CapId}
  {c cap : Capability}

/-! ## What the record says -/

theorem Recorded.lt_nextId (hr : s.Recorded log) (hwf : s.caps.WellFormed)
    (hh : .handedOver h ∈ log) : h.cap < s.caps.nextId := by
  obtain ⟨-, cap, hcap, -⟩ := hr.handed h hh
  exact hwf.bound h.cap cap hcap

/-- Nothing has been handed out on account of a capability that is yet to be made. -/
theorem Recorded.not_handedOn (hr : s.Recorded log) (hwf : s.caps.WellFormed) (k : CapId) :
    ¬HandedOn log s.caps.nextId k := by
  rintro ⟨h, hh, haccount, -⟩
  have hlt := (hr.handed h hh).1
  rw [haccount] at hlt
  exact Nat.lt_asymm hlt (hr.lt_nextId hwf hh)

theorem Recorded.not_onAccount (hr : s.Recorded log) (hwf : s.caps.WellFormed) (k : CapId) :
    ¬OnAccount log k s.caps.nextId := by
  intro hpath
  obtain ⟨b, -, h, hh, -, hcap⟩ := TransGen.tail'_iff.mp hpath
  have hlt := hr.lt_nextId hwf hh
  rw [hcap] at hlt
  exact Nat.lt_irrefl _ hlt

/-- What is left of the capabilities handed out on account of a revoked one cannot be passed on: it
is not linked to a capability before it, since that would be revoked as well. -/
theorem Recorded.not_delegate (hr : s.Recorded log) (hwf : s.caps.WellFormed)
    (hj : s.caps.slot j = some c) (hrevoked : c.revoked = true) (hpath : OnAccount log j i) :
    ∀ cap, s.caps.slot i = some cap → cap.revoked = false →
      cap.permissions.contains .delegate = false := by
  have hstep : ∀ b i cap, HandedOn log b i → s.caps.slot i = some cap → cap.revoked = false →
      cap.permissions.contains .delegate = false ∨ ∃ a, s.caps.slot b = some a ∧
        a.revoked = false ∧ a.permissions.contains .delegate = true := by
    rintro b i cap ⟨h, hh, rfl, rfl⟩ hcap hlive
    obtain ⟨-, cap', hcap', hlink⟩ := hr.handed h hh
    obtain rfl := Option.some.inj (hcap.symm.trans hcap')
    refine hlink.symm.imp_right fun hparent => ?_
    obtain ⟨a, ha, -, hnarrows, hrev⟩ := hwf.link h.cap cap h.account hcap hparent
    refine ⟨a, ha, ?_, hnarrows.delegate⟩
    by_contra hcon
    rw [hrev (Bool.eq_true_of_not_eq_false hcon)] at hlive
    cases hlive
  induction hpath with
  | single hedge =>
    intro cap hcap hlive
    refine (hstep _ _ cap hedge hcap hlive).resolve_right ?_
    rintro ⟨a, ha, halive, -⟩
    obtain rfl := Option.some.inj (hj.symm.trans ha)
    rw [hrevoked] at halive
    cases halive
  | tail _ hedge ih =>
    intro cap hcap hlive
    refine (hstep _ _ cap hedge hcap hlive).resolve_right ?_
    rintro ⟨a, ha, halive, hdelegate⟩
    rw [ih a ha halive] at hdelegate
    cases hdelegate

/-! ## Handing out a capability -/

/-- A capability is handed out: it is new, and the task that hands it out has presented a live
capability of its own that may be delegated. -/
structure HandsOver (s : SharedMemory) (h : Handover) (cap : Capability) (s' : SharedMemory) :
    Prop where
  caps : h.caps = s.caps
  id : h.cap = s.caps.nextId
  taker : h.taker = cap.owner
  adds : s.caps.Adds cap s'.caps
  account : ∃ source, s.caps.slot h.account = some source ∧ source.revoked = false ∧
    source.permissions.contains .delegate = true
  link : cap.parentCap = some h.account ∨ cap.permissions.contains .delegate = false
  regions : ∀ (id : SharedRegionId) (region' : SharedRegion), s'.regions[id]? = some region' →
    ∃ region : SharedRegion, s.regions[id]? = some region ∧ region.owner = region'.owner ∧
      region.resource = region'.resource
  nextRegionId : s'.nextRegionId = s.nextRegionId

theorem HandsOver.recorded (hs : HandsOver s h cap s') (hr : s.Recorded log)
    (hwf : s.caps.WellFormed) : s'.Recorded (log ++ [.handedOver h]) := by
  constructor
  · intro h' hmem
    rcases List.mem_append.mp hmem with hmem | hmem
    · obtain ⟨hlt, cap', hcap', hlink⟩ := hr.handed h' hmem
      exact ⟨hlt, cap', hs.adds.slot_of_slot hwf hcap', hlink⟩
    · obtain rfl : h' = h := by simpa using hmem
      obtain ⟨source, hsource, -⟩ := hs.account
      refine ⟨hs.id ▸ hwf.bound _ _ hsource, cap, ?_, hs.link⟩
      rw [hs.adds.slot, hs.id, if_pos rfl]
  · intro id k hmem
    rw [hs.nextRegionId]
    have hmem' : .created id k ∈ log := by simpa using hmem
    obtain ⟨hid, c, hc, hroot⟩ := hr.created id k hmem'
    exact ⟨hid, c, hs.adds.slot_of_slot hwf hc, hroot⟩

/-- Nothing is handed out on account of a revoked capability. -/
theorem HandsOver.revoked (hs : HandsOver s h cap s') (hr : s.Recorded log)
    (hwf : s.caps.WellFormed) (ha : s.Authority log) (id : SharedRegionId)
    (region' : SharedRegion) (j i : CapId) (c cap' : Capability) (address : Nat)
    (hid : .created id j ∈ log ++ [.handedOver h]) (hregion' : s'.regions[id]? = some region')
    (hj : s'.caps.slot j = some c) (hrevoked : c.revoked = true)
    (hi : s'.caps.slot i = some cap') (hlive : cap'.revoked = false)
    (hpath : OnAccount (log ++ [.handedOver h]) j i)
    (hcovers : region'.resource.CoversAddress address) :
    ¬cap'.resource.CoversAddress address := by
  have hid' : .created id j ∈ log := by simpa using hid
  obtain ⟨region, hregion, -, hresource⟩ := hs.regions id region' hregion'
  obtain ⟨-, cj, hcj, -⟩ := hr.created id j hid'
  obtain rfl := Option.some.inj (hj.symm.trans (hs.adds.slot_of_slot hwf hcj))
  obtain ⟨source, hsource, hsourceLive, hdelegate⟩ := hs.account
  have hfresh : ∀ k, ¬HandedOn log h.cap k := hs.id ▸ hr.not_handedOn hwf
  have hne : h.account ≠ h.cap := hs.id ▸ (hwf.bound _ _ hsource).ne
  rcases hpath.of_handedOver hfresh hne with hpath | ⟨-, rfl | hpath⟩
  · have hold : s.caps.slot i = some cap' := by
      rw [hs.adds.slot] at hi
      split_ifs at hi with heq
      · exact absurd (heq ▸ hpath) (hr.not_onAccount hwf j)
      · exact hi
    exact ha.revoked id region j i c cap' address hid' hregion hcj hrevoked hold hlive hpath
      (hresource ▸ hcovers)
  · obtain rfl := Option.some.inj (hcj.symm.trans hsource)
    rw [hrevoked] at hsourceLive
    cases hsourceLive
  · rw [hr.not_delegate hwf hcj hrevoked hpath source hsource hsourceLive] at hdelegate
    cases hdelegate

/-- So authority stays with the owners exactly when the new capability is one that the taker was
entrusted with. -/
theorem HandsOver.authority_iff (hs : HandsOver s h cap s') (hr : s.Recorded log)
    (hwf : s.caps.WellFormed) (ha : s.Authority log) :
    s'.Authority (log ++ [.handedOver h]) ↔
      ∀ (id : SharedRegionId) (region' : SharedRegion) (address : Nat),
        s'.regions[id]? = some region' → region'.resource.CoversAddress address →
        cap.resource.CoversAddress address →
        Entrusted region'.owner address (log ++ [.handedOver h]) s.caps.nextId cap.owner := by
  have hnew : s'.caps.slot s.caps.nextId = some cap := by rw [hs.adds.slot, if_pos rfl]
  constructor
  · intro hafter id region' address hregion' hcovers hcap
    exact hafter.entrusted id region' _ cap address hregion' hnew hs.adds.live hcovers hcap
  · intro hentrusted
    refine ⟨?_, hs.revoked hr hwf ha⟩
    intro id region' i cap' address hregion' hi hlive hcovers hcap
    rw [hs.adds.slot] at hi
    split_ifs at hi with heq
    · obtain rfl := Option.some.inj hi
      rw [heq]
      exact hentrusted id region' address hregion' hcovers hcap
    · obtain ⟨region, hregion, howner, hresource⟩ := hs.regions id region' hregion'
      rw [← howner]
      apply Entrusted.append
      exact ha.entrusted id region i cap' address hregion hi hlive (hresource ▸ hcovers) hcap

/-! ## Grants -/

theorem handsOver_grantAccess {regionId : SharedRegionId} {granter : TaskId}
    {granterCap : CapId} {source : Capability} {region : SharedRegion}
    (hvalid : s.caps.validate granterCap granter .delegate = .ok source)
    (hregion : s.regions[regionId]? = some region) (grantee : TaskId) :
    HandsOver s ⟨s.caps.nextId, granterCap, granter, grantee, s.caps⟩
      ⟨s.caps.nextId, region.resource, .read, grantee, none, false⟩
      (s.grantAccess regionId granter grantee granterCap).2 := by
  obtain ⟨hsource, hlive, -, hdelegate⟩ := CapabilityTable.validate_eq_ok.mp hvalid
  have hread : PermissionBits.read.contains .delegate = false := by decide
  rw [grantAccess_of_valid hvalid hregion]
  refine ⟨rfl, rfl, rfl, s.caps.adds_createRoot grantee region.resource .read,
    ⟨source, hsource, hlive, hdelegate⟩, .inr hread, ?_, rfl⟩
  intro id region' hid
  rw [Std.ExtTreeMap.getElem?_insert_eq_ite] at hid
  split_ifs at hid with heq
  · obtain rfl := Option.some.inj hid
    exact ⟨region, heq ▸ hregion, rfl, rfl⟩
  · exact ⟨region', hid, rfl, rfl⟩

theorem observe_grantAccess {regionId : SharedRegionId} {granter grantee : TaskId}
    {granterCap : CapId} {source : Capability} {region : SharedRegion}
    (hvalid : s.caps.validate granterCap granter .delegate = .ok source)
    (hregion : s.regions[regionId]? = some region) :
    s.observe (.grantAccess regionId granter grantee granterCap) =
      [.handedOver ⟨s.caps.nextId, granterCap, granter, grantee, s.caps⟩] := by
  rw [observe, grantAccess_of_valid hvalid hregion, recordHanded]

/-- A grant is passed on from the owner exactly when the granter could pass on the whole region. -/
theorem entrusted_grant_iff {regionId : SharedRegionId} {granter grantee : TaskId}
    {granterCap : CapId} {source : Capability} {region : SharedRegion} (hp : s.Placed m)
    (hr : s.Recorded log) (ha : s.Authority log)
    (hvalid : s.caps.validate granterCap granter .delegate = .ok source)
    (hregion : s.regions[regionId]? = some region) :
    (∀ (id : SharedRegionId) (region' : SharedRegion) (address : Nat),
      (s.grantAccess regionId granter grantee granterCap).2.regions[id]? = some region' →
      region'.resource.CoversAddress address → region.resource.CoversAddress address →
      Entrusted region'.owner address
        (log ++ [.handedOver ⟨s.caps.nextId, granterCap, granter, grantee, s.caps⟩])
        s.caps.nextId grantee) ↔
      (grantee = region.owner ∨
        ∀ address, region.resource.CoversAddress address →
          ∃ j, s.caps.MayPass granter address j) := by
  constructor
  · intro hentrusted
    refine or_iff_not_imp_left.mpr fun howner address hcovers => ?_
    have hregion' : (s.grantAccess regionId granter grantee granterCap).2.regions[regionId]? =
        some { region with grants := region.grants ++ [grantee] } := by
      rw [grantAccess_of_valid hvalid hregion]
      exact Std.ExtTreeMap.getElem?_insert_self
    rcases (hentrusted regionId _ address hregion' hcovers hcovers).cases with
      htask | ⟨h, hmem, hcap, j, hpass⟩
    · exact absurd htask howner
    · rcases List.mem_append.mp hmem with hmem | hmem
      · have hlt := hr.lt_nextId hp.wellFormed hmem
        rw [hcap] at hlt
        exact absurd hlt (Nat.lt_irrefl _)
      · obtain rfl := RegionEvent.handedOver.inj (List.mem_singleton.mp hmem)
        exact ⟨j, hpass⟩
  · intro hgrant id region' address hregion' hcovers' hcovers
    obtain ⟨region₀, hregion₀, howner₀, hresource₀⟩ :=
      (handsOver_grantAccess hvalid hregion grantee).regions id region' hregion'
    obtain rfl := hp.apart id regionId region₀ region address hregion₀ hregion
      (hresource₀ ▸ hcovers') hcovers
    obtain rfl := Option.some.inj (hregion₀.symm.trans hregion)
    rw [← howner₀]
    rcases hgrant with rfl | hpasses
    · exact .owner _ _
    · obtain ⟨j, hpass⟩ := hpasses address hcovers
      have hheld := hpass
      obtain ⟨cap, hcap, hlive, howner, -, hcapCovers⟩ := hheld
      have hgiver := ha.entrusted _ region₀ j cap address hregion hcap hlive hcovers hcapCovers
      rw [howner] at hgiver
      exact .passed [] hpass hgiver

theorem authority_grantAccess_iff {regionId : SharedRegionId} {granter grantee : TaskId}
    {granterCap : CapId} (hp : s.Placed m) (hr : s.Recorded log) (ha : s.Authority log) :
    (s.grantAccess regionId granter grantee granterCap).2.Recorded
        (log ++ s.observe (.grantAccess regionId granter grantee granterCap)) ∧
      ((s.grantAccess regionId granter grantee granterCap).2.Authority
          (log ++ s.observe (.grantAccess regionId granter grantee granterCap)) ↔
        Careful (s, log) (.grantAccess regionId granter grantee granterCap)) := by
  rcases s.grantAccess_cases regionId granter grantee granterCap with
    ⟨e, he⟩ | ⟨source, region, hvalid, hregion⟩
  · have hobserve : s.observe (.grantAccess regionId granter grantee granterCap) = [] := by
      rw [observe, he, recordHanded]
    rw [hobserve, he, List.append_nil]
    refine ⟨hr, iff_of_true ha ?_⟩
    intro cap region hvalid hregion
    rw [grantAccess_of_valid hvalid hregion] at he
    cases he
  · have hs := handsOver_grantAccess hvalid hregion grantee
    rw [observe_grantAccess hvalid hregion]
    refine ⟨hs.recorded hr hp.wellFormed, ?_⟩
    rw [hs.authority_iff hr hp.wellFormed ha, entrusted_grant_iff hp hr ha hvalid hregion]
    constructor
    · intro hgrant cap region' hvalid' hregion'
      obtain rfl := Option.some.inj (hregion.symm.trans hregion')
      exact hgrant
    · intro hcareful
      exact hcareful source region hvalid hregion

/-! ## Delegations, new regions and revocations -/

theorem authority_delegate {sourceId : CapId} {fromTask toTask : TaskId}
    {permissions : PermissionBits} {resourceOverride : Option ResourceRef} (hp : s.Placed m)
    (hr : s.Recorded log) (ha : s.Authority log)
    (hs' : s' = { s with
      caps := (s.caps.delegate sourceId fromTask toTask permissions resourceOverride).2 }) :
    s'.Recorded
        (log ++ s.observe (.delegate sourceId fromTask toTask permissions resourceOverride)) ∧
      s'.Authority
        (log ++ s.observe (.delegate sourceId fromTask toTask permissions resourceOverride)) := by
  rcases s.caps.delegate_cases sourceId fromTask toTask permissions resourceOverride with
    ⟨e, he⟩ | ⟨source, resource, t', hsource, hlive, howner, hdelegate, hsub, hok, hadds⟩
  · rw [observe, he, recordHanded, List.append_nil, hs', he]
    exact ⟨hr, ha⟩
  · rw [hok] at hs'
    have hs : HandsOver s ⟨s.caps.nextId, sourceId, fromTask, toTask, s.caps⟩
        ⟨s.caps.nextId, resource, permissions, toTask, some sourceId, false⟩ s' := by
      subst hs'
      refine ⟨rfl, rfl, rfl, hadds, ⟨source, hsource, hlive, hdelegate⟩, .inl rfl, ?_, rfl⟩
      intro id region hid
      exact ⟨region, hid, rfl, rfl⟩
    rw [observe, hok, recordHanded]
    refine ⟨hs.recorded hr hp.wellFormed, (hs.authority_iff hr hp.wellFormed ha).mpr ?_⟩
    intro id region' address hregion' hcovers' hcovers
    obtain ⟨region, hregion, hregionOwner, hresource⟩ := hs.regions id region' hregion'
    rw [← hregionOwner]
    have hends := hp.caps sourceId source hsource
    have hsourceCovers :=
      (ResourceRef.endsBy_of_isSubsetOf hsub hends hp.frames.lt).2 address hcovers
    have hgiver := ha.entrusted id region sourceId source address hregion hsource hlive
      (hresource ▸ hcovers') hsourceCovers
    rw [howner] at hgiver
    exact .passed [] ⟨source, hsource, hlive, howner, hdelegate, hsourceCovers⟩ hgiver

/-- A region is created: it is new, and so is the capability of its owner. -/
structure Creates (s : SharedMemory) (region : SharedRegion) (s' : SharedMemory) : Prop where
  adds : s.caps.Adds ⟨s.caps.nextId, region.resource, ownerRights, region.owner, none, false⟩
    s'.caps
  regions : ∀ id : SharedRegionId, s'.regions[id]? =
    if id = s.nextRegionId then some region else s.regions[id]?
  nextRegionId : s'.nextRegionId = s.nextRegionId + 1

section Creates

variable {region : SharedRegion}

theorem Creates.recorded (hs : Creates s region s') (hr : s.Recorded log)
    (hwf : s.caps.WellFormed) :
    s'.Recorded (log ++ [.created s.nextRegionId s.caps.nextId]) := by
  constructor
  · intro h hmem
    have hmem' : .handedOver h ∈ log := by simpa using hmem
    obtain ⟨hlt, cap, hcap, hlink⟩ := hr.handed h hmem'
    exact ⟨hlt, cap, hs.adds.slot_of_slot hwf hcap, hlink⟩
  · intro id j hmem
    rw [hs.nextRegionId]
    rcases List.mem_append.mp hmem with hmem | hmem
    · obtain ⟨hid, c, hc, hroot⟩ := hr.created id j hmem
      exact ⟨Nat.lt_succ_of_lt hid, c, hs.adds.slot_of_slot hwf hc, hroot⟩
    · obtain ⟨rfl, rfl⟩ := RegionEvent.created.inj (List.mem_singleton.mp hmem)
      refine ⟨Nat.lt_succ_self _,
        ⟨s.caps.nextId, region.resource, ownerRights, region.owner, none, false⟩, ?_, rfl⟩
      rw [hs.adds.slot, if_pos rfl]

/-- The addresses of the new region are those of no older region and capability. -/
theorem Creates.authority (hs : Creates s region s') (hp : s.Placed m) (hr : s.Recorded log)
    (ha : s.Authority log) (hlow : m * pageSize ≤ region.physBase.toNat) :
    s'.Authority (log ++ [.created s.nextRegionId s.caps.nextId]) := by
  have hwf := hp.wellFormed
  constructor
  · intro id region' i cap address hregion' hi hlive hcovers' hcovers
    rw [hs.regions] at hregion'
    rw [hs.adds.slot] at hi
    split_ifs at hregion' hi with hid hnew
    · obtain rfl := Option.some.inj hregion'
      obtain rfl := Option.some.inj hi
      exact .owner _ _
    · obtain rfl := Option.some.inj hregion'
      have hlt := (hp.caps i cap hi).lt hcovers
      exact absurd (hlow.trans hcovers'.1) (Nat.not_le.mpr hlt)
    · obtain rfl := Option.some.inj hi
      have hlt := (hp.regions id region' hregion').2.lt hcovers'
      exact absurd (hlow.trans hcovers.1) (Nat.not_le.mpr hlt)
    · apply Entrusted.append
      exact ha.entrusted id region' i cap address hregion' hi hlive hcovers' hcovers
  · intro id region' j i c cap address hmem hregion' hj hrevoked hi hlive hpath hcovers'
    have hpath' : OnAccount log j i := hpath.of_created
    rcases List.mem_append.mp hmem with hmem | hmem
    · obtain ⟨hid, cj, hcj, -⟩ := hr.created id j hmem
      obtain rfl := Option.some.inj (hj.symm.trans (hs.adds.slot_of_slot hwf hcj))
      rw [hs.regions, if_neg hid.ne] at hregion'
      rw [hs.adds.slot] at hi
      split_ifs at hi with hnew
      · exact absurd (hnew ▸ hpath') (hr.not_onAccount hwf j)
      · exact ha.revoked id region' j i c cap address hmem hregion' hcj hrevoked hi hlive hpath'
          hcovers'
    · obtain ⟨-, rfl⟩ := RegionEvent.created.inj (List.mem_singleton.mp hmem)
      rw [hs.adds.slot, if_pos rfl] at hj
      obtain rfl := Option.some.inj hj
      cases hrevoked

end Creates

theorem authority_createRegion {owner : TaskId} {size : UInt64}
    {result : Except IpcError SharedRegionId} (hp : s.Placed m) (hr : s.Recorded log)
    (ha : s.Authority log) (hcreate : s.createRegion owner size = some (result, s')) :
    s'.Recorded (log ++ s.observe (.createRegion owner size)) ∧
      s'.Authority (log ++ s.observe (.createRegion owner size)) := by
  rw [observe, hcreate]
  obtain ⟨m', -, -, ⟨e, rfl, hs'⟩ | ⟨region, rfl, rfl, hlow, -, hs'⟩⟩ :=
    createRegion_cases hp.frames hcreate
  · rw [recordCreated, List.append_nil, hs']
    exact ⟨⟨hr.handed, hr.created⟩, ⟨ha.entrusted, ha.revoked⟩⟩
  · have hcreates : Creates s region s' := by
      rw [hs']
      exact ⟨s.caps.adds_createRoot region.owner region.resource ownerRights,
        fun _ => Std.ExtTreeMap.getElem?_insert_eq_ite _ _ _ _, rfl⟩
    rw [recordCreated]
    exact ⟨hcreates.recorded hr hp.wellFormed, hcreates.authority hp hr ha hlow⟩

/-- The capability of a region is only ever revoked itself. -/
theorem Recorded.eq_of_descends (hr : s.Recorded log) {id : SharedRegionId}
    (hmem : .created id j ∈ log) (hd : s.caps.Descends j i) : j = i := by
  obtain ⟨-, c, hc, hroot⟩ := hr.created id j hmem
  rcases ReflTransGen.cases_tail hd with rfl | ⟨b, -, c', hc', hparent⟩
  · rfl
  · obtain rfl := Option.some.inj (hc.symm.trans hc')
    rw [hroot] at hparent
    cases hparent

/-- The capabilities in a set are revoked. -/
structure Withdraws (s : SharedMemory) (S : Finset CapId) (s' : SharedMemory) : Prop where
  /-- A capability afterwards is one from before, flagged if it is in the set. -/
  slot : ∀ i cap', s'.caps.slot i = some cap' ↔ ∃ cap, s.caps.slot i = some cap ∧
    { cap with revoked := cap.revoked || decide (i ∈ S) } = cap'
  regions : s'.regions = s.regions
  nextRegionId : s'.nextRegionId = s.nextRegionId

section Withdraws

variable {S : Finset CapId} {capId : CapId} {revoker : TaskId}

theorem Withdraws.recorded (hs : Withdraws s S s') (hr : s.Recorded log) : s'.Recorded log := by
  constructor
  · intro h hmem
    obtain ⟨hlt, cap, hcap, hlink⟩ := hr.handed h hmem
    exact ⟨hlt, _, (hs.slot _ _).mpr ⟨cap, hcap, rfl⟩, hlink⟩
  · intro id j hmem
    obtain ⟨hid, c, hc, hroot⟩ := hr.created id j hmem
    exact ⟨hs.nextRegionId ▸ hid, _, (hs.slot _ _).mpr ⟨c, hc, rfl⟩, hroot⟩

/-- What was handed out on account of the revoked capability, and is not in its cascade, would stay
live. -/
theorem Withdraws.careful (hs : Withdraws s S s') (hr : s.Recorded log)
    (hmemS : ∀ i, i ∈ S ↔ i ∈ s.caps.live ∧ s.caps.Descends i capId) (hlive : capId ∈ s.caps.live)
    (hafter : s'.Authority log) : Careful (s, log) (.revoke capId revoker) := by
  intro n _ id region i cap address hmem hregion hcap hcapLive hpath hcovers hcapCovers
  by_contra hnot
  have hi : i ∉ S := fun hi => hnot ((hmemS i).mp hi).2
  obtain ⟨-, c, hc, -⟩ := hr.created id capId hmem
  have hroot : capId ∈ S := (hmemS capId).mpr ⟨hlive, .refl⟩
  refine hafter.revoked id region capId i _ _ address hmem (hs.regions ▸ hregion)
    ((hs.slot _ _).mpr ⟨c, hc, rfl⟩) ?_ ((hs.slot _ _).mpr ⟨cap, hcap, rfl⟩) ?_ hpath hcovers
    hcapCovers
  · simp [hroot]
  · simp [hi, hcapLive]

theorem Withdraws.authority (hs : Withdraws s S s') (hr : s.Recorded log) (ha : s.Authority log)
    (hmemS : ∀ i, i ∈ S ↔ i ∈ s.caps.live ∧ s.caps.Descends i capId)
    (hrevoke : (s.caps.revoke capId revoker).1 = .ok S.card)
    (hcareful : Careful (s, log) (.revoke capId revoker)) : s'.Authority log := by
  constructor
  · intro id region i cap' address hregion hi hlive' hcovers hcap'
    obtain ⟨cap, hcap, rfl⟩ := (hs.slot i cap').mp hi
    obtain ⟨hcapLive, -⟩ := Bool.or_eq_false_iff.mp hlive'
    exact ha.entrusted id region i cap address (hs.regions ▸ hregion) hcap hcapLive hcovers hcap'
  · intro id region j i c' cap' address hmem hregion hj hrevoked hi hlive' hpath hcovers
    obtain ⟨c, hc, rfl⟩ := (hs.slot j c').mp hj
    obtain ⟨cap, hcap, rfl⟩ := (hs.slot i cap').mp hi
    obtain ⟨hcapLive, hnot⟩ := Bool.or_eq_false_iff.mp hlive'
    rw [hs.regions] at hregion
    by_cases hbefore : c.revoked = true
    · exact ha.revoked id region j i c cap address hmem hregion hc hbefore hcap hcapLive hpath
        hcovers
    · have hjS : j ∈ S := by simpa [hbefore] using hrevoked
      obtain rfl := hr.eq_of_descends hmem ((hmemS j).mp hjS).2
      intro hcapCovers
      have hdescends := hcareful S.card hrevoke id region i cap address hmem hregion hcap
        hcapLive hpath hcovers hcapCovers
      refine of_decide_eq_false hnot ((hmemS i).mpr ⟨?_, hdescends⟩)
      exact CapabilityTable.mem_live.mpr ⟨cap, hcap, hcapLive⟩

end Withdraws

theorem authority_revoke_iff {capId : CapId} {revoker : TaskId} (hp : s.Placed m)
    (hr : s.Recorded log) (ha : s.Authority log)
    (hs' : s' = { s with caps := (s.caps.revoke capId revoker).2 }) :
    s'.Recorded log ∧ (s'.Authority log ↔ Careful (s, log) (.revoke capId revoker)) := by
  rcases s.caps.revoke_cases capId revoker with ⟨e, he⟩ | ⟨S, hS, hlive, hflags⟩
  · rw [he] at hs'
    subst hs'
    refine ⟨hr, iff_of_true ha ?_⟩
    intro n hn
    rw [he] at hn
    cases hn
  · rw [hS] at hs'
    have hmemS : ∀ i, i ∈ S ↔ i ∈ s.caps.live ∧ s.caps.Descends i capId := fun i =>
      hp.wellFormed.mem_cascade_iff (hflags.cascade hp.wellFormed.ids)
    have hs : Withdraws s S s' := by
      rw [hs']
      refine ⟨fun i cap' => ?_, rfl, rfl⟩
      rw [CapabilityTable.slot_withRevoked, Option.map_eq_some_iff]
    exact ⟨hs.recorded hr, hs.careful hr hmemS hlive,
      hs.authority hr ha hmemS (by rw [hS])⟩

/-- **Which calls keep authority over regions with their owners.** -/
theorem authority_step_iff {op : SharedOp} (hp : s.Placed m) (hr : s.Recorded log)
    (ha : s.Authority log) (hstep : s.step op = some s') :
    s'.Recorded (log ++ s.observe op) ∧
      (s'.Authority (log ++ s.observe op) ↔ Careful (s, log) op) := by
  cases op with
  | createRegion owner size =>
    rw [step] at hstep
    obtain ⟨⟨result, s''⟩, hcreate, rfl⟩ := Option.map_eq_some_iff.mp hstep
    obtain ⟨hrecorded, hauthority⟩ := authority_createRegion hp hr ha hcreate
    exact ⟨hrecorded, iff_of_true hauthority trivial⟩
  | grantAccess regionId granter grantee granterCap =>
    obtain rfl := Option.some.inj hstep
    exact authority_grantAccess_iff hp hr ha
  | delegate sourceId fromTask toTask permissions resourceOverride =>
    obtain ⟨hrecorded, hauthority⟩ := authority_delegate hp hr ha (Option.some.inj hstep).symm
    exact ⟨hrecorded, iff_of_true hauthority trivial⟩
  | revoke capId revoker =>
    rw [observe, List.append_nil]
    exact authority_revoke_iff hp hr ha (Option.some.inj hstep).symm

/-! ## Runs -/

/-- What holds along careful runs. -/
structure Kept (x : SharedMemory × List RegionEvent) : Prop where
  placed : ∃ m, x.1.Placed m
  recorded : x.1.Recorded x.2
  authority : x.1.Authority x.2

variable {frames : Option BitmapFrameAllocator} {x x' : SharedMemory × List RegionEvent}

theorem kept_boot (hframes : UsedBelow frames 0) : Kept (boot frames, []) where
  placed := ⟨0, placed_boot hframes⟩
  recorded := by
    refine ⟨fun h hmem => ?_, fun id j hmem => ?_⟩
    · cases hmem
    · cases hmem
  authority := by
    refine ⟨fun id region i cap address hregion => ?_, fun id region j i c cap address hmem => ?_⟩
    · simp [boot] at hregion
    · cases hmem

theorem Kept.step_iff {op : SharedOp} (h : Kept x) (hstep : (system frames).Step x op x') :
    (∃ m, x'.1.Placed m) ∧ x'.1.Recorded x'.2 ∧ (x'.1.Authority x'.2 ↔ Careful x op) := by
  obtain ⟨⟨m, hp⟩, hr, ha⟩ := h
  obtain ⟨hst, hlog⟩ := TransitionSystem.step_recorded hstep
  rw [hlog]
  exact ⟨placed_step hp hst, authority_step_iff hp hr ha hst⟩

theorem kept_invariant (hframes : UsedBelow frames 0) :
    ((system frames).restrict Careful).Invariant Kept where
  init := by
    rintro x rfl
    exact kept_boot hframes
  step := by
    rintro x op x' hx ⟨hstep, hcareful⟩
    obtain ⟨hplaced, hrecorded, hiff⟩ := hx.step_iff hstep
    exact ⟨hplaced, hrecorded, hiff.mpr hcareful⟩

/-- The boot loader leaves an allocator after any use, with frames for physical addresses. -/
theorem usedBelow_boot (h : ∀ a, frames = some a →
      BitmapFrameAllocator.system.Reachable a ∧ a.totalFrames ≤ 2 ^ 40) : UsedBelow frames 0 where
  bound := Nat.zero_le _
  used a ha := by
    obtain ⟨hreach, htotal⟩ := h a ha
    refine ⟨BitmapFrameAllocator.sound_of_reachable hreach, htotal, fun i hi => ?_⟩
    exact absurd hi (Nat.not_lt_zero i)

/-- **When authority over regions stays with their owners.**  As long as every grant goes to the
owner or is made by a task that can pass on all of the region, and no capability of a region is
revoked while a grant on account of it is live, authority flows from the owners; and after such a
run, the next call keeps it so exactly when it is again such a call. -/
theorem region_authority
    (hframes : ∀ a, frames = some a →
      BitmapFrameAllocator.system.Reachable a ∧ a.totalFrames ≤ 2 ^ 40)
    (h : ((system frames).restrict Careful).Reachable x) :
    x.1.Authority x.2 ∧
      ∀ op x', (system frames).Step x op x' → (x'.1.Authority x'.2 ↔ Careful x op) := by
  have hkept := (kept_invariant (usedBelow_boot hframes)).of_reachable h
  exact ⟨hkept.authority, fun op x' hstep => (hkept.step_iff hstep).2.2⟩

/-! ## Two regions -/

def eightFrames : BitmapFrameAllocator :=
  [BitmapFrameAllocator.MarkOp.free 0 8].foldl .mark (.new 8)

theorem reachable_eightFrames (a : BitmapFrameAllocator) (ha : some eightFrames = some a) :
    BitmapFrameAllocator.system.Reachable a ∧ a.totalFrames ≤ 2 ^ 40 := by
  obtain rfl := Option.some.inj ha
  exact ⟨TransitionSystem.Reachable.init ⟨8, [.free 0 8], rfl⟩, by decide +kernel⟩

/-- A test for careful calls: a grant presents a capability over just the region, and nothing is
revoked. -/
def Checked (x : SharedMemory × List RegionEvent) : SharedOp → Prop
  | .grantAccess regionId _ _ granterCap =>
    (x.1.caps.slot granterCap).map Capability.resource =
      x.1.regions[regionId]?.map SharedRegion.resource
  | .revoke _ _ => False
  | .createRegion _ _ | .delegate _ _ _ _ _ => True

instance (x : SharedMemory × List RegionEvent) : (op : SharedOp) → Decidable (Checked x op)
  | .grantAccess _ _ _ _ => inferInstanceAs (Decidable (_ = _))
  | .revoke _ _ => .isFalse id
  | .createRegion _ _ | .delegate _ _ _ _ _ => .isTrue trivial

theorem careful_of_checked {op : SharedOp} (h : Checked x op) : Careful x op := by
  cases op with
  | grantAccess regionId granter grantee granterCap =>
    intro cap region hvalid hregion
    obtain ⟨hcap, hlive, howner, hdelegate⟩ := CapabilityTable.validate_eq_ok.mp hvalid
    refine .inr fun address hcovers => ⟨granterCap, cap, hcap, hlive, howner, hdelegate, ?_⟩
    have hresource : cap.resource = region.resource := by
      rw [Checked, hcap, hregion] at h
      exact Option.some.inj h
    rw [hresource]
    exact hcovers
  | revoke capId revoker => exact h.elim
  | createRegion owner size => trivial
  | delegate sourceId fromTask toTask permissions resourceOverride => trivial

theorem reachable_of_checked {ops : List SharedOp}
    (h : ops.foldlM (fun x op => if Checked x op then
      TransitionSystem.recordStep step observe x op else none) (boot frames, []) = some x) :
    ((system frames).restrict Careful).Reachable x :=
  TransitionSystem.reachable_restrict_of_test rfl
    (fun _ _ _ hstep hchecked => ⟨hstep, careful_of_checked hchecked⟩) h

/-- Task 1 creates a region and delegates it to task 2, which grants it to task 3. -/
def granted : List SharedOp :=
  [.createRegion 1 5000, .delegate 1 1 2 (PermissionBits.read.union .delegate) none,
    .grantAccess 1 2 3 2]

theorem region_authority_granted :
    ∃ x, ((system (some eightFrames)).restrict Careful).Reachable x ∧
      x.1.caps.slot 3 = some ⟨3, .memory 0 8192, .read, 3, none, false⟩ ∧
      x.1.Authority x.2 := by
  have hrun : (granted.foldlM (fun x op => if Checked x op then
      TransitionSystem.recordStep step observe x op else none)
      (boot (some eightFrames), [])).map (fun x => x.1.caps.slot 3) =
      some (some ⟨3, .memory 0 8192, .read, 3, none, false⟩) := by
    decide +kernel
  obtain ⟨x, hx, hslot⟩ := Option.map_eq_some_iff.mp hrun
  have hreach := reachable_of_checked hx
  exact ⟨x, hreach, hslot, (region_authority reachable_eightFrames hreach).1⟩

/-- The capability table when task 1 has created a region of one page. -/
def oneRegion : CapabilityTable :=
  (CapabilityTable.new.createRoot 1 (.memory 0 4096) ownerRights).2

/-- Then task 2 creates another one. -/
def twoRegions : CapabilityTable :=
  (oneRegion.createRoot 2 (.memory 4096 4096) ownerRights).2

theorem not_mayPass_twoRegions (j : CapId) : ¬twoRegions.MayPass 2 0 j := by
  rintro ⟨cap, hcap, -, howner, -, hcovers⟩
  have hall : ∀ k < 3, ∀ cap ∈ twoRegions.slot k, cap.owner = 2 →
      ¬cap.resource.CoversAddress 0 := by
    decide +kernel
  exact hall j (CapabilityTable.lt_length_of_slot hcap) cap hcap howner hcovers

/-- Both ways in which a grant takes authority from the owner of a region.  Task 2 presents the
capability of its own region to get access to that of task 1.  And a grant of the region's owner
outlives the revocation of the region's capability. -/
theorem grant_breaks_authority :
    (∃ x, (system (some eightFrames)).Reachable x ∧
      x.1.regions[1]? = some ⟨1, 0, 4096, 1, [2]⟩ ∧
      x.1.caps.slot 3 = some ⟨3, .memory 0 4096, .read, 2, none, false⟩ ∧
      ¬x.1.Authority x.2) ∧
    ∃ x, (system (some eightFrames)).Reachable x ∧
      x.1.caps.slot 1 = some ⟨1, .memory 0 4096, ownerRights, 1, none, true⟩ ∧
      x.1.caps.slot 2 = some ⟨2, .memory 0 4096, .read, 2, none, false⟩ ∧
      ¬x.1.Authority x.2 := by
  constructor
  · have hrun : (([.createRegion 1 4096, .createRegion 2 4096] : List SharedOp).foldlM
        (fun x op => if Checked x op then TransitionSystem.recordStep step observe x op else none)
        (boot (some eightFrames), [])).bind
        (fun x => (TransitionSystem.recordStep step observe x (.grantAccess 1 2 2 2)).map fun x' =>
          (x.1.caps, x.1.regions[1]?, x'.1.regions[1]?, x'.1.caps.slot 3)) =
        some (twoRegions, some ⟨1, 0, 4096, 1, []⟩, some ⟨1, 0, 4096, 1, [2]⟩,
          some ⟨3, .memory 0 4096, .read, 2, none, false⟩) := by
      decide +kernel
    obtain ⟨x, hx, hnext⟩ := Option.bind_eq_some_iff.mp hrun
    obtain ⟨x', hx', hstate⟩ := Option.map_eq_some_iff.mp hnext
    simp only [Prod.mk.injEq] at hstate
    obtain ⟨hcaps, hregion, hregion', hslot⟩ := hstate
    have hreach := reachable_of_checked hx
    have hstep : (system (some eightFrames)).Step x (.grantAccess 1 2 2 2) x' := hx'
    refine ⟨x', hreach.of_restrict.step hstep, hregion', hslot, ?_⟩
    have hkept := (kept_invariant (usedBelow_boot reachable_eightFrames)).of_reachable hreach
    intro hauthority
    have hcareful := (hkept.step_iff hstep).2.2.mp hauthority
    have hvalid : x.1.caps.validate 2 2 .delegate =
        .ok ⟨2, .memory 4096 4096, ownerRights, 2, none, false⟩ := by
      rw [hcaps]
      decide +kernel
    rcases hcareful _ _ hvalid hregion with howner | hpass
    · exact absurd howner (by decide)
    · have hzero : (SharedRegion.mk 1 0 4096 1 []).resource.CoversAddress 0 := by decide
      obtain ⟨j, hj⟩ := hpass 0 hzero
      rw [hcaps] at hj
      exact not_mayPass_twoRegions j hj
  · have hrun : (([.createRegion 1 4096, .grantAccess 1 1 2 1, .revoke 1 1] :
        List SharedOp).foldlM (TransitionSystem.recordStep step observe)
        (boot (some eightFrames), [])).map
        (fun x => (x.1.regions[1]?, x.1.caps.slot 1, x.1.caps.slot 2, x.2)) =
        some (some ⟨1, 0, 4096, 1, [2]⟩, some ⟨1, .memory 0 4096, ownerRights, 1, none, true⟩,
          some ⟨2, .memory 0 4096, .read, 2, none, false⟩,
          [.created 1 1, .handedOver ⟨2, 1, 1, 2, oneRegion⟩]) := by
      decide +kernel
    obtain ⟨x, hx, hstate⟩ := Option.map_eq_some_iff.mp hrun
    simp only [Prod.mk.injEq] at hstate
    obtain ⟨hregion, hrevoked, hlive, hlog⟩ := hstate
    refine ⟨x, TransitionSystem.reachable_ofPartial_iff.mpr ⟨_, hx⟩, hrevoked, hlive, ?_⟩
    intro hauthority
    have haccount : OnAccount x.2 1 2 := by
      rw [hlog]
      exact .single ⟨_, List.mem_cons_of_mem _ List.mem_cons_self, rfl, rfl⟩
    have hzero : (ResourceRef.memory 0 4096).CoversAddress 0 := by decide
    have hcreated : .created 1 1 ∈ x.2 := hlog ▸ List.mem_cons_self
    exact hauthority.revoked 1 _ 1 2 _ _ 0 hcreated hregion hrevoked rfl hlive rfl haccount hzero
      hzero

end SharedMemory

end OxideOS
