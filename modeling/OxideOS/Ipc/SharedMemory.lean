import OxideOS.Capability.Confinement
import OxideOS.Ipc.Basic
import OxideOS.Lib.OrderedMap
import OxideOS.Memory.FrameRuns

/-!
# Shared memory regions

`ipc/shared_memory.rs`.  A region is a number of frames, recorded as a range of physical addresses
from its first frame on, with a capability over the range for its owner.  `grant_access` gives
another task a capability to read it.

Without frees the allocator hands out frames from low to high, so all regions lie below the frames
that are still free, and apart from each other.

Region ids are natural numbers: a region takes a frame at least, and there are fewer than `2 ^ 64`.

## Main definitions

* `SharedRegion`, `SharedMemory`
* `SharedMemory.createRegion`, `SharedMemory.grantAccess`
* `SharedOp`, `SharedMemory.step`: these calls and those of the capability table
* `SharedMemory.Placed`: the regions lie apart, below the frames that are still free

## Main results

* `SharedMemory.createRegion_cases`, `SharedMemory.grantAccess_of_valid`: what the calls do
* `SharedMemory.placed_step`: regions stay apart
-/

namespace OxideOS

/-- `ipc::shared_memory::SharedRegionId`. -/
abbrev SharedRegionId := Nat

structure SharedRegion where
  id : SharedRegionId
  physBase : UInt64
  size : UInt64
  owner : TaskId
  grants : List TaskId
deriving DecidableEq, Repr

/-- The memory of a region, as a capability names it. -/
def SharedRegion.resource (region : SharedRegion) : ResourceRef :=
  .memory region.physBase region.size

/-- The global variables that the calls work on. -/
structure SharedMemory where
  /-- `CAP_TABLE`. -/
  caps : CapabilityTable
  /-- `FRAME_ALLOCATOR`. -/
  frames : Option BitmapFrameAllocator
  /-- `SHARED_REGIONS`. -/
  regions : BTreeMap SharedRegionId SharedRegion
  /-- `NEXT_REGION_ID`. -/
  nextRegionId : SharedRegionId

/-- The rights of the owner of a region. -/
def ownerRights : PermissionBits := (PermissionBits.read.union .write).union .delegate

/-- The number of pages that a size takes, rounded up. -/
def pageCount (size : UInt64) : Nat := (size.toNat + pageSize - 1) / pageSize

namespace SharedMemory

/-- The initial values, over the frames that the boot loader leaves. -/
def boot (frames : Option BitmapFrameAllocator) : SharedMemory := ⟨.new, frames, ∅, 1⟩

/-- The region that a call describes when this is its first frame. -/
def newRegion (s : SharedMemory) (owner : TaskId) (size : UInt64) (first : PhysFrame) :
    SharedRegion where
  id := s.nextRegionId
  physBase := UInt64.ofNat first.startAddress
  size := UInt64.ofNat (pageCount size * pageSize)
  owner := owner
  grants := []

/-- `create_region`.  `none` is the panic when `size + PAGE_SIZE` overflows.  When the frames do not
suffice, those that have been allocated stay so. -/
def createRegion (s : SharedMemory) (owner : TaskId) (size : UInt64) :
    Option (Except IpcError SharedRegionId × SharedMemory) :=
  if 2 ^ 64 ≤ size.toNat + pageSize then none
  else
    match s.frames with
    | none => some (.error .recipientNotFound, s)
    | some frames =>
      match frames.allocateFrame with
      | (none, frames) => some (.error .recipientNotFound, { s with frames := some frames })
      | (some first, frames) =>
        match allocateFrames (pageCount size - 1) frames with
        | (false, frames) => some (.error .recipientNotFound, { s with frames := some frames })
        | (true, frames) =>
          let id := s.nextRegionId
          let region := s.newRegion owner size first
          let (_, caps) := s.caps.createRoot owner region.resource ownerRights
          some (.ok id,
            { caps, frames := some frames, regions := s.regions.insert id region
              nextRegionId := id + 1 })

/-- `grant_access`.  The capability that is presented need not be one over the region. -/
def grantAccess (s : SharedMemory) (regionId : SharedRegionId) (granter grantee : TaskId)
    (granterCap : CapId) : Except IpcError CapId × SharedMemory :=
  match s.caps.validate granterCap granter .delegate with
  | .error _ => (.error .capabilityDenied, s)
  | .ok _ =>
    match s.regions[regionId]? with
    | none => (.error .recipientNotFound, s)
    | some region =>
      let region := { region with grants := region.grants ++ [grantee] }
      let (capId, caps) := s.caps.createRoot grantee region.resource .read
      (.ok capId, { s with caps, regions := s.regions.insert regionId region })

end SharedMemory

/-- The calls on regions and on their capabilities. -/
inductive SharedOp
  | createRegion (owner : TaskId) (size : UInt64)
  | grantAccess (regionId : SharedRegionId) (granter grantee : TaskId) (granterCap : CapId)
  | delegate (sourceId : CapId) (fromTask toTask : TaskId) (permissions : PermissionBits)
      (resourceOverride : Option ResourceRef)
  | revoke (capId : CapId) (revoker : TaskId)

namespace SharedMemory

/-- The state after a call; `none` is a panic. -/
def step (s : SharedMemory) : SharedOp → Option SharedMemory
  | .createRegion owner size => (s.createRegion owner size).map Prod.snd
  | .grantAccess regionId granter grantee granterCap =>
    some (s.grantAccess regionId granter grantee granterCap).2
  | .delegate sourceId fromTask toTask permissions resourceOverride =>
    some { s with
      caps := (s.caps.delegate sourceId fromTask toTask permissions resourceOverride).2 }
  | .revoke capId revoker => some { s with caps := (s.caps.revoke capId revoker).2 }

variable {s s' : SharedMemory} {m : Nat}

/-! ## The frames in use -/

/-- All frames below a mark are in use, and there are no more frames than physical addresses. -/
structure UsedBelow (frames : Option BitmapFrameAllocator) (m : Nat) : Prop where
  bound : m ≤ 2 ^ 40
  used : ∀ a, frames = some a → a.Sound ∧ a.totalFrames ≤ 2 ^ 40 ∧ ∀ i < m, a.isSet i = true

/-- An allocation hands out a frame at the mark or above it, and the mark moves past the frame. -/
theorem UsedBelow.allocateFrame {a a' : BitmapFrameAllocator} {frame : PhysFrame}
    (h : UsedBelow (some a) m) (ha : a.allocateFrame = (some frame, a')) :
    ∃ i, frame = PhysFrame.ofIndex i ∧ m ≤ i ∧ UsedBelow (some a') (i + 1) := by
  obtain ⟨hsound, htotal, hused⟩ := h.used a rfl
  obtain ⟨i, hlow, rfl, rfl⟩ := BitmapFrameAllocator.allocateFrame_eq_some hsound ha
  have hmi : m ≤ i := by
    by_contra hlt
    have hset := hused i (not_le.mp hlt)
    rw [hlow.free] at hset
    cases hset
  refine ⟨i, rfl, hmi, hlow.lt.trans_le htotal, ?_⟩
  intro a' ha'
  obtain rfl := Option.some.inj ha'
  refine ⟨hsound.take hlow, htotal, fun j hj => ?_⟩
  rw [BitmapFrameAllocator.isSet_take hsound hlow.lt]
  rcases Nat.lt_succ_iff_lt_or_eq.mp hj with hlt | rfl
  · rw [hlow.low j hlt, Bool.or_true]
  · rw [decide_eq_true rfl, Bool.true_or]

theorem UsedBelow.allocateFrame_none {a a' : BitmapFrameAllocator} (h : UsedBelow (some a) m)
    (ha : a.allocateFrame = (none, a')) : UsedBelow (some a') m := by
  obtain ⟨hsound, -, -⟩ := h.used a rfl
  rcases BitmapFrameAllocator.allocateFrame_spec hsound with ⟨i, -, hsome⟩ | ⟨-, hnone⟩
  · rw [hsome] at ha
    cases ha
  · rw [hnone] at ha
    obtain rfl := (Prod.mk.inj ha).2
    exact h

/-- Each frame moves the mark by one at least. -/
theorem UsedBelow.allocateFrames {a a' : BitmapFrameAllocator} {n : Nat} {ok : Bool}
    (h : UsedBelow (some a) m) (ha : allocateFrames n a = (ok, a')) :
    ∃ m', m ≤ m' ∧ (ok = true → m + n ≤ m') ∧ UsedBelow (some a') m' := by
  induction n generalizing a m with
  | zero =>
    obtain ⟨rfl, rfl⟩ := Prod.mk.inj ha
    exact ⟨m, Nat.le_refl m, fun _ => Nat.le_refl m, h⟩
  | succ n ih =>
    rw [OxideOS.allocateFrames] at ha
    split at ha
    · next frames hnone =>
      obtain ⟨rfl, rfl⟩ := Prod.mk.inj ha
      exact ⟨m, Nat.le_refl m, Bool.noConfusion, h.allocateFrame_none hnone⟩
    · next frame frames hsome =>
      obtain ⟨i, -, hmi, hi⟩ := h.allocateFrame hsome
      obtain ⟨m', hle, hok, hm'⟩ := ih hi ha
      refine ⟨m', by omega, fun htrue => ?_, hm'⟩
      have hn := hok htrue
      omega

/-! ## What the calls do -/

theorem toNat_pageCount {size : UInt64} (hsize : ¬2 ^ 64 ≤ size.toNat + pageSize) :
    (UInt64.ofNat (pageCount size * pageSize)).toNat = pageCount size * pageSize := by
  rw [UInt64.toNat_ofNat', Nat.mod_eq_of_lt]
  rw [pageCount, pageSize] at *
  omega

/-- Creating a region fails and takes frames at most, or places a region on frames that were free
and gives its owner a capability over it. -/
theorem createRegion_cases {owner : TaskId} {size : UInt64}
    {result : Except IpcError SharedRegionId} (hframes : UsedBelow s.frames m)
    (h : s.createRegion owner size = some (result, s')) :
    ∃ m', m ≤ m' ∧ UsedBelow s'.frames m' ∧
      ((∃ e, result = .error e ∧ s' = { s with frames := s'.frames }) ∨
        ∃ region : SharedRegion, result = .ok s.nextRegionId ∧ region.owner = owner ∧
          m * pageSize ≤ region.physBase.toNat ∧ region.resource.EndsBy (m' * pageSize) ∧
          s' = { caps := (s.caps.createRoot owner region.resource ownerRights).2
                 frames := s'.frames
                 regions := s.regions.insert s.nextRegionId region
                 nextRegionId := s.nextRegionId + 1 }) := by
  rw [createRegion] at h
  split at h
  · cases h
  · next hsize =>
    split at h
    · obtain ⟨rfl, rfl⟩ := Prod.mk.inj (Option.some.inj h)
      exact ⟨m, Nat.le_refl m, hframes, .inl ⟨_, rfl, rfl⟩⟩
    · next a ha =>
      rw [ha] at hframes
      split at h
      · next a₁ hnone =>
        obtain ⟨rfl, rfl⟩ := Prod.mk.inj (Option.some.inj h)
        exact ⟨m, Nat.le_refl m, hframes.allocateFrame_none hnone, .inl ⟨_, rfl, rfl⟩⟩
      · next first a₁ hfirst =>
        obtain ⟨i, rfl, hmi, hi⟩ := hframes.allocateFrame hfirst
        split at h
        · next a₂ hrest =>
          obtain ⟨rfl, rfl⟩ := Prod.mk.inj (Option.some.inj h)
          obtain ⟨m', hle, -, hm'⟩ := hi.allocateFrames hrest
          exact ⟨m', by omega, hm', .inl ⟨_, rfl, rfl⟩⟩
        · next a₂ hrest =>
          obtain ⟨rfl, rfl⟩ := Prod.mk.inj (Option.some.inj h)
          obtain ⟨m', hle, hok, hm'⟩ := hi.allocateFrames hrest
          refine ⟨m', by omega, hm', .inr ⟨_, rfl, rfl, ?_, ?_, rfl⟩⟩
          · rw [newRegion, PhysFrame.toNat_startAddress hi.bound]
            exact Nat.mul_le_mul_right pageSize hmi
          · show _ + _ ≤ _
            rw [newRegion, PhysFrame.toNat_startAddress hi.bound, toNat_pageCount hsize,
              ← Nat.add_mul]
            apply Nat.mul_le_mul_right
            have hn := hok rfl
            omega

/-- A grant adds a capability without a parent to read the region. -/
theorem grantAccess_of_valid {regionId : SharedRegionId} {granter : TaskId} {granterCap : CapId}
    {cap : Capability} {region : SharedRegion}
    (hvalid : s.caps.validate granterCap granter .delegate = .ok cap)
    (hregion : s.regions[regionId]? = some region) (grantee : TaskId) :
    s.grantAccess regionId granter grantee granterCap = (.ok s.caps.nextId,
      { s with
        caps := (s.caps.createRoot grantee region.resource .read).2
        regions := s.regions.insert regionId
          { region with grants := region.grants ++ [grantee] } }) := by
  simp only [grantAccess, hvalid, hregion]
  rfl

/-- Otherwise it is refused. -/
theorem grantAccess_cases (s : SharedMemory) (regionId : SharedRegionId)
    (granter grantee : TaskId) (granterCap : CapId) :
    (∃ e, s.grantAccess regionId granter grantee granterCap = (.error e, s)) ∨
      ∃ cap region, s.caps.validate granterCap granter .delegate = .ok cap ∧
        s.regions[regionId]? = some region := by
  rw [grantAccess]
  split
  · exact .inl ⟨_, rfl⟩
  · next cap hvalid =>
    split
    · exact .inl ⟨_, rfl⟩
    · next region hregion => exact .inr ⟨cap, region, hvalid, hregion⟩

/-! ## Where the regions are -/

/-- The regions lie apart from each other, and like the memory of all capabilities below a mark
under which all frames are in use. -/
structure Placed (s : SharedMemory) (m : Nat) : Prop where
  frames : UsedBelow s.frames m
  wellFormed : s.caps.WellFormed
  caps : ∀ i cap, s.caps.slot i = some cap → cap.resource.EndsBy (m * pageSize)
  regions : ∀ (id : SharedRegionId) (region : SharedRegion), s.regions[id]? = some region →
    id < s.nextRegionId ∧ region.resource.EndsBy (m * pageSize)
  apart : ∀ (id id' : SharedRegionId) (region region' : SharedRegion) (address : Nat),
    s.regions[id]? = some region → s.regions[id']? = some region' →
    region.resource.CoversAddress address → region'.resource.CoversAddress address → id = id'

theorem Placed.mono (h : s.Placed m) {m' : Nat} (hm : m ≤ m')
    {frames : Option BitmapFrameAllocator} (hframes : UsedBelow frames m') :
    Placed { s with frames } m' := by
  have hle : m * pageSize ≤ m' * pageSize := Nat.mul_le_mul_right _ hm
  refine ⟨hframes, h.wellFormed, fun i cap hcap => (h.caps i cap hcap).mono hle, ?_, h.apart⟩
  intro id region hregion
  obtain ⟨hid, hends⟩ := h.regions id region hregion
  exact ⟨hid, hends.mono hle⟩

/-- Another capability table whose memory lies below the mark. -/
theorem Placed.withCaps (h : s.Placed m) {caps : CapabilityTable} (hcaps : caps.WellFormed)
    (hends : ∀ i cap, caps.slot i = some cap → cap.resource.EndsBy (m * pageSize)) :
    Placed { s with caps } m :=
  ⟨h.frames, hcaps, hends, h.regions, h.apart⟩

theorem Placed.endsBy_adds (h : s.Placed m) {caps : CapabilityTable} {cap : Capability}
    (hadds : s.caps.Adds cap caps) (hcap : cap.resource.EndsBy (m * pageSize)) (i : CapId)
    (cap' : Capability) (hcap' : caps.slot i = some cap') :
    cap'.resource.EndsBy (m * pageSize) := by
  rw [hadds.slot] at hcap'
  split_ifs at hcap' with hi
  · obtain rfl := Option.some.inj hcap'
    exact hcap
  · exact h.caps i cap' hcap'

/-- All addresses below the mark are physical, so no comparison saturates. -/
theorem UsedBelow.lt {frames : Option BitmapFrameAllocator} (h : UsedBelow frames m) :
    m * pageSize < 2 ^ 64 - 1 := by
  have hbound := h.bound
  rw [pageSize]
  omega

theorem Placed.delegate (h : s.Placed m) (sourceId : CapId) (fromTask toTask : TaskId)
    (permissions : PermissionBits) (resourceOverride : Option ResourceRef) :
    Placed { s with
      caps := (s.caps.delegate sourceId fromTask toTask permissions resourceOverride).2 } m := by
  have hwf := h.wellFormed.delegate sourceId fromTask toTask permissions resourceOverride
  apply h.withCaps hwf
  rcases s.caps.delegate_cases sourceId fromTask toTask permissions resourceOverride with
    ⟨e, he⟩ | ⟨source, resource, t', hsource, -, -, -, hsub, hok, hadds⟩
  · rw [he]
    exact h.caps
  · rw [hok]
    apply h.endsBy_adds hadds
    exact (ResourceRef.endsBy_of_isSubsetOf hsub (h.caps sourceId source hsource) h.frames.lt).1

theorem Placed.revoke (h : s.Placed m) (capId : CapId) (revoker : TaskId) :
    Placed { s with caps := (s.caps.revoke capId revoker).2 } m := by
  apply h.withCaps (h.wellFormed.revoke capId revoker)
  intro i cap hcap
  rcases s.caps.revoke_cases capId revoker with ⟨e, he⟩ | ⟨S, hS, -, -⟩
  · rw [he] at hcap
    exact h.caps i cap hcap
  · rw [hS, CapabilityTable.slot_withRevoked] at hcap
    obtain ⟨cap', hcap', rfl⟩ := Option.map_eq_some_iff.mp hcap
    exact h.caps i cap' hcap'

theorem Placed.grantAccess (h : s.Placed m) (regionId : SharedRegionId)
    (granter grantee : TaskId) (granterCap : CapId) :
    (s.grantAccess regionId granter grantee granterCap).2.Placed m := by
  rcases s.grantAccess_cases regionId granter grantee granterCap with
    ⟨e, he⟩ | ⟨cap, region, hvalid, hregion⟩
  · rw [he]
    exact h
  · rw [grantAccess_of_valid hvalid hregion]
    have hends := (h.regions regionId region hregion).2
    have hcaps := h.withCaps (h.wellFormed.createRoot grantee region.resource .read)
      (h.endsBy_adds (s.caps.adds_createRoot grantee region.resource .read) hends)
    have hlookup : ∀ (id : SharedRegionId) (region' : SharedRegion), (s.regions.insert regionId
        { region with grants := region.grants ++ [grantee] })[id]? = some region' →
        ∃ region'' : SharedRegion, s.regions[id]? = some region'' ∧
          region''.resource = region'.resource := by
      intro id region' hid
      rw [Std.ExtTreeMap.getElem?_insert_eq_ite] at hid
      split_ifs at hid with heq
      · obtain rfl := Option.some.inj hid
        exact ⟨region, heq ▸ hregion, rfl⟩
      · exact ⟨region', hid, rfl⟩
    refine ⟨h.frames, hcaps.wellFormed, hcaps.caps, ?_, ?_⟩
    · intro id region' hid
      obtain ⟨region'', hbefore, hresource⟩ := hlookup id region' hid
      exact hresource ▸ h.regions id region'' hbefore
    · intro id id' r r' address hr hr' ha ha'
      obtain ⟨q, hq, hqr⟩ := hlookup id r hr
      obtain ⟨q', hq', hqr'⟩ := hlookup id' r' hr'
      exact h.apart id id' q q' address hq hq' (hqr ▸ ha) (hqr' ▸ ha')

theorem Placed.createRegion {owner : TaskId} {size : UInt64}
    {result : Except IpcError SharedRegionId} (h : s.Placed m)
    (hcreate : s.createRegion owner size = some (result, s')) : ∃ m', m ≤ m' ∧ s'.Placed m' := by
  obtain ⟨m', hm, hframes, ⟨e, -, hs'⟩ | ⟨region, -, howner, hlow, hends, hs'⟩⟩ :=
    createRegion_cases h.frames hcreate
  · rw [hs']
    exact ⟨m', hm, h.mono hm hframes⟩
  · have hplaced := h.mono hm hframes
    rw [hs']
    have hapart : ∀ (id : SharedRegionId) (region' : SharedRegion) (address : Nat),
        s.regions[id]? = some region' →
        region.resource.CoversAddress address → ¬region'.resource.CoversAddress address := by
      intro id region' address hregion' ha ha'
      have hlt := (h.regions id region' hregion').2.lt ha'
      have hle := hlow.trans ha.1
      omega
    refine ⟨m', hm, hframes, h.wellFormed.createRoot owner region.resource ownerRights,
      hplaced.endsBy_adds (s.caps.adds_createRoot owner region.resource ownerRights) hends, ?_, ?_⟩
    · intro id region' hid
      rw [Std.ExtTreeMap.getElem?_insert_eq_ite] at hid
      split_ifs at hid with heq
      · obtain rfl := Option.some.inj hid
        exact ⟨heq ▸ Nat.lt_succ_self _, hends⟩
      · obtain ⟨hlt, hends'⟩ := hplaced.regions id region' hid
        exact ⟨Nat.lt_succ_of_lt hlt, hends'⟩
    · intro id id' r r' address hr hr' ha ha'
      rw [Std.ExtTreeMap.getElem?_insert_eq_ite] at hr hr'
      split_ifs at hr hr' with hid hid'
      · exact hid.trans hid'.symm
      · obtain rfl := Option.some.inj hr
        exact absurd ha' (hapart id' r' address hr' ha)
      · obtain rfl := Option.some.inj hr'
        exact absurd ha (hapart id r address hr ha')
      · exact h.apart id id' r r' address hr hr' ha ha'

/-- **Regions stay apart.** -/
theorem placed_step {op : SharedOp} (h : s.Placed m) (hstep : s.step op = some s') :
    ∃ m', s'.Placed m' := by
  cases op with
  | createRegion owner size =>
    rw [step] at hstep
    obtain ⟨⟨result, s''⟩, hcreate, rfl⟩ := Option.map_eq_some_iff.mp hstep
    obtain ⟨m', -, hplaced⟩ := h.createRegion hcreate
    exact ⟨m', hplaced⟩
  | grantAccess regionId granter grantee granterCap =>
    obtain rfl := Option.some.inj hstep
    exact ⟨m, h.grantAccess regionId granter grantee granterCap⟩
  | delegate sourceId fromTask toTask permissions resourceOverride =>
    obtain rfl := Option.some.inj hstep
    exact ⟨m, h.delegate sourceId fromTask toTask permissions resourceOverride⟩
  | revoke capId revoker =>
    obtain rfl := Option.some.inj hstep
    exact ⟨m, h.revoke capId revoker⟩

theorem placed_boot {frames : Option BitmapFrameAllocator} (h : UsedBelow frames 0) :
    (boot frames).Placed 0 where
  frames := h
  wellFormed := CapabilityTable.wellFormed_new
  caps i cap hcap := by simp [boot] at hcap
  regions id region hid := by simp [boot] at hid
  apart id id' region region' address hid := by simp [boot] at hid

end SharedMemory

end OxideOS
