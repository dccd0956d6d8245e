import OxideOS.Capability.Permissions
import OxideOS.Capability.Resource
import OxideOS.Lib.Guard

/-!
# The capability table

The kernel's global table of capabilities: a vector of slots indexed by capability id. A
capability is created as a root or delegated from another one with fewer rights on a narrower
resource, and revocation cascades to everything delegated from it.

Identifiers are natural numbers. The source counts them in a `u64`, and the vector holds a slot
for each of them, so an allocation failure stops the kernel long before the counter wraps.
-/

namespace OxideOS

/-- `capability::CapId`. -/
abbrev CapId := Nat

/-- `capability::CapError`. -/
inductive CapError
  | notFound
  | insufficientPermissions
  | invalidDelegation
  | revoked
  | notOwner
deriving DecidableEq, Repr

/-- `capability::Capability`. -/
structure Capability where
  id : CapId
  resource : ResourceRef
  permissions : PermissionBits
  owner : TaskId
  parentCap : Option CapId
  revoked : Bool
deriving DecidableEq, Repr

/-- `capability::CapabilityTable`. -/
structure CapabilityTable where
  capabilities : List (Option Capability)
  nextId : CapId
deriving DecidableEq, Repr

namespace CapabilityTable

/-- `CapabilityTable::new`. -/
def new : CapabilityTable := ⟨[], 1⟩

/-- The capability in a slot: `capabilities.get(i)`, flattened. -/
def slot (t : CapabilityTable) (i : CapId) : Option Capability := t.capabilities[i]?.join

/-- Store a capability at its own index, growing the vector first when it is too short. -/
def store (t : CapabilityTable) (cap : Capability) : CapabilityTable :=
  let slots :=
    if t.capabilities.length ≤ cap.id then
      t.capabilities ++ List.replicate (cap.id + 1 - t.capabilities.length) none
    else t.capabilities
  { t with capabilities := slots.set cap.id (some cap) }

/-- `CapabilityTable::create_root`: a capability without a parent. -/
def createRoot (t : CapabilityTable) (owner : TaskId) (resource : ResourceRef)
    (permissions : PermissionBits) : CapId × CapabilityTable :=
  let id := t.nextId
  let t := { t with nextId := t.nextId + 1 }
  (id, t.store { id, resource, permissions, owner, parentCap := none, revoked := false })

/-- `CapabilityTable::get`: a capability that is present and not revoked. -/
def get (t : CapabilityTable) (id : CapId) : Except CapError Capability :=
  match t.slot id with
  | some cap => if !cap.revoked then .ok cap else .error .revoked
  | none => .error .notFound

/-- `CapabilityTable::validate`: the task owns the capability and holds the rights required. -/
def validate (t : CapabilityTable) (capId : CapId) (taskId : TaskId)
    (required : PermissionBits) : Except CapError Capability := do
  let cap ← t.get capId
  if cap.owner ≠ taskId then .error .notOwner
  else if !cap.permissions.contains required then .error .insufficientPermissions
  else .ok cap

/-- The resource a delegation hands on: the override when it narrows the source's resource. -/
def delegatedResource (source : Capability) :
    Option ResourceRef → Except CapError ResourceRef
  | some r => if r.isSubsetOf source.resource then .ok r else .error .invalidDelegation
  | none => .ok source.resource

/-- What `CapabilityTable::delegate` checks before it changes the table: the source capability
and the resource to hand on. -/
def delegable (t : CapabilityTable) (sourceId : CapId) (fromTask : TaskId)
    (permissions : PermissionBits) (resourceOverride : Option ResourceRef) :
    Except CapError ResourceRef := do
  let source ← t.get sourceId
  if source.owner ≠ fromTask then .error .notOwner
  else if !source.permissions.canDelegateTo permissions then .error .invalidDelegation
  else delegatedResource source resourceOverride

/-- `CapabilityTable::delegate`: a child capability with equal or fewer rights. -/
def delegate (t : CapabilityTable) (sourceId : CapId) (fromTask toTask : TaskId)
    (permissions : PermissionBits) (resourceOverride : Option ResourceRef) :
    Except CapError CapId × CapabilityTable :=
  match t.delegable sourceId fromTask permissions resourceOverride with
  | .error e => (.error e, t)
  | .ok resource =>
    let id := t.nextId
    let t := { t with nextId := t.nextId + 1 }
    (.ok id, t.store
      { id, resource, permissions, owner := toTask, parentCap := some sourceId, revoked := false })

/-- The capabilities delegated from `capId` that are not revoked, in slot order. -/
def children (t : CapabilityTable) (capId : CapId) : List CapId :=
  t.capabilities.filterMap fun slot =>
    slot.bind fun c => if c.parentCap = some capId ∧ c.revoked = false then some c.id else none

/-- The loop of `revoke_recursive` over the children: `recurse` on each, adding up the counts. -/
def revokeEach (recurse : CapabilityTable → CapId → Option (Nat × CapabilityTable))
    (children : List CapId) (count : Nat) (t : CapabilityTable) : Option (Nat × CapabilityTable) :=
  children.foldlM
    (fun (count, t) childId => do
      let (n, t) ← recurse t childId
      return (count + n, t))
    (count, t)

/-- `CapabilityTable::revoke_recursive`: flag a capability, then cascade to its children, counting
the capabilities flagged. The fuel bounds the depth of the recursion; `none` is running out. -/
def revokeRecursive : Nat → CapabilityTable → CapId → Option (Nat × CapabilityTable)
  | 0, _, _ => none
  | fuel + 1, t, capId =>
    match t.slot capId with
    | none => some (0, t)
    | some cap =>
      if cap.revoked then some (0, t)
      else
        let t := { t with
          capabilities := t.capabilities.set capId (some { cap with revoked := true }) }
        revokeEach (revokeRecursive fuel) (t.children capId) 1 t

/-- `CapabilityTable::active_count`. -/
def activeCount (t : CapabilityTable) : Nat :=
  t.capabilities.countP fun c => c.any fun cap => !cap.revoked

/-! ## Slots -/

variable {t : CapabilityTable} {i j : CapId} {c cap : Capability}

@[simp] theorem slot_new : new.slot i = none := by
  simp [new, slot]

theorem slot_eq_some : t.slot i = some c ↔ t.capabilities[i]? = some (some c) :=
  Option.join_eq_some_iff

theorem lt_length_of_slot (h : t.slot i = some c) : i < t.capabilities.length :=
  (List.getElem?_eq_some_iff.mp (slot_eq_some.mp h)).1

@[simp] theorem nextId_store : (t.store cap).nextId = t.nextId := rfl

/-- Storing a capability changes its own slot only. -/
theorem slot_store : (t.store cap).slot i = if i = cap.id then some cap else t.slot i := by
  unfold store slot
  by_cases hlen : t.capabilities.length ≤ cap.id
  · simp only [hlen, if_true, List.getElem?_set, List.length_append, List.length_replicate]
    by_cases hi : cap.id = i
    · subst hi
      have hlt : cap.id < t.capabilities.length + (cap.id + 1 - t.capabilities.length) := by
        rw [Nat.add_sub_cancel' (Nat.le_succ_of_le hlen)]
        exact Nat.lt_succ_self cap.id
      simp [hlt]
    · rw [if_neg hi, if_neg (Ne.symm hi), List.getElem?_append]
      split_ifs with hlt
      · rfl
      · rw [List.getElem?_replicate, List.getElem?_eq_none (by omega)]
        split_ifs <;> rfl
  · simp only [hlen, if_false, List.getElem?_set]
    by_cases hi : cap.id = i
    · subst hi
      simp [Nat.lt_of_not_le hlen]
    · rw [if_neg hi, if_neg (Ne.symm hi)]

theorem get_eq_ok : t.get i = .ok c ↔ t.slot i = some c ∧ c.revoked = false := by
  unfold get
  cases t.slot i with
  | none => simp
  | some cap =>
    by_cases hr : cap.revoked
    · simp only [hr, Bool.not_true, Bool.false_eq_true, if_false, reduceCtorEq, Option.some.injEq,
        false_iff, not_and]
      rintro rfl
      simp [hr]
    · simp only [hr, Bool.not_false, if_true, Except.ok.injEq, Option.some.injEq]
      constructor
      · rintro rfl
        exact ⟨rfl, by simpa using hr⟩
      · exact fun h => h.1

theorem validate_eq_ok {taskId : TaskId} {required : PermissionBits} :
    t.validate i taskId required = .ok c ↔
      t.slot i = some c ∧ c.revoked = false ∧ c.owner = taskId ∧
        c.permissions.contains required = true := by
  unfold validate
  simp only [Except.bind_eq_ok, Except.guard_eq_ok, get_eq_ok, not_not, Bool.not_eq_true',
    Except.ok.injEq, Bool.not_eq_false]
  constructor
  · rintro ⟨cap, ⟨hs, hr⟩, ho, hp, rfl⟩
    exact ⟨hs, hr, ho, hp⟩
  · rintro ⟨hs, hr, ho, hp⟩
    exact ⟨c, ⟨hs, hr⟩, ho, hp, rfl⟩

theorem delegable_eq_ok {fromTask : TaskId} {permissions : PermissionBits}
    {resourceOverride : Option ResourceRef} {resource : ResourceRef} :
    t.delegable i fromTask permissions resourceOverride = .ok resource ↔
      ∃ source, (t.slot i = some source ∧ source.revoked = false) ∧ source.owner = fromTask ∧
        source.permissions.canDelegateTo permissions = true ∧
        delegatedResource source resourceOverride = .ok resource := by
  unfold delegable
  simp only [Except.bind_eq_ok, Except.guard_eq_ok, get_eq_ok, not_not, Bool.not_eq_true',
    Bool.not_eq_false]

/-- The resource handed on narrows the resource of the source. -/
theorem isSubsetOf_of_delegatedResource {source : Capability}
    {resourceOverride : Option ResourceRef} {resource : ResourceRef}
    (h : delegatedResource source resourceOverride = .ok resource) :
    resource.isSubsetOf source.resource = true := by
  cases resourceOverride with
  | none =>
    obtain rfl := Except.ok.inj h
    exact ResourceRef.isSubsetOf_refl _
  | some r =>
    simp only [delegatedResource] at h
    split_ifs at h with hsub
    obtain rfl := Except.ok.inj h
    exact hsub

/-! ## New capabilities -/

/-- The capability is new in `t'`, under the next id, and nothing else has changed. -/
structure Adds (t : CapabilityTable) (cap : Capability) (t' : CapabilityTable) : Prop where
  live : cap.revoked = false
  slot : ∀ i, t'.slot i = if i = t.nextId then some cap else t.slot i
  nextId : t'.nextId = t.nextId + 1

theorem adds_createRoot (t : CapabilityTable) (owner : TaskId) (resource : ResourceRef)
    (permissions : PermissionBits) :
    t.Adds ⟨t.nextId, resource, permissions, owner, none, false⟩
      (t.createRoot owner resource permissions).2 :=
  ⟨rfl, fun _ => slot_store, rfl⟩

/-- A delegation is refused, or adds a capability below the one that is presented. -/
theorem delegate_cases (t : CapabilityTable) (sourceId : CapId) (fromTask toTask : TaskId)
    (permissions : PermissionBits) (resourceOverride : Option ResourceRef) :
    (∃ e, t.delegate sourceId fromTask toTask permissions resourceOverride = (.error e, t)) ∨
      ∃ source resource t', t.slot sourceId = some source ∧ source.revoked = false ∧
        source.owner = fromTask ∧ source.permissions.contains .delegate = true ∧
        resource.isSubsetOf source.resource = true ∧
        t.delegate sourceId fromTask toTask permissions resourceOverride = (.ok t.nextId, t') ∧
        t.Adds ⟨t.nextId, resource, permissions, toTask, some sourceId, false⟩ t' := by
  rw [delegate]
  cases hd : t.delegable sourceId fromTask permissions resourceOverride with
  | error e => exact .inl ⟨e, rfl⟩
  | ok resource =>
    obtain ⟨source, ⟨hs, hr⟩, howner, hp, hres⟩ := delegable_eq_ok.mp hd
    refine .inr ⟨source, resource, _, hs, hr, howner, (PermissionBits.canDelegateTo_iff.mp hp).1,
      isSubsetOf_of_delegatedResource hres, rfl, rfl, fun _ => slot_store, rfl⟩

end CapabilityTable

end OxideOS
