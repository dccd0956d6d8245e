import OxideOS.Capability.Confinement

/-!
# The addresses of delegated memory

The ends of two memory ranges are compared after saturating additions.  At the last address,
`2 ^ 64 - 1`, the comparison no longer tells ends apart: a range that ends there covers the address
only if its true end is larger.  So a range that ends exactly there can be delegated as one that
runs on, and that is the only way in which a delegation widens memory.

## Main definitions

* `ResourceRef.Within`: every 64-bit address of one resource is one of another

## Main results

* `ResourceRef.within_memory_iff`: when a range that passes the test covers no new address
* `CapabilityTable.WellFormed.isSubsetOf_of_descends`: the test holds along every chain of
  delegations
* `CapabilityTable.memory_delegation_within_iff`: the descendants of a memory capability that cover
  no address outside it
-/

namespace OxideOS

namespace ResourceRef

/-- Every 64-bit address of `child` is an address of `parent`. -/
def Within (child parent : ResourceRef) : Prop :=
  ∀ address < 2 ^ 64, child.CoversAddress address → parent.CoversAddress address

/-- What narrows memory is memory. -/
theorem exists_memory_of_isSubsetOf {child : ResourceRef} {base length : UInt64}
    (h : child.isSubsetOf (.memory base length) = true) : ∃ cb cl, child = .memory cb cl := by
  rcases isSubsetOf_cases h with rfl | ⟨cb, cl, _, _, rfl, -⟩ | ⟨_, _, _, _, -, hp⟩ | ⟨_, _, -, hp⟩
  · exact ⟨base, length, rfl⟩
  · exact ⟨cb, cl, rfl⟩
  · cases hp
  · cases hp

/-- **A range that passes the test is covered**, unless the wider one ends at the last address and
the narrower one covers it. -/
theorem within_memory_iff {cb cl pb pl : UInt64}
    (h : (memory cb cl).isSubsetOf (.memory pb pl) = true) :
    (memory cb cl).Within (.memory pb pl) ↔
      ¬(pb.toNat + pl.toNat = 2 ^ 64 - 1 ∧ 2 ^ 64 ≤ cb.toNat + cl.toNat) := by
  obtain ⟨hbase, hend⟩ := isSubsetOf_memory.mp h
  rw [UInt64.le_iff_toNat_le] at hbase
  rw [UInt64.le_iff_toNat_le, toNat_saturatingAdd, toNat_saturatingAdd] at hend
  have hcb := cb.toNat_lt
  constructor
  · rintro hwithin ⟨hparent, hchild⟩
    have hlast := hwithin (2 ^ 64 - 1) (by omega) ⟨by omega, by omega⟩
    exact absurd hlast.2 (by omega)
  · rintro hnot address haddress ⟨hlow, hhigh⟩
    exact ⟨by omega, by omega⟩

end ResourceRef

namespace CapabilityTable

open ResourceRef

variable {t : CapabilityTable} {i root : CapId} {c a : Capability}

/-- Every capability below another narrows its resource, whether it is revoked or not. -/
theorem WellFormed.isSubsetOf_of_descends (h : t.WellFormed) (hd : t.Descends i root)
    (ha : t.slot root = some a) (hc : t.slot i = some c) :
    c.resource.isSubsetOf a.resource = true := by
  unfold Descends at hd
  induction hd generalizing c with
  | refl =>
    obtain rfl := Option.some.inj (ha.symm.trans hc)
    exact isSubsetOf_refl _
  | @tail b x _ hparent ih =>
    obtain ⟨c', hc', hlink⟩ := hparent
    obtain rfl := Option.some.inj (hc'.symm.trans hc)
    obtain ⟨a', ha', -, hnarrows, -⟩ := h.link x c' b hc' hlink
    exact isSubsetOf_trans hnarrows.resource (ih ha')

/-- **When delegated memory is not widened**: a range that passes the test of a delegation covers
only addresses of the wider range unless that one ends exactly at the last address and the narrower
one runs past it.  In every reachable table the same holds of a capability and any of its
descendants. -/
theorem memory_delegation_within_iff (pb pl : UInt64) :
    (∀ cb cl : UInt64, (memory cb cl).isSubsetOf (.memory pb pl) = true →
      ((memory cb cl).Within (.memory pb pl) ↔
        ¬(pb.toNat + pl.toNat = 2 ^ 64 - 1 ∧ 2 ^ 64 ≤ cb.toNat + cl.toNat))) ∧
      ∀ (t : CapabilityTable) (root i : CapId) (a c : Capability),
        system.Reachable t → t.slot root = some a → a.resource = .memory pb pl →
        t.slot i = some c → t.Descends i root →
        ∃ cb cl, c.resource = .memory cb cl ∧
          (c.resource.Within a.resource ↔
            ¬(pb.toNat + pl.toNat = 2 ^ 64 - 1 ∧ 2 ^ 64 ≤ cb.toNat + cl.toNat)) := by
  refine ⟨fun _ _ h => within_memory_iff h, ?_⟩
  intro t root i a c hreach ha hmemory hc hd
  have hsub := (wellFormed_of_reachable hreach).isSubsetOf_of_descends hd ha hc
  rw [hmemory] at hsub ⊢
  obtain ⟨cb, cl, hchild⟩ := exists_memory_of_isSubsetOf hsub
  rw [hchild] at hsub ⊢
  exact ⟨cb, cl, rfl, within_memory_iff hsub⟩

/-- A root of one page, and a child of its second half. -/
def halvedPage : List CapOp :=
  [.createRoot 1 (.memory 0x1000 0x1000) .all, .delegate 1 1 2 .all (some (.memory 0x1800 0x800))]

theorem memory_delegation_within_halvedPage :
    (ResourceRef.memory 0x1800 0x800).Within (.memory 0x1000 0x1000) := by
  obtain ⟨cb, cl, hchild, hiff⟩ := (memory_delegation_within_iff 0x1000 0x1000).2
    (halvedPage.foldl step new) 1 2 ⟨1, .memory 0x1000 0x1000, .all, 1, none, false⟩
    ⟨2, .memory 0x1800 0x800, .all, 2, some 1, false⟩
    (TransitionSystem.reachable_ofFun_iff.mpr ⟨halvedPage, rfl⟩) (by decide) rfl (by decide)
    (.single ⟨⟨2, .memory 0x1800 0x800, .all, 2, some 1, false⟩, by decide, rfl⟩)
  obtain ⟨rfl, rfl⟩ := memory.inj hchild
  exact hiff.mpr (by decide)

/-- A root that covers every address but the last, and a child that covers the last. -/
def lastAddress : List CapOp :=
  [.createRoot 1 (.memory 0 0xFFFFFFFFFFFFFFFF) .all,
    .delegate 1 1 2 .all (some (.memory 5 0xFFFFFFFFFFFFFFFF))]

theorem delegate_widens_memory :
    ∃ a c, (lastAddress.foldl step new).slot 1 = some a ∧
      (lastAddress.foldl step new).slot 2 = some c ∧ c.parentCap = some 1 ∧
      c.resource.CoversAddress (2 ^ 64 - 1) ∧ ¬a.resource.CoversAddress (2 ^ 64 - 1) :=
  ⟨⟨1, .memory 0 0xFFFFFFFFFFFFFFFF, .all, 1, none, false⟩,
    ⟨2, .memory 5 0xFFFFFFFFFFFFFFFF, .all, 2, some 1, false⟩, by decide, by decide, rfl,
    by decide, by decide⟩

end CapabilityTable

end OxideOS
