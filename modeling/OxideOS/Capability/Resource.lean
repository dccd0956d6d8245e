import OxideOS.Basic
import Mathlib.Algebra.Group.Nat.Defs

/-!
# Resources

What a capability grants access to, and the narrowing test that delegation applies to a resource
override. Networks narrow through the wildcards `*` and port 0, storage through path prefixes,
memory through containment of the address range with saturating bounds; every other resource
narrows only to itself.
-/

namespace OxideOS

/-- `u64::saturating_add`. -/
def saturatingAdd (a b : UInt64) : UInt64 :=
  if a.toNat + b.toNat < 2 ^ 64 then a + b else 0xFFFFFFFFFFFFFFFF

/-- `capability::ResourceRef`: what a capability grants access to. -/
inductive ResourceRef
  | agent (id : TaskId)
  | memory (base length : UInt64)
  | network (host : String) (port : UInt16)
  | storage (path : String)
  | channel (name : String)
  | tool (name : String)
  | model (modelId : String)
  | agentSpawn
  | system (name : String)
deriving DecidableEq, Repr

namespace ResourceRef

/-- `ResourceRef::is_subset_of`: the narrowing test of delegation. -/
def isSubsetOf : ResourceRef → ResourceRef → Bool
  | .memory cb cl, .memory pb pl =>
    -- the bounds saturate, so that a range running past the last address stays comparable
    decide (pb ≤ cb) && decide (saturatingAdd cb cl ≤ saturatingAdd pb pl)
  | a, b =>
    if a = b then true
    else match a, b with
      | .network ch cp, .network ph pp => (ph == "*" || ch == ph) && (pp == 0 || cp == pp)
      | .storage child, .storage parentPath => startsWith child parentPath
      | _, _ => false

theorem isSubsetOf_memory {cb cl pb pl : UInt64} :
    isSubsetOf (.memory cb cl) (.memory pb pl) = true ↔
      pb ≤ cb ∧ saturatingAdd cb cl ≤ saturatingAdd pb pl := by
  simp [isSubsetOf]

theorem isSubsetOf_network {ch ph : String} {cp pp : UInt16} :
    isSubsetOf (.network ch cp) (.network ph pp) = true ↔
      (ph = "*" ∨ ch = ph) ∧ (pp = 0 ∨ cp = pp) := by
  simp only [isSubsetOf, network.injEq]
  split_ifs with h
  · simp [h]
  · simp

theorem isSubsetOf_storage {c p : String} :
    isSubsetOf (.storage c) (.storage p) = true ↔ startsWith c p = true := by
  simp only [isSubsetOf, storage.injEq]
  split_ifs with h
  · simp [h]
  · rfl

@[simp] theorem isSubsetOf_refl (a : ResourceRef) : a.isSubsetOf a = true := by
  cases a with
  | memory => simp [isSubsetOf]
  | _ => simp [isSubsetOf]

/-- Outside memory, networks and storage a resource narrows only to itself. -/
theorem isSubsetOf_cases {a b : ResourceRef} (h : a.isSubsetOf b = true) :
    a = b ∨ (∃ cb cl pb pl, a = .memory cb cl ∧ b = .memory pb pl) ∨
      (∃ ch cp ph pp, a = .network ch cp ∧ b = .network ph pp) ∨
      ∃ c p, a = .storage c ∧ b = .storage p := by
  cases a <;> cases b <;> simp_all [isSubsetOf]

/-- **Narrowing is transitive.** -/
theorem isSubsetOf_trans {a b c : ResourceRef} (hab : a.isSubsetOf b = true)
    (hbc : b.isSubsetOf c = true) : a.isSubsetOf c = true := by
  rcases isSubsetOf_cases hab with rfl | ⟨cb, cl, pb, pl, rfl, rfl⟩ | ⟨ch, cp, ph, pp, rfl, rfl⟩ |
    ⟨s, p, rfl, rfl⟩
  · exact hbc
  · rcases isSubsetOf_cases hbc with rfl | ⟨_, _, gb, gl, h, rfl⟩ | ⟨_, _, _, _, h, -⟩ |
      ⟨_, _, h, -⟩
    · exact hab
    · obtain ⟨rfl, rfl⟩ := memory.inj h
      rw [isSubsetOf_memory] at *
      exact ⟨UInt64.le_trans hbc.1 hab.1, UInt64.le_trans hab.2 hbc.2⟩
    · cases h
    · cases h
  · rcases isSubsetOf_cases hbc with rfl | ⟨_, _, _, _, h, -⟩ | ⟨_, _, gh, gp, h, rfl⟩ |
      ⟨_, _, h, -⟩
    · exact hab
    · cases h
    · obtain ⟨rfl, rfl⟩ := network.inj h
      rw [isSubsetOf_network] at *
      grind
    · cases h
  · rcases isSubsetOf_cases hbc with rfl | ⟨_, _, _, _, h, -⟩ | ⟨_, _, _, _, h, -⟩ |
      ⟨_, g, h, rfl⟩
    · exact hab
    · cases h
    · cases h
    · obtain rfl := storage.inj h
      rw [isSubsetOf_storage] at *
      exact startsWith_trans hab hbc

/-! ## Addresses -/

theorem toNat_saturatingAdd (a b : UInt64) :
    (saturatingAdd a b).toNat = min (a.toNat + b.toNat) (2 ^ 64 - 1) := by
  rw [saturatingAdd]
  split
  · next h =>
    rw [UInt64.toNat_add, Nat.mod_eq_of_lt h]
    omega
  · next h =>
    have hmax : (0xFFFFFFFFFFFFFFFF : UInt64).toNat = 2 ^ 64 - 1 := rfl
    rw [hmax]
    omega

/-- The address lies in the range of a memory resource. -/
def CoversAddress : ResourceRef → Nat → Prop
  | .memory base length, address =>
    base.toNat ≤ address ∧ address < base.toNat + length.toNat
  | _, _ => False

instance : (r : ResourceRef) → (address : Nat) → Decidable (r.CoversAddress address)
  | .memory _ _, _ => inferInstanceAs (Decidable (_ ∧ _))
  | .agent _, _ | .network _ _, _ | .storage _, _ | .channel _, _ | .tool _, _ | .model _, _
  | .agentSpawn, _ | .system _, _ => .isFalse id

/-- A memory resource ends at an address or before. -/
def EndsBy : ResourceRef → Nat → Prop
  | .memory base length, last => base.toNat + length.toNat ≤ last
  | _, _ => True

theorem EndsBy.mono {r : ResourceRef} {m n : Nat} (h : r.EndsBy m) (hmn : m ≤ n) :
    r.EndsBy n := by
  cases r with
  | memory base length => exact Nat.le_trans h hmn
  | _ => trivial

theorem EndsBy.lt {r : ResourceRef} {address last : Nat} (h : r.EndsBy last)
    (ha : r.CoversAddress address) : address < last := by
  cases r with
  | memory base length => exact Nat.lt_of_lt_of_le ha.2 h
  | _ => exact ha.elim

/-- Narrowing covers no new address, as long as the wider range ends before the bound at which the
comparison saturates. -/
theorem endsBy_of_isSubsetOf {c p : ResourceRef} {last : Nat} (hsub : c.isSubsetOf p = true)
    (hp : p.EndsBy last) (hlast : last < 2 ^ 64 - 1) :
    c.EndsBy last ∧ ∀ address, c.CoversAddress address → p.CoversAddress address := by
  rcases isSubsetOf_cases hsub with rfl | ⟨cb, cl, pb, pl, rfl, rfl⟩ | ⟨_, _, _, _, rfl, rfl⟩ |
    ⟨_, _, rfl, rfl⟩
  · exact ⟨hp, fun _ h => h⟩
  · obtain ⟨hbase, hend⟩ := isSubsetOf_memory.mp hsub
    rw [UInt64.le_iff_toNat_le] at hbase
    rw [UInt64.le_iff_toNat_le, toNat_saturatingAdd, toNat_saturatingAdd] at hend
    have hp' : pb.toNat + pl.toNat ≤ last := hp
    have hle : cb.toNat + cl.toNat ≤ pb.toNat + pl.toNat := by omega
    refine ⟨Nat.le_trans hle hp', ?_⟩
    rintro address ⟨hlow, hhigh⟩
    exact ⟨Nat.le_trans hbase hlow, Nat.lt_of_lt_of_le hhigh hle⟩
  · exact ⟨trivial, fun _ h => h.elim⟩
  · exact ⟨trivial, fun _ h => h.elim⟩

end ResourceRef

end OxideOS
