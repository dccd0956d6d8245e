import Mathlib.Order.Basic

/-!
# Permission bits

A permission set is a 32-bit word, one bit a right. Containment is bitwise, and a capability may
be delegated to a subset when it holds the delegation right itself.
-/

namespace OxideOS

/-- `capability::PermissionBits`: a bitfield of rights. -/
structure PermissionBits where
  /-- The word itself, `PermissionBits::raw`. -/
  raw : BitVec 32
deriving DecidableEq, Repr

namespace PermissionBits

def none : PermissionBits := ⟨0⟩
def read : PermissionBits := ⟨1 <<< 0⟩
def write : PermissionBits := ⟨1 <<< 1⟩
def execute : PermissionBits := ⟨1 <<< 2⟩
def delegate : PermissionBits := ⟨1 <<< 3⟩
def spawn : PermissionBits := ⟨1 <<< 4⟩
def kill : PermissionBits := ⟨1 <<< 5⟩
def subscribe : PermissionBits := ⟨1 <<< 6⟩
def publish : PermissionBits := ⟨1 <<< 7⟩
def connect : PermissionBits := ⟨1 <<< 8⟩
def all : PermissionBits := ⟨0xFFFFFFFF⟩

/-- Every right of `other` is a right of `self`. -/
def contains (self other : PermissionBits) : Bool := (self.raw &&& other.raw) == other.raw

def union (self other : PermissionBits) : PermissionBits := ⟨self.raw ||| other.raw⟩

/-- Delegation to `subset` needs the delegation right and every right of `subset`. -/
def canDelegateTo (self subset : PermissionBits) : Bool :=
  self.contains delegate && self.contains subset

variable {a b c : PermissionBits}

theorem contains_iff : a.contains b = true ↔ a.raw &&& b.raw = b.raw := by
  simp [contains]

@[simp] theorem contains_refl (a : PermissionBits) : a.contains a = true :=
  contains_iff.mpr BitVec.and_self

theorem contains_trans (hab : a.contains b = true) (hbc : b.contains c = true) :
    a.contains c = true := by
  rw [contains_iff] at *
  rw [← hbc, ← BitVec.and_assoc, hab]

theorem canDelegateTo_iff :
    a.canDelegateTo b = true ↔ a.contains delegate = true ∧ a.contains b = true := by
  simp [canDelegateTo]

end PermissionBits

end OxideOS
