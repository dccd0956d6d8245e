import OxideOS.Basic
import Mathlib.Algebra.Group.Nat.Defs

/-!
# Split virtqueues

The rings that a driver and a virtio device share, as both drivers declare them.  The driver writes
chains of descriptors and posts their heads to the available ring; the device returns the heads in
the used ring, in any order, and counts them in its index.  Both indices count modulo `2 ^ 16`.
The length of the arrays in which a driver sees the rings is an argument.
-/

namespace OxideOS

namespace Virtio

structure VirtqDesc where
  addr : UInt64
  len : UInt32
  flags : UInt16
  next : UInt16
deriving DecidableEq, Repr

structure VirtqAvail where
  idx : UInt16
  ring : List UInt16
deriving DecidableEq, Repr

structure VirtqUsedElem where
  id : UInt32
  len : UInt32
deriving DecidableEq, Repr

structure VirtqUsed where
  idx : UInt16
  ring : List VirtqUsedElem
deriving DecidableEq, Repr

/-- The distance of two counts, as it shows in the indices. -/
theorem toNat_ofNat_sub_ofNat {m n : Nat} (hle : n ≤ m) (hlt : m - n < 2 ^ 16) :
    (UInt16.ofNat m - UInt16.ofNat n).toNat = m - n := by
  rw [UInt16.toNat_sub, UInt16.toNat_ofNat', UInt16.toNat_ofNat']
  omega

theorem ofNat_add_one (n : Nat) : UInt16.ofNat n + 1 = UInt16.ofNat (n + 1) :=
  (UInt16.ofNat_add n 1).symm

namespace VirtqAvail

/-- The ring in zeroed memory. -/
def zeroed (size : Nat) : VirtqAvail := ⟨0, List.replicate size 0⟩

/-- Write the head of a chain to the next slot, and then advance the index. -/
def post (size : Nat) (avail : VirtqAvail) (head : Nat) : VirtqAvail where
  idx := avail.idx + 1
  ring := avail.ring.set (avail.idx.toNat % size) (UInt16.ofNat head)

/-- The descriptor in the slot of an index. -/
def entry (size : Nat) (avail : VirtqAvail) (idx : Nat) : Nat :=
  (avail.ring[idx % size]?.getD 0).toNat

/-- The descriptors that were posted since the ring was `before`, as the device finds them. -/
def posts (size : Nat) (before after : VirtqAvail) : List Nat :=
  (List.range (after.idx - before.idx).toNat).map fun k => after.entry size (before.idx.toNat + k)

variable {size : Nat} {avail : VirtqAvail} {head : Nat}

@[simp] theorem posts_self : avail.posts size avail = [] := by
  simp [posts]

/-- A descriptor is found where it was posted. -/
theorem entry_post (hsize : 0 < size) (hring : avail.ring.length = size) (hhead : head < 2 ^ 16) :
    (avail.post size head).entry size avail.idx.toNat = head := by
  have hlt : avail.idx.toNat % size < avail.ring.length := by
    rw [hring]
    exact Nat.mod_lt _ hsize
  rw [entry, post, List.getElem?_set_self hlt, Option.getD_some, UInt16.toNat_ofNat',
    Nat.mod_eq_of_lt hhead]

/-- What a device finds that looks at the ring with another size in mind. -/
theorem posts_post_eq (size size' : Nat) (avail : VirtqAvail) (head : Nat) :
    avail.posts size (avail.post size' head) =
      [(avail.post size' head).entry size avail.idx.toNat] := by
  have hone : ((avail.post size' head).idx - avail.idx).toNat = 1 := by
    rw [post, UInt16.add_comm, UInt16.add_sub_cancel]
    rfl
  rw [posts, hone, List.range_one, List.map_singleton, Nat.add_zero]

/-- Posting a descriptor posts just that one. -/
theorem posts_post (hsize : 0 < size) (hring : avail.ring.length = size) (hhead : head < 2 ^ 16) :
    avail.posts size (avail.post size head) = [head] := by
  rw [posts_post_eq, entry_post hsize hring hhead]

end VirtqAvail

namespace VirtqUsed

/-- The ring in zeroed memory. -/
def zeroed (size : Nat) : VirtqUsed := ⟨0, List.replicate size ⟨0, 0⟩⟩

/-- The device returns a chain.  It knows the size that the queue really has. -/
def complete (used : VirtqUsed) (size head len : Nat) : VirtqUsed where
  idx := used.idx + 1
  ring := used.ring.set (used.idx.toNat % size) ⟨UInt32.ofNat head, UInt32.ofNat len⟩

end VirtqUsed

end Virtio

end OxideOS
