import Mathlib.Data.List.Basic
import Mathlib.Algebra.Order.Ring.Nat

/-!
# Bytes

Little-endian numbers of a fixed width, and fields copied into a byte list at an offset and read
back from it.
-/

namespace Bytes

/-- The `w` little-endian bytes of a number; what does not fit is cut off. -/
def le : Nat → Nat → List UInt8
  | 0, _ => []
  | w + 1, n => UInt8.ofNat n :: le w (n / 256)

/-- The number that little-endian bytes stand for. -/
def ofLE : List UInt8 → Nat
  | [] => 0
  | b :: bs => b.toNat + 256 * ofLE bs

@[simp]
theorem length_le (w n : Nat) : (le w n).length = w := by
  induction w generalizing n with
  | zero => rfl
  | succ w ih => rw [le, List.length_cons, ih]

/-- The number read back is the number modulo its width. -/
theorem ofLE_le (w n : Nat) : ofLE (le w n) = n % 256 ^ w := by
  induction w generalizing n with
  | zero => rw [pow_zero, Nat.mod_one, le, ofLE]
  | succ w ih =>
    have hbyte : (UInt8.ofNat n).toNat = n % 256 := rfl
    rw [le, ofLE, ih, hbyte, pow_succ', Nat.mod_mul]

theorem ofLE_le_of_lt {w n : Nat} (h : n < 256 ^ w) : ofLE (le w n) = n := by
  rw [ofLE_le, Nat.mod_eq_of_lt h]

theorem ofLE_lt (l : List UInt8) : ofLE l < 256 ^ l.length := by
  induction l with
  | nil => exact Nat.one_pos
  | cons b bs ih =>
    have hb : b.toNat < 256 := b.toNat_lt
    rw [ofLE, List.length_cons, pow_succ']
    omega

/-- The `n` bytes from an offset on. -/
def slice (l : List UInt8) (lo n : Nat) : List UInt8 := (l.drop lo).take n

theorem ofLE_slice_lt (l : List UInt8) (lo n : Nat) : ofLE (slice l lo n) < 256 ^ n := by
  have hlen : (slice l lo n).length ≤ n := List.length_take_le _ _
  exact Nat.lt_of_lt_of_le (ofLE_lt _) (Nat.pow_le_pow_right (by decide) hlen)

/-- Overwrite the bytes from an offset on. -/
def splice (l : List UInt8) (off : Nat) (src : List UInt8) : List UInt8 :=
  l.take off ++ src ++ l.drop (off + src.length)

section Splice

variable {l src : List UInt8} {off lo n : Nat}

theorem length_splice (h : off + src.length ≤ l.length) :
    (splice l off src).length = l.length := by
  simp only [splice, List.length_append, List.length_take, List.length_drop]
  omega

theorem getElem?_splice (h : off + src.length ≤ l.length) (i : Nat) :
    (splice l off src)[i]? =
      if off ≤ i ∧ i < off + src.length then src[i - off]? else l[i]? := by
  have hoff : min off l.length = off := by omega
  simp only [splice, List.getElem?_append, List.length_append, List.length_take, hoff,
    List.getElem?_take, List.getElem?_drop]
  by_cases hlo : i < off
  · have hi : i < off + src.length := by omega
    simp [hlo, hi, Nat.not_le.mpr hlo]
  · by_cases hhi : i < off + src.length
    · simp [hlo, hhi, Nat.not_lt.mp hlo]
    · have hback : off + src.length + (i - (off + src.length)) = i := by omega
      simp [hhi, hback]

theorem getElem?_slice (l : List UInt8) (lo n i : Nat) :
    (slice l lo n)[i]? = if i < n then l[lo + i]? else none := by
  rw [slice, List.getElem?_take]
  split
  · rw [List.getElem?_drop]
  · rfl

/-- A range reads what was copied over it. -/
theorem slice_splice_self (h : off + src.length ≤ l.length) (hn : n = src.length) :
    slice (splice l off src) off n = src := by
  apply List.ext_getElem?
  intro i
  rw [getElem?_slice, getElem?_splice h, hn, Nat.add_sub_cancel_left]
  by_cases hi : i < src.length
  · simp [hi]
  · rw [if_neg hi, List.getElem?_eq_none (Nat.not_lt.mp hi)]

theorem slice_splice_of_disjoint (h : off + src.length ≤ l.length)
    (hd : lo + n ≤ off ∨ off + src.length ≤ lo) :
    slice (splice l off src) lo n = slice l lo n := by
  apply List.ext_getElem?
  intro i
  rw [getElem?_slice, getElem?_slice, getElem?_splice h]
  by_cases hi : i < n
  · have hout : ¬(off ≤ lo + i ∧ lo + i < off + src.length) := by omega
    rw [if_neg hout]
  · rw [if_neg hi, if_neg hi]

end Splice

end Bytes
