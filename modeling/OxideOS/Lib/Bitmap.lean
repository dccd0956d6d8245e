import Mathlib.Data.BitVec
import Mathlib.Data.Nat.Count

/-!
# Packed bitmaps

A bitmap packs eight flags to a byte, flag `i` in bit `i % 8` of byte `i / 8`. Setting or clearing
a flag changes that flag and no other, in particular none of its seven neighbours in the byte.
-/

namespace Bitmap

/-- Flag `i`. Past the end of the bitmap no flag is raised. -/
def test (bits : List (BitVec 8)) (i : Nat) : Bool :=
  (bits.getD (i / 8) 0 >>> (i % 8)) &&& 1 == 1

/-- Raise flag `i`. -/
def set (bits : List (BitVec 8)) (i : Nat) : List (BitVec 8) :=
  bits.modify (i / 8) fun b => b ||| (1#8 <<< (i % 8))

/-- Lower flag `i`. -/
def clear (bits : List (BitVec 8)) (i : Nat) : List (BitVec 8) :=
  bits.modify (i / 8) fun b => b &&& ~~~(1#8 <<< (i % 8))

variable {bits : List (BitVec 8)} {i j : Nat}

@[simp] theorem length_set : (set bits i).length = bits.length := List.length_modify ..

@[simp] theorem length_clear : (clear bits i).length = bits.length := List.length_modify ..

theorem test_eq : test bits i = (bits.getD (i / 8) 0).getLsbD (i % 8) := by
  unfold test
  rw [show (1 : BitVec 8) = 1#8 from rfl, BitVec.and_one_eq_setWidth_ofBool_getLsbD,
    BitVec.getLsbD_ushiftRight, Nat.add_zero]
  cases (bits.getD (i / 8) 0).getLsbD (i % 8) with
  | false => rfl
  | true => rfl

theorem getLsbD_or_shift {b : BitVec 8} {k n : Nat} (hn : n < 8) :
    (b ||| (1#8 <<< k)).getLsbD n = (decide (n = k) || b.getLsbD n) := by
  rw [BitVec.getLsbD_or, BitVec.getLsbD_shiftLeft, BitVec.getLsbD_one]
  by_cases hk : n = k
  · simp [hk, hk ▸ hn]
  · by_cases hlt : n < k
    · simp [hk, hlt]
    · have : n - k ≠ 0 := by omega
      simp [hk, this]

theorem getLsbD_and_not_shift {b : BitVec 8} {k n : Nat} (hn : n < 8) :
    (b &&& ~~~(1#8 <<< k)).getLsbD n = (!decide (n = k) && b.getLsbD n) := by
  rw [BitVec.getLsbD_and, BitVec.getLsbD_not, BitVec.getLsbD_shiftLeft, BitVec.getLsbD_one]
  by_cases hk : n = k
  · simp [hk, hk ▸ hn]
  · by_cases hlt : n < k
    · simp [hk, hlt, hn]
    · have : n - k ≠ 0 := by omega
      simp [hk, hn, this]

/-- Within one byte the bit names the flag. -/
theorem mod_eq_iff (hd : j / 8 = i / 8) : j % 8 = i % 8 ↔ j = i := by
  constructor
  · intro hm
    rw [← Nat.div_add_mod j 8, ← Nat.div_add_mod i 8, hd, hm]
  · rintro rfl
    rfl

theorem getD_modify {f : BitVec 8 → BitVec 8} {n m : Nat} (hn : n < bits.length) :
    (bits.modify n f).getD m 0 = if m = n then f (bits.getD m 0) else bits.getD m 0 := by
  rw [List.getD_eq_getElem?_getD, List.getD_eq_getElem?_getD, List.getElem?_modify]
  by_cases hm : m = n
  · subst hm
    rw [List.getElem?_eq_getElem hn]
    simp
  · rw [if_neg hm]
    simp [Ne.symm hm]

/-- Changing one bit of a byte changes one flag. -/
theorem test_modify {f : BitVec 8 → BitVec 8} {g : Bool → Bool → Bool} (hg : ∀ x, g false x = x)
    (hf : ∀ {b n}, n < 8 → (f b).getLsbD n = g (decide (n = i % 8)) (b.getLsbD n))
    (hi : i / 8 < bits.length) :
    test (bits.modify (i / 8) f) j = g (decide (j = i)) (test bits j) := by
  rw [test_eq, test_eq, getD_modify hi]
  by_cases hd : j / 8 = i / 8
  · rw [if_pos hd, hf (Nat.mod_lt j (by omega))]
    simp only [mod_eq_iff hd]
  · have hne : j ≠ i := fun h => hd (h ▸ rfl)
    simp [hd, hne, hg]

/-- Raising a flag raises that flag only. -/
theorem test_set (hi : i / 8 < bits.length) :
    test (set bits i) j = (decide (j = i) || test bits j) :=
  test_modify Bool.false_or getLsbD_or_shift hi

/-- Lowering a flag lowers that flag only. -/
theorem test_clear (hi : i / 8 < bits.length) :
    test (clear bits i) j = (!decide (j = i) && test bits j) :=
  test_modify (g := fun d x => !d && x) Bool.true_and getLsbD_and_not_shift hi

/-! ## Counting -/

/-- The number of bits that are set in a byte. -/
def countOnes (b : BitVec 8) : Nat := Nat.count (fun i => b.getLsbD i = true) 8

/-- The number of bits that are set in all bytes. -/
def ones (bits : List (BitVec 8)) : Nat := (bits.map countOnes).sum

theorem test_cons_of_lt {b : BitVec 8} (hi : i < 8) : test (b :: bits) i = b.getLsbD i := by
  rw [test_eq, Nat.div_eq_of_lt hi, Nat.mod_eq_of_lt hi]
  rfl

theorem test_cons_add (b : BitVec 8) (i : Nat) : test (b :: bits) (8 + i) = test bits i := by
  rw [test_eq, test_eq, Nat.add_div_left i (by omega), Nat.add_mod_left]
  rfl

/-- The bits that are set are the raised flags of all whole bytes. -/
theorem ones_eq_count (bits : List (BitVec 8)) :
    ones bits = Nat.count (fun i => test bits i = true) (8 * bits.length) := by
  induction bits with
  | nil => rfl
  | cons b bits ih =>
    have hfirst : Nat.count (fun i => test (b :: bits) i = true) 8 = countOnes b := by
      rw [countOnes, Nat.count_eq_card_filter_range, Nat.count_eq_card_filter_range]
      apply congrArg Finset.card
      apply Finset.filter_congr
      intro i hi
      rw [test_cons_of_lt (Finset.mem_range.mp hi)]
    have hlength : 8 * (b :: bits).length = 8 + 8 * bits.length := by
      rw [List.length_cons]
      omega
    rw [hlength, Nat.count_add, hfirst]
    simp only [test_cons_add]
    rw [← ih]
    exact List.sum_cons

end Bitmap
