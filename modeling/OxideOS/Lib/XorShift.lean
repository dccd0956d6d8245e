import Mathlib.Logic.Function.Iterate

/-!
# Mixing words by shift and xor

A map of words that commutes with xor, and of which some iterate is zero, fades.  Mixing a word with
its image under such a map loses nothing: what two words with the same mix differ by is fixed by the
map, hence by every iterate of it, hence zero.  Shifts by a positive distance fade.
-/

namespace XorShift

variable {w k : Nat} {s : BitVec w → BitVec w}

/-- A word, mixed with its image. -/
def mix (s : BitVec w → BitVec w) (x : BitVec w) : BitVec w := x ^^^ s x

/-- The map commutes with xor, and an iterate of it is zero. -/
structure Fades (s : BitVec w → BitVec w) : Prop where
  xor : ∀ x y, s (x ^^^ y) = s x ^^^ s y
  vanishes : ∃ n, ∀ x, s^[n] x = 0#w

/-- Only zero is fixed. -/
theorem Fades.eq_zero_of_fixed (h : Fades s) {x : BitVec w} (hx : s x = x) : x = 0#w := by
  obtain ⟨n, hn⟩ := h.vanishes
  rw [← Function.iterate_fixed hx n, hn]

/-- **Mixing loses nothing.** -/
theorem Fades.mix_injective (h : Fades s) : Function.Injective (mix s) := by
  intro x y hxy
  have hmix : x ^^^ s x = y ^^^ s y := hxy
  have hfixed : s (x ^^^ y) = x ^^^ y :=
    calc s (x ^^^ y) = s x ^^^ s y := h.xor x y
      _ = x ^^^ (x ^^^ s x) ^^^ s y := by rw [← BitVec.xor_assoc, BitVec.xor_self, BitVec.zero_xor]
      _ = x ^^^ (y ^^^ s y) ^^^ s y := by rw [hmix]
      _ = x ^^^ y := by rw [BitVec.xor_assoc, BitVec.xor_assoc, BitVec.xor_self, BitVec.xor_zero]
  exact BitVec.xor_eq_zero_iff.mp (h.eq_zero_of_fixed hfixed)

theorem iterate_shiftLeft (k n : Nat) (x : BitVec w) :
    (fun v : BitVec w => v <<< k)^[n] x = x <<< (k * n) := by
  induction n with
  | zero => rw [Nat.mul_zero, BitVec.shiftLeft_zero, Function.iterate_zero_apply]
  | succ n ih => rw [Function.iterate_succ_apply', ih, Nat.mul_succ, BitVec.shiftLeft_add]

theorem iterate_shiftRight (k n : Nat) (x : BitVec w) :
    (fun v : BitVec w => v >>> k)^[n] x = x >>> (k * n) := by
  induction n with
  | zero => rw [Nat.mul_zero, BitVec.ushiftRight_zero, Function.iterate_zero_apply]
  | succ n ih => rw [Function.iterate_succ_apply', ih, Nat.mul_succ, BitVec.shiftRight_add]

/-- So many shifts leave nothing as there are bits. -/
theorem fades_shiftLeft (hk : 0 < k) : Fades fun x : BitVec w => x <<< k where
  xor x y := BitVec.shiftLeft_xor_distrib x y k
  vanishes := by
    refine ⟨w, fun x => ?_⟩
    rw [iterate_shiftLeft]
    exact BitVec.shiftLeft_eq_zero (Nat.le_mul_of_pos_left w hk)

theorem fades_shiftRight (hk : 0 < k) : Fades fun x : BitVec w => x >>> k where
  xor x y := BitVec.ushiftRight_xor_distrib x y k
  vanishes := by
    refine ⟨w, fun x => ?_⟩
    rw [iterate_shiftRight]
    exact BitVec.ushiftRight_eq_zero (Nat.le_mul_of_pos_left w hk)

end XorShift
