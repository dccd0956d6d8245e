import OxideOS.Lib.Bytes
import Mathlib.Data.Set.Function
import Mathlib.Order.CompletePartialOrder
import Mathlib.Order.Interval.Set.Disjoint

/-!
# Memory of bytes

A memory gives a byte to every address.  Words of 64 bits are read and written in little-endian
order, eight bytes from an address on.
-/

/-- A byte for every address. -/
abbrev ByteMemory := Nat → UInt8

namespace ByteMemory

variable {m m' : ByteMemory} {a b : Nat} {v : UInt64}

/-- The bytes of a word. -/
def bytes64 (m : ByteMemory) (a : Nat) : List UInt8 := (List.range 8).map fun i => m (a + i)

/-- The word at an address. -/
def read64 (m : ByteMemory) (a : Nat) : UInt64 := UInt64.ofNat (Bytes.ofLE (m.bytes64 a))

/-- Write a word at an address. -/
def write64 (m : ByteMemory) (a : Nat) (v : UInt64) : ByteMemory := fun b =>
  if a ≤ b ∧ b < a + 8 then (Bytes.le 8 v.toNat).getD (b - a) 0 else m b

theorem read64_congr (h : Set.EqOn m m' (Set.Ico a (a + 8))) : m.read64 a = m'.read64 a := by
  have hbytes : m.bytes64 a = m'.bytes64 a := by
    refine List.map_congr_left fun i hi => h ⟨Nat.le_add_right a i, ?_⟩
    exact Nat.add_lt_add_left (List.mem_range.mp hi) a
  rw [read64, hbytes, read64]

theorem bytes64_write64_self (m : ByteMemory) (a : Nat) (v : UInt64) :
    (m.write64 a v).bytes64 a = Bytes.le 8 v.toNat := by
  apply List.ext_getElem?
  intro i
  rw [bytes64, List.getElem?_map]
  by_cases hi : i < 8
  · have hlength : i < (Bytes.le 8 v.toNat).length := by rwa [Bytes.length_le]
    have hin : a ≤ a + i ∧ a + i < a + 8 := by omega
    rw [List.getElem?_range hi, Option.map_some, write64, if_pos hin, Nat.add_sub_cancel_left,
      List.getD_eq_getElem?_getD, List.getElem?_eq_getElem hlength, Option.getD_some]
  · rw [List.getElem?_eq_none (by simpa using hi), List.getElem?_eq_none (by simpa using hi),
      Option.map_none]

/-- **A word is read back.** -/
@[simp]
theorem read64_write64_self (m : ByteMemory) (a : Nat) (v : UInt64) :
    (m.write64 a v).read64 a = v := by
  rw [read64, bytes64_write64_self, Bytes.ofLE_le_of_lt v.toNat_lt, UInt64.ofNat_toNat]

/-- **A write changes nothing else.** -/
theorem eqOn_write64 {s : Set Nat} (h : Disjoint s (Set.Ico a (a + 8))) :
    Set.EqOn (m.write64 a v) m s := by
  intro b hb
  have hout : ¬(a ≤ b ∧ b < a + 8) := fun hin => Set.disjoint_left.mp h hb hin
  rw [write64, if_neg hout]

/-! ## Several words -/

/-- Write words one behind the other. -/
def writeWords (m : ByteMemory) (a : Nat) : List UInt64 → ByteMemory
  | [] => m
  | v :: vs => (m.write64 a v).writeWords (a + 8) vs

/-- The words from an address on. -/
def readWords (m : ByteMemory) (a : Nat) : Nat → List UInt64
  | 0 => []
  | n + 1 => m.read64 a :: m.readWords (a + 8) n

variable {vs : List UInt64} {n : Nat}

theorem eqOn_writeWords {s : Set Nat} (h : Disjoint s (Set.Ico a (a + 8 * vs.length))) :
    Set.EqOn (m.writeWords a vs) m s := by
  induction vs generalizing m a with
  | nil => exact Set.eqOn_refl m s
  | cons v vs ih =>
    rw [List.length_cons] at h
    have hword : Set.Ico a (a + 8) ⊆ Set.Ico a (a + 8 * (vs.length + 1)) :=
      Set.Ico_subset_Ico_right (by omega)
    have hrest : Set.Ico (a + 8) (a + 8 + 8 * vs.length) ⊆ Set.Ico a (a + 8 * (vs.length + 1)) :=
      Set.Ico_subset_Ico (by omega) (by omega)
    exact (ih (h.mono_right hrest)).trans (eqOn_write64 (h.mono_right hword))

theorem readWords_congr (h : Set.EqOn m m' (Set.Ico a (a + 8 * n))) :
    m.readWords a n = m'.readWords a n := by
  induction n generalizing a with
  | zero => rfl
  | succ n ih =>
    have hword : m.read64 a = m'.read64 a :=
      read64_congr (h.mono (Set.Ico_subset_Ico_right (by omega)))
    rw [readWords, readWords, hword, ih (h.mono (Set.Ico_subset_Ico (by omega) (by omega)))]

/-- **Words are read back.** -/
theorem readWords_writeWords_self (m : ByteMemory) (a : Nat) (vs : List UInt64) :
    (m.writeWords a vs).readWords a vs.length = vs := by
  induction vs generalizing m a with
  | nil => rfl
  | cons v vs ih =>
    have hfirst : Set.EqOn ((m.write64 a v).writeWords (a + 8) vs) (m.write64 a v)
        (Set.Ico a (a + 8)) :=
      eqOn_writeWords Set.Ico_disjoint_Ico_same
    rw [writeWords, List.length_cons, readWords, ih, read64_congr hfirst, read64_write64_self]

/-! ## Tables -/

/-- **The entries of a table do not overlap.** -/
theorem entries_disjoint {base size length m n : Nat} (hlength : length ≤ size) (h : m ≠ n) :
    Disjoint (Set.Ico (base + m * size) (base + m * size + length))
      (Set.Ico (base + n * size) (base + n * size + length)) := by
  refine Set.disjoint_left.mpr fun a hm hn => ?_
  rw [Set.mem_Ico] at hm hn
  rcases Nat.lt_or_gt_of_ne h with hlt | hlt
  · have hle : (m + 1) * size ≤ n * size := Nat.mul_le_mul_right size hlt
    rw [Nat.succ_mul] at hle
    omega
  · have hle : (n + 1) * size ≤ m * size := Nat.mul_le_mul_right size hlt
    rw [Nat.succ_mul] at hle
    omega

end ByteMemory
