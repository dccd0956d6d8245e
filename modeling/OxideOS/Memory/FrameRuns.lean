import OxideOS.Memory.FrameAllocator
import Mathlib.Order.Interval.Finset.Nat

/-!
# Taking several frames

Shared regions and virtqueues take several frames, one by one, and keep only the address of the
first.  What they take are the lowest free frames, wherever these are.  The frames follow each
other in memory exactly when no frame in use lies between them.
-/

namespace OxideOS

/-- Allocate so many frames, or until there are no more.  The frames are not recorded. -/
def allocateFrames : Nat → BitmapFrameAllocator → Bool × BitmapFrameAllocator
  | 0, frames => (true, frames)
  | n + 1, frames =>
    match frames.allocateFrame with
    | (none, frames) => (false, frames)
    | (some _, frames) => allocateFrames n frames

/-- Allocate so many frames, at least one, and keep the first.  When there are not enough, those
that have been allocated stay so. -/
def allocateRun (n : Nat) (frames : BitmapFrameAllocator) :
    Option PhysFrame × BitmapFrameAllocator :=
  match frames.allocateFrame with
  | (none, frames) => (none, frames)
  | (some first, frames) =>
    match allocateFrames (n - 1) frames with
    | (false, frames) => (none, frames)
    | (true, frames) => (some first, frames)

namespace BitmapFrameAllocator

variable {a a' : BitmapFrameAllocator} {first i j m n : Nat} {ok : Bool}

/-- All free frames below a mark have been taken. -/
structure TakesLowest (a : BitmapFrameAllocator) (m : Nat) (a' : BitmapFrameAllocator) : Prop where
  sound : a'.Sound
  total : a'.totalFrames = a.totalFrames
  le : m ≤ a.totalFrames
  isSet_iff : ∀ j, a'.isSet j = true ↔ a.isSet j = true ∨ j < m

theorem TakesLowest.refl (h : a.Sound) : a.TakesLowest 0 a :=
  ⟨h, rfl, Nat.zero_le _, fun j => by simp⟩

/-- Nothing is free below the frame that has just been taken, so the mark may move past it. -/
theorem TakesLowest.of_take (h : a.Sound) (hi : a.LowestFree i)
    (htakes : (a.take i).TakesLowest m a') : a.TakesLowest (max (i + 1) m) a' := by
  refine ⟨htakes.sound, htakes.total, max_le hi.lt htakes.le, fun j => ?_⟩
  rw [htakes.isSet_iff, isSet_take h hi.lt, lt_max_iff, Bool.or_eq_true, decide_eq_true_eq]
  constructor
  · rintro ((rfl | hset) | hlt)
    · exact .inr (.inl (Nat.lt_succ_self j))
    · exact .inl hset
    · exact .inr (.inr hlt)
  · rintro (hset | hlt | hlt)
    · exact .inl (.inr hset)
    · rcases Nat.lt_succ_iff_lt_or_eq.mp hlt with hlow | rfl
      · exact .inl (.inr (hi.low j hlow))
      · exact .inl (.inl rfl)
    · exact .inr hlt

theorem card_freeBelow_take (h : a.Sound) (hi : a.LowestFree i) (m : Nat) :
    (a.freeBelow (max (i + 1) m)).card = ((a.take i).freeBelow m).card + 1 := by
  have hmem : i ∈ a.freeBelow (max (i + 1) m) :=
    mem_freeBelow.mpr ⟨lt_max_of_lt_left (Nat.lt_succ_self i), hi.free⟩
  have hsame : (a.take i).freeBelow m = (a.freeBelow (max (i + 1) m)).erase i := by
    rw [← freeBelow_take h hi]
    ext j
    rw [mem_freeBelow, mem_freeBelow, lt_max_iff]
    constructor
    · rintro ⟨hlt, hfree⟩
      exact ⟨.inr hlt, hfree⟩
    · rintro ⟨hlt | hlt, hfree⟩
      · have hset := (h.take hi).hint j hlt
        rw [hfree] at hset
        cases hset
      · exact ⟨hlt, hfree⟩
  rw [hsame, Finset.card_erase_add_one hmem]

/-- **The lowest free frames are taken**: as many as asked for, or all there are. -/
theorem allocateFrames_spec (h : a.Sound) (halloc : allocateFrames n a = (ok, a')) :
    ∃ m, a.TakesLowest m a' ∧ (ok = true → (a.freeBelow m).card = n) ∧
      (ok = false → m = a.totalFrames) := by
  induction n generalizing a with
  | zero =>
    obtain ⟨rfl, rfl⟩ := Prod.mk.inj halloc
    exact ⟨0, TakesLowest.refl h, fun _ => by simp [freeBelow], Bool.noConfusion⟩
  | succ n ih =>
    rw [allocateFrames] at halloc
    rcases allocateFrame_spec h with ⟨i, hi, hsome⟩ | ⟨hall, hnone⟩
    · rw [hsome] at halloc
      obtain ⟨m, htakes, hok, hout⟩ := ih (h.take hi) halloc
      refine ⟨max (i + 1) m, htakes.of_take h hi, fun htrue => ?_, fun hfalse => ?_⟩
      · rw [card_freeBelow_take h hi, hok htrue]
      · rw [hout hfalse]
        exact max_eq_right hi.lt
    · rw [hnone] at halloc
      obtain ⟨rfl, rfl⟩ := Prod.mk.inj halloc
      refine ⟨a.totalFrames, ⟨h, rfl, le_rfl, fun j => ?_⟩, Bool.noConfusion, fun _ => rfl⟩
      rw [iff_self_or]
      exact hall j

/-! ## Consecutive frames -/

/-- So many frames from the first on exist and are free. -/
def RunFree (a : BitmapFrameAllocator) (first n : Nat) : Prop :=
  ∀ k < n, first + k < a.totalFrames ∧ a.isSet (first + k) = false

instance (a : BitmapFrameAllocator) (first n : Nat) : Decidable (a.RunFree first n) :=
  inferInstanceAs (Decidable (∀ k < n, _))

/-- The frames that have been taken. -/
theorem TakesLowest.mem_freeBelow_iff (h : a.TakesLowest m a') :
    j ∈ a.freeBelow m ↔ a'.isSet j = true ∧ a.isSet j = false := by
  rw [mem_freeBelow, h.isSet_iff]
  constructor
  · rintro ⟨hlt, hfree⟩
    exact ⟨.inr hlt, hfree⟩
  · rintro ⟨hset | hlt, hfree⟩
    · rw [hfree] at hset
      cases hset
    · exact ⟨hlt, hfree⟩

theorem freeBelow_mono (h : i ≤ j) : a.freeBelow i ⊆ a.freeBelow j := by
  intro k hk
  obtain ⟨hlt, hfree⟩ := mem_freeBelow.mp hk
  exact mem_freeBelow.mpr ⟨hlt.trans_le h, hfree⟩

/-- As many free frames below one mark as below another are the same. -/
theorem freeBelow_eq_of_card_eq (h : (a.freeBelow i).card = (a.freeBelow j).card) :
    a.freeBelow i = a.freeBelow j := by
  rcases le_total i j with hij | hji
  · exact Finset.eq_of_subset_of_card_le (freeBelow_mono hij) h.ge
  · exact (Finset.eq_of_subset_of_card_le (freeBelow_mono hji) h.le).symm

theorem LowestFree.unique (hi : a.LowestFree i) (hj : a.LowestFree j) : i = j :=
  le_antisymm (hi.le hj.free) (hj.le hi.free)

theorem LowestFree.freeBelow_eq (hfirst : a.LowestFree first) (hrun : a.RunFree first n) :
    a.freeBelow (first + n) = Finset.Ico first (first + n) := by
  ext j
  rw [mem_freeBelow, Finset.mem_Ico]
  constructor
  · rintro ⟨hlt, hfree⟩
    exact ⟨hfirst.le hfree, hlt⟩
  · rintro ⟨hle, hlt⟩
    have hj := (hrun (j - first) (by omega)).2
    rw [Nat.add_sub_cancel' hle] at hj
    exact ⟨hlt, hj⟩

/-- **The frames taken follow each other** from the first one on exactly when as many frames from
there on were free. -/
theorem TakesLowest.consecutive_iff (h : a.TakesLowest m a') (hcard : (a.freeBelow m).card = n)
    (hfirst : a.LowestFree first) :
    (∀ j, (a'.isSet j = true ∧ a.isSet j = false) ↔ first ≤ j ∧ j < first + n) ↔
      a.RunFree first n := by
  simp only [← h.mem_freeBelow_iff, ← Finset.mem_Ico]
  constructor
  · intro hall k hk
    obtain ⟨hlt, hfree⟩ := mem_freeBelow.mp
      ((hall (first + k)).mpr (Finset.mem_Ico.mpr ⟨Nat.le_add_right _ _, by omega⟩))
    exact ⟨hlt.trans_le h.le, hfree⟩
  · intro hrun j
    have hIco := hfirst.freeBelow_eq hrun
    have heq : a.freeBelow m = a.freeBelow (first + n) := by
      apply freeBelow_eq_of_card_eq
      rw [hIco, Nat.card_Ico, hcard, Nat.add_sub_cancel_left]
    rw [heq, hIco]

/-- The frames of a run are the lowest free ones, and the first is the lowest. -/
theorem allocateRun_spec (h : a.Sound) (hn : 0 < n) {frame : PhysFrame}
    (halloc : allocateRun n a = (some frame, a')) :
    ∃ m first, a.TakesLowest m a' ∧ a.LowestFree first ∧ frame = PhysFrame.ofIndex first ∧
      (a.freeBelow m).card = n := by
  rw [allocateRun] at halloc
  rcases allocateFrame_spec h with ⟨first, hfirst, hsome⟩ | ⟨-, hnone⟩
  · simp only [hsome] at halloc
    split at halloc
    · cases halloc
    · next a₁ hrest =>
      obtain ⟨hframe, rfl⟩ := Prod.mk.inj halloc
      obtain ⟨m, htakes, hok, -⟩ := allocateFrames_spec (h.take hfirst) hrest
      refine ⟨max (first + 1) m, first, htakes.of_take h hfirst, hfirst,
        (Option.some.inj hframe).symm, ?_⟩
      rw [card_freeBelow_take h hfirst, hok rfl]
      omega
  · simp only [hnone] at halloc
    cases halloc

/-- **The frames of a run follow each other** exactly when as many from the first one on were
free. -/
theorem allocateRun_consecutive_iff (h : a.Sound) (hn : 0 < n) {frame : PhysFrame}
    (halloc : allocateRun n a = (some frame, a')) :
    (∀ k < n, a'.isSet (frame.index + k) = true ∧ a.isSet (frame.index + k) = false) ↔
      a.RunFree frame.index n := by
  obtain ⟨m, first, htakes, hfirst, rfl, hcard⟩ := allocateRun_spec h hn halloc
  rw [PhysFrame.index_ofIndex]
  constructor
  · intro hall k hk
    obtain ⟨hset, hfree⟩ := hall k hk
    have hlt := (mem_freeBelow.mp (htakes.mem_freeBelow_iff.mpr ⟨hset, hfree⟩)).1
    exact ⟨hlt.trans_le htakes.le, hfree⟩
  · intro hrun k hk
    exact ((htakes.consecutive_iff hcard hfirst).mpr hrun (first + k)).mpr (by omega)

end BitmapFrameAllocator

end OxideOS
