import OxideOS.Lib.Bytes
import OxideOS.Lib.Guard

/-!
# Scanning ELF binaries

`userspace/elf.rs`: a binary is validated by its header, and the loadable segments are counted in a
loop over the program headers.  The offset of a program header is taken from the binary, and the
check that the header lies inside the binary adds its size to the offset before it compares.  An
offset at the top of the range makes the addition overflow.  Modelled is the build with overflow
checks, which stops there; without them the sum wraps and the check passes.

The headers are read through references, and their 64-bit fields ask for addresses that are
multiples of eight.  The same build stops at a reference that is not aligned, so a binary carries
its address here.

## Main definitions

* `ElfBinary`: the bytes of a binary, and where they are
* `Elf.validate`, `Elf.countLoadSegments`
* `ElfHeader.Inside`, `ElfHeader.Loads`: a program header lies inside the binary; it is reached and
  loadable
* `ElfBinary.NoOverflow`, `ElfBinary.HeadersAligned`: what the loop asks of a binary

## Main results

* `Elf.scan_eq_ok`, `Elf.scan_eq_misaligned`: what the loop returns, from any program header on
* `Elf.countLoadSegments_iff`: the loop counts the loadable segments exactly when no offset
  overflows and the program headers that it reaches are aligned
-/

namespace OxideOS

/-- What stops a scan: an addition that overflows, a reference that is not aligned, or a read
outside the binary. -/
inductive ElfFault
  | overflow
  | misaligned
  | outside
deriving DecidableEq, Repr

/-- A slice with the bytes of a binary. -/
structure ElfBinary where
  /-- The address of the first byte. -/
  address : Nat
  bytes : List UInt8
  length_lt : bytes.length < 2 ^ 63

/-- `ElfHeader`, without the fields that nothing reads. -/
structure ElfHeader where
  eIdent : List UInt8
  eMachine : Nat
  eEntry : Nat
  ePhoff : Nat
  ePhentsize : Nat
  ePhnum : Nat
deriving DecidableEq, Repr

namespace Elf

/-- `ELF_MAGIC`. -/
def elfMagic : List UInt8 := [0x7F, 0x45, 0x4C, 0x46]

/-- `PT_LOAD`. -/
def ptLoad : Nat := 1

/-- `size_of::<ElfHeader>()`. -/
def elfHeaderSize : Nat := 64

/-- `size_of::<ProgramHeader>()`. -/
def programHeaderSize : Nat := 56

/-- `align_of::<ElfHeader>()` and `align_of::<ProgramHeader>()`: both have fields of type `u64`. -/
def headerAlign : Nat := 8

/-- The header at the start of a binary. -/
def header (binary : ElfBinary) : ElfHeader where
  eIdent := Bytes.slice binary.bytes 0 16
  eMachine := Bytes.ofLE (Bytes.slice binary.bytes 18 2)
  eEntry := Bytes.ofLE (Bytes.slice binary.bytes 24 8)
  ePhoff := Bytes.ofLE (Bytes.slice binary.bytes 32 8)
  ePhentsize := Bytes.ofLE (Bytes.slice binary.bytes 54 2)
  ePhnum := Bytes.ofLE (Bytes.slice binary.bytes 56 2)

/-- The field `p_type` of the program header at an offset. -/
def pType (binary : ElfBinary) (offset : Nat) : Nat :=
  Bytes.ofLE (Bytes.slice binary.bytes offset 4)

/-- A reference to a header of so many bytes in the binary. -/
def borrow (binary : ElfBinary) (offset size : Nat) : Except ElfFault Unit :=
  if (binary.address + offset) % headerAlign ≠ 0 then .error .misaligned
  else if offset + size ≤ binary.bytes.length then .ok ()
  else .error .outside

/-- An addition of the type `usize`. -/
def add (a b : Nat) : Except ElfFault Nat :=
  if a + b < 2 ^ 64 then .ok (a + b) else .error .overflow

/-- `elf::validate`: the entry point of the binary. -/
def validate (binary : ElfBinary) : Except ElfFault (Except String Nat) :=
  if binary.bytes.length < elfHeaderSize then .ok (.error "binary too small")
  else do
    borrow binary 0 elfHeaderSize
    if (header binary).eIdent.take 4 ≠ elfMagic then .ok (.error "not a valid ELF")
    else if (header binary).eIdent[4]? ≠ some 2 then .ok (.error "not 64-bit")
    else if (header binary).eMachine ≠ 0x3E then .ok (.error "not x86_64")
    else .ok (.ok (header binary).eEntry)

/-- The loop of `count_load_segments`. -/
def scan (binary : ElfBinary) (header : ElfHeader) : List Nat → Nat → Except ElfFault Nat
  | [], count => .ok count
  | i :: rest, count => do
    -- the product of two 16-bit numbers does not overflow
    let offset ← add header.ePhoff (i * header.ePhentsize)
    let last ← add offset programHeaderSize
    if binary.bytes.length < last then .ok count
    else do
      borrow binary offset programHeaderSize
      scan binary header rest (if pType binary offset = ptLoad then count + 1 else count)

/-- `elf::count_load_segments`. -/
def countLoadSegments (binary : ElfBinary) : Except ElfFault Nat := do
  borrow binary 0 elfHeaderSize
  scan binary (header binary) (List.range (header binary).ePhnum) 0

end Elf

namespace ElfHeader

variable (header : ElfHeader) (binary : ElfBinary)

/-- The offset of a program header. -/
def offset (i : Nat) : Nat := header.ePhoff + i * header.ePhentsize

/-- The program header lies inside the binary. -/
def Inside (i : Nat) : Prop := header.offset i + Elf.programHeaderSize ≤ binary.bytes.length

/-- The end of the program header is a 64-bit number. -/
def Fits (i : Nat) : Prop := header.offset i + Elf.programHeaderSize < 2 ^ 64

/-- A reference to the program header is aligned. -/
def Aligned (i : Nat) : Prop := (binary.address + header.offset i) % Elf.headerAlign = 0

/-- The program header and all before it lie inside the binary, and it is loadable. -/
def Loads (i : Nat) : Prop :=
  (∀ j < i + 1, header.Inside binary j) ∧ Elf.pType binary (header.offset i) = Elf.ptLoad

instance (i : Nat) : Decidable (header.Inside binary i) := Nat.decLe _ _

instance (i : Nat) : Decidable (header.Fits i) := Nat.decLt _ _

instance (i : Nat) : Decidable (header.Aligned binary i) := Nat.decEq _ _

instance (i : Nat) : Decidable (header.Loads binary i) := inferInstanceAs (Decidable (_ ∧ _))

end ElfHeader

namespace ElfBinary

/-- The end of the first program header, if there is one, is a 64-bit number. -/
def NoOverflow (binary : ElfBinary) : Prop :=
  (Elf.header binary).ePhnum = 0 ∨ (Elf.header binary).ePhoff + Elf.programHeaderSize < 2 ^ 64

/-- The offsets of the program headers are multiples of eight, up to the first one that does not lie
inside the binary. -/
def HeadersAligned (binary : ElfBinary) : Prop :=
  ∀ i < (Elf.header binary).ePhnum, (∀ j < i + 1, (Elf.header binary).Inside binary j) →
    (Elf.header binary).offset i % Elf.headerAlign = 0

end ElfBinary

namespace Elf

variable {binary : ElfBinary} {header : ElfHeader}

/-- One turn of the loop. -/
theorem scan_cons (i : Nat) (rest : List Nat) (count : Nat) :
    scan binary header (i :: rest) count =
      if header.Fits i then
        if header.Inside binary i then
          if header.Aligned binary i then
            scan binary header rest
              (if pType binary (header.offset i) = ptLoad then count + 1 else count)
          else .error .misaligned
        else .ok count
      else .error .overflow := by
  rw [scan]
  by_cases hfits : header.Fits i
  · have hoffset : add header.ePhoff (i * header.ePhentsize) = .ok (header.offset i) :=
      if_pos (Nat.lt_of_le_of_lt (Nat.le_add_right _ _) hfits)
    have hlast : add (header.offset i) programHeaderSize =
        .ok (header.offset i + programHeaderSize) := if_pos hfits
    rw [if_pos hfits, hoffset, Except.ok_bind, hlast, Except.ok_bind]
    by_cases hinside : header.Inside binary i
    · rw [if_neg (Nat.not_lt.mpr hinside), if_pos hinside]
      by_cases haligned : header.Aligned binary i
      · have hborrow : borrow binary (header.offset i) programHeaderSize = .ok () :=
          (if_neg (not_not.mpr haligned)).trans (if_pos hinside)
        rw [if_pos haligned, hborrow, Except.ok_bind]
      · have hborrow : borrow binary (header.offset i) programHeaderSize = .error .misaligned :=
          if_pos haligned
        rw [if_neg haligned, hborrow]
        rfl
    · rw [if_pos (Nat.not_le.mp hinside), if_neg hinside]
  · rw [if_neg hfits]
    by_cases hoffset : header.offset i < 2 ^ 64
    · have hadd : add header.ePhoff (i * header.ePhentsize) = .ok (header.offset i) :=
        if_pos hoffset
      have hlast : add (header.offset i) programHeaderSize = .error .overflow := if_neg hfits
      rw [hadd, Except.ok_bind, hlast]
      rfl
    · have hadd : add header.ePhoff (i * header.ePhentsize) = .error .overflow := if_neg hoffset
      rw [hadd]
      rfl

/-- The program headers up to one that lies inside the binary. -/
theorem inside_succ {i : Nat} (hreached : ∀ j < i, header.Inside binary j)
    (hinside : header.Inside binary i) : ∀ j < i + 1, header.Inside binary j :=
  Nat.forall_lt_succ_right.mpr ⟨hreached, hinside⟩

/-- **The loop from a program header on** stops at the first one that does not lie inside the
binary, if all ends fit and all references on the way are aligned.  The induction is on the number
of program headers that are left. -/
theorem scan_eq_ok (n i count : Nat)
    (hfits : ∀ j, (∀ j' < j, header.Inside binary j') → header.Fits j)
    (haligned : ∀ j < i + n, (∀ j' < j + 1, header.Inside binary j') → header.Aligned binary j)
    (hreached : ∀ j < i, header.Inside binary j) :
    scan binary header (List.range' i n) count =
      .ok (count + (List.range' i n).countP fun j => header.Loads binary j) := by
  induction n generalizing i count with
  | zero => rfl
  | succ n ih =>
    rw [List.range'_succ, scan_cons, if_pos (hfits i hreached)]
    split
    · next hinside =>
      have hnext := inside_succ hreached hinside
      rw [if_pos (haligned i (by omega) hnext), ih (i + 1) _ (fun j hj => haligned j (by omega))
        hnext, List.countP_cons]
      have hloads : decide (header.Loads binary i) =
          decide (pType binary (header.offset i) = ptLoad) :=
        decide_eq_decide.mpr (and_iff_right hnext)
      rw [hloads]
      by_cases hload : pType binary (header.offset i) = ptLoad
      · simp only [hload, if_true, decide_true]
        congr 1
        omega
      · simp [hload]
    · next hinside =>
      have hnone : (i :: List.range' (i + 1) n).countP (fun j => header.Loads binary j) = 0 := by
        refine List.countP_eq_zero.mpr fun j hj => ?_
        rw [← List.range'_succ, List.mem_range'_1] at hj
        rw [decide_eq_true_eq]
        exact fun hloads => hinside (hloads.1 i (by omega))
      rw [hnone]
      rfl

/-- It stops with a fault if it reaches a program header that is not aligned. -/
theorem scan_eq_misaligned (n i count j : Nat) (hle : i ≤ j) (hlt : j < i + n)
    (hfits : ∀ j, (∀ j' < j, header.Inside binary j') → header.Fits j)
    (hinside : ∀ j' < j + 1, header.Inside binary j') (haligned : ¬header.Aligned binary j) :
    scan binary header (List.range' i n) count = .error .misaligned := by
  induction n generalizing i count with
  | zero => omega
  | succ n ih =>
    rw [List.range'_succ, scan_cons, if_pos (hfits i fun j' hj' => hinside j' (by omega)),
      if_pos (hinside i (by omega))]
    split
    · next hi =>
      have hne : i ≠ j := by
        rintro rfl
        exact haligned hi
      exact ih (i + 1) _ (by omega) (by omega)
    · rfl

/-- Only the end of the first program header can fail to fit: the stride is a 16-bit number, and a
slice has fewer than `2 ^ 63` bytes. -/
theorem fits_of_reached (hfirst : (Elf.header binary).ePhoff + programHeaderSize < 2 ^ 64) (i : Nat)
    (hreached : ∀ j < i, (Elf.header binary).Inside binary j) : (Elf.header binary).Fits i := by
  have hstride : (Elf.header binary).ePhentsize < 2 ^ 16 := Bytes.ofLE_slice_lt binary.bytes 54 2
  have hlength := binary.length_lt
  rw [programHeaderSize] at hfirst
  cases i with
  | zero => rwa [ElfHeader.Fits, ElfHeader.offset, Nat.zero_mul, Nat.add_zero, programHeaderSize]
  | succ i =>
    have hinside := hreached i (Nat.lt_succ_self i)
    rw [ElfHeader.Inside, ElfHeader.offset, programHeaderSize] at hinside
    rw [ElfHeader.Fits, ElfHeader.offset, programHeaderSize, Nat.succ_mul]
    omega

/-- A binary that is accepted is long enough and aligned. -/
theorem borrow_of_validate {entry : Nat} (h : validate binary = .ok (.ok entry)) :
    binary.address % headerAlign = 0 ∧ borrow binary 0 elfHeaderSize = .ok () := by
  rw [validate] at h
  split at h
  · cases h
  · obtain ⟨⟨⟩, hborrow, -⟩ := Except.bind_eq_ok.mp h
    refine ⟨?_, hborrow⟩
    rw [borrow, Except.guard_eq_ok, not_not] at hborrow
    exact hborrow.1

/-- **When the scan stays inside the binary.**  For a binary that is accepted, the scan reads no
byte outside.  It overflows exactly when the end of the first program header is not a 64-bit number;
otherwise it stops at a reference that is not aligned exactly when it reaches a program header whose
offset is not a multiple of eight; and it returns the number of loadable program headers that lie,
with all before them, inside the binary exactly when neither is the case. -/
theorem countLoadSegments_iff {entry : Nat} (h : validate binary = .ok (.ok entry)) :
    countLoadSegments binary ≠ .error .outside ∧
      (countLoadSegments binary = .error .overflow ↔ ¬binary.NoOverflow) ∧
      (countLoadSegments binary = .error .misaligned ↔
        binary.NoOverflow ∧ ¬binary.HeadersAligned) ∧
      (countLoadSegments binary = .ok ((List.range (Elf.header binary).ePhnum).countP
          fun i => (Elf.header binary).Loads binary i) ↔
        binary.NoOverflow ∧ binary.HeadersAligned) := by
  obtain ⟨haddress, hborrow⟩ := borrow_of_validate h
  have hscan : countLoadSegments binary =
      scan binary (Elf.header binary) (List.range' 0 (Elf.header binary).ePhnum) 0 := by
    rw [countLoadSegments, hborrow, Except.ok_bind, List.range_eq_range']
  have halign : ∀ i, (Elf.header binary).Aligned binary i ↔
      (Elf.header binary).offset i % headerAlign = 0 := by
    intro i
    rw [headerAlign] at haddress
    rw [ElfHeader.Aligned, headerAlign]
    omega
  rw [List.range_eq_range', hscan]
  by_cases hzero : (Elf.header binary).ePhnum = 0
  · have hnone : binary.HeadersAligned := fun i hi => absurd hi (by omega)
    simp [hzero, scan, ElfBinary.NoOverflow, hnone]
  by_cases hfirst : (Elf.header binary).ePhoff + programHeaderSize < 2 ^ 64
  · have hno : binary.NoOverflow := .inr hfirst
    by_cases hall : binary.HeadersAligned
    · rw [scan_eq_ok _ 0 0 (fits_of_reached hfirst)
        (fun j hj hj' => (halign j).mpr (hall j (by omega) hj')) fun j hj => absurd hj (by omega)]
      simp [hno, hall]
    · obtain ⟨j, hj, hinside, haligned⟩ : ∃ j < (Elf.header binary).ePhnum,
          (∀ j' < j + 1, (Elf.header binary).Inside binary j') ∧
            ¬(Elf.header binary).offset j % headerAlign = 0 := by
        simpa only [ElfBinary.HeadersAligned, not_forall, exists_prop] using hall
      rw [scan_eq_misaligned _ 0 0 j (Nat.zero_le j) (by omega) (fits_of_reached hfirst) hinside
        (mt (halign j).mp haligned)]
      simp [hno, hall]
  · have hno : ¬binary.NoOverflow := not_or.mpr ⟨hzero, hfirst⟩
    have hfits : ¬(Elf.header binary).Fits 0 := by
      rwa [ElfHeader.Fits, ElfHeader.offset, Nat.zero_mul, Nat.add_zero]
    obtain ⟨n, hn⟩ := Nat.exists_eq_succ_of_ne_zero hzero
    rw [hn, List.range'_succ, scan_cons, if_neg hfits]
    simp [hno]

/-- A header for x86-64 with one program header at an offset, followed by one that is loadable. -/
def segmentBytes (phoff : Nat) : List UInt8 :=
  elfMagic ++ [2] ++ Bytes.le 11 0 ++ Bytes.le 2 2 ++ Bytes.le 2 0x3E ++ Bytes.le 4 1 ++
    Bytes.le 8 0x400000 ++ Bytes.le 8 phoff ++ Bytes.le 8 0 ++ Bytes.le 4 0 ++ Bytes.le 2 64 ++
    Bytes.le 2 56 ++ Bytes.le 2 1 ++ Bytes.le 6 0 ++ Bytes.le 4 ptLoad ++ Bytes.le 52 0

theorem length_segmentBytes (phoff : Nat) : (segmentBytes phoff).length < 2 ^ 63 := by
  simp [segmentBytes, elfMagic, Bytes.length_le]

/-- The binary at an address that is a multiple of eight. -/
def oneSegment (phoff : Nat) : ElfBinary := ⟨0x1000, segmentBytes phoff, length_segmentBytes phoff⟩

theorem countLoadSegments_oneSegment : countLoadSegments (oneSegment 64) = .ok 1 := by
  have haccepted : validate (oneSegment 64) = .ok (.ok 0x400000) := by decide +kernel
  have hcount : (List.range (Elf.header (oneSegment 64)).ePhnum).countP
      (fun i => (Elf.header (oneSegment 64)).Loads (oneSegment 64) i) = 1 := by decide +kernel
  obtain ⟨-, -, -, hiff⟩ := countLoadSegments_iff haccepted
  rw [hcount] at hiff
  refine hiff.mpr ⟨.inr (by decide +kernel), ?_⟩
  have hone : (Elf.header (oneSegment 64)).ePhnum = 1 := by decide +kernel
  intro i hi _
  obtain rfl : i = 0 := by omega
  decide +kernel

/-- Two binaries that are accepted.  The offset in the first is the last 64-bit number, and the scan
overflows; in the second it is 60, the program header lies inside the binary, and the scan stops at
a reference that is not aligned. -/
theorem countLoadSegments_overflow :
    validate (oneSegment (2 ^ 64 - 1)) = .ok (.ok 0x400000) ∧
      countLoadSegments (oneSegment (2 ^ 64 - 1)) = .error .overflow ∧
      validate (oneSegment 60) = .ok (.ok 0x400000) ∧
      countLoadSegments (oneSegment 60) = .error .misaligned := by
  decide +kernel

end Elf

end OxideOS
