import Mathlib.Algebra.Group.Nat.Defs
import Mathlib.Data.List.Flatten
import Mathlib.Data.List.Range

/-!
# Finding the devices

`pci/mod.rs`: the registers of a function are reached through two ports, of which one takes the
address of a register and the other is a window onto it.  `scan` asks all devices on all buses for
their first function, and those that have several for the others.  The drivers find their hardware
in the list that it returns.

Numbers of buses, devices, functions and registers are natural numbers here: they are loop variables
and constants below the bounds of their types.

## Main definitions

* `HostBridge`, `Pci.configRead`: the registers behind the two ports
* `Pci.scan`: the list of the devices
* `Pci.Present`, `Pci.describe`, `Pci.listing`: what is there, how its registers describe it, and
  how it is listed

## Main results

* `Pci.configRead_eq`: a read gives the register that was asked for
* `Pci.scan_exact`: the list has each function that is there once, in order, and as it is but for
  the header type
-/

namespace OxideOS

/-- The registers, by bus, device, function and offset. -/
abbrev ConfigSpace := ℕ → ℕ → ℕ → ℕ → UInt32

/-- The registers, and the address that was written to `PCI_CONFIG_ADDR`. -/
structure HostBridge where
  address : ℕ
  space : ConfigSpace

/-- What is read from `PCI_CONFIG_DATA`. -/
def HostBridge.data (b : HostBridge) : UInt32 :=
  if b.address >>> 31 = 1 then
    b.space (b.address >>> 16 % 2 ^ 8) (b.address >>> 11 % 2 ^ 5) (b.address >>> 8 % 2 ^ 3)
      (b.address % 2 ^ 8)
  else 0xFFFFFFFF

structure PciDevice where
  bus : ℕ
  device : ℕ
  function : ℕ
  vendorId : UInt16
  deviceId : UInt16
  classCode : UInt8
  subclass : UInt8
  headerType : UInt8
  bars : List UInt32
  interruptLine : UInt8
deriving DecidableEq

namespace Pci

/-- The address of a register, with the enable bit. -/
def configAddress (bus device function offset : ℕ) : ℕ :=
  1 <<< 31 ||| bus <<< 16 ||| device <<< 11 ||| function <<< 8 ||| (offset &&& 0xFC)

variable (space : ConfigSpace) (bus device function : ℕ)

/-- `pci_config_read`: every read writes the address first. -/
def configRead (offset : ℕ) : UInt32 :=
  HostBridge.data ⟨configAddress bus device function offset, space⟩

def vendorOf (reg : UInt32) : UInt16 := (reg &&& 0xFFFF).toUInt16

/-- A `PciDevice`, from the registers of the function. -/
def ofRegisters (read : ℕ → UInt32) (bus device function : ℕ) (headerType : UInt8) : PciDevice where
  bus := bus
  device := device
  function := function
  vendorId := vendorOf (read 0)
  deviceId := ((read 0 >>> 16) &&& 0xFFFF).toUInt16
  classCode := ((read 0x08 >>> 24) &&& 0xFF).toUInt8
  subclass := ((read 0x08 >>> 16) &&& 0xFF).toUInt8
  headerType := headerType
  -- `read_bars`
  bars := (List.range 6).map fun i => read (0x10 + i * 4)
  interruptLine := (read 0x3C &&& 0xFF).toUInt8

def headerOf (reg : UInt32) : UInt8 := ((reg >>> 16) &&& 0xFF).toUInt8

/-- `scan`, for a further function of a device. -/
def scanFunction (func : ℕ) : List PciDevice :=
  let read := configRead space bus device func
  if vendorOf (read 0) = 0xFFFF then [] else [ofRegisters read bus device func 0]

/-- `scan`, for one device. -/
def scanDevice : List PciDevice :=
  let read := configRead space bus device 0
  if vendorOf (read 0) = 0xFFFF then []
  else
    let headerType := headerOf (read 0x0C)
    ofRegisters read bus device 0 headerType ::
      -- several functions
      if headerType &&& 0x80 ≠ 0 then (List.range' 1 7).flatMap (scanFunction space bus device)
      else []

/-- `scan`. -/
def scan : List PciDevice :=
  (List.range 256).flatMap fun bus => (List.range 32).flatMap (scanDevice space bus)

/-! ## What is there -/

/-- The first function is there, and the function is the first, or there as well where there are
several. -/
def Present : Prop :=
  vendorOf (space bus device 0 0) ≠ 0xFFFF ∧ (function = 0 ∨
    headerOf (space bus device 0 0x0C) &&& 0x80 ≠ 0 ∧
      vendorOf (space bus device function 0) ≠ 0xFFFF)

instance : DecidablePred (Present space bus device) := fun _ =>
  inferInstanceAs (Decidable (_ ∧ (_ ∨ _ ∧ _)))

/-- A function, as its registers describe it. -/
def describe : PciDevice :=
  ofRegisters (space bus device function) bus device function
    (headerOf (space bus device function 0x0C))

/-- A function, as it is listed: the header type is read for the first function of a device only,
and is zero for the others. -/
def listing : PciDevice :=
  { describe space bus device function with
    headerType := if function = 0 then headerOf (space bus device 0 0x0C) else 0 }

/-- The place of a function in the order of the scan. -/
def place (d : PciDevice) : ℕ := (d.bus * 32 + d.device) * 8 + d.function

theorem listing_eq_describe_iff : listing space bus device function =
    describe space bus device function ↔
      function = 0 ∨ headerOf (space bus device function 0x0C) = 0 := by
  by_cases hfunction : function = 0
  · subst hfunction
    simp [listing, describe, ofRegisters]
  · simp only [listing, describe, ofRegisters, hfunction, if_false, PciDevice.mk.injEq, true_and,
      and_true, false_or]
    exact eq_comm

variable {space bus device function} {offset : ℕ} {d : PciDevice}

/-! ## Reading -/

/-- A field above another one. -/
theorem shiftLeft_or (a i : ℕ) {b j : ℕ} (hb : b < 2 ^ j) :
    a <<< (j + i) ||| b <<< i = (a * 2 ^ j + b) <<< i := by
  rw [Nat.shiftLeft_add, ← Nat.shiftLeft_or_distrib, ← Nat.shiftLeft_add_eq_or_of_lt hb,
    Nat.shiftLeft_eq a j]

/-- **A read gives the register that was asked for.** -/
theorem configRead_eq (hbus : bus < 256) (hdevice : device < 32) (hfunction : function < 8)
    (hoffset : offset &&& 0xFC = offset) :
    configRead space bus device function offset = space bus device function offset := by
  have hlt : offset < 2 ^ 8 := hoffset ▸ Nat.and_le_right.trans_lt (by decide)
  have hhigh : 1 <<< 31 ||| bus <<< 16 = (1 * 2 ^ 15 + bus) <<< 16 :=
    shiftLeft_or 1 16 (j := 15) (by omega)
  have hmiddle : (1 * 2 ^ 15 + bus) <<< 16 ||| device <<< 11 =
      ((1 * 2 ^ 15 + bus) * 2 ^ 5 + device) <<< 11 := shiftLeft_or _ 11 (j := 5) hdevice
  have hlow : ((1 * 2 ^ 15 + bus) * 2 ^ 5 + device) <<< 11 ||| function <<< 8 =
      (((1 * 2 ^ 15 + bus) * 2 ^ 5 + device) * 2 ^ 3 + function) <<< 8 :=
    shiftLeft_or _ 8 (j := 3) hfunction
  rw [configRead, configAddress, hoffset, hhigh, hmiddle, hlow,
    ← Nat.shiftLeft_add_eq_or_of_lt hlt, Nat.shiftLeft_eq, HostBridge.data]
  simp only [Nat.shiftRight_eq_div_pow]
  rw [if_pos (by omega)]
  congr 1 <;> omega

section InRange

variable (hbus : bus < 256) (hdevice : device < 32)

include hbus hdevice

theorem ofRegisters_configRead (hfunction : function < 8) (header : UInt8) :
    ofRegisters (configRead space bus device function) bus device function header =
      ofRegisters (space bus device function) bus device function header := by
  have hread := fun offset => @configRead_eq space bus device function offset hbus hdevice hfunction
  have hoffset : ∀ i ∈ List.range 6, 0x10 + i * 4 &&& 0xFC = 0x10 + i * 4 := by decide
  have hbars := List.map_congr_left fun i hi => hread (0x10 + i * 4) (hoffset i hi)
  rw [ofRegisters, hread 0 rfl, hread 0x08 rfl, hread 0x3C rfl, hbars, ofRegisters]

/-- Further functions of a device are listed if they are there. -/
theorem flatMap_scanFunction {l : List ℕ} (hl : ∀ f ∈ l, 0 < f ∧ f < 8) :
    l.flatMap (scanFunction space bus device) =
      (l.filter fun f => vendorOf (space bus device f 0) ≠ 0xFFFF).map
        (listing space bus device) := by
  induction l with
  | nil => rfl
  | cons f l ih =>
    rw [List.forall_mem_cons] at hl
    obtain ⟨⟨hpos, hf⟩, hl⟩ := hl
    rw [List.flatMap_cons, ih hl, scanFunction, configRead_eq hbus hdevice hf rfl,
      ofRegisters_configRead hbus hdevice hf, List.filter_cons]
    split <;> simp_all [listing, describe, ofRegisters, hpos.ne']

/-- A device is listed with the functions that are there. -/
theorem scanDevice_eq :
    scanDevice space bus device =
      ((List.range 8).filter (Present space bus device)).map (listing space bus device) := by
  have hrange : ∀ f ∈ List.range' 1 7, 0 < f ∧ f < 8 := by decide
  have hread := fun offset => @configRead_eq space bus device 0 offset hbus hdevice (by decide)
  simp only [scanDevice, hread 0 rfl, hread 0x0C rfl, flatMap_scanFunction hbus hdevice hrange,
    ofRegisters_configRead hbus hdevice (Nat.zero_lt_succ 7)]
  rw [show List.range 8 = 0 :: List.range' 1 7 from rfl]
  by_cases hfirst : vendorOf (space bus device 0 0) = 0xFFFF
  · simp [Present, hfirst]
  · rw [if_neg hfirst, List.filter_cons_of_pos (by simp [Present, hfirst]), List.map_cons]
    by_cases hheader : headerOf (space bus device 0 0x0C) &&& 0x80 ≠ 0
    · have hpresent : ∀ f ∈ List.range' 1 7, decide (Present space bus device f) =
          decide (vendorOf (space bus device f 0) ≠ 0xFFFF) := fun f hf => by
        simp [Present, hfirst, hheader, (hrange f hf).1.ne']
      rw [List.filter_congr hpresent, if_pos hheader]
      rfl
    · have habsent : ∀ f ∈ List.range' 1 7, decide (Present space bus device f) = false :=
        fun f hf => by simp_all [Present, (hrange f hf).1.ne']
      rw [List.filter_congr habsent, List.filter_false, if_neg hheader]
      rfl

end InRange

/-- **The scan is exact but for the header type**: it lists each function that is there, once, in
the order of the buses, devices and functions, and as its registers describe it if it is the first
of its device or its header type is zero. -/
theorem scan_exact (space : ConfigSpace) :
    (scan space).Pairwise (place · < place ·) ∧
      (∀ d, d ∈ scan space ↔ ∃ bus < 256, ∃ device < 32, ∃ function < 8,
        Present space bus device function ∧ d = listing space bus device function) ∧
      ∀ bus device function,
        listing space bus device function = describe space bus device function ↔
          function = 0 ∨ headerOf (space bus device function 0x0C) = 0 := by
  have hscan : scan space = (List.range 256).flatMap fun bus =>
      (List.range 32).flatMap fun device =>
        ((List.range 8).filter (Present space bus device)).map (listing space bus device) := by
    refine List.flatMap_congr fun bus hbus => List.flatMap_congr fun device hdevice => ?_
    exact scanDevice_eq (List.mem_range.mp hbus) (List.mem_range.mp hdevice)
  rw [hscan]
  refine ⟨?_, fun d => ?_, listing_eq_describe_iff space⟩
  · simp only [List.pairwise_flatMap, List.pairwise_map, List.mem_flatMap, List.mem_map,
      List.mem_filter, List.mem_range]
    refine ⟨fun bus hbus => ⟨fun device hdevice => ?_, ?_⟩, ?_⟩
    · exact (List.pairwise_lt_range.filter _).imp fun hlt => Nat.add_lt_add_left hlt _
    · refine List.pairwise_lt_range.imp ?_
      rintro i j hlt _ ⟨f, ⟨hf, -⟩, rfl⟩ _ ⟨g, -, rfl⟩
      simp only [place, listing, describe, ofRegisters]
      omega
    · refine List.pairwise_lt_range.imp ?_
      rintro i j hlt _ ⟨device, hdevice, f, ⟨hf, -⟩, rfl⟩ _ ⟨device', -, g, -, rfl⟩
      simp only [place, listing, describe, ofRegisters]
      omega
  · simp only [List.mem_flatMap, List.mem_map, List.mem_filter, List.mem_range, decide_eq_true_eq,
      and_assoc, @eq_comm _ d]

end Pci

end OxideOS
