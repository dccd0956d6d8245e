import OxideOS.Basic
import Mathlib.Logic.Function.Basic

/-!
# The block device

`virtio_blk.rs`: the device checks that it is initialised and that the block is in range, and hands
the request to the virtqueue.  The virtqueue transfer `do_block_io` talks to hardware, so it is a
parameter here; `ReliableIo` is what a disk that never fails makes of it, and `ramDisk` is one.
-/

namespace OxideOS

/-- The bytes of a block, `[u8; 512]`. -/
@[ext]
structure Block where
  bytes : List UInt8
  length_eq : bytes.length = 512
deriving DecidableEq

namespace Block

/-- The block that holds one byte throughout. -/
def filled (b : UInt8) : Block := ⟨List.replicate 512 b, List.length_replicate⟩

/-- The block of zero bytes, `[0u8; 512]`. -/
def zero : Block := filled 0

theorem filled_inj {a b : UInt8} : filled a = filled b ↔ a = b := by
  rw [filled, filled, mk.injEq]
  exact List.replicate_right_inj (by decide)

end Block

/-- The type of a block request, `VIRTIO_BLK_T_IN` and `VIRTIO_BLK_T_OUT`. -/
inductive BlkReqType where
  | read
  | write
deriving DecidableEq, Repr

/-- `do_block_io`: a transfer of one sector between a buffer and the hardware.  It returns the
buffer as the transfer leaves it. -/
structure BlockIo (H : Type) where
  doBlockIo : H → BlkReqType → Nat → Block → Except String Block × H

structure VirtioBlkDevice (H : Type) where
  initialized : Bool
  capacityBlocks : Nat
  /-- The virtqueue and the disk behind it. -/
  queue : H

namespace VirtioBlkDevice

variable {H : Type}

def readBlock (io : BlockIo H) (dev : VirtioBlkDevice H) (blockNum : Nat) :
    Except String Block × VirtioBlkDevice H :=
  if !dev.initialized then (.error "not initialized", dev)
  else if dev.capacityBlocks ≤ blockNum then (.error "block out of range", dev)
  else
    let (result, queue) := io.doBlockIo dev.queue .read blockNum Block.zero
    (result, { dev with queue })

def writeBlock (io : BlockIo H) (dev : VirtioBlkDevice H) (blockNum : Nat) (data : Block) :
    Except String Unit × VirtioBlkDevice H :=
  if !dev.initialized then (.error "not initialized", dev)
  else if dev.capacityBlocks ≤ blockNum then (.error "block out of range", dev)
  else
    -- the transfer works on a copy of the data, which is dropped afterwards
    let (result, queue) := io.doBlockIo dev.queue .write blockNum data
    (result.map fun _ => (), { dev with queue })

end VirtioBlkDevice

/-- A disk that never fails: in every hardware state that is `ready`, a transfer of a sector below
the capacity succeeds and leaves the hardware ready, reads deliver the sector, and writes change
that sector only. -/
structure ReliableIo {H : Type} (io : BlockIo H) (capacity : Nat) (ready : H → Prop)
    (sector : H → Nat → Block) : Prop where
  read : ∀ h n buf, ready h → n < capacity →
    ∃ h', io.doBlockIo h .read n buf = (.ok (sector h n), h') ∧ ready h' ∧ sector h' = sector h
  write : ∀ h n buf, ready h → n < capacity →
    ∃ h' buf', io.doBlockIo h .write n buf = (.ok buf', h') ∧ ready h' ∧
      sector h' = Function.update (sector h) n buf

namespace VirtioBlkDevice

variable {H : Type} {io : BlockIo H} {capacity : Nat} {ready : H → Prop}
  {sector : H → Nat → Block} {dev : VirtioBlkDevice H} {n : Nat}

/-- The device is set up, reports this capacity, and its hardware is ready. -/
structure Up (capacity : Nat) (ready : H → Prop) (dev : VirtioBlkDevice H) : Prop where
  initialized : dev.initialized = true
  capacityBlocks : dev.capacityBlocks = capacity
  ready : ready dev.queue

/-- A device that is up reads the sector. -/
theorem Up.readBlock_spec (hdev : dev.Up capacity ready)
    (hio : ReliableIo io capacity ready sector) (hn : n < capacity) :
    ∃ dev', dev.readBlock io n = (.ok (sector dev.queue n), dev') ∧ dev'.Up capacity ready ∧
      sector dev'.queue = sector dev.queue := by
  obtain ⟨h', hdo, hready, hsector⟩ := hio.read dev.queue n Block.zero hdev.ready hn
  refine ⟨{ dev with queue := h' }, ?_, ⟨hdev.initialized, hdev.capacityBlocks, hready⟩, hsector⟩
  rw [readBlock, hdev.initialized, hdev.capacityBlocks, if_neg (by decide),
    if_neg (Nat.not_le.mpr hn), hdo]

/-- And it writes that sector only. -/
theorem Up.writeBlock_spec (hdev : dev.Up capacity ready)
    (hio : ReliableIo io capacity ready sector) (hn : n < capacity) (data : Block) :
    ∃ dev', dev.writeBlock io n data = (.ok (), dev') ∧ dev'.Up capacity ready ∧
      sector dev'.queue = Function.update (sector dev.queue) n data := by
  obtain ⟨h', buf', hdo, hready, hsector⟩ := hio.write dev.queue n data hdev.ready hn
  refine ⟨{ dev with queue := h' }, ?_, ⟨hdev.initialized, hdev.capacityBlocks, hready⟩, hsector⟩
  rw [writeBlock, hdev.initialized, hdev.capacityBlocks, if_neg (by decide),
    if_neg (Nat.not_le.mpr hn), hdo]
  rfl

end VirtioBlkDevice

/-! ## A disk in memory -/

/-- Transfers to and from an array of sectors. -/
def ramDisk : BlockIo (Nat → Block) where
  doBlockIo sectors reqType n buf :=
    match reqType with
    | .read => (.ok (sectors n), sectors)
    | .write => (.ok buf, Function.update sectors n buf)

theorem ramDisk_reliable (capacity : Nat) :
    ReliableIo ramDisk capacity (fun _ => True) id where
  read sectors _ _ _ _ := ⟨sectors, rfl, trivial, rfl⟩
  write sectors n buf _ _ := ⟨Function.update sectors n buf, buf, rfl, trivial, rfl⟩

/-- An initialised device over an empty disk in memory. -/
def ramDevice (capacity : Nat) : VirtioBlkDevice (Nat → Block) where
  initialized := true
  capacityBlocks := capacity
  queue := fun _ => Block.zero

theorem ramDevice_up (capacity : Nat) :
    (ramDevice capacity).Up capacity fun _ => True :=
  ⟨rfl, rfl, trivial⟩

end OxideOS
