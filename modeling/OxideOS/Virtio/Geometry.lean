import OxideOS.Memory.FrameRuns
import OxideOS.Net.Receive
import OxideOS.Net.Transmit
import OxideOS.Storage.VirtioBlk

/-!
# Where the rings are

`setup_virtqueue` of both drivers: the descriptors and the two rings are in one piece of memory, at
offsets that the legacy layout fixes for the size of the queue.  The device reports this size.  The
network driver computes the layout for it, but its arrays have `QUEUE_SIZE` entries and it takes the
indices modulo `QUEUE_SIZE`; the block driver ignores the size altogether.

The pages are allocated one by one, and taken to follow the first.

## Main definitions

* `Virtio.legacyDesc`, `Virtio.legacyAvail`, `Virtio.legacyUsed`: where the device looks
* `Virtio.RingDriver`: where a driver looks, and `VirtioNet.rings`, `VirtioBlk.rings`
* `Virtio.RingDriver.Agrees`: driver and device look at the same places
* `Virtio.RingDriver.Within`: the driver stays within the frames that were allocated
* `VirtioNet.InBounds`, `VirtioBlk.InBounds`: no index is out of bounds

## Main results

* `Virtio.ring_geometry_iff`: the drivers and the device agree exactly for queues of `QUEUE_SIZE`
  entries in frames that follow each other
-/

namespace OxideOS

namespace Virtio

/-! ## The device -/

/-- Up to the next page. -/
def pageAlign (n : Nat) : Nat := (n + 4095) / 4096 * 4096

/-- The descriptor with a number. -/
def legacyDesc (i : Nat) : Nat := 16 * i

/-- The entry of the available ring for an index. -/
def legacyAvail (size idx : Nat) : Nat := 16 * size + 4 + 2 * (idx % size)

/-- The entry of the used ring for an index. -/
def legacyUsed (size idx : Nat) : Nat := pageAlign (16 * size + 6 + 2 * size) + 4 + 8 * (idx % size)

/-! ## The drivers -/

/-- What the two drivers differ in: the length of the arrays, and the number of entries for which
the layout is computed when the device reports a size. -/
structure RingDriver where
  arrayLen : Nat
  entries : Nat → Nat

namespace RingDriver

variable (d : RingDriver) (size : Nat)

def descSize : Nat := 16 * d.entries size

def availSize : Nat := 6 + 2 * d.entries size

def usedSize : Nat := 6 + 8 * d.entries size

/-- With an extra page for alignment. -/
def totalSize : Nat := d.descSize size + d.availSize size + d.usedSize size + 4096

def numPages : Nat := (d.totalSize size + 4095) / 4096

def usedOffset : Nat := (d.descSize size + d.availSize size + 4095) / 4096 * 4096

/-- `descs[i]`. -/
def descAt (i : Nat) : Nat := 16 * i

/-- `avail.ring[idx % QUEUE_SIZE]`, behind the flags and the index. -/
def availAt (idx : Nat) : Nat := d.descSize size + 4 + 2 * (idx % d.arrayLen)

/-- `used.ring[idx % QUEUE_SIZE]`, behind the flags and the index. -/
def usedAt (idx : Nat) : Nat := d.usedOffset size + 4 + 8 * (idx % d.arrayLen)

/-- Driver and device look at the same places, for all values of the indices. -/
structure Agrees : Prop where
  desc : ∀ i, descAt i = legacyDesc i
  avail : ∀ idx < 2 ^ 16, d.availAt size idx = legacyAvail size idx
  used : ∀ idx < 2 ^ 16, d.usedAt size idx = legacyUsed size idx

/-- The bytes that the driver accesses, from the start of the queue on. -/
inductive Touches : Nat → Prop
  /-- All pages are zeroed. -/
  | zero {offset : Nat} (hlt : offset < d.numPages size * pageSize) : Touches offset
  | desc {i k : Nat} (hi : i < d.arrayLen) (hk : k < 16) : Touches (descAt i + k)
  /-- The flags and the index of the available ring. -/
  | availHead {k : Nat} (hk : k < 4) : Touches (d.descSize size + k)
  | avail {idx k : Nat} (hk : k < 2) : Touches (d.availAt size idx + k)
  /-- The flags and the index of the used ring. -/
  | usedHead {k : Nat} (hk : k < 4) : Touches (d.usedOffset size + k)
  | used {idx k : Nat} (hk : k < 8) : Touches (d.usedAt size idx + k)

/-- All bytes are in frames that were allocated for the queue. -/
def Within (a a' : BitmapFrameAllocator) (first : PhysFrame) : Prop :=
  ∀ offset, d.Touches size offset →
    a'.isSet ((first.startAddress + offset) / pageSize) = true ∧
      a.isSet ((first.startAddress + offset) / pageSize) = false

end RingDriver

end Virtio

/-- The network driver computes the layout for the size that the device reports. -/
def VirtioNet.rings : Virtio.RingDriver := ⟨VirtioNet.queueSize, fun size => size⟩

/-- The block driver computes the layout for `QUEUE_SIZE` entries. -/
def VirtioBlk.rings : Virtio.RingDriver := ⟨VirtioBlk.queueSize, fun _ => VirtioBlk.queueSize⟩

/-! ## Places -/

namespace Virtio

variable {size : Nat} {a a' : BitmapFrameAllocator} {first : PhysFrame}

theorem agrees_net_iff (hpos : 0 < size) (hle : size ≤ 32768) :
    VirtioNet.rings.Agrees size ↔ size = VirtioNet.queueSize := by
  constructor
  · intro h
    rcases Nat.lt_trichotomy size 256 with hlt | heq | hgt
    · have havail := h.avail size (by omega)
      rw [RingDriver.availAt, RingDriver.descSize, legacyAvail, Nat.mod_self] at havail
      simp only [VirtioNet.rings, VirtioNet.queueSize, Nat.mod_eq_of_lt hlt] at havail
      omega
    · exact heq
    · have havail := h.avail 256 (by decide)
      rw [RingDriver.availAt, RingDriver.descSize, legacyAvail, Nat.mod_eq_of_lt hgt] at havail
      simp only [VirtioNet.rings, VirtioNet.queueSize, Nat.mod_self] at havail
      omega
  · rintro rfl
    exact ⟨fun _ => rfl, fun _ _ => rfl, fun _ _ => rfl⟩

theorem agrees_blk_iff : VirtioBlk.rings.Agrees size ↔ size = VirtioBlk.queueSize := by
  constructor
  · intro h
    have havail := h.avail 0 (by decide)
    rw [RingDriver.availAt, RingDriver.descSize, legacyAvail, Nat.zero_mod, Nat.zero_mod] at havail
    simp only [VirtioBlk.rings] at havail
    omega
  · rintro rfl
    exact ⟨fun _ => rfl, fun _ _ => rfl, fun _ _ => rfl⟩

/-! ## Pages -/

namespace RingDriver

variable {d : RingDriver}

/-- What the queue of the driver takes ends within the pages. -/
structure Fits (d : RingDriver) (size : Nat) : Prop where
  descs : 16 * d.arrayLen ≤ d.numPages size * pageSize
  avail : d.descSize size + 4 + 2 * d.arrayLen ≤ d.numPages size * pageSize
  used : d.usedOffset size + 4 + 8 * d.arrayLen ≤ d.numPages size * pageSize

theorem Fits.lt_of_touches (h : d.Fits size) (hpos : 0 < d.arrayLen) {offset : Nat}
    (htouches : d.Touches size offset) : offset < d.numPages size * pageSize := by
  have hdescs := h.descs
  have havail := h.avail
  have hused := h.used
  cases htouches with
  | zero hlt => exact hlt
  | desc hi hk =>
    rw [descAt]
    omega
  | availHead hk => omega
  | @avail idx k hk =>
    have hmod := Nat.mod_lt idx hpos
    rw [availAt]
    omega
  | usedHead hk => omega
  | @used idx k hk =>
    have hmod := Nat.mod_lt idx hpos
    rw [usedAt]
    omega

theorem numPages_pos (d : RingDriver) (size : Nat) : 0 < d.numPages size := by
  rw [numPages, totalSize]
  omega

/-- **The driver stays within its frames** exactly when they follow each other. -/
theorem Fits.within_iff (h : d.Fits size) (hpos : 0 < d.arrayLen) (ha : a.Sound)
    (halloc : allocateRun (d.numPages size) a = (some first, a')) :
    d.Within size a a' first ↔ a.RunFree first.index (d.numPages size) := by
  rw [← BitmapFrameAllocator.allocateRun_consecutive_iff ha (d.numPages_pos size) halloc]
  obtain ⟨-, i, -, -, rfl, -⟩ :=
    BitmapFrameAllocator.allocateRun_spec ha (d.numPages_pos size) halloc
  have hframe : ∀ offset, ((PhysFrame.ofIndex i).startAddress + offset) / pageSize =
      i + offset / pageSize := by
    intro offset
    rw [PhysFrame.startAddress_ofIndex, Nat.add_comm, Nat.add_mul_div_right _ _ (by decide),
      Nat.add_comm]
  simp only [Within, hframe, PhysFrame.index_ofIndex]
  constructor
  · intro hwithin k hk
    have hzero := hwithin (k * pageSize) (.zero (Nat.mul_lt_mul_of_pos_right hk (by decide)))
    rwa [Nat.mul_div_cancel k (by decide)] at hzero
  · intro hrun offset htouches
    exact hrun _ (Nat.div_lt_of_lt_mul (Nat.mul_comm _ _ ▸ h.lt_of_touches hpos htouches))

end RingDriver

theorem fits_net : VirtioNet.rings.Fits VirtioNet.queueSize := by
  constructor <;> decide

theorem fits_blk : VirtioBlk.rings.Fits VirtioBlk.queueSize := by
  constructor <;> decide

end Virtio

/-! ## Indices -/

namespace VirtioNet

open Virtio

/-- No index of the network driver is out of bounds: not while a queue is set up, not in a
transmission, whatever has happened to the queue before, and not when the entry of a returned
packet is read and its descriptor is posted again. -/
structure InBounds (size : Nat) : Prop where
  setup : ∀ addr isRx, setupVirtqueue size addr isRx ≠ none
  transmit : ∀ addr rx tx s, setupVirtqueue size addr false = some (some tx) →
    (TxState.system size rx tx).Reachable s → ∀ data, s.device.transmit data ≠ none
  receive : ∀ addr rx tx s, setupVirtqueue size addr true = some (some rx) →
    (RxState.system size rx tx).Reachable s → s.waiting ≠ [] →
    ∃ q elem, s.device.rxQueue = some q ∧ q.nextUsed = some elem ∧
      elem.id.toNat < q.buffers.length ∧ elem.id.toNat < q.descs.length ∧
      q.avail.idx.toNat % queueSize < q.avail.ring.length

theorem TxState.Kept.transmit_ne_none {s : TxState} {tx : Virtqueue} (h : Kept queueSize s tx)
    (data : List UInt8) : s.device.transmit data ≠ none := by
  by_cases hfull : tx.ready.numFree = 0
  · have hqueue : tx.transmit data = some (.error "TX queue full", tx.ready) := if_pos hfull
    rw [(VirtioNetDevice.transmit_eq_some h.online h.queue).mpr ⟨_, hqueue, rfl⟩]
    exact Option.some_ne_none _
  · have hmod : s.posted % queueSize < queueSize := Nat.mod_lt _ (by decide)
    obtain ⟨tx', -, htransmit, -⟩ := h.exec_transmit hfull hmod data
    rw [htransmit]
    exact Option.some_ne_none _

theorem inBounds_queueSize : InBounds queueSize where
  setup addr isRx := by
    intro hnone
    cases hnone
  transmit addr rx tx s hboot hs data := by
    obtain ⟨tx', h⟩ := TxState.kept_reachable hboot hs
    exact h.transmit_ne_none data
  receive addr rx tx s hboot hs hne := by
    obtain ⟨q, h⟩ := RxState.kept_reachable_queueSize hboot hs
    obtain ⟨r, rest, hwaiting⟩ := List.exists_cons_of_ne_nil hne
    obtain ⟨hread, hid, hr⟩ := h.nextUsed_eq hwaiting
    refine ⟨q, _, h.queue, hread, ?_, ?_, ?_⟩
    · rw [hid, h.buffers]
      exact hr
    · rw [hid, h.descs]
      exact hr
    · rw [h.ring]
      exact Nat.mod_lt _ (by decide)

end VirtioNet

namespace VirtioBlk

/-- After any requests, the three descriptors of the next one and its entry of the available ring
are in bounds. -/
def InBounds : Prop :=
  ∀ (dmaPhys : UInt64) (reqs : List BlkReqType),
    (∀ k, ((reqs.foldl RequestQueue.postChain (.zeroed dmaPhys)).nextDesc + k) % queueSize <
        (reqs.foldl RequestQueue.postChain (.zeroed dmaPhys)).descs.length) ∧
      (reqs.foldl RequestQueue.postChain (.zeroed dmaPhys)).avail.idx.toNat % queueSize <
        (reqs.foldl RequestQueue.postChain (.zeroed dmaPhys)).avail.ring.length

theorem RequestQueue.Sized.foldl {q : RequestQueue} (h : q.Sized) (reqs : List BlkReqType) :
    (reqs.foldl RequestQueue.postChain q).Sized := by
  induction reqs generalizing q with
  | nil => exact h
  | cons req reqs ih => exact ih (h.postChain req)

theorem inBounds : InBounds := by
  intro dmaPhys reqs
  have hsized := (RequestQueue.sized_zeroed dmaPhys).foldl reqs
  rw [hsized.descs, hsized.ring]
  exact ⟨fun k => Nat.mod_lt _ (by decide), Nat.mod_lt _ (by decide)⟩

end VirtioBlk

/-! ## Agreement -/

namespace Virtio

/-- **Where drivers and device agree.**  For a queue of any size that a device can report and that
has got its pages, the driver looks for descriptors and ring entries where the device does, indexes
nothing out of bounds and stays within the pages, exactly when the size is the `QUEUE_SIZE` of the
driver and the pages follow each other. -/
theorem ring_geometry_iff {size : Nat} {a : BitmapFrameAllocator}
    (hreach : BitmapFrameAllocator.system.Reachable a) (hpos : 0 < size) (hle : size ≤ 32768) :
    (∀ first a', allocateRun (VirtioNet.rings.numPages size) a = (some first, a') →
      ((VirtioNet.rings.Agrees size ∧ VirtioNet.InBounds size ∧
          VirtioNet.rings.Within size a a' first) ↔
        size = VirtioNet.queueSize ∧
          a.RunFree first.index (VirtioNet.rings.numPages VirtioNet.queueSize))) ∧
    ∀ first a', allocateRun (VirtioBlk.rings.numPages size) a = (some first, a') →
      ((VirtioBlk.rings.Agrees size ∧ VirtioBlk.InBounds ∧
          VirtioBlk.rings.Within size a a' first) ↔
        size = VirtioBlk.queueSize ∧
          a.RunFree first.index (VirtioBlk.rings.numPages VirtioBlk.queueSize)) := by
  have ha := BitmapFrameAllocator.sound_of_reachable hreach
  constructor
  · intro first a' halloc
    rw [agrees_net_iff hpos hle]
    refine and_congr_right ?_
    rintro rfl
    rw [fits_net.within_iff (by decide) ha halloc]
    exact and_iff_right VirtioNet.inBounds_queueSize
  · intro first a' halloc
    rw [agrees_blk_iff]
    refine and_congr_right ?_
    rintro rfl
    rw [fits_blk.within_iff (by decide) ha halloc]
    exact and_iff_right VirtioBlk.inBounds

/-- In memory that is free throughout, a queue of 256 entries is set up as the network driver
expects. -/
theorem ring_geometry_free :
    ∃ first a', allocateRun 3 ((BitmapFrameAllocator.new 8).markRegionFree 0 8) =
        (some first, a') ∧
      VirtioNet.rings.Agrees 256 ∧ VirtioNet.InBounds 256 ∧
      VirtioNet.rings.Within 256 ((BitmapFrameAllocator.new 8).markRegionFree 0 8) a' first := by
  have hreach : BitmapFrameAllocator.system.Reachable
      ((BitmapFrameAllocator.new 8).markRegionFree 0 8) := .init ⟨8, [.free 0 8], rfl⟩
  obtain ⟨hnet, -⟩ := ring_geometry_iff hreach (by decide : 0 < 256) (by decide)
  exact ⟨_, _, rfl, (hnet _ _ rfl).mpr ⟨rfl, by decide⟩⟩

/-- With 128 entries the network driver posts entry 128 at offset 2308, where the device looks at
offset 2052; with 512 entries it indexes its arrays out of bounds.  With 256 entries the available
ring of the block driver is not where that of the device is.  And when frame 1 is in use, a queue on
the frames 0, 2 and 3 extends over it. -/
theorem ring_geometry_disagrees :
    (VirtioNet.rings.availAt 128 128 = 2308 ∧ legacyAvail 128 128 = 2052) ∧
    VirtioNet.setupVirtqueue 512 UInt64.ofNat true = none ∧
    (VirtioBlk.rings.availAt 256 0 = 2052 ∧ legacyAvail 256 0 = 4100) ∧
    ∃ a first a', BitmapFrameAllocator.system.Reachable a ∧
      allocateRun (VirtioNet.rings.numPages 256) a = (some first, a') ∧
      first.startAddress = 0 ∧ a.isSet 1 = true ∧ ¬VirtioNet.rings.Within 256 a a' first := by
  refine ⟨by decide, by decide, by decide,
    ((BitmapFrameAllocator.new 8).markRegionFree 0 1).markRegionFree 2 3, _, _,
    .init ⟨8, [.free 0 1, .free 2 3], rfl⟩, rfl, rfl, by decide, fun hwithin => ?_⟩
  have hfree := (hwithin 4096 (.zero (by decide))).2
  revert hfree
  decide

end Virtio

end OxideOS
