import OxideOS.Virtio.Queue

/-!
# The network driver

`net/virtio_net.rs`: setting up a queue, and transmitting a packet.  The driver hands out the
descriptors of the transmit queue in the order of their numbers, round and round.  When none is left
it looks how far the index of the used ring has moved, and counts as many descriptors as free: which
ones the device has returned it does not look at.

The addresses of the packet buffers are an argument of the model; the frames of the rings and the
registers of the device are left out.

## Main definitions

* `VirtioNet.Virtqueue`, `VirtioNet.VirtioNetDevice`, `VirtioNet.setupVirtqueue`
* `VirtioNet.Virtqueue.reclaimTx`, `VirtioNet.VirtioNetDevice.transmit`
* `VirtioNet.Virtqueue.writesTo`: the descriptor that a transmission writes

## Main results

* `VirtioNet.Virtqueue.reclaimTx_eq`: the loop ends, when it has caught up with the device
* `VirtioNet.Virtqueue.transmit_cases`, `VirtioNet.Virtqueue.transmit_frame`: what a transmission
  does, and what it leaves alone
-/

namespace OxideOS

namespace VirtioNet

open Virtio

/-- `QUEUE_SIZE`. -/
def queueSize : Nat := 256

/-- `PACKET_BUF_SIZE`. -/
def packetBufSize : Nat := 1514 + 12

/-- `VRING_DESC_F_WRITE`. -/
def vringDescFWrite : UInt16 := 2

/-- The length of the header in front of a packet. -/
def headerSize : Nat := 10

structure Virtqueue where
  descs : List VirtqDesc
  avail : VirtqAvail
  used : VirtqUsed
  buffers : List (List UInt8)
  numFree : Nat
  freeHead : Nat
  lastUsedIdx : UInt16
deriving DecidableEq

structure VirtioNetDevice where
  rxQueue : Option Virtqueue
  txQueue : Option Virtqueue
  initialized : Bool
deriving DecidableEq

/-- `setup_virtqueue` for a queue of a size that the device reports, with its buffers at some
addresses.  `none` is a panic: the array of descriptors has `QUEUE_SIZE` entries, and is indexed up
to the size of the queue. -/
def setupVirtqueue (size : Nat) (addr : Nat → UInt64) (isRx : Bool) : Option (Option Virtqueue) :=
  if size = 0 then some none
  else if queueSize < size then none
  else
    let flags := if isRx then vringDescFWrite else 0
    let descs := (List.range size).map fun i =>
      (⟨addr i, UInt32.ofNat packetBufSize, flags, 0⟩ : VirtqDesc)
    some <| some
      { descs := descs ++ List.replicate (queueSize - size) ⟨0, 0, 0, 0⟩
        -- the buffers of a receive queue are all posted at once
        avail :=
          if isRx then
            ⟨UInt16.ofNat size,
              (List.range size).map UInt16.ofNat ++ List.replicate (queueSize - size) 0⟩
          else .zeroed queueSize
        used := .zeroed queueSize
        buffers := List.replicate size (List.replicate packetBufSize 0)
        numFree := if isRx then 0 else size
        freeHead := 0
        lastUsedIdx := 0 }

/-- The queue that is set up. -/
theorem setupVirtqueue_eq_some {size : Nat} {addr : Nat → UInt64} {isRx : Bool} {queue : Virtqueue}
    (h : setupVirtqueue size addr isRx = some (some queue)) :
    size ≤ queueSize ∧ queue.descs.length = queueSize ∧
      queue.avail =
        (if isRx then
          ⟨UInt16.ofNat size,
            (List.range size).map UInt16.ofNat ++ List.replicate (queueSize - size) 0⟩
        else .zeroed queueSize) ∧
      queue.used = .zeroed queueSize ∧
      queue.buffers = List.replicate size (List.replicate packetBufSize 0) ∧
      queue.numFree = (if isRx then 0 else size) ∧ queue.freeHead = 0 ∧ queue.lastUsedIdx = 0 := by
  rw [setupVirtqueue] at h
  split at h
  · cases h
  split at h
  · cases h
  next hbig =>
  have hle : size ≤ queueSize := Nat.le_of_not_lt hbig
  obtain rfl := Option.some.inj (Option.some.inj h)
  refine ⟨hle, ?_, rfl, rfl, rfl, rfl, rfl, rfl⟩
  rw [List.length_append, List.length_map, List.length_range, List.length_replicate]
  omega

/-- All buffers that are set up have room for a packet. -/
theorem length_of_mem_buffers {size : Nat} {addr : Nat → UInt64} {isRx : Bool} {queue : Virtqueue}
    (h : setupVirtqueue size addr isRx = some (some queue)) {buf : List UInt8}
    (hbuf : buf ∈ queue.buffers) : buf.length = packetBufSize := by
  obtain ⟨-, -, -, -, hbuffers, -⟩ := setupVirtqueue_eq_some h
  rw [hbuffers] at hbuf
  rw [List.eq_of_mem_replicate hbuf, List.length_replicate]

namespace Virtqueue

/-- The loop of `reclaim_tx`: count one descriptor for each step of the used index. -/
def reclaimLoop : Nat → Virtqueue → Virtqueue
  | 0, tx => tx
  | rounds + 1, tx =>
    if tx.lastUsedIdx = tx.used.idx then tx
    else
      -- the entry of the used ring, which names the descriptor, is not read
      reclaimLoop rounds
        { tx with numFree := tx.numFree + 1, lastUsedIdx := tx.lastUsedIdx + 1 }

/-- `reclaim_tx`.  The index has `2 ^ 16` values, so there are no more rounds than that. -/
def reclaimTx (tx : Virtqueue) : Virtqueue := reclaimLoop (2 ^ 16) tx

/-- Descriptors are reclaimed when none is free. -/
def ready (tx : Virtqueue) : Virtqueue := if tx.numFree = 0 then tx.reclaimTx else tx

/-- Copy a packet behind an empty header into a buffer. -/
def fillBuffer (buf data : List UInt8) : List UInt8 :=
  let copyLen := min data.length (buf.length - headerSize)
  List.replicate headerSize 0 ++ data.take copyLen ++ buf.drop (headerSize + copyLen)

/-- Use the descriptor at the head for a packet, and post it.  `none` is an index out of bounds. -/
def postPacket (tx : Virtqueue) (data : List UInt8) : Option Virtqueue :=
  let descIdx := tx.freeHead
  match tx.buffers[descIdx]?, tx.descs[descIdx]? with
  | some buf, some desc =>
    if buf.length < headerSize then none
    else
      let copyLen := min data.length (buf.length - headerSize)
      some
        { tx with
          -- modulo the size of the array, which may be more than the size of the queue
          freeHead := (tx.freeHead + 1) % queueSize
          numFree := tx.numFree - 1
          buffers := tx.buffers.set descIdx (fillBuffer buf data)
          descs := tx.descs.set descIdx
            { desc with len := UInt32.ofNat (headerSize + copyLen), flags := 0, next := 0 }
          avail := tx.avail.post queueSize descIdx }
  | _, _ => none

/-- The descriptor whose buffer a transmission overwrites, if there is room for a packet. -/
def writesTo (tx : Virtqueue) : Option Nat :=
  if tx.ready.numFree = 0 then none else some tx.ready.freeHead

end Virtqueue

/-- The part of `transmit` that works on the queue.  `none` is an index out of bounds. -/
def Virtqueue.transmit (tx : Virtqueue) (data : List UInt8) :
    Option (Except String Unit × Virtqueue) :=
  if tx.ready.numFree = 0 then some (.error "TX queue full", tx.ready)
  else (tx.ready.postPacket data).map fun tx' => (.ok (), tx')

/-- `transmit`. -/
def VirtioNetDevice.transmit (dev : VirtioNetDevice) (data : List UInt8) :
    Option (Except String Unit × VirtioNetDevice) :=
  if dev.initialized = false then some (.error "not initialized", dev)
  else
    match dev.txQueue with
    | none => some (.error "no TX queue", dev)
    | some tx =>
      (tx.transmit data).map fun result => (result.1, { dev with txQueue := some result.2 })

/-! ## Reclaiming -/

namespace Virtqueue

variable {tx tx' : Virtqueue} {data : List UInt8}

/-- How far the device is ahead of the driver. -/
def behind (tx : Virtqueue) : Nat := (tx.used.idx - tx.lastUsedIdx).toNat

theorem lastUsedIdx_eq_of_behind (h : tx.behind = 0) : tx.lastUsedIdx = tx.used.idx := by
  have hused := tx.used.idx.toNat_lt
  have hlast := tx.lastUsedIdx.toNat_lt
  rw [behind, UInt16.toNat_sub] at h
  apply UInt16.toNat_inj.mp
  omega

theorem behind_of_lastUsedIdx_eq (h : tx.lastUsedIdx = tx.used.idx) : tx.behind = 0 := by
  rw [behind, h, UInt16.sub_self]
  rfl

/-- One round of the loop brings the driver one step closer. -/
theorem behind_reclaim (h : tx.lastUsedIdx ≠ tx.used.idx) :
    behind { tx with numFree := tx.numFree + 1, lastUsedIdx := tx.lastUsedIdx + 1 } + 1 =
      tx.behind := by
  have hused := tx.used.idx.toNat_lt
  have hlast := tx.lastUsedIdx.toNat_lt
  have hne : tx.lastUsedIdx.toNat ≠ tx.used.idx.toNat := fun heq => h (UInt16.toNat_inj.mp heq)
  rw [behind, behind, UInt16.toNat_sub, UInt16.toNat_sub, UInt16.toNat_add]
  simp only [UInt16.reduceToNat]
  omega

theorem reclaimLoop_eq {rounds : Nat} (h : tx.behind ≤ rounds) :
    reclaimLoop rounds tx =
      { tx with numFree := tx.numFree + tx.behind, lastUsedIdx := tx.used.idx } := by
  induction rounds generalizing tx with
  | zero =>
    have hzero : tx.behind = 0 := Nat.le_zero.mp h
    rw [reclaimLoop, hzero, Nat.add_zero, ← lastUsedIdx_eq_of_behind hzero]
  | succ rounds ih =>
    rw [reclaimLoop]
    split
    · next hidx => rw [behind_of_lastUsedIdx_eq hidx, Nat.add_zero, ← hidx]
    · next hidx =>
      have hcloser := behind_reclaim hidx
      rw [ih (by omega), ← hcloser]
      simp only [Nat.add_assoc, Nat.add_comm 1]

/-- **The loop ends**, when it has caught up with the device. -/
theorem reclaimTx_eq (tx : Virtqueue) :
    tx.reclaimTx = { tx with numFree := tx.numFree + tx.behind, lastUsedIdx := tx.used.idx } :=
  reclaimLoop_eq (Nat.le_of_lt (tx.used.idx - tx.lastUsedIdx).toNat_lt)

theorem ready_cases (tx : Virtqueue) :
    (tx.numFree ≠ 0 ∧ tx.ready = tx) ∨
      (tx.numFree = 0 ∧
        tx.ready = { tx with numFree := tx.behind, lastUsedIdx := tx.used.idx }) := by
  rw [ready]
  split
  · next hfull =>
    refine .inr ⟨hfull, ?_⟩
    rw [reclaimTx_eq, hfull, Nat.zero_add]
  · next hroom => exact .inl ⟨hroom, rfl⟩

/-- Getting ready touches only the two counters. -/
theorem ready_eq (tx : Virtqueue) :
    ∃ numFree lastUsedIdx,
      tx.ready = { tx with numFree := numFree, lastUsedIdx := lastUsedIdx } := by
  rcases tx.ready_cases with ⟨-, hready⟩ | ⟨-, hready⟩
  · exact ⟨_, _, hready⟩
  · exact ⟨_, _, hready⟩

/-! ## Posting a packet -/

theorem postPacket_eq_some (h : tx.postPacket data = some tx') :
    ∃ buf desc desc', tx.buffers[tx.freeHead]? = some buf ∧ headerSize ≤ buf.length ∧
      tx.descs[tx.freeHead]? = some desc ∧
      tx' =
        { tx with
          freeHead := (tx.freeHead + 1) % queueSize
          numFree := tx.numFree - 1
          buffers := tx.buffers.set tx.freeHead (fillBuffer buf data)
          descs := tx.descs.set tx.freeHead desc'
          avail := tx.avail.post queueSize tx.freeHead } := by
  rw [postPacket] at h
  split at h
  · next buf desc hbuf hdesc =>
    split at h
    · cases h
    · next hlen =>
      obtain rfl := Option.some.inj h
      exact ⟨buf, desc, _, hbuf, Nat.le_of_not_lt hlen, hdesc, rfl⟩
  · cases h

theorem postPacket_isSome {buf : List UInt8} (hbuf : tx.buffers[tx.freeHead]? = some buf)
    (hlen : headerSize ≤ buf.length) (hdesc : tx.freeHead < tx.descs.length) (data : List UInt8) :
    (tx.postPacket data).isSome := by
  rw [postPacket, hbuf, List.getElem?_eq_getElem hdesc]
  simp only [if_neg (Nat.not_lt.mpr hlen), Option.isSome_some]

/-- Filling a buffer keeps its length. -/
theorem length_fillBuffer {buf : List UInt8} (h : headerSize ≤ buf.length) (data : List UInt8) :
    (fillBuffer buf data).length = buf.length := by
  simp only [fillBuffer, List.length_append, List.length_replicate, List.length_take,
    List.length_drop]
  omega

/-- The first byte of a packet comes right after the header. -/
theorem getElem?_fillBuffer_headerSize {buf : List UInt8} (h : headerSize < buf.length)
    (byte : UInt8) (data : List UInt8) :
    (fillBuffer buf (byte :: data))[headerSize]? = some byte := by
  obtain ⟨k, hk⟩ : ∃ k, min (data.length + 1) (buf.length - headerSize) = k + 1 :=
    Nat.exists_eq_add_one.mpr (by omega)
  simp only [fillBuffer, List.length_cons, hk, List.take_succ_cons, List.append_assoc,
    List.cons_append]
  rw [List.getElem?_append_right (by rw [List.length_replicate]), List.length_replicate,
    Nat.sub_self, List.getElem?_cons_zero]

/-- **What a transmission does** to the queue: it has no room, or it posts the descriptor at the
head. -/
theorem transmit_cases {result : Except String Unit} (h : tx.transmit data = some (result, tx')) :
    (tx.writesTo = none ∧ result = .error "TX queue full" ∧ tx' = tx.ready) ∨
      (tx.writesTo = some tx.freeHead ∧ result = .ok () ∧ tx.ready.postPacket data = some tx') := by
  have hhead : tx.ready.freeHead = tx.freeHead := by
    obtain ⟨_, _, hready⟩ := tx.ready_eq
    rw [hready]
  rw [transmit] at h
  rw [writesTo, hhead]
  split at h
  · next hfull =>
    obtain ⟨rfl, rfl⟩ := Prod.mk.inj (Option.some.inj h)
    exact .inl ⟨if_pos hfull, rfl, rfl⟩
  · next hroom =>
    obtain ⟨tx₁, hpost, heq⟩ := Option.map_eq_some_iff.mp h
    obtain ⟨rfl, rfl⟩ := Prod.mk.inj heq
    exact .inr ⟨if_neg hroom, rfl, hpost⟩

/-- A transmission writes to no other descriptor, and to no other buffer. -/
theorem transmit_frame {result : Except String Unit} {i : Nat}
    (h : tx.transmit data = some (result, tx')) (hi : tx.writesTo ≠ some i) :
    tx'.buffers[i]? = tx.buffers[i]? ∧ tx'.descs[i]? = tx.descs[i]? := by
  have hready : tx.ready.buffers = tx.buffers ∧ tx.ready.descs = tx.descs ∧
      tx.ready.freeHead = tx.freeHead := by
    obtain ⟨_, _, hready⟩ := tx.ready_eq
    rw [hready]
    exact ⟨rfl, rfl, rfl⟩
  rcases transmit_cases h with ⟨-, -, rfl⟩ | ⟨hwrites, -, hpost⟩
  · rw [hready.1, hready.2.1]
    exact ⟨rfl, rfl⟩
  · have hne : tx.ready.freeHead ≠ i := fun heq => hi (by rw [hwrites, ← heq, hready.2.2])
    obtain ⟨buf, desc, desc', -, -, -, rfl⟩ := postPacket_eq_some hpost
    rw [← hready.1, ← hready.2.1]
    exact ⟨List.getElem?_set_ne hne, List.getElem?_set_ne hne⟩

end Virtqueue

/-- With the queue set up, `transmit` is its part on the queue. -/
theorem VirtioNetDevice.transmit_eq_some {dev dev' : VirtioNetDevice} {tx : Virtqueue}
    {data : List UInt8} {result : Except String Unit} (hon : dev.initialized = true)
    (htx : dev.txQueue = some tx) :
    dev.transmit data = some (result, dev') ↔
      ∃ tx', tx.transmit data = some (result, tx') ∧ { dev with txQueue := some tx' } = dev' := by
  rw [transmit, if_neg (by rw [hon]; decide), htx]
  simp only [Option.map_eq_some_iff, Prod.mk.injEq, Prod.exists]
  constructor
  · rintro ⟨result', tx', h, rfl, rfl⟩
    exact ⟨tx', h, rfl⟩
  · rintro ⟨tx', h, rfl⟩
    exact ⟨result, tx', h, rfl, rfl⟩

end VirtioNet

end OxideOS
