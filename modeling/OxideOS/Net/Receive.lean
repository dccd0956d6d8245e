import OxideOS.Lib.TransitionSystem
import OxideOS.Net.VirtioNet

/-!
# Received packets

`net/virtio_net.rs`, `receive`: the oldest packet that the device has returned is copied out, and
its descriptor is posted again.  Calls come in any order with steps of the device, which fills any
of the descriptors that it finds in the available ring and returns it with any length.

A packet of ten bytes or less is only a header.  Its descriptor is consumed and not posted again,
so that the device has one descriptor less for good.  With a queue of another size than
`QUEUE_SIZE` the driver and the device look for the entries of both rings in different slots.

## Main definitions

* `VirtioNet.VirtioNetDevice.receive`
* `VirtioNet.RxState`, `VirtioNet.RxState.system`: the device with the descriptors that it may fill
  and those that it has returned, and its steps
* `VirtioNet.RxState.Reposts`: a call posts the descriptors that it consumes
* `VirtioNet.RxState.Careful`: the packet that is read is longer than a header and fits, and its
  descriptor is posted where the device looks for it

## Main results

* `VirtioNet.Virtqueue.receive_cases`: what a call does to the queue
* `VirtioNet.RxState.Kept.reposts_iff`: a call posts what it consumes exactly when it is careful
* `VirtioNet.RxState.kept_reachable_queueSize`: what holds in every run with `QUEUE_SIZE` entries
* `VirtioNet.receive_reposts`: when consumed descriptors are posted again
* `VirtioNet.receive_leaks`: a descriptor is lost
-/

namespace OxideOS

namespace VirtioNet

open Virtio

/-! ## The driver -/

namespace Virtqueue

/-- The entry of the used ring that is read next. -/
def nextUsed (rx : Virtqueue) : Option VirtqUsedElem :=
  rx.used.ring[rx.lastUsedIdx.toNat % queueSize]?

/-- How many bytes are copied to the caller. -/
def copyLen (elem : VirtqUsedElem) (buffer : List UInt8) : Nat :=
  min (elem.len.toNat - headerSize) buffer.length

/-- Copy the packet of a descriptor and post the descriptor again.  `none` is an index out of
bounds. -/
def copyOut (rx : Virtqueue) (elem : VirtqUsedElem) (buffer : List UInt8) :
    Option (List UInt8 × Virtqueue) :=
  let descIdx := elem.id.toNat
  match rx.buffers[descIdx]?, rx.descs[descIdx]? with
  | some buf, some desc =>
    if buf.length < headerSize + copyLen elem buffer then none
    else
      some ((buf.drop headerSize).take (copyLen elem buffer) ++ buffer.drop (copyLen elem buffer),
        { rx with
          descs := rx.descs.set descIdx
            { desc with len := UInt32.ofNat packetBufSize, flags := vringDescFWrite, next := 0 }
          avail := rx.avail.post queueSize descIdx
          lastUsedIdx := rx.lastUsedIdx + 1 })
  | _, _ => none

/-- The part of `receive` that works on the queue: the number of bytes, the buffer of the caller and
the queue.  `none` is an index out of bounds. -/
def receive (rx : Virtqueue) (buffer : List UInt8) :
    Option (Option Nat × List UInt8 × Virtqueue) :=
  if rx.lastUsedIdx = rx.used.idx then some (none, buffer, rx)
  else
    match rx.nextUsed with
    | none => none
    | some elem =>
      if headerSize < elem.len.toNat then
        (rx.copyOut elem buffer).map fun copied => (some (copyLen elem buffer), copied)
      else
        -- the entry is consumed, and its descriptor is not posted
        some (none, buffer, { rx with lastUsedIdx := rx.lastUsedIdx + 1 })

/-- The packet of an entry is in a buffer, and has as many bytes as are copied. -/
def Holds (rx : Virtqueue) (elem : VirtqUsedElem) (buffer : List UInt8) : Prop :=
  elem.id.toNat < rx.descs.length ∧
    ∃ buf, rx.buffers[elem.id.toNat]? = some buf ∧ headerSize + copyLen elem buffer ≤ buf.length

end Virtqueue

/-- `receive`. -/
def VirtioNetDevice.receive (dev : VirtioNetDevice) (buffer : List UInt8) :
    Option (Option Nat × List UInt8 × VirtioNetDevice) :=
  if dev.initialized = false then some (none, buffer, dev)
  else
    match dev.rxQueue with
    | none => some (none, buffer, dev)
    | some rx =>
      (rx.receive buffer).map fun result =>
        (result.1, result.2.1, { dev with rxQueue := some result.2.2 })

namespace Virtqueue

variable {rx rx' : Virtqueue} {elem : VirtqUsedElem} {buffer buffer' : List UInt8}

theorem copyOut_eq_some (h : rx.copyOut elem buffer = some (buffer', rx')) :
    rx.Holds elem buffer ∧ ∃ desc', rx' =
      { rx with
        descs := rx.descs.set elem.id.toNat desc'
        avail := rx.avail.post queueSize elem.id.toNat
        lastUsedIdx := rx.lastUsedIdx + 1 } := by
  rw [copyOut] at h
  split at h
  · next buf desc hbuf hdesc =>
    split at h
    · cases h
    · next hlen =>
      obtain ⟨-, rfl⟩ := Prod.mk.inj (Option.some.inj h)
      obtain ⟨hlt, -⟩ := List.getElem?_eq_some_iff.mp hdesc
      exact ⟨⟨hlt, buf, hbuf, Nat.le_of_not_lt hlen⟩, _, rfl⟩
  · cases h

theorem copyOut_isSome (h : rx.Holds elem buffer) : (rx.copyOut elem buffer).isSome := by
  obtain ⟨hdesc, buf, hbuf, hlen⟩ := h
  rw [copyOut, hbuf, List.getElem?_eq_getElem hdesc]
  simp only [if_neg (Nat.not_lt.mpr hlen), Option.isSome_some]

/-- **What a call does** to the queue when the device has returned something: it posts the
descriptor that it reads, or consumes a header. -/
theorem receive_cases {result : Option Nat} (hne : rx.lastUsedIdx ≠ rx.used.idx)
    (h : rx.receive buffer = some (result, buffer', rx')) :
    ∃ elem, rx.nextUsed = some elem ∧
      ((headerSize < elem.len.toNat ∧ rx.Holds elem buffer ∧ ∃ desc', rx' =
          { rx with
            descs := rx.descs.set elem.id.toNat desc'
            avail := rx.avail.post queueSize elem.id.toNat
            lastUsedIdx := rx.lastUsedIdx + 1 }) ∨
        (elem.len.toNat ≤ headerSize ∧ rx' = { rx with lastUsedIdx := rx.lastUsedIdx + 1 })) := by
  rw [receive, if_neg hne] at h
  split at h
  · cases h
  next elem helem =>
  refine ⟨elem, helem, ?_⟩
  split at h
  · next hlong =>
    obtain ⟨⟨_, rx₁⟩, hcopy, heq⟩ := Option.map_eq_some_iff.mp h
    obtain ⟨-, hcopied⟩ := Prod.mk.inj heq
    obtain ⟨-, rfl⟩ := Prod.mk.inj hcopied
    exact .inl ⟨hlong, copyOut_eq_some hcopy⟩
  · next hshort =>
    obtain ⟨-, hcopied⟩ := Prod.mk.inj (Option.some.inj h)
    obtain ⟨-, rfl⟩ := Prod.mk.inj hcopied
    exact .inr ⟨Nat.le_of_not_lt hshort, rfl⟩

end Virtqueue

/-- With the queue set up, `receive` is its part on the queue. -/
theorem VirtioNetDevice.receive_eq_some {dev dev' : VirtioNetDevice} {rx : Virtqueue}
    {buffer buffer' : List UInt8} {result : Option Nat} (hon : dev.initialized = true)
    (hrx : dev.rxQueue = some rx) :
    dev.receive buffer = some (result, buffer', dev') ↔
      ∃ rx', rx.receive buffer = some (result, buffer', rx') ∧
        { dev with rxQueue := some rx' } = dev' := by
  rw [receive, if_neg (by rw [hon]; decide), hrx]
  simp only [Option.map_eq_some_iff, Prod.mk.injEq, Prod.exists]
  constructor
  · rintro ⟨result', buffer'', rx', h, rfl, rfl, rfl⟩
    exact ⟨rx', h, rfl⟩
  · rintro ⟨rx', h, rfl⟩
    exact ⟨result, buffer', rx', h, rfl, rfl, rfl⟩

/-! ## The driver and the device -/

/-- A descriptor that the device has returned, and the length that it reports. -/
structure Return where
  desc : Nat
  len : UInt32
deriving DecidableEq

/-- The device, the descriptors that it may fill, and those that it has returned and the driver has
not consumed, the oldest first. -/
structure RxState where
  device : VirtioNetDevice
  available : List Nat
  waiting : List Return
deriving DecidableEq

inductive RxOp
  | receive (buffer : List UInt8)
  | complete (i : Nat) (data : List UInt8) (len : UInt32)
deriving DecidableEq

namespace VirtioNetDevice

/-- The descriptors that the device finds posted between two states. -/
def rxPostsTo (size : Nat) (dev dev' : VirtioNetDevice) : List Nat :=
  match dev.rxQueue, dev'.rxQueue with
  | some rx, some rx' => rx.avail.posts size rx'.avail
  | _, _ => []

/-- The entries of the used ring that are consumed between two states. -/
def consumesTo (dev dev' : VirtioNetDevice) : Nat :=
  match dev.rxQueue, dev'.rxQueue with
  | some rx, some rx' => (rx'.lastUsedIdx - rx.lastUsedIdx).toNat
  | _, _ => 0

/-- The device writes into the buffer of a descriptor and returns it. -/
def completeRx (dev : VirtioNetDevice) (size desc : Nat) (data : List UInt8) (len : UInt32) :
    VirtioNetDevice :=
  { dev with
    rxQueue := dev.rxQueue.map fun rx =>
      { rx with
        buffers := rx.buffers.modify desc fun buf =>
          data.take buf.length ++ buf.drop data.length
        used := rx.used.complete size desc len.toNat } }

end VirtioNetDevice

namespace RxState

/-- What is seen of a call of the driver. -/
def observe (size : Nat) (s : RxState) (dev : VirtioNetDevice) : RxState where
  device := dev
  available := s.available ++ s.device.rxPostsTo size dev
  waiting := s.waiting.drop (s.device.consumesTo dev)

/-- A step of the driver, or of the device: it returns one of the available descriptors. -/
def exec (size : Nat) (s : RxState) : RxOp → Option RxState
  | .receive buffer => (s.device.receive buffer).map fun result => s.observe size result.2.2
  | .complete i data len => s.available[i]?.map fun desc =>
      { device := s.device.completeRx size desc data len
        available := s.available.eraseIdx i
        waiting := s.waiting ++ [⟨desc, len⟩] }

/-- The device after `init`: it finds what has been posted to the empty ring. -/
def boot (size : Nat) (rx : Virtqueue) (tx : Option Virtqueue) : RxState :=
  ⟨⟨some rx, tx, true⟩, (VirtqAvail.zeroed queueSize).posts size rx.avail, []⟩

def system (size : Nat) (rx : Virtqueue) (tx : Option Virtqueue) : TransitionSystem RxState RxOp :=
  .ofPartial (boot size rx tx) (exec size)

/-- The call returns, and posts the descriptors that it consumes. -/
def Reposts (size : Nat) (s : RxState) (buffer : List UInt8) : Prop :=
  ∃ result buffer' dev, s.device.receive buffer = some (result, buffer', dev) ∧
    s.device.rxPostsTo size dev = (s.waiting.take (s.device.consumesTo dev)).map Return.desc

/-- When something has been returned, the entry that is read is longer than a header, what is copied
of it is in its buffer, and the device finds the oldest returned descriptor where it looks for the
next one. -/
def Careful (size : Nat) (s : RxState) : RxOp → Prop
  | .receive buffer => ∀ r rest, s.waiting = r :: rest →
      ∃ rx elem, s.device.rxQueue = some rx ∧ rx.nextUsed = some elem ∧
        headerSize < elem.len.toNat ∧ rx.Holds elem buffer ∧
        (rx.avail.post queueSize elem.id.toNat).entry size rx.avail.idx.toNat = r.desc
  | .complete _ _ _ => True

/-- The oldest packet is longer than a header, and no more of it is copied than a buffer holds. -/
def Regular (s : RxState) (buffer : List UInt8) : Prop :=
  ∀ r rest, s.waiting = r :: rest →
    headerSize < r.len.toNat ∧
      headerSize + min (r.len.toNat - headerSize) buffer.length ≤ packetBufSize

/-! ## The rings -/

/-- The descriptors that the device may fill and those that wait to be consumed make up the
queue. -/
def Whole (size : Nat) (s : RxState) : Prop := s.available.length + s.waiting.length = size

/-- The rings hold what the device may fill and what it has returned, and this is no more than there
are descriptors. -/
structure Kept (size : Nat) (s : RxState) (rx : Virtqueue) : Prop where
  online : s.device.initialized = true
  queue : s.device.rxQueue = some rx
  size_le : size ≤ queueSize
  descs : rx.descs.length = queueSize
  ring : rx.avail.ring.length = queueSize
  usedRing : rx.used.ring.length = queueSize
  buffers : rx.buffers.length = size
  packetBuf : ∀ buf ∈ rx.buffers, buf.length = packetBufSize
  total : s.available.length + s.waiting.length ≤ size
  available : ∀ desc ∈ s.available, desc < size
  waiting : ∀ r ∈ s.waiting, r.desc < size
  index : rx.used.idx = rx.lastUsedIdx + UInt16.ofNat s.waiting.length
  slots : size = queueSize → ∀ j r, s.waiting[j]? = some r →
    rx.used.ring[(rx.lastUsedIdx.toNat + j) % queueSize]? = some ⟨UInt32.ofNat r.desc, r.len⟩

variable {size : Nat} {tx : Option Virtqueue} {s s' : RxState} {rx rx' : Virtqueue}
  {buffer : List UInt8} {op : RxOp}

/-- At first the device may fill all descriptors. -/
theorem available_boot {addr : Nat → UInt64} (h : setupVirtqueue size addr true = some (some rx))
    (tx : Option Virtqueue) : (boot size rx tx).available = List.range size := by
  obtain ⟨hle, -, havail, -⟩ := setupVirtqueue_eq_some h
  rw [if_pos rfl] at havail
  rw [queueSize] at hle
  have hcount : (UInt16.ofNat size - 0).toNat = size := by
    rw [UInt16.sub_zero, UInt16.toNat_ofNat', Nat.mod_eq_of_lt (by omega)]
  rw [boot, havail, VirtqAvail.posts, VirtqAvail.zeroed, hcount]
  refine (List.map_congr_left fun k hk => ?_).trans (List.map_id _)
  have hk : k < size := List.mem_range.mp hk
  have hring : k < ((List.range size).map UInt16.ofNat).length := by
    rwa [List.length_map, List.length_range]
  rw [VirtqAvail.entry, UInt16.toNat_zero, Nat.zero_add, Nat.mod_eq_of_lt hk,
    List.getElem?_append_left hring, List.getElem?_map, List.getElem?_range hk, Option.map_some,
    Option.getD_some, UInt16.toNat_ofNat', Nat.mod_eq_of_lt (by omega)]
  rfl

theorem kept_boot {addr : Nat → UInt64} (h : setupVirtqueue size addr true = some (some rx))
    (tx : Option Virtqueue) : Kept size (boot size rx tx) rx := by
  have havailable := available_boot h tx
  have hpacketBuf : ∀ buf ∈ rx.buffers, buf.length = packetBufSize :=
    fun buf hbuf => length_of_mem_buffers h hbuf
  obtain ⟨hle, hdescs, havail, hused, hbuffers, -, -, hlast⟩ := setupVirtqueue_eq_some h
  rw [if_pos rfl] at havail
  refine ⟨rfl, rfl, hle, hdescs, ?_, ?_, ?_, hpacketBuf, ?_, ?_, ?_, ?_, ?_⟩
  · rw [havail, List.length_append, List.length_map, List.length_range, List.length_replicate]
    omega
  · rw [hused, VirtqUsed.zeroed, List.length_replicate]
  · rw [hbuffers, List.length_replicate]
  · rw [havailable, List.length_range]
    exact Nat.le_refl size
  · intro desc hdesc
    rw [havailable] at hdesc
    exact List.mem_range.mp hdesc
  · exact fun r hr => absurd hr List.not_mem_nil
  · rw [hused, hlast]
    rfl
  · intro _ j r hr
    cases hr

/-! ## One step -/

theorem toNat_add_one_mod (idx : UInt16) (j : Nat) :
    ((idx + 1).toNat + j) % queueSize = (idx.toNat + (j + 1)) % queueSize := by
  rw [UInt16.toNat_add, queueSize]
  simp only [UInt16.reduceToNat]
  omega

/-- The device writes no further than a buffer reaches. -/
theorem length_take_append_drop (data buf : List UInt8) :
    (data.take buf.length ++ buf.drop data.length).length = buf.length := by
  rw [List.length_append, List.length_take, List.length_drop]
  omega

/-- The device returns a descriptor in the slot behind those of the older returns. -/
theorem Kept.slots_complete (h : Kept size s rx) (hfull : size = queueSize)
    (hroom : s.waiting.length < size) {desc : Nat} {len : UInt32} {j : Nat} {r : Return}
    (hr : (s.waiting ++ [⟨desc, len⟩])[j]? = some r) :
    (rx.used.complete size desc len.toNat).ring[(rx.lastUsedIdx.toNat + j) % queueSize]? =
      some ⟨UInt32.ofNat r.desc, r.len⟩ := by
  have hslot : rx.used.idx.toNat % size =
      (rx.lastUsedIdx.toNat + s.waiting.length) % queueSize := by
    rw [h.index, UInt16.toNat_add, UInt16.toNat_ofNat', hfull, queueSize]
    omega
  rw [VirtqUsed.complete, hslot]
  rw [hfull, queueSize] at hroom
  rcases Nat.lt_or_ge j s.waiting.length with hj | hj
  · rw [List.getElem?_append_left hj] at hr
    rw [List.getElem?_set_ne (by rw [queueSize]; omega)]
    exact h.slots hfull j r hr
  · obtain ⟨hjlt, -⟩ := List.getElem?_eq_some_iff.mp hr
    rw [List.length_append, List.length_singleton] at hjlt
    obtain rfl : j = s.waiting.length := by omega
    rw [List.getElem?_concat_length] at hr
    obtain rfl := Option.some.inj hr
    have hbound : (rx.lastUsedIdx.toNat + s.waiting.length) % queueSize <
        rx.used.ring.length := by
      rw [h.usedRing]
      exact Nat.mod_lt _ (by decide)
    rw [List.getElem?_set_self hbound, UInt32.ofNat_toNat]

/-- The device returns a descriptor. -/
theorem Kept.complete (h : Kept size s rx) {i desc : Nat} (data : List UInt8) (len : UInt32)
    (hi : s.available[i]? = some desc) :
    ∃ rx', Kept size
      { device := s.device.completeRx size desc data len
        available := s.available.eraseIdx i
        waiting := s.waiting ++ [⟨desc, len⟩] } rx' := by
  obtain ⟨hlt, -⟩ := List.getElem?_eq_some_iff.mp hi
  have hdesc : desc < size := h.available desc (List.mem_of_getElem? hi)
  have htotal := h.total
  have hlength : (s.available.eraseIdx i).length = s.available.length - 1 :=
    List.length_eraseIdx_of_lt hlt
  refine ⟨{ rx with
      buffers := rx.buffers.modify desc fun buf => data.take buf.length ++ buf.drop data.length
      used := rx.used.complete size desc len.toNat }, h.online, ?_, h.size_le, h.descs, h.ring, ?_,
    ?_, ?_, ?_, ?_, ?_, ?_, ?_⟩
  · simp only [VirtioNetDevice.completeRx, h.queue, Option.map_some]
  · rw [VirtqUsed.complete, List.length_set]
    exact h.usedRing
  · rw [List.length_modify]
    exact h.buffers
  · intro buf hbuf
    obtain ⟨j, hj⟩ := List.mem_iff_getElem?.mp hbuf
    rw [List.getElem?_modify] at hj
    obtain ⟨old, hold, rfl⟩ := Option.map_eq_some_iff.mp hj
    have hlen := h.packetBuf old (List.mem_of_getElem? hold)
    split
    · exact (length_take_append_drop data old).trans hlen
    · exact hlen
  · show (s.available.eraseIdx i).length + (s.waiting ++ [_]).length ≤ size
    rw [hlength, List.length_append, List.length_singleton]
    omega
  · exact fun desc' hmem => h.available desc' (List.mem_of_mem_eraseIdx hmem)
  · intro r hr
    rcases List.mem_append.mp hr with hr | hr
    · exact h.waiting r hr
    · rw [List.mem_singleton.mp hr]
      exact hdesc
  · show rx.used.idx + 1 = rx.lastUsedIdx + UInt16.ofNat (s.waiting ++ [_]).length
    rw [h.index, UInt16.add_assoc, ofNat_add_one, List.length_append, List.length_singleton]
  · exact fun hfull j r hr => h.slots_complete hfull (by omega) hr

/-- The driver sees that nothing has been returned. -/
theorem Kept.lastUsedIdx_eq_iff (h : Kept size s rx) :
    rx.lastUsedIdx = rx.used.idx ↔ s.waiting = [] := by
  have htotal := h.total
  have hsize := h.size_le
  have hlast := rx.lastUsedIdx.toNat_lt
  rw [queueSize] at hsize
  rw [h.index, ← List.length_eq_zero_iff, ← UInt16.toNat_inj, UInt16.toNat_add,
    UInt16.toNat_ofNat']
  omega

/-- The state when the driver has looked and found nothing. -/
theorem Kept.receive_of_nil (h : Kept size s rx) (hwaiting : s.waiting = []) (buffer : List UInt8) :
    s.device.receive buffer = some (none, buffer, s.device) := by
  have hdev : { s.device with rxQueue := some rx } = s.device := by rw [← h.queue]
  refine (VirtioNetDevice.receive_eq_some h.online h.queue).mpr ⟨rx, ?_, hdev⟩
  rw [Virtqueue.receive, if_pos (h.lastUsedIdx_eq_iff.mpr hwaiting)]

theorem rxPostsTo_self (size : Nat) (dev : VirtioNetDevice) : dev.rxPostsTo size dev = [] := by
  rw [VirtioNetDevice.rxPostsTo]
  split
  · next rx rx' hrx hrx' =>
    obtain rfl := Option.some.inj (hrx.symm.trans hrx')
    exact VirtqAvail.posts_self
  · rfl

theorem consumesTo_self (dev : VirtioNetDevice) : dev.consumesTo dev = 0 := by
  rw [VirtioNetDevice.consumesTo]
  split
  · next rx rx' hrx hrx' =>
    obtain rfl := Option.some.inj (hrx.symm.trans hrx')
    rw [UInt16.sub_self]
    rfl
  · rfl

theorem consumesTo_eq_one {dev : VirtioNetDevice} (hrx : dev.rxQueue = some rx)
    (hlast : rx'.lastUsedIdx = rx.lastUsedIdx + 1) :
    dev.consumesTo { dev with rxQueue := some rx' } = 1 := by
  simp only [VirtioNetDevice.consumesTo, hrx, hlast]
  rw [UInt16.add_comm, UInt16.add_sub_cancel]
  rfl

/-- **What a call does** when something has been returned: it consumes one entry, and posts what
the device finds then, or nothing. -/
theorem Kept.receive_cases (h : Kept size s rx) (hwaiting : s.waiting ≠ []) {result : Option Nat}
    {buffer' : List UInt8} {dev : VirtioNetDevice}
    (hreceive : s.device.receive buffer = some (result, buffer', dev)) :
    ∃ elem rx', rx.nextUsed = some elem ∧ dev = { s.device with rxQueue := some rx' } ∧
      s.device.consumesTo dev = 1 ∧
      ((headerSize < elem.len.toNat ∧ rx.Holds elem buffer ∧
          (∃ desc', rx' =
            { rx with
              descs := rx.descs.set elem.id.toNat desc'
              avail := rx.avail.post queueSize elem.id.toNat
              lastUsedIdx := rx.lastUsedIdx + 1 }) ∧
          s.device.rxPostsTo size dev =
            [(rx.avail.post queueSize elem.id.toNat).entry size rx.avail.idx.toNat]) ∨
        (elem.len.toNat ≤ headerSize ∧ rx' = { rx with lastUsedIdx := rx.lastUsedIdx + 1 } ∧
          s.device.rxPostsTo size dev = [])) := by
  have hne : rx.lastUsedIdx ≠ rx.used.idx := fun heq => hwaiting (h.lastUsedIdx_eq_iff.mp heq)
  obtain ⟨rx', hqueue, rfl⟩ := (VirtioNetDevice.receive_eq_some h.online h.queue).mp hreceive
  obtain ⟨elem, helem, hcases⟩ := Virtqueue.receive_cases hne hqueue
  rcases hcases with ⟨hlong, hholds, desc', rfl⟩ | ⟨hshort, rfl⟩
  · refine ⟨elem, _, helem, rfl, consumesTo_eq_one h.queue rfl,
      .inl ⟨hlong, hholds, ⟨desc', rfl⟩, ?_⟩⟩
    simp only [VirtioNetDevice.rxPostsTo, h.queue, VirtqAvail.posts_post_eq]
  · refine ⟨elem, _, helem, rfl, consumesTo_eq_one h.queue rfl, .inr ⟨hshort, rfl, ?_⟩⟩
    simp only [VirtioNetDevice.rxPostsTo, h.queue, VirtqAvail.posts_self]

theorem Kept.exists_receive (h : Kept size s rx) (hwaiting : s.waiting ≠ []) {elem : VirtqUsedElem}
    (helem : rx.nextUsed = some elem)
    (hholds : headerSize < elem.len.toNat → rx.Holds elem buffer) :
    ∃ result buffer' dev, s.device.receive buffer = some (result, buffer', dev) := by
  have hne : rx.lastUsedIdx ≠ rx.used.idx := fun heq => hwaiting (h.lastUsedIdx_eq_iff.mp heq)
  have hqueue : ∃ result buffer' rx', rx.receive buffer = some (result, buffer', rx') := by
    rw [Virtqueue.receive, if_neg hne, helem]
    by_cases hlong : headerSize < elem.len.toNat
    · obtain ⟨⟨buffer', rx'⟩, hcopy⟩ := Option.isSome_iff_exists.mp
        (Virtqueue.copyOut_isSome (hholds hlong))
      simp only [if_pos hlong, hcopy]
      exact ⟨_, _, _, rfl⟩
    · simp only [if_neg hlong]
      exact ⟨_, _, _, rfl⟩
  obtain ⟨result, buffer', rx', hqueue⟩ := hqueue
  exact ⟨_, _, _, (VirtioNetDevice.receive_eq_some h.online h.queue).mpr ⟨rx', hqueue, rfl⟩⟩

/-- **A call posts what it consumes exactly when it is careful.** -/
theorem Kept.reposts_iff (h : Kept size s rx) :
    s.Reposts size buffer ↔ s.Careful size (.receive buffer) := by
  cases hwaiting : s.waiting with
  | nil =>
    have hreceive := h.receive_of_nil hwaiting buffer
    refine iff_of_true ⟨_, _, _, hreceive, ?_⟩ fun r rest hcons => ?_
    · rw [rxPostsTo_self, hwaiting, List.take_nil]
      rfl
    · rw [hwaiting] at hcons
      cases hcons
  | cons r rest =>
    have hne : s.waiting ≠ [] := hwaiting ▸ List.cons_ne_nil r rest
    constructor
    · rintro ⟨result, buffer', dev, hreceive, hposts⟩ r' rest' hcons
      obtain ⟨rfl, rfl⟩ := List.cons.inj (hwaiting.symm.trans hcons)
      obtain ⟨elem, rx', helem, -, hone, hcases⟩ := h.receive_cases hne hreceive
      rw [hone, hwaiting] at hposts
      rcases hcases with ⟨hlong, hholds, -, hposted⟩ | ⟨-, -, hnone⟩
      · rw [hposted] at hposts
        exact ⟨rx, elem, h.queue, helem, hlong, hholds, (List.cons.inj hposts).1⟩
      · rw [hnone] at hposts
        cases hposts
    · intro hcareful
      obtain ⟨rx₁, elem, hrx₁, helem, hlong, hholds, hentry⟩ := hcareful r rest hwaiting
      obtain rfl := Option.some.inj (h.queue.symm.trans hrx₁)
      obtain ⟨result, buffer', dev, hreceive⟩ := h.exists_receive hne helem fun _ => hholds
      refine ⟨result, buffer', dev, hreceive, ?_⟩
      obtain ⟨elem₁, rx', helem₁, -, hone, hcases⟩ := h.receive_cases hne hreceive
      obtain rfl := Option.some.inj (helem.symm.trans helem₁)
      rw [hone, hwaiting]
      rcases hcases with ⟨-, -, -, hposted⟩ | ⟨hshort, -⟩
      · rw [hposted, hentry]
        rfl
      · exact absurd hlong (Nat.not_lt.mpr hshort)

/-- The oldest return is consumed, and a descriptor may have become available. -/
theorem Kept.consume (h : Kept size s rx) {r : Return} {rest : List Return}
    (hwaiting : s.waiting = r :: rest) {descs : List VirtqDesc} {avail : VirtqAvail}
    {posts : List Nat} (hdescs : descs.length = queueSize) (hring : avail.ring.length = queueSize)
    (hlength : posts.length ≤ 1) (hposts : ∀ desc ∈ posts, desc < size) :
    Kept size
      { device := { s.device with
          rxQueue := some
            { rx with descs := descs, avail := avail, lastUsedIdx := rx.lastUsedIdx + 1 } }
        available := s.available ++ posts
        waiting := rest }
      { rx with descs := descs, avail := avail, lastUsedIdx := rx.lastUsedIdx + 1 } := by
  have htotal := h.total
  have hindex := h.index
  rw [hwaiting, List.length_cons] at htotal hindex
  refine ⟨h.online, rfl, h.size_le, hdescs, hring, h.usedRing, h.buffers, h.packetBuf, ?_, ?_, ?_,
    ?_, ?_⟩
  · show (s.available ++ posts).length + rest.length ≤ size
    rw [List.length_append]
    omega
  · intro desc hdesc
    rcases List.mem_append.mp hdesc with hdesc | hdesc
    · exact h.available desc hdesc
    · exact hposts desc hdesc
  · exact fun r' hr' => h.waiting r' (hwaiting ▸ List.mem_cons_of_mem r hr')
  · show rx.used.idx = rx.lastUsedIdx + 1 + UInt16.ofNat rest.length
    rw [hindex, ← ofNat_add_one, UInt16.add_assoc, UInt16.add_comm 1]
  · intro hfull j r' hr'
    show rx.used.ring[((rx.lastUsedIdx + 1).toNat + j) % queueSize]? = _
    rw [toNat_add_one_mod]
    refine h.slots hfull (j + 1) r' ?_
    rw [hwaiting]
    exact hr'

/-- A call keeps the rings if the device finds one of its descriptors when one is posted. -/
theorem Kept.receive (h : Kept size s rx)
    (hentry : ∀ elem, rx.nextUsed = some elem → s.waiting ≠ [] → headerSize < elem.len.toNat →
      (rx.avail.post queueSize elem.id.toNat).entry size rx.avail.idx.toNat < size)
    (hexec : exec size s (.receive buffer) = some s') : ∃ rx', Kept size s' rx' := by
  obtain ⟨⟨result, buffer', dev⟩, hreceive, rfl⟩ := Option.map_eq_some_iff.mp hexec
  cases hwaiting : s.waiting with
  | nil =>
    have hsame := h.receive_of_nil hwaiting buffer
    rw [hreceive] at hsame
    obtain rfl : dev = s.device := congrArg (fun result => result.2.2) (Option.some.inj hsame)
    refine ⟨rx, ?_⟩
    rw [observe, rxPostsTo_self, consumesTo_self, List.append_nil, List.drop_zero]
    exact h
  | cons r rest =>
    have hne : s.waiting ≠ [] := hwaiting ▸ List.cons_ne_nil r rest
    obtain ⟨elem, rx', helem, rfl, hone, hcases⟩ := h.receive_cases hne hreceive
    rcases hcases with ⟨hlong, -, ⟨desc', rfl⟩, hposted⟩ | ⟨-, rfl, hnone⟩
    · have hlt := hentry elem helem hne hlong
      have hdescs : (rx.descs.set elem.id.toNat desc').length = queueSize := by
        rw [List.length_set]
        exact h.descs
      have hring : (rx.avail.post queueSize elem.id.toNat).ring.length = queueSize := by
        rw [VirtqAvail.post, List.length_set]
        exact h.ring
      rw [observe, hone, hposted, hwaiting]
      exact ⟨_, h.consume hwaiting hdescs hring (Nat.le_refl 1) (by simpa using hlt)⟩
    · rw [observe, hone, hnone, hwaiting]
      exact ⟨_, h.consume hwaiting h.descs h.ring (Nat.zero_le 1) (by simp)⟩

/-! ## Careful calls -/

theorem Kept.kept_of_careful (h : Kept size s rx) (hcareful : s.Careful size op)
    (hexec : exec size s op = some s') : ∃ rx', Kept size s' rx' := by
  cases op with
  | receive buffer =>
    refine h.receive (fun elem helem hne _ => ?_) hexec
    obtain ⟨r, rest, hwaiting⟩ := List.exists_cons_of_ne_nil hne
    obtain ⟨rx₁, elem₁, hrx₁, helem₁, -, -, hentry⟩ := hcareful r rest hwaiting
    obtain rfl := Option.some.inj (h.queue.symm.trans hrx₁)
    obtain rfl := Option.some.inj (helem.symm.trans helem₁)
    rw [hentry]
    exact h.waiting r (hwaiting ▸ List.mem_cons_self)
  | complete i data len =>
    obtain ⟨desc, hi, rfl⟩ := Option.map_eq_some_iff.mp hexec
    exact h.complete data len hi

/-- What is consumed is available again. -/
theorem Kept.whole_of_careful (h : Kept size s rx) (hwhole : s.Whole size)
    (hcareful : s.Careful size op) (hexec : exec size s op = some s') : s'.Whole size := by
  rw [Whole] at hwhole
  cases op with
  | receive buffer =>
    obtain ⟨result, buffer', dev, hreceive, hposts⟩ := h.reposts_iff.mpr hcareful
    rw [exec, hreceive] at hexec
    obtain rfl := Option.some.inj hexec
    simp only [Whole, observe, hposts, List.length_append, List.length_map, List.length_take,
      List.length_drop]
    omega
  | complete i data len =>
    obtain ⟨desc, hi, rfl⟩ := Option.map_eq_some_iff.mp hexec
    obtain ⟨hlt, -⟩ := List.getElem?_eq_some_iff.mp hi
    simp only [Whole, List.length_append, List.length_singleton, List.length_eraseIdx_of_lt hlt]
    omega

theorem kept_reachable {addr : Nat → UInt64}
    (hboot : setupVirtqueue size addr true = some (some rx))
    (hs : ((system size rx tx).restrict (Careful size)).Reachable s) :
    (∃ rx', Kept size s rx') ∧ s.Whole size := by
  refine TransitionSystem.Invariant.of_reachable
    (P := fun s => (∃ rx', Kept size s rx') ∧ s.Whole size) ⟨?_, ?_⟩ hs
  · rintro s rfl
    refine ⟨⟨rx, kept_boot hboot tx⟩, ?_⟩
    rw [Whole, available_boot hboot, List.length_range]
    rfl
  · rintro s op s' ⟨⟨rx', h⟩, hwhole⟩ ⟨hstep, hcareful⟩
    exact ⟨h.kept_of_careful hcareful hstep, h.whole_of_careful hwhole hcareful hstep⟩

/-! ## A queue of `QUEUE_SIZE` entries -/

/-- The driver reads the oldest return. -/
theorem Kept.nextUsed_eq (h : Kept queueSize s rx) {r : Return} {rest : List Return}
    (hwaiting : s.waiting = r :: rest) :
    rx.nextUsed = some ⟨UInt32.ofNat r.desc, r.len⟩ ∧ (UInt32.ofNat r.desc).toNat = r.desc ∧
      r.desc < queueSize := by
  have hr : r.desc < queueSize := h.waiting r (hwaiting ▸ List.mem_cons_self)
  refine ⟨h.slots rfl 0 r (by rw [hwaiting]; rfl), ?_, hr⟩
  rw [UInt32.toNat_ofNat', Nat.mod_eq_of_lt (hr.trans (by decide))]

/-- The device finds what is posted. -/
theorem Kept.entry_eq (h : Kept queueSize s rx) {desc : Nat} (hdesc : desc < queueSize) :
    (rx.avail.post queueSize desc).entry queueSize rx.avail.idx.toNat = desc :=
  VirtqAvail.entry_post (by decide) h.ring (hdesc.trans (by decide))

theorem Kept.careful_iff (h : Kept queueSize s rx) :
    s.Careful queueSize (.receive buffer) ↔ s.Regular buffer := by
  refine forall_congr' fun r => forall_congr' fun rest => forall_congr' fun hwaiting => ?_
  obtain ⟨hread, hid, hr⟩ := h.nextUsed_eq hwaiting
  obtain ⟨buf, hbuf⟩ : ∃ buf, rx.buffers[r.desc]? = some buf :=
    ⟨_, List.getElem?_eq_getElem (by rw [h.buffers]; exact hr)⟩
  have hlen : buf.length = packetBufSize := h.packetBuf buf (List.mem_of_getElem? hbuf)
  constructor
  · rintro ⟨rx₁, elem, hrx₁, helem, hlong, ⟨-, buf₁, hbuf₁, hfits⟩, -⟩
    obtain rfl := Option.some.inj (h.queue.symm.trans hrx₁)
    obtain rfl := Option.some.inj (hread.symm.trans helem)
    rw [hid] at hbuf₁
    obtain rfl := Option.some.inj (hbuf.symm.trans hbuf₁)
    exact ⟨hlong, hlen ▸ hfits⟩
  · rintro ⟨hlong, hfits⟩
    refine ⟨rx, _, h.queue, hread, hlong, ⟨?_, buf, ?_, hlen ▸ hfits⟩, ?_⟩
    · rw [hid, h.descs]
      exact hr
    · rw [hid]
      exact hbuf
    · rw [hid]
      exact h.entry_eq hr

/-- In any run, careful or not, the rings are kept: descriptors may be lost, but never become
more. -/
theorem kept_reachable_queueSize {addr : Nat → UInt64}
    (hboot : setupVirtqueue queueSize addr true = some (some rx))
    (hs : (system queueSize rx tx).Reachable s) : ∃ rx', Kept queueSize s rx' := by
  refine TransitionSystem.Invariant.of_reachable (P := fun s => ∃ rx', Kept queueSize s rx')
    ⟨?_, ?_⟩ hs
  · rintro s rfl
    exact ⟨rx, kept_boot hboot tx⟩
  · rintro s op s' ⟨rx', h⟩ hstep
    cases op with
    | complete i data len =>
      have hcareful : s.Careful queueSize (.complete i data len) := trivial
      exact h.kept_of_careful hcareful hstep
    | receive buffer =>
      refine h.receive (fun elem helem hne _ => ?_) hstep
      obtain ⟨r, rest, hwaiting⟩ := List.exists_cons_of_ne_nil hne
      obtain ⟨hread, hid, hr⟩ := h.nextUsed_eq hwaiting
      obtain rfl := Option.some.inj (hread.symm.trans helem)
      rw [hid, h.entry_eq hr]
      exact hr

/-- The device can return any descriptor first. -/
theorem exists_first_return {addr : Nat → UInt64}
    (hboot : setupVirtqueue queueSize addr true = some (some rx)) (tx : Option Virtqueue) {i : Nat}
    (hi : i < queueSize) (len : UInt32) :
    ∃ s, ((system queueSize rx tx).restrict (Careful queueSize)).Reachable s ∧
      s.waiting = [⟨i, len⟩] ∧ s.available = (List.range queueSize).eraseIdx i := by
  have hinit : ((system queueSize rx tx).restrict (Careful queueSize)).Reachable
      (boot queueSize rx tx) := .init rfl
  have havailable : (boot queueSize rx tx).available[i]? = some i := by
    rw [available_boot hboot, List.getElem?_range hi]
  have hexec : exec queueSize (boot queueSize rx tx) (.complete i [] len) = some
      { device := (boot queueSize rx tx).device.completeRx queueSize i [] len
        available := (boot queueSize rx tx).available.eraseIdx i
        waiting := [⟨i, len⟩] } := by
    rw [exec, havailable]
    rfl
  refine ⟨_, hinit.step ⟨hexec, trivial⟩, rfl, ?_⟩
  rw [available_boot hboot]

end RxState

/-- **Consumed descriptors.**  With a receive queue of any size that the driver can set up, in any
order of calls and of returned descriptors, as long as every call is careful:

* the descriptors that the device may fill and those that wait to be consumed make up the queue, and
  the indices tell how many wait;
* a call posts the descriptor that it consumes, exactly when it is careful itself;
* with `QUEUE_SIZE` entries, this means that the oldest packet is longer than a header, and that no
  more is copied than its buffer holds. -/
theorem receive_reposts {size : Nat} {addr : Nat → UInt64} {rx : Virtqueue} (tx : Option Virtqueue)
    (hboot : setupVirtqueue size addr true = some (some rx)) :
    ∀ s, ((RxState.system size rx tx).restrict (RxState.Careful size)).Reachable s →
      s.available.length + s.waiting.length = size ∧
      (∃ q, s.device.rxQueue = some q ∧ q.behind = s.waiting.length) ∧
      (∀ buffer, s.Reposts size buffer ↔ s.Careful size (.receive buffer)) ∧
      (size = queueSize → ∀ buffer, s.Reposts size buffer ↔ s.Regular buffer) := by
  intro s hs
  obtain ⟨⟨q, h⟩, hwhole⟩ := RxState.kept_reachable hboot hs
  have htotal := h.total
  have hsize := h.size_le
  rw [queueSize] at hsize
  refine ⟨hwhole, ⟨q, h.queue, ?_⟩, fun buffer => h.reposts_iff, ?_⟩
  · rw [Virtqueue.behind, h.index, UInt16.add_comm, UInt16.add_sub_cancel, UInt16.toNat_ofNat',
      Nat.mod_eq_of_lt (by omega)]
  · rintro rfl buffer
    exact h.reposts_iff.trans h.careful_iff

/-- A packet of 60 bytes in descriptor 7: the descriptor is posted again. -/
theorem receive_reposts_packet :
    ∃ rx s, setupVirtqueue queueSize UInt64.ofNat true = some (some rx) ∧
      ((RxState.system queueSize rx none).restrict (RxState.Careful queueSize)).Reachable s ∧
      s.waiting = [⟨7, 60⟩] ∧ s.available.length = 255 ∧ s.Reposts queueSize [0] := by
  obtain ⟨rx, hboot⟩ : ∃ rx, setupVirtqueue queueSize UInt64.ofNat true = some (some rx) :=
    ⟨_, rfl⟩
  obtain ⟨s, hreach, hwaiting, -⟩ :=
    RxState.exists_first_return hboot none (by decide : 7 < queueSize) 60
  obtain ⟨htotal, -, -, hregular⟩ := receive_reposts none hboot s hreach
  have hregular₀ : s.Regular [0] := by
    intro r rest hcons
    obtain ⟨rfl, -⟩ := List.cons.inj (hwaiting.symm.trans hcons)
    decide
  rw [hwaiting] at htotal
  exact ⟨rx, s, hboot, hreach, hwaiting, Nat.add_right_cancel htotal,
    (hregular rfl [0]).mpr hregular₀⟩

/-- The device returns descriptor 0 with a length of ten bytes: the call consumes the entry and
posts nothing, and the descriptor is neither available nor waiting. -/
theorem receive_leaks :
    ∃ rx s s', setupVirtqueue queueSize UInt64.ofNat true = some (some rx) ∧
      (RxState.system queueSize rx none).Reachable s ∧ s.waiting = [⟨0, 10⟩] ∧
      RxState.exec queueSize s (.receive [0]) = some s' ∧ s'.waiting = [] ∧
      0 ∉ s'.available ∧ s'.available.length = 255 := by
  obtain ⟨rx, hboot⟩ : ∃ rx, setupVirtqueue queueSize UInt64.ofNat true = some (some rx) :=
    ⟨_, rfl⟩
  obtain ⟨s, hreach, hwaiting, havailable⟩ :=
    RxState.exists_first_return hboot none (by decide : 0 < queueSize) 10
  obtain ⟨⟨q, h⟩, -⟩ := RxState.kept_reachable hboot hreach
  have hread : q.nextUsed = some ⟨0, 10⟩ := h.slots rfl 0 ⟨0, 10⟩ (by rw [hwaiting]; rfl)
  have hne : s.waiting ≠ [] := hwaiting ▸ List.cons_ne_nil _ _
  have hholds : headerSize < (10 : UInt32).toNat → q.Holds ⟨0, 10⟩ [0] := fun hlong =>
    absurd hlong (by decide)
  obtain ⟨result, buffer', dev, hreceive⟩ := h.exists_receive hne hread hholds
  obtain ⟨elem, q', helem, -, hone, hcases⟩ := h.receive_cases hne hreceive
  obtain rfl := Option.some.inj (hread.symm.trans helem)
  rcases hcases with ⟨hlong, -⟩ | ⟨-, -, hnone⟩
  · exact absurd hlong (by decide)
  · have hexec : RxState.exec queueSize s (.receive [0]) = some (s.observe queueSize dev) := by
      rw [RxState.exec, hreceive]
      rfl
    have havailable' : (s.observe queueSize dev).available = (List.range queueSize).eraseIdx 0 := by
      rw [RxState.observe, hnone, List.append_nil, havailable]
    refine ⟨rx, s, _, hboot, hreach.of_restrict, hwaiting, hexec, ?_, ?_, ?_⟩
    · rw [RxState.observe, hone, hwaiting]
      rfl
    · rw [havailable']
      decide +kernel
    · rw [havailable', List.eraseIdx_zero, List.length_tail, List.length_range]
      rfl

end VirtioNet

end OxideOS
