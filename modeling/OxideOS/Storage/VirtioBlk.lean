import OxideOS.Storage.Device
import OxideOS.Virtio.Queue

/-!
# Block requests

`do_block_io` of `storage/virtio_blk.rs`, and the device on the other side of the virtqueue.  All
requests share one buffer for the header, the data and the status.  The driver fills it, posts a
chain of three descriptors, and spins until the index of the used ring differs from the one it has
seen; then it looks at the status, and takes the data of a read.

The device takes a chain and reads its header, and then at any later time moves the data, writes the
status and returns the chain.  It works on any number of chains at a time.  The driver takes its
steps one by one in between.

An initialised device has its queue.  The model has the device agree with the driver on the layout
of the rings.

## Main definitions

* `VirtioBlk.RequestQueue`: the rings and the shared buffer
* `VirtioBlk.Phase`: where the driver is in a call of `read_block` or `write_block`
* `VirtioBlk.DiskState`, `VirtioBlk.DiskState.driverStep`, `VirtioBlk.DiskState.deviceStep`

## Main results

* `VirtioBlk.RequestQueue.isRequest_postChain`: the device finds the chain that was posted
-/

namespace OxideOS

namespace VirtioBlk

open Virtio

/-- `QUEUE_SIZE`. -/
def queueSize : Nat := 128

/-- `VRING_DESC_F_NEXT`. -/
def vringDescFNext : UInt16 := 1

/-- `VRING_DESC_F_WRITE`. -/
def vringDescFWrite : UInt16 := 2

/-- `VIRTIO_BLK_S_OK`. -/
def statusOk : UInt8 := 0

/-- How often the driver looks before it gives up. -/
def spinLimit : Nat := 100000000

structure ReqHeader where
  reqType : BlkReqType
  sector : Nat
deriving DecidableEq

/-- The buffer of a request: the header at offset 0, the data at 16, and the status at 528. -/
structure DmaBuffer where
  header : ReqHeader
  data : Block
  status : UInt8
deriving DecidableEq

structure RequestQueue where
  descs : List VirtqDesc
  avail : VirtqAvail
  used : VirtqUsed
  nextDesc : Nat
  lastUsedIdx : UInt16
  dmaPhys : UInt64
  dma : DmaBuffer
deriving DecidableEq

/-- A call of `read_block` or `write_block`, with the buffer of the caller. -/
structure Request where
  reqType : BlkReqType
  sector : Nat
  buffer : Block
deriving DecidableEq

def Request.header (req : Request) : ReqHeader := ⟨req.reqType, req.sector⟩

namespace RequestQueue

/-- The queue in zeroed memory. -/
def zeroed (dmaPhys : UInt64) : RequestQueue where
  descs := List.replicate queueSize ⟨0, 0, 0, 0⟩
  avail := .zeroed queueSize
  used := .zeroed queueSize
  nextDesc := 0
  lastUsedIdx := 0
  dmaPhys := dmaPhys
  dma := ⟨⟨.read, 0⟩, Block.zero, 0⟩

/-- Fill the shared buffer for a request: only a write brings data. -/
def prepare (q : RequestQueue) (req : Request) : RequestQueue :=
  { q with
    dma :=
      { header := req.header
        data := if req.reqType = .write then req.buffer else q.dma.data
        -- no status of a device, so that its answer shows
        status := 0xFF } }

/-- Write the chain of three descriptors, and post its head. -/
def postChain (q : RequestQueue) (reqType : BlkReqType) : RequestQueue :=
  let d0 := q.nextDesc % queueSize
  let d1 := (q.nextDesc + 1) % queueSize
  let d2 := (q.nextDesc + 2) % queueSize
  -- the data of a read is for the device to write
  let dataFlags := if reqType = .read then vringDescFNext ||| vringDescFWrite else vringDescFNext
  { q with
    descs := ((q.descs.set d0 ⟨q.dmaPhys, 16, vringDescFNext, UInt16.ofNat d1⟩).set d1
      ⟨q.dmaPhys + 16, 512, dataFlags, UInt16.ofNat d2⟩).set d2
      ⟨q.dmaPhys + 16 + 512, 1, vringDescFWrite, 0⟩
    nextDesc := (q.nextDesc + 3) % queueSize
    avail := q.avail.post queueSize d0 }

/-- The chain that starts at a descriptor, as the device follows it. -/
def chainAt (q : RequestQueue) (head : Nat) : List VirtqDesc :=
  match q.descs[head]? with
  | none => []
  | some desc₀ =>
    match q.descs[desc₀.next.toNat]? with
    | none => [desc₀]
    | some desc₁ => desc₀ :: desc₁ :: q.descs[desc₁.next.toNat]?.toList

/-- The device finds the header, the data and the status of the shared buffer in a chain. -/
def IsRequest (q : RequestQueue) (head : Nat) : Prop :=
  (q.chainAt head).map (·.addr) = [q.dmaPhys, q.dmaPhys + 16, q.dmaPhys + 16 + 512]

instance (q : RequestQueue) (head : Nat) : Decidable (q.IsRequest head) :=
  inferInstanceAs (Decidable (_ = _))

/-- The arrays have the length that the driver takes them to have. -/
structure Sized (q : RequestQueue) : Prop where
  descs : q.descs.length = queueSize
  ring : q.avail.ring.length = queueSize

variable {q : RequestQueue}

theorem sized_zeroed (dmaPhys : UInt64) : (zeroed dmaPhys).Sized :=
  ⟨List.length_replicate, List.length_replicate⟩

theorem Sized.postChain (h : q.Sized) (reqType : BlkReqType) : (q.postChain reqType).Sized := by
  constructor
  · simp only [RequestQueue.postChain, List.length_set, h.descs]
  · simp only [RequestQueue.postChain, VirtqAvail.post, List.length_set, h.ring]

/-- The device finds the chain that was posted. -/
theorem isRequest_postChain (h : q.Sized) (reqType : BlkReqType) :
    (q.postChain reqType).IsRequest
      ((q.postChain reqType).avail.entry queueSize q.avail.idx.toNat) := by
  have hlt : ∀ k, (q.nextDesc + k) % queueSize < queueSize := fun k => Nat.mod_lt _ (by decide)
  have hnext : ∀ k, (UInt16.ofNat ((q.nextDesc + k) % queueSize)).toNat =
      (q.nextDesc + k) % queueSize := by
    intro k
    rw [UInt16.toNat_ofNat']
    exact Nat.mod_eq_of_lt (Nat.lt_trans (hlt k) (by decide))
  have hentry : (q.postChain reqType).avail.entry queueSize q.avail.idx.toNat =
      q.nextDesc % queueSize :=
    VirtqAvail.entry_post (by decide) h.ring (Nat.lt_trans (hlt 0) (by decide))
  have h01 : q.nextDesc % queueSize ≠ (q.nextDesc + 1) % queueSize := by
    rw [queueSize]
    omega
  have h02 : q.nextDesc % queueSize ≠ (q.nextDesc + 2) % queueSize := by
    rw [queueSize]
    omega
  have h12 : (q.nextDesc + 1) % queueSize ≠ (q.nextDesc + 2) % queueSize := by
    rw [queueSize]
    omega
  have h0 := hlt 0
  have h1 := hlt 1
  have h2 := hlt 2
  rw [Nat.add_zero] at h0
  have hdescs := h.descs
  rw [hentry, IsRequest, chainAt]
  simp [RequestQueue.postChain, h01.symm, h02.symm, h12.symm, h0, h1, h2, hdescs, hnext]

end RequestQueue

/-- Where the driver is in a call. -/
inductive Phase
  | idle
  /-- The buffer is filled. -/
  | posting (req : Request)
  /-- The chain is posted, and the driver has looked so many times. -/
  | spinning (req : Request) (spins : Nat)
  /-- The driver has seen the used index move. -/
  | completing (req : Request)
  | returned (req : Request) (result : Except String Block)
deriving DecidableEq

/-- Whether a call is going on. -/
def Phase.busy : Phase → Bool
  | .idle | .returned _ _ => false
  | _ => true

/-- How far the device is with a request. -/
inductive Stage
  | started
  | moved
  | answered
deriving DecidableEq

/-- A chain that the device has taken, with the header that it has read. -/
structure Taken where
  head : Nat
  header : ReqHeader
  stage : Stage
deriving DecidableEq

/-- The driver, the device, and the states of the disk since the call began, the last one first. -/
structure DiskState where
  dev : VirtioBlkDevice RequestQueue
  phase : Phase
  disk : Nat → Block
  lastAvailIdx : UInt16
  taken : List Taken
  during : List (Nat → Block)

inductive DriverOp
  | call (req : Request)
  | post
  | poll
  | finish
deriving DecidableEq

inductive DeviceOp
  | take
  | move (k : Nat)
  | answer (k : Nat) (status : UInt8)
  | publish (k len : Nat)
deriving DecidableEq

inductive DiskOp
  | driver (op : DriverOp)
  | device (op : DeviceOp)
deriving DecidableEq

namespace DiskState

def withQueue (s : DiskState) (q : RequestQueue) : DiskState :=
  { s with dev := { s.dev with queue := q } }

/-- `read_block` and `write_block`, up to the shared buffer. -/
def call (s : DiskState) (req : Request) : DiskState :=
  if s.dev.initialized = false then
    { s with phase := .returned req (.error "not initialized"), during := [s.disk] }
  else if s.dev.capacityBlocks ≤ req.sector then
    { s with phase := .returned req (.error "block out of range"), during := [s.disk] }
  else
    { s.withQueue (s.dev.queue.prepare req) with phase := .posting req, during := [s.disk] }

def post (s : DiskState) (req : Request) : DiskState :=
  { s.withQueue (s.dev.queue.postChain req.reqType) with phase := .spinning req 0 }

/-- One round of the loop. -/
def poll (s : DiskState) (req : Request) (spins : Nat) : DiskState :=
  let q := s.dev.queue
  -- which chain was returned is not looked at
  if q.used.idx ≠ q.lastUsedIdx then
    { s.withQueue { q with lastUsedIdx := q.lastUsedIdx + 1 } with phase := .completing req }
  else if spinLimit < spins + 1 then
    { s with phase := .returned req (.error "virtio-blk: timeout waiting for I/O") }
  else { s with phase := .spinning req (spins + 1) }

/-- The end of the call: the status, and the data of a read. -/
def finish (s : DiskState) (req : Request) : DiskState :=
  let dma := s.dev.queue.dma
  if dma.status ≠ statusOk then
    { s with phase := .returned req (.error "virtio-blk: I/O error") }
  else
    -- a write leaves the buffer of the caller as it is
    { s with
      phase := .returned req (.ok (if req.reqType = .read then dma.data else req.buffer)) }

def driverStep (s : DiskState) : DriverOp → Option DiskState
  | .call req => if s.phase.busy then none else some (s.call req)
  | .post =>
    match s.phase with
    | .posting req => some (s.post req)
    | _ => none
  | .poll =>
    match s.phase with
    | .spinning req spins => some (s.poll req spins)
    | _ => none
  | .finish =>
    match s.phase with
    | .completing req => some (s.finish req)
    | _ => none

/-- The device takes the next chain from the available ring, and reads the header. -/
def take (s : DiskState) : Option DiskState :=
  let q := s.dev.queue
  let head := q.avail.entry queueSize s.lastAvailIdx.toNat
  if s.lastAvailIdx ≠ q.avail.idx ∧ q.IsRequest head then
    some
      { s with
        lastAvailIdx := s.lastAvailIdx + 1
        taken := s.taken ++ [⟨head, q.dma.header, .started⟩] }
  else none

/-- The data moves between the disk and the shared buffer, once for a chain. -/
def move (s : DiskState) (k : Nat) (t : Taken) : Option DiskState :=
  if t.stage = .started then
    let q := s.dev.queue
    let s := { s with taken := s.taken.set k { t with stage := .moved } }
    match t.header.reqType with
    | .read => some (s.withQueue { q with dma := { q.dma with data := s.disk t.header.sector } })
    | .write =>
      -- what the buffer holds now, which need not be what it held when the header was read
      let disk := Function.update s.disk t.header.sector q.dma.data
      some { s with disk := disk, during := if s.phase.busy then disk :: s.during else s.during }
  else none

/-- The device writes the status: that it is well only after the data has moved. -/
def answer (s : DiskState) (k : Nat) (t : Taken) (status : UInt8) : Option DiskState :=
  if t.stage = .moved ∨ (t.stage = .started ∧ status ≠ statusOk) then
    let q := s.dev.queue
    some { s.withQueue { q with dma := { q.dma with status := status } } with
      taken := s.taken.set k { t with stage := .answered } }
  else none

/-- The device returns the chain. -/
def publish (s : DiskState) (k : Nat) (t : Taken) (len : Nat) : Option DiskState :=
  if t.stage = .answered then
    let q := s.dev.queue
    some { s.withQueue { q with used := q.used.complete queueSize t.head len } with
      taken := s.taken.eraseIdx k }
  else none

def deviceStep (s : DiskState) : DeviceOp → Option DiskState
  | .take => s.take
  | .move k => s.taken[k]?.bind (s.move k)
  | .answer k status => s.taken[k]?.bind (s.answer k · status)
  | .publish k len => s.taken[k]?.bind (s.publish k · len)

def exec (s : DiskState) : DiskOp → Option DiskState
  | .driver op => s.driverStep op
  | .device op => s.deviceStep op

/-- The driver after `init`, and a disk. -/
def boot (dmaPhys : UInt64) (capacity : Nat) (disk : Nat → Block) : DiskState where
  dev := ⟨true, capacity, .zeroed dmaPhys⟩
  phase := .idle
  disk := disk
  lastAvailIdx := 0
  taken := []
  during := []

end DiskState

end VirtioBlk

end OxideOS
