import OxideOS.Lib.TransitionSystem
import OxideOS.Net.VirtioNet

/-!
# Packets in flight

The driver and the device share the transmit queue.  Calls of `transmit` come in any order with
steps of the device, which returns any of the descriptors that have been posted to it and that it
has not returned yet.  A device that has not agreed to use descriptors in order may return them out
of order.

The free descriptors are counted right, and a packet is posted exactly when the call succeeds.  But
the descriptor that a packet goes into is the one after the last, whichever the device has returned.
It is overwritten in flight when the device still has the packet from one round before: never with a
device that works in order, and otherwise as soon as the ring is full and a later packet is returned
first.

## Main definitions

* `VirtioNet.TxState`, `VirtioNet.TxState.system`: the device with what is in flight, and its steps
* `VirtioNet.TxState.Spares`: the next packet goes into no descriptor that is in flight
* `VirtioNet.TxState.Careful`: the packet from one round before is not in flight
* `VirtioNet.TxState.Kept`: what holds after every step

## Main results

* `VirtioNet.TxState.kept_step`: the counters agree with what was posted and returned
* `VirtioNet.transmit_spares_in_flight`: when packets in flight are spared
* `VirtioNet.transmit_overwrites_in_flight`: a packet in flight is overwritten
-/

namespace OxideOS

namespace VirtioNet

open Virtio

/-- A packet that was posted: its number, counted from the start, and its descriptor. -/
structure Post where
  number : Nat
  desc : Nat
deriving DecidableEq

/-- The device, how many descriptors were posted and how many reclaimed, and the posts that the
device has not returned. -/
structure TxState where
  device : VirtioNetDevice
  posted : Nat
  reclaimed : Nat
  inFlight : List Post
deriving DecidableEq

inductive TxOp
  | transmit (data : List UInt8)
  | complete (i len : Nat)
deriving DecidableEq

namespace VirtioNetDevice

/-- The descriptors that are posted between two states of the device. -/
def postsTo (dev dev' : VirtioNetDevice) : List Nat :=
  match dev.txQueue, dev'.txQueue with
  | some tx, some tx' => tx.avail.posts queueSize tx'.avail
  | _, _ => []

/-- The descriptors that are reclaimed between two states of the device. -/
def reclaimsTo (dev dev' : VirtioNetDevice) : Nat :=
  match dev.txQueue, dev'.txQueue with
  | some tx, some tx' => (tx'.lastUsedIdx - tx.lastUsedIdx).toNat
  | _, _ => 0

def txBuffer (dev : VirtioNetDevice) (i : Nat) : Option (List UInt8) :=
  dev.txQueue.bind (·.buffers[i]?)

def txDesc (dev : VirtioNetDevice) (i : Nat) : Option VirtqDesc :=
  dev.txQueue.bind (·.descs[i]?)

/-- The device returns a descriptor of the transmit queue. -/
def completeTx (dev : VirtioNetDevice) (size desc len : Nat) : VirtioNetDevice :=
  { dev with
    txQueue := dev.txQueue.map fun tx => { tx with used := tx.used.complete size desc len } }

end VirtioNetDevice

namespace TxState

/-- What is seen of a call of the driver. -/
def observe (s : TxState) (dev : VirtioNetDevice) : TxState where
  device := dev
  posted := s.posted + (s.device.postsTo dev).length
  reclaimed := s.reclaimed + s.device.reclaimsTo dev
  inFlight := s.inFlight ++ ((s.device.postsTo dev).zipIdx s.posted).map fun x => ⟨x.2, x.1⟩

/-- A step of the driver, or of the device: it returns one of the posts in flight. -/
def exec (size : Nat) (s : TxState) : TxOp → Option TxState
  | .transmit data => (s.device.transmit data).map fun result => s.observe result.2
  | .complete i len => s.inFlight[i]?.map fun post =>
      { s with
        device := s.device.completeTx size post.desc len
        inFlight := s.inFlight.eraseIdx i }

/-- The device after `init`. -/
def boot (rx : Option Virtqueue) (tx : Virtqueue) : TxState := ⟨⟨rx, some tx, true⟩, 0, 0, []⟩

def system (size : Nat) (rx : Option Virtqueue) (tx : Virtqueue) : TransitionSystem TxState TxOp :=
  .ofPartial (boot rx tx) (exec size)

/-- The descriptor that a transmission writes, if there is room. -/
def writes (s : TxState) : Option Nat := s.device.txQueue.bind Virtqueue.writesTo

/-- The next packet goes into no descriptor that is in flight. -/
def Spares (s : TxState) : Prop := ∀ post ∈ s.inFlight, s.writes ≠ some post.desc

/-- When there is room for a packet, the one from one round before is not in flight. -/
def Careful (s : TxState) : TxOp → Prop
  | .transmit _ => s.writes ≠ none → ∀ post ∈ s.inFlight, post.number + queueSize ≠ s.posted
  | .complete _ _ => True

/-- The device returns the oldest post. -/
def InOrder (_ : TxState) : TxOp → Prop
  | .transmit _ => True
  | .complete i _ => i = 0

/-! ## The counters -/

/-- What the driver counts is what was posted and returned. -/
structure Kept (size : Nat) (s : TxState) (tx : Virtqueue) : Prop where
  online : s.device.initialized = true
  queue : s.device.txQueue = some tx
  size_le : size ≤ queueSize
  descs : tx.descs.length = queueSize
  ring : tx.avail.ring.length = queueSize
  buffers : tx.buffers.length = size
  packetBuf : ∀ buf ∈ tx.buffers, buf.length = packetBufSize
  free : tx.numFree + s.posted = size + s.reclaimed
  head : tx.freeHead = s.posted % queueSize
  seen : tx.lastUsedIdx = UInt16.ofNat s.reclaimed
  used : tx.used.idx = UInt16.ofNat (s.posted - s.inFlight.length)
  returned : s.reclaimed + s.inFlight.length ≤ s.posted
  inFlight : ∀ post ∈ s.inFlight, post.number < s.posted ∧ post.desc = post.number % queueSize

variable {size : Nat} {rx : Option Virtqueue} {s s' : TxState} {tx tx' : Virtqueue}
  {data : List UInt8} {op : TxOp}

theorem kept_boot {addr : Nat → UInt64} (h : setupVirtqueue size addr false = some (some tx)) :
    Kept size (boot rx tx) tx := by
  have hpacketBuf : ∀ buf ∈ tx.buffers, buf.length = packetBufSize :=
    fun buf hbuf => length_of_mem_buffers h hbuf
  obtain ⟨hle, hdescs, havail, hused, hbuffers, hfree, hhead, hlast⟩ := setupVirtqueue_eq_some h
  refine ⟨rfl, rfl, hle, hdescs, ?_, ?_, hpacketBuf, ?_, hhead, hlast, ?_, Nat.le_refl 0, ?_⟩
  · rw [havail, if_neg Bool.false_ne_true, VirtqAvail.zeroed, List.length_replicate]
  · rw [hbuffers, List.length_replicate]
  · rw [hfree, if_neg Bool.false_ne_true]
    rfl
  · rw [hused]
    rfl
  · exact fun post hpost => absurd hpost List.not_mem_nil

/-- The posts that the driver has not seen returned fit into the queue. -/
theorem Kept.behind_eq (h : Kept size s tx) :
    tx.behind = s.posted - s.inFlight.length - s.reclaimed := by
  have hfree := h.free
  have hreturned := h.returned
  have hsize : size ≤ 256 := h.size_le
  rw [Virtqueue.behind, h.used, h.seen, toNat_ofNat_sub_ofNat (by omega) (by omega)]

/-- The state when the driver has looked for free descriptors. -/
def caughtUp (s : TxState) (tx : Virtqueue) : TxState :=
  { s with
    device := { s.device with txQueue := some tx.ready }
    reclaimed := s.reclaimed + (tx.ready.lastUsedIdx - tx.lastUsedIdx).toNat }

theorem Kept.caughtUp (h : Kept size s tx) : Kept size (s.caughtUp tx) tx.ready := by
  rcases tx.ready_cases with ⟨-, hready⟩ | ⟨hfull, hready⟩
  · have hsame : s.caughtUp tx = { s with device := { s.device with txQueue := some tx } } := by
      rw [TxState.caughtUp, hready, UInt16.sub_self]
      rfl
    rw [hsame, hready]
    exact ⟨h.online, rfl, h.size_le, h.descs, h.ring, h.buffers, h.packetBuf, h.free, h.head,
      h.seen, h.used, h.returned, h.inFlight⟩
  · have hbehind := h.behind_eq
    have hreturned := h.returned
    have hfree := h.free
    have hcaught : s.caughtUp tx =
        { s with
          device := { s.device with txQueue := some tx.ready }
          reclaimed := s.posted - s.inFlight.length } := by
      have hsum : s.reclaimed + (tx.used.idx - tx.lastUsedIdx).toNat =
          s.posted - s.inFlight.length := by
        rw [Virtqueue.behind] at hbehind
        omega
      rw [TxState.caughtUp, hready, hsum]
    rw [hcaught, hready]
    refine ⟨h.online, rfl, h.size_le, h.descs, h.ring, h.buffers, h.packetBuf, ?_, h.head,
      h.used, h.used, ?_, h.inFlight⟩
    · show tx.behind + s.posted = size + (s.posted - s.inFlight.length)
      omega
    · show s.posted - s.inFlight.length + s.inFlight.length ≤ s.posted
      omega

/-- The state when a packet has been posted. -/
def withPost (s : TxState) (tx : Virtqueue) : TxState :=
  { s with
    device := { s.device with txQueue := some tx }
    posted := s.posted + 1
    inFlight := s.inFlight ++ [⟨s.posted, s.posted % queueSize⟩] }

theorem Kept.withPost (h : Kept size s tx) (hroom : tx.numFree ≠ 0)
    (hpost : tx.postPacket data = some tx') : Kept size (s.withPost tx') tx' := by
  obtain ⟨buf, desc, desc', hbuf, hlen, -, rfl⟩ := Virtqueue.postPacket_eq_some hpost
  have hfree := h.free
  have hreturned := h.returned
  refine ⟨h.online, rfl, h.size_le, ?_, ?_, ?_, ?_, ?_, ?_, h.seen, ?_, ?_, ?_⟩
  · rw [List.length_set]
    exact h.descs
  · rw [VirtqAvail.post, List.length_set]
    exact h.ring
  · rw [List.length_set]
    exact h.buffers
  · intro buf' hmem
    rcases List.mem_or_eq_of_mem_set hmem with hmem | rfl
    · exact h.packetBuf buf' hmem
    · rw [Virtqueue.length_fillBuffer hlen]
      exact h.packetBuf buf (List.mem_of_getElem? hbuf)
  · show tx.numFree - 1 + (s.posted + 1) = size + s.reclaimed
    omega
  · show (tx.freeHead + 1) % queueSize = (s.posted + 1) % queueSize
    rw [h.head, Nat.mod_add_mod]
  · have hcount : s.posted + 1 - (s.inFlight.length + 1) = s.posted - s.inFlight.length :=
      Nat.add_sub_add_right ..
    show tx.used.idx = UInt16.ofNat (s.posted + 1 - (s.inFlight ++ [_]).length)
    rw [List.length_append, List.length_singleton, hcount]
    exact h.used
  · show s.reclaimed + (s.inFlight ++ [_]).length ≤ s.posted + 1
    rw [List.length_append, List.length_singleton]
    omega
  · intro post hmem
    rcases List.mem_append.mp hmem with hmem | hmem
    · exact ⟨Nat.lt_succ_of_lt (h.inFlight post hmem).1, (h.inFlight post hmem).2⟩
    · obtain rfl := List.mem_singleton.mp hmem
      exact ⟨Nat.lt_succ_self _, rfl⟩

/-! ## One step -/

theorem observe_ready (s : TxState) (htx : s.device.txQueue = some tx) :
    s.observe { s.device with txQueue := some tx.ready } = s.caughtUp tx := by
  obtain ⟨_, _, hready⟩ := tx.ready_eq
  have hposts : s.device.postsTo { s.device with txQueue := some tx.ready } = [] := by
    simp only [VirtioNetDevice.postsTo, htx, hready]
    exact VirtqAvail.posts_self
  simp only [observe, hposts, VirtioNetDevice.reclaimsTo, htx, caughtUp, List.length_nil,
    Nat.add_zero, List.zipIdx_nil, List.map_nil, List.append_nil]

theorem Kept.postsTo_eq (h : Kept size s tx) (hpost : tx.ready.postPacket data = some tx') :
    s.device.postsTo { s.device with txQueue := some tx' } = [s.posted % queueSize] := by
  obtain ⟨_, _, hready⟩ := tx.ready_eq
  obtain ⟨buf, desc, desc', -, -, -, rfl⟩ := Virtqueue.postPacket_eq_some hpost
  have hlt : s.posted % queueSize < 2 ^ 16 :=
    Nat.lt_trans (Nat.mod_lt _ (by decide)) (by decide : queueSize < 2 ^ 16)
  simp only [VirtioNetDevice.postsTo, h.queue, hready, h.head]
  exact VirtqAvail.posts_post (by decide) h.ring hlt

theorem Kept.observe_post (h : Kept size s tx) (hpost : tx.ready.postPacket data = some tx') :
    s.observe { s.device with txQueue := some tx' } = (s.caughtUp tx).withPost tx' := by
  have hposts := h.postsTo_eq hpost
  obtain ⟨buf, desc, desc', -, -, -, rfl⟩ := Virtqueue.postPacket_eq_some hpost
  simp only [observe, hposts, VirtioNetDevice.reclaimsTo, h.queue, TxState.caughtUp,
    TxState.withPost, List.length_singleton, List.zipIdx_singleton, List.map_singleton]

/-- **What a transmission does** to the state. -/
theorem Kept.transmit_cases (h : Kept size s tx) {result : Except String Unit}
    {dev : VirtioNetDevice} (htransmit : s.device.transmit data = some (result, dev)) :
    (s.writes = none ∧ result = .error "TX queue full" ∧ s.device.postsTo dev = [] ∧
        s.observe dev = s.caughtUp tx) ∨
      (s.writes = some (s.posted % queueSize) ∧ result = .ok () ∧
        s.device.postsTo dev = [s.posted % queueSize] ∧
        ∃ tx', tx.ready.numFree ≠ 0 ∧ tx.ready.postPacket data = some tx' ∧
          s.observe dev = (s.caughtUp tx).withPost tx') := by
  obtain ⟨tx', hqueue, rfl⟩ :=
    (VirtioNetDevice.transmit_eq_some h.online h.queue).mp htransmit
  have hwrites : s.writes = tx.writesTo := by rw [writes, h.queue, Option.bind_some]
  rw [hwrites, ← h.head]
  rcases Virtqueue.transmit_cases hqueue with ⟨hnone, hresult, rfl⟩ | ⟨hsome, hresult, hpost⟩
  · refine .inl ⟨hnone, hresult, ?_, observe_ready s h.queue⟩
    obtain ⟨_, _, hready⟩ := tx.ready_eq
    simp only [VirtioNetDevice.postsTo, h.queue, hready]
    exact VirtqAvail.posts_self
  · refine .inr ⟨hsome, hresult, h.head ▸ h.postsTo_eq hpost, tx', ?_, hpost, h.observe_post hpost⟩
    intro hfull
    rw [Virtqueue.writesTo, if_pos hfull] at hsome
    cases hsome

/-- A post that the device returns is no longer in flight. -/
theorem Kept.complete (h : Kept size s tx) {i : Nat} {post : Post} (len : Nat)
    (hi : s.inFlight[i]? = some post) :
    ∃ tx', Kept size
      { s with
        device := s.device.completeTx size post.desc len
        inFlight := s.inFlight.eraseIdx i } tx' := by
  obtain ⟨hlt, -⟩ := List.getElem?_eq_some_iff.mp hi
  have hreturned := h.returned
  have hlength : (s.inFlight.eraseIdx i).length = s.inFlight.length - 1 :=
    List.length_eraseIdx_of_lt hlt
  refine ⟨{ tx with used := tx.used.complete size post.desc len }, h.online, ?_, h.size_le,
    h.descs, h.ring, h.buffers, h.packetBuf, h.free, h.head, h.seen, ?_, ?_, ?_⟩
  · simp only [VirtioNetDevice.completeTx, h.queue, Option.map_some]
  · have hcount : s.posted - (s.inFlight.length - 1) = s.posted - s.inFlight.length + 1 := by
      omega
    rw [VirtqUsed.complete, h.used, ofNat_add_one, hlength, hcount]
  · show s.reclaimed + (s.inFlight.eraseIdx i).length ≤ s.posted
    omega
  · exact fun post' hmem => h.inFlight post' (List.mem_of_mem_eraseIdx hmem)

/-- The counters agree with what was posted and returned, after every step. -/
theorem kept_step (h : Kept size s tx) (hstep : exec size s op = some s') :
    ∃ tx', Kept size s' tx' := by
  cases op with
  | transmit data =>
    obtain ⟨⟨result, dev⟩, htransmit, rfl⟩ := Option.map_eq_some_iff.mp hstep
    rcases h.transmit_cases htransmit with
      ⟨-, -, -, hobserve⟩ | ⟨-, -, -, tx', hroom, hpost, hobserve⟩
    · exact ⟨tx.ready, hobserve ▸ h.caughtUp⟩
    · exact ⟨tx', hobserve ▸ h.caughtUp.withPost hroom hpost⟩
  | complete i len =>
    obtain ⟨post, hi, rfl⟩ := Option.map_eq_some_iff.mp hstep
    exact h.complete len hi

/-- So they agree in every reachable state. -/
theorem kept_reachable {addr : Nat → UInt64}
    (hboot : setupVirtqueue size addr false = some (some tx))
    (hs : (system size rx tx).Reachable s) : ∃ tx', Kept size s tx' := by
  refine TransitionSystem.Invariant.of_reachable (P := fun s => ∃ tx', Kept size s tx') ⟨?_, ?_⟩ hs
  · rintro s rfl
    exact ⟨tx, kept_boot hboot⟩
  · rintro s op s' ⟨tx, h⟩ hstep
    exact kept_step h hstep

/-! ## Packets in flight -/

/-- Every packet in flight was posted less than a round ago. -/
def Recent (s : TxState) : Prop := ∀ post ∈ s.inFlight, s.posted ≤ post.number + queueSize

theorem recent_step (h : Kept size s tx) (hrecent : s.Recent) (hcareful : s.Careful op)
    (hstep : exec size s op = some s') : s'.Recent := by
  cases op with
  | transmit data =>
    obtain ⟨⟨result, dev⟩, htransmit, rfl⟩ := Option.map_eq_some_iff.mp hstep
    rcases h.transmit_cases htransmit with
      ⟨-, -, -, hobserve⟩ | ⟨hwrites, -, -, tx', -, -, hobserve⟩
    · rw [hobserve]
      exact hrecent
    · rw [hobserve]
      intro post hmem
      show s.posted + 1 ≤ post.number + queueSize
      rcases List.mem_append.mp hmem with hmem | hmem
      · have hle := hrecent post hmem
        have hne := hcareful (by rw [hwrites]; exact Option.some_ne_none _) post hmem
        omega
      · obtain rfl := List.mem_singleton.mp hmem
        exact Nat.add_le_add_left (by decide : 1 ≤ queueSize) s.posted
  | complete i len =>
    obtain ⟨post, -, rfl⟩ := Option.map_eq_some_iff.mp hstep
    exact fun post' hmem => hrecent post' (List.mem_of_mem_eraseIdx hmem)

/-- Two posts of one descriptor that are at most a round apart are just one round apart. -/
theorem add_queueSize_eq {m n : Nat} (hlt : m < n) (hle : n ≤ m + queueSize)
    (hmod : n % queueSize = m % queueSize) : m + queueSize = n := by
  rw [queueSize] at *
  omega

theorem spares_iff (h : Kept size s tx) (hrecent : s.Recent) {result : Except String Unit}
    {dev : VirtioNetDevice} (htransmit : s.device.transmit data = some (result, dev)) :
    s.Spares ↔ s.Careful (.transmit data) := by
  rcases h.transmit_cases htransmit with ⟨hwrites, -⟩ | ⟨hwrites, -⟩
  · rw [Spares, Careful, hwrites]
    exact ⟨fun _ hne => absurd rfl hne,
      fun _ _ _ hnone => absurd hnone.symm (Option.some_ne_none _)⟩
  · rw [Spares, Careful, hwrites]
    constructor
    · intro hspares _ post hmem heq
      apply hspares post hmem
      rw [(h.inFlight post hmem).2, ← heq, Nat.add_mod_right]
    · intro hcareful post hmem heq
      obtain ⟨hlt, hdesc⟩ := h.inFlight post hmem
      apply hcareful (Option.some_ne_none _) post hmem
      exact add_queueSize_eq hlt (hrecent post hmem) (hdesc ▸ Option.some.inj heq)

/-- A packet that is spared stays as it was posted. -/
theorem unchanged_of_spares (h : Kept size s tx) (hspares : s.Spares) {result : Except String Unit}
    {dev : VirtioNetDevice} (htransmit : s.device.transmit data = some (result, dev)) :
    ∀ post ∈ s.inFlight, dev.txBuffer post.desc = s.device.txBuffer post.desc ∧
      dev.txDesc post.desc = s.device.txDesc post.desc := by
  intro post hmem
  have hwrites := hspares post hmem
  obtain ⟨tx', hqueue, rfl⟩ :=
    (VirtioNetDevice.transmit_eq_some h.online h.queue).mp htransmit
  rw [writes, h.queue, Option.bind_some] at hwrites
  simp only [VirtioNetDevice.txBuffer, VirtioNetDevice.txDesc, h.queue, Option.bind_some]
  exact Virtqueue.transmit_frame hqueue hwrites

/-! ## A device that works in order -/

/-- The packets in flight are the last ones. -/
def Queued (s : TxState) : Prop :=
  s.inFlight.map (·.number) = List.range' (s.posted - s.inFlight.length) s.inFlight.length

theorem queued_step (h : Kept size s tx) (hqueued : s.Queued) (horder : s.InOrder op)
    (hstep : exec size s op = some s') : s'.Queued := by
  have hreturned := h.returned
  cases op with
  | transmit data =>
    obtain ⟨⟨result, dev⟩, htransmit, rfl⟩ := Option.map_eq_some_iff.mp hstep
    rcases h.transmit_cases htransmit with ⟨-, -, -, hobserve⟩ | ⟨-, -, -, tx', -, -, hobserve⟩
    · rw [hobserve]
      exact hqueued
    · rw [hobserve]
      have hfirst : s.posted + 1 - (s.inFlight.length + 1) = s.posted - s.inFlight.length :=
        Nat.add_sub_add_right ..
      have hlast : s.posted - s.inFlight.length + s.inFlight.length = s.posted := by omega
      show (s.inFlight ++ [(⟨s.posted, _⟩ : Post)]).map (·.number) =
        List.range' (s.posted + 1 - (s.inFlight ++ [_]).length) (s.inFlight ++ [_]).length
      rw [List.map_append, hqueued, List.length_append, List.length_singleton, hfirst,
        List.range'_concat, Nat.one_mul, hlast]
      rfl
  | complete i len =>
    obtain rfl : i = 0 := horder
    obtain ⟨post, hpost, rfl⟩ := Option.map_eq_some_iff.mp hstep
    obtain ⟨rest, hrest⟩ : ∃ rest, s.inFlight = post :: rest := by
      cases hflight : s.inFlight with
      | nil =>
        rw [hflight] at hpost
        cases hpost
      | cons p rest =>
        rw [hflight] at hpost
        exact ⟨rest, by rw [Option.some.inj hpost]⟩
    rw [Queued, hrest] at hqueued
    rw [hrest] at hreturned
    have hnext : s.posted - rest.length = s.posted - (rest.length + 1) + 1 := by
      rw [List.length_cons] at hreturned
      omega
    show ((s.inFlight.eraseIdx 0).map (·.number)) =
      List.range' (s.posted - (s.inFlight.eraseIdx 0).length) (s.inFlight.eraseIdx 0).length
    rw [hrest, List.eraseIdx_zero, List.tail_cons, hnext]
    exact (List.cons.inj hqueued).2

/-- When there is room, the device has returned the packet from one round before. -/
theorem Queued.careful (h : Kept size s tx) (hqueued : s.Queued) (op : TxOp) : s.Careful op := by
  cases op with
  | complete i len => trivial
  | transmit data =>
    intro hroom post hmem heq
    have hnumber : post.number ∈ s.inFlight.map (·.number) := List.mem_map_of_mem hmem
    rw [hqueued, List.mem_range'_1] at hnumber
    have hfree : tx.ready.numFree + s.posted = size + (s.caughtUp tx).reclaimed := h.caughtUp.free
    have hreturned : (s.caughtUp tx).reclaimed + s.inFlight.length ≤ s.posted :=
      h.caughtUp.returned
    have hsize := h.size_le
    have hfull : tx.ready.numFree = 0 := by omega
    apply hroom
    rw [writes, h.queue, Option.bind_some, Virtqueue.writesTo, if_pos hfull]

theorem queued_reachable {addr : Nat → UInt64}
    (hboot : setupVirtqueue size addr false = some (some tx))
    (hs : ((system size rx tx).restrict InOrder).Reachable s) :
    ((system size rx tx).restrict Careful).Reachable s ∧ (∃ tx', Kept size s tx') ∧ s.Queued := by
  refine TransitionSystem.Invariant.of_reachable
    (P := fun s => ((system size rx tx).restrict Careful).Reachable s ∧ (∃ tx', Kept size s tx') ∧
      s.Queued) ⟨?_, ?_⟩ hs
  · rintro s rfl
    exact ⟨.init rfl, ⟨tx, kept_boot hboot⟩, rfl⟩
  · rintro s op s' ⟨hreach, ⟨tx', h⟩, hqueued⟩ ⟨hstep, horder⟩
    exact ⟨hreach.step ⟨hstep, hqueued.careful h op⟩, kept_step h hstep,
      queued_step h hqueued horder hstep⟩

theorem recent_reachable {addr : Nat → UInt64}
    (hboot : setupVirtqueue size addr false = some (some tx))
    (hs : ((system size rx tx).restrict Careful).Reachable s) :
    (∃ tx', Kept size s tx') ∧ s.Recent := by
  refine TransitionSystem.Invariant.of_reachable
    (P := fun s => (∃ tx', Kept size s tx') ∧ s.Recent) ⟨?_, ?_⟩ hs
  · rintro s rfl
    exact ⟨⟨tx, kept_boot hboot⟩, by rintro post ⟨⟩⟩
  · rintro s op s' ⟨⟨tx', h⟩, hrecent⟩ ⟨hstep, hcareful⟩
    exact ⟨kept_step h hstep, recent_step h hrecent hcareful hstep⟩

/-! ## A full ring -/

/-- A transmission with room for the packet, on a descriptor that has a buffer. -/
theorem Kept.exec_transmit (h : Kept size s tx) (hroom : tx.ready.numFree ≠ 0)
    (hbuffer : s.posted % queueSize < size) (data : List UInt8) :
    ∃ tx', tx.ready.postPacket data = some tx' ∧
      s.device.transmit data = some (.ok (), { s.device with txQueue := some tx' }) ∧
      exec size s (.transmit data) = some ((s.caughtUp tx).withPost tx') := by
  have hready := h.caughtUp
  have hhead : tx.ready.freeHead = s.posted % queueSize := hready.head
  have hbuf : tx.ready.freeHead < tx.ready.buffers.length := by
    rw [hhead, hready.buffers]
    exact hbuffer
  have hdesc : tx.ready.freeHead < tx.ready.descs.length := by
    rw [hhead, hready.descs]
    exact Nat.mod_lt _ (by decide)
  have hlen : headerSize ≤ (tx.ready.buffers.get ⟨_, hbuf⟩).length := by
    rw [hready.packetBuf _ (List.get_mem ..)]
    decide
  obtain ⟨tx', hpost⟩ := Option.isSome_iff_exists.mp
    (Virtqueue.postPacket_isSome (List.getElem?_eq_getElem hbuf) hlen hdesc data)
  have hqueue : tx.transmit data = some (.ok (), tx') := by
    rw [Virtqueue.transmit, if_neg hroom, hpost]
    rfl
  have htransmit := (VirtioNetDevice.transmit_eq_some h.online h.queue).mpr ⟨tx', hqueue, rfl⟩
  refine ⟨tx', hpost, htransmit, ?_⟩
  rw [exec, htransmit, Option.map_some, h.observe_post hpost]

/-- A packet is found in the buffer of its descriptor. -/
theorem Kept.first_byte (h : Kept size s tx) {byte : UInt8}
    (hpost : tx.postPacket (byte :: data) = some tx') :
    ∃ buf, tx'.buffers[s.posted % queueSize]? = some buf ∧ buf[headerSize]? = some byte := by
  obtain ⟨buf, desc, desc', hbuf, -, -, rfl⟩ := Virtqueue.postPacket_eq_some hpost
  obtain ⟨hlt, -⟩ := List.getElem?_eq_some_iff.mp hbuf
  have hlen : headerSize < buf.length := by
    rw [h.packetBuf buf (List.mem_of_getElem? hbuf)]
    decide
  refine ⟨_, ?_, Virtqueue.getElem?_fillBuffer_headerSize hlen byte data⟩
  rw [← h.head]
  exact List.getElem?_set_self hlt

/-- Packets can be sent until the ring is full, with nothing returned. -/
theorem exists_filled (rx : Option Virtqueue) {addr : Nat → UInt64}
    (hboot : setupVirtqueue size addr false = some (some tx)) (byte : UInt8) {n : Nat}
    (hn : n ≤ size) :
    ∃ s tx', TransitionSystem.Run ((system size rx tx).restrict InOrder) (boot rx tx)
        (List.replicate n (.transmit [byte])) s ∧
      Kept size s tx' ∧ s.posted = n ∧ s.reclaimed = 0 ∧
      s.inFlight = (List.range n).map (fun k => ⟨k, k⟩) ∧
      ∀ i < n, ∃ buf, tx'.buffers[i]? = some buf ∧ buf[headerSize]? = some byte := by
  induction n with
  | zero =>
    refine ⟨boot rx tx, tx, .nil _, kept_boot hboot, rfl, rfl, rfl, ?_⟩
    exact fun i hi => absurd hi (Nat.not_lt_zero i)
  | succ n ih =>
    obtain ⟨s, q, hrun, h, hposted, hreclaimed, hflight, hbuffers⟩ := ih (Nat.le_of_succ_le hn)
    have hfree := h.free
    have hsize := h.size_le
    have hroom : q.numFree ≠ 0 := by omega
    have hready : q.ready = q := if_neg hroom
    have hroom' : q.ready.numFree ≠ 0 := by
      rw [hready]
      exact hroom
    have hmod : n % queueSize = n := Nat.mod_eq_of_lt (by omega)
    obtain ⟨q', hpost, -, hexec⟩ := h.exec_transmit hroom' (by rw [hposted]; omega) [byte]
    have hkept := h.caughtUp.withPost hroom' hpost
    have hcaught : (s.caughtUp q).reclaimed = 0 := by
      show s.reclaimed + (q.ready.lastUsedIdx - q.lastUsedIdx).toNat = 0
      rw [hready, UInt16.sub_self, hreclaimed]
      rfl
    refine ⟨_, q', ?_, hkept, congrArg (· + 1) hposted, hcaught, ?_, ?_⟩
    · rw [List.replicate_succ']
      exact hrun.snoc ⟨hexec, trivial⟩
    · show s.inFlight ++ [⟨s.posted, s.posted % queueSize⟩] = _
      rw [hflight, hposted, hmod, List.range_succ, List.map_append]
      rfl
    · intro i hi
      rcases Nat.lt_succ_iff_lt_or_eq.mp hi with hlt | rfl
      · rw [hready] at hpost
        obtain ⟨buf, desc, desc', -, -, -, rfl⟩ := Virtqueue.postPacket_eq_some hpost
        have hhead : q.freeHead = n := by rw [h.head, hposted, hmod]
        show ∃ buf', (q.buffers.set q.freeHead _)[i]? = some buf' ∧ _
        rw [List.getElem?_set_ne (by omega)]
        exact hbuffers i hlt
      · have hfirst := h.caughtUp.first_byte hpost
        rwa [show (s.caughtUp q).posted = i from hposted, hmod] at hfirst

/-- When the ring is full and the device returns one packet, whichever, there is room: the next
packet goes into the first descriptor. -/
theorem exists_returned (rx : Option Virtqueue) {addr : Nat → UInt64}
    (hboot : setupVirtqueue queueSize addr false = some (some tx)) (byte : UInt8) {i : Nat}
    (hi : i < queueSize) :
    ∃ s s' tx', ((system queueSize rx tx).restrict InOrder).Reachable s ∧
      exec queueSize s (.complete i 0) = some s' ∧ Kept queueSize s' tx' ∧
      tx'.ready.numFree ≠ 0 ∧ s'.posted = queueSize ∧
      s'.inFlight = ((List.range queueSize).map fun k => ⟨k, k⟩).eraseIdx i ∧
      ∃ buf, s'.device.txBuffer 0 = some buf ∧ buf[headerSize]? = some byte := by
  obtain ⟨s, q, hrun, h, hposted, hreclaimed, hflight, hbuffers⟩ :=
    exists_filled rx hboot byte (Nat.le_refl queueSize)
  have hpost : s.inFlight[i]? = some ⟨i, i⟩ := by
    rw [hflight, List.getElem?_map, List.getElem?_range hi, Option.map_some]
  obtain ⟨q', h'⟩ := h.complete 0 hpost
  obtain ⟨buf, hbuf, hbyte⟩ := hbuffers 0 (by decide)
  refine ⟨s, _, q', ⟨boot rx tx, _, rfl, hrun⟩, by rw [exec, hpost, Option.map_some], h', ?_,
    hposted, by rw [hflight], buf, ?_, hbyte⟩
  · have hlength : s.inFlight.length = queueSize := by
      rw [hflight, List.length_map, List.length_range]
    have hfree : q'.numFree + s.posted = queueSize + s.reclaimed := h'.free
    have hbehind : q'.behind = s.posted - (s.inFlight.eraseIdx i).length - s.reclaimed :=
      h'.behind_eq
    rw [List.length_eraseIdx_of_lt (by omega)] at hbehind
    have hfull : q'.numFree = 0 := by omega
    rw [Virtqueue.ready, if_pos hfull, Virtqueue.reclaimTx_eq]
    show q'.numFree + q'.behind ≠ 0
    omega
  · simp only [VirtioNetDevice.txBuffer, VirtioNetDevice.completeTx, h.queue, Option.map_some,
      Option.bind_some]
    exact hbuf

end TxState

/-- **Packets in flight.**  With a transmit queue of any size that the driver can set up, in any
order of calls and of returned descriptors:

* the free descriptors and the ones posted and not reclaimed make up the queue;
* a call that succeeds posts exactly one descriptor, and one that fails posts none;
* as long as each packet is sent when the one from a round before has been returned, all packets in
  flight are spared, and exactly then: they stay as they were posted;
* this is always so with a device that returns the descriptors in order. -/
theorem transmit_spares_in_flight {size : Nat} {addr : Nat → UInt64} {tx : Virtqueue}
    (rx : Option Virtqueue) (hboot : setupVirtqueue size addr false = some (some tx)) :
    (∀ s, (TxState.system size rx tx).Reachable s →
      (∃ q, s.device.txQueue = some q ∧ s.reclaimed ≤ s.posted ∧
        q.numFree + (s.posted - s.reclaimed) = size) ∧
      ∀ data result dev, s.device.transmit data = some (result, dev) →
        (result = .ok () ∧ ∃ i, s.device.postsTo dev = [i]) ∨
          (result = .error "TX queue full" ∧ s.device.postsTo dev = [])) ∧
    (∀ s, ((TxState.system size rx tx).restrict TxState.Careful).Reachable s →
      ∀ data result dev, s.device.transmit data = some (result, dev) →
        (s.Spares ↔ s.Careful (.transmit data)) ∧
        (s.Spares → ∀ post ∈ s.inFlight,
          dev.txBuffer post.desc = s.device.txBuffer post.desc ∧
            dev.txDesc post.desc = s.device.txDesc post.desc)) ∧
    ∀ s, ((TxState.system size rx tx).restrict TxState.InOrder).Reachable s →
      ((TxState.system size rx tx).restrict TxState.Careful).Reachable s ∧
        ∀ op, s.Careful op := by
  refine ⟨?_, ?_, ?_⟩
  · intro s hs
    obtain ⟨q, h⟩ := TxState.kept_reachable hboot hs
    have hfree := h.free
    have hreturned := h.returned
    refine ⟨⟨q, h.queue, by omega, by omega⟩, ?_⟩
    intro data result dev htransmit
    rcases h.transmit_cases htransmit with ⟨-, hresult, hposts, -⟩ | ⟨-, hresult, hposts, -⟩
    · exact .inr ⟨hresult, hposts⟩
    · exact .inl ⟨hresult, _, hposts⟩
  · intro s hs data result dev htransmit
    obtain ⟨⟨q, h⟩, hrecent⟩ := TxState.recent_reachable hboot hs
    exact ⟨TxState.spares_iff h hrecent htransmit,
      fun hspares => TxState.unchanged_of_spares h hspares htransmit⟩
  · intro s hs
    obtain ⟨hcareful, ⟨q, h⟩, hqueued⟩ := TxState.queued_reachable hboot hs
    exact ⟨hcareful, hqueued.careful h⟩

/-- A packet for every descriptor, the oldest of them returned, and so room for one more. -/
theorem transmit_spares_in_flight_full :
    ∃ tx s, setupVirtqueue queueSize UInt64.ofNat false = some (some tx) ∧
      ((TxState.system queueSize none tx).restrict TxState.InOrder).Reachable s ∧
      s.posted = queueSize ∧ s.inFlight.length = 255 ∧
      ∃ dev, s.device.transmit [2] = some (.ok (), dev) ∧ s.Spares := by
  obtain ⟨tx, hboot⟩ : ∃ tx, setupVirtqueue queueSize UInt64.ofNat false = some (some tx) :=
    ⟨_, rfl⟩
  obtain ⟨s₀, s, q, hreach, hexec, h, hroom, hposted, hflight, -⟩ :=
    TxState.exists_returned none hboot 1 (by decide : 0 < queueSize)
  obtain ⟨q', -, htransmit, -⟩ := h.exec_transmit hroom (by rw [hposted]; decide) [2]
  have horder : ((TxState.system queueSize none tx).restrict TxState.InOrder).Reachable s :=
    hreach.step ⟨hexec, rfl⟩
  obtain ⟨-, hcareful, hinOrder⟩ := transmit_spares_in_flight none hboot
  refine ⟨tx, s, hboot, horder, hposted, ?_, _, htransmit, ?_⟩
  · rw [hflight, List.eraseIdx_zero, List.length_tail, List.length_map, List.length_range]
    rfl
  · obtain ⟨hreachable, hall⟩ := hinOrder s horder
    exact (hcareful s hreachable _ _ _ htransmit).1.mpr (hall _)

/-- The ring is full and the device returns the sixth packet first: the next packet is written over
the first one, which the device still has. -/
theorem transmit_overwrites_in_flight :
    ∃ tx s dev, setupVirtqueue queueSize UInt64.ofNat false = some (some tx) ∧
      (TxState.system queueSize none tx).Reachable s ∧
      s.device.transmit [2] = some (.ok (), dev) ∧ ⟨0, 0⟩ ∈ s.inFlight ∧
      dev.txBuffer 0 ≠ s.device.txBuffer 0 := by
  obtain ⟨tx, hboot⟩ : ∃ tx, setupVirtqueue queueSize UInt64.ofNat false = some (some tx) :=
    ⟨_, rfl⟩
  obtain ⟨s₀, s, q, hreach, hexec, h, hroom, hposted, hflight, buf, hbuf, hone⟩ :=
    TxState.exists_returned none hboot 1 (by decide : 5 < queueSize)
  obtain ⟨q', hpost, htransmit, -⟩ := h.exec_transmit hroom (by rw [hposted]; decide) [2]
  obtain ⟨buf', hbuf', htwo⟩ := h.caughtUp.first_byte hpost
  rw [show (s.caughtUp q).posted = queueSize from hposted, Nat.mod_self] at hbuf'
  refine ⟨tx, s, _, hboot, hreach.of_restrict.step hexec, htransmit, ?_, ?_⟩
  · rw [hflight]
    decide +kernel
  · intro hsame
    have hafter : VirtioNetDevice.txBuffer { s.device with txQueue := some q' } 0 = some buf' :=
      hbuf'
    rw [hafter, hbuf] at hsame
    rw [Option.some.inj hsame, hone] at htwo
    cases htwo

end VirtioNet

end OxideOS
