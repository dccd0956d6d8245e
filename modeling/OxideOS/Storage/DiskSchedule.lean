import OxideOS.Lib.TransitionSystem
import OxideOS.Storage.VirtioBlk

/-!
# Late completions

The driver tells that its request is done by the used index alone.  As long as it waits for every
request, the device has at most one: then each call that succeeds has read what is on the disk, or
has written it.  When the driver gives up, the device still has the chain, and the next completion
that the driver sees is one of an older request.  From then on a call can return well with what
another request has left in the shared buffer, or before its own data is on the disk.

## Main definitions

* `VirtioBlk.DiskState.system`: the steps of the driver and the device, in any order
* `VirtioBlk.DiskState.Honest`: a call that has returned well has done what it says
* `VirtioBlk.DiskState.Careful`: the driver does not give up
* `VirtioBlk.DiskState.Trusted`: as long as the driver does not give up, all calls are honest
* `VirtioBlk.DiskState.Kept`: what the device has, in each phase of the driver

## Main results

* `VirtioBlk.DiskState.kept_step`: the device has the request that the driver waits for, or nothing
* `VirtioBlk.DiskState.Behind.not_trusted`: what can happen when it has another one
* `VirtioBlk.disk_calls_honest`: calls can be trusted just as long as the driver does not give up
-/

namespace OxideOS

namespace VirtioBlk

open Virtio

/-- Whether the driver gives up when it finds nothing now. -/
def Phase.lastSpin : Phase → Bool
  | .spinning _ spins => decide (spinLimit < spins + 1)
  | _ => false

namespace DiskState

def system (dmaPhys : UInt64) (capacity : Nat) (disk : Nat → Block) :
    TransitionSystem DiskState DiskOp :=
  .ofPartial (boot dmaPhys capacity disk) exec

/-- A read has returned what was on the disk at some time during the call, and a write has written
its data. -/
def Served (s : DiskState) (req : Request) (data : Block) : Prop :=
  match req.reqType with
  | .read => ∃ disk ∈ s.during, disk req.sector = data
  | .write => ∃ disk, s.during.head? = some disk ∧ disk req.sector = req.buffer

/-- A call that has returned well has done what it says. -/
def Honest (s : DiskState) : Prop :=
  ∀ req data, s.phase = .returned req (.ok data) → s.Served req data

/-- The driver looks for the last time, and the used index has not moved. -/
def GivesUp (s : DiskState) (op : DiskOp) : Prop :=
  op = .driver .poll ∧ s.phase.lastSpin = true ∧
    s.dev.queue.used.idx = s.dev.queue.lastUsedIdx

/-- The driver does not give up. -/
def Careful (s : DiskState) (op : DiskOp) : Prop := ¬s.GivesUp op

instance (s : DiskState) (op : DiskOp) : Decidable (s.Careful op) :=
  inferInstanceAs (Decidable (¬(_ ∧ _ ∧ _)))

/-- As long as the driver does not give up, all calls are honest. -/
def Trusted (dmaPhys : UInt64) (capacity : Nat) (disk : Nat → Block) (s : DiskState) : Prop :=
  ∀ ops t, ((system dmaPhys capacity disk).restrict Careful).Run s ops t → t.Honest

/-! ## One request at a time -/

/-- The device has no chain, and the driver has seen all that it has returned. -/
structure Quiet (s : DiskState) : Prop where
  taken : s.taken = []
  avail : s.lastAvailIdx = s.dev.queue.avail.idx
  used : s.dev.queue.used.idx = s.dev.queue.lastUsedIdx

/-- The data has moved as the request says. -/
def Delivered (s : DiskState) (req : Request) : Prop :=
  match req.reqType with
  | .read => s.disk req.sector = s.dev.queue.dma.data
  | .write => s.disk req.sector = req.buffer

/-- The shared buffer holds the request. -/
structure Prepared (s : DiskState) (req : Request) : Prop where
  header : s.dev.queue.dma.header = req.header
  data : req.reqType = .write → s.dev.queue.dma.data = req.buffer
  sector : req.sector < s.dev.capacityBlocks
  during : s.during.head? = some s.disk

/-- Where the one chain is that the driver waits for. -/
inductive Waits (s : DiskState) (req : Request) : Prop
  | posted (htaken : s.taken = []) (havail : s.lastAvailIdx + 1 = s.dev.queue.avail.idx)
      (hchain : s.dev.queue.IsRequest
        (s.dev.queue.avail.entry queueSize s.lastAvailIdx.toNat))
      (hused : s.dev.queue.used.idx = s.dev.queue.lastUsedIdx)
  | inDevice (t : Taken) (htaken : s.taken = [t]) (hheader : t.header = req.header)
      (havail : s.lastAvailIdx = s.dev.queue.avail.idx)
      (hused : s.dev.queue.used.idx = s.dev.queue.lastUsedIdx)
      (hmoved : t.stage = .moved → s.Delivered req)
      (hanswered : t.stage = .answered → s.dev.queue.dma.status = statusOk → s.Delivered req)
  | back (htaken : s.taken = []) (havail : s.lastAvailIdx = s.dev.queue.avail.idx)
      (hused : s.dev.queue.used.idx = s.dev.queue.lastUsedIdx + 1)
      (hdone : s.dev.queue.dma.status = statusOk → s.Delivered req)

/-- What the device has, in each phase of the driver. -/
def Holds (s : DiskState) : Phase → Prop
  | .idle => s.Quiet
  | .posting req => s.Quiet ∧ s.Prepared req
  | .spinning req _ => s.Waits req ∧ s.Prepared req
  | .completing req =>
    s.Quiet ∧ s.Prepared req ∧ (s.dev.queue.dma.status = statusOk → s.Delivered req)
  | .returned _ _ => s.Quiet ∧ s.Honest

structure Kept (s : DiskState) : Prop where
  initialized : s.dev.initialized = true
  sized : s.dev.queue.Sized
  holds : s.Holds s.phase

variable {s s' : DiskState} {req : Request} {op : DiskOp}

theorem kept_boot (dmaPhys : UInt64) (capacity : Nat) (disk : Nat → Block) :
    (boot dmaPhys capacity disk).Kept :=
  ⟨rfl, RequestQueue.sized_zeroed dmaPhys, rfl, rfl, rfl⟩

theorem Kept.honest (h : s.Kept) : s.Honest := by
  intro req data hphase
  have hholds := h.holds
  rw [hphase] at hholds
  exact hholds.2 req data hphase

/-- The device can do nothing when it has no chain. -/
theorem Quiet.deviceStep_eq_none (h : s.Quiet) (op : DeviceOp) : s.deviceStep op = none := by
  cases op with
  | take =>
    rw [deviceStep, take, if_neg]
    exact fun hcon => hcon.1 h.avail
  | move k => rw [deviceStep, h.taken, List.getElem?_nil, Option.bind_none]
  | answer k status => rw [deviceStep, h.taken, List.getElem?_nil, Option.bind_none]
  | publish k len => rw [deviceStep, h.taken, List.getElem?_nil, Option.bind_none]

/-- What a step of the device leaves alone. -/
structure Serves (s s' : DiskState) : Prop where
  phase : s'.phase = s.phase
  initialized : s'.dev.initialized = s.dev.initialized
  capacityBlocks : s'.dev.capacityBlocks = s.dev.capacityBlocks
  sized : s.dev.queue.Sized → s'.dev.queue.Sized

theorem serves_deviceStep {op : DeviceOp} (h : s.deviceStep op = some s') : s.Serves s' := by
  cases op with
  | take =>
    rw [deviceStep, take] at h
    split_ifs at h
    obtain rfl := Option.some.inj h
    exact ⟨rfl, rfl, rfl, id⟩
  | move k =>
    obtain ⟨t, -, h⟩ := Option.bind_eq_some_iff.mp h
    rw [move] at h
    split at h
    · split at h
      · obtain rfl := Option.some.inj h
        exact ⟨rfl, rfl, rfl, fun hs => ⟨hs.descs, hs.ring⟩⟩
      · obtain rfl := Option.some.inj h
        exact ⟨rfl, rfl, rfl, id⟩
    · cases h
  | answer k status =>
    obtain ⟨t, -, h⟩ := Option.bind_eq_some_iff.mp h
    rw [answer] at h
    split_ifs at h
    obtain rfl := Option.some.inj h
    exact ⟨rfl, rfl, rfl, fun hs => ⟨hs.descs, hs.ring⟩⟩
  | publish k len =>
    obtain ⟨t, -, h⟩ := Option.bind_eq_some_iff.mp h
    rw [publish] at h
    split_ifs at h
    obtain rfl := Option.some.inj h
    exact ⟨rfl, rfl, rfl, fun hs => ⟨hs.descs, hs.ring⟩⟩

theorem getElem?_singleton_eq_some {t t' : Taken} {k : Nat} (h : [t][k]? = some t') :
    k = 0 ∧ t' = t := by
  rw [List.getElem?_singleton] at h
  split_ifs at h with hk
  exact ⟨hk, (Option.some.inj h).symm⟩

theorem Waits.take (hw : s.Waits req) (hp : s.Prepared req) (h : s.take = some s') :
    s'.Waits req ∧ s'.Prepared req := by
  rw [DiskState.take] at h
  split_ifs at h with hnext
  obtain rfl := Option.some.inj h
  cases hw with
  | posted htaken havail _ hused =>
    refine ⟨.inDevice _ (by rw [htaken, List.nil_append]) hp.header havail hused ?_ ?_,
      ⟨hp.header, hp.data, hp.sector, hp.during⟩⟩
    · rintro ⟨⟩
    · rintro ⟨⟩
  | inDevice _ _ _ havail => exact absurd havail hnext.1
  | back _ havail => exact absurd havail hnext.1

/-- A chain that the device has is the one the driver waits for. -/
theorem Waits.of_taken (hw : s.Waits req) {k : Nat} {t : Taken} (ht : s.taken[k]? = some t) :
    k = 0 ∧ s.taken = [t] ∧ t.header = req.header ∧ s.lastAvailIdx = s.dev.queue.avail.idx ∧
      s.dev.queue.used.idx = s.dev.queue.lastUsedIdx ∧ (t.stage = .moved → s.Delivered req) ∧
      (t.stage = .answered → s.dev.queue.dma.status = statusOk → s.Delivered req) := by
  cases hw with
  | posted htaken => rw [htaken] at ht; cases ht
  | back htaken => rw [htaken] at ht; cases ht
  | inDevice t htaken hheader havail hused hmoved hanswered =>
    rw [htaken] at ht
    obtain ⟨rfl, rfl⟩ := getElem?_singleton_eq_some ht
    exact ⟨rfl, htaken, hheader, havail, hused, hmoved, hanswered⟩

theorem Waits.move (hw : s.Waits req) (hp : s.Prepared req) (hbusy : s.phase.busy = true) {k : Nat}
    {t : Taken} (ht : s.taken[k]? = some t) (h : s.move k t = some s') :
    s'.Waits req ∧ s'.Prepared req := by
  obtain ⟨rfl, htaken, hheader, havail, hused, -, -⟩ := hw.of_taken ht
  have hset : s.taken.set 0 { t with stage := .moved } = [{ t with stage := .moved }] := by
    rw [htaken]
    rfl
  rw [DiskState.move] at h
  split at h
  · split at h
    · next hread =>
      obtain rfl := Option.some.inj h
      have hreq : req.reqType = .read := by rw [← hread, hheader]; rfl
      refine ⟨.inDevice _ hset hheader havail hused (fun _ => ?_) ?_, hp.header, ?_, hp.sector,
        hp.during⟩
      · rw [Delivered, hreq]
        show s.disk req.sector = s.disk t.header.sector
        rw [hheader]
        rfl
      · rintro ⟨⟩
      · intro hwrite
        rw [hreq] at hwrite
        cases hwrite
    · next hwrite =>
      obtain rfl := Option.some.inj h
      have hreq : req.reqType = .write := by rw [← hwrite, hheader]; rfl
      refine ⟨.inDevice _ hset hheader havail hused (fun _ => ?_) ?_, hp.header, hp.data,
        hp.sector, ?_⟩
      · rw [Delivered, hreq]
        show Function.update s.disk t.header.sector _ req.sector = req.buffer
        rw [hheader, hp.data hreq]
        exact Function.update_self ..
      · rintro ⟨⟩
      · show (if s.phase.busy then _ else _ : List (Nat → Block)).head? = _
        rw [if_pos hbusy]
        rfl
  · cases h

theorem Waits.answer (hw : s.Waits req) (hp : s.Prepared req) {k : Nat} {t : Taken} {status : UInt8}
    (ht : s.taken[k]? = some t) (h : s.answer k t status = some s') :
    s'.Waits req ∧ s'.Prepared req := by
  obtain ⟨rfl, htaken, hheader, havail, hused, hmoved, -⟩ := hw.of_taken ht
  rw [DiskState.answer] at h
  split_ifs at h with hstage
  obtain rfl := Option.some.inj h
  refine ⟨.inDevice { t with stage := .answered } (by simp only [htaken, List.set_cons_zero])
    hheader havail hused ?_ ?_, hp.header, hp.data, hp.sector, hp.during⟩
  · rintro ⟨⟩
  · intro _ hok
    rcases hstage with hstage | ⟨-, hbad⟩
    · exact hmoved hstage
    · exact absurd hok hbad

theorem Waits.publish (hw : s.Waits req) (hp : s.Prepared req) {k len : Nat} {t : Taken}
    (ht : s.taken[k]? = some t) (h : s.publish k t len = some s') :
    s'.Waits req ∧ s'.Prepared req := by
  obtain ⟨rfl, htaken, hheader, havail, hused, -, hanswered⟩ := hw.of_taken ht
  rw [DiskState.publish] at h
  split_ifs at h with hstage
  obtain rfl := Option.some.inj h
  refine ⟨.back (by simp only [htaken, List.eraseIdx_cons_zero]) havail ?_ (hanswered hstage),
    hp.header, hp.data, hp.sector, hp.during⟩
  show s.dev.queue.used.idx + 1 = _
  rw [hused]
  rfl

theorem Waits.deviceStep (hw : s.Waits req) (hp : s.Prepared req) (hbusy : s.phase.busy = true)
    {op : DeviceOp} (h : s.deviceStep op = some s') : s'.Waits req ∧ s'.Prepared req := by
  cases op with
  | take => exact hw.take hp h
  | move k =>
    obtain ⟨t, ht, h⟩ := Option.bind_eq_some_iff.mp h
    exact hw.move hp hbusy ht h
  | answer k status =>
    obtain ⟨t, ht, h⟩ := Option.bind_eq_some_iff.mp h
    exact hw.answer hp ht h
  | publish k len =>
    obtain ⟨t, ht, h⟩ := Option.bind_eq_some_iff.mp h
    exact hw.publish hp ht h

/-- No step of the device breaks what holds in a phase. -/
theorem kept_deviceStep (h : s.Kept) {op : DeviceOp} (hstep : s.deviceStep op = some s') :
    s'.Kept := by
  have hserves := serves_deviceStep hstep
  have hholds := h.holds
  have hquiet : ¬s.Quiet := by
    intro hq
    rw [hq.deviceStep_eq_none] at hstep
    cases hstep
  refine ⟨hserves.initialized.trans h.initialized, hserves.sized h.sized, ?_⟩
  rw [hserves.phase]
  cases hphase : s.phase with
  | spinning req spins =>
    rw [hphase] at hholds
    exact hholds.1.deviceStep hholds.2 (by rw [hphase]; rfl) hstep
  | idle => rw [hphase] at hholds; exact absurd hholds hquiet
  | posting req => rw [hphase] at hholds; exact absurd hholds.1 hquiet
  | completing req => rw [hphase] at hholds; exact absurd hholds.1 hquiet
  | returned req result => rw [hphase] at hholds; exact absurd hholds.1 hquiet

/-! ## The driver -/

theorem Kept.quiet (h : s.Kept) (hidle : s.phase.busy = false) : s.Quiet := by
  have hholds := h.holds
  cases hphase : s.phase with
  | idle => rw [hphase] at hholds; exact hholds
  | returned req result => rw [hphase] at hholds; exact hholds.1
  | posting req => rw [hphase] at hidle; cases hidle
  | spinning req spins => rw [hphase] at hidle; cases hidle
  | completing req => rw [hphase] at hidle; cases hidle

theorem honest_of_error {message : String} (h : s.phase = .returned req (.error message)) :
    s.Honest := by
  intro req' data hok
  rw [h] at hok
  cases hok

theorem kept_call (h : s.Kept) (hidle : s.phase.busy = false) (req : Request) :
    (s.call req).Kept := by
  have hq := h.quiet hidle
  rw [call]
  split_ifs with hinit hrange
  · rw [h.initialized] at hinit
    cases hinit
  · exact ⟨h.initialized, h.sized, ⟨hq.taken, hq.avail, hq.used⟩, honest_of_error rfl⟩
  · refine ⟨h.initialized, ⟨h.sized.descs, h.sized.ring⟩, ⟨hq.taken, hq.avail, hq.used⟩, rfl, ?_,
      Nat.lt_of_not_le hrange, rfl⟩
    intro hwrite
    exact if_pos hwrite

theorem kept_post (h : s.Kept) (hphase : s.phase = .posting req) : (s.post req).Kept := by
  have hholds := h.holds
  rw [hphase] at hholds
  obtain ⟨hq, hp⟩ := hholds
  refine ⟨h.initialized, h.sized.postChain req.reqType, ?_, hp.header, hp.data, hp.sector,
    hp.during⟩
  refine .posted hq.taken ?_ ?_ hq.used
  · show s.lastAvailIdx + 1 = s.dev.queue.avail.idx + 1
    rw [hq.avail]
  · have hchain := RequestQueue.isRequest_postChain h.sized req.reqType
    rw [← hq.avail] at hchain
    exact hchain

theorem ne_add_one (i : UInt16) : i ≠ i + 1 := by
  intro h
  have hnat := congrArg UInt16.toNat h
  have hlt := i.toNat_lt
  rw [UInt16.toNat_add, UInt16.toNat_one] at hnat
  omega

/-- The used index has moved just when the chain is back. -/
theorem Waits.of_used_ne (hw : s.Waits req)
    (hne : s.dev.queue.used.idx ≠ s.dev.queue.lastUsedIdx) :
    s.taken = [] ∧ s.lastAvailIdx = s.dev.queue.avail.idx ∧
      s.dev.queue.used.idx = s.dev.queue.lastUsedIdx + 1 ∧
      (s.dev.queue.dma.status = statusOk → s.Delivered req) := by
  cases hw with
  | posted _ _ _ hused => exact absurd hused hne
  | inDevice _ _ _ _ hused => exact absurd hused hne
  | back htaken havail hused hdone => exact ⟨htaken, havail, hused, hdone⟩

theorem Waits.withPhase (hw : s.Waits req) (phase : Phase) :
    Waits { s with phase := phase } req := by
  cases hw with
  | posted htaken havail hchain hused => exact .posted htaken havail hchain hused
  | inDevice t htaken hheader havail hused hmoved hanswered =>
    exact .inDevice t htaken hheader havail hused hmoved hanswered
  | back htaken havail hused hdone => exact .back htaken havail hused hdone

theorem kept_poll {spins : Nat} (h : s.Kept) (hphase : s.phase = .spinning req spins)
    (hcareful : s.Careful (.driver .poll)) : (s.poll req spins).Kept := by
  have hholds := h.holds
  rw [hphase] at hholds
  obtain ⟨hw, hp⟩ := hholds
  rw [poll]
  split
  · next hused =>
    obtain ⟨htaken, havail, hback, hdone⟩ := hw.of_used_ne hused
    exact ⟨h.initialized, ⟨h.sized.descs, h.sized.ring⟩, ⟨htaken, havail, hback⟩,
      ⟨hp.header, hp.data, hp.sector, hp.during⟩, hdone⟩
  · next hused =>
    split
    · next hlimit =>
      have hlast : s.phase.lastSpin = true := by
        rw [hphase]
        exact decide_eq_true hlimit
      exact absurd ⟨rfl, hlast, not_not.mp hused⟩ hcareful
    · exact ⟨h.initialized, h.sized, hw.withPhase _, hp.header, hp.data, hp.sector, hp.during⟩

theorem kept_finish (h : s.Kept) (hphase : s.phase = .completing req) : (s.finish req).Kept := by
  have hholds := h.holds
  rw [hphase] at hholds
  obtain ⟨hq, hp, hdone⟩ := hholds
  rw [finish]
  split
  · exact ⟨h.initialized, h.sized, ⟨hq.taken, hq.avail, hq.used⟩, honest_of_error rfl⟩
  · next hok =>
    refine ⟨h.initialized, h.sized, ⟨hq.taken, hq.avail, hq.used⟩, ?_⟩
    rintro req' data ⟨⟩
    have hdelivered := hdone (not_not.mp hok)
    rw [Delivered] at hdelivered
    rw [Served]
    cases htype : req.reqType with
    | read =>
      rw [htype] at hdelivered
      rw [if_pos rfl]
      exact ⟨s.disk, List.mem_of_mem_head? hp.during, hdelivered⟩
    | write =>
      rw [htype] at hdelivered
      exact ⟨s.disk, hp.during, hdelivered⟩

/-- **One request at a time**: as long as the driver does not give up, the device has the request
that the driver waits for, or nothing. -/
theorem kept_step (h : s.Kept) (hcareful : s.Careful op) (hstep : s.exec op = some s') :
    s'.Kept := by
  cases op with
  | device op => exact kept_deviceStep h hstep
  | driver op =>
    cases op with
    | call req =>
      rw [exec, driverStep] at hstep
      split at hstep
      · cases hstep
      · next hidle =>
        obtain rfl := Option.some.inj hstep
        exact kept_call h (Bool.eq_false_iff.mpr hidle) req
    | post =>
      rw [exec, driverStep] at hstep
      split at hstep
      · next req hphase =>
        obtain rfl := Option.some.inj hstep
        exact kept_post h hphase
      · cases hstep
    | poll =>
      rw [exec, driverStep] at hstep
      split at hstep
      · next req spins hphase =>
        obtain rfl := Option.some.inj hstep
        exact kept_poll h hphase hcareful
      · cases hstep
    | finish =>
      rw [exec, driverStep] at hstep
      split at hstep
      · next req hphase =>
        obtain rfl := Option.some.inj hstep
        exact kept_finish h hphase
      · cases hstep

/-- Along careful runs every phase keeps what holds in it. -/
theorem kept_reachable {dmaPhys : UInt64} {capacity : Nat} {disk : Nat → Block}
    (h : ((system dmaPhys capacity disk).restrict Careful).Reachable s) : s.Kept := by
  refine TransitionSystem.Invariant.of_reachable ⟨?_, ?_⟩ h
  · rintro s rfl
    exact kept_boot dmaPhys capacity disk
  · intro s op s' hkept hstep
    exact kept_step hkept hstep.2 hstep.1

/-! ## When the driver has given up -/

/-- No call is going on, and the driver has seen all that was returned. -/
structure AtRest (s : DiskState) : Prop where
  initialized : s.dev.initialized = true
  sized : s.dev.queue.Sized
  capacity : 0 < s.dev.capacityBlocks
  idle : s.phase.busy = false
  used : s.dev.queue.used.idx = s.dev.queue.lastUsedIdx

/-- But the device has a chain, or will take one. -/
inductive Behind (s : DiskState) : Prop
  | posted (htaken : s.taken = []) (havail : s.lastAvailIdx + 1 = s.dev.queue.avail.idx)
      (hchain : s.dev.queue.IsRequest
        (s.dev.queue.avail.entry queueSize s.lastAvailIdx.toNat))
  | inDevice (t : Taken) (htaken : s.taken = [t]) (havail : s.lastAvailIdx = s.dev.queue.avail.idx)

section Late

variable {dmaPhys : UInt64} {capacity : Nat} {disk : Nat → Block}

/-- A step that is not the driver giving up. -/
theorem careful_of_exec (h : s.exec op = some s') (hop : op ≠ .driver .poll) :
    ((system dmaPhys capacity disk).restrict Careful).Step s op s' :=
  ⟨h, fun hgives => hop hgives.1⟩

/-- The state in which the driver waits for a request that it has made at rest. -/
def asked (s : DiskState) (req : Request) : DiskState :=
  { s.withQueue ((s.dev.queue.prepare req).postChain req.reqType) with
    phase := .spinning req 0
    during := [s.disk] }

theorem AtRest.run_asked (h : s.AtRest) (hsector : req.sector < s.dev.capacityBlocks) :
    ((system dmaPhys capacity disk).restrict Careful).Run s
      [.driver (.call req), .driver .post] (s.asked req) := by
  have hcall : s.exec (.driver (.call req)) =
      some { s.withQueue (s.dev.queue.prepare req) with
        phase := .posting req, during := [s.disk] } := by
    rw [exec, driverStep, if_neg (by rw [h.idle]; decide), call,
      if_neg (by rw [h.initialized]; decide), if_neg (Nat.not_le.mpr hsector)]
  exact .cons (careful_of_exec hcall (by rintro ⟨⟩))
    (.cons (careful_of_exec rfl (by rintro ⟨⟩)) (.nil _))

/-- When the used index has moved, the driver takes it for its own request. -/
theorem run_poll_finish {spins : Nat} (hphase : s.phase = .spinning req spins)
    (hused : s.dev.queue.used.idx ≠ s.dev.queue.lastUsedIdx) :
    ((system dmaPhys capacity disk).restrict Careful).Run s [.driver .poll, .driver .finish]
      (finish { s.withQueue
          { s.dev.queue with lastUsedIdx := s.dev.queue.lastUsedIdx + 1 } with
        phase := .completing req } req) := by
  have hpoll : s.exec (.driver .poll) =
      some { s.withQueue { s.dev.queue with lastUsedIdx := s.dev.queue.lastUsedIdx + 1 } with
        phase := .completing req } := by
    rw [exec, driverStep, hphase]
    simp only [poll, if_pos hused]
  refine .cons ⟨hpoll, ?_⟩ (.cons (careful_of_exec rfl (by rintro ⟨⟩)) (.nil _))
  exact fun hgives => hused hgives.2.2

theorem exists_ne_block (b : Block) : ∃ b', b ≠ b' := by
  by_cases h : b = Block.filled 0
  · refine ⟨Block.filled 1, ?_⟩
    rw [h, Ne, Block.filled_inj]
    decide
  · exact ⟨Block.filled 0, h⟩

/-- The device writes the status of its one chain. -/
def told (s : DiskState) (t : Taken) (status : UInt8) : DiskState :=
  { s.withQueue { s.dev.queue with dma := { s.dev.queue.dma with status := status } } with
    taken := [{ t with stage := .answered }] }

theorem exec_answer {t : Taken} (htaken : s.taken = [t]) (hmoved : t.stage = .moved) :
    s.exec (.device (.answer 0 statusOk)) = some (s.told t statusOk) := by
  rw [exec, deviceStep, htaken, List.getElem?_cons_zero, Option.bind_some, answer,
    if_pos (.inl hmoved), htaken]
  rfl

/-- The state after the device has returned its one chain, and the driver has seen it. -/
def mistaken (s : DiskState) (t : Taken) (req : Request) : DiskState :=
  { s.withQueue
      { s.dev.queue with
        used := s.dev.queue.used.complete queueSize t.head 1
        lastUsedIdx := s.dev.queue.lastUsedIdx + 1 } with
    phase := .completing req
    taken := [] }

/-- The driver takes a chain that is returned for the one of its own request. -/
theorem run_mistaken {t : Taken} {spins : Nat} (hphase : s.phase = .spinning req spins)
    (hused : s.dev.queue.used.idx = s.dev.queue.lastUsedIdx) (htaken : s.taken = [t])
    (hanswered : t.stage = .answered) :
    ((system dmaPhys capacity disk).restrict Careful).Run s
      [.device (.publish 0 1), .driver .poll, .driver .finish] ((s.mistaken t req).finish req) := by
  have hpublish : s.exec (.device (.publish 0 1)) =
      some { s.withQueue
          { s.dev.queue with used := s.dev.queue.used.complete queueSize t.head 1 } with
        taken := [] } := by
    rw [exec, deviceStep, htaken, List.getElem?_cons_zero, Option.bind_some, publish,
      if_pos hanswered, htaken]
    rfl
  refine .cons (careful_of_exec hpublish (by rintro ⟨⟩)) (run_poll_finish hphase ?_)
  show s.dev.queue.used.idx + 1 ≠ s.dev.queue.lastUsedIdx
  rw [hused]
  exact (ne_add_one _).symm

theorem not_trusted_of_run {ops : List DiskOp}
    (hrun : ((system dmaPhys capacity disk).restrict Careful).Run s ops s')
    (h : ¬s'.Trusted dmaPhys capacity disk) : ¬s.Trusted dmaPhys capacity disk :=
  fun htrusted => h fun _ _ hrun' => htrusted _ _ (hrun.append hrun')

/-- A chain whose data has moved is taken for the next request, which has not been served. -/
theorem AtRest.not_trusted_of_moved {t : Taken} (h : s.AtRest) (htaken : s.taken = [t])
    (hmoved : t.stage = .moved) : ¬s.Trusted dmaPhys capacity disk := by
  obtain ⟨data, hdata⟩ := exists_ne_block (s.disk 0)
  have hasked : ((system dmaPhys capacity disk).restrict Careful).Run s _
      (s.asked ⟨.write, 0, data⟩) := h.run_asked h.capacity
  have hanswer : (s.asked ⟨.write, 0, data⟩).exec (.device (.answer 0 statusOk)) = some _ :=
    exec_answer htaken hmoved
  intro htrusted
  obtain ⟨disk', hhead, hwritten⟩ := htrusted _ _ (hasked.append
    (.cons (careful_of_exec hanswer (by rintro ⟨⟩)) (run_mistaken rfl h.used rfl rfl)))
    ⟨.write, 0, data⟩ data rfl
  obtain rfl := Option.some.inj hhead
  exact hdata hwritten

/-- A chain whose data has not moved: it moves now. -/
theorem AtRest.not_trusted_of_started {t : Taken} (h : s.AtRest) (htaken : s.taken = [t])
    (hstarted : t.stage = .started) : ¬s.Trusted dmaPhys capacity disk := by
  have hmove : ∃ s₁, s.deviceStep (.move 0) = some s₁ ∧
      s₁.taken = [{ t with stage := .moved }] ∧
      s₁.dev.queue.used.idx = s₁.dev.queue.lastUsedIdx := by
    rw [deviceStep, htaken, List.getElem?_cons_zero, Option.bind_some, move, if_pos hstarted,
      htaken]
    cases t.header.reqType with
    | read => exact ⟨_, rfl, rfl, h.used⟩
    | write => exact ⟨_, rfl, rfl, h.used⟩
  obtain ⟨s₁, hexec, htaken₁, hused₁⟩ := hmove
  have hserves := serves_deviceStep hexec
  have hrest : s₁.AtRest := ⟨hserves.initialized.trans h.initialized, hserves.sized h.sized,
    hserves.capacityBlocks ▸ h.capacity, hserves.phase ▸ h.idle, hused₁⟩
  have hstep : s.exec (.device (.move 0)) = some s₁ := hexec
  exact not_trusted_of_run (.cons (careful_of_exec hstep (by rintro ⟨⟩)) (.nil _))
    (hrest.not_trusted_of_moved htaken₁ rfl)

/-- A chain that the device has not taken: it takes it now. -/
theorem AtRest.not_trusted_of_posted (h : s.AtRest) (htaken : s.taken = [])
    (havail : s.lastAvailIdx + 1 = s.dev.queue.avail.idx)
    (hchain : s.dev.queue.IsRequest
      (s.dev.queue.avail.entry queueSize s.lastAvailIdx.toNat)) :
    ¬s.Trusted dmaPhys capacity disk := by
  have hne : s.lastAvailIdx ≠ s.dev.queue.avail.idx := havail ▸ ne_add_one s.lastAvailIdx
  have htake : s.exec (.device .take) = some _ := if_pos ⟨hne, hchain⟩
  refine not_trusted_of_run (.cons (careful_of_exec htake (by rintro ⟨⟩)) (.nil _)) ?_
  rw [htaken, List.nil_append]
  exact AtRest.not_trusted_of_started ⟨h.initialized, h.sized, h.capacity, h.idle, h.used⟩ rfl rfl

/-- A chain that is already answered: its return is taken for the next request, which fails, and
then the device has the chain of that one. -/
theorem AtRest.not_trusted_of_answered {t : Taken} (h : s.AtRest) (htaken : s.taken = [t])
    (havail : s.lastAvailIdx = s.dev.queue.avail.idx) (hanswered : t.stage = .answered) :
    ¬s.Trusted dmaPhys capacity disk := by
  have hasked : ((system dmaPhys capacity disk).restrict Careful).Run s _
      (s.asked ⟨.read, 0, Block.zero⟩) := h.run_asked h.capacity
  have hsized : (s.dev.queue.prepare ⟨.read, 0, Block.zero⟩).Sized :=
    ⟨h.sized.descs, h.sized.ring⟩
  refine not_trusted_of_run (hasked.append (run_mistaken rfl h.used htaken hanswered)) ?_
  refine AtRest.not_trusted_of_posted ⟨h.initialized, ?_, h.capacity, rfl, ?_⟩ rfl ?_ ?_
  · have hposted := hsized.postChain .read
    exact ⟨hposted.descs, hposted.ring⟩
  · show s.dev.queue.used.idx + 1 = s.dev.queue.lastUsedIdx + 1
    rw [h.used]
  · show s.lastAvailIdx + 1 = s.dev.queue.avail.idx + 1
    rw [havail]
  · have hchain := RequestQueue.isRequest_postChain hsized .read
    have hidx : (s.dev.queue.prepare ⟨.read, 0, Block.zero⟩).avail.idx = s.lastAvailIdx :=
      havail.symm
    rw [hidx] at hchain
    exact hchain

/-- **When the device has a chain that the driver does not wait for**, calls cannot be trusted. -/
theorem Behind.not_trusted (hbehind : s.Behind) (h : s.AtRest) :
    ¬s.Trusted dmaPhys capacity disk := by
  cases hbehind with
  | posted htaken havail hchain => exact h.not_trusted_of_posted htaken havail hchain
  | inDevice t htaken havail =>
    cases hstage : t.stage with
    | started => exact h.not_trusted_of_started htaken hstage
    | moved => exact h.not_trusted_of_moved htaken hstage
    | answered => exact h.not_trusted_of_answered htaken havail hstage

theorem exists_spinning_of_lastSpin {phase : Phase} (h : phase.lastSpin = true) :
    ∃ req spins, phase = .spinning req spins ∧ spinLimit < spins + 1 := by
  cases phase with
  | spinning req spins => exact ⟨req, spins, rfl, of_decide_eq_true h⟩
  | idle => cases h
  | posting req => cases h
  | completing req => cases h
  | returned req result => cases h

theorem exec_poll_of_givesUp {spins : Nat} (hphase : s.phase = .spinning req spins)
    (hlimit : spinLimit < spins + 1) (hused : s.dev.queue.used.idx = s.dev.queue.lastUsedIdx) :
    s.exec (.driver .poll) = some { s with
      phase := .returned req (.error "virtio-blk: timeout waiting for I/O") } := by
  rw [exec, driverStep, hphase]
  simp only [poll, if_neg (not_not.mpr hused), if_pos hlimit]

/-- The driver gives up on a request that the device has. -/
theorem Kept.behind_of_givesUp (h : s.Kept) (hgives : s.GivesUp op) (hstep : s.exec op = some s') :
    s'.AtRest ∧ s'.Behind := by
  obtain ⟨rfl, hlast, hused⟩ := hgives
  obtain ⟨req, spins, hphase, hlimit⟩ := exists_spinning_of_lastSpin hlast
  have hholds := h.holds
  rw [hphase] at hholds
  obtain ⟨hw, hp⟩ := hholds
  rw [exec_poll_of_givesUp hphase hlimit hused] at hstep
  obtain rfl := Option.some.inj hstep
  refine ⟨⟨h.initialized, h.sized, Nat.lt_of_le_of_lt (Nat.zero_le _) hp.sector, rfl, hused⟩, ?_⟩
  cases hw with
  | posted htaken havail hchain => exact .posted htaken havail hchain
  | inDevice t htaken _ havail => exact .inDevice t htaken havail
  | back _ _ hback => exact absurd (hused.symm.trans hback) (ne_add_one _)

/-- So a step leaves the calls to be trusted exactly when it is not the driver giving up. -/
theorem trusted_step_iff (hs : ((system dmaPhys capacity disk).restrict Careful).Reachable s)
    (hstep : s.exec op = some s') : s'.Trusted dmaPhys capacity disk ↔ s.Careful op := by
  constructor
  · intro htrusted hgives
    obtain ⟨hrest, hbehind⟩ := (kept_reachable hs).behind_of_givesUp hgives hstep
    exact hbehind.not_trusted hrest htrusted
  · intro hcareful ops t hrun
    exact (kept_reachable ((hs.step ⟨hstep, hcareful⟩).run hrun)).honest

end Late

/-- The driver can spin to the limit. -/
theorem run_spin {dmaPhys : UInt64} {capacity : Nat} {disk : Nat → Block} {spins n : Nat}
    (hphase : s.phase = .spinning req spins)
    (hused : s.dev.queue.used.idx = s.dev.queue.lastUsedIdx) (hn : spins + n ≤ spinLimit) :
    (system dmaPhys capacity disk).Run s (List.replicate n (.driver .poll))
      { s with phase := .spinning req (spins + n) } := by
  induction n generalizing s spins with
  | zero =>
    rw [Nat.add_zero, ← hphase]
    exact .nil s
  | succ n ih =>
    have hpoll : s.exec (.driver .poll) = some { s with phase := .spinning req (spins + 1) } := by
      rw [exec, driverStep, hphase]
      simp only [poll, if_neg (not_not.mpr hused), if_neg (by omega : ¬spinLimit < spins + 1)]
    have hrest := ih (s := { s with phase := .spinning req (spins + 1) }) rfl hused (by omega)
    rw [show spins + 1 + n = spins + (n + 1) by omega] at hrest
    exact .cons hpoll hrest

end DiskState

/-- **Disk calls.**  With the device taking its steps at any time, as long as the driver does not
give up: a read that returns well has read what was on the disk during the call, and a write that
returns well has written its data.  Exactly then the next calls can be trusted: once the driver has
given up, some schedule without a further timeout makes a call return well that has not been
served. -/
theorem disk_calls_honest (dmaPhys : UInt64) (capacity : Nat) (disk : Nat → Block) :
    ∀ s, ((DiskState.system dmaPhys capacity disk).restrict DiskState.Careful).Reachable s →
      s.Honest ∧ ∀ op s', (DiskState.system dmaPhys capacity disk).Step s op s' →
        (s'.Trusted dmaPhys capacity disk ↔ s.Careful op) := by
  intro s hs
  refine ⟨(DiskState.kept_reachable hs).honest, ?_⟩
  intro op s' hstep
  exact DiskState.trusted_step_iff hs hstep

/-- One call, with the device serving it at once. -/
def servedCall (req : Request) : List DiskOp :=
  [.driver (.call req), .driver .post, .device .take, .device (.move 0),
    .device (.answer 0 statusOk), .device (.publish 0 1), .driver .poll, .driver .finish]

/-- A block is written and read back. -/
theorem disk_calls_honest_readBack :
    ∃ s, ((DiskState.system 0x1000 2 fun _ => Block.zero).restrict DiskState.Careful).Reachable s ∧
      s.phase = .returned ⟨.read, 1, Block.zero⟩ (.ok (Block.filled 7)) ∧ s.Honest := by
  have hrun : ((servedCall ⟨.write, 1, Block.filled 7⟩ ++ servedCall ⟨.read, 1, Block.zero⟩).foldlM
      (fun s op => if DiskState.Careful s op then s.exec op else none)
      (DiskState.boot 0x1000 2 fun _ => Block.zero)).map DiskState.phase =
        some (.returned ⟨.read, 1, Block.zero⟩ (.ok (Block.filled 7))) := by
    decide +kernel
  obtain ⟨s, hs, hphase⟩ := Option.map_eq_some_iff.mp hrun
  have hreach : ((DiskState.system 0x1000 2 fun _ => Block.zero).restrict
      DiskState.Careful).Reachable s :=
    TransitionSystem.reachable_restrict_ofPartial_iff.mpr ⟨_, hs⟩
  exact ⟨s, hreach, hphase, (disk_calls_honest _ _ _ s hreach).1⟩

/-- A disk on which block `n` is full of the byte `n`. -/
def numberedDisk (n : Nat) : Block := Block.filled (UInt8.ofNat n)

/-- The driver has given up on a read of block 0. -/
def abandonedRead : DiskState :=
  { (DiskState.boot 0x1000 2 numberedDisk).asked ⟨.read, 0, Block.zero⟩ with
    phase := .returned ⟨.read, 0, Block.zero⟩ (.error "virtio-blk: timeout waiting for I/O") }

theorem abandonedRead_reachable :
    (DiskState.system 0x1000 2 numberedDisk).Reachable abandonedRead := by
  have hrest : (DiskState.boot 0x1000 2 numberedDisk).AtRest :=
    ⟨rfl, RequestQueue.sized_zeroed _, Nat.zero_lt_succ 1, rfl, rfl⟩
  have hasked : ((DiskState.system 0x1000 2 numberedDisk).restrict DiskState.Careful).Run _ _
      ((DiskState.boot 0x1000 2 numberedDisk).asked ⟨.read, 0, Block.zero⟩) :=
    hrest.run_asked hrest.capacity
  have hspin : (DiskState.system 0x1000 2 numberedDisk).Run
      ((DiskState.boot 0x1000 2 numberedDisk).asked ⟨.read, 0, Block.zero⟩) _ _ :=
    DiskState.run_spin rfl rfl (Nat.le_of_eq (Nat.zero_add spinLimit))
  have hgives := DiskState.exec_poll_of_givesUp
    (s := { (DiskState.boot 0x1000 2 numberedDisk).asked ⟨.read, 0, Block.zero⟩ with
      phase := .spinning ⟨.read, 0, Block.zero⟩ (0 + spinLimit) }) rfl (by omega) rfl
  exact ⟨_, _, rfl, hasked.of_restrict.append (hspin.snoc hgives)⟩

/-- Then the driver reads block 1, and the device serves the first request. -/
def lateService : List DiskOp :=
  [.device .take, .driver (.call ⟨.read, 1, Block.zero⟩), .driver .post, .device (.move 0),
    .device (.answer 0 statusOk), .device (.publish 0 1), .driver .poll, .driver .finish]

/-- The second call returns well, with block 0. -/
theorem read_returns_other_block :
    ∃ s, (DiskState.system 0x1000 2 numberedDisk).Reachable s ∧
      s.phase = .returned ⟨.read, 1, Block.zero⟩ (.ok (numberedDisk 0)) ∧
      s.during.map (· 1) = [numberedDisk 1] ∧ ¬s.Honest := by
  have hrun : (lateService.foldlM DiskState.exec abandonedRead).map
      (fun s => (s.phase, s.during.map (· 1))) =
        some (.returned ⟨.read, 1, Block.zero⟩ (.ok (numberedDisk 0)), [numberedDisk 1]) := by
    decide +kernel
  obtain ⟨s, hs, hfacts⟩ := Option.map_eq_some_iff.mp hrun
  obtain ⟨hphase, hduring⟩ := Prod.mk.inj hfacts
  have hreach : (DiskState.system 0x1000 2 numberedDisk).Reachable s :=
    abandonedRead_reachable.run (TransitionSystem.run_ofPartial_iff.mpr hs)
  refine ⟨s, hreach, hphase, hduring, ?_⟩
  intro hhonest
  obtain ⟨disk, hmem, hdata⟩ := hhonest _ _ hphase
  have hone : disk 1 ∈ s.during.map (· 1) := List.mem_map_of_mem hmem
  rw [hduring, List.mem_singleton, hdata] at hone
  rw [numberedDisk, numberedDisk, Block.filled_inj] at hone
  revert hone
  decide

end VirtioBlk

end OxideOS
