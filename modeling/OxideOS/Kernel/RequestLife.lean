import OxideOS.Kernel.System

/-!
# The life of a request

A request is made, and then it is replied to or it expires, but not both; a reply is collected at
most once.  What the callers see of this is recorded along with the kernel: the requests made, the
replies accepted, the requests expired and the replies collected.  Ids come from one counter that
never goes back, so the record of one id is the life of one request, and the tables of the kernel
tell how far it has got.

## Main definitions

* `RequestEvent`, `Kernel.observe`: what is seen of a call
* `Kernel.recordedSystem`: the kernel with the record
* `Life`: the lives a request can have

## Main results

* `Kernel.exchanges_step`: what a call does to the requests
* `Kernel.life_of_reachable`: every request has one of the lives
* `Kernel.one_outcome`: a request has at most one outcome
-/

namespace OxideOS

/-- What the callers of the request functions see. -/
inductive RequestEvent
  /-- `request` returned this id. -/
  | requested (id : MessageId) (sender recipient : TaskId)
  /-- `reply` to this id returned `Ok`; `owned` tells whether the capability presented was a live
  one of the sender's. -/
  | replied (id : MessageId) (sender : TaskId) (payload : List UInt8) (owned : Bool)
  /-- `check_timeouts` took the request out. -/
  | expired (id : MessageId)
  /-- `collect_reply` returned the message. -/
  | collected (id : MessageId) (msg : Message)
deriving DecidableEq

namespace RequestEvent

/-- The request an event is about. -/
def msgId : RequestEvent → MessageId
  | requested id _ _ => id
  | replied id _ _ _ => id
  | expired id => id
  | collected id _ => id

/-- The kinds of events. -/
inductive Kind
  | request
  | reply
  | expiry
  | collection
deriving DecidableEq

def kind : RequestEvent → Kind
  | requested _ _ _ => .request
  | replied _ _ _ _ => .reply
  | expired _ => .expiry
  | collected _ _ => .collection

/-- An event of this kind about the request. -/
def isOf (kind : Kind) (id : MessageId) (e : RequestEvent) : Bool :=
  e.kind = kind && e.msgId == id

end RequestEvent

open RequestEvent (requested replied collected)

/-- The task owns the capability, and it is not revoked. -/
def CapabilityTable.owns (t : CapabilityTable) (capId : CapId) (taskId : TaskId) : Bool :=
  match t.slot capId with
  | none => false
  | some cap => !cap.revoked && cap.owner == taskId

namespace Kernel

/-- What is seen of a call. -/
def observe (k : Kernel) : KernelOp → List RequestEvent
  | .gated (.request sender recipient payload senderCap timeoutTicks unlocked) =>
    match k.request sender recipient payload senderCap timeoutTicks unlocked with
    | some (.ok id, _) => [requested id sender recipient]
    | _ => []
  | .reply sender originalMsgId payload senderCap unlocked =>
    match k.reply sender originalMsgId payload senderCap unlocked with
    | (.ok (), _) => [replied originalMsgId sender payload (k.caps.owns senderCap sender)]
    | (.error _, _) => []
  | .checkTimeouts pendingUnlocked _ => if pendingUnlocked then k.expired.map .expired else []
  | .collectReply msgId =>
    match k.collectReply msgId with
    | (some msg, _) => [collected msgId msg]
    | (none, _) => []
  | _ => []

/-- Any calls after boot, with a record of what is seen of the requests. -/
def recordedSystem (frames : Option BitmapFrameAllocator) (pageTable : PageTable) :
    TransitionSystem (Kernel × List RequestEvent) KernelOp :=
  .recorded (boot frames pageTable) step observe

/-! ## What a call does to the requests -/

/-- What a call can do to the requests and the replies, with what is seen of it. -/
inductive Exchanges (k : Kernel) : List RequestEvent → Kernel → Prop
  | other {k' : Kernel} (hpending : k'.pending = k.pending) (hreplies : k'.replies = k.replies)
      (hnext : k.nextMsgId ≤ k'.nextMsgId) : Exchanges k [] k'
  | request {k' : Kernel} (sender recipient : TaskId) (deadlineTick : UInt64)
      (hpending : k'.pending = k.pending.insert k.nextMsgId ⟨sender, deadlineTick⟩)
      (hreplies : k'.replies = k.replies) (hnext : k'.nextMsgId = k.nextMsgId + 1) :
      Exchanges k [requested k.nextMsgId sender recipient] k'
  | reply {k' : Kernel} (id : MessageId) (sender : TaskId) (payload : List UInt8) (owned : Bool)
      (req : PendingRequest) (hreq : k.pending[id]? = some req)
      (hpending : k'.pending = k.pending.erase id)
      (hreplies : k'.replies = k.replies.insert id (replyMsg id sender req.requester payload))
      (hnext : k'.nextMsgId = k.nextMsgId) : Exchanges k [replied id sender payload owned] k'
  | timeouts {k' : Kernel}
      (hpending : ∀ id : MessageId, k'.pending[id]? =
        if id ∈ k.expired then none else k.pending[id]?)
      (hreplies : k'.replies = k.replies) (hnext : k'.nextMsgId = k.nextMsgId) :
      Exchanges k (k.expired.map RequestEvent.expired) k'
  | collect {k' : Kernel} (id : MessageId) (msg : Message) (hmsg : k.replies[id]? = some msg)
      (hpending : k'.pending = k.pending) (hreplies : k'.replies = k.replies.erase id)
      (hnext : k'.nextMsgId = k.nextMsgId) : Exchanges k [collected id msg] k'

variable {k k' : Kernel} {op : KernelOp}

theorem exchanges_of_eq (hpending : k'.pending = k.pending) (hreplies : k'.replies = k.replies)
    (hnext : k'.nextMsgId = k.nextMsgId) : Exchanges k [] k' :=
  .other hpending hreplies (Nat.le_of_eq hnext.symm)

theorem exchanges_reply (k : Kernel) (sender : TaskId) (id : MessageId) (payload : List UInt8)
    (senderCap : CapId) (unlocked : Bool) :
    Exchanges k (k.observe (.reply sender id payload senderCap unlocked))
      (k.reply sender id payload senderCap unlocked).2 := by
  rcases k.reply_cases sender id payload senderCap unlocked with
    ⟨-, hreply⟩ | ⟨req, tasks, hreq, hreply⟩
  · rw [observe, hreply]
    exact exchanges_of_eq rfl rfl rfl
  · rw [observe, hreply]
    exact .reply id sender payload _ req hreq rfl rfl rfl

theorem exchanges_checkTimeouts (k : Kernel) (pendingUnlocked unlocked : Bool) :
    Exchanges k (k.observe (.checkTimeouts pendingUnlocked unlocked))
      (k.checkTimeouts pendingUnlocked unlocked) := by
  cases pendingUnlocked with
  | false => exact exchanges_of_eq rfl rfl rfl
  | true =>
    obtain ⟨pending, taskIds, hframe⟩ := k.checkTimeouts_frame true unlocked
    refine .timeouts (fun id => ?_) ?_ ?_
    · rw [checkTimeouts, if_pos rfl, getElem?_pending_foldl_expire]
    · rw [hframe]
    · rw [hframe]

theorem exchanges_collectReply (k : Kernel) (id : MessageId) :
    Exchanges k (k.observe (.collectReply id)) (k.collectReply id).2 := by
  rw [observe, collectReply]
  cases hmsg : k.replies[id]? with
  | some msg => exact .collect id msg hmsg rfl rfl rfl
  | none =>
    refine exchanges_of_eq rfl ?_ rfl
    apply Std.ExtTreeMap.ext_getElem?
    intro id'
    rw [Std.ExtTreeMap.getElem?_erase]
    split
    · next heq => rw [← Std.LawfulEqCmp.eq_of_compare heq, hmsg]
    · rfl

theorem exchanges_exec {call : GatedCall} {ok : Bool} (h : k.exec call = some (ok, k')) :
    Exchanges k (k.observe (.gated call)) k' := by
  cases call with
  | send sender recipient msgType payload capTransfer replyTo senderCap unlocked =>
    have hpending := congrArg Kernel.pending (exec_frame h)
    have hreplies := congrArg Kernel.replies (exec_frame h)
    refine .other hpending hreplies ?_
    obtain rfl : (k.send sender recipient msgType payload capTransfer replyTo senderCap
      unlocked).2 = k' := (Prod.mk.inj (Option.some.inj h)).2
    exact (nextMsgId_send (k := k) rfl).1
  | request sender recipient payload senderCap timeoutTicks unlocked =>
    obtain ⟨⟨result, k''⟩, hrequest, hk⟩ := Option.map_eq_some_iff.mp h
    obtain ⟨-, rfl⟩ := Prod.mk.inj hk
    obtain ⟨hreplies, ⟨rfl, hnext, hpending⟩ | ⟨hresult, hnext, hpending⟩⟩ :=
      request_cases k sender recipient payload senderCap timeoutTicks unlocked hrequest
    · rw [observe, hrequest]
      exact .request sender recipient _ hpending hreplies hnext
    · rw [observe, hrequest]
      cases result with
      | ok msgId => exact absurd rfl (hresult msgId)
      | error e => exact .other hpending hreplies hnext
  | subscribe | publish | contextSet | contextGet | submitRequest =>
    rw [exec_frame h]
    exact exchanges_of_eq rfl rfl rfl

/-- **What one call does to the requests.** -/
theorem exchanges_step (h : k.step op = some k') : Exchanges k (k.observe op) k' := by
  cases op with
  | reply sender originalMsgId payload senderCap unlocked =>
    obtain rfl := Option.some.inj h
    exact exchanges_reply k sender originalMsgId payload senderCap unlocked
  | collectReply msgId =>
    obtain rfl := Option.some.inj h
    exact exchanges_collectReply k msgId
  | checkTimeouts pendingUnlocked unlocked =>
    obtain rfl := Option.some.inj h
    exact exchanges_checkTimeouts k pendingUnlocked unlocked
  | gated call =>
    obtain ⟨⟨ok, k''⟩, hexec, rfl⟩ := Option.map_eq_some_iff.mp h
    exact exchanges_exec hexec
  | _ =>
    rw [step_frame h]
    exact exchanges_of_eq rfl rfl rfl

end Kernel

/-! ## The lives of a request -/

/-- The record of one id, with the requester that waits in the table of requests and the message
that waits in the table of replies. -/
inductive Life (id : MessageId) : List RequestEvent → Option TaskId → Option Message → Prop
  | unused : Life id [] none none
  | pending (sender recipient : TaskId) : Life id [requested id sender recipient] (some sender) none
  | expired (sender recipient : TaskId) :
      Life id [requested id sender recipient, .expired id] none none
  | replied (sender recipient replier : TaskId) (payload : List UInt8) (owned : Bool) :
      Life id [requested id sender recipient, .replied id replier payload owned] none
        (some (Kernel.replyMsg id replier sender payload))
  | collected (sender recipient replier : TaskId) (payload : List UInt8) (owned : Bool) :
      Life id [requested id sender recipient, .replied id replier payload owned,
        .collected id (Kernel.replyMsg id replier sender payload)] none none

namespace Life

variable {id : MessageId} {events : List RequestEvent} {requester : Option TaskId}
  {reply : Option Message}

theorem of_nil (h : Life id [] requester reply) : requester = none ∧ reply = none := by
  cases h with
  | unused => exact ⟨rfl, rfl⟩

theorem of_requester {sender : TaskId} (h : Life id events (some sender) reply) :
    ∃ recipient, events = [requested id sender recipient] ∧ reply = none := by
  cases h with
  | pending _ recipient => exact ⟨recipient, rfl, rfl⟩

theorem of_reply {msg : Message} (h : Life id events requester (some msg)) :
    ∃ sender recipient replier payload owned,
      events = [requested id sender recipient, .replied id replier payload owned] ∧
        requester = none ∧ msg = Kernel.replyMsg id replier sender payload := by
  cases h with
  | replied sender recipient replier payload owned =>
    exact ⟨sender, recipient, replier, payload, owned, rfl, rfl, rfl⟩

/-- A life holds at most one event of each kind. -/
theorem countP_le_one (h : Life id events requester reply) (kind : RequestEvent.Kind) :
    events.countP (RequestEvent.isOf kind id) ≤ 1 := by
  cases h <;> cases kind <;>
    simp [RequestEvent.isOf, RequestEvent.kind, RequestEvent.msgId]

/-- No life holds both a reply and an expiry. -/
theorem not_reply_of_expired (h : Life id events requester reply)
    (hexpired : RequestEvent.expired id ∈ events) {e : RequestEvent} (he : e ∈ events) :
    e.kind ≠ .reply := by
  cases h with
  | expired sender recipient =>
    simp only [List.mem_cons, List.not_mem_nil, or_false] at he
    rcases he with rfl | rfl
    · exact fun hkind => nomatch hkind
    · exact fun hkind => nomatch hkind
  | unused => simp at hexpired
  | pending => simp at hexpired
  | replied => simp at hexpired
  | collected => simp at hexpired

/-- What was collected is the message of the reply. -/
theorem of_collected (h : Life id events requester reply) {msg : Message}
    (hmsg : RequestEvent.collected id msg ∈ events) :
    ∃ sender recipient replier payload owned,
      requested id sender recipient ∈ events ∧
        RequestEvent.replied id replier payload owned ∈ events ∧
        msg = Kernel.replyMsg id replier sender payload := by
  cases h with
  | collected sender recipient replier payload owned =>
    refine ⟨sender, recipient, replier, payload, owned, by simp, by simp, ?_⟩
    simpa using hmsg
  | unused => simp at hmsg
  | pending => simp at hmsg
  | expired => simp at hmsg
  | replied => simp at hmsg

end Life

namespace Kernel

/-- The record of the events about one id. -/
def about (id : MessageId) (log : List RequestEvent) : List RequestEvent :=
  log.filter fun e => e.msgId == id

theorem about_append (id : MessageId) (log events : List RequestEvent) :
    about id (log ++ events) = about id log ++ about id events := List.filter_append log events

theorem about_singleton (id : MessageId) (e : RequestEvent) :
    about id [e] = if e.msgId = id then [e] else [] := by
  by_cases h : e.msgId = id
  · simp [about, h]
  · simp [about, h]

theorem about_expired (id : MessageId) {ids : List MessageId} (hids : ids.Nodup) :
    about id (ids.map RequestEvent.expired) = if id ∈ ids then [.expired id] else [] := by
  have hfilter : about id (ids.map RequestEvent.expired) =
      (ids.filter (· == id)).map RequestEvent.expired := by
    rw [about, List.filter_map]
    rfl
  rw [hfilter, List.filter_beq, List.Nodup.count hids]
  by_cases h : id ∈ ids
  · simp [h]
  · simp [h]

/-- The record of every id is a life, which the tables agree with, and no id from the counter on has
been used. -/
structure Alive (x : Kernel × List RequestEvent) : Prop where
  life : ∀ id, Life id (about id x.2) (x.1.pending[id]?.map PendingRequest.requester)
    x.1.replies[id]?
  fresh : ∀ e ∈ x.2, e.msgId < x.1.nextMsgId

variable {log events : List RequestEvent} {k k' : Kernel}

/-- An id from the counter on has no record. -/
theorem Alive.about_eq_nil (h : Alive (k, log)) {id : MessageId} (hid : k.nextMsgId ≤ id) :
    about id log = [] := by
  rw [about, List.filter_eq_nil_iff]
  intro e he heq
  have hlt : e.msgId < k.nextMsgId := h.fresh e he
  rw [beq_iff_eq] at heq
  exact absurd (heq ▸ hlt) (Nat.not_lt.mpr hid)

/-- An exchange continues the life of every id. -/
theorem Alive.life_exchanges (h : Alive (k, log)) (hex : Exchanges k events k') (id : MessageId) :
    Life id (about id (log ++ events)) (k'.pending[id]?.map PendingRequest.requester)
      k'.replies[id]? := by
  have hlife : Life id (about id log) (k.pending[id]?.map PendingRequest.requester)
      k.replies[id]? := h.life id
  rw [about_append]
  cases hex with
  | other hpending hreplies hnext =>
    rw [hpending, hreplies]
    simpa [about] using hlife
  | request sender recipient deadlineTick hpending hreplies hnext =>
    rw [about_singleton, hpending, hreplies, Std.ExtTreeMap.getElem?_insert]
    by_cases hid : k.nextMsgId = id
    · have hnil := h.about_eq_nil (Nat.le_of_eq hid)
      rw [hnil] at hlife ⊢
      subst hid
      simpa [RequestEvent.msgId, hlife.of_nil.2] using Life.pending sender recipient
    · simpa [RequestEvent.msgId, hid] using hlife
  | reply id' sender payload owned req hreq hpending hreplies hnext =>
    rw [about_singleton, hpending, hreplies, Std.ExtTreeMap.getElem?_insert,
      Std.ExtTreeMap.getElem?_erase]
    by_cases hid : id' = id
    · subst hid
      rw [hreq] at hlife
      obtain ⟨recipient, hevents, -⟩ := hlife.of_requester
      rw [hevents]
      simpa [RequestEvent.msgId] using Life.replied req.requester recipient sender payload owned
    · simpa [RequestEvent.msgId, hid] using hlife
  | timeouts hpending hreplies hnext =>
    rw [about_expired id (nodup_expired k), hpending, hreplies]
    by_cases hid : id ∈ k.expired
    · obtain ⟨req, hreq, -⟩ := mem_expired.mp hid
      rw [hreq] at hlife
      obtain ⟨recipient, hevents, hreply⟩ := hlife.of_requester
      rw [hevents, hreply]
      simpa [hid] using Life.expired req.requester recipient
    · simpa [hid] using hlife
  | collect id' msg hmsg hpending hreplies hnext =>
    rw [about_singleton, hpending, hreplies, Std.ExtTreeMap.getElem?_erase]
    by_cases hid : id' = id
    · subst hid
      rw [hmsg] at hlife
      obtain ⟨sender, recipient, replier, payload, owned, hevents, hrequester, rfl⟩ :=
        hlife.of_reply
      rw [hevents, hrequester]
      simpa [RequestEvent.msgId] using Life.collected sender recipient replier payload owned
    · simpa [RequestEvent.msgId, hid] using hlife

/-- An id from the counter on is in neither table. -/
theorem Alive.unused (h : Alive (k, log)) {id : MessageId} (hid : k.nextMsgId ≤ id) :
    k.pending[id]? = none ∧ k.replies[id]? = none := by
  have hlife : Life id (about id log) (k.pending[id]?.map PendingRequest.requester)
      k.replies[id]? := h.life id
  rw [h.about_eq_nil hid] at hlife
  exact ⟨Option.map_eq_none_iff.mp hlife.of_nil.1, hlife.of_nil.2⟩

theorem Alive.lt_of_pending (h : Alive (k, log)) {id : MessageId} {req : PendingRequest}
    (hreq : k.pending[id]? = some req) : id < k.nextMsgId :=
  Nat.lt_of_not_le fun hle => Option.some_ne_none req (hreq.symm.trans (h.unused hle).1)

theorem Alive.lt_of_reply (h : Alive (k, log)) {id : MessageId} {msg : Message}
    (hmsg : k.replies[id]? = some msg) : id < k.nextMsgId :=
  Nat.lt_of_not_le fun hle => Option.some_ne_none msg (hmsg.symm.trans (h.unused hle).2)

/-- It uses no id from the counter on. -/
theorem Alive.fresh_exchanges (h : Alive (k, log)) (hex : Exchanges k events k') :
    ∀ e ∈ log ++ events, e.msgId < k'.nextMsgId := by
  intro e he
  rcases List.mem_append.mp he with hlog | hnew
  · have hlt : e.msgId < k.nextMsgId := h.fresh e hlog
    cases hex with
    | other _ _ hnext => exact Nat.lt_of_lt_of_le hlt hnext
    | request _ _ _ _ _ hnext => exact hnext ▸ Nat.lt_succ_of_lt hlt
    | reply _ _ _ _ _ _ _ _ hnext => exact hnext ▸ hlt
    | timeouts _ _ hnext => exact hnext ▸ hlt
    | collect _ _ _ _ _ hnext => exact hnext ▸ hlt
  · cases hex with
    | other => cases hnew
    | request sender recipient deadlineTick hpending hreplies hnext =>
      rw [List.mem_singleton.mp hnew, hnext]
      exact Nat.lt_succ_self _
    | reply id sender payload owned req hreq hpending hreplies hnext =>
      rw [List.mem_singleton.mp hnew, hnext]
      exact h.lt_of_pending hreq
    | timeouts hpending hreplies hnext =>
      obtain ⟨id, hid, rfl⟩ := List.mem_map.mp hnew
      obtain ⟨req, hreq, -⟩ := mem_expired.mp hid
      rw [hnext]
      exact h.lt_of_pending hreq
    | collect id msg hmsg hpending hreplies hnext =>
      rw [List.mem_singleton.mp hnew, hnext]
      exact h.lt_of_reply hmsg

variable {frames : Option BitmapFrameAllocator} {pageTable : PageTable}
  {x : Kernel × List RequestEvent}

theorem alive_invariant : (recordedSystem frames pageTable).Invariant Alive where
  init := by
    rintro x rfl
    exact ⟨fun id => by simpa [about, boot] using Life.unused, fun e he => by cases he⟩
  step := by
    rintro ⟨k, log⟩ op ⟨k', log'⟩ h hstep
    obtain ⟨hk, rfl⟩ := TransitionSystem.step_recorded hstep
    have hex := exchanges_step hk
    exact ⟨h.life_exchanges hex, h.fresh_exchanges hex⟩

/-- **Every request has one of the lives.** -/
theorem life_of_reachable (h : (recordedSystem frames pageTable).Reachable x) (id : MessageId) :
    Life id (about id x.2) (x.1.pending[id]?.map PendingRequest.requester) x.1.replies[id]? :=
  (alive_invariant.of_reachable h).life id

/-! ## Outcomes -/

theorem mem_about {id : MessageId} {e : RequestEvent} (he : e.msgId = id) :
    e ∈ about id log ↔ e ∈ log := by
  simp [about, he]

theorem countP_about (kind : RequestEvent.Kind) (id : MessageId) (log : List RequestEvent) :
    (about id log).countP (RequestEvent.isOf kind id) =
      log.countP (RequestEvent.isOf kind id) := by
  rw [about, List.countP_filter]
  refine List.countP_congr fun e _ => ?_
  simp [RequestEvent.isOf]

/-- An event of each kind happens at most once. -/
theorem countP_le_one (h : (recordedSystem frames pageTable).Reachable x)
    (kind : RequestEvent.Kind) (id : MessageId) :
    x.2.countP (RequestEvent.isOf kind id) ≤ 1 := by
  rw [← countP_about]
  exact (life_of_reachable h id).countP_le_one kind

/-- An expired request was never replied to, and never will be. -/
theorem isOf_reply_of_expired (h : (recordedSystem frames pageTable).Reachable x)
    {id : MessageId} (hexpired : RequestEvent.expired id ∈ x.2) {e : RequestEvent} (he : e ∈ x.2) :
    e.isOf .reply id = false := by
  by_contra hreply
  simp only [Bool.not_eq_false, RequestEvent.isOf, Bool.and_eq_true, decide_eq_true_eq,
    beq_iff_eq] at hreply
  exact (life_of_reachable h id).not_reply_of_expired ((mem_about rfl).mpr hexpired)
    ((mem_about hreply.2).mpr he) hreply.1

/-- **A request has at most one outcome**: in every reachable state of the kernel, whatever was
called by whom, each id was requested at most once, replied to at most once, and not after it had
expired; its reply was collected at most once, and the message collected answers the request, goes
to the requester and carries the payload of the reply.  And the timeout check takes out exactly the
requests whose deadline has come if it gets the lock of the table, and none if it does not. -/
theorem one_outcome (h : (recordedSystem frames pageTable).Reachable x) (id : MessageId) :
    (∀ kind, x.2.countP (RequestEvent.isOf kind id) ≤ 1) ∧
      (∀ before after, x.2 = before ++ .expired id :: after →
        ∀ e ∈ after, e.isOf .reply id = false) ∧
      (∀ msg, collected id msg ∈ x.2 → ∃ sender recipient replier payload owned,
        requested id sender recipient ∈ x.2 ∧ replied id replier payload owned ∈ x.2 ∧
          msg.replyTo = some id ∧ msg.recipient = sender ∧ msg.payload = payload) ∧
      ∀ pendingUnlocked unlocked, (x.1.checkTimeouts pendingUnlocked unlocked).pending[id]? =
        if pendingUnlocked then
          x.1.pending[id]?.filter fun req => !decide (req.deadlineTick ≤ x.1.ticks)
        else x.1.pending[id]? := by
  refine ⟨fun kind => countP_le_one h kind id, ?_, ?_, fun pendingUnlocked unlocked => ?_⟩
  · intro before after hlog e he
    have hexpired : RequestEvent.expired id ∈ x.2 := by
      rw [hlog]
      exact List.mem_append_right _ List.mem_cons_self
    have hmem : e ∈ x.2 := by
      rw [hlog]
      exact List.mem_append_right _ (List.mem_cons_of_mem _ he)
    exact isOf_reply_of_expired h hexpired hmem
  · intro msg hmsg
    obtain ⟨sender, recipient, replier, payload, owned, hrequested, hreplied, rfl⟩ :=
      (life_of_reachable h id).of_collected ((mem_about rfl).mpr hmsg)
    exact ⟨sender, recipient, replier, payload, owned, (mem_about rfl).mp hrequested,
      (mem_about rfl).mp hreplied, rfl, rfl, rfl⟩
  · cases pendingUnlocked with
    | false => rfl
    | true => exact getElem?_pending_checkTimeouts x.1 unlocked id

/-- Task 1 asks task 2 twice; the first request is answered, collected and asked for again, the
second one expires before the answer comes. -/
def twoRequests : List KernelOp :=
  [.capability (.createRoot 1 (.agent 2) .write), .capability (.createRoot 2 (.agent 1) .write),
    .registerMailbox 2, .gated (.request 1 2 [7] 1 1 true), .reply 2 1 [8] 2 true,
    .gated (.request 1 2 [9] 1 1 true), .tick, .checkTimeouts true true, .reply 2 2 [9] 2 true,
    .collectReply 1, .collectReply 1]

theorem one_outcome_twoRequests :
    ∃ x, twoRequests.foldlM (TransitionSystem.recordStep step observe) (boot none .empty, []) =
        some x ∧
      x.2 = [requested 1 1 2, replied 1 2 [8] true, requested 2 1 2, .expired 2,
        collected 1 (replyMsg 1 2 1 [8])] ∧
      x.2.countP (RequestEvent.isOf .reply 1) ≤ 1 := by
  have hrun : (twoRequests.foldlM (TransitionSystem.recordStep step observe)
      (boot none .empty, [])).map Prod.snd =
      some [requested 1 1 2, replied 1 2 [8] true, requested 2 1 2, .expired 2,
        collected 1 (replyMsg 1 2 1 [8])] := by decide
  obtain ⟨x, hx, hlog⟩ := Option.map_eq_some_iff.mp hrun
  have hreach : (recordedSystem none .empty).Reachable x :=
    TransitionSystem.reachable_ofPartial_iff.mpr ⟨twoRequests, hx⟩
  exact ⟨x, hx, hlog, (one_outcome hreach 1).1 .reply⟩

/-- The deadline of a request has come, and a timeout check that finds the table of requests locked
leaves the request where it is. -/
theorem due_request_kept :
    ∃ x, (recordedSystem none .empty).Reachable x ∧
      ∃ req, x.1.pending[1]? = some req ∧ req.deadlineTick ≤ x.1.ticks ∧
        (x.1.checkTimeouts false true).pending[1]? = some req := by
  have hrun : (([.capability (.createRoot 1 (.agent 2) .write), .registerMailbox 2,
      .gated (.request 1 2 [7] 1 1 true), .tick] : List KernelOp).foldlM
      (TransitionSystem.recordStep step observe) (boot none .empty, [])).map
      (fun x => (x.1.pending[1]?, x.1.ticks)) = some (some ⟨1, 1⟩, 1) := by decide
  obtain ⟨x, hreach, heq⟩ := TransitionSystem.exists_reachable_of_map hrun
  obtain ⟨hpending, hticks⟩ := Prod.mk.inj heq
  refine ⟨x, hreach, _, hpending, ?_, hpending⟩
  rw [hticks]
  decide

end Kernel

end OxideOS
