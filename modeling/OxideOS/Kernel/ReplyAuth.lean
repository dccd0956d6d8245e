import OxideOS.Kernel.RequestLife

/-!
# Who replied

The one who made a request reads the sender off the message it collects.  But `reply` takes its
sender and its capability as they are given: it asks neither whether the request was addressed to
that sender nor whether the capability is one of the sender's.  So a message collected is genuine as
long as every reply to a pending request is an authentic one, and the first reply that is not is
collected as if it were.

## Main definitions

* `Kernel.Genuine`: the messages collected come from the tasks that the requests were addressed to
* `Kernel.Authentic`: the condition on a reply

## Main results

* `Kernel.replies_genuine`: authentic replies, and no others, are genuine when collected
* `Kernel.forged_reply`: a third task replies without a capability, and is believed
-/

namespace OxideOS

namespace Kernel

open RequestEvent (requested replied collected)

/-- The request with this id was made to this task. -/
def RequestedOf (log : List RequestEvent) (id : MessageId) (recipient : TaskId) : Prop :=
  ∃ sender, requested id sender recipient ∈ log

/-- The sender of a message collected is the task that the request was addressed to, and it replied
with a live capability of its own. -/
def Genuine (log : List RequestEvent) : Prop :=
  ∀ id msg, collected id msg ∈ log →
    RequestedOf log id msg.sender ∧ ∃ payload, replied id msg.sender payload true ∈ log

/-- A reply to a pending request is sent by the task that the request was addressed to, and with a
live capability of that task. -/
def Authentic (x : Kernel × List RequestEvent) : KernelOp → Prop
  | .reply sender originalMsgId _ senderCap _ => x.1.pending[originalMsgId]?.isSome →
      RequestedOf x.2 originalMsgId sender ∧ x.1.caps.owns senderCap sender = true
  | _ => True

/-- The event is the request with this id, made to this task. -/
def isRequestTo (id : MessageId) (recipient : TaskId) : RequestEvent → Bool
  | requested id' _ recipient' => id' == id && recipient' == recipient
  | _ => false

theorem any_isRequestTo {log : List RequestEvent} {id : MessageId} {recipient : TaskId} :
    log.any (isRequestTo id recipient) ↔ RequestedOf log id recipient := by
  rw [List.any_eq_true]
  constructor
  · rintro ⟨⟨id', sender, recipient'⟩ | _ | _ | _, hmem, he⟩
    · simp only [isRequestTo, Bool.and_eq_true, beq_iff_eq] at he
      obtain ⟨rfl, rfl⟩ := he
      exact ⟨sender, hmem⟩
    all_goals cases he
  · rintro ⟨sender, hmem⟩
    exact ⟨_, hmem, by simp [isRequestTo]⟩

instance (log : List RequestEvent) (id : MessageId) (recipient : TaskId) :
    Decidable (RequestedOf log id recipient) :=
  decidable_of_iff _ any_isRequestTo

instance (x : Kernel × List RequestEvent) (op : KernelOp) : Decidable (Authentic x op) :=
  match op with
  | .reply _ _ _ _ _ => inferInstanceAs (Decidable (_ → _ ∧ _))
  | .capability _ | .spawn _ | .reschedule | .blockCurrent | .unblock _ | .killCurrent
  | .registerMailbox _ | .unregisterMailbox _ | .receive _ | .createChannel _ | .unsubscribe _ _
  | .collectReply _ | .checkTimeouts _ _ | .gated _ | .tick => .isTrue trivial

/-- Every reply that was accepted is by the task asked, with a live capability of its own. -/
def RepliesAuthentic (log : List RequestEvent) : Prop :=
  ∀ id sender payload owned, replied id sender payload owned ∈ log →
    RequestedOf log id sender ∧ owned = true

variable {frames : Option BitmapFrameAllocator} {pageTable : PageTable} {k : Kernel}
  {log : List RequestEvent} {x : Kernel × List RequestEvent}

theorem RequestedOf.append {id : MessageId} {recipient : TaskId} (h : RequestedOf log id recipient)
    (events : List RequestEvent) : RequestedOf (log ++ events) id recipient := by
  obtain ⟨sender, hmem⟩ := h
  exact ⟨sender, List.mem_append_left events hmem⟩

/-- A reply is seen only of a call of `reply`, and of one to a pending request. -/
theorem replied_mem_observe {op : KernelOp} {id : MessageId} {sender : TaskId}
    {payload : List UInt8} {owned : Bool} (h : replied id sender payload owned ∈ k.observe op) :
    ∃ senderCap unlocked, op = .reply sender id payload senderCap unlocked ∧
      k.pending[id]?.isSome ∧ owned = k.caps.owns senderCap sender := by
  cases op with
  | reply sender' id' payload' senderCap unlocked =>
    rcases k.reply_cases sender' id' payload' senderCap unlocked with
      ⟨-, hreply⟩ | ⟨req, tasks, hreq, hreply⟩
    · rw [observe, hreply] at h
      cases h
    · rw [observe, hreply, List.mem_singleton] at h
      obtain ⟨rfl, rfl, rfl, rfl⟩ := RequestEvent.replied.inj h
      exact ⟨senderCap, unlocked, rfl, by rw [hreq]; rfl, rfl⟩
  | gated call =>
    cases call with
    | request sender' recipient payload' senderCap timeoutTicks unlocked =>
      rw [observe] at h
      split at h
      · cases List.mem_singleton.mp h
      · cases h
    | _ => cases h
  | checkTimeouts pendingUnlocked unlocked =>
    rw [observe] at h
    split_ifs at h
    · obtain ⟨id', -, heq⟩ := List.mem_map.mp h
      cases heq
    · cases h
  | collectReply msgId =>
    rw [observe] at h
    split at h
    · cases List.mem_singleton.mp h
    · cases h
  | _ => cases h

/-- As long as replies are authentic, so are those accepted. -/
theorem repliesAuthentic_invariant :
    ((recordedSystem frames pageTable).restrict Authentic).Invariant
      fun x => RepliesAuthentic x.2 where
  init := by
    rintro x rfl id sender payload owned hmem
    cases hmem
  step := by
    rintro x op y h ⟨hstep, hok⟩ id sender payload owned hmem
    obtain ⟨-, hlog⟩ := TransitionSystem.step_recorded hstep
    rw [hlog] at hmem ⊢
    rcases List.mem_append.mp hmem with hbefore | hnow
    · obtain ⟨hrequested, howned⟩ := h id sender payload owned hbefore
      exact ⟨hrequested.append _, howned⟩
    · obtain ⟨senderCap, unlocked, rfl, hpending, rfl⟩ := replied_mem_observe hnow
      obtain ⟨hrequested, howns⟩ := hok hpending
      exact ⟨hrequested.append _, howns⟩

/-- Authentic replies are genuine when they are collected. -/
theorem genuine_of_repliesAuthentic (h : (recordedSystem frames pageTable).Reachable x)
    (hauth : RepliesAuthentic x.2) : Genuine x.2 := by
  intro id msg hmsg
  obtain ⟨sender, recipient, replier, payload, owned, -, hreplied, rfl⟩ :=
    (life_of_reachable h id).of_collected ((mem_about rfl).mpr hmsg)
  have hmem : replied id replier payload owned ∈ x.2 := (mem_about rfl).mp hreplied
  obtain ⟨hrequested, rfl⟩ := hauth id replier payload owned hmem
  exact ⟨hrequested, payload, hmem⟩

theorem genuine_of_authentic
    (h : ((recordedSystem frames pageTable).restrict Authentic).Reachable x) : Genuine x.2 :=
  genuine_of_repliesAuthentic h.of_restrict (repliesAuthentic_invariant.of_reachable h)

/-- Nothing but the request is on record about a pending request. -/
theorem not_mem_of_pending (h : (recordedSystem frames pageTable).Reachable x) {id : MessageId}
    (hpending : x.1.pending[id]?.isSome) (sender : TaskId) (payload : List UInt8) (owned : Bool) :
    replied id sender payload owned ∉ x.2 := by
  intro hmem
  obtain ⟨req, hreq⟩ := Option.isSome_iff_exists.mp hpending
  have hlife := life_of_reachable h id
  rw [hreq] at hlife
  obtain ⟨recipient, hevents, -⟩ := hlife.of_requester
  have habout : replied id sender payload owned ∈ about id x.2 := (mem_about rfl).mpr hmem
  rw [hevents, List.mem_singleton] at habout
  cases habout

/-- A reply to a pending request, collected: what is left on record. -/
theorem run_reply_collectReply {id : MessageId} {req : PendingRequest}
    (hreq : x.1.pending[id]? = some req) (sender : TaskId) (payload : List UInt8)
    (senderCap : CapId) (unlocked : Bool) :
    ∃ y, (recordedSystem frames pageTable).Run x
        [.reply sender id payload senderCap unlocked, .collectReply id] y ∧
      y.2 = x.2 ++ [replied id sender payload (x.1.caps.owns senderCap sender),
        collected id (replyMsg id sender req.requester payload)] := by
  rcases x.1.reply_cases sender id payload senderCap unlocked with
    ⟨hnone, -⟩ | ⟨req', tasks, hreq', hreply⟩
  · rw [hreq] at hnone
    cases hnone
  · obtain rfl := Option.some.inj (hreq.symm.trans hreq')
    refine ⟨_, .cons rfl (.cons rfl (.nil _)), ?_⟩
    simp [observe, hreply, collectReply]

/-- **Authentic replies, and no others, are genuine**: in every run in which each reply to a pending
request is authentic, every message collected is from the task that the request was addressed to,
which replied with a live capability of its own; and after such a run, any reply that is not
authentic is collected as if it were. -/
theorem replies_genuine
    (h : ((recordedSystem frames pageTable).restrict Authentic).Reachable x) :
    Genuine x.2 ∧ ∀ sender id payload senderCap unlocked, ∃ y,
      (recordedSystem frames pageTable).Run x
        [.reply sender id payload senderCap unlocked, .collectReply id] y ∧
      (Genuine y.2 ↔ Authentic x (.reply sender id payload senderCap unlocked)) := by
  refine ⟨genuine_of_authentic h, fun sender id payload senderCap unlocked => ?_⟩
  by_cases hauth : Authentic x (.reply sender id payload senderCap unlocked)
  · obtain ⟨y, hreply⟩ : ∃ y, (recordedSystem frames pageTable).Step x
        (.reply sender id payload senderCap unlocked) y := ⟨_, rfl⟩
    obtain ⟨z, hcollect⟩ : ∃ z, (recordedSystem frames pageTable).Step y (.collectReply id) z :=
      ⟨_, rfl⟩
    refine ⟨z, .cons hreply (.cons hcollect (.nil z)), iff_of_true ?_ hauth⟩
    exact genuine_of_authentic ((h.step ⟨hreply, hauth⟩).step ⟨hcollect, trivial⟩)
  · obtain ⟨hpending, hforged⟩ := Classical.not_imp.mp hauth
    obtain ⟨req, hreq⟩ := Option.isSome_iff_exists.mp hpending
    obtain ⟨y, hrun, hlog⟩ := run_reply_collectReply hreq sender payload senderCap unlocked
    refine ⟨y, hrun, iff_of_false (fun hgenuine => hforged ?_) hauth⟩
    obtain ⟨⟨requester, hrequested⟩, payload', hreplied⟩ :=
      hgenuine id (replyMsg id sender req.requester payload) (by simp [hlog])
    rw [hlog] at hrequested hreplied
    constructor
    · exact ⟨requester, by simpa [replyMsg] using hrequested⟩
    · have hnot := not_mem_of_pending h.of_restrict hpending sender payload' true
      have hthis : payload' = payload ∧ x.1.caps.owns senderCap sender = true := by
        simpa [replyMsg, hnot] using hreplied
      exact hthis.2

/-- The two requests of `twoRequests` are answered, one of them too late, by the task asked. -/
theorem replies_genuine_twoRequests :
    ∃ x, ((recordedSystem none .empty).restrict Authentic).Reachable x ∧
      collected 1 (replyMsg 1 2 1 [8]) ∈ x.2 ∧ Genuine x.2 := by
  have hrun : (twoRequests.foldlM
      (fun x op => if Authentic x op then TransitionSystem.recordStep step observe x op else none)
      (boot none .empty, [])).map Prod.snd =
      some [requested 1 1 2, replied 1 2 [8] true, requested 2 1 2, .expired 2,
        collected 1 (replyMsg 1 2 1 [8])] := by decide
  obtain ⟨x, hx, hlog⟩ := Option.map_eq_some_iff.mp hrun
  have hreach : ((recordedSystem none .empty).restrict Authentic).Reachable x :=
    TransitionSystem.reachable_restrict_ofPartial_iff.mpr ⟨twoRequests, hx⟩
  exact ⟨x, hreach, by simp [hlog], (replies_genuine hreach).1⟩

/-- Task 1 asks task 2.  Task 3, which has no capability at all, replies in its own name. -/
def forgedReply : List KernelOp :=
  [.capability (.createRoot 1 (.agent 2) .write), .registerMailbox 2,
    .gated (.request 1 2 [7] 1 10 true), .reply 3 1 [66] 0 true, .collectReply 1]

/-- **A third task is believed**: task 1 collects the reply of task 3, which it never asked and
which presented no capability. -/
theorem forged_reply :
    ∃ x, (recordedSystem none .empty).Reachable x ∧
      x.2 = [requested 1 1 2, replied 1 3 [66] false, collected 1 (replyMsg 1 3 1 [66])] ∧
      ¬Genuine x.2 := by
  have hrun : (forgedReply.foldlM (TransitionSystem.recordStep step observe)
      (boot none .empty, [])).map Prod.snd =
      some [requested 1 1 2, replied 1 3 [66] false, collected 1 (replyMsg 1 3 1 [66])] := by
    decide
  obtain ⟨x, hreach, hlog⟩ := TransitionSystem.exists_reachable_of_map hrun
  refine ⟨x, hreach, hlog, fun h => ?_⟩
  obtain ⟨-, payload, hreplied⟩ := h 1 (replyMsg 1 3 1 [66]) (by simp [hlog])
  simp [hlog, replyMsg] at hreplied

end Kernel

end OxideOS
