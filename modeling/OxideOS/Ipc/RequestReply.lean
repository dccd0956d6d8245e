import OxideOS.Ipc.Message

/-!
# Requests and replies

`ipc/request_reply.rs`.  A request is a message whose id is entered in a table with a deadline.  A
reply takes the entry out and leaves its message for the requester to collect; the timer interrupt
takes out the entries whose deadline has passed.

The deadline is the sum of two `u64`s, which the build checks for overflow.

## Main definitions

* `Kernel.request`, `Kernel.reply`, `Kernel.collectReply`, `Kernel.checkTimeouts`
* `Kernel.leaveReply`: the second half of a reply

## Main results

* `Kernel.request_ok_iff`: when a request succeeds
* `Kernel.request_send`: a request is a send and an entry in the table
* `Kernel.request_cases`, `Kernel.reply_cases`, `Kernel.getElem?_pending_checkTimeouts`: what the
  calls do to the tables of requests and replies
* `Kernel.request_frame`, `Kernel.reply_frame`, `Kernel.checkTimeouts_frame`: what a call changes
-/

namespace OxideOS

namespace Kernel

/-- The deadline can be computed: `ticks() + timeout_ticks` does not overflow. -/
def DeadlineFits (k : Kernel) (timeoutTicks : UInt64) : Prop :=
  k.ticks.toNat + timeoutTicks.toNat < 2 ^ 64

instance (k : Kernel) (timeoutTicks : UInt64) : Decidable (k.DeadlineFits timeoutTicks) :=
  inferInstanceAs (Decidable (_ < _))

/-- `request_reply::request`.  `none` is the panic on overflow, after the message has been sent. -/
def request (k : Kernel) (sender recipient : TaskId) (payload : List UInt8) (senderCap : CapId)
    (timeoutTicks : UInt64) (unlocked : Bool) : Option (Except IpcError MessageId × Kernel) :=
  match k.caps.validate senderCap sender .write with
  | .error _ => some (.error .capabilityDenied, k)
  | .ok _ =>
    match k.send sender recipient .request payload none none senderCap unlocked with
    | (.error e, k) => some (.error e, k)
    | (.ok msgId, k) =>
      if k.DeadlineFits timeoutTicks then
        some (.ok msgId,
          { k with pending := k.pending.insert msgId ⟨sender, k.ticks + timeoutTicks⟩ })
      else none

/-- The message that a reply leaves for the requester. -/
def replyMsg (originalMsgId : MessageId) (sender requester : TaskId) (payload : List UInt8) :
    Message :=
  { id := 0, sender, recipient := requester, msgType := .reply, payload
    capTransfer := none, replyTo := some originalMsgId }

/-- The second half of `reply`, after the request has been taken out: its message is left for the
requester, who is woken. -/
def leaveReply (k : Kernel) (originalMsgId : MessageId) (msg : Message) (unlocked : Bool) :
    Kernel :=
  wake { k with replies := k.replies.insert originalMsgId msg } msg.recipient unlocked

/-- `request_reply::reply`.  The capability presented is not looked at, nor is the sender. -/
def reply (k : Kernel) (sender : TaskId) (originalMsgId : MessageId) (payload : List UInt8)
    (_senderCap : CapId) (unlocked : Bool) : Except IpcError Unit × Kernel :=
  match k.pending[originalMsgId]? with
  | none => (.error .recipientNotFound, k)
  | some pending =>
    let k := { k with pending := k.pending.erase originalMsgId }
    (.ok (), k.leaveReply originalMsgId
      (replyMsg originalMsgId sender pending.requester payload) unlocked)

/-- `request_reply::collect_reply`. -/
def collectReply (k : Kernel) (msgId : MessageId) : Option Message × Kernel :=
  (k.replies[msgId]?, { k with replies := k.replies.erase msgId })

/-- The requests whose deadline has passed. -/
def expired (k : Kernel) : List MessageId :=
  (k.pending.toList.filter fun (_, req) => req.deadlineTick ≤ k.ticks).map Prod.fst

/-- One turn of the loop of `check_timeouts`. -/
def expire (unlocked : Bool) (k : Kernel) (id : MessageId) : Kernel :=
  match k.pending[id]? with
  | none => k
  | some req => wake { k with pending := k.pending.erase id } req.requester unlocked

/-- `request_reply::check_timeouts`, where `pendingUnlocked` and `unlocked` tell whether the table
of requests and the scheduler can be locked. -/
def checkTimeouts (k : Kernel) (pendingUnlocked unlocked : Bool) : Kernel :=
  if pendingUnlocked then k.expired.foldl (expire unlocked) k else k

section Request

variable (k : Kernel) (sender recipient : TaskId) (payload : List UInt8) (senderCap : CapId)
  (timeoutTicks : UInt64) (unlocked : Bool)

/-- Sending leaves the clock alone. -/
theorem ticks_send {result : Except IpcError MessageId} {k' : Kernel} {msgType : MessageType}
    {capTransfer : Option CapId} {replyTo : Option MessageId}
    (h : k.send sender recipient msgType payload capTransfer replyTo senderCap unlocked =
      (result, k')) : k'.ticks = k.ticks := by
  obtain ⟨caps, nextMsgId, mailboxes, taskIds, hframe, -⟩ :=
    k.send_frame sender recipient msgType payload capTransfer replyTo senderCap unlocked
  rw [h] at hframe
  dsimp only at hframe
  rw [hframe]

/-- **A request succeeds** exactly when its message can be sent and its deadline computed. -/
theorem request_ok_iff :
    (∃ msgId k', k.request sender recipient payload senderCap timeoutTicks unlocked =
      some (.ok msgId, k')) ↔
      k.caps.Grants senderCap sender .write ∧ k.HasRoom recipient ∧
        k.DeadlineFits timeoutTicks := by
  have hsend := k.send_ok_iff sender recipient .request payload none none senderCap unlocked
  have hnone : k.caps.Transferable sender none := fun _ h => nomatch h
  rw [request]
  cases hvalid : k.caps.validate senderCap sender .write with
  | error e => simp [CapabilityTable.grants_iff, hvalid]
  | ok cap =>
    rcases hresult : k.send sender recipient .request payload none none senderCap unlocked with
      ⟨e | msgId, k'⟩
    · have hroom : ¬(k.caps.Grants senderCap sender .write ∧ k.HasRoom recipient) := by
        rintro ⟨hgrants, hroom⟩
        obtain ⟨msgId, hok⟩ := hsend.mpr ⟨hgrants, hnone, hroom⟩
        rw [hresult] at hok
        cases hok
      simp only [Option.some.injEq, Prod.mk.injEq, reduceCtorEq, false_and, exists_false, false_iff]
      exact fun h => hroom ⟨h.1, h.2.1⟩
    · obtain ⟨hgrants, -, hroom⟩ := hsend.mp ⟨msgId, by rw [hresult]⟩
      have hfits : k'.DeadlineFits timeoutTicks ↔ k.DeadlineFits timeoutTicks := by
        rw [DeadlineFits, DeadlineFits, ticks_send k sender recipient payload senderCap unlocked
          hresult]
      by_cases h : k.DeadlineFits timeoutTicks
      · simp [hfits, h, hgrants, hroom]
      · simp [hfits, h]

/-- A request is a send of its message, and an entry in the table of requests when the send
succeeds.  The send checks the capability once more. -/
theorem request_send {result : Except IpcError MessageId} {k' : Kernel}
    (h : k.request sender recipient payload senderCap timeoutTicks unlocked = some (result, k')) :
    ∃ k₁, k.send sender recipient .request payload none none senderCap unlocked = (result, k₁) ∧
      ((∃ e, result = .error e ∧ k' = k₁) ∨
        ∃ msgId, result = .ok msgId ∧ k' = { k₁ with
          pending := k₁.pending.insert msgId ⟨sender, k₁.ticks + timeoutTicks⟩ }) := by
  rw [request] at h
  split at h
  · next hdenied =>
    obtain ⟨rfl, rfl⟩ := Prod.mk.inj (Option.some.inj h)
    refine ⟨k, ?_, .inl ⟨_, rfl, rfl⟩⟩
    rw [send, hdenied]
  · split at h
    · next k₁ hsend =>
      obtain ⟨rfl, rfl⟩ := Prod.mk.inj (Option.some.inj h)
      exact ⟨k₁, hsend, .inl ⟨_, rfl, rfl⟩⟩
    · next msgId k₁ hsend =>
      split_ifs at h
      obtain ⟨rfl, rfl⟩ := Prod.mk.inj (Option.some.inj h)
      exact ⟨k₁, hsend, .inr ⟨msgId, rfl, rfl⟩⟩

/-- A request changes what its message changes, and the table of requests. -/
theorem request_frame {result : Except IpcError MessageId} {k' : Kernel}
    (h : k.request sender recipient payload senderCap timeoutTicks unlocked = some (result, k')) :
    ∃ caps nextMsgId mailboxes taskIds pending,
      k' = { k with
        caps, nextMsgId, mailboxes, tasks := k.tasks.wakeEach taskIds, pending } ∧
      (caps = k.caps ∨ ∃ op, caps = k.caps.step op) := by
  obtain ⟨caps, nextMsgId, mailboxes, taskIds, hframe, hcaps⟩ :=
    k.send_frame sender recipient .request payload none none senderCap unlocked
  obtain ⟨k₁, hsend, hk'⟩ :=
    request_send k sender recipient payload senderCap timeoutTicks unlocked h
  rw [hsend] at hframe
  obtain rfl : k₁ = _ := hframe
  rcases hk' with ⟨-, -, rfl⟩ | ⟨msgId, -, rfl⟩
  · exact ⟨caps, nextMsgId, mailboxes, taskIds, k.pending, rfl, hcaps⟩
  · exact ⟨caps, nextMsgId, mailboxes, taskIds, _, rfl, hcaps⟩

/-- **What a request does to the table of requests**: one that succeeds is entered under the id of
its message, and one that fails leaves the table alone. -/
theorem request_cases {result : Except IpcError MessageId} {k' : Kernel}
    (h : k.request sender recipient payload senderCap timeoutTicks unlocked = some (result, k')) :
    k'.replies = k.replies ∧
      ((result = .ok k.nextMsgId ∧ k'.nextMsgId = k.nextMsgId + 1 ∧
          k'.pending = k.pending.insert k.nextMsgId ⟨sender, k.ticks + timeoutTicks⟩) ∨
        ((∀ msgId, result ≠ .ok msgId) ∧ k.nextMsgId ≤ k'.nextMsgId ∧
          k'.pending = k.pending)) := by
  obtain ⟨caps, nextMsgId, mailboxes, taskIds, hframe, -⟩ :=
    k.send_frame sender recipient .request payload none none senderCap unlocked
  obtain ⟨k₁, hsend, hk'⟩ :=
    request_send k sender recipient payload senderCap timeoutTicks unlocked h
  obtain ⟨hle, hid⟩ := nextMsgId_send hsend
  rw [hsend] at hframe
  obtain rfl : k₁ = _ := hframe
  rcases hk' with ⟨e, rfl, rfl⟩ | ⟨msgId, rfl, rfl⟩
  · refine ⟨rfl, .inr ⟨fun msgId hok => ?_, hle, rfl⟩⟩
    cases hok
  · obtain ⟨rfl, hnext⟩ := hid msgId rfl
    exact ⟨rfl, .inl ⟨rfl, hnext, rfl⟩⟩

end Request

theorem leaveReply_frame (k : Kernel) (originalMsgId : MessageId) (msg : Message)
    (unlocked : Bool) :
    ∃ taskIds, k.leaveReply originalMsgId msg unlocked =
      { k with
        tasks := k.tasks.wakeEach taskIds
        replies := k.replies.insert originalMsgId msg } :=
  ⟨_, wake_eq _ msg.recipient unlocked⟩

/-- **A reply** to a pending request moves it from the requests to the replies; any other reply
fails and changes nothing. -/
theorem reply_cases (k : Kernel) (sender : TaskId) (originalMsgId : MessageId)
    (payload : List UInt8) (senderCap : CapId) (unlocked : Bool) :
    (k.pending[originalMsgId]? = none ∧
        k.reply sender originalMsgId payload senderCap unlocked =
          (.error .recipientNotFound, k)) ∨
      ∃ req taskIds, k.pending[originalMsgId]? = some req ∧
        k.reply sender originalMsgId payload senderCap unlocked =
          (.ok (), { k with
            tasks := k.tasks.wakeEach taskIds
            pending := k.pending.erase originalMsgId
            replies := k.replies.insert originalMsgId
              (replyMsg originalMsgId sender req.requester payload) }) := by
  rw [reply]
  cases hreq : k.pending[originalMsgId]? with
  | none => exact .inl ⟨rfl, rfl⟩
  | some req =>
    obtain ⟨taskIds, hleave⟩ := leaveReply_frame
      { k with pending := k.pending.erase originalMsgId } originalMsgId
      (replyMsg originalMsgId sender req.requester payload) unlocked
    exact .inr ⟨req, taskIds, rfl, congrArg (Prod.mk _) hleave⟩

theorem reply_frame (k : Kernel) (sender : TaskId) (originalMsgId : MessageId)
    (payload : List UInt8) (senderCap : CapId) (unlocked : Bool) :
    ∃ pending replies taskIds,
      (k.reply sender originalMsgId payload senderCap unlocked).2 =
        { k with pending, replies, tasks := k.tasks.wakeEach taskIds } := by
  rcases k.reply_cases sender originalMsgId payload senderCap unlocked with
    ⟨-, hreply⟩ | ⟨req, taskIds, -, hreply⟩
  · exact ⟨k.pending, k.replies, [], congrArg Prod.snd hreply⟩
  · exact ⟨_, _, taskIds, congrArg Prod.snd hreply⟩

/-- One turn of the loop takes out a request and wakes its requester. -/
theorem expire_frame (unlocked : Bool) (k : Kernel) (id : MessageId) :
    ∃ pending taskIds, expire unlocked k id =
      { k with pending, tasks := k.tasks.wakeEach taskIds } := by
  rw [expire]
  split
  · exact ⟨k.pending, [], rfl⟩
  · next req _ => exact ⟨_, _, wake_eq _ req.requester unlocked⟩

/-- Expiring requests wakes tasks. -/
theorem foldl_expire_frame (unlocked : Bool) (ids : List MessageId) (k : Kernel) :
    ∃ pending taskIds, ids.foldl (expire unlocked) k =
      { k with pending, tasks := k.tasks.wakeEach taskIds } := by
  induction ids generalizing k with
  | nil => exact ⟨k.pending, [], rfl⟩
  | cons id ids ih =>
    obtain ⟨pending, taskIds, hexpire⟩ := expire_frame unlocked k id
    obtain ⟨pending', taskIds', hfold⟩ := ih (expire unlocked k id)
    rw [hexpire] at hfold
    refine ⟨pending', taskIds ++ taskIds', ?_⟩
    rw [List.foldl_cons, hexpire, hfold, TaskSystem.wakeEach_append]

/-- The requests that the loop takes out are gone, the others are as they were. -/
theorem getElem?_pending_foldl_expire (unlocked : Bool) (ids : List MessageId) (k : Kernel)
    (id : MessageId) : (ids.foldl (expire unlocked) k).pending[id]? =
      if id ∈ ids then none else k.pending[id]? := by
  induction ids generalizing k with
  | nil => simp
  | cons first ids ih =>
    have hfirst : (expire unlocked k first).pending[id]? =
        if id = first then none else k.pending[id]? := by
      rw [expire]
      split
      · next hnone =>
        by_cases hid : id = first
        · simp [hid, hnone]
        · simp [hid]
      · next req _ =>
        rw [wake_eq, Std.ExtTreeMap.getElem?_erase]
        by_cases hid : id = first
        · simp [hid]
        · simp [hid, Ne.symm hid]
    rw [List.foldl_cons, ih, hfirst]
    by_cases hids : id ∈ ids
    · simp [hids]
    · simp [hids]

theorem mem_expired {k : Kernel} {id : MessageId} :
    id ∈ k.expired ↔ ∃ req, k.pending[id]? = some req ∧ req.deadlineTick ≤ k.ticks := by
  simp only [expired, List.mem_map, List.mem_filter, decide_eq_true_eq, Prod.exists,
    exists_and_right, exists_eq_right, Std.ExtTreeMap.mem_toList_iff_getElem?_eq_some]

theorem nodup_expired (k : Kernel) : k.expired.Nodup :=
  (Std.ExtTreeMap.nodup_keys_toList k.pending).sublist (List.filter_sublist.map Prod.fst)

/-- **The timeout check** takes out exactly the requests whose deadline has come. -/
theorem getElem?_pending_checkTimeouts (k : Kernel) (unlocked : Bool) (id : MessageId) :
    (k.checkTimeouts true unlocked).pending[id]? =
      k.pending[id]?.filter fun req => !decide (req.deadlineTick ≤ k.ticks) := by
  rw [checkTimeouts, if_pos rfl, getElem?_pending_foldl_expire]
  cases hreq : k.pending[id]? with
  | none => simp
  | some req =>
    by_cases hdue : req.deadlineTick ≤ k.ticks
    · have hmem : id ∈ k.expired := mem_expired.mpr ⟨req, hreq, hdue⟩
      simp [hmem, Option.filter, hdue]
    · have hmem : id ∉ k.expired := by
        rw [mem_expired, hreq]
        simpa using hdue
      simp [hmem, Option.filter, hdue]

theorem checkTimeouts_frame (k : Kernel) (pendingUnlocked unlocked : Bool) :
    ∃ pending taskIds, k.checkTimeouts pendingUnlocked unlocked =
      { k with pending, tasks := k.tasks.wakeEach taskIds } := by
  rw [checkTimeouts]
  split_ifs
  · exact foldl_expire_frame unlocked k.expired k
  · exact ⟨k.pending, [], rfl⟩

end Kernel

end OxideOS
