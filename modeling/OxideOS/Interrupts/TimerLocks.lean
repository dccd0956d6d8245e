import OxideOS.Lib.LockProgram
import Mathlib.Algebra.Group.Nat.Defs
import Mathlib.Tactic.ByContra

/-!
# The timer interrupt and the locks of the tasks

`interrupts.rs`, and every function outside of start-up that takes one of the locks its
`timer_handler` asks for, each as the locks it takes.  There is one core, and a task gives it up
only in `yield_now`, where it holds no lock; so the locks that are taken when an interrupt comes are
those of the task that is running, and to the core the calls of all tasks are one sequence of calls.
A task that is resumed, or that starts, enables interrupts first.

The handler asks for the queues of requests and deadlines and for the scheduler with `try_lock`.
The network stack it polls with `lock`, every tenth time: with an interrupt that comes while a task
is in a socket call, or polls the stack itself, the core waits for ever.

Data is left out: a branch may go either way and a loop may run any number of times.  What
`Interface::poll` does with the device is up to the TCP/IP library; it locks the device whenever it
receives or sends a frame, any number of times.  Left out are also the lock of the heap, and the
functions that take none of the six locks in question.

## Main definitions

* `Lock`, `Call`: the locks, and the calls that take one of the six
* `LockUse.timerHandler`: the handler of the timer interrupt
* `Calm`: a timer interrupt that polls the network finds the network's locks free

## Main results

* `timer_never_waits`: the handler never waits for the interrupted task as long as the interrupts
  are calm, and an interrupt that is not can hang the core
* `timer_hangs`: an interrupt during `tcp_send` hangs it
-/

namespace OxideOS

/-- The first six are the locks that the handler of the timer interrupt asks for. -/
inductive Lock
  | interface
  | sockets
  | netDevice
  | pending
  | deadlines
  | scheduler
  | capTable
  | mailboxes
  | replies
  | registry
  | resolver
  | serial
  | frameAllocator
  | idAllocator
deriving DecidableEq

namespace LockUse

open LockProgram

/-- `println!`. -/
def println : LockProgram Lock := masked (briefly .serial)

/-! ## `net/` -/

/-- `OxideNetDevice::receive`, and `OxideTxToken::consume`. -/
def deviceAccess : LockProgram Lock := briefly .netDevice

/-- `stack::poll`. -/
def poll : LockProgram Lock :=
  locked .interface (locked .sockets (either skip (loop deviceAccess)))

def tcpCreate : LockProgram Lock := briefly .sockets

def tcpConnect : LockProgram Lock :=
  seq (briefly .capTable) (orReturn [locked .interface (briefly .sockets)])

def tcpSend : LockProgram Lock := briefly .sockets

def tcpReceive : LockProgram Lock := briefly .sockets

def tcpClose : LockProgram Lock := briefly .sockets

/-- `firewall::check_outbound`, and `firewall::log_decision`. -/
def checkOutbound : LockProgram Lock := seq (briefly .capTable) println

/-- `dns::resolve`. -/
def resolve : LockProgram Lock := briefly .resolver

/-- The way of `http::get` and `http::post` to the connection, and what they do with it. -/
def connected (ps : List (LockProgram Lock)) : LockProgram Lock :=
  seq (briefly .capTable) (orReturn [checkOutbound, orReturn [
    either skip (seq println (either skip println)), resolve, orReturn [
      println, tcpCreate, orReturn [tcpConnect, orReturn (loop poll :: ps)]]]])

/-- Receive the response and close the connection. -/
def response : LockProgram Lock := seq (loop (seq poll tcpReceive)) tcpClose

/-- `http::get`. -/
def httpGet : LockProgram Lock := connected [tcpSend, either tcpClose response]

/-- `http::post`. -/
def httpPost : LockProgram Lock :=
  connected [tcpSend, either tcpClose (seq tcpSend (either tcpClose response))]

/-! ## `ipc/` -/

/-- `message::send`; delegating a capability prints. -/
def send : LockProgram Lock :=
  seq (briefly .capTable) (orReturn [either skip (locked .capTable (orReturn [println])),
    orReturn [locked .mailboxes (orReturn [tryLocked .scheduler skip])]])

/-- `request_reply::request`. -/
def request : LockProgram Lock :=
  seq (briefly .capTable) (orReturn [send, orReturn [briefly .pending]])

/-- `request_reply::reply`. -/
def reply : LockProgram Lock :=
  seq (briefly .pending) (orReturn [briefly .replies, tryLocked .scheduler skip])

/-- `request_reply::check_timeouts`. -/
def checkTimeouts : LockProgram Lock :=
  tryLocked .pending (loop (either skip (tryLocked .scheduler skip)))

/-! ## `timer/deadline.rs` -/

def schedule : LockProgram Lock := briefly .deadlines

def cancel : LockProgram Lock := briefly .deadlines

/-- `tick`, and in it `check_expired`. -/
def deadlineTick : LockProgram Lock :=
  tryLocked .deadlines (loop (tryLocked .scheduler skip))

/-! ## `task/`, `agent/` and `syscall/` -/

/-- `cleanup_dead_task`. -/
def cleanupDeadTask : LockProgram Lock :=
  inOrder [briefly .frameAllocator, briefly .mailboxes, briefly .idAllocator]

/-- `reschedule`, and the switch to the next task. -/
def switch : LockProgram Lock := locked .scheduler (either skip (seq println cleanupDeadTask))

def yieldNow : LockProgram Lock := masked switch

/-- `yield_now` finds interrupts disabled here, and enables them. -/
def blockAndYield : LockProgram Lock := masked (seq (briefly .scheduler) switch)

def exitCurrent : LockProgram Lock := masked (seq (briefly .scheduler) switch)

/-- `SCHEDULER.lock().task_count()`. -/
def taskCount : LockProgram Lock := briefly .scheduler

/-- `SCHEDULER.lock().print_stats()`. -/
def printStats : LockProgram Lock := locked .scheduler println

/-- `sys_sleep`. -/
def sleep : LockProgram Lock :=
  seq (briefly .scheduler) (either skip (seq schedule blockAndYield))

/-- `lifecycle::spawn`; the registry and the scheduler print. -/
def spawn : LockProgram Lock :=
  seq (either skip (briefly .registry)) (orReturn [briefly .idAllocator,
    loop (briefly .frameAllocator), briefly .mailboxes, locked .registry println,
    either skip (briefly .registry), locked .scheduler println, println])

/-! ## `interrupts.rs` -/

/-- `timer_handler`, at this tick. -/
def timerHandler (tick : Nat) : LockProgram Lock :=
  inOrder [if tick % 10 = 0 then poll else skip, if tick % 50 = 0 then checkTimeouts else skip,
    deadlineTick]

end LockUse

/-- The calls that take one of the six locks. -/
inductive Call
  | poll
  | tcpCreate
  | tcpConnect
  | tcpSend
  | tcpReceive
  | tcpClose
  | httpGet
  | httpPost
  | send
  | request
  | reply
  | schedule
  | cancel
  | yieldNow
  | blockAndYield
  | exitCurrent
  | taskCount
  | printStats
  | sleep
  | spawn

def Call.code : Call → LockProgram Lock
  | poll => LockUse.poll
  | tcpCreate => LockUse.tcpCreate
  | tcpConnect => LockUse.tcpConnect
  | tcpSend => LockUse.tcpSend
  | tcpReceive => LockUse.tcpReceive
  | tcpClose => LockUse.tcpClose
  | httpGet => LockUse.httpGet
  | httpPost => LockUse.httpPost
  | send => LockUse.send
  | request => LockUse.request
  | reply => LockUse.reply
  | schedule => LockUse.schedule
  | cancel => LockUse.cancel
  | yieldNow => LockUse.yieldNow
  | blockAndYield => LockUse.blockAndYield
  | exitCurrent => LockUse.exitCurrent
  | taskCount => LockUse.taskCount
  | printStats => LockUse.printStats
  | sleep => LockUse.sleep
  | spawn => LockUse.spawn

/-- The core of the machine; the counter of the ticks has 64 bits. -/
def coreCode : CoreCode Lock Call where
  call := Call.code
  interrupt n := LockUse.timerHandler (n % 2 ^ 64)

/-- A timer interrupt whose handler polls the network finds the network's locks free. -/
def Calm (s : Core Lock) : CoreEvent Call → Prop
  | .interrupt => (s.interrupts + 1) % 2 ^ 64 % 10 = 0 →
      Lock.interface ∉ s.task.held ∧ Lock.sockets ∉ s.task.held
  | _ => True

instance (s : Core Lock) : (e : CoreEvent Call) → Decidable (Calm s e)
  | .interrupt => inferInstanceAs (Decidable (_ → _ ∧ _))
  | .call _ => .isTrue trivial
  | .task _ => .isTrue trivial
  | .handler _ => .isTrue trivial

variable {s : Core Lock}

/-- The device is only used by those who poll the stack. -/
theorem guarded_netDevice (call : Call) : call.code.Guarded .interface .netDevice := by
  cases call <;> decide

/-- The handler waits for the network at most, and only when it polls. -/
theorem awaits_timerHandler (tick : Nat) :
    (LockUse.timerHandler tick).awaits =
      if tick % 10 = 0 then [.interface, .sockets, .netDevice] else [] := by
  rw [LockUse.timerHandler]
  split_ifs <;> rfl

theorem Calm.clearEvent {e : CoreEvent Call} (hs : (Core.system coreCode).Reachable s)
    (h : Calm s e) : Core.ClearEvent coreCode s e := by
  cases e with
  | interrupt =>
    intro l hl
    rw [coreCode, awaits_timerHandler] at hl
    split at hl
    · next htick =>
      obtain ⟨hinterface, hsockets⟩ := h htick
      have hdevice : Lock.netDevice ∉ s.task.held := fun hheld =>
        hinterface (Core.held_of_guarded guarded_netDevice hs hheld)
      simp only [List.mem_cons, List.not_mem_nil, or_false] at hl
      rcases hl with rfl | rfl | rfl
      · exact hinterface
      · exact hsockets
      · exact hdevice
    · cases hl
  | call => trivial
  | task => trivial
  | handler => trivial

/-- An interrupt that is not calm hangs the core: its handler comes to wait for a lock of the
network that the task holds. -/
theorem exists_waits_of_not_calm (h : ¬Calm s .interrupt) :
    ∃ t l, Relation.ReflTransGen (Core.Handles coreCode) (s.interrupted coreCode) t ∧
      t.Waits l := by
  rw [Calm, Classical.not_imp, not_and_or, not_not, not_not] at h
  obtain ⟨htick, hheld⟩ := h
  have hhandler : (s.interrupted coreCode).handler = some [.run (LockUse.timerHandler
      ((s.interrupts + 1) % 2 ^ 64))] := rfl
  rw [LockUse.timerHandler, if_pos htick] at hhandler
  have hpoll := Core.handles_seq coreCode hhandler
  by_cases hinterface : Lock.interface ∈ s.task.held
  · exact ⟨_, .interface, .single hpoll, hinterface, _, _, rfl⟩
  · refine ⟨_, .sockets, .tail (.single hpoll) (Core.handles_locked coreCode rfl hinterface ?_),
      hheld.resolve_left hinterface, _, _, rfl⟩
    exact List.not_mem_nil

/-- **The handler of the timer interrupt never waits for the interrupted task** in a run in which
every timer interrupt is calm; and in every state of such a run an interrupt that can come is calm
if and only if its handler will not wait for the task, whatever it does. -/
theorem timer_never_waits (h : ((Core.system coreCode).restrict Calm).Reachable s) :
    (∀ l, ¬s.Waits l) ∧
      (s.Interruptible → (Calm s .interrupt ↔
        ∀ t, Relation.ReflTransGen (Core.Handles coreCode) (s.interrupted coreCode) t →
          ∀ l, ¬t.Waits l)) := by
  have hclear := Core.clear_of_reachable (fun s e hs he => he.clearEvent hs) h
  refine ⟨hclear.not_waits, fun _ => ⟨fun hcalm t ht => ?_, fun hnot => ?_⟩⟩
  · have hinterrupted := Core.clear_interrupted (hcalm.clearEvent h.of_restrict)
    exact (hinterrupted.handles ht).not_waits
  · by_contra hcalm
    obtain ⟨t, l, ht, hwaits⟩ := exists_waits_of_not_calm hcalm
    exact hnot t ht l hwaits

/-- The first tick comes while a socket is written to. -/
def calmRun : List (CoreEvent Call) := [.call .tcpSend, .task false, .interrupt]

theorem timer_never_waits_calmRun :
    ∃ s, calmRun.foldlM (Core.step coreCode) .idle = some s ∧ Lock.sockets ∈ s.task.held ∧
      s.interrupts = 1 ∧ ∀ l, ¬s.Waits l := by
  refine ⟨_, rfl, List.mem_cons_self, rfl, (timer_never_waits ?_).1⟩
  exact TransitionSystem.reachable_restrict_ofPartial_iff.mpr ⟨calmRun, rfl⟩

/-- A tick whose handler has nothing to do but to look at the deadlines. -/
def quietTick : List (CoreEvent Call) := .interrupt :: List.replicate 8 (.handler false)

/-- Nine ticks pass; the tenth comes while a socket is written to. -/
def hangingRun : List (CoreEvent Call) :=
  (List.replicate 9 quietTick).flatten ++
    [.call .tcpSend, .task false, .interrupt, .handler false, .handler false]

/-- **An interrupt during `tcp_send` hangs the core** if it is the tenth: the handler waits for the
sockets that the task holds, and nothing can happen any more. -/
theorem timer_hangs :
    ∃ s, (Core.system coreCode).Reachable s ∧ s.Waits .sockets ∧
      ∀ e, Core.step coreCode s e = none := by
  refine ⟨_, TransitionSystem.reachable_ofPartial_iff.mpr ⟨hangingRun, rfl⟩,
    ⟨List.mem_cons_self, _, _, rfl⟩, fun e => ?_⟩
  cases e <;> rfl

end OxideOS
