import OxideOS.Agent.Lifecycle
import OxideOS.Kernel.System
import OxideOS.Storage.DiskFormat
import OxideOS.Timer.Deadline

/-!
# System calls

`syscall/handler.rs`: the number of a call and its five arguments, and what each handler does with
them.  Numbers of agents, senders and tasks are arguments like any other; no handler compares them
with the task that makes the call.

Pointers are read as bytes of a memory that is an argument of the model, and every address can be
read.  Interrupts are masked on entry, so that a call is one step up to its switch to another task.
What is printed is left out.
-/

namespace OxideOS

/-- The memory that pointers are read from. -/
structure UserMemory where
  /-- `core::slice::from_raw_parts`. -/
  read : UInt64 → Nat → List UInt8
  length_read : ∀ ptr len, (read ptr len).length = len

/-- A `u64` or `usize` as an `i64`. -/
def asI64 (n : Nat) : Int := Int.bmod n (2 ^ 64)

/-- `AgentState as i64`. -/
def AgentState.code : AgentState → Int
  | .initializing => 0
  | .running => 1
  | .waiting => 2
  | .suspended => 3
  | .dead => 4

/-- A call with its arguments, as `dispatch` hands them on. -/
inductive Syscall
  | exit (code : UInt64)
  | print (ptr len : UInt64)
  | yieldNow
  | agentList
  | agentStatus (agentId : AgentId)
  | agentKill (agentId : AgentId)
  | ipcSend (sender recipient : TaskId) (payloadPtr payloadLen : UInt64) (capId : CapId)
  | ipcReceive (taskId : TaskId)
  | storageSet (agentId : AgentId) (keyPtr keyLen valPtr valLen : UInt64)
  | storageGet (agentId : AgentId) (keyPtr keyLen : UInt64)
  | timerSleep (ticks : UInt64)
  | unknown (number : UInt64)

/-- The numbers that `dispatch` knows, of those in `numbers.rs`. -/
def Syscall.decode (number arg1 arg2 arg3 arg4 arg5 : UInt64) : Syscall :=
  match number.toNat with
  | 0 => .exit arg1
  | 1 => .print arg1 arg2
  | 2 => .yieldNow
  | 11 => .agentKill arg1.toNat
  | 12 => .agentList
  | 13 => .agentStatus arg1.toNat
  | 20 => .ipcSend arg1.toNat arg2.toNat arg3 arg4 arg5.toNat
  | 21 => .ipcReceive arg1.toNat
  | 40 => .storageGet arg1.toNat arg2 arg3
  | 41 => .storageSet arg1.toNat arg2 arg3 arg4 arg5
  | 60 => .timerSleep arg1
  -- also the other numbers of `numbers.rs`, which have no handler
  | _ => .unknown number

/-! ## Arguments that are read from memory -/

namespace UserMemory

/-- The payload of a message: at most 64 KiB. -/
def payload (mem : UserMemory) (ptr len : UInt64) : Option (List UInt8) :=
  if ptr = 0 ∨ 65536 < len.toNat then none else some (mem.read ptr len.toNat)

/-- A key of the context store: at most 256 bytes of text. -/
def key (mem : UserMemory) (ptr len : UInt64) : Option String :=
  if ptr = 0 ∨ 256 < len.toNat then none else fromUtf8 (mem.read ptr len.toNat)

/-- A key and a value of at most 64 KiB. -/
def entry (mem : UserMemory) (keyPtr keyLen valPtr valLen : UInt64) :
    Option (String × List UInt8) :=
  if keyPtr = 0 ∨ valPtr = 0 ∨ 256 < keyLen.toNat ∨ 65536 < valLen.toNat then none
  else (fromUtf8 (mem.read keyPtr keyLen.toNat)).map fun key => (key, mem.read valPtr valLen.toNat)

end UserMemory

/-! ## The handlers -/

/-- The kernel, the registry of agents and the deadlines. -/
structure SyscallState where
  kernel : Kernel
  /-- `REGISTRY`. -/
  registry : AgentRegistry
  /-- `DEADLINES`. -/
  deadlines : DeadlineQueue

namespace SyscallState

/-- The task that makes a call. -/
def current (s : SyscallState) : Option Task := s.kernel.tasks.sched.current

/-- A call of the scheduler on the current task, and then `yield_now`. -/
def markAndYield (s : SyscallState) (mark : TaskOp) : Option SyscallState := do
  let kernel ← s.kernel.withTasks mark
  let kernel ← kernel.reschedule
  some { s with kernel }

def sysPrint (mem : UserMemory) (ptr len : UInt64) : Int :=
  if ptr = 0 ∨ 4096 < len.toNat then -1
  else
    match fromUtf8 (mem.read ptr len.toNat) with
    | some _ => asI64 len.toNat
    | none => -1

def sysAgentStatus (s : SyscallState) (agentId : AgentId) : Int :=
  match s.registry.get agentId with
  | some agent => agent.state.code
  | none => -1

/-- What `sys_agent_kill` returns. -/
def killValue : Except String Unit → Int
  | .ok _ => 0
  | .error _ => -1

/-- `sys_agent_kill`; `none` if the fuel runs out. -/
def sysAgentKill (fuel : Nat) (s : SyscallState) (agentId : AgentId) :
    Option (Int × SyscallState) :=
  (AgentRegistry.kill fuel s.registry agentId).map fun (result, registry) =>
    (killValue result, { s with registry })

/-- What `sys_ipc_send` returns. -/
def sendValue : Except IpcError MessageId → Int
  | .ok msgId => asI64 msgId
  | .error _ => -1

/-- `sys_ipc_send`, where `unlocked` tells whether the scheduler can be locked to wake the
recipient. -/
def sysIpcSend (mem : UserMemory) (unlocked : Bool) (s : SyscallState) (sender recipient : TaskId)
    (payloadPtr payloadLen : UInt64) (capId : CapId) : Int × SyscallState :=
  match mem.payload payloadPtr payloadLen with
  | none => (-1, s)
  | some payload =>
    let (result, kernel) :=
      s.kernel.send sender recipient .data payload none none capId unlocked
    (sendValue result, { s with kernel })

/-- `sys_ipc_receive`: the message is dropped. -/
def sysIpcReceive (s : SyscallState) (taskId : TaskId) : Int × SyscallState :=
  let (msg, kernel) := s.kernel.receive taskId
  (if msg.isSome then 1 else 0, { s with kernel })

/-- `sys_storage_set`.  It calls the store itself, which asks for no capability. -/
def sysStorageSet (mem : UserMemory) (s : SyscallState) (agentId : AgentId)
    (keyPtr keyLen valPtr valLen : UInt64) : Int × SyscallState :=
  match mem.entry keyPtr keyLen valPtr valLen with
  | none => (-1, s)
  | some (key, value) =>
    let (store, fs) := s.kernel.store.set s.kernel.fs agentId key value s.kernel.ticks
    (0, { s with kernel := { s.kernel with store, fs } })

/-- What `sys_storage_get` returns: the length of the value. -/
def getValue : Option (List UInt8) → Int
  | some data => asI64 data.length
  | none => -1

def sysStorageGet (mem : UserMemory) (s : SyscallState) (agentId : AgentId)
    (keyPtr keyLen : UInt64) : Int :=
  match mem.key keyPtr keyLen with
  | none => -1
  | some key => getValue (s.kernel.store.get s.kernel.fs agentId key)

/-- `sys_sleep`; `none` is an overflow of the deadline. -/
def sysSleep (s : SyscallState) (ticks : UInt64) : Option SyscallState :=
  if s.kernel.DeadlineFits ticks then
    match s.current with
    -- nobody to put to sleep
    | none => some s
    | some task =>
      let deadlines := (s.deadlines.schedule task.id (s.kernel.ticks + ticks)).2
      markAndYield { s with deadlines } .blockCurrent
  else none

/-- What a call returns, and the state it leaves.  A call that does not return has no value; `none`
is a panic, or that the fuel of a kill ran out. -/
def handle (mem : UserMemory) (unlocked : Bool) (fuel : Nat) (s : SyscallState) :
    Syscall → Option (Option Int × SyscallState)
  -- there is no way back: if nobody else can run, the `unreachable!` behind the switch panics
  | .exit _ => (s.markAndYield .killCurrent).map fun s => (none, s)
  | .print ptr len => some (some (sysPrint mem ptr len), s)
  | .yieldNow => s.kernel.reschedule.map fun kernel => (some 0, { s with kernel })
  | .agentList => some (some (asI64 s.registry.agents.size), s)
  | .agentStatus agentId => some (some (s.sysAgentStatus agentId), s)
  | .agentKill agentId => (s.sysAgentKill fuel agentId).map fun (value, s) => (some value, s)
  | .ipcSend sender recipient payloadPtr payloadLen capId =>
    let (value, s) := s.sysIpcSend mem unlocked sender recipient payloadPtr payloadLen capId
    some (some value, s)
  | .ipcReceive taskId =>
    let (value, s) := s.sysIpcReceive taskId
    some (some value, s)
  | .storageSet agentId keyPtr keyLen valPtr valLen =>
    let (value, s) := s.sysStorageSet mem agentId keyPtr keyLen valPtr valLen
    some (some value, s)
  | .storageGet agentId keyPtr keyLen =>
    some (some (s.sysStorageGet mem agentId keyPtr keyLen), s)
  | .timerSleep ticks => (s.sysSleep ticks).map fun s => (some 0, s)
  | .unknown _ => some (some (-1), s)

def dispatch (mem : UserMemory) (unlocked : Bool) (fuel : Nat) (s : SyscallState)
    (number arg1 arg2 arg3 arg4 arg5 : UInt64) : Option (Option Int × SyscallState) :=
  s.handle mem unlocked fuel (.decode number arg1 arg2 arg3 arg4 arg5)

/-- The handler of a call returns this. -/
def Handles (mem : UserMemory) (unlocked : Bool) (s : SyscallState) (call : Syscall)
    (value : Option Int) (s' : SyscallState) : Prop :=
  ∃ fuel, s.handle mem unlocked fuel call = some (value, s')

/-- `dispatch` returns this. -/
def Dispatches (mem : UserMemory) (unlocked : Bool) (s : SyscallState)
    (number arg1 arg2 arg3 arg4 arg5 : UInt64) (value : Option Int) (s' : SyscallState) : Prop :=
  ∃ fuel, s.dispatch mem unlocked fuel number arg1 arg2 arg3 arg4 arg5 = some (value, s')

end SyscallState

end OxideOS
