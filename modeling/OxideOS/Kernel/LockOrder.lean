import OxideOS.Interrupts.TimerLocks
import OxideOS.Lib.LockOrder

/-!
# The order of the kernel's locks

Every function of the kernel that takes a lock once the system runs, as the locks it takes.  Some
take a lock while they hold another: the comments in the sources ask for `CAP_TABLE` before `STORE`
before `FS`, for `CACHE` before the disk, and for `INTERFACE` before `SOCKETS`.  The scheduler
prints, and frees the stack, the mailbox and the number of a dead task, under its own lock; the
regions of shared memory ask for a capability under theirs; a file system that is synced holds its
cache, and the cache the disk; and a message is put into its mailbox before the scheduler is asked,
with `try_lock`, to wake the recipient up.  Ranks that go up along all of these are given here, so
no threads that call any of these functions, on however many cores and interleaved in any way, can
wait for each other in a circle.

As for the timer interrupt, data is left out, and the lock of the heap, under which no other lock is
taken.  The functions that kill agents call each other while they hold no lock: they are seen as any
number of looks at the registry and of lines printed.

## Main definitions

* `KernelLock`, `KernelLock.rank`: the locks, in order
* `kernelCode`, `KernelCall`: the functions, by the locks each takes

## Main results

* `ascending_code`: every function waits for locks in order
* `locks_never_deadlock`: no reachable state of any threads is a deadlock
-/

namespace OxideOS

/-- The locks of the kernel: those that were met with the timer interrupt, and the others. -/
inductive KernelLock
  | basic (l : Lock)
  | channels
  | sharedRegions
  | store
  | fs
  | cache
  | blkDevice
  | gpuScheduler
  | hmacKey
  | agentKeys
  | fallback
deriving DecidableEq

/-- The order: a lock is waited for only while those that are held come before it. -/
def KernelLock.rank : KernelLock → ℕ
  | basic .capTable => 1
  | store => 2
  | fs => 3
  | cache => 4
  | blkDevice => 5
  | basic .sockets => 1
  | basic .netDevice => 2
  | basic .mailboxes => 1
  | basic .frameAllocator => 1
  | basic .idAllocator => 1
  -- a line may be printed under any other lock
  | basic .serial => 6
  -- the regions, the interface, the scheduler, and what is locked on its own
  | _ => 0

namespace KernelLocks

open LockProgram

/-- A function that was met with the timer interrupt. -/
def same (p : LockProgram Lock) : LockProgram KernelLock := p.map .basic

/-- `println!` and `print!`. -/
def println : LockProgram KernelLock := same LockUse.println

/-! ## `capability/table.rs`, under the lock of the table -/

/-- `CapabilityTable::create_root`. -/
def createRoot : LockProgram KernelLock := println

/-- `CapabilityTable::delegate`. -/
def delegate : LockProgram KernelLock := orReturn [println]

/-- `CapabilityTable::revoke`. -/
def revoke : LockProgram KernelLock := orReturn [println]

/-- `CAP_TABLE.lock().validate(..)`. -/
def validate : LockProgram KernelLock := briefly (.basic .capTable)

/-! ## `memory/` and `task/` -/

/-- `paging::alloc_and_map`: a frame, and frames for page tables. -/
def allocAndMap : LockProgram KernelLock :=
  seq (briefly (.basic .frameAllocator)) (loop (briefly (.basic .frameAllocator)))

/-- `Task::new`. -/
def taskNew : LockProgram KernelLock := seq (briefly (.basic .idAllocator)) (loop allocAndMap)

/-- `Task::gc_capabilities`. -/
def gcCapabilities : LockProgram KernelLock := briefly (.basic .capTable)

/-! ## `agent/` -/

/-- `lifecycle::kill`, `supervisor::notify_child_death` and `supervisor::escalate`. -/
def kill : LockProgram KernelLock := loop (either (briefly (.basic .registry)) println)

/-- `lifecycle::suspend` and `lifecycle::resume`, `sys_agent_list` and `sys_agent_status`. -/
def agentAccess : LockProgram KernelLock := briefly (.basic .registry)

/-- `REGISTRY.lock().print_tree()`. -/
def printTree : LockProgram KernelLock := locked (.basic .registry) (loop println)

/-! ## `ipc/` -/

/-- `message::register_mailbox`, `unregister_mailbox`, `receive` and `mailbox_len`. -/
def mailboxAccess : LockProgram KernelLock := briefly (.basic .mailboxes)

/-- `request_reply::collect_reply`. -/
def collectReply : LockProgram KernelLock := briefly (.basic .replies)

/-- `channel::create`. -/
def channelCreate : LockProgram KernelLock := seq println (briefly .channels)

/-- `channel::subscribe`. -/
def subscribe : LockProgram KernelLock := seq validate (orReturn [briefly .channels])

/-- `channel::unsubscribe`. -/
def unsubscribe : LockProgram KernelLock := briefly .channels

/-- `channel::publish`. -/
def publish : LockProgram KernelLock :=
  seq validate (orReturn [briefly .channels, orReturn [briefly (.basic .mailboxes)]])

/-- `shared_memory::create_region`. -/
def createRegion : LockProgram KernelLock :=
  seq (briefly (.basic .frameAllocator))
    (orReturn [println, locked (.basic .capTable) createRoot, briefly .sharedRegions])

/-- `shared_memory::grant_access`: the capability is created under the lock of the regions. -/
def grantAccess : LockProgram KernelLock :=
  seq validate (orReturn [locked .sharedRegions
    (orReturn [locked (.basic .capTable) createRoot, println])])

/-! ## `storage/` -/

/-- `BlockCache::evict_one`. -/
def evictOne : LockProgram KernelLock := either skip (briefly .blkDevice)

/-- `BlockCache::read`. -/
def cacheRead : LockProgram KernelLock :=
  either skip (seq (briefly .blkDevice) (orReturn [either skip evictOne]))

/-- `BlockCache::write`. -/
def cacheWrite : LockProgram KernelLock := either skip evictOne

/-- `BlockCache::flush`. -/
def cacheFlush : LockProgram KernelLock := briefly .blkDevice

/-- `OxideFs::sync_to_disk`. -/
def syncToDisk : LockProgram KernelLock :=
  locked .cache (inOrder [cacheWrite, loop cacheWrite, cacheFlush, println])

/-- `OxideFs::load_from_disk`. -/
def loadFromDisk : LockProgram KernelLock :=
  locked .cache (seq cacheRead (orReturn [println, loop cacheRead]))

/-- `FS.lock().sync_to_disk()`. -/
def fsSync : LockProgram KernelLock := locked .fs syncToDisk

/-- `oxide_fs::init`. -/
def fsInit : LockProgram KernelLock :=
  seq (locked .fs loadFromDisk) (seq (either skip (briefly .fs)) println)

/-- `STORE.lock()` with `ContextStore::set`, `delete`, `keys` or `clear_agent`. -/
def storeUpdate : LockProgram KernelLock := locked .store (briefly .fs)

/-- `STORE.lock().get(..)`. -/
def storeGet : LockProgram KernelLock := locked .store (either skip (briefly .fs))

/-- `context_store::set`. -/
def contextSet : LockProgram KernelLock := seq validate (orReturn [storeUpdate])

/-- `context_store::get`. -/
def contextGet : LockProgram KernelLock := seq validate (orReturn [storeGet])

/-! ## `gpu/` and `crypto/` -/

/-- `scheduler::submit_request`. -/
def submitRequest : LockProgram KernelLock := seq validate (orReturn [briefly .gpuScheduler])

/-- `rng::random_u64`. -/
def randomU64 : LockProgram KernelLock := either skip (briefly .fallback)

/-- `rng::fill_bytes`. -/
def fillBytes : LockProgram KernelLock := loop randomU64

/-- `hmac_cap::init`. -/
def hmacInit : LockProgram KernelLock := inOrder [fillBytes, briefly .hmacKey, println]

/-- `hmac_cap::generate_tag` and `verify_tag`. -/
def tag : LockProgram KernelLock := briefly .hmacKey

/-- `signing::generate_agent_keypair`. -/
def generateAgentKeypair : LockProgram KernelLock := seq fillBytes (briefly .agentKeys)

/-- `signing::sign` and `get_public_key`, and `KeyPair::verify`. -/
def keyAccess : LockProgram KernelLock := briefly .agentKeys

end KernelLocks

open LockProgram KernelLocks in
/-- The functions: those that were met with the timer interrupt, what the interrupt itself calls,
and the others. -/
def kernelCode : List (LockProgram KernelLock) :=
  -- `net/`
  [same LockUse.poll, same LockUse.tcpCreate, same LockUse.tcpConnect, same LockUse.tcpSend,
    same LockUse.tcpReceive, same LockUse.tcpClose, same LockUse.httpGet, same LockUse.httpPost,
    same LockUse.resolve, same LockUse.checkOutbound,
    -- `timer/`, and `task/`
    same LockUse.schedule, same LockUse.cancel, same LockUse.deadlineTick, same LockUse.sleep,
    same LockUse.yieldNow, same LockUse.blockAndYield, same LockUse.exitCurrent,
    same LockUse.taskCount, same LockUse.printStats, taskNew, gcCapabilities,
    -- `capability/` and `agent/`
    locked (.basic .capTable) delegate, locked (.basic .capTable) revoke, validate,
    same LockUse.spawn, kill, agentAccess, printTree,
    -- `ipc/`
    mailboxAccess, same LockUse.send, same LockUse.request, same LockUse.reply,
    same LockUse.checkTimeouts, collectReply, channelCreate, subscribe, unsubscribe, publish,
    createRegion, grantAccess,
    -- `storage/`, `gpu/` and `crypto/`
    fsSync, fsInit, storeUpdate, storeGet, contextSet, contextGet, submitRequest, fillBytes,
    hmacInit, tag, generateAgentKeypair, keyAccess, println]

/-- A call of one of the functions. -/
abbrev KernelCall := { p // p ∈ kernelCode }

abbrev KernelCall.code : KernelCall → LockProgram KernelLock := Subtype.val

/-- Every function waits for locks in order. -/
theorem ascending_code (call : KernelCall) : call.code.Ascending KernelLock.rank 0 := by
  have hall : ∀ p ∈ kernelCode, p.Ascending KernelLock.rank 0 := by decide
  exact hall call.val call.property

/-- **The kernel's locks never deadlock.**  However many threads call the kernel, and however they
are interleaved: a lock is held by one thread at most, whoever waits waits for another thread, which
waits for a lock of higher rank if at all, and while there is anything to do some thread can go on,
whichever way it branches. -/
theorem locks_never_deadlock {n : ℕ} {s : Threads n KernelLock}
    (h : (Threads.system n KernelCall.code).Reachable s) :
    (∀ i j l, l ∈ (s i).held → l ∈ (s j).held → i = j) ∧
      (∀ i l, s.Waits i l → ∃ j, j ≠ i ∧ l ∈ (s j).held ∧
        ∀ l', s.Waits j l' → l.rank < l'.rank) ∧
      ((∃ i, s i ≠ []) →
        ∀ choice, ∃ i t, Threads.step KernelCall.code s (.step i choice) = some t) := by
  have hs := Threads.ordered_of_reachable ascending_code h
  refine ⟨hs.exclusive, fun i l hwaits => ?_, fun hbusy choice => ?_⟩
  · obtain ⟨j, hj, hheld⟩ := hs.exists_holder hwaits
    exact ⟨j, hj, hheld, fun l' hwaits' => hs.rank_lt hwaits' hheld⟩
  · obtain ⟨i, k, hadvance⟩ := hs.exists_advance hbusy choice
    refine ⟨i, Function.update s i k, ?_⟩
    rw [Threads.step, hadvance]
    rfl

theorem mem_grantAccess : KernelLocks.grantAccess ∈ kernelCode := by simp [kernelCode]

theorem mem_delegate : .locked (.basic .capTable) KernelLocks.delegate ∈ kernelCode := by
  simp [kernelCode]

/-- One thread grants access to a region and is about to create the capability; another has locked
the table of capabilities to delegate one. -/
def crossingRun : List (ThreadEvent 2 KernelCall) :=
  .call 0 ⟨_, mem_grantAccess⟩ :: List.replicate 8 (.step 0 false) ++
    [.call 1 ⟨_, mem_delegate⟩, .step 1 false]

/-- The first thread waits for the second, and one of them can go on. -/
theorem locks_never_deadlock_crossing :
    ∃ s, crossingRun.foldlM (Threads.step KernelCall.code) Threads.idle = some s ∧
      s.Waits 0 (.basic .capTable) ∧
      ∃ i t, Threads.step KernelCall.code s (.step i false) = some t := by
  refine ⟨_, rfl, ⟨_, _, rfl, .inl ?_⟩, ?_⟩
  · exact Threads.mem_taken.mpr ⟨1, by decide, List.mem_cons_self⟩
  · refine (locks_never_deadlock (TransitionSystem.reachable_ofPartial_iff.mpr
      ⟨crossingRun, rfl⟩)).2.2 ⟨1, ?_⟩ false
    exact List.cons_ne_nil _ _

end OxideOS
