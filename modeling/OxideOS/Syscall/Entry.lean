import OxideOS.Lib.X64Stack
import OxideOS.Task.Resumption

/-!
# System calls, instruction by instruction

`syscall/mod.rs`: on `syscall` the processor jumps to `syscall_entry` with the return address in
`rcx` and the flags in `r11`.  The code there saves them and the registers that a function keeps on
the stack of the caller, moves the arguments to where the dispatcher expects them, calls it,
restores what it saved, and returns with `sysretq`.  The dispatcher may put the task to sleep, or
yield: other tasks then run in between, spawn tasks and switch, before this one goes on.  The caller
nevertheless gets everything back, so long as the task itself leaves the saved words alone.

## Main definitions

* `SyscallEntry.before`, `SyscallEntry.after`: the code around the call of the dispatcher
* `SyscallEntry.Stub.enter`, `SyscallEntry.leave`: up to the dispatcher, and from it
* `SyscallEntry.LeavesFrame`: what is asked of the task in between

## Main results

* `SyscallEntry.frame_preserved`: the saved words survive any run of the tasks
* `SyscallEntry.syscall_returns`: the dispatcher gets the arguments, and the caller gets its
  registers, its flags and its stack back
-/

namespace OxideOS

namespace SyscallEntry

open X64 ContextSwitch

/-! ## The code -/

/-- `syscall_entry`, up to the call. -/
def before : List StackInstr :=
  [.push .rcx,
   .push .r11,
   .push .rbp,
   .push .rbx,
   .push .r12,
   .push .r13,
   .push .r14,
   .push .r15,
   .mov .r9 .r8,
   .mov .r8 .r10,
   .mov .rcx .rdx,
   .mov .rdx .rsi,
   .mov .rsi .rdi,
   .mov .rdi .rax]

/-- `syscall_entry` behind the call, up to `sysretq`. -/
def after : List StackInstr :=
  [.pop .r15,
   .pop .r14,
   .pop .r13,
   .pop .r12,
   .pop .rbx,
   .pop .rbp,
   .pop .r11,
   .pop .rcx]

/-- What is saved, in the order of the pushes. -/
def saved : List Reg := [.rcx, .r11, .rbp, .rbx, .r12, .r13, .r14, .r15]

/-- `SFMASK`: the interrupt flag. -/
def sfmask : UInt64 := 0x200

/-- The addresses of `syscall_entry`, of the dispatcher, and of the code behind its call. -/
structure Stub where
  entry : UInt64
  dispatch : UInt64
  ret : UInt64

/-- From `syscall` to the first instruction of the dispatcher. -/
def Stub.enter (stub : Stub) (user : Processor) : Cpu :=
  ((user.syscall stub.entry sfmask).cpu.runStack before).call stub.dispatch stub.ret

/-- From the return of the dispatcher to the caller. -/
def leave (cpu : Cpu) : Processor := sysretq (cpu.runStack after)

/-- The words that are saved on the stack of the caller. -/
def frame (user : Processor) : Set Nat :=
  Set.Ico ((user.cpu.regs .rsp).toNat - 64) (user.cpu.regs .rsp).toNat

/-! ## To the dispatcher -/

variable {stub : Stub} {user : Processor} {r : Reg}

/-- The arguments are moved behind the pushes. -/
def argumentMoves : List StackInstr := before.drop 8

theorem runStack_before (cpu : Cpu) :
    cpu.runStack before = (cpu.pushAll saved).runStack argumentMoves :=
  rfl

theorem runStack_after (cpu : Cpu) : cpu.runStack after = cpu.popAll saved.reverse := rfl

/-- The processor behind the pushes. -/
def Stub.pushed (stub : Stub) (user : Processor) : Cpu :=
  (user.syscall stub.entry sfmask).cpu.pushAll saved

theorem pushed_regs (hr : r ∉ [Reg.rsp, .rcx, .r11]) :
    (stub.pushed user).regs r = user.cpu.regs r := by
  simp only [List.mem_cons, List.not_mem_nil, or_false, not_or] at hr
  obtain ⟨hrsp, hrcx, hr11⟩ := hr
  rw [Stub.pushed, pushAll_regs_of_ne hrsp]
  exact (Function.update_of_ne hr11 _ _).trans (Function.update_of_ne hrcx _ _)

/-- Where the dispatcher expects the number of the call and its arguments. -/
def dispatchArgs : List Reg := [.rdi, .rsi, .rdx, .rcx, .r8, .r9]

/-- Where the caller has put them. -/
def callerArgs : List Reg := [.rax, .rdi, .rsi, .rdx, .r10, .r8]

/-- The moves: no register is overwritten before it was moved on. -/
theorem regs_argumentMoves (cpu : Cpu) :
    dispatchArgs.map (cpu.runStack argumentMoves).regs = callerArgs.map cpu.regs :=
  rfl

theorem rsp_argumentMoves (cpu : Cpu) :
    (cpu.runStack argumentMoves).regs .rsp = cpu.regs .rsp :=
  rfl

theorem rsp_before (cpu : Cpu) :
    (cpu.runStack before).regs .rsp = (cpu.pushAll saved).regs .rsp := by
  rw [runStack_before, rsp_argumentMoves]

theorem enter_rsp : (stub.enter user).regs .rsp = (stub.pushed user).regs .rsp - 8 := by
  rw [Stub.enter, call_regs_rsp, rsp_before, Stub.pushed]

/-- **The arguments of the dispatcher** are those of the caller. -/
theorem enter_args : dispatchArgs.map (stub.enter user).regs = callerArgs.map user.cpu.regs := by
  have hdispatch : ∀ r ∈ dispatchArgs, r ≠ .rsp := by decide
  have hcaller : ∀ r ∈ callerArgs, r ∉ [Reg.rsp, .rcx, .r11] := by decide
  calc dispatchArgs.map (stub.enter user).regs
      = dispatchArgs.map ((stub.pushed user).runStack argumentMoves).regs :=
        List.map_congr_left fun r hr => call_regs_of_ne (hdispatch r hr)
    _ = callerArgs.map (stub.pushed user).regs := regs_argumentMoves _
    _ = callerArgs.map user.cpu.regs :=
        List.map_congr_left fun r hr => pushed_regs (hcaller r hr)

/-- The dispatcher finds the address behind its call on the stack. -/
theorem enter_ret :
    (stub.enter user).mem.read64 ((stub.enter user).regs .rsp).toNat = stub.ret := by
  rw [Stub.enter, call_regs_rsp]
  exact ByteMemory.read64_write64_self _ _ _

/-! ## The saved words -/

/-- What is saved of a register. -/
def savedValue (user : Processor) : Reg → UInt64
  | .rcx => user.cpu.rip
  | .r11 => user.rflags
  | r => user.cpu.regs r

section Saved

variable (stub) (hroom : 72 ≤ (user.cpu.regs .rsp).toNat)

include hroom

theorem toNat_pushed :
    ((stub.pushed user).regs .rsp).toNat = (user.cpu.regs .rsp).toNat - 64 :=
  toNat_pushAll_rsp (Nat.le_trans (by decide) hroom)

/-- The return address is written below the saved words. -/
theorem eqOn_enter : Set.EqOn (stub.enter user).mem (stub.pushed user).mem (frame user) := by
  refine ByteMemory.eqOn_write64 (Set.disjoint_left.mpr fun a ha hin => ?_)
  have hpushed := toNat_pushed stub hroom
  rw [rsp_before, ← Stub.pushed, toNat_sub_eight (by omega), hpushed, Set.mem_Ico] at hin
  rw [frame, Set.mem_Ico] at ha
  omega

/-- The words of the frame, from the last push up. -/
theorem readWords_pushed :
    (stub.pushed user).mem.readWords ((user.cpu.regs .rsp).toNat - 64) saved.length =
      saved.reverse.map (savedValue user) := by
  have hwords := @readWords_pushAll (user.syscall stub.entry sfmask).cpu saved 0 (by decide)
    (Nat.le_trans (by decide) hroom)
  exact hwords.trans rfl

variable {stub} {exit : Cpu} (hrsp : (exit.regs .rsp).toNat = (user.cpu.regs .rsp).toNat - 64)
  (hmem : Set.EqOn exit.mem (stub.pushed user).mem (frame user))

include hrsp hmem

/-- **The saved registers are found again**, if the words on the stack are still there. -/
theorem leave_saved (hr : r ∈ saved) : (exit.runStack after).regs r = savedValue user r := by
  have hwords : exit.mem.readWords (exit.regs .rsp).toNat saved.reverse.length =
      saved.reverse.map (savedValue user) := by
    rw [hrsp, List.length_reverse, ← readWords_pushed stub hroom]
    refine ByteMemory.readWords_congr (hmem.mono (Set.Ico_subset_Ico le_rfl ?_))
    rw [show 8 * saved.length = 64 from rfl]
    omega
  have hroom' : (exit.regs .rsp).toNat + 8 * saved.reverse.length < 2 ^ 64 := by
    have hlt := (user.cpu.regs .rsp).toNat_lt
    rw [hrsp, show 8 * saved.reverse.length = 64 from rfl]
    omega
  rw [runStack_after]
  exact popAll_regs (by decide) hroom' hwords (List.mem_reverse.mpr hr)

omit hmem in
theorem leave_rsp : (exit.runStack after).regs .rsp = user.cpu.regs .rsp := by
  have hlt := (user.cpu.regs .rsp).toNat_lt
  have hpop : ((exit.popAll saved.reverse).regs .rsp).toNat =
      (exit.regs .rsp).toNat + 8 * saved.reverse.length := by
    refine toNat_popAll_rsp (by decide) ?_
    rw [hrsp, show 8 * saved.reverse.length = 64 from rfl]
    omega
  rw [runStack_after]
  refine UInt64.toNat_inj.mp (hpop.trans ?_)
  rw [hrsp, show 8 * saved.reverse.length = 64 from rfl]
  omega

end Saved

theorem leave_rip (cpu : Cpu) : (leave cpu).cpu.rip = (cpu.runStack after).regs .rcx := rfl

theorem leave_rflags (cpu : Cpu) :
    (leave cpu).rflags = ((cpu.runStack after).regs .r11 &&& 0x3C7FD7) ||| 2 :=
  rfl

theorem leave_regs (cpu : Cpu) : (leave cpu).cpu.regs = (cpu.runStack after).regs := rfl

/-! ## In between -/

section Suspended

variable {ι : Type} [DecidableEq ι] {image : Image} {layout : TaskLayout ι} {id : ι}
  {words : Set Nat}

/-- What is asked of a task while words of its stack are to be kept: it does not write to them, it
switches with its stack pointer below them, and nobody spawns another task in its place. -/
def LeavesFrame (id : ι) (words : Set Nat) (w : World ι) : Op ι → Prop
  | .work cpu => w.current = id → Set.EqOn cpu.mem w.cpu.mem words
  | .spawn j _ => j ≠ id
  | .contextSwitch _ _ => w.current = id → ∀ a ∈ words, (w.cpu.regs .rsp).toNat ≤ a

/-- The task executes, or is switched away from. -/
def Alive (id : ι) (w : World ι) : Prop :=
  w.current = id ∨ ∃ regs ret, w.status id = .away regs ret

variable {w w' : World ι} {op : Op ι}

/-- One operation leaves the words alone, whoever executes it. -/
theorem eqOn_step (hsound : w.Sound image layout) (halive : Alive id w)
    (hwords : words ⊆ layout.stack id) (hok : w.Allowed layout op)
    (hleaves : LeavesFrame id words w op) :
    Alive id (w.step image layout op) ∧
      Set.EqOn (w.step image layout op).cpu.mem w.cpu.mem words := by
  have hslot : ∀ j, Disjoint words (slotRange (layout.slot j)) := fun j =>
    (layout.slot_stack_disjoint j id).symm.mono_left hwords
  rcases halive with hcurrent | ⟨regs, ret, hstatus⟩
  · cases op with
    | work cpu => exact ⟨.inl hcurrent, hleaves hcurrent⟩
    | spawn j entry => exact ⟨.inl hcurrent, CpuContext.eqOn_write _ _ (hslot j)⟩
    | contextSwitch new ret =>
      have hne : id ≠ new := fun heq =>
        hsound.ne_current hok.1 (heq.symm.trans hcurrent.symm)
      refine ⟨.inr ⟨w.cpu.regs, ret, ?_⟩, ?_⟩
      · refine (Function.update_of_ne hne _ _).trans ?_
        rw [hcurrent, Function.update_self]
      · have hbelow : Disjoint words (Set.Ico (w.cpu.regs .rsp - 8).toNat
            ((w.cpu.regs .rsp - 8).toNat + 8)) := by
          refine Set.disjoint_left.mpr fun a ha hin => ?_
          have habove := hleaves hcurrent a ha
          have hin8 := hok.2.1
          rw [toNat_sub_eight (by omega), Set.mem_Ico] at hin
          omega
        rw [(hsound.resumed hok).1]
        exact (CpuContext.eqOn_write _ _ (hslot w.current)).trans (ByteMemory.eqOn_write64 hbelow)
  · rcases hsound.step_cases hok id with ⟨-, hsame, hmem⟩ | ⟨entry, rfl, -, -⟩ |
      ⟨new, ret', rfl, hcurrent, -, -⟩ | ⟨ret', rfl, -⟩
    · rw [hstatus] at hmem
      exact ⟨.inr ⟨regs, ret, hsame.trans hstatus⟩,
        hmem.mono (hwords.trans Set.subset_union_right)⟩
    · exact absurd rfl hleaves
    · have hrunning := hsound.current_running
      rw [hcurrent, hstatus] at hrunning
      cases hrunning
    · have hne : id ≠ w.current := hsound.ne_current hok.1
      have hheld : words ⊆ layout.held id (.away regs ret) := hwords.trans Set.subset_union_right
      rw [(hsound.resumed hok).1]
      exact ⟨.inl rfl, (TaskLayout.eqOn_memAfter hok.2 hne).mono hheld⟩

/-- **The words survive any run of the tasks.** -/
theorem frame_preserved {ops : List (Op ι)} (hsound : w.Sound image layout) (halive : Alive id w)
    (hwords : words ⊆ layout.stack id)
    (hrun : ((World.system image layout).restrict (LeavesFrame id words)).Run w ops w') :
    Set.EqOn w'.cpu.mem w.cpu.mem words := by
  have hkeep := hrun.preserves
    (P := fun v => v.Sound image layout ∧ Alive id v ∧ Set.EqOn v.cpu.mem w.cpu.mem words) ?_
    ⟨hsound, halive, Set.eqOn_refl _ _⟩
  · exact hkeep.2.2
  · rintro v op _ ⟨hv, hvalive, hveq⟩ ⟨⟨hok, rfl⟩, hleaves⟩
    obtain ⟨halive', heq⟩ := eqOn_step hv hvalive hwords hok hleaves
    exact ⟨hv.step hok, halive', heq.trans hveq⟩

/-- **A system call gives back what it was called with.**  A task executes `syscall`; the dispatcher
runs and returns, while any other tasks run, spawn and switch in between; and the words that
`syscall_entry` saved lie in the stack of the task, which the task itself leaves alone.  Then the
dispatcher got the number of the call and its arguments, and the task goes on behind its `syscall`,
with the result in `rax`, its own stack pointer, the registers that a function keeps, and its flags
but for those that `sysretq` clears. -/
theorem syscall_returns (image : Image) (layout : TaskLayout ι) (stub : Stub) {user : Processor}
    {ops : List (Op ι)} (hroom : 72 ≤ (user.cpu.regs .rsp).toNat)
    (hframe : frame user ⊆ layout.stack id)
    (hreach : (World.system image layout).Reachable w) (hcurrent : w.current = id)
    (henter : w.cpu = stub.enter user)
    (hrun : ((World.system image layout).restrict (LeavesFrame id (frame user))).Run w ops w')
    (hreturns : Returns w.cpu w'.cpu) :
    dispatchArgs.map w.cpu.regs = callerArgs.map user.cpu.regs ∧
    w'.cpu.rip = stub.ret ∧
    (leave w'.cpu).cpu.rip = user.cpu.rip ∧
    (leave w'.cpu).rflags = (user.rflags &&& 0x3C7FD7) ||| 2 ∧
    (leave w'.cpu).cpu.regs .rax = w'.cpu.regs .rax ∧
    ∀ r ∈ [Reg.rsp, .rbp, .rbx, .r12, .r13, .r14, .r15],
      (leave w'.cpu).cpu.regs r = user.cpu.regs r := by
  have hsound : w.Sound image layout := World.invariant_sound.of_reachable hreach
  have hmem : Set.EqOn w'.cpu.mem (stub.pushed user).mem (frame user) := by
    refine (frame_preserved hsound (.inl hcurrent) hframe hrun).trans ?_
    rw [henter]
    exact eqOn_enter stub hroom
  have hrsp : (w'.cpu.regs .rsp).toNat = (user.cpu.regs .rsp).toNat - 64 := by
    rw [hreturns.rsp, henter, enter_rsp, UInt64.sub_add_cancel, toNat_pushed stub hroom]
  have hsaved : ∀ r ∈ saved, (w'.cpu.runStack after).regs r = savedValue user r := fun r hr =>
    leave_saved hroom hrsp hmem hr
  refine ⟨?_, ?_, ?_, ?_, ?_, fun r hr => ?_⟩
  · rw [henter, enter_args]
  · rw [hreturns.rip, henter, enter_ret]
  · rw [leave_rip, hsaved .rcx (by decide), savedValue]
  · rw [leave_rflags, hsaved .r11 (by decide), savedValue]
  · rw [leave_regs, runStack_after, popAll_regs_of_notMem (by decide) (by decide)]
  · rw [leave_regs]
    rcases List.mem_cons.mp hr with rfl | hr
    · exact leave_rsp hroom hrsp
    · have hvalue : r ∈ saved ∧ savedValue user r = user.cpu.regs r := by
        simp only [List.mem_cons, List.not_mem_nil, or_false] at hr
        rcases hr with rfl | rfl | rfl | rfl | rfl | rfl <;> exact ⟨by decide, rfl⟩
      rw [hsaved r hvalue.1, hvalue.2]

end Suspended

/-! ## A call that yields -/

def callStub : Stub := ⟨0x8000, 0x9000, 0x8040⟩

def callUser : Processor := ⟨⟨fun _ => 0x38000, 0x4002, fun _ => 0⟩, 0x202⟩

/-- The boot code has executed `syscall`, and the dispatcher begins. -/
def callCpu : Cpu := callStub.enter callUser

/-- The dispatcher returns. -/
def callReturn (cpu : Cpu) : Cpu :=
  { cpu with regs := Function.update cpu.regs .rsp (callCpu.regs .rsp + 8), rip := callStub.ret }

/-- The dispatcher spawns a task and switches to it; the task switches back, and the dispatcher
returns. -/
theorem syscall_returns_yield : ∃ w' : World (Fin maxTasks),
    ((World.system flatImage flatStatics.layout).restrict
      (LeavesFrame bootTask (frame callUser))).Run (bootWorld callCpu)
      [.spawn firstTask 0x5000, .contextSwitch firstTask 0x6000, .contextSwitch bootTask 0x7000,
        .work w'.cpu] w' ∧
    (leave w'.cpu).cpu.rip = 0x4002 ∧ (leave w'.cpu).cpu.regs .rsp = 0x38000 := by
  have hrsp : (callCpu.regs .rsp).toNat = 0x38000 - 72 := by decide +kernel
  have hbounds : (flatStatics.layout.stackBottom bootTask).toNat + 8 ≤ 0x38000 - 72 ∧
      0x38000 - 72 ≤ (flatStatics.layout.stackTop bootTask).toNat := ⟨by decide, by decide⟩
  have hstack : flatStatics.layout.InStack bootTask (callCpu.regs .rsp) := by
    rwa [TaskLayout.InStack, hrsp]
  obtain ⟨hswitch, hback⟩ := allowed_awayWorld hstack
  let w := (awayWorld callCpu).step flatImage flatStatics.layout (.contextSwitch bootTask 0x7000)
  have hleave : LeavesFrame bootTask (frame callUser) (spawnedWorld callCpu)
      (.contextSwitch firstTask 0x6000) := by
    intro _ a ha
    have ha : 0x38000 - 64 ≤ a := ha.1
    have hsame : ((spawnedWorld callCpu).cpu.regs .rsp).toNat = 0x38000 - 72 := hrsp
    omega
  have haway : LeavesFrame bootTask (frame callUser) (awayWorld callCpu)
      (.contextSwitch bootTask 0x7000) := fun hcurrent => absurd hcurrent.symm bootTask_ne
  have hwork : ∀ s, Set.EqOn (callReturn w.cpu).mem w.cpu.mem s := Set.eqOn_refl _
  have hrun : ((World.system flatImage flatStatics.layout).restrict
      (LeavesFrame bootTask (frame callUser))).Run (bootWorld callCpu)
      [.spawn firstTask 0x5000, .contextSwitch firstTask 0x6000, .contextSwitch bootTask 0x7000,
        .work (callReturn w.cpu)] { w with cpu := callReturn w.cpu } :=
    .cons ⟨⟨bootTask_ne.symm, rfl⟩, bootTask_ne.symm⟩ (.cons ⟨⟨hswitch, rfl⟩, hleave⟩
      (.cons ⟨⟨hback, rfl⟩, haway⟩ (.cons ⟨⟨fun _ => hwork _, rfl⟩, fun _ => hwork _⟩ (.nil _))))
  have hreturns : Returns callCpu (callReturn w.cpu) :=
    ⟨enter_ret.symm, by simp only [callReturn, Function.update_self]⟩
  obtain ⟨-, -, hrip, -, -, hregs⟩ := syscall_returns flatImage flatStatics.layout callStub
    (by decide) (Set.Ico_subset_Ico (by decide) (by decide)) (.init (initial_bootWorld callCpu)) rfl
    rfl hrun hreturns
  exact ⟨_, hrun, hrip, hregs .rsp (by decide)⟩

end SyscallEntry

end OxideOS
