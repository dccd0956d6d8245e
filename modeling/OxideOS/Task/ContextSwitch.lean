import OxideOS.Lib.X64

/-!
# Context switches, instruction by instruction

`task/context.rs`: `context_switch` stores the registers that a function must keep in the slot of
the task that executes, loads them from the slot of another, and jumps to the instruction pointer
saved there.  For a task that was switched away from, that is the `ret` at the end of the function,
which finds the return address of the task's own call on the task's own stack.  For a fresh task it
is the trampoline.
-/

namespace OxideOS

namespace ContextSwitch

open X64

/-! ## Slots -/

/-- `CpuContext`, with all its fields. -/
structure CpuContext where
  rsp : UInt64
  rbp : UInt64
  rbx : UInt64
  r12 : UInt64
  r13 : UInt64
  r14 : UInt64
  r15 : UInt64
  rip : UInt64
deriving DecidableEq, Repr

namespace CpuContext

/-- The words of the structure, in the order of `repr(C)`. -/
def words (ctx : CpuContext) : List UInt64 :=
  [ctx.rsp, ctx.rbp, ctx.rbx, ctx.r12, ctx.r13, ctx.r14, ctx.r15, ctx.rip]

/-- The structure at an address. -/
def read (mem : ByteMemory) (a : Nat) : CpuContext where
  rsp := mem.read64 a
  rbp := mem.read64 (a + 0x08)
  rbx := mem.read64 (a + 0x10)
  r12 := mem.read64 (a + 0x18)
  r13 := mem.read64 (a + 0x20)
  r14 := mem.read64 (a + 0x28)
  r15 := mem.read64 (a + 0x30)
  rip := mem.read64 (a + 0x38)

/-- Write the structure at an address. -/
def write (mem : ByteMemory) (a : Nat) (ctx : CpuContext) : ByteMemory := mem.writeWords a ctx.words

/-- The register that the structure holds; those that it does not hold are not asked for. -/
def get (ctx : CpuContext) : Reg → UInt64
  | .rsp => ctx.rsp
  | .rbp => ctx.rbp
  | .rbx => ctx.rbx
  | .r12 => ctx.r12
  | .r13 => ctx.r13
  | .r14 => ctx.r14
  | .r15 => ctx.r15
  | _ => 0

/-- The registers and the instruction pointer, as they are saved. -/
def ofRegs (regs : Reg → UInt64) (rip : UInt64) : CpuContext where
  rsp := regs .rsp
  rbp := regs .rbp
  rbx := regs .rbx
  r12 := regs .r12
  r13 := regs .r13
  r14 := regs .r14
  r15 := regs .r15
  rip := rip

theorem words_inj {c d : CpuContext} (h : c.words = d.words) : c = d := by
  cases c
  cases d
  simp only [words, List.cons.injEq, and_true] at h
  simpa only [mk.injEq] using h

theorem words_read (mem : ByteMemory) (a : Nat) : (read mem a).words = mem.readWords a 8 := rfl

@[simp]
theorem read_write_self (mem : ByteMemory) (a : Nat) (ctx : CpuContext) :
    read (write mem a ctx) a = ctx :=
  words_inj ((words_read _ a).trans (ByteMemory.readWords_writeWords_self mem a ctx.words))

theorem read_congr {mem mem' : ByteMemory} {a : Nat}
    (h : Set.EqOn mem mem' (Set.Ico a (a + 64))) : read mem a = read mem' a := by
  refine words_inj ?_
  rw [words_read, words_read]
  exact ByteMemory.readWords_congr h

theorem eqOn_write (mem : ByteMemory) (ctx : CpuContext) {a : Nat} {s : Set Nat}
    (h : Disjoint s (Set.Ico a (a + 64))) : Set.EqOn (write mem a ctx) mem s :=
  ByteMemory.eqOn_writeWords h

end CpuContext

/-! ## The code -/

/-- The registers of a slot, at their offsets. -/
def fields : List (UInt64 × Reg) :=
  [(0x00, .rsp), (0x08, .rbp), (0x10, .rbx), (0x18, .r12), (0x20, .r13), (0x28, .r14),
    (0x30, .r15)]

/-- The registers that a function keeps for its caller, and the stack pointer. -/
def calleeSaved : List Reg := [.rsp, .rbp, .rbx, .r12, .r13, .r14, .r15]

theorem map_fields : fields.map Prod.snd = calleeSaved := rfl

/-- `context_switch(old, new)`, with `old` in `rdi` and `new` in `rsi`. -/
def contextSwitch : List Instr :=
  [.store .rdi 0x00 .rsp,
   .store .rdi 0x08 .rbp,
   .store .rdi 0x10 .rbx,
   .store .rdi 0x18 .r12,
   .store .rdi 0x20 .r13,
   .store .rdi 0x28 .r14,
   .store .rdi 0x30 .r15,
   .lea .rax 17,
   .store .rdi 0x38 .rax,
   .load .rsp .rsi 0x00,
   .load .rbp .rsi 0x08,
   .load .rbx .rsi 0x10,
   .load .r12 .rsi 0x18,
   .load .r13 .rsi 0x20,
   .load .r14 .rsi 0x28,
   .load .r15 .rsi 0x30,
   .jmp .rsi 0x38,
   -- label 2, where a task that was switched away from goes on
   .ret]

/-- The code in memory, and the trampoline for fresh tasks outside of it. -/
structure Image where
  program : Program
  instrs_eq : program.instrs = contextSwitch
  trampoline : UInt64
  trampoline_outside : program.fetch trampoline = none

namespace Image

variable (image : Image)

/-- The address of label 2. -/
def label : UInt64 := image.program.address 17

/-- A call of `context_switch` that returns to an address. -/
def switch (cpu : Cpu) (old new ret : UInt64) : Cpu :=
  let args := { cpu with regs := Function.update (Function.update cpu.regs .rdi old) .rsi new }
  image.program.run contextSwitch.length (args.call (image.program.address 0) ret)

/-- What a call with these registers saves: the stack pointer behind the return address, and label 2
as the instruction pointer. -/
def saved (regs : Reg → UInt64) : CpuContext :=
  .ofRegs (Function.update regs .rsp (regs .rsp - 8)) image.label

/-- The memory after the call: the return address on the stack, and the slot of the caller. -/
def memAfter (cpu : Cpu) (old ret : UInt64) : ByteMemory :=
  CpuContext.write (cpu.mem.write64 (cpu.regs .rsp - 8).toNat ret) old.toNat (image.saved cpu.regs)

variable {image} {cpu : Cpu} {old new ret : UInt64}

theorem toNat_add_offset {a offset : UInt64} (ha : a.toNat + 64 ≤ 2 ^ 64)
    (hoffset : offset.toNat < 64) : (a + offset).toNat = a.toNat + offset.toNat := by
  rw [UInt64.toNat_add]
  exact Nat.mod_eq_of_lt (by omega)

/-- The offsets of the code are those of the structure. -/
theorem get_read {mem : ByteMemory} {a : UInt64} (ha : a.toNat + 64 ≤ 2 ^ 64) {f : UInt64 × Reg}
    (hf : f ∈ fields) : (CpuContext.read mem a.toNat).get f.2 = mem.read64 (a + f.1).toNat := by
  have hoffset : f.1.toNat < 64 := by
    revert f
    decide
  rw [toNat_add_offset ha hoffset]
  simp only [fields, List.mem_cons, List.not_mem_nil, or_false] at hf
  rcases hf with rfl | rfl | rfl | rfl | rfl | rfl | rfl <;> rfl

/-- The stores fill the structure. -/
theorem write_ofRegs {regs : Reg → UInt64} {mem : ByteMemory} (ha : (regs .rdi).toNat + 64 ≤ 2 ^ 64)
    (rip : UInt64) :
    (storeAll regs .rdi fields mem).write64 (regs .rdi + 0x38).toNat rip =
      CpuContext.write mem (regs .rdi).toNat (.ofRegs regs rip) := by
  have haddress : ∀ offset : UInt64, offset.toNat < 64 →
      (regs .rdi + offset).toNat = (regs .rdi).toNat + offset.toNat :=
    fun offset => toNat_add_offset ha
  simp only [storeAll, fields, List.foldl_cons, List.foldl_nil]
  rw [haddress 0x00 (by decide), haddress 0x08 (by decide), haddress 0x10 (by decide),
    haddress 0x18 (by decide), haddress 0x20 (by decide), haddress 0x28 (by decide),
    haddress 0x30 (by decide), haddress 0x38 (by decide)]
  rfl

variable (image cpu ret) in
/-- **A call, up to the jump**: the registers of the slot of the new task are loaded, and the jump
goes to the instruction pointer saved there. -/
theorem switch_eq (hold : old.toNat + 64 ≤ 2 ^ 64) (hnew : new.toNat + 64 ≤ 2 ^ 64) :
    ∃ regs, (∀ f ∈ fields, regs f.2 =
        (CpuContext.read (image.memAfter cpu old ret) new.toNat).get f.2) ∧
      image.switch cpu old new ret = image.program.run 1 ⟨regs,
        (CpuContext.read (image.memAfter cpu old ret) new.toNat).rip,
        image.memAfter cpu old ret⟩ := by
  have hcode : ∀ k, image.program.instrs.drop k = contextSwitch.drop k := fun k => by
    rw [image.instrs_eq]
  let regs : Reg → UInt64 := Function.update
    (Function.update (Function.update cpu.regs .rdi old) .rsi new) .rsp (cpu.regs .rsp - 8)
  let mem := cpu.mem.write64 (cpu.regs .rsp - 8).toNat ret
  let regs' := Function.update regs .rax image.label
  have hstart : image.switch cpu old new ret =
      image.program.run (fields.length + 11) ⟨regs, image.program.address 0, mem⟩ := rfl
  have hmem : (storeAll regs .rdi fields mem).write64 (regs .rdi + 0x38).toNat image.label =
      image.memAfter cpu old ret := write_ofRegs hold image.label
  have hlabel : image.program.run 11
        ⟨regs, image.program.address 7, storeAll regs .rdi fields mem⟩ =
      image.program.run (fields.length + 2) ⟨regs', image.program.address 9,
        image.memAfter cpu old ret⟩ := by
    rw [← hmem, Program.run_of_drop (hcode 7) rfl, Program.run_of_drop (hcode 8) rfl]
    rfl
  refine ⟨loadAll (image.memAfter cpu old ret) .rsi fields regs', fun f hf => ?_, ?_⟩
  · rw [get_read hnew hf]
    exact loadAll_of_mem (by decide) (by decide) hf
  · have hrsi : loadAll (image.memAfter cpu old ret) .rsi fields regs' .rsi = new :=
      loadAll_of_notMem (by decide)
    have hrip : (new + 0x38).toNat = new.toNat + 0x38 := toNat_add_offset hnew (by decide)
    rw [hstart, Program.run_stores (hcode 0) rfl]
    refine hlabel.trans ?_
    rw [Program.run_loads (hcode 9) rfl, Program.run_of_drop (hcode 16) rfl, Program.exec]
    simp only [hrsi, hrip]
    rfl

/-- **A jump out of the code** ends the call there. -/
theorem switch_to_outside (hold : old.toNat + 64 ≤ 2 ^ 64) (hnew : new.toNat + 64 ≤ 2 ^ 64)
    {ctx : CpuContext} (hctx : CpuContext.read (image.memAfter cpu old ret) new.toNat = ctx)
    (hout : image.program.fetch ctx.rip = none) :
    (image.switch cpu old new ret).mem = image.memAfter cpu old ret ∧
      (image.switch cpu old new ret).rip = ctx.rip ∧
      ∀ f ∈ fields, (image.switch cpu old new ret).regs f.2 = ctx.get f.2 := by
  obtain ⟨regs, hregs, hswitch⟩ := switch_eq image cpu ret hold hnew
  rw [hctx] at hregs hswitch
  rw [hswitch, Program.run_of_fetch_eq_none hout]
  exact ⟨rfl, rfl, hregs⟩

/-- The registers in what a call saves. -/
theorem get_saved {regs : Reg → UInt64} {r : Reg} (hr : r ∈ calleeSaved) :
    (image.saved regs).get r = Function.update regs .rsp (regs .rsp - 8) r := by
  simp only [calleeSaved, List.mem_cons, List.not_mem_nil, or_false] at hr
  rcases hr with rfl | rfl | rfl | rfl | rfl | rfl | rfl <;> rfl

/-- **A jump to label 2** returns to the address on the new stack, with the registers of the call
that saved them. -/
theorem switch_to_label (hold : old.toNat + 64 ≤ 2 ^ 64) (hnew : new.toNat + 64 ≤ 2 ^ 64)
    {regs : Reg → UInt64}
    (hctx : CpuContext.read (image.memAfter cpu old ret) new.toNat = image.saved regs) :
    (image.switch cpu old new ret).mem = image.memAfter cpu old ret ∧
      (image.switch cpu old new ret).rip =
        (image.memAfter cpu old ret).read64 (regs .rsp - 8).toNat ∧
      ∀ r ∈ calleeSaved, (image.switch cpu old new ret).regs r = regs r := by
  obtain ⟨regs', hregs, hswitch⟩ := switch_eq image cpu ret hold hnew
  rw [hctx] at hregs hswitch
  have hsaved : ∀ r ∈ calleeSaved, regs' r = Function.update regs .rsp (regs .rsp - 8) r := by
    intro r hr
    obtain ⟨f, hf, rfl⟩ := List.mem_map.mp (map_fields ▸ hr)
    exact (hregs f hf).trans (get_saved hr)
  have hrsp : regs' .rsp = regs .rsp - 8 := hsaved .rsp (by decide)
  have hcode : image.program.instrs.drop 17 = [.ret] := by
    rw [image.instrs_eq]
    rfl
  rw [hswitch, Program.run_of_drop hcode rfl, Program.run, Program.exec]
  simp only [hrsp, UInt64.sub_add_cancel, true_and]
  intro r hr
  by_cases hr' : r = .rsp
  · rw [hr', Function.update_self]
  · rw [Function.update_of_ne hr', hsaved r hr, Function.update_of_ne hr']

end Image

end ContextSwitch

end OxideOS
