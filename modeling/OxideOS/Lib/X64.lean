import OxideOS.Lib.ByteMemory
import Mathlib.Logic.Function.Basic

/-!
# Straight-line code of a 64-bit processor

A processor with sixteen registers, an instruction pointer and a memory of bytes, and a few of the
instructions of x86-64: moves between registers and memory, the address of a label, an indirect jump
and a return.  A program is a list of instructions with an address for each of them.  It runs until
the instruction pointer leaves it.

The two rules are for code that stores several registers in a structure, and for code that loads
several registers from one.
-/

namespace X64

inductive Reg
  | rax | rbx | rcx | rdx | rsi | rdi | rbp | rsp
  | r8 | r9 | r10 | r11 | r12 | r13 | r14 | r15
deriving DecidableEq, Repr

/-- Registers, instruction pointer and memory. -/
structure Cpu where
  regs : Reg → UInt64
  rip : UInt64
  mem : ByteMemory

inductive Instr
  /-- `mov [base + offset], src` -/
  | store (base : Reg) (offset : UInt64) (src : Reg)
  /-- `mov dst, [base + offset]` -/
  | load (dst base : Reg) (offset : UInt64)
  /-- `lea dst, [rip + label]`, where the label is the number of an instruction. -/
  | lea (dst : Reg) (label : Nat)
  /-- `jmp [base + offset]` -/
  | jmp (base : Reg) (offset : UInt64)
  | ret
deriving DecidableEq, Repr

/-- Instructions, at different addresses. -/
structure Program where
  instrs : List Instr
  address : Nat → UInt64
  address_inj : ∀ i j, i < instrs.length → j < instrs.length → address i = address j → i = j

/-- `call target`, which returns to an address: the address is pushed. -/
def Cpu.call (cpu : Cpu) (target ret : UInt64) : Cpu where
  regs := Function.update cpu.regs .rsp (cpu.regs .rsp - 8)
  rip := target
  mem := cpu.mem.write64 (cpu.regs .rsp - 8).toNat ret

namespace Program

variable (p : Program)

/-- The effect of instruction number `k`. -/
def exec (k : Nat) (cpu : Cpu) : Instr → Cpu
  | .store base offset src =>
    { cpu with
      rip := p.address (k + 1)
      mem := cpu.mem.write64 (cpu.regs base + offset).toNat (cpu.regs src) }
  | .load dst base offset =>
    { cpu with
      rip := p.address (k + 1)
      regs := Function.update cpu.regs dst (cpu.mem.read64 (cpu.regs base + offset).toNat) }
  | .lea dst label =>
    { cpu with
      rip := p.address (k + 1)
      regs := Function.update cpu.regs dst (p.address label) }
  | .jmp base offset => { cpu with rip := cpu.mem.read64 (cpu.regs base + offset).toNat }
  | .ret =>
    { cpu with
      rip := cpu.mem.read64 (cpu.regs .rsp).toNat
      regs := Function.update cpu.regs .rsp (cpu.regs .rsp + 8) }

/-- The number of the instruction at an address. -/
def fetch (rip : UInt64) : Option Nat :=
  (List.range p.instrs.length).find? fun k => p.address k == rip

/-- One instruction, if the instruction pointer is in the program. -/
def step (cpu : Cpu) : Option Cpu := do
  let k ← p.fetch cpu.rip
  let instr ← p.instrs[k]?
  return p.exec k cpu instr

/-- At most so many instructions, until the instruction pointer leaves the program. -/
def run : Nat → Cpu → Cpu
  | 0, cpu => cpu
  | n + 1, cpu =>
    match p.step cpu with
    | none => cpu
    | some cpu => run n cpu

variable {p} {k n : Nat} {cpu : Cpu} {instr : Instr} {rest : List Instr}

theorem fetch_address (hk : k < p.instrs.length) : p.fetch (p.address k) = some k := by
  rw [fetch]
  cases hfind : (List.range p.instrs.length).find? fun i => p.address i == p.address k with
  | none =>
    have hne := List.find?_eq_none.mp hfind k (List.mem_range.mpr hk)
    exact absurd (beq_self_eq_true (p.address k)) hne
  | some i =>
    have hi := List.mem_range.mp (List.mem_of_find?_eq_some hfind)
    have heq : p.address i = p.address k := by simpa using List.find?_some hfind
    rw [p.address_inj i k hi hk heq]

/-- The instruction at the head of the code is executed. -/
theorem step_of_drop (hcode : p.instrs.drop k = instr :: rest) (hrip : cpu.rip = p.address k) :
    p.step cpu = some (p.exec k cpu instr) := by
  have hget : p.instrs[k]? = some instr := by
    have hhead := congrArg (·[0]?) hcode
    simpa [List.getElem?_drop] using hhead
  obtain ⟨hk, -⟩ := List.getElem?_eq_some_iff.mp hget
  rw [step, hrip, fetch_address hk, Option.bind_eq_bind, Option.bind_some, hget]
  rfl

theorem run_of_drop (hcode : p.instrs.drop k = instr :: rest) (hrip : cpu.rip = p.address k) :
    p.run (n + 1) cpu = p.run n (p.exec k cpu instr) := by
  rw [run, step_of_drop hcode hrip]

/-- What is outside of the program stops it. -/
theorem step_of_fetch_eq_none (h : p.fetch cpu.rip = none) : p.step cpu = none := by
  rw [step, h]
  rfl

theorem run_of_fetch_eq_none (h : p.fetch cpu.rip = none) : p.run n cpu = cpu := by
  cases n with
  | zero => rfl
  | succ n => rw [run, step_of_fetch_eq_none h]

theorem drop_succ_of_drop (hcode : p.instrs.drop k = instr :: rest) :
    p.instrs.drop (k + 1) = rest := by
  rw [← List.tail_drop, hcode, List.tail_cons]

end Program

/-! ## Structures of registers -/

section Structures

variable {p : Program} {k n : Nat} {cpu : Cpu} {rest : List Instr} {base : Reg}
  {fields : List (UInt64 × Reg)}

/-- Registers stored at their offsets from a base. -/
def storeAll (regs : Reg → UInt64) (base : Reg) (fields : List (UInt64 × Reg)) (mem : ByteMemory) :
    ByteMemory :=
  fields.foldl (fun mem f => mem.write64 (regs base + f.1).toNat (regs f.2)) mem

/-- Registers loaded from their offsets from a base. -/
def loadAll (mem : ByteMemory) (base : Reg) (fields : List (UInt64 × Reg)) (regs : Reg → UInt64) :
    Reg → UInt64 :=
  fields.foldl (fun regs f => Function.update regs f.2 (mem.read64 (regs base + f.1).toNat)) regs

/-- **Storing several registers.** -/
theorem Program.run_stores
    (hcode : p.instrs.drop k = fields.map (fun f => .store base f.1 f.2) ++ rest)
    (hrip : cpu.rip = p.address k) :
    p.run (fields.length + n) cpu =
      p.run n ⟨cpu.regs, p.address (k + fields.length),
        storeAll cpu.regs base fields cpu.mem⟩ := by
  induction fields generalizing k cpu with
  | nil =>
    rw [List.length_nil, Nat.zero_add, Nat.add_zero, ← hrip]
    rfl
  | cons f fields ih =>
    have hnext := drop_succ_of_drop hcode
    rw [List.length_cons, Nat.add_right_comm, run_of_drop hcode hrip, ih hnext rfl,
      Nat.add_right_comm k 1, Nat.add_assoc k]
    rfl

/-- **Loading several registers.** -/
theorem Program.run_loads
    (hcode : p.instrs.drop k = fields.map (fun f => .load f.2 base f.1) ++ rest)
    (hrip : cpu.rip = p.address k) :
    p.run (fields.length + n) cpu =
      p.run n ⟨loadAll cpu.mem base fields cpu.regs, p.address (k + fields.length), cpu.mem⟩ := by
  induction fields generalizing k cpu with
  | nil =>
    rw [List.length_nil, Nat.zero_add, Nat.add_zero, ← hrip]
    rfl
  | cons f fields ih =>
    have hnext := drop_succ_of_drop hcode
    rw [List.length_cons, Nat.add_right_comm, run_of_drop hcode hrip, ih hnext rfl,
      Nat.add_right_comm k 1, Nat.add_assoc k]
    rfl

theorem loadAll_of_notMem {mem : ByteMemory} {regs : Reg → UInt64} {r : Reg}
    (h : r ∉ fields.map Prod.snd) : loadAll mem base fields regs r = regs r := by
  induction fields generalizing regs with
  | nil => rfl
  | cons f fields ih =>
    rw [List.map_cons, List.mem_cons, not_or] at h
    rw [loadAll, List.foldl_cons]
    exact (ih h.2).trans (Function.update_of_ne h.1 _ _)

/-- A register is loaded from its offset, if the base is not among them. -/
theorem loadAll_of_mem {mem : ByteMemory} {regs : Reg → UInt64} {f : UInt64 × Reg}
    (hnodup : (fields.map Prod.snd).Nodup) (hbase : base ∉ fields.map Prod.snd) (h : f ∈ fields) :
    loadAll mem base fields regs f.2 = mem.read64 (regs base + f.1).toNat := by
  induction fields generalizing regs with
  | nil => cases h
  | cons g fields ih =>
    rw [List.map_cons, List.nodup_cons] at hnodup
    rw [List.map_cons, List.mem_cons, not_or] at hbase
    rw [loadAll, List.foldl_cons]
    rcases List.mem_cons.mp h with rfl | hmem
    · exact (loadAll_of_notMem hnodup.1).trans (Function.update_self _ _ _)
    · refine (ih hnodup.2 hbase.2 hmem).trans ?_
      rw [Function.update_of_ne hbase.1]

end Structures

end X64
