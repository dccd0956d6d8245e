import OxideOS.Lib.X64

/-!
# Code that uses the stack

Pushes, pops and moves between registers, and the two instructions by which a user program calls the
kernel and the kernel returns.  Registers that were pushed are found again by pops in the opposite
order, if nobody wrote to these words of the stack in between.
-/

namespace X64

/-- Straight-line code on registers and stack. -/
inductive StackInstr
  | push (r : Reg)
  | pop (r : Reg)
  | mov (dst src : Reg)
deriving DecidableEq, Repr

namespace Cpu

def push (cpu : Cpu) (r : Reg) : Cpu :=
  { cpu with
    regs := Function.update cpu.regs .rsp (cpu.regs .rsp - 8)
    mem := cpu.mem.write64 (cpu.regs .rsp - 8).toNat (cpu.regs r) }

def pop (cpu : Cpu) (r : Reg) : Cpu :=
  { cpu with
    regs := Function.update (Function.update cpu.regs .rsp (cpu.regs .rsp + 8)) r
      (cpu.mem.read64 (cpu.regs .rsp).toNat) }

def execStack (cpu : Cpu) : StackInstr → Cpu
  | .push r => cpu.push r
  | .pop r => cpu.pop r
  | .mov dst src => { cpu with regs := Function.update cpu.regs dst (cpu.regs src) }

/-- The instructions, one after the other. -/
def runStack (cpu : Cpu) (code : List StackInstr) : Cpu := code.foldl execStack cpu

def pushAll (cpu : Cpu) (rs : List Reg) : Cpu := rs.foldl push cpu

def popAll (cpu : Cpu) (rs : List Reg) : Cpu := rs.foldl pop cpu

end Cpu

/-! ## Pushes -/

variable {cpu : Cpu} {rs : List Reg} {r : Reg}

theorem toNat_sub_eight {a : UInt64} (h : 8 ≤ a.toNat) : (a - 8).toNat = a.toNat - 8 :=
  UInt64.toNat_sub_of_le a 8 (UInt64.le_iff_toNat_le.mpr h)

theorem call_regs_rsp (cpu : Cpu) (target ret : UInt64) :
    (cpu.call target ret).regs .rsp = cpu.regs .rsp - 8 :=
  rfl

theorem call_regs_of_ne {target ret : UInt64} (hr : r ≠ .rsp) :
    (cpu.call target ret).regs r = cpu.regs r :=
  Function.update_of_ne hr _ _

theorem pushAll_regs_of_ne (hr : r ≠ .rsp) : (cpu.pushAll rs).regs r = cpu.regs r := by
  induction rs generalizing cpu with
  | nil => rfl
  | cons q rs ih => exact ih.trans (Function.update_of_ne hr _ _)

theorem toNat_pushAll_rsp (hroom : 8 * rs.length ≤ (cpu.regs .rsp).toNat) :
    ((cpu.pushAll rs).regs .rsp).toNat = (cpu.regs .rsp).toNat - 8 * rs.length := by
  induction rs generalizing cpu with
  | nil => rfl
  | cons q rs ih =>
    rw [List.length_cons] at hroom
    have hrsp : ((cpu.push q).regs .rsp).toNat = (cpu.regs .rsp).toNat - 8 :=
      toNat_sub_eight (by omega)
    refine (ih (by omega)).trans ?_
    rw [hrsp, List.length_cons]
    omega

/-- A push puts its register in front of the words that are on the stack. -/
theorem readWords_push {k : ℕ} (hroom : 8 ≤ (cpu.regs .rsp).toNat) :
    (cpu.push r).mem.readWords ((cpu.regs .rsp).toNat - 8) (k + 1) =
      cpu.regs r :: cpu.mem.readWords (cpu.regs .rsp).toNat k := by
  have haddress := toNat_sub_eight hroom
  have hsame : Set.EqOn (cpu.push r).mem cpu.mem
      (Set.Ico (cpu.regs .rsp).toNat ((cpu.regs .rsp).toNat + 8 * k)) := by
    refine ByteMemory.eqOn_write64 ?_
    rw [haddress, Nat.sub_add_cancel hroom]
    exact Set.Ico_disjoint_Ico_same.symm
  rw [ByteMemory.readWords, Nat.sub_add_cancel hroom, ByteMemory.readWords_congr hsame, ← haddress]
  exact congrArg (· :: _) (ByteMemory.read64_write64_self _ _ _)

/-- **The words on the stack after pushes**: the register pushed last comes first. -/
theorem readWords_pushAll {k : ℕ} (hrsp : Reg.rsp ∉ rs)
    (hroom : 8 * rs.length ≤ (cpu.regs .rsp).toNat) :
    (cpu.pushAll rs).mem.readWords ((cpu.regs .rsp).toNat - 8 * rs.length) (rs.length + k) =
      (rs.map cpu.regs).reverse ++ cpu.mem.readWords (cpu.regs .rsp).toNat k := by
  induction rs generalizing cpu k with
  | nil => rw [List.length_nil, Nat.zero_add]; rfl
  | cons q rs ih =>
    rw [List.mem_cons, not_or] at hrsp
    rw [List.length_cons] at hroom
    have htop : ((cpu.push q).regs .rsp).toNat = (cpu.regs .rsp).toNat - 8 :=
      toNat_sub_eight (by omega)
    have hregs : rs.map (cpu.push q).regs = rs.map cpu.regs :=
      List.map_congr_left fun p hp =>
        Function.update_of_ne (ne_of_mem_of_not_mem hp hrsp.2) _ _
    have hrest := @ih (cpu.push q) (k + 1) hrsp.2 (by omega)
    rw [htop, readWords_push (by omega), hregs] at hrest
    rw [List.length_cons, List.map_cons, List.reverse_cons, List.append_assoc,
      List.singleton_append, ← hrest, Nat.add_right_comm, Nat.add_assoc]
    congr 1
    omega

/-! ## Pops -/

theorem toNat_add_eight {a : UInt64} (h : a.toNat + 8 < 2 ^ 64) : (a + 8).toNat = a.toNat + 8 := by
  rw [UInt64.toNat_add]
  exact Nat.mod_eq_of_lt h

theorem toNat_pop_rsp (hr : Reg.rsp ≠ r) (hroom : (cpu.regs .rsp).toNat + 8 < 2 ^ 64) :
    ((cpu.pop r).regs .rsp).toNat = (cpu.regs .rsp).toNat + 8 := by
  have hregs : (cpu.pop r).regs .rsp = cpu.regs .rsp + 8 :=
    (Function.update_of_ne hr _ _).trans (Function.update_self _ _ _)
  rw [hregs, toNat_add_eight hroom]

theorem popAll_regs_of_notMem (hr : r ∉ rs) (hrsp : r ≠ .rsp) :
    (cpu.popAll rs).regs r = cpu.regs r := by
  induction rs generalizing cpu with
  | nil => rfl
  | cons q rs ih =>
    rw [List.mem_cons, not_or] at hr
    exact (ih hr.2).trans
      ((Function.update_of_ne hr.1 _ _).trans (Function.update_of_ne hrsp _ _))

theorem toNat_popAll_rsp (hrsp : Reg.rsp ∉ rs)
    (hroom : (cpu.regs .rsp).toNat + 8 * rs.length < 2 ^ 64) :
    ((cpu.popAll rs).regs .rsp).toNat = (cpu.regs .rsp).toNat + 8 * rs.length := by
  induction rs generalizing cpu with
  | nil => rfl
  | cons q rs ih =>
    rw [List.mem_cons, not_or] at hrsp
    rw [List.length_cons] at hroom
    have htop : ((cpu.pop q).regs .rsp).toNat = (cpu.regs .rsp).toNat + 8 :=
      toNat_pop_rsp hrsp.1 (by omega)
    refine (ih hrsp.2 (by omega)).trans ?_
    rw [htop, List.length_cons]
    omega

/-- **The registers after pops**: each is the word that it was to be. -/
theorem popAll_regs {f : Reg → UInt64} (hrsp : Reg.rsp ∉ rs)
    (hroom : (cpu.regs .rsp).toNat + 8 * rs.length < 2 ^ 64)
    (hwords : cpu.mem.readWords (cpu.regs .rsp).toNat rs.length = rs.map f) (hr : r ∈ rs) :
    (cpu.popAll rs).regs r = f r := by
  induction rs generalizing cpu with
  | nil => cases hr
  | cons q rs ih =>
    rw [List.mem_cons, not_or] at hrsp
    rw [List.length_cons] at hroom
    have htop : ((cpu.pop q).regs .rsp).toNat = (cpu.regs .rsp).toNat + 8 :=
      toNat_pop_rsp hrsp.1 (by omega)
    obtain ⟨hword, hrest⟩ := List.cons.inj hwords
    by_cases hmem : r ∈ rs
    · refine ih hrsp.2 (by omega) ?_ hmem
      rw [htop]
      exact hrest
    · obtain rfl : r = q := (List.mem_cons.mp hr).resolve_right hmem
      have hne : r ≠ .rsp := fun heq => hrsp.1 heq.symm
      refine (popAll_regs_of_notMem hmem hne).trans ?_
      exact (Function.update_self _ _ _).trans hword

/-! ## System calls -/

/-- A processor with its flags. -/
structure Processor where
  cpu : Cpu
  rflags : UInt64

/-- `syscall`, where the instruction pointer is already behind the instruction: it is kept in `rcx`,
the flags in `r11`, and the flags of the mask are cleared. -/
def Processor.syscall (p : Processor) (lstar sfmask : UInt64) : Processor where
  cpu :=
    { p.cpu with
      regs := Function.update (Function.update p.cpu.regs .rcx p.cpu.rip) .r11 p.rflags
      rip := lstar }
  rflags := p.rflags &&& ~~~sfmask

/-- `sysretq`: back to `rcx` with the flags of `r11`, but for those that it clears or sets. -/
def sysretq (cpu : Cpu) : Processor where
  cpu := { cpu with rip := cpu.regs .rcx }
  rflags := (cpu.regs .r11 &&& 0x3C7FD7) ||| 2

/-- A function has returned: to the address on the stack, which is popped. -/
structure Returns (entry exit : Cpu) : Prop where
  rip : exit.rip = entry.mem.read64 (entry.regs .rsp).toNat
  rsp : exit.regs .rsp = entry.regs .rsp + 8

end X64
