import OxideOS.Lib.Bytes
import OxideOS.Lib.TransitionSystem
import OxideOS.Lib.XorShift

/-!
# Random numbers

`crypto/rng.rs`: numbers come from the `RDRAND` instruction if the processor has it and it delivers,
and from a software generator otherwise.  The software generator keeps one word and mixes it by
shift and xor.  Zero is the one state that it would never leave: every number after it, and every
key, would be zero.

## Main definitions

* `xorShift64`: the step of the software generator
* `Rng`, `Rng.init`, `Rng.randomU64`, `Rng.fillBytes`
* `Rng.system`: the calls on the generator, with whatever the hardware answers

## Main results

* `xorShift64_injective`: a step loses nothing
* `Rng.fallback_ne_zero`: no call leaves the state zero
* `Rng.never_stuck`: the generator never gets to zero, where it would stay
-/

namespace OxideOS

/-- The step of the software generator, in `rng::random_u64`. -/
def xorShift64 (x : UInt64) : UInt64 :=
  let x := x ^^^ (x <<< 13)
  let x := x ^^^ (x >>> 7)
  x ^^^ (x <<< 17)

/-- The globals `HAS_RDRAND` and `FALLBACK`. -/
structure Rng where
  hasRdrand : Bool
  fallback : UInt64
deriving DecidableEq, Repr

/-- What a run of the `RDRAND` loop gets: the answer to each attempt, `none` if the carry flag is
clear. -/
abbrev Rdrand := Nat → Option UInt64

namespace Rng

/-- The globals before `rng::init`. -/
def boot : Rng := ⟨false, 0xDEADBEEFCAFEBABE⟩

/-- `rng::init`, given the answer of `cpuid` and the two halves of the time stamp counter. -/
def init (rng : Rng) (ecx lo hi : UInt32) : Rng :=
  let hasHw := (ecx >>> 30) &&& 1 == 1
  if hasHw then { rng with hasRdrand := true }
  else
    let tsc := (hi.toUInt64 <<< 32) ||| lo.toUInt64
    ⟨false, if tsc = 0 then 0xDEADBEEF else tsc⟩

/-- `rng::random_u64`. -/
def randomU64 (rng : Rng) (rdrand : Rdrand) : UInt64 × Rng :=
  match if rng.hasRdrand then (List.range 10).findSome? rdrand else none with
  | some val => (val, rng)
  | none =>
    let x := xorShift64 rng.fallback
    (x, { rng with fallback := x })

/-- `rng::fill_bytes` of a buffer with so many bytes left, from its draw number `draw` on. -/
def fillBytes (rng : Rng) (rdrand : Nat → Rdrand) (draw remaining : Nat) : List UInt8 × Rng :=
  if remaining = 0 then ([], rng)
  else
    let (val, rng) := rng.randomU64 (rdrand draw)
    let bytes := (Bytes.le 8 val.toNat).take (min remaining 8)
    let (rest, rng) := rng.fillBytes rdrand (draw + 1) (remaining - 8)
    (bytes ++ rest, rng)
termination_by remaining
decreasing_by omega

end Rng

/-! ## The step -/

theorem xorShift64_toBitVec (x : UInt64) :
    (xorShift64 x).toBitVec =
      XorShift.mix (· <<< 17) (XorShift.mix (· >>> 7) (XorShift.mix (· <<< 13) x.toBitVec)) :=
  rfl

/-- **A step loses nothing.** -/
theorem xorShift64_injective : Function.Injective xorShift64 := by
  intro x y hxy
  have hbits := congrArg UInt64.toBitVec hxy
  rw [xorShift64_toBitVec, xorShift64_toBitVec] at hbits
  have h₁ := (XorShift.fades_shiftLeft (by decide)).mix_injective hbits
  have h₂ := (XorShift.fades_shiftRight (by decide)).mix_injective h₁
  have h₃ := (XorShift.fades_shiftLeft (by decide)).mix_injective h₂
  exact UInt64.toBitVec_inj.mp h₃

theorem xorShift64_zero : xorShift64 0 = 0 := rfl

theorem xorShift64_ne_zero {x : UInt64} (h : x ≠ 0) : xorShift64 x ≠ 0 :=
  xorShift64_injective.ne_iff' xorShift64_zero |>.mpr h

namespace Rng

/-! ## The state over a run -/

variable {rng : Rng}

theorem init_fallback_ne_zero (h : rng.fallback ≠ 0) (ecx lo hi : UInt32) :
    (rng.init ecx lo hi).fallback ≠ 0 := by
  rw [init]
  split
  · exact h
  · change (if _ = 0 then _ else _) ≠ (0 : UInt64)
    split
    · decide
    · next htsc => exact htsc

/-- A draw leaves the state, or steps it and returns it. -/
theorem randomU64_cases (rng : Rng) (rdrand : Rdrand) :
    (rng.randomU64 rdrand).2 = rng ∨
      (rng.randomU64 rdrand).2.fallback = xorShift64 rng.fallback ∧
        (rng.randomU64 rdrand).1 = xorShift64 rng.fallback := by
  rw [randomU64]
  split
  · exact .inl rfl
  · exact .inr ⟨rfl, rfl⟩

theorem randomU64_fallback_ne_zero (h : rng.fallback ≠ 0) (rdrand : Rdrand) :
    (rng.randomU64 rdrand).2.fallback ≠ 0 := by
  rcases rng.randomU64_cases rdrand with hsame | ⟨hstep, -⟩
  · rw [hsame]
    exact h
  · rw [hstep]
    exact xorShift64_ne_zero h

theorem fillBytes_fallback_ne_zero (h : rng.fallback ≠ 0) (rdrand : Nat → Rdrand)
    (draw remaining : Nat) : (rng.fillBytes rdrand draw remaining).2.fallback ≠ 0 := by
  fun_induction fillBytes rng rdrand draw remaining with
  | case1 => exact h
  | case2 rng draw remaining _ val rng' hdraw bytes rest rng'' hrest ih =>
    have hnext := randomU64_fallback_ne_zero h (rdrand draw)
    rw [hdraw] at hnext
    rw [hrest] at ih
    exact ih hnext

/-- A call on the generator, with the answers of the hardware. -/
inductive Call
  | init (ecx lo hi : UInt32)
  | randomU64 (rdrand : Rdrand)
  | fillBytes (rdrand : Nat → Rdrand) (length : Nat)

/-- The generator after a call. -/
def step (rng : Rng) : Call → Rng
  | .init ecx lo hi => rng.init ecx lo hi
  | .randomU64 rdrand => (rng.randomU64 rdrand).2
  | .fillBytes rdrand length => (rng.fillBytes rdrand 0 length).2

/-- The calls from boot on. -/
def system : TransitionSystem Rng Call := .ofFun boot step

theorem step_fallback_ne_zero (h : rng.fallback ≠ 0) (call : Call) :
    (rng.step call).fallback ≠ 0 := by
  cases call with
  | init ecx lo hi => exact init_fallback_ne_zero h ecx lo hi
  | randomU64 rdrand => exact randomU64_fallback_ne_zero h rdrand
  | fillBytes rdrand length => exact fillBytes_fallback_ne_zero h rdrand 0 length

/-- **No call leaves the state zero.** -/
theorem fallback_ne_zero (h : system.Reachable rng) : rng.fallback ≠ 0 := by
  refine TransitionSystem.Invariant.of_reachable (P := fun rng => rng.fallback ≠ 0) ⟨?_, ?_⟩ h
  · rintro rng rfl
    decide
  · rintro rng call _ hne rfl
    exact step_fallback_ne_zero hne call

/-! ## Keys -/

/-- The hardware delivers nothing: there is none, or every attempt fails. -/
def Software (rng : Rng) (rdrand : Rdrand) : Prop :=
  rng.hasRdrand = false ∨ ∀ attempt, rdrand attempt = none

theorem randomU64_of_software {rdrand : Rdrand} (h : rng.Software rdrand) :
    rng.randomU64 rdrand =
      (xorShift64 rng.fallback, { rng with fallback := xorShift64 rng.fallback }) := by
  have hnone : (if rng.hasRdrand then (List.range 10).findSome? rdrand else none) = none := by
    rcases h with hno | hfails
    · rw [hno]
      rfl
    · split
      · exact List.findSome?_eq_none_iff.mpr fun attempt _ => hfails attempt
      · rfl
  rw [randomU64, hnone]

/-- From the zero state all bytes would be zero. -/
theorem fillBytes_of_zero (hzero : rng.fallback = 0) {rdrand : Nat → Rdrand}
    (h : ∀ draw, rng.Software (rdrand draw)) (draw remaining : Nat) :
    (rng.fillBytes rdrand draw remaining).1 = List.replicate remaining 0 := by
  have hdraw : ∀ draw, rng.randomU64 (rdrand draw) = (0, rng) := fun draw => by
    rw [randomU64_of_software (h draw), hzero, xorShift64_zero, ← hzero]
  fun_induction fillBytes rng rdrand draw remaining with
  | case1 => rfl
  | case2 rng draw remaining hpos val rng' hval bytes rest rng'' hrest ih =>
    rw [hdraw draw] at hval
    obtain ⟨rfl, rfl⟩ := Prod.mk.inj hval
    have htail : rest = List.replicate (remaining - 8) 0 := by
      have := ih hzero h hdraw
      rwa [hrest] at this
    have hword : Bytes.le 8 (0 : UInt64).toNat = List.replicate 8 0 := rfl
    have hbytes : bytes = List.replicate (min remaining 8) 0 := by
      change (Bytes.le 8 (0 : UInt64).toNat).take (min remaining 8) = _
      rw [hword, List.take_replicate, Nat.min_assoc, Nat.min_self]
    have hlength : min remaining 8 + (remaining - 8) = remaining := by omega
    rw [hbytes, htail, List.replicate_append_replicate, hlength]

/-- **The software generator never gets stuck.**  Its step is injective and takes no other state to
zero, so no calls from boot on lead to the zero state, in which every key would be zeros. -/
theorem never_stuck :
    Function.Injective xorShift64 ∧ (∀ x, x ≠ 0 → xorShift64 x ≠ 0) ∧
      (∀ rng, system.Reachable rng → rng.fallback ≠ 0) ∧
      ∀ (rng : Rng) rdrand length, rng.fallback = 0 → (∀ draw, rng.Software (rdrand draw)) →
        (rng.fillBytes rdrand 0 length).1 = List.replicate length 0 :=
  ⟨xorShift64_injective, fun _ => xorShift64_ne_zero, fun _ => fallback_ne_zero,
    fun _ _ length hzero h => fillBytes_of_zero hzero h 0 length⟩

end Rng

end OxideOS
