import Mathlib.Logic.Relation

/-!
# Transition systems

A transition system has initial states and labelled steps. A run is a finite sequence of steps;
a state is reachable when a run leads to it from an initial state. An invariant holds initially
and is kept by every step, hence holds in every reachable state. Restricting a system to the
steps that meet a condition keeps the invariants that need the condition. A part of the state whose
own system accounts for every step with a run is a projection: its reachable states are those of
the part, and what is known of them is known of the whole.

## Main definitions

* `TransitionSystem σ ι`: initial states and steps labelled by `ι`
* `TransitionSystem.ofFun`, `TransitionSystem.ofPartial`: the systems of a step function
* `TransitionSystem.recorded`: the system with a record of what is observed
* `Run`, `Reachable`: runs and the states they lead to
* `Invariant`, `restrict`: invariants, and the system of the steps that meet a condition
* `Projects`: a part of the state that follows a system of its own

## Main results

* `Invariant.of_reachable`: an invariant holds in every reachable state
* `run_ofFun_iff`, `run_ofPartial_iff`: the runs of a step function are its folds
* `run_of_recorded`: a record whose parts are runs of another system is a run of it
* `Projects.reachable`: the part of a reachable state is reachable
-/

universe u v u' v'

/-- Initial states, and the steps each label allows. -/
structure TransitionSystem (σ : Type u) (ι : Type v) where
  /-- The initial states. -/
  Init : σ → Prop
  /-- `Step s i t`: the label `i` leads from `s` to `t`. -/
  Step : σ → ι → σ → Prop

namespace TransitionSystem

variable {σ : Type u} {ι : Type v}

/-- The system of a total step function. -/
def ofFun (init : σ) (step : σ → ι → σ) : TransitionSystem σ ι where
  Init s := s = init
  Step s i t := step s i = t

/-- The system of a step function that may refuse a label. -/
def ofPartial (init : σ) (step : σ → ι → Option σ) : TransitionSystem σ ι where
  Init s := s = init
  Step s i t := step s i = some t

/-- A step, with what is observed of it appended to the record. -/
def recordStep {ε : Type v'} (step : σ → ι → Option σ) (observe : σ → ι → List ε)
    (x : σ × List ε) (i : ι) : Option (σ × List ε) :=
  (step x.1 i).map fun t => (t, x.2 ++ observe x.1 i)

/-- The system of a step function that keeps a record of what can be observed of each step. -/
def recorded {ε : Type v'} (init : σ) (step : σ → ι → Option σ) (observe : σ → ι → List ε) :
    TransitionSystem (σ × List ε) ι :=
  ofPartial (init, []) (recordStep step observe)

/-- The steps of `M` that meet the condition `ok` in the state before the step. -/
def restrict (M : TransitionSystem σ ι) (ok : σ → ι → Prop) : TransitionSystem σ ι where
  Init := M.Init
  Step s i t := M.Step s i t ∧ ok s i

/-- `Run M s is t`: the steps `is`, in order, lead from `s` to `t`. -/
inductive Run (M : TransitionSystem σ ι) : σ → List ι → σ → Prop
  | nil (s : σ) : Run M s [] s
  | cons {s t u : σ} {i : ι} {is : List ι} : M.Step s i t → Run M t is u → Run M s (i :: is) u

/-- The states a run leads to from an initial state. -/
def Reachable (M : TransitionSystem σ ι) (t : σ) : Prop :=
  ∃ s is, M.Init s ∧ Run M s is t

/-- `P` holds initially and every step keeps it. -/
structure Invariant (M : TransitionSystem σ ι) (P : σ → Prop) : Prop where
  init : ∀ s, M.Init s → P s
  step : ∀ s i t, P s → M.Step s i t → P t

variable {M : TransitionSystem σ ι} {P : σ → Prop} {s t u : σ} {i : ι} {is js : List ι}

theorem Run.append (h : Run M s is t) (h' : Run M t js u) : Run M s (is ++ js) u := by
  induction h with
  | nil s => exact h'
  | cons hst _ ih => exact Run.cons hst (ih h')

theorem Run.snoc (h : Run M s is t) (h' : M.Step t i u) : Run M s (is ++ [i]) u :=
  h.append (Run.cons h' (Run.nil u))

/-- A run of two parts goes through a state between them. -/
theorem run_append_iff : Run M s (is ++ js) u ↔ ∃ t, Run M s is t ∧ Run M t js u := by
  constructor
  · intro h
    induction is generalizing s with
    | nil => exact ⟨s, Run.nil s, h⟩
    | cons i is ih =>
      cases h with
      | cons hst hrun =>
        obtain ⟨t, his, hjs⟩ := ih hrun
        exact ⟨t, Run.cons hst his, hjs⟩
  · rintro ⟨t, his, hjs⟩
    exact his.append hjs

/-- Induction on a run from its last step. -/
theorem Run.snoc_induction {Q : List ι → σ → Prop} (hnil : Q [] s)
    (hsnoc : ∀ is t i u, Run M s is t → Q is t → M.Step t i u → Q (is ++ [i]) u)
    (h : Run M s is t) : Q is t := by
  induction h generalizing Q with
  | nil s => exact hnil
  | @cons s t u i is hst _ ih =>
    refine ih (Q := fun js => Q (i :: js)) (hsnoc [] s i t (Run.nil s) hnil hst) ?_
    exact fun js r j r' hrun hQ hlast => hsnoc (i :: js) r j r' (Run.cons hst hrun) hQ hlast

/-- A run keeps whatever each of its steps keeps. -/
theorem Run.preserves (hP : ∀ s i t, P s → M.Step s i t → P t) (h : Run M s is t) (hs : P s) :
    P t := by
  induction h with
  | nil s => exact hs
  | cons hst _ ih => exact ih (hP _ _ _ hs hst)

theorem Reachable.init (h : M.Init s) : M.Reachable s :=
  ⟨s, [], h, Run.nil s⟩

theorem Reachable.step (h : M.Reachable s) (hst : M.Step s i t) : M.Reachable t := by
  obtain ⟨s₀, is, h₀, hrun⟩ := h
  exact ⟨s₀, is ++ [i], h₀, hrun.snoc hst⟩

theorem Reachable.run (h : M.Reachable s) (hst : Run M s is t) : M.Reachable t := by
  obtain ⟨s₀, js, h₀, hrun⟩ := h
  exact ⟨s₀, js ++ is, h₀, hrun.append hst⟩

/-- A run is one of every system that has its steps. -/
theorem Run.imp {N : TransitionSystem σ ι} (hMN : ∀ s i t, M.Step s i t → N.Step s i t)
    (h : Run M s is t) : Run N s is t := by
  induction h with
  | nil s => exact Run.nil s
  | cons hst _ ih => exact Run.cons (hMN _ _ _ hst) ih

theorem Run.of_restrict {ok : σ → ι → Prop} (h : Run (M.restrict ok) s is t) : Run M s is t :=
  Run.imp (fun _ _ _ hst => And.left hst) h

theorem Reachable.of_restrict {ok : σ → ι → Prop} (h : (M.restrict ok).Reachable s) :
    M.Reachable s := by
  obtain ⟨s₀, is, h₀, hrun⟩ := h
  exact ⟨s₀, is, h₀, hrun.of_restrict⟩

/-- **Invariants hold in every reachable state.** -/
theorem Invariant.of_reachable (hP : M.Invariant P) (h : M.Reachable s) : P s := by
  obtain ⟨s₀, is, h₀, hrun⟩ := h
  exact hrun.preserves hP.step (hP.init s₀ h₀)

/-- Nothing or one step is a run. -/
theorem exists_run_of_step (h : t = s ∨ ∃ i, M.Step s i t) : ∃ is, Run M s is t := by
  rcases h with rfl | ⟨i, hst⟩
  · exact ⟨[], Run.nil t⟩
  · exact ⟨[i], Run.cons hst (Run.nil t)⟩

/-! ## Projections -/

/-- Every step of `M` is a run of `N` on the part `f` of the state. -/
structure Projects {τ : Type u'} {κ : Type v'} (M : TransitionSystem σ ι)
    (N : TransitionSystem τ κ) (f : σ → τ) : Prop where
  init : ∀ s, M.Init s → N.Init (f s)
  step : ∀ s i t, M.Step s i t → ∃ js, Run N (f s) js (f t)

section Projects

variable {τ : Type u'} {κ : Type v'} {N : TransitionSystem τ κ} {f : σ → τ}

theorem Projects.run (h : M.Projects N f) (hrun : Run M s is t) :
    ∃ js, Run N (f s) js (f t) := by
  induction hrun with
  | nil s => exact ⟨[], Run.nil _⟩
  | cons hst _ ih =>
    obtain ⟨js, hjs⟩ := h.step _ _ _ hst
    obtain ⟨js', hjs'⟩ := ih
    exact ⟨js ++ js', hjs.append hjs'⟩

theorem Projects.reachable (h : M.Projects N f) (hs : M.Reachable s) : N.Reachable (f s) := by
  obtain ⟨s₀, is, h₀, hrun⟩ := hs
  obtain ⟨js, hjs⟩ := h.run hrun
  exact ⟨f s₀, js, h.init s₀ h₀, hjs⟩

end Projects

/-! ## Systems of a step function -/

/-- The runs of a total step function are its folds. -/
theorem run_ofFun_iff {init : σ} {step : σ → ι → σ} :
    Run (ofFun init step) s is t ↔ is.foldl step s = t := by
  induction is generalizing s with
  | nil =>
    constructor
    · rintro ⟨⟩
      rfl
    · rintro rfl
      exact Run.nil _
  | cons i is ih =>
    rw [List.foldl_cons]
    constructor
    · rintro (_ | ⟨rfl, hrun⟩)
      exact ih.mp hrun
    · intro h
      exact Run.cons rfl (ih.mpr h)

theorem reachable_ofFun_iff {init : σ} {step : σ → ι → σ} :
    (ofFun init step).Reachable t ↔ ∃ is : List ι, is.foldl step init = t := by
  constructor
  · rintro ⟨s, is, rfl, hrun⟩
    exact ⟨is, run_ofFun_iff.mp hrun⟩
  · rintro ⟨is, h⟩
    exact ⟨init, is, rfl, run_ofFun_iff.mpr h⟩

/-- The runs of a step function that may refuse are its monadic folds. -/
theorem run_ofPartial_iff {init : σ} {step : σ → ι → Option σ} :
    Run (ofPartial init step) s is t ↔ is.foldlM step s = some t := by
  induction is generalizing s with
  | nil =>
    constructor
    · rintro ⟨⟩
      rfl
    · intro h
      obtain rfl := Option.some.inj h
      exact Run.nil _
  | cons i is ih =>
    rw [List.foldlM_cons, Option.bind_eq_bind, Option.bind_eq_some_iff]
    constructor
    · rintro (_ | ⟨hst, hrun⟩)
      exact ⟨_, hst, ih.mp hrun⟩
    · rintro ⟨u, hst, hrun⟩
      exact Run.cons hst (ih.mpr hrun)

theorem reachable_ofPartial_iff {init : σ} {step : σ → ι → Option σ} :
    (ofPartial init step).Reachable t ↔ ∃ is : List ι, is.foldlM step init = some t := by
  constructor
  · rintro ⟨s, is, rfl, hrun⟩
    exact ⟨is, run_ofPartial_iff.mp hrun⟩
  · rintro ⟨is, h⟩
    exact ⟨init, is, rfl, run_ofPartial_iff.mpr h⟩

/-- A run of which the last state is known in part. -/
theorem exists_reachable_of_map {α : Type v'} {init : σ} {step : σ → ι → Option σ} {f : σ → α}
    {a : α} (h : (is.foldlM step init).map f = some a) :
    ∃ t, (ofPartial init step).Reachable t ∧ f t = a := by
  obtain ⟨t, ht, hf⟩ := Option.map_eq_some_iff.mp h
  exact ⟨t, reachable_ofPartial_iff.mpr ⟨is, ht⟩, hf⟩

/-- A step of the recorded system is a step, and appends to the record. -/
theorem step_recorded {ε : Type v'} {init : σ} {step : σ → ι → Option σ}
    {observe : σ → ι → List ε} {x y : σ × List ε} (h : (recorded init step observe).Step x i y) :
    step x.1 i = some y.1 ∧ y.2 = x.2 ++ observe x.1 i := by
  obtain ⟨t, hstep, rfl⟩ := Option.map_eq_some_iff.mp h
  exact ⟨hstep, rfl⟩

/-- When every step is a run of `N` on the part `f` of the state, with what is observed of the step
as its labels, the whole record is a run of `N`. -/
theorem run_of_recorded {ε : Type v'} {τ : Type u'} {κ : Type*} {N : TransitionSystem τ κ}
    {f : σ → τ} {g : ε → κ} {init : σ} {step : σ → ι → Option σ} {observe : σ → ι → List ε}
    (hstep : ∀ s i t, step s i = some t → Run N (f s) ((observe s i).map g) (f t))
    {x : σ × List ε} (h : (recorded init step observe).Reachable x) :
    Run N (f init) (x.2.map g) (f x.1) := by
  refine Invariant.of_reachable (P := fun x => Run N (f init) (x.2.map g) (f x.1)) ⟨?_, ?_⟩ h
  · rintro x rfl
    exact Run.nil _
  · intro x i y hx hy
    obtain ⟨hst, hlog⟩ := step_recorded hy
    rw [hlog, List.map_append]
    exact hx.append (hstep _ _ _ hst)

/-- The runs that meet a decidable condition are the folds that check it. -/
theorem reachable_restrict_ofPartial_iff {init : σ} {step : σ → ι → Option σ} {ok : σ → ι → Prop}
    [∀ s i, Decidable (ok s i)] :
    ((ofPartial init step).restrict ok).Reachable t ↔
      ∃ is : List ι, is.foldlM (fun s i => if ok s i then step s i else none) init = some t := by
  have hsystem : (ofPartial init step).restrict ok =
      ofPartial init fun s i => if ok s i then step s i else none := by
    refine congrArg (mk _) (funext fun s => funext fun i => funext fun t => propext ?_)
    by_cases hok : ok s i
    · simp [ofPartial, hok]
    · simp [hok]
  rw [hsystem, reachable_ofPartial_iff]

/-- A fold that makes a decidable test stays within the condition that the test is for. -/
theorem reachable_restrict_of_test {init : σ} {step : σ → ι → Option σ} {test ok : σ → ι → Prop}
    [∀ s i, Decidable (test s i)] (hinit : M.Init init)
    (hok : ∀ s i t, step s i = some t → test s i → M.Step s i t ∧ ok s i)
    (h : is.foldlM (fun s i => if test s i then step s i else none) init = some t) :
    (M.restrict ok).Reachable t := by
  obtain ⟨s₀, js, rfl, hrun⟩ := reachable_restrict_ofPartial_iff.mpr ⟨is, h⟩
  refine ⟨_, js, hinit, hrun.imp ?_⟩
  rintro s i t ⟨hstep, htest⟩
  exact hok s i t hstep htest

end TransitionSystem
