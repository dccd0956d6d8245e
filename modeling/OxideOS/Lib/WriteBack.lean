import Mathlib.Data.List.Nodup
import Mathlib.Logic.Function.Basic

/-!
# Write-back caches

A write-back cache holds copies of some cells of a backing array, each copy clean or dirty, and a
reader sees the copy where there is one and the backing cell elsewhere.  The cache is *coherent*
when every clean copy equals its backing cell.  Filling a line, evicting it and flushing all lines
leave what a reader sees unchanged, storing changes one cell of it, and all of them keep the cache
coherent; after a flush the backing array alone is what a reader sees.
-/

universe u v

/-- Cached copies, each with a dirty mark, over a backing array. -/
structure WriteBack (K : Type u) (V : Type v) where
  cached : K → Option (V × Bool)
  backing : K → V

namespace WriteBack

variable {K : Type u} {V : Type v} (w : WriteBack K V) (k : K) (v : V)

/-- What a reader sees: the copy where there is one, the backing cell elsewhere. -/
def view : K → V := fun j =>
  match w.cached j with
  | some c => c.1
  | none => w.backing j

/-- Every clean copy equals its backing cell. -/
def Coherent : Prop :=
  ∀ j x, w.cached j = some (x, false) → w.backing j = x

/-- Write every dirty copy back and keep all copies, now clean. -/
def flush : WriteBack K V where
  cached j := (w.cached j).map fun c => (c.1, false)
  backing j :=
    match w.cached j with
    | some (x, true) => x
    | _ => w.backing j

theorem view_of_cached {w : WriteBack K V} {k : K} {c : V × Bool} (h : w.cached k = some c) :
    w.view k = c.1 := by
  rw [view, h]

theorem view_of_not_cached {w : WriteBack K V} {k : K} (h : w.cached k = none) :
    w.view k = w.backing k := by
  rw [view, h]

/-- After a flush the backing array alone is what a reader saw before it. -/
theorem backing_flush {w : WriteBack K V} (hw : w.Coherent) : w.flush.backing = w.view := by
  funext j
  rcases hj : w.cached j with _ | ⟨x, _ | _⟩
  · simp [flush, view, hj]
  · simp [flush, view, hj, hw j x hj]
  · simp [flush, view, hj]

theorem view_flush : w.flush.view = w.view := by
  funext j
  cases hj : w.cached j with
  | none => simp [flush, view, hj]
  | some c => rw [view_of_cached hj, view_of_cached (c := (c.1, false)) (by simp [flush, hj])]

theorem Coherent.flush {w : WriteBack K V} (hw : w.Coherent) : w.flush.Coherent := by
  intro j x hj
  obtain ⟨c, hc, hcx⟩ := Option.map_eq_some_iff.mp hj
  rw [backing_flush hw, view_of_cached hc]
  exact congrArg Prod.fst hcx

variable [DecidableEq K]

/-- Copy a backing cell into the cache, clean. -/
def fill : WriteBack K V :=
  { w with cached := Function.update w.cached k (some (w.backing k, false)) }

/-- Store a value in the cache only, dirty. -/
def put : WriteBack K V :=
  { w with cached := Function.update w.cached k (some (v, true)) }

/-- Drop a copy, after writing it back when it is dirty. -/
def evict : WriteBack K V where
  cached := Function.update w.cached k none
  backing :=
    match w.cached k with
    | some (x, true) => Function.update w.backing k x
    | _ => w.backing

variable {w k v}

theorem view_fill (h : w.cached k = none) : (w.fill k).view = w.view := by
  funext j
  by_cases hj : j = k
  · subst hj
    simp [view, fill, h]
  · simp [view, fill, hj]

theorem Coherent.fill (hw : w.Coherent) : (w.fill k).Coherent := by
  intro j x hj
  by_cases hjk : j = k
  · subst hjk
    simpa [WriteBack.fill] using hj
  · exact hw j x (by simpa [WriteBack.fill, hjk] using hj)

theorem view_put : (w.put k v).view = Function.update w.view k v := by
  funext j
  by_cases hj : j = k
  · subst hj
    simp [view, put]
  · simp [view, put, hj]

theorem Coherent.put (hw : w.Coherent) : (w.put k v).Coherent := by
  intro j x hj
  by_cases hjk : j = k
  · subst hjk
    simp [WriteBack.put] at hj
  · exact hw j x (by simpa [WriteBack.put, hjk] using hj)

theorem backing_evict_of_ne {j : K} (h : j ≠ k) : (w.evict k).backing j = w.backing j := by
  rcases hk : w.cached k with _ | ⟨x, _ | _⟩ <;> simp [evict, hk, h]

theorem view_evict (hw : w.Coherent) : (w.evict k).view = w.view := by
  funext j
  by_cases hj : j = k
  · subst hj
    rw [view_of_not_cached (by simp [evict])]
    rcases hc : w.cached j with _ | ⟨x, _ | _⟩
    · simp [evict, hc, view]
    · simp [evict, hc, view, hw j x hc]
    · simp [evict, hc, view]
  · have hcached : (w.evict k).cached j = w.cached j := by simp [evict, hj]
    rw [view, view, hcached, backing_evict_of_ne hj]

theorem Coherent.evict (hw : w.Coherent) : (w.evict k).Coherent := by
  intro j x hj
  by_cases hjk : j = k
  · subst hjk
    simp [WriteBack.evict] at hj
  · rw [backing_evict_of_ne hjk]
    exact hw j x (by simpa [WriteBack.evict, hjk] using hj)

/-! ## Writing back a list of cells -/

/-- Write the listed cells, in order. -/
def writeAll (f : K → V) (cells : List (K × V)) : K → V :=
  cells.foldl (fun f p => Function.update f p.1 p.2) f

theorem writeAll_of_notMem {cells : List (K × V)} :
    ∀ {f : K → V}, k ∉ cells.map Prod.fst → writeAll f cells k = f k := by
  induction cells with
  | nil => intro f _; rfl
  | cons p cells ih =>
    intro f hk
    rw [List.map_cons, List.mem_cons, not_or] at hk
    show writeAll (Function.update f p.1 p.2) cells k = f k
    rw [ih hk.2, Function.update_of_ne hk.1]

theorem writeAll_of_mem {cells : List (K × V)} (hnodup : (cells.map Prod.fst).Nodup) :
    ∀ {f : K → V}, (k, v) ∈ cells → writeAll f cells k = v := by
  induction cells with
  | nil => intro f hk; cases hk
  | cons p cells ih =>
    intro f hk
    rw [List.map_cons, List.nodup_cons] at hnodup
    show writeAll (Function.update f p.1 p.2) cells k = v
    rcases List.mem_cons.mp hk with rfl | hk
    · rw [writeAll_of_notMem hnodup.1, Function.update_self]
    · exact ih hnodup.2 hk

/-- Writing exactly the dirty copies to the backing array, each once, is a flush. -/
theorem writeAll_backing {cells : List (K × V)} (hnodup : (cells.map Prod.fst).Nodup)
    (hcells : ∀ j x, (j, x) ∈ cells ↔ w.cached j = some (x, true)) :
    writeAll w.backing cells = w.flush.backing := by
  funext j
  have hmem : j ∈ cells.map Prod.fst ↔ ∃ x, w.cached j = some (x, true) := by
    simp [← hcells]
  rcases hj : w.cached j with _ | ⟨x, _ | _⟩
  · rw [writeAll_of_notMem (by simp [hmem, hj])]
    simp [flush, hj]
  · rw [writeAll_of_notMem (by simp [hmem, hj])]
    simp [flush, hj]
  · rw [writeAll_of_mem hnodup ((hcells j x).mpr hj)]
    simp [flush, hj]

/-! ## Backing arrays that may fail -/

/-- Every dirty copy is the value stored last in its cell, and among the cells in question a reader
sees the value stored last. -/
structure Retains (w : WriteBack K V) (cells : K → Prop) (stored : K → Option V) : Prop where
  coherent : w.Coherent
  dirty : ∀ j x, w.cached j = some (x, true) → stored j = some x
  seen : ∀ j x, cells j → stored j = some x → w.view j = x

variable {cells : K → Prop} {stored : K → Option V} {backing : K → V}

theorem Retains.fill (h : w.Retains cells stored) (hk : w.cached k = none) :
    (w.fill k).Retains cells stored where
  coherent := h.coherent.fill
  dirty := by
    intro j x hj
    by_cases hjk : j = k
    · subst hjk
      simp [WriteBack.fill] at hj
    · exact h.dirty j x (by simpa [WriteBack.fill, hjk] using hj)
  seen := by
    rw [view_fill hk]
    exact h.seen

theorem Retains.put (h : w.Retains cells stored) :
    (w.put k v).Retains cells (Function.update stored k (some v)) where
  coherent := h.coherent.put
  dirty := by
    intro j x hj
    by_cases hjk : j = k
    · subst hjk
      simpa [WriteBack.put] using hj
    · rw [Function.update_of_ne hjk]
      exact h.dirty j x (by simpa [WriteBack.put, hjk] using hj)
  seen := by
    intro j x hcell hj
    rw [view_put]
    by_cases hjk : j = k
    · subst hjk
      simpa using hj
    · rw [Function.update_of_ne hjk] at hj ⊢
      exact h.seen j x hcell hj

omit [DecidableEq K] in
theorem Retains.flush (h : w.Retains cells stored) : w.flush.Retains cells stored where
  coherent := h.coherent.flush
  dirty := by
    intro j x hj
    obtain ⟨c, -, hc⟩ := Option.map_eq_some_iff.mp hj
    simp at hc
  seen := by
    rw [view_flush]
    exact h.seen

omit [DecidableEq K] in
theorem Coherent.of_backing (hw : w.Coherent)
    (hbacking : ∀ j, (∃ x, w.cached j = some (x, true)) ∨ backing j = w.backing j) :
    Coherent { w with backing } := by
  intro j x hj
  rcases hbacking j with ⟨y, hy⟩ | heq
  · rw [hy] at hj
    cases hj
  · exact heq.trans (hw j x hj)

omit [DecidableEq K] in
/-- Whatever becomes of the backing cells behind dirty copies does not show. -/
theorem view_of_backing
    (hbacking : ∀ j, (∃ x, w.cached j = some (x, true)) ∨ backing j = w.backing j) :
    view { w with backing } = w.view := by
  funext j
  rcases hbacking j with ⟨y, hy⟩ | heq
  · simp only [view, hy]
  · simp only [view, heq]

omit [DecidableEq K] in
theorem Retains.of_backing (h : w.Retains cells stored)
    (hbacking : ∀ j, (∃ x, w.cached j = some (x, true)) ∨ backing j = w.backing j) :
    Retains { w with backing } cells stored where
  coherent := h.coherent.of_backing hbacking
  dirty := h.dirty
  seen := by
    rw [view_of_backing hbacking]
    exact h.seen

/-- The cell of a copy that is dropped may hold anything. -/
theorem Coherent.drop (hw : w.Coherent) (hother : ∀ j, j ≠ k → backing j = w.backing j) :
    Coherent ⟨Function.update w.cached k none, backing⟩ := by
  intro j x hj
  by_cases hjk : j = k
  · simp [hjk] at hj
  · exact (hother j hjk).trans (hw j x (by simpa [hjk] using hj))

/-- **Dropping a copy** over a backing array that may have failed to be written: what was stored is
retained exactly when a dirty copy in one of the cells in question is in its backing cell now. -/
theorem retains_drop_iff (h : w.Retains cells stored)
    (hbacking : ∀ j, (j = k ∧ ∃ x, w.cached k = some (x, true)) ∨ backing j = w.backing j) :
    Retains ⟨Function.update w.cached k none, backing⟩ cells stored ↔
      ∀ x, w.cached k = some (x, true) → cells k → backing k = x := by
  constructor
  · intro h' x hx hcell
    have hview := h'.seen k x hcell (h.dirty k x hx)
    rwa [view_of_not_cached (by simp)] at hview
  · intro hkept
    have hother : ∀ j, j ≠ k → backing j = w.backing j := fun j hj =>
      (hbacking j).resolve_left fun hk => hj hk.1
    refine ⟨h.coherent.drop hother, fun j x hj => ?_, fun j x hcell hj => ?_⟩
    · by_cases hjk : j = k
      · simp [hjk] at hj
      · exact h.dirty j x (by simpa [hjk] using hj)
    · rw [← h.seen j x hcell hj]
      by_cases hjk : j = k
      · subst hjk
        rw [view_of_not_cached (by simp)]
        show backing j = w.view j
        rcases hbacking j with ⟨-, y, hy⟩ | heq
        · rw [hkept y hy hcell, view_of_cached hy]
        · rcases hc : w.cached j with _ | ⟨y, _ | _⟩
          · rw [heq, view_of_not_cached hc]
          · rw [heq, view_of_cached hc, h.coherent j y hc]
          · rw [hkept y hc hcell, view_of_cached hc]
      · simp [view, hother j hjk, hjk]

end WriteBack
