import OxideOS.Kernel.System

/-!
# Stacks of tasks

The stack of a task lies at an address computed from its id, and the id of a dead task is handed
out again. Frames are another matter: the cleanup of a dead task returns the frames of its stack to
the allocator, and the next stack gets whatever frames are free. But the cleanup leaves the pages of
the stack mapped, and mapping a page that is mapped is an error that the kernel does not survive.

So in every reachable state the mapped stack pages are those of all ids handed out so far, dead or
alive. A task can be created while no id waits to be handed out again, and then its stack gets four
frames that no other task has; with the first id that comes back, creating a task fails.

## Main definitions

* `MapsAll`: a list of pages is mapped to frames
* `heldFrames`: the frames of the stacks of all tasks
* `Kernel.Stacked`: the invariant of stacks, frames and mapped pages
* `Kernel.FramesSuffice`, `Kernel.SpawnsOnFreshStack`: what a spawn needs and what it should do

## Main results

* `Kernel.stacked_of_reachable`: the invariant holds in every reachable state
* `Kernel.spawn_iff_no_free_id`: creating a task works exactly while no id has come back
* `Kernel.respawn_panics`: it fails after the first death
-/

namespace OxideOS

open BitmapFrameAllocator

/-! ## Addresses of frames -/

/-- The address of a frame, as a task keeps it. -/
def stackAddr (i : Nat) : UInt64 := UInt64.ofNat (PhysFrame.ofIndex i).startAddress

theorem toNat_stackAddr {i : Nat} (h : i < 2 ^ 40) : (stackAddr i).toNat = i * pageSize :=
  PhysFrame.toNat_startAddress h

theorem containingAddress_stackAddr {i : Nat} (h : i < 2 ^ 40) :
    PhysFrame.containingAddress (stackAddr i).toNat = .ofIndex i := by
  rw [toNat_stackAddr h]
  rfl

theorem stackAddr_injective {i j : Nat} (hi : i < 2 ^ 40) (hj : j < 2 ^ 40)
    (h : stackAddr i = stackAddr j) : i = j := by
  refine PhysFrame.ofIndex_injective ?_
  rw [← containingAddress_stackAddr hi, h, containingAddress_stackAddr hj]

/-! ## Mapping a stack -/

/-- The pages are mapped one after the other, to the frames with these indices. -/
inductive MapsAll : PageTable → BitmapFrameAllocator → List Nat → List Nat → PageTable →
    BitmapFrameAllocator → Prop
  | nil {pt : PageTable} {a : BitmapFrameAllocator} : MapsAll pt a [] [] pt a
  | cons {pt pt₁ pt' : PageTable} {a a₁ a' : BitmapFrameAllocator} {page i : Nat}
      {pages is : List Nat} : Maps pt a page i pt₁ a₁ → MapsAll pt₁ a₁ pages is pt' a' →
      MapsAll pt a (page :: pages) (i :: is) pt' a'

namespace MapsAll

variable {pt pt' : PageTable} {a a' : BitmapFrameAllocator} {pages is : List Nat}

theorem sound (h : MapsAll pt a pages is pt' a') (ha : a.Sound) :
    a'.Sound ∧ a'.totalFrames = a.totalFrames ∧ ∀ i, a.isSet i = true → a'.isSet i = true := by
  induction h with
  | nil => exact ⟨ha, rfl, fun _ => id⟩
  | cons hmaps _ ih =>
    obtain ⟨hsound, htotal, hkeeps⟩ := ih hmaps.claims.sound
    exact ⟨hsound, htotal.trans hmaps.claims.total, fun i hi => hkeeps i (hmaps.claims.keeps i hi)⟩

/-- The frames were free, are in use, and are all different. -/
theorem fresh (h : MapsAll pt a pages is pt' a') (ha : a.Sound) :
    is.Nodup ∧ ∀ i ∈ is, i < a.totalFrames ∧ a.isSet i = false ∧ a'.isSet i = true := by
  induction h with
  | nil => exact ⟨List.nodup_nil, fun i hi => absurd hi List.not_mem_nil⟩
  | @cons pt pt₁ pt' a a₁ a' page i pages is hmaps hrest ih =>
    obtain ⟨hnodup, hfresh⟩ := ih hmaps.claims.sound
    have hfree : ∀ j ∈ is, a.isSet j = false := by
      intro j hj
      by_contra hset
      have hset₁ := hmaps.claims.keeps j (by simpa using hset)
      rw [(hfresh j hj).2.1] at hset₁
      cases hset₁
    refine ⟨List.nodup_cons.mpr ⟨fun hmem => ?_, hnodup⟩, fun j hj => ?_⟩
    · have hclear := (hfresh i hmem).2.1
      rw [hmaps.taken] at hclear
      cases hclear
    · rcases List.mem_cons.mp hj with rfl | hj
      · exact ⟨hmaps.index, hmaps.free, (hrest.sound hmaps.claims.sound).2.2 j hmaps.taken⟩
      · exact ⟨hmaps.claims.total ▸ (hfresh j hj).1, hfree j hj, (hfresh j hj).2.2⟩

theorem mem_pages (h : MapsAll pt a pages is pt' a') {page : Nat} :
    page ∈ pt'.pages ↔ page ∈ pt.pages ∨ page ∈ pages := by
  induction h with
  | nil => simp
  | @cons pt pt₁ pt' a a₁ a' first i pages is hmaps _ ih =>
    rw [ih, hmaps.pages, Std.ExtTreeMap.mem_insert, List.mem_cons,
      Std.LawfulEqCmp.compare_eq_iff_eq]
    tauto

/-- Pages that get mapped were not mapped. -/
theorem unmapped (h : MapsAll pt a pages is pt' a') : ∀ page ∈ pages, page ∉ pt.pages := by
  induction h with
  | nil => exact fun page hpage => absurd hpage List.not_mem_nil
  | @cons pt pt₁ pt' a a₁ a' first i pages is hmaps _ ih =>
    intro page hpage hmem
    rcases List.mem_cons.mp hpage with rfl | hpage
    · exact hmaps.unmapped hmem
    · refine ih page hpage ?_
      rw [hmaps.pages, Std.ExtTreeMap.mem_insert]
      exact .inr hmem

/-- A page that is mapped stays mapped to its frame. -/
theorem getElem?_of_mem (h : MapsAll pt a pages is pt' a') {page : Nat}
    (hpage : page ∈ pt.pages) : pt'.pages[page]? = pt.pages[page]? := by
  induction h with
  | nil => rfl
  | @cons pt pt₁ pt' a a₁ a' first i pages is hmaps _ ih =>
    have hne : first ≠ page := fun heq => hmaps.unmapped (heq ▸ hpage)
    have hget : pt₁.pages[page]? = pt.pages[page]? := by
      rw [hmaps.pages, Std.ExtTreeMap.getElem?_insert,
        if_neg fun heq => hne (Std.LawfulEqCmp.eq_of_compare heq)]
    rw [ih ?_, hget]
    rw [hmaps.pages, Std.ExtTreeMap.mem_insert]
    exact .inr hpage

/-- Each page is mapped to its frame. -/
theorem forall₂_getElem? (h : MapsAll pt a pages is pt' a') :
    List.Forall₂ (fun page i => pt'.pages[page]? = some (PhysFrame.ofIndex i)) pages is := by
  induction h with
  | nil => exact .nil
  | @cons pt pt₁ pt' a a₁ a' page i pages is hmaps hrest ih =>
    refine .cons ?_ ih
    rw [hrest.getElem?_of_mem ?_, hmaps.pages, Std.ExtTreeMap.getElem?_insert_self]
    rw [hmaps.pages]
    exact Std.ExtTreeMap.mem_insert_self

end MapsAll

namespace Kernel

section MapStack

variable {pt pt' : PageTable} {a : BitmapFrameAllocator} {pages : List Nat}

theorem mapStackFrom_cons (acc : List UInt64) (page : Nat) (pages : List Nat) (pt : PageTable)
    (frames : Option BitmapFrameAllocator) :
    mapStackFrom acc (page :: pages) pt frames =
      (allocAndMap pt frames page).bind fun x =>
        mapStackFrom (acc ++ [UInt64.ofNat x.1.startAddress]) pages x.2.1 x.2.2 := by
  rw [mapStackFrom, List.foldlM_cons]
  dsimp only
  cases allocAndMap pt frames page with
  | none => rfl
  | some x => rfl

theorem mapStackFrom_eq_some {acc stackFrames : List UInt64}
    {frames' : Option BitmapFrameAllocator} (ha : a.Sound)
    (h : mapStackFrom acc pages pt (some a) = some (stackFrames, pt', frames')) :
    ∃ is a', stackFrames = acc ++ is.map stackAddr ∧ frames' = some a' ∧
      MapsAll pt a pages is pt' a' := by
  induction pages generalizing acc pt a with
  | nil =>
    obtain ⟨rfl, rfl, rfl⟩ : acc = stackFrames ∧ pt = pt' ∧ some a = frames' := by
      simpa [mapStackFrom] using h
    exact ⟨[], a, by simp, rfl, .nil⟩
  | cons page pages ih =>
    rw [mapStackFrom_cons, Option.bind_eq_some_iff] at h
    obtain ⟨⟨frame, pt₁, frames₁⟩, hmap, hrest⟩ := h
    obtain ⟨i, a₁, rfl, rfl, hmaps⟩ := allocAndMap_eq_some ha hmap
    obtain ⟨is, a', hframes, hsome, hall⟩ := ih hmaps.claims.sound hrest
    refine ⟨i :: is, a', ?_, hsome, .cons hmaps hall⟩
    rw [hframes, List.map_cons, List.append_assoc]
    rfl

/-- The frames for a list of pages: one for each page, and one for each missing table on the way to
any of them. -/
def framesNeeded (pt : PageTable) (pages : List Nat) : Nat :=
  pages.length + ((pages.flatMap PageTable.path).toFinset \ pt.tables.toFinset).card

theorem exists_mapStackFrom (acc : List UInt64) (ha : a.Sound)
    (hunmapped : ∀ page ∈ pages, page ∉ pt.pages) (hnodup : pages.Nodup)
    (hfree : framesNeeded pt pages ≤ a.freeCount) :
    ∃ x, mapStackFrom acc pages pt (some a) = some x := by
  induction pages generalizing acc pt a with
  | nil => exact ⟨_, rfl⟩
  | cons page pages ih =>
    rw [framesNeeded, List.flatMap_cons, List.toFinset_append, card_union_sdiff,
      List.length_cons] at hfree
    have hfirst : 1 + (missingTables pt page).card ≤ a.freeCount := by
      rw [missingTables]
      omega
    obtain ⟨⟨frame, pt₁, frames₁⟩, hmap⟩ :=
      exists_allocAndMap ha (hunmapped page List.mem_cons_self) hfirst
    obtain ⟨i, a₁, rfl, rfl, hmaps⟩ := allocAndMap_eq_some ha hmap
    obtain ⟨hpage, hnodup⟩ := List.nodup_cons.mp hnodup
    have hunmapped₁ : ∀ page' ∈ pages, page' ∉ pt₁.pages := by
      intro page' hpage'
      rw [hmaps.pages, Std.ExtTreeMap.mem_insert, Std.LawfulEqCmp.compare_eq_iff_eq, not_or]
      exact ⟨fun heq => hpage (heq ▸ hpage'), hunmapped page' (List.mem_cons_of_mem _ hpage')⟩
    have hfree₁ : framesNeeded pt₁ pages ≤ a₁.freeCount := by
      have hcount := hmaps.claims.count
      rw [missingTables] at hcount
      rw [framesNeeded, hmaps.tables]
      omega
    rw [mapStackFrom_cons, hmap]
    exact ih _ hmaps.claims.sound hunmapped₁ hnodup hfree₁

end MapStack

/-! ## Returning a stack -/

/-- Freeing the frames of a stack frees these frames, and no other. -/
theorem freeStack_spec {a : BitmapFrameAllocator} {stackFrames : List UInt64} (ha : a.Sound)
    (htotal : a.totalFrames ≤ 2 ^ 40)
    (hframes : ∀ addr ∈ stackFrames, ∃ i < a.totalFrames, addr = stackAddr i) :
    ∃ a', freeStack (some a) stackFrames = some (some a') ∧ a'.Sound ∧
      a'.totalFrames = a.totalFrames ∧
      ∀ i < a.totalFrames, a'.isSet i = (!decide (stackAddr i ∈ stackFrames) && a.isSet i) := by
  induction stackFrames generalizing a with
  | nil => exact ⟨a, rfl, ha, rfl, by simp⟩
  | cons addr rest ih =>
    obtain ⟨i, hi, rfl⟩ := hframes addr List.mem_cons_self
    obtain ⟨a₁, hfree, hsound, htotal₁, hbits⟩ := freeFrame_spec ha hi
    obtain ⟨a', hrest, hsound', htotal', hbits'⟩ := ih hsound (htotal₁ ▸ htotal)
      (htotal₁ ▸ fun addr haddr => hframes addr (List.mem_cons_of_mem _ haddr))
    refine ⟨a', ?_, hsound', htotal'.trans htotal₁, fun j hj => ?_⟩
    · rw [freeStack, List.foldlM_cons,
        containingAddress_stackAddr (Nat.lt_of_lt_of_le hi htotal), hfree]
      exact hrest
    · rw [hbits' j (htotal₁ ▸ hj), hbits j]
      have hiff : stackAddr j = stackAddr i ↔ j = i :=
        ⟨stackAddr_injective (Nat.lt_of_lt_of_le hj htotal) (Nat.lt_of_lt_of_le hi htotal),
          fun h => h ▸ rfl⟩
      simp only [List.mem_cons, hiff, Bool.decide_or, Bool.not_or]
      rw [Bool.and_left_comm, Bool.and_assoc]

/-! ## The invariant -/

/-- The frames of the stacks of all tasks. -/
def heldFrames (s : Scheduler) : List UInt64 := (s.tasks.map Task.stackFrames).flatten

theorem stateBlind_stackFrames : Scheduler.StateBlind Task.stackFrames := fun _ _ => rfl

/-- The frames that are in the allocator, and the frames of the stacks: all of these are in use. -/
structure Backs (a : BitmapFrameAllocator) (held : List UInt64) : Prop where
  sound : a.Sound
  total : a.totalFrames ≤ 2 ^ 40
  held : ∀ addr ∈ held, ∃ i < a.totalFrames, addr = stackAddr i ∧ a.isSet i = true

/-- No frame is in two stacks, the frames of the stacks are in use, and the stack pages that are
mapped are those of the ids handed out so far. -/
structure Stacked (k : Kernel) : Prop where
  nodup : (heldFrames k.tasks.sched).Nodup
  backs : ∀ a, k.frames = some a → Backs a (heldFrames k.tasks.sched)
  mapped : ∀ id, 1 ≤ id → ∀ page ∈ stackOf id,
    (page ∈ k.pageTable.pages ↔ id < k.tasks.ids.next)

/-- What the boot loader leaves: an allocator for addresses of 52 bits at most, and no page where
stacks will be. -/
structure BootMemory (frames : Option BitmapFrameAllocator) (pageTable : PageTable) : Prop where
  frames : ∀ a, frames = some a → BitmapFrameAllocator.system.Reachable a ∧
    a.totalFrames ≤ 2 ^ 40
  pages : ∀ id, 1 ≤ id → ∀ page ∈ stackOf id, page ∉ pageTable.pages

variable {k k' : Kernel} {op : KernelOp} {frames : Option BitmapFrameAllocator}
  {pageTable : PageTable}

theorem mem_stackOf {id page : Nat} : page ∈ stackOf id ↔
    stackRegionBase / pageSize + id * 5 + 1 ≤ page ∧
      page < stackRegionBase / pageSize + id * 5 + 5 := by
  rw [stackOf, List.mem_range'_1]
  exact Iff.rfl

/-- Stacks of different tasks do not overlap. -/
theorem eq_of_mem_stackOf {id id' page : Nat} (h : page ∈ stackOf id) (h' : page ∈ stackOf id') :
    id = id' := by
  rw [mem_stackOf] at h h'
  omega

theorem stacked_boot (h : BootMemory frames pageTable) : (boot frames pageTable).Stacked where
  nodup := List.nodup_nil
  backs a ha := by
    obtain ⟨hreach, htotal⟩ := h.frames a ha
    exact ⟨sound_of_reachable hreach, htotal, fun addr haddr => absurd haddr List.not_mem_nil⟩
  mapped id hid page hpage := by
    refine iff_of_false (h.pages id hid page hpage) ?_
    exact Nat.not_lt.mpr hid

/-- Moving tasks around keeps the invariant. -/
theorem Stacked.of_perm (h : k.Stacked) (hframes : k'.frames = k.frames)
    (hpageTable : k'.pageTable = k.pageTable) (hnext : k'.tasks.ids.next = k.tasks.ids.next)
    (hperm : (k'.tasks.sched.tasks.map Task.stackFrames).Perm
      (k.tasks.sched.tasks.map Task.stackFrames)) : k'.Stacked where
  nodup := hperm.flatten.nodup_iff.mpr h.nodup
  backs a ha := by
    obtain ⟨hsound, htotal, hheld⟩ := h.backs a (hframes ▸ ha)
    exact ⟨hsound, htotal, fun addr haddr => hheld addr (hperm.flatten.mem_iff.mp haddr)⟩
  mapped := by
    rw [hpageTable, hnext]
    exact h.mapped

/-- The pages of a stack that can be mapped are those of an id that was never handed out. -/
theorem Stacked.freeList_eq_nil (h : k.Stacked) (hcustody : k.tasks.Custody)
    (hunmapped : ∀ page ∈ stackOf k.tasks.ids.alloc.1, page ∉ k.pageTable.pages) :
    k.tasks.ids.freeList = [] := by
  by_contra hne
  have hlast := List.getLast?_eq_some_getLast hne
  generalize k.tasks.ids.freeList.getLast hne = last at hlast
  have halloc : k.tasks.ids.alloc.1 = last := by rw [IdAllocator.alloc, hlast]
  have hmem : last ∈ k.tasks.sched.ids ++ k.tasks.ids.freeList :=
    List.mem_append_right _ (List.mem_of_getLast? hlast)
  obtain ⟨hpos, hlt⟩ := (hcustody.covers.mem_iff last).mp hmem
  have hpage : stackRegionBase / pageSize + last * 5 + 1 ∈ stackOf last :=
    mem_stackOf.mpr ⟨Nat.le_refl _, by omega⟩
  rw [halloc] at hunmapped
  exact hunmapped _ hpage ((h.mapped last hpos _ hpage).mpr hlt)

theorem alloc_of_freeList_eq_nil {ids : IdAllocator} (h : ids.freeList = []) :
    ids.alloc = (ids.next, { ids with next := ids.next + 1 }) := by
  rw [IdAllocator.alloc, h]
  rfl

/-- **What creating a task does** when it does not panic: the id is a new one, and the stack gets
frames that were free. -/
theorem spawnTask_spec {priority : Priority} (h : k.Stacked) (hcustody : k.tasks.Custody)
    (hspawn : k.spawnTask priority = some k') :
    ∃ a a' is task, k.frames = some a ∧ k'.frames = some a' ∧
      k.tasks.ids.freeList = [] ∧ k'.tasks.ids.next = k.tasks.ids.next + 1 ∧
      task.id = k.tasks.ids.next ∧ task.stackFrames = is.map stackAddr ∧
      k.tasks.sched.spawn task = some k'.tasks.sched ∧
      MapsAll k.pageTable a (stackOf k.tasks.ids.next) is k'.pageTable a' := by
  simp only [spawnTask, Option.bind_eq_bind, Option.bind_eq_some_iff] at hspawn
  obtain ⟨⟨stackFrames, pageTable, frames⟩, hmap, tasks, htasks, hk⟩ := hspawn
  obtain rfl := Option.some.inj hk
  cases hframes : k.frames with
  | none =>
    rw [hframes] at hmap
    cases hmap
  | some a =>
    rw [hframes] at hmap
    obtain ⟨is, a', hstack, rfl, hall⟩ := mapStackFrom_eq_some (h.backs a hframes).sound hmap
    have hnil := h.freeList_eq_nil hcustody hall.unmapped
    obtain ⟨task, hnew, hsched⟩ := TaskSystem.step_spawn htasks
    rw [Task.new, alloc_of_freeList_eq_nil hnil] at hnew
    obtain ⟨rfl, hids⟩ := Prod.mk.inj hnew
    rw [alloc_of_freeList_eq_nil hnil] at hall
    exact ⟨a, a', is, _, rfl, rfl, hnil, by rw [← hids], rfl, by simpa using hstack, hsched, hall⟩

/-- The frames of a new stack are in no other stack. -/
theorem Backs.notMem {a a' : BitmapFrameAllocator} {held : List UInt64} (h : Backs a held)
    {pt pt' : PageTable} {pages is : List Nat} (hall : MapsAll pt a pages is pt' a') :
    ∀ i ∈ is, stackAddr i ∉ held := by
  intro i hi hmem
  obtain ⟨hlt, hclear, -⟩ := (hall.fresh h.sound).2 i hi
  obtain ⟨j, hj, heq, hset⟩ := h.held _ hmem
  obtain rfl := stackAddr_injective (Nat.lt_of_lt_of_le hlt h.total)
    (Nat.lt_of_lt_of_le hj h.total) heq
  rw [hclear] at hset
  cases hset

theorem Stacked.spawn {priority : Priority} (h : k.Stacked) (hcustody : k.tasks.Custody)
    (hspawn : k.spawnTask priority = some k') : k'.Stacked := by
  obtain ⟨a, a', is, task, hframes, hframes', -, hnext, -, hstack, hsched, hall⟩ :=
    spawnTask_spec h hcustody hspawn
  have hbacks := h.backs a hframes
  obtain ⟨hnodup, hfresh⟩ := hall.fresh hbacks.sound
  obtain ⟨hsound, htotal, hkeeps⟩ := hall.sound hbacks.sound
  have hperm : (heldFrames k'.tasks.sched).Perm
      (is.map stackAddr ++ heldFrames k.tasks.sched) := by
    have hmap := (Scheduler.map_tasks_spawn Task.stackFrames hsched).flatten
    rwa [List.flatten_cons, hstack] at hmap
  refine ⟨hperm.nodup_iff.mpr (List.nodup_append'.mpr ⟨?_, h.nodup, ?_⟩), fun b hb => ?_, ?_⟩
  · refine hnodup.map_on fun i hi j hj heq => ?_
    exact stackAddr_injective (Nat.lt_of_lt_of_le (hfresh i hi).1 hbacks.total)
      (Nat.lt_of_lt_of_le (hfresh j hj).1 hbacks.total) heq
  · intro addr hnew hold
    obtain ⟨i, hi, rfl⟩ := List.mem_map.mp hnew
    exact hbacks.notMem hall i hi hold
  · obtain rfl := Option.some.inj (hframes'.symm.trans hb)
    refine ⟨hsound, htotal ▸ hbacks.total, fun addr haddr => ?_⟩
    rw [htotal]
    rcases List.mem_append.mp (hperm.mem_iff.mp haddr) with hnew | hold
    · obtain ⟨i, hi, rfl⟩ := List.mem_map.mp hnew
      exact ⟨i, (hfresh i hi).1, rfl, (hfresh i hi).2.2⟩
    · obtain ⟨i, hi, heq, hset⟩ := hbacks.held addr hold
      exact ⟨i, hi, heq, hkeeps i hset⟩
  · intro id hid page hpage
    rw [hall.mem_pages, hnext, h.mapped id hid page hpage]
    constructor
    · rintro (hlt | hmem)
      · exact Nat.lt_succ_of_lt hlt
      · exact (eq_of_mem_stackOf hpage hmem) ▸ Nat.lt_succ_self _
    · intro hlt
      rcases Nat.lt_succ_iff_lt_or_eq.mp hlt with hlt | rfl
      · exact .inl hlt
      · exact .inr hpage

/-- Cleaning up a dead task returns its frames, and no others, and keeps its pages mapped. -/
theorem Stacked.reschedule (h : k.Stacked) (hres : k.reschedule = some k') : k'.Stacked := by
  rw [Kernel.reschedule] at hres
  split at hres
  · next hsched =>
    obtain rfl := Option.some.inj hres
    exact h.of_perm rfl rfl rfl
      (Scheduler.map_tasks_reschedule stateBlind_stackFrames hsched).symm
  · next task sched hsched =>
    have hperm : (heldFrames k.tasks.sched).Perm (task.stackFrames ++ heldFrames sched) :=
      (Scheduler.map_tasks_reschedule stateBlind_stackFrames hsched).flatten
    obtain ⟨hdead, hrest, hdisjoint⟩ := List.nodup_append'.mp (hperm.nodup_iff.mp h.nodup)
    simp only [cleanupDeadTask, Option.bind_eq_bind, Option.bind_eq_some_iff] at hres
    obtain ⟨frames, hfree, hk⟩ := hres
    obtain rfl := Option.some.inj hk
    refine ⟨hrest, fun b hb => ?_, h.mapped⟩
    cases hframes : k.frames with
    | none =>
      rw [hframes] at hfree
      obtain rfl := Option.some.inj hfree
      cases hb
    | some a =>
      obtain ⟨hsound, htotal, hheld⟩ := h.backs a hframes
      have hstack : ∀ addr ∈ task.stackFrames, ∃ i < a.totalFrames, addr = stackAddr i := by
        intro addr haddr
        obtain ⟨i, hi, heq, -⟩ := hheld addr (hperm.mem_iff.mpr (List.mem_append_left _ haddr))
        exact ⟨i, hi, heq⟩
      obtain ⟨a', hfree', hsound', htotal', hbits⟩ := freeStack_spec hsound htotal hstack
      rw [hframes, hfree'] at hfree
      obtain rfl := Option.some.inj hfree
      obtain rfl := Option.some.inj hb
      refine ⟨hsound', htotal' ▸ htotal, fun addr haddr => ?_⟩
      obtain ⟨i, hi, rfl, hset⟩ := hheld addr (hperm.mem_iff.mpr (List.mem_append_right _ haddr))
      refine ⟨i, htotal' ▸ hi, rfl, ?_⟩
      have hnot : stackAddr i ∉ task.stackFrames := fun hmem => hdisjoint hmem haddr
      rw [hbits i hi, hset]
      simp [hnot]

/-- **The invariant of the stacks** is kept by every call. -/
theorem Stacked.step (h : k.Stacked) (hcustody : k.tasks.Custody) (hstep : k.step op = some k') :
    k'.Stacked := by
  by_cases hmoves : op.MovesTasks
  · cases op with
    | spawn priority => exact h.spawn hcustody hstep
    | reschedule => exact h.reschedule hstep
    | blockCurrent =>
      rw [Kernel.step, withTasks] at hstep
      obtain ⟨tasks, htasks, rfl⟩ := Option.map_eq_some_iff.mp hstep
      obtain rfl := Option.some.inj htasks
      refine h.of_perm rfl rfl rfl (.of_eq ?_)
      exact Scheduler.map_tasks_blockCurrent stateBlind_stackFrames _
    | killCurrent =>
      rw [Kernel.step, withTasks] at hstep
      obtain ⟨tasks, htasks, rfl⟩ := Option.map_eq_some_iff.mp hstep
      obtain rfl := Option.some.inj htasks
      refine h.of_perm rfl rfl rfl (.of_eq ?_)
      exact Scheduler.map_tasks_killCurrent stateBlind_stackFrames _
    | _ => exact hmoves.elim
  · obtain ⟨hframes, hpageTable, taskIds, htasks⟩ := step_onlyWakes hmoves hstep
    refine h.of_perm hframes hpageTable ?_ ?_
    · rw [htasks]
      rfl
    · rw [htasks]
      exact TaskSystem.map_tasks_wakeEach stateBlind_stackFrames k.tasks taskIds

theorem stacked_of_reachable (hboot : BootMemory frames pageTable)
    (h : (system frames pageTable).Reachable k) : k.Stacked := by
  obtain ⟨k₀, ops, rfl, hrun⟩ := h
  refine (hrun.preserves (P := fun k => (system frames pageTable).Reachable k ∧ k.Stacked) ?_
    ⟨TransitionSystem.Reachable.init rfl, stacked_boot hboot⟩).2
  rintro k op k' ⟨hreach, hstacked⟩ hstep
  exact ⟨hreach.step hstep, hstacked.step (custody_of_reachable hreach) hstep⟩

/-! ## Creating tasks -/

/-- The free frames suffice for the stack of the next task and the tables on the way to it. -/
def FramesSuffice (k : Kernel) : Prop :=
  ∃ a, k.frames = some a ∧ framesNeeded k.pageTable (stackOf k.tasks.ids.alloc.1) ≤ a.freeCount

/-- Creating a task succeeds: the id fits, and the four pages of its stack are mapped to four
different frames that are in the stack of no other task. -/
def SpawnsOnFreshStack (k : Kernel) (priority : Priority) : Prop :=
  ∃ k' task is, k.spawnTask priority = some k' ∧ k.tasks.sched.spawn task = some k'.tasks.sched ∧
    task.id = k.tasks.ids.alloc.1 ∧ task.stackFrames = is.map stackAddr ∧
    is.length = 4 ∧ is.Nodup ∧
    List.Forall₂ (fun page i => k'.pageTable.pages[page]? = some (PhysFrame.ofIndex i))
      (stackOf task.id) is ∧
    ∀ other ∈ k.tasks.sched.tasks, ∀ i ∈ is, stackAddr i ∉ other.stackFrames

/-- While no id is free, there are as many ids as tasks. -/
theorem next_le_of_custody (hcustody : k.tasks.Custody) (hnil : k.tasks.ids.freeList = []) :
    k.tasks.ids.next ≤ k.tasks.sched.taskCount + 1 := by
  have hlength := hcustody.covers.perm.length_eq
  rw [hnil, List.append_nil, List.length_range', ← TaskSystem.taskCount_eq] at hlength
  omega

theorem exists_spawnTask {priority : Priority} (h : k.Stacked) (hcustody : k.tasks.Custody)
    (hlive : k.tasks.sched.taskCount < 255) (hframes : k.FramesSuffice)
    (hnil : k.tasks.ids.freeList = []) : ∃ k', k.spawnTask priority = some k' := by
  obtain ⟨a, ha, hneeded⟩ := hframes
  have hid : k.tasks.ids.alloc.1 = k.tasks.ids.next := by rw [alloc_of_freeList_eq_nil hnil]
  have hunmapped : ∀ page ∈ stackOf k.tasks.ids.alloc.1, page ∉ k.pageTable.pages := by
    intro page hpage hmem
    rw [hid] at hpage
    exact Nat.lt_irrefl _ ((h.mapped _ hcustody.covers.pos page hpage).mp hmem)
  obtain ⟨⟨stackFrames, pageTable, frames⟩, hmap⟩ :=
    exists_mapStackFrom [] (h.backs a ha).sound hunmapped List.nodup_range' hneeded
  have hnext := next_le_of_custody hcustody hnil
  have hfits : k.tasks.ids.next < maxTasks := by
    rw [maxTasks]
    omega
  obtain ⟨tasks, htasks⟩ : ∃ tasks, k.tasks.step (.spawn priority stackFrames) = some tasks := by
    rw [TaskSystem.step, Task.new, alloc_of_freeList_eq_nil hnil]
    simp [Scheduler.spawn, hfits]
  refine ⟨{ k with tasks, pageTable, frames }, ?_⟩
  have hmapStack : mapStack (stackOf k.tasks.ids.alloc.1) k.pageTable k.frames =
      some (stackFrames, pageTable, frames) := by
    rw [ha]
    exact hmap
  simp only [spawnTask, hmapStack, Option.bind_eq_bind, Option.bind_some, htasks]

/-- **Creating a task works exactly while no id has come back.** In every reachable state with
fewer than 255 tasks and enough free frames, a task can be created on a fresh stack if and only if
no id of a dead task waits to be handed out again. -/
theorem spawn_iff_no_free_id (hboot : BootMemory frames pageTable)
    (h : (system frames pageTable).Reachable k) (hlive : k.tasks.sched.taskCount < 255)
    (hframes : k.FramesSuffice) (priority : Priority) :
    k.SpawnsOnFreshStack priority ↔ k.tasks.ids.freeList = [] := by
  have hstacked := stacked_of_reachable hboot h
  have hcustody := custody_of_reachable h
  constructor
  · rintro ⟨k', task, is, hspawn, -⟩
    obtain ⟨-, -, -, -, -, -, hnil, -⟩ := spawnTask_spec hstacked hcustody hspawn
    exact hnil
  · intro hnil
    obtain ⟨k', hspawn⟩ := exists_spawnTask hstacked hcustody hlive hframes hnil
    obtain ⟨a, a', is, task, ha, -, -, -, hid, hstack, hsched, hall⟩ :=
      spawnTask_spec hstacked hcustody hspawn
    have hbacks := hstacked.backs a ha
    have hpages := hall.forall₂_getElem?
    rw [← hid] at hpages
    refine ⟨k', task, is, hspawn, hsched, ?_, hstack, ?_, (hall.fresh hbacks.sound).1, hpages, ?_⟩
    · rw [hid, alloc_of_freeList_eq_nil hnil]
    · rw [← hpages.length_eq]
      rfl
    · intro other hother i hi hmem
      refine hbacks.notMem hall i hi (List.mem_flatten.mpr ⟨other.stackFrames, ?_, hmem⟩)
      exact List.mem_map_of_mem hother

/-! ## The first death -/

/-- Thirty-two free frames. -/
def thirtyTwoFrames : BitmapFrameAllocator :=
  [MarkOp.free 0 32].foldl BitmapFrameAllocator.mark (.new 32)

theorem bootMemory_thirtyTwo : BootMemory (some thirtyTwoFrames) .empty where
  frames a ha := by
    obtain rfl := Option.some.inj ha
    exact ⟨TransitionSystem.Reachable.init ⟨32, [.free 0 32], rfl⟩, by decide +kernel⟩
  pages id _ page _ := Std.ExtTreeMap.not_mem_empty

/-- A task is created, and runs. -/
def spawned : List KernelOp := [.spawn .normal, .reschedule]

/-- Then it exits, and is cleaned up. -/
def reaped : List KernelOp := spawned ++ [.killCurrent, .reschedule]

/-- While the first task runs, a second one can be created. -/
theorem spawn_iff_no_free_id_spawned :
    ∃ k, spawned.foldlM step (boot (some thirtyTwoFrames) .empty) = some k ∧
      k.SpawnsOnFreshStack .normal := by
  have hrun : (spawned.foldlM step (boot (some thirtyTwoFrames) .empty)).map
      (fun k => (k.tasks.sched.taskCount, k.tasks.ids.freeList, k.frames.map fun a =>
        decide (framesNeeded k.pageTable (stackOf k.tasks.ids.alloc.1) ≤ a.freeCount))) =
      some (1, [], some true) := by
    decide +kernel
  obtain ⟨k, hk, hstate⟩ := Option.map_eq_some_iff.mp hrun
  simp only [Prod.mk.injEq, Option.map_eq_some_iff, decide_eq_true_eq] at hstate
  obtain ⟨hcount, hnil, a, ha, hneeded⟩ := hstate
  refine ⟨k, hk, (spawn_iff_no_free_id bootMemory_thirtyTwo ?_ ?_ ⟨a, ha, hneeded⟩ .normal).mpr
    hnil⟩
  · exact TransitionSystem.reachable_ofPartial_iff.mpr ⟨spawned, hk⟩
  · rw [hcount]
    decide

/-- After the first task has died and been cleaned up there is no task at all, and 29 frames are
free; creating a task needs four, and panics. -/
theorem respawn_panics :
    ∃ k, reaped.foldlM step (boot (some thirtyTwoFrames) .empty) = some k ∧
      k.tasks.sched.taskCount = 0 ∧ k.FramesSuffice ∧ k.spawnTask .normal = none ∧
      ¬ k.SpawnsOnFreshStack .normal := by
  have hrun : (reaped.foldlM step (boot (some thirtyTwoFrames) .empty)).map
      (fun k => (k.tasks.sched.taskCount, (k.spawnTask .normal).isNone, k.frames.map fun a =>
        decide (framesNeeded k.pageTable (stackOf k.tasks.ids.alloc.1) ≤ a.freeCount))) =
      some (0, true, some true) := by
    decide +kernel
  obtain ⟨k, hk, hstate⟩ := Option.map_eq_some_iff.mp hrun
  simp only [Prod.mk.injEq, Option.map_eq_some_iff, decide_eq_true_eq,
    Option.isNone_iff_eq_none] at hstate
  obtain ⟨hcount, hnone, a, ha, hneeded⟩ := hstate
  refine ⟨k, hk, hcount, ⟨a, ha, hneeded⟩, hnone, ?_⟩
  rintro ⟨k', task, is, hspawn, -⟩
  rw [hnone] at hspawn
  cases hspawn

end Kernel

end OxideOS
