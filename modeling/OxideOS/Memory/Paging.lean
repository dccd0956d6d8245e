import OxideOS.Basic
import OxideOS.Memory.FrameAllocator

/-!
# The page table

`memory/paging.rs` maps pages through the page table of the `x86_64` crate.  Mapping a page creates
the tables that are missing on the way from the root, each in a frame of its own, and refuses a page
that is mapped already.  A table of one level covers 512 tables of the next, the last one 512 pages,
so a table is named by its level and by the page number without the digits below that level.

The kernel maps without huge pages and unmaps nothing, so neither is modelled.

## Main definitions

* `PageTable`, `PageTable.mapTo`
* `allocAndMap`: a fresh frame, mapped
* `BitmapFrameAllocator.Claims`: some frames have been claimed
* `Maps`: what mapping a page does

## Main results

* `allocAndMap_eq_some`, `exists_allocAndMap`: what mapping a page does, and when it succeeds
-/

namespace OxideOS

/-- The tables below the root, by level and number, and the pages that are mapped. -/
structure PageTable where
  tables : List (Nat × Nat)
  pages : BTreeMap Nat PhysFrame

namespace PageTable

/-- The page table with nothing below its root. -/
def empty : PageTable := ⟨[], ∅⟩

/-- The tables on the way from the root to a page. -/
def path (page : Nat) : List (Nat × Nat) :=
  [(3, page / 512 ^ 3), (2, page / 512 ^ 2), (1, page / 512)]

/-- `create_next_table`: a missing table gets a frame of its own.  `none` is the error
`FrameAllocationFailed`. -/
def createTable (pt : PageTable) (frames : BitmapFrameAllocator) (table : Nat × Nat) :
    Option (PageTable × BitmapFrameAllocator) :=
  if table ∈ pt.tables then some (pt, frames)
  else
    match frames.allocateFrame with
    | (some _, frames) => some ({ pt with tables := table :: pt.tables }, frames)
    | (none, _) => none

/-- `map_to`.  `none` is an error: no frame for a table, or `PageAlreadyMapped`. -/
def mapTo (pt : PageTable) (frames : BitmapFrameAllocator) (page : Nat) (frame : PhysFrame) :
    Option (PageTable × BitmapFrameAllocator) := do
  let (pt, frames) ← (path page).foldlM (fun (pt, frames) table => pt.createTable frames table)
    (pt, frames)
  if page ∈ pt.pages then none
  else some ({ pt with pages := pt.pages.insert page frame }, frames)

end PageTable

/-- `paging::alloc_and_map`.  `none` is one of its failed `expect`s. -/
def allocAndMap (pt : PageTable) (frames : Option BitmapFrameAllocator) (page : Nat) :
    Option (PhysFrame × PageTable × Option BitmapFrameAllocator) := do
  let frames ← frames
  match frames.allocateFrame with
  | (none, _) => none
  | (some frame, frames) =>
    let (pt, frames) ← pt.mapTo frames page frame
    some (frame, pt, some frames)

/-! ## Claimed frames -/

namespace BitmapFrameAllocator

variable {a b c : BitmapFrameAllocator} {m n i : Nat}

/-- The number of free frames. -/
def freeCount (a : BitmapFrameAllocator) : Nat := (a.freeBelow a.totalFrames).card

/-- `b` is `a` after `n` more frames have been claimed. -/
structure Claims (a b : BitmapFrameAllocator) (n : Nat) : Prop where
  sound : b.Sound
  total : b.totalFrames = a.totalFrames
  keeps : ∀ i, a.isSet i = true → b.isSet i = true
  count : b.freeCount + n = a.freeCount

theorem Claims.refl (h : a.Sound) : a.Claims a 0 := ⟨h, rfl, fun _ => id, rfl⟩

theorem Claims.trans (hab : a.Claims b m) (hbc : b.Claims c n) : a.Claims c (m + n) where
  sound := hbc.sound
  total := hbc.total.trans hab.total
  keeps i hi := hbc.keeps i (hab.keeps i hi)
  count := by
    have := hab.count
    have := hbc.count
    omega

theorem Claims.take (h : a.Sound) (hi : a.LowestFree i) : a.Claims (a.take i) 1 where
  sound := h.take hi
  total := rfl
  keeps j hj := by rw [isSet_take h hi.lt, hj, Bool.or_true]
  count := by
    unfold freeCount
    rw [show (a.take i).totalFrames = a.totalFrames from rfl, freeBelow_take h hi]
    exact Finset.card_erase_add_one (mem_freeBelow.mpr ⟨hi.lt, hi.free⟩)

/-- While a frame is free, allocation claims the lowest one. -/
theorem exists_lowestFree (h : a.Sound) (hfree : 0 < a.freeCount) :
    ∃ i, a.LowestFree i ∧ a.allocateFrame = (some (PhysFrame.ofIndex i), a.take i) := by
  rcases allocateFrame_spec h with hsome | ⟨hall, -⟩
  · exact hsome
  · obtain ⟨j, hj⟩ := Finset.card_pos.mp hfree
    obtain ⟨hlt, hclear⟩ := mem_freeBelow.mp hj
    rw [hall j hlt] at hclear
    cases hclear

end BitmapFrameAllocator

/-! ## What mapping does -/

open BitmapFrameAllocator PageTable

/-- The tables that are new, of two lots created one after the other. -/
theorem card_union_sdiff {α : Type} [DecidableEq α] (P R T : Finset α) :
    ((P ∪ R) \ T).card = (P \ T).card + (R \ (T ∪ P)).card := by
  have hdisjoint : Disjoint (P \ T) (R \ (T ∪ P)) := by
    rw [Finset.disjoint_left]
    intro x hx hx'
    simp only [Finset.mem_sdiff, Finset.mem_union, not_or] at hx hx'
    exact hx'.2.2 hx.1
  rw [← Finset.card_union_of_disjoint hdisjoint]
  congr 1
  ext x
  simp only [Finset.mem_sdiff, Finset.mem_union]
  tauto

section Mapping

variable {pt pt' : PageTable} {a a' : BitmapFrameAllocator} {table : Nat × Nat} {page : Nat}

/-- Creating a table claims a frame if the table is missing. -/
theorem createTable_eq_some (h : a.Sound) (hcreate : pt.createTable a table = some (pt', a')) :
    pt'.pages = pt.pages ∧ pt'.tables.toFinset = pt.tables.toFinset ∪ {table} ∧
      a.Claims a' (({table} : Finset (Nat × Nat)) \ pt.tables.toFinset).card := by
  unfold createTable at hcreate
  split_ifs at hcreate with hmem
  · obtain ⟨rfl, rfl⟩ := Prod.mk.inj (Option.some.inj hcreate)
    have hsub : {table} ⊆ pt.tables.toFinset := by simpa using hmem
    rw [Finset.sdiff_eq_empty_iff_subset.mpr hsub, Finset.union_eq_left.mpr hsub]
    exact ⟨rfl, rfl, Claims.refl h⟩
  · split at hcreate
    · next frame frames halloc =>
      obtain ⟨rfl, rfl⟩ := Prod.mk.inj (Option.some.inj hcreate)
      obtain ⟨i, hi, -, rfl⟩ := allocateFrame_eq_some h halloc
      have hnew : ({table} : Finset (Nat × Nat)) \ pt.tables.toFinset = {table} := by
        rw [Finset.sdiff_eq_self_iff_disjoint, Finset.disjoint_singleton_left]
        simpa using hmem
      rw [hnew, Finset.card_singleton]
      refine ⟨rfl, ?_, Claims.take h hi⟩
      rw [List.toFinset_cons, Finset.union_comm]
      rfl
    · cases hcreate

theorem exists_createTable (h : a.Sound)
    (hfree : (({table} : Finset (Nat × Nat)) \ pt.tables.toFinset).card ≤ a.freeCount) :
    ∃ x, pt.createTable a table = some x := by
  unfold createTable
  split_ifs with hmem
  · exact ⟨_, rfl⟩
  · have hpos : 0 < a.freeCount := by
      refine lt_of_lt_of_le (Finset.card_pos.mpr ⟨table, ?_⟩) hfree
      simpa using hmem
    obtain ⟨i, -, halloc⟩ := exists_lowestFree h hpos
    rw [halloc]
    exact ⟨_, rfl⟩

/-- The loop over the levels. -/
theorem createTables_eq_some (tables : List (Nat × Nat)) (h : a.Sound)
    (hcreate : tables.foldlM (fun (x : PageTable × BitmapFrameAllocator) table =>
      x.1.createTable x.2 table) (pt, a) = some (pt', a')) :
    pt'.pages = pt.pages ∧ pt'.tables.toFinset = pt.tables.toFinset ∪ tables.toFinset ∧
      a.Claims a' (tables.toFinset \ pt.tables.toFinset).card := by
  induction tables generalizing pt a with
  | nil =>
    obtain ⟨rfl, rfl⟩ := Prod.mk.inj (Option.some.inj hcreate)
    simpa using Claims.refl h
  | cons table tables ih =>
    rw [List.foldlM_cons, Option.bind_eq_bind, Option.bind_eq_some_iff] at hcreate
    obtain ⟨⟨pt₁, a₁⟩, hfirst, hrest⟩ := hcreate
    obtain ⟨hpages₁, htables₁, hclaims₁⟩ := createTable_eq_some h hfirst
    obtain ⟨hpages, htables, hclaims⟩ := ih hclaims₁.sound hrest
    rw [htables₁] at htables hclaims
    rw [List.toFinset_cons, Finset.insert_eq, card_union_sdiff]
    refine ⟨hpages.trans hpages₁, ?_, hclaims₁.trans hclaims⟩
    rw [htables, Finset.union_assoc]

theorem exists_createTables (tables : List (Nat × Nat)) (h : a.Sound)
    (hfree : (tables.toFinset \ pt.tables.toFinset).card ≤ a.freeCount) :
    ∃ x, tables.foldlM (fun (x : PageTable × BitmapFrameAllocator) table =>
      x.1.createTable x.2 table) (pt, a) = some x := by
  induction tables generalizing pt a with
  | nil => exact ⟨_, rfl⟩
  | cons table tables ih =>
    rw [List.toFinset_cons, Finset.insert_eq, card_union_sdiff] at hfree
    obtain ⟨⟨pt₁, a₁⟩, hfirst⟩ := exists_createTable h (Nat.le_of_add_right_le hfree)
    obtain ⟨-, htables₁, hclaims₁⟩ := createTable_eq_some h hfirst
    have hcount := hclaims₁.count
    have hfree₁ : (tables.toFinset \ pt₁.tables.toFinset).card ≤ a₁.freeCount := by
      rw [htables₁]
      omega
    obtain ⟨x, hx⟩ := ih hclaims₁.sound hfree₁
    rw [List.foldlM_cons, hfirst]
    exact ⟨x, hx⟩

/-- The tables on the way to a page that are missing. -/
def missingTables (pt : PageTable) (page : Nat) : Finset (Nat × Nat) :=
  (path page).toFinset \ pt.tables.toFinset

/-- A page that was not mapped is mapped to a frame that was free, and the tables on the way are
there. -/
structure Maps (pt : PageTable) (a : BitmapFrameAllocator) (page i : Nat) (pt' : PageTable)
    (a' : BitmapFrameAllocator) : Prop where
  unmapped : page ∉ pt.pages
  index : i < a.totalFrames
  free : a.isSet i = false
  taken : a'.isSet i = true
  pages : pt'.pages = pt.pages.insert page (.ofIndex i)
  tables : pt'.tables.toFinset = pt.tables.toFinset ∪ (path page).toFinset
  claims : a.Claims a' (1 + (missingTables pt page).card)

/-- **What `alloc_and_map` does** when it returns. -/
theorem allocAndMap_eq_some {frame : PhysFrame} {frames' : Option BitmapFrameAllocator}
    (h : a.Sound) (hmap : allocAndMap pt (some a) page = some (frame, pt', frames')) :
    ∃ i a', frame = .ofIndex i ∧ frames' = some a' ∧ Maps pt a page i pt' a' := by
  simp only [allocAndMap, Option.bind_eq_bind, Option.bind_some] at hmap
  split at hmap
  · cases hmap
  next frame₁ frames halloc =>
  obtain ⟨i, hi, rfl, rfl⟩ := allocateFrame_eq_some h halloc
  obtain ⟨⟨pt₁, a₁⟩, hmapTo, hresult⟩ := Option.bind_eq_some_iff.mp hmap
  obtain ⟨rfl, rfl, rfl⟩ : _ = frame ∧ pt₁ = pt' ∧ some a₁ = frames' := by simpa using hresult
  rw [mapTo, Option.bind_eq_bind, Option.bind_eq_some_iff] at hmapTo
  obtain ⟨⟨pt₂, a₂⟩, hcreate, hinsert⟩ := hmapTo
  obtain ⟨hpages, htables, hclaims⟩ := createTables_eq_some (path page) (h.take hi) hcreate
  dsimp only at hinsert
  split_ifs at hinsert with hmem
  obtain ⟨rfl, rfl⟩ := Prod.mk.inj (Option.some.inj hinsert)
  have htake := Claims.take h hi
  refine ⟨i, a₂, rfl, rfl, ?_, hi.lt, hi.free, hclaims.keeps i ?_, ?_, htables,
    htake.trans hclaims⟩
  · rwa [hpages] at hmem
  · rw [isSet_take h hi.lt]
    simp
  · rw [hpages]

/-- **When `alloc_and_map` returns**: the page is not mapped, and there are frames for it and for
the missing tables. -/
theorem exists_allocAndMap (h : a.Sound) (hpage : page ∉ pt.pages)
    (hfree : 1 + (missingTables pt page).card ≤ a.freeCount) :
    ∃ x, allocAndMap pt (some a) page = some x := by
  obtain ⟨i, hi, halloc⟩ := exists_lowestFree h (by omega)
  have hcount := (Claims.take h hi).count
  have hfree₁ : ((path page).toFinset \ pt.tables.toFinset).card ≤ (a.take i).freeCount := by
    show (missingTables pt page).card ≤ _
    omega
  obtain ⟨⟨pt₁, a₁⟩, hcreate⟩ := exists_createTables (path page) (h.take hi) hfree₁
  obtain ⟨hpages, -, -⟩ := createTables_eq_some (path page) (h.take hi) hcreate
  have hmapTo : pt.mapTo (a.take i) page (.ofIndex i) =
      some ({ pt₁ with pages := pt₁.pages.insert page (.ofIndex i) }, a₁) := by
    rw [mapTo, show (path page).foldlM _ (pt, a.take i) = some (pt₁, a₁) from hcreate]
    simp [hpages, hpage]
  simp only [allocAndMap, Option.bind_eq_bind, Option.bind_some, halloc, hmapTo]
  exact ⟨_, rfl⟩

end Mapping

end OxideOS
