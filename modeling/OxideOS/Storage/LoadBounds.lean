import OxideOS.Storage.DiskFormat

/-!
# Loading from any disk

`load_from_disk` over a disk of any content, with reads that fail in any pattern.  Everything it
reads before the index is cut from a block by lengths that it clamps itself, and a block that
cannot be read counts as zeros.  The length of a path is taken from the index block as it stands:
the path and the four words behind it leave the block when that length exceeds 478, and the load
panics at exactly these blocks.

## Main definitions

* `Finishes`: a reading program returns from every cursor, within a number of blocks
* `OxideFs.declaredLen`: the path length that an index block declares
* `OxideFs.indexBlocks`: the blocks that a load takes for index blocks

## Main results

* `OxideFs.loadFromDisk_returns_iff`: a load returns exactly when no index block declares a path
  of more than 478 bytes
-/

namespace OxideOS

variable {H : Type} {io : BlockIo H}

/-- From every cursor the program returns, at most this many blocks further on. -/
def Finishes {α : Type} (p : Load H α) (n : Nat) : Prop :=
  ∀ c, ∃ a c', p c = some (a, c') ∧ c'.blockNum ≤ c.blockNum + n

namespace Finishes

variable {α β : Type} {p : Load H α} {f : α → Load H β} {n m : Nat}

theorem pure (a : α) : Finishes (pure a : Load H α) 0 := by
  intro c
  exact ⟨a, c, rfl, Nat.le_refl _⟩

/-- A read that fails gives zeros, so reading a block always returns one. -/
theorem next (io : BlockIo H) : Finishes (readNext io) 1 := by
  intro c
  rw [readNext]
  rcases c.storage.read io c.blockNum with ⟨_ | block, s⟩
  · exact ⟨Block.zero, _, rfl, Nat.le_refl _⟩
  · exact ⟨block, _, rfl, Nat.le_refl _⟩

theorem mono (hp : Finishes p n) (h : n ≤ m) : Finishes p m := by
  intro c
  obtain ⟨a, c', hrun, hc'⟩ := hp c
  exact ⟨a, c', hrun, by omega⟩

theorem bind (hp : Finishes p n) (hf : ∀ a, Finishes (f a) m) : Finishes (p >>= f) (n + m) := by
  intro c
  obtain ⟨a, c₁, hrun₁, hc₁⟩ := hp c
  obtain ⟨b, c₂, hrun₂, hc₂⟩ := hf a c₁
  refine ⟨b, c₂, ?_, by omega⟩
  show (p c).bind (fun r => f r.1 r.2) = _
  rw [hrun₁]
  exact hrun₂

end Finishes

namespace OxideFs

/-! ## The blobs -/

/-- Every continuation block takes at least one of the remaining bytes. -/
theorem finishes_loadCont (remaining : Nat) (data : List UInt8) :
    Finishes (loadCont io remaining data) remaining := by
  fun_induction loadCont io remaining data with
  | case1 remaining data hpos ih =>
    have hchunk : 1 + (remaining - contChunk remaining) ≤ remaining := by
      rw [contChunk]
      omega
    exact ((Finishes.next io).bind ih).mono hchunk
  | case2 remaining data hpos => exact (Finishes.pure data).mono (Nat.zero_le _)

/-- A blob declares fewer than `2 ^ 32` bytes, and its first block holds some of them. -/
theorem finishes_loadBlob (fs : OxideFs) : Finishes (loadBlob io fs) (2 ^ 32 - 1) := by
  refine (Finishes.next io).bind (m := 2 ^ 32 - 2) fun block => ?_
  have hsize : Bytes.ofLE (block.slice 8 4 (by decide)) < 256 ^ 4 := Bytes.ofLE_slice_lt _ _ _
  refine (((finishes_loadCont _ _).bind fun data => Finishes.pure _)).mono ?_
  rw [firstChunk]
  omega

theorem finishes_loadBlobs (count : Nat) (fs : OxideFs) :
    Finishes (loadBlobs io count fs) (count * (2 ^ 32 - 1)) := by
  induction count generalizing fs with
  | zero => exact (Finishes.pure fs).mono (Nat.zero_le _)
  | succ count ih => exact ((finishes_loadBlob fs).bind ih).mono (by omega)

/-! ## The index -/

/-- The path length that an index block declares. -/
def declaredLen (block : Block) : Nat := Bytes.ofLE (Bytes.slice block.bytes 0 2)

/-- The path and the four words behind it have to end within the block. -/
theorem decodeEntry_returns_iff (block : Block) :
    (∃ entry, decodeEntry block = some entry) ↔ declaredLen block ≤ 478 := by
  rw [declaredLen]
  constructor
  · rintro ⟨entry, h⟩
    simp only [decodeEntry, Block.slice, Option.bind_eq_bind, Option.bind_eq_some_iff] at h
    obtain ⟨-, -, -, -, -, -, -, -, modified, hmodified, -⟩ := h
    rw [Block.slice?] at hmodified
    split at hmodified
    · omega
    · cases hmodified
  · intro h
    simp only [decodeEntry, Block.slice, Option.bind_eq_bind]
    iterate 5 rw [Block.slice?_of_le (by omega), Option.bind_some]
    exact ⟨_, rfl⟩

/-- The blocks that as many reads from the cursor on give. -/
def blocksFrom (io : BlockIo H) : Nat → Cursor H → List Block
  | 0, _ => []
  | count + 1, c =>
    match readNext io c with
    | some (block, c) => block :: blocksFrom io count c
    | none => []

/-- One round of the loop over the index. -/
theorem loadEntries_succ {count : Nat} {fs : OxideFs} {c c' : Cursor H} {block : Block}
    (hread : readNext io c = some (block, c')) :
    loadEntries io (count + 1) fs c =
      (decodeEntry block).bind fun entry => loadEntries io count (fs.restoreEntry entry) c' := by
  have hentry : loadEntry io fs c =
      (decodeEntry block).bind fun entry => some (fs.restoreEntry entry, c') := by
    show ((readNext io c).bind fun r =>
      ((decodeEntry r.1).bind fun entry => some (entry, r.2)).bind fun r =>
        some (fs.restoreEntry r.1, r.2)) = _
    rw [hread, Option.bind_some, Option.bind_assoc]
    rfl
  show ((loadEntry io fs c).bind fun r => loadEntries io count r.1 r.2) = _
  rw [hentry, Option.bind_assoc]
  rfl

theorem loadEntries_returns_iff (count : Nat) (fs : OxideFs) (c : Cursor H) :
    (∃ r, loadEntries io count fs c = some r) ↔
      ∀ block ∈ blocksFrom io count c, declaredLen block ≤ 478 := by
  induction count generalizing fs c with
  | zero => exact iff_of_true ⟨_, rfl⟩ (List.forall_mem_nil _)
  | succ count ih =>
    obtain ⟨block, c', hread, -⟩ := Finishes.next io c
    rw [blocksFrom, hread, List.forall_mem_cons, ← decodeEntry_returns_iff,
      loadEntries_succ hread]
    cases decodeEntry block with
    | none => simp
    | some entry => simpa using ih (fs.restoreEntry entry) c'

/-! ## The whole load -/

/-- The counters are taken from the superblock. -/
def withCounters (fs : OxideFs) (sb : Block) : OxideFs :=
  { fs with
    nextBlobId := Bytes.ofLE (Bytes.slice sb.bytes 20 8)
    totalBytes := Bytes.ofLE (Bytes.slice sb.bytes 28 8) }

/-- Where a load comes to the index, and how many blocks it then reads; a load that finds no valid
superblock does not come there. -/
def indexStart (io : BlockIo H) (fs : OxideFs) (s : Storage H) : Option (Nat × Cursor H) :=
  match s.read io 0 with
  | (.error _, _) => none
  | (.ok sb, s) =>
    if Bytes.slice sb.bytes 0 8 = magic then do
      let (_, c) ← loadBlobs io (Bytes.ofLE (Bytes.slice sb.bytes 12 4)) (fs.withCounters sb) ⟨s, 1⟩
      some (Bytes.ofLE (Bytes.slice sb.bytes 16 4), c)
    else none

/-- The blocks that a load takes for index blocks. -/
def indexBlocks (io : BlockIo H) (fs : OxideFs) (s : Storage H) : List Block :=
  match indexStart io fs s with
  | some (count, c) => blocksFrom io count c
  | none => []

/-- A load that comes to no index returns; another one returns exactly when the index does. -/
theorem loadFromDisk_cases (io : BlockIo H) (fs : OxideFs) (s : Storage H) :
    (indexStart io fs s = none ∧ ∃ r, loadFromDisk io fs s = some r) ∨
      ∃ count c fs', indexStart io fs s = some (count, c) ∧ c.blockNum + count < 2 ^ 64 ∧
        loadFromDisk io fs s =
          (loadEntries io count fs' c).map fun r => (true, r.1, r.2.storage) := by
  rw [indexStart, loadFromDisk]
  rcases s.read io 0 with ⟨_ | sb, s⟩
  · exact .inl ⟨rfl, _, rfl⟩
  dsimp only
  by_cases hmagic : Bytes.slice sb.bytes 0 8 = magic
  · have hslice : sb.slice 0 8 (by decide) = magic := hmagic
    rw [if_pos hmagic, if_pos hslice]
    have hblobs : Bytes.ofLE (Bytes.slice sb.bytes 12 4) < 256 ^ 4 := Bytes.ofLE_slice_lt _ _ _
    have hindex : Bytes.ofLE (Bytes.slice sb.bytes 16 4) < 256 ^ 4 := Bytes.ofLE_slice_lt _ _ _
    obtain ⟨fs', c, hload, hc⟩ : ∃ fs' c,
        loadBlobs io (Bytes.ofLE (Bytes.slice sb.bytes 12 4)) (fs.withCounters sb) ⟨s, 1⟩ =
          some (fs', c) ∧ c.blockNum ≤ 1 + Bytes.ofLE (Bytes.slice sb.bytes 12 4) * (2 ^ 32 - 1) :=
      finishes_loadBlobs _ (fs.withCounters sb) ⟨s, 1⟩
    refine .inr ⟨_, c, fs', by rw [hload]; rfl, ?_, ?_⟩
    · have hmul : Bytes.ofLE (Bytes.slice sb.bytes 12 4) * (2 ^ 32 - 1) ≤
          (2 ^ 32 - 1) * (2 ^ 32 - 1) := Nat.mul_le_mul_right _ (Nat.le_sub_one_of_lt hblobs)
      omega
    · show ((loadBlobs io (Bytes.ofLE (Bytes.slice sb.bytes 12 4)) (fs.withCounters sb) ⟨s, 1⟩).bind
        fun r => loadEntries io (Bytes.ofLE (Bytes.slice sb.bytes 16 4)) r.1 r.2).bind
          (fun r => some (true, r.1, r.2.storage)) = _
      rw [hload]
      exact Option.map_eq_bind.symm
  · have hslice : ¬sb.slice 0 8 (by decide) = magic := hmagic
    rw [if_neg hmagic, if_neg hslice]
    exact .inl ⟨rfl, _, rfl⟩

/-- **Loading returns from every disk whose index blocks declare no overlong path**: whatever the
blocks hold, whichever reads fail and whatever the cache holds already, the load never counts
blocks past a 64-bit word, and it returns a boolean, with every slice in its block, exactly when
none of the blocks it takes for index blocks declares a path of more than 478 bytes. -/
theorem loadFromDisk_returns_iff (io : BlockIo H) (fs : OxideFs) (s : Storage H) :
    (∀ count c, indexStart io fs s = some (count, c) → c.blockNum + count < 2 ^ 64) ∧
      ((∃ loaded fs' s', loadFromDisk io fs s = some (loaded, fs', s')) ↔
        ∀ block ∈ indexBlocks io fs s, declaredLen block ≤ 478) := by
  rw [indexBlocks]
  obtain ⟨hstart, ⟨loaded, fs', s'⟩, hload⟩ | ⟨count, c, fs', hstart, hcount, hload⟩ :=
    loadFromDisk_cases io fs s
  · rw [hstart]
    refine ⟨?_, iff_of_true ⟨loaded, fs', s', hload⟩ (List.forall_mem_nil _)⟩
    rintro count c ⟨⟩
  · rw [hstart]
    refine ⟨?_, ?_⟩
    · rintro _ _ ⟨⟩
      exact hcount
    · rw [hload]
      dsimp only
      rw [← loadEntries_returns_iff count fs' c]
      simp

/-! ## A disk that makes the load panic -/

/-- The superblock of a file system with one entry and no blob, and 0xff in all other blocks: the
index block declares a path of 65535 bytes. -/
def erasedDisk (n : Nat) : Block :=
  if n = 0 then (new.restoreEntry ⟨"/f", 1, 0, 0, 0, false⟩).superblock else Block.filled 0xff

/-- The path would leave the block. -/
theorem loadFromDisk_panics :
    loadFromDisk ramDisk new (Storage.fresh ⟨true, 8, erasedDisk⟩) = none :=
  Option.isNone_iff_eq_none.mp (by decide +kernel)

end OxideFs

end OxideOS
