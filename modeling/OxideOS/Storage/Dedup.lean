import OxideOS.Storage.FileMap

/-!
# One blob for each content

A write looks its content up by its hash.  The hash table keeps one blob for each hash, the one
stored last, and compares the contents before it is used, so a collision never mixes up two
contents.  But it hides the older of two contents with one hash: when that content is written
again, it is stored again.  In all other runs each content has one blob.

## Main definitions

* `OxideFs.LastOfHash`: the blob is the last one stored with a hash
* `OxideFs.Visible`, `OxideFs.SparesHidden`: no later blob hides the content of a write
* `OxideFs.StoredOnce`, `OxideFs.Reuses`: blobs hold distinct contents, and a write reuses a blob

## Main results

* `OxideFs.LatestByHash`, `OxideFs.latestByHash_of_reachable`: what the hash table holds
* `OxideFs.content_stored_once`: contents are stored once in the runs that write no hidden content,
  and a write that breaks this is one of a hidden content
-/

namespace OxideOS

namespace OxideFs

variable {fs : OxideFs} {path : String} {data : List UInt8} {tick : UInt64} {id : BlobId}

/-! ## The hash table -/

/-- The blob has this hash, and no later blob has it. -/
structure LastOfHash (blobs : BTreeMap BlobId (List UInt8)) (hash : UInt64) (id : BlobId) :
    Prop where
  stored : ∃ data, blobs[id]? = some data ∧ contentHash data = hash
  last : ∀ (id' : BlobId) data, blobs[id']? = some data → contentHash data = hash → id' ≤ id

/-- The hash table names the last blob of each hash. -/
def LatestByHash (fs : OxideFs) : Prop :=
  ∀ (hash : UInt64) (id : BlobId), fs.contentHashes[hash]? = some id ↔ LastOfHash fs.blobs hash id

theorem WellFormed.lt_nextBlobId (hfs : fs.WellFormed) (h : fs.blobs[id]? = some data) :
    id < fs.nextBlobId :=
  ((hfs.mem_blobs id).mp (mem_blobs_iff.mpr ⟨data, h⟩)).2

/-- The blobs after a new one: it, and those that were there. -/
theorem WellFormed.blobs_insertBlob_iff (hfs : fs.WellFormed) {new : List UInt8} :
    (fs.insertBlob new).blobs[id]? = some data ↔
      (id = fs.nextBlobId ∧ data = new) ∨ fs.blobs[id]? = some data := by
  rw [OxideFs.insertBlob, Std.ExtTreeMap.getElem?_insert_eq_ite]
  split
  · next hid =>
    have hnone : fs.blobs[id]? ≠ some data := fun h => (hfs.lt_nextBlobId h).ne hid
    simp [hid ▸ hnone, hid, eq_comm]
  · next hid => simp [hid]

/-- A new blob is the last one of its hash, and the other hashes keep theirs. -/
theorem WellFormed.lastOfHash_insertBlob_iff (hfs : fs.WellFormed) {hash : UInt64} :
    LastOfHash (fs.insertBlob data).blobs hash id ↔
      if hash = contentHash data then id = fs.nextBlobId else LastOfHash fs.blobs hash id := by
  have hmem : ∀ {id' : BlobId} {data'}, (fs.insertBlob data).blobs[id']? = some data' ↔ _ :=
    hfs.blobs_insertBlob_iff
  split
  · next hhash =>
    subst hhash
    constructor
    · intro h
      obtain ⟨data', hdata', -⟩ := h.stored
      have hle : fs.nextBlobId ≤ id := h.last _ data (hmem.mpr (.inl ⟨rfl, rfl⟩)) rfl
      obtain ⟨hid, -⟩ | hold := hmem.mp hdata'
      · exact hid
      · exact absurd (hfs.lt_nextBlobId hold) (Nat.not_lt.mpr hle)
    · rintro rfl
      refine ⟨⟨data, hmem.mpr (.inl ⟨rfl, rfl⟩), rfl⟩, fun id' data' hdata' _ => ?_⟩
      obtain ⟨hid, -⟩ | hold := hmem.mp hdata'
      · exact hid.le
      · exact (hfs.lt_nextBlobId hold).le
  · next hhash =>
    have hsame : ∀ (id' : BlobId) data', contentHash data' = hash →
        ((fs.insertBlob data).blobs[id']? = some data' ↔ fs.blobs[id']? = some data') := by
      intro id' data' hdata'
      rw [hmem, or_iff_right]
      rintro ⟨-, rfl⟩
      exact hhash hdata'.symm
    constructor
    · rintro ⟨⟨data', hdata', heq⟩, hlast⟩
      exact ⟨⟨data', (hsame id data' heq).mp hdata', heq⟩,
        fun id' d hd hhd => hlast id' d ((hsame id' d hhd).mpr hd) hhd⟩
    · rintro ⟨⟨data', hdata', heq⟩, hlast⟩
      exact ⟨⟨data', (hsame id data' heq).mpr hdata', heq⟩,
        fun id' d hd hhd => hlast id' d ((hsame id' d hhd).mp hd) hhd⟩

theorem LatestByHash.insertBlob (h : fs.LatestByHash) (hfs : fs.WellFormed) :
    (fs.insertBlob data).LatestByHash := by
  intro hash id
  rw [hfs.lastOfHash_insertBlob_iff, OxideFs.insertBlob, Std.ExtTreeMap.getElem?_insert_eq_ite]
  split
  · rw [Option.some.injEq, eq_comm]
  · exact h hash id

/-- A write stores its content as the next blob, unless the hash table finds it. -/
theorem writeFile_cases (fs : OxideFs) (path : String) (data : List UInt8) (tick : UInt64) :
    (∃ id, fs.existing data = some id ∧
        fs.writeFile path data tick = (id, fs.insertEntry path id data tick)) ∨
      (fs.existing data = none ∧ fs.writeFile path data tick =
        (fs.nextBlobId, (fs.insertBlob data).insertEntry path fs.nextBlobId data tick)) := by
  rw [OxideFs.writeFile]
  cases h : fs.existing data with
  | none => exact .inr ⟨rfl, rfl⟩
  | some id => exact .inl ⟨id, rfl, rfl⟩

theorem latestByHash_invariant :
    system.Invariant fun fs => fs.WellFormed ∧ fs.LatestByHash where
  init := by
    rintro fs rfl
    refine ⟨wellFormed_new, fun hash id => iff_of_false ?_ ?_⟩
    · simp [new]
    · rintro ⟨⟨data, hdata, -⟩, -⟩
      simp [new] at hdata
  step := by
    rintro fs op fs' ⟨hfs, h⟩ rfl
    refine ⟨wellFormed_invariant.step fs op _ hfs rfl, ?_⟩
    cases op with
    | writeFile path data tick =>
      rw [step]
      obtain ⟨id, -, heq⟩ | ⟨-, heq⟩ := writeFile_cases fs path data tick
      · rw [heq]
        exact h
      · rw [heq]
        exact h.insertBlob hfs
    | deleteFile path =>
      rw [step, OxideFs.deleteFile]
      split
      · exact h
      · exact h

theorem latestByHash_of_reachable (h : system.Reachable fs) : fs.LatestByHash :=
  (latestByHash_invariant.of_reachable h).2

/-- A content is found exactly when the last blob with its hash holds it. -/
theorem LatestByHash.existing_eq_some_iff (h : fs.LatestByHash) :
    fs.existing data = some id ↔
      fs.blobs[id]? = some data ∧ LastOfHash fs.blobs (contentHash data) id := by
  simp only [existing, Option.bind_eq_bind, Option.bind_eq_some_iff]
  constructor
  · rintro ⟨existingId, hhash, blob, hblob, heq⟩
    split at heq
    · next hdata =>
      obtain rfl := Option.some.inj heq
      exact ⟨hdata ▸ hblob, (h _ _).mp hhash⟩
    · cases heq
  · rintro ⟨hdata, hlast⟩
    exact ⟨id, (h _ _).mpr hlast, data, hdata, if_pos rfl⟩

/-! ## Each content once -/

/-- Distinct blob ids hold distinct contents. -/
def StoredOnce (fs : OxideFs) : Prop :=
  ∀ (id id' : BlobId) data, fs.blobs[id]? = some data → fs.blobs[id']? = some data → id = id'

/-- The write returns this blob, and changes neither the blobs nor the counters. -/
structure Reuses (fs : OxideFs) (id : BlobId) (write : BlobId × OxideFs) : Prop where
  id : write.1 = id
  blobs : write.2.blobs = fs.blobs
  nextBlobId : write.2.nextBlobId = fs.nextBlobId
  totalBytes : write.2.totalBytes = fs.totalBytes

/-- No blob that holds the content is hidden by a later blob with the same hash. -/
def Visible (fs : OxideFs) (data : List UInt8) : Prop :=
  ∀ id : BlobId, fs.blobs[id]? = some data → LastOfHash fs.blobs (contentHash data) id

/-- The call does not write a hidden content. -/
def SparesHidden (fs : OxideFs) : FsOp → Prop
  | .writeFile _ data _ => fs.Visible data
  | .deleteFile _ => True

theorem WellFormed.storedOnce_insertBlob_iff (hfs : fs.WellFormed) (honce : fs.StoredOnce) :
    (fs.insertBlob data).StoredOnce ↔ ∀ id : BlobId, fs.blobs[id]? ≠ some data := by
  constructor
  · intro h id hid
    have hnext := h id fs.nextBlobId data (hfs.blobs_insertBlob_iff.mpr (.inr hid))
      (hfs.blobs_insertBlob_iff.mpr (.inl ⟨rfl, rfl⟩))
    exact (hfs.lt_nextBlobId hid).ne hnext
  · intro h id id' data' hid hid'
    obtain ⟨rfl, rfl⟩ | hold := hfs.blobs_insertBlob_iff.mp hid
    · obtain ⟨rfl, -⟩ | hold' := hfs.blobs_insertBlob_iff.mp hid'
      · rfl
      · exact absurd hold' (h id')
    · obtain ⟨rfl, rfl⟩ | hold' := hfs.blobs_insertBlob_iff.mp hid'
      · exact absurd hold (h id)
      · exact honce id id' data' hold hold'

theorem LatestByHash.visible_of_existing (hlatest : fs.LatestByHash) (honce : fs.StoredOnce)
    (h : fs.existing data = some id) : fs.Visible data := by
  obtain ⟨hid, hlast⟩ := hlatest.existing_eq_some_iff.mp h
  intro id' hid'
  rwa [honce id' id data hid' hid]

/-- A visible content is reused or new, and a hidden one is stored a second time. -/
theorem WellFormed.visible_iff (hfs : fs.WellFormed) (hlatest : fs.LatestByHash)
    (honce : fs.StoredOnce) (path : String) (data : List UInt8) (tick : UInt64) :
    (fs.Visible data ↔ (fs.writeFile path data tick).2.StoredOnce) ∧
      (fs.Visible data ↔ ∀ id : BlobId, fs.blobs[id]? = some data →
        fs.Reuses id (fs.writeFile path data tick)) := by
  obtain ⟨id, hexisting, heq⟩ | ⟨hexisting, heq⟩ := writeFile_cases fs path data tick
  · have hvisible := hlatest.visible_of_existing honce hexisting
    rw [heq]
    refine ⟨iff_of_true hvisible honce, iff_of_true hvisible fun id' hid' => ?_⟩
    obtain rfl := honce id id' data (existing_eq_some hexisting) hid'
    exact ⟨rfl, rfl, rfl, rfl⟩
  · have hvisible : fs.Visible data ↔ ∀ id : BlobId, fs.blobs[id]? ≠ some data := by
      constructor
      · intro h id hid
        have hfound := hlatest.existing_eq_some_iff.mpr ⟨hid, h id hid⟩
        rw [hexisting] at hfound
        cases hfound
      · exact fun h id hid => absurd hid (h id)
    rw [heq, hvisible]
    refine ⟨(hfs.storedOnce_insertBlob_iff honce).symm, ?_⟩
    constructor
    · exact fun h id hid => absurd hid (h id)
    · intro h id hid
      exact absurd (h id hid).id (hfs.lt_nextBlobId hid).ne'

theorem storedOnce_deleteFile (h : fs.StoredOnce) : (fs.deleteFile path).2.StoredOnce := by
  rw [StoredOnce, blobs_deleteFile]
  exact h

theorem storedOnce_invariant : (system.restrict SparesHidden).Invariant fun fs =>
    (fs.WellFormed ∧ fs.LatestByHash) ∧ fs.StoredOnce where
  init := by
    rintro fs rfl
    refine ⟨latestByHash_invariant.init _ rfl, fun id id' data hdata => ?_⟩
    simp [new] at hdata
  step := by
    rintro fs op fs' ⟨h, honce⟩ ⟨rfl, hspares⟩
    refine ⟨latestByHash_invariant.step fs op _ h rfl, ?_⟩
    cases op with
    | writeFile path data tick => exact (h.1.visible_iff h.2 honce path data tick).1.mp hspares
    | deleteFile path => exact storedOnce_deleteFile honce

/-- **Each content is stored once, unless a hidden one is written**: in every run of writes and
deletions, with any contents, in which no write is of a content that a later blob with the same
hash hides, distinct blobs hold distinct contents.  In such a file system a write keeps it so, and
returns the blob that holds the content already without any change to the blobs and the counters,
exactly when its content is not hidden. -/
theorem content_stored_once (h : (system.restrict SparesHidden).Reachable fs) :
    fs.StoredOnce ∧ ∀ path data tick,
      (fs.Visible data ↔ (fs.writeFile path data tick).2.StoredOnce) ∧
        (fs.Visible data ↔ ∀ id : BlobId, fs.blobs[id]? = some data →
          fs.Reuses id (fs.writeFile path data tick)) := by
  obtain ⟨⟨hfs, hlatest⟩, honce⟩ := storedOnce_invariant.of_reachable h
  exact ⟨honce, hfs.visible_iff hlatest honce⟩

/-- A second file with a content shares its blob. -/
theorem content_stored_once_shared :
    let fs := (new.writeFile "/a" [1, 2, 3] 5).2
    fs.StoredOnce ∧ fs.Reuses 1 (fs.writeFile "/b" [1, 2, 3] 6) := by
  intro fs
  have hnew : new.SparesHidden (.writeFile "/a" [1, 2, 3] 5) := by
    intro id hid
    simp [new] at hid
  have hfs : (system.restrict SparesHidden).Reachable fs :=
    TransitionSystem.Reachable.step (i := .writeFile "/a" [1, 2, 3] 5) (.init rfl) ⟨rfl, hnew⟩
  obtain ⟨honce, hwrite⟩ := content_stored_once hfs
  have hexisting : fs.existing [1, 2, 3] = some 1 := by decide
  have hvisible : fs.Visible [1, 2, 3] :=
    (latestByHash_of_reachable hfs.of_restrict).visible_of_existing honce hexisting
  exact ⟨honce, (hwrite "/b" [1, 2, 3] 6).2.mp hvisible 1 (by decide)⟩

/-! ## A collision -/

/-- A content with hash 0, which keeps that hash when zeros are appended. -/
def zeroHashed : List UInt8 := [0xd5, 0x6b, 0xb9, 0x53, 0x42, 0x87, 0x08, 0x36]

/-- The second content hides the first, which is then stored again as blob 3. -/
theorem content_stored_twice :
    let fs := [.writeFile "/a" zeroHashed 0, .writeFile "/b" (zeroHashed ++ [0]) 1].foldl step new
    let write := fs.writeFile "/c" zeroHashed 2
    fs.blobs[1]? = some zeroHashed ∧ write.1 = 3 ∧ write.2.blobs[1]? = some zeroHashed ∧
      write.2.blobs[3]? = some zeroHashed ∧ fs.nextBlobId = 3 ∧ write.2.nextBlobId = 4 ∧
      fs.totalBytes = 17 ∧ write.2.totalBytes = 25 := by
  decide +kernel

end OxideFs

end OxideOS
