import OxideOS.Storage.Isolation

/-!
# The context store as a map

What the context store is for: a map from agents and keys to values.  A value is kept twice, in the
cache and in a file, and a deleted file leaves a marked entry behind.  After any calls, reading and
listing show exactly the map.  Deleting changes the map as it should, but it reports the marked
entry of a key that is long gone as a deletion: it returns whether the key was ever set.

## Main definitions

* `StoreCall`, `StoreReply`, `ContextStore.exec`: the five calls with their results
* `ContextMap`, `ContextMap.apply`, `ContextMap.Answers`: the map, and the right results
* `ContextStore.Represents`: the store and the file system hold exactly this map

## Main results

* `ContextStore.Represents.exec`: a call on the store is the call on the map
* `ContextStore.refines_contextMap`: every result is right but that of deleting a key again
-/

namespace OxideOS

/-- A call on the store. -/
inductive StoreCall
  | set (agentId : AgentId) (key : String) (value : List UInt8) (tick : UInt64)
  | get (agentId : AgentId) (key : String)
  | delete (agentId : AgentId) (key : String)
  | keys (agentId : AgentId)
  | clearAgent (agentId : AgentId)

/-- What a call returns. -/
inductive StoreReply
  | unit
  | value (value : Option (List UInt8))
  | deleted (deleted : Bool)
  | keys (keys : List String)
deriving DecidableEq

/-- A call, its result and what it leaves. -/
def ContextStore.exec (s : ContextStore × OxideFs) : StoreCall → StoreReply × ContextStore × OxideFs
  | .set agentId key value tick => (.unit, s.1.set s.2 agentId key value tick)
  | .get agentId key => (.value (s.1.get s.2 agentId key), s)
  | .delete agentId key =>
    let (deleted, s) := s.1.delete s.2 agentId key
    (.deleted deleted, s)
  | .keys agentId => (.keys (ContextStore.keys s.2 agentId), s)
  | .clearAgent agentId => (.unit, s.1.clearAgent s.2 agentId)

/-- The values of the agents, by their keys. -/
abbrev ContextMap := AgentId → String → Option (List UInt8)

namespace ContextMap

def empty : ContextMap := fun _ _ => none

/-- Set or take away the value of one key. -/
def assign (m : ContextMap) (agentId : AgentId) (key : String) (value : Option (List UInt8)) :
    ContextMap :=
  Function.update m agentId (Function.update (m agentId) key value)

/-- What a call does to the map. -/
def apply (m : ContextMap) : StoreCall → ContextMap
  | .set agentId key value _ => m.assign agentId key (some value)
  | .delete agentId key => m.assign agentId key none
  | .clearAgent agentId => Function.update m agentId fun _ => none
  | .get _ _ => m
  | .keys _ => m

/-- The result is the one of the map: the value of the key, whether there is one, or a list of the
keys that have one, each once. -/
def Answers (m : ContextMap) : StoreCall → StoreReply → Prop
  | .set _ _ _ _, .unit => True
  | .get agentId key, .value value => value = m agentId key
  | .delete agentId key, .deleted deleted => deleted = (m agentId key).isSome
  | .keys agentId, .keys keys => keys.Nodup ∧ ∀ key, key ∈ keys ↔ (m agentId key).isSome = true
  | .clearAgent _, .unit => True
  | _, _ => False

theorem assign_apply (m : ContextMap) (a : AgentId) (key : String) (value : Option (List UInt8))
    (b : AgentId) (key' : String) :
    m.assign a key value b key' = if b = a ∧ key' = key then value else m b key' := by
  rw [assign, Function.update_apply]
  split
  · next hb => simp [hb, Function.update_apply]
  · next hb => simp [hb]

end ContextMap

/-! ## Paths of keys -/

variable {a b : AgentId} {path key key' : String}

/-- The paths that start like those of an agent are those of its keys. -/
theorem startsWith_agentDir_iff :
    startsWith path (agentDir a) = true ↔ ∃ key, path = agentPath a key := by
  constructor
  · intro h
    obtain ⟨rest, hrest⟩ := startsWith_iff.mp h
    refine ⟨String.ofList rest, String.toList_inj.mp ?_⟩
    show path.toList = (agentDir a ++ String.ofList rest).toList
    rw [← hrest, String.toList_append, String.toList_ofList]
  · rintro ⟨key, rfl⟩
    exact startsWith_agentPath a key

theorem agentPath_eq_iff : agentPath a key = agentPath b key' ↔ a = b ∧ key = key' := by
  constructor
  · intro h
    by_cases hab : a = b
    · subst hab
      exact ⟨rfl, agentPath_inj h⟩
    · have hother := not_startsWith_agentDir hab (startsWith_agentPath a key)
      rw [h, startsWith_agentPath] at hother
      cases hother
  · rintro ⟨rfl, rfl⟩
    rfl

theorem stripPrefix_agentPath (a : AgentId) (key : String) :
    stripPrefix (agentPath a key) (agentDir a) = some key := by
  rw [stripPrefix, if_pos (startsWith_agentPath a key), agentPath, ← agentDir,
    String.toList_append, List.drop_left, String.ofList_toList]

/-! ## Deleting several files -/

namespace OxideFs

variable {fs : OxideFs} {files : FileMap}

theorem foldl_apply_deleteFile (paths : List String) (files : FileMap) (path : String) :
    (paths.map .deleteFile).foldl FileMap.apply files path =
      if path ∈ paths then none else files path := by
  induction paths generalizing files with
  | nil => simp
  | cons p paths ih =>
    rw [List.map_cons, List.foldl_cons, ih, FileMap.apply]
    by_cases hp : path = p
    · simp [hp]
    · simp [hp]

/-- Deleting files one after another takes these paths out of the map. -/
theorem Represents.foldl_deleteFile (h : fs.Represents files) (paths : List String) :
    (paths.foldl (fun fs path => (fs.deleteFile path).2) fs).Represents fun path =>
      if path ∈ paths then none else files path := by
  have hrun := h.foldl (paths.map .deleteFile)
  rw [List.foldl_map] at hrun
  have hfiles : (paths.map .deleteFile).foldl FileMap.apply files = fun path =>
      if path ∈ paths then none else files path := funext (foldl_apply_deleteFile paths files)
  rw [hfiles] at hrun
  exact hrun

/-- A listing has the paths with the prefix that the map holds. -/
theorem Represents.mem_paths_list_iff (h : fs.Represents files) {pre : String} :
    path ∈ (fs.list pre).map FileEntry.path ↔
      startsWith path pre = true ∧ (files path).isSome = true := by
  rw [List.mem_map, Option.isSome_iff_exists]
  constructor
  · rintro ⟨e, he, hpath⟩
    obtain ⟨hpre, data, hdata, -⟩ := h.mem_list_iff.mp ⟨e, he, hpath, rfl⟩
    exact ⟨hpre, data, hdata⟩
  · rintro ⟨hpre, data, hdata⟩
    obtain ⟨e, he, hpath, -⟩ := h.mem_list_iff.mpr ⟨hpre, data, hdata, rfl⟩
    exact ⟨e, he, hpath⟩

/-- A path once written keeps its entry. -/
theorem mem_index_writeFile (fs : OxideFs) (p : String) (data : List UInt8) (tick : UInt64) :
    path ∈ (fs.writeFile p data tick).2.index ↔ path = p ∨ path ∈ fs.index := by
  obtain ⟨e, hindex, -⟩ := index_writeFile fs p data tick
  rw [hindex, Std.ExtTreeMap.mem_insert, Std.LawfulEqCmp.compare_eq_iff_eq, eq_comm]

theorem mem_index_deleteFile (fs : OxideFs) (p : String) :
    path ∈ (fs.deleteFile p).2.index ↔ path ∈ fs.index := by
  rw [Std.ExtTreeMap.mem_iff_isSome_getElem?, Std.ExtTreeMap.mem_iff_isSome_getElem?,
    getElem?_index_deleteFile]
  split
  · rw [Option.isSome_map]
  · rfl

theorem mem_index_foldl_deleteFile (paths : List String) (fs : OxideFs) :
    path ∈ (paths.foldl (fun fs path => (fs.deleteFile path).2) fs).index ↔ path ∈ fs.index := by
  induction paths generalizing fs with
  | nil => rfl
  | cons p paths ih => rw [List.foldl_cons, ih, mem_index_deleteFile]

end OxideFs

/-! ## The keys of an agent -/

namespace ContextStore

variable {fs : OxideFs} {files : FileMap}

theorem map_agentPath_keys (hfs : fs.WellFormed) (a : AgentId) :
    (keys fs a).map (agentPath a) = (fs.list (agentDir a)).map FileEntry.path := by
  rw [keys, List.map_map]
  refine List.map_congr_left fun e he => ?_
  obtain ⟨path, hlive, hpre⟩ := OxideFs.mem_list.mp he
  have hentry : fs.index[path]? = some e := (OxideFs.mem_liveEntries.mp hlive).1
  obtain rfl : e.path = path := (hfs.entry path e hentry).1
  obtain ⟨key, hkey⟩ := startsWith_agentDir_iff.mp hpre
  rw [Function.comp_apply, hkey, stripPrefix_agentPath, Option.getD_some]

theorem nodup_keys (hfs : fs.WellFormed) (a : AgentId) : (keys fs a).Nodup := by
  refine List.Nodup.of_map (agentPath a) ?_
  rw [map_agentPath_keys hfs]
  exact hfs.nodup_list _

theorem mem_keys_iff (h : fs.Represents files) :
    key ∈ keys fs a ↔ (files (agentPath a key)).isSome = true := by
  have hinj : Function.Injective (agentPath a) := fun _ _ => agentPath_inj
  rw [← List.mem_map_of_injective hinj, map_agentPath_keys h.wellFormed, h.mem_paths_list_iff,
    startsWith_agentPath]
  simp

/-! ## The cache -/

/-- The value that the cache holds for a key. -/
def cached (store : ContextStore) (agentId : AgentId) (key : String) : Option (List UInt8) :=
  (store.cache[agentId]?).bind fun entries => entries[key]?

theorem cached_set (store : ContextStore) (fs : OxideFs) (a : AgentId) (key : String)
    (value : List UInt8) (tick : UInt64) (b : AgentId) (key' : String) :
    (store.set fs a key value tick).1.cached b key' =
      if b = a ∧ key' = key then some value else store.cached b key' := by
  rw [set, cached, Std.ExtTreeMap.getElem?_insert_eq_ite]
  split
  · next hb =>
    subst hb
    rw [Option.bind_some, Std.ExtTreeMap.getElem?_insert_eq_ite, cached]
    cases store.cache[b]? with
    | none => simp
    | some entries => simp
  · next hb => simp [hb, cached]

theorem cached_delete (store : ContextStore) (fs : OxideFs) (a : AgentId) (key : String)
    (b : AgentId) (key' : String) :
    (store.delete fs a key).2.1.cached b key' =
      if b = a ∧ key' = key then none else store.cached b key' := by
  have hcache : (store.delete fs a key).2.1.cache =
      store.cache.modify a fun entries => entries.erase key := rfl
  rw [cached, hcache, Std.ExtTreeMap.getElem?_modify]
  by_cases hb : b = a
  · subst hb
    rw [if_pos Std.ReflCmp.compare_self, cached]
    cases store.cache[b]? with
    | none => simp
    | some entries =>
      rw [Option.map_some, Option.bind_some, Std.ExtTreeMap.getElem?_erase]
      by_cases hkey : key' = key
      · simp [hkey]
      · simp [hkey, Ne.symm hkey]
  · simp [hb, Ne.symm hb, cached]

theorem cached_clearAgent (store : ContextStore) (fs : OxideFs) (a b : AgentId) (key : String) :
    (store.clearAgent fs a).1.cached b key = if b = a then none else store.cached b key := by
  rw [clearAgent, cached, Std.ExtTreeMap.getElem?_erase]
  by_cases hb : b = a
  · simp [hb]
  · simp [hb, Ne.symm hb, cached]

/-! ## Representation -/

variable {s : ContextStore × OxideFs} {m : ContextMap}

/-- The files hold exactly this map, and the cache holds nothing else. -/
structure Represents (s : ContextStore × OxideFs) (m : ContextMap) : Prop where
  files : ∃ files, s.2.Represents files ∧ ∀ a key, files (agentPath a key) = m a key
  cached : ∀ a key value, s.1.cached a key = some value → m a key = some value

theorem represents_new : Represents (new, .new) .empty where
  files := ⟨.empty, OxideFs.represents_new, fun _ _ => rfl⟩
  cached a key value h := by simp [ContextStore.cached, new] at h

/-- One key is set or taken away, in a file and in the cache. -/
theorem Represents.assign (h : Represents s m) {s' : ContextStore × OxideFs}
    {value : Option (List UInt8)}
    (hfiles : ∀ files, s.2.Represents files →
      s'.2.Represents (Function.update files (agentPath a key) value))
    (hcached : ∀ b key', s'.1.cached b key' =
      if b = a ∧ key' = key then value else s.1.cached b key') :
    Represents s' (m.assign a key value) := by
  obtain ⟨files, hrep, heq⟩ := h.files
  refine ⟨⟨_, hfiles files hrep, fun b key' => ?_⟩, fun b key' v hv => ?_⟩
  · simp only [ContextMap.assign_apply, Function.update_apply, agentPath_eq_iff, heq]
  · rw [hcached] at hv
    rw [ContextMap.assign_apply]
    split at hv
    · next hkey => rw [if_pos hkey, hv]
    · next hkey => rw [if_neg hkey, h.cached b key' v hv]

theorem Represents.clearAgent (h : Represents s m) (a : AgentId) :
    Represents (s.1.clearAgent s.2 a) (m.apply (.clearAgent a)) := by
  obtain ⟨files, hrep, heq⟩ := h.files
  have happly : ∀ b key, m.apply (.clearAgent a) b key = if b = a then none else m b key := by
    intro b key
    rw [ContextMap.apply, Function.update_apply]
    split
    · rfl
    · rfl
  have hlisted : ∀ b key, agentPath b key ∈ (s.2.list (agentDir a)).map FileEntry.path ↔
      b = a ∧ (m b key).isSome = true := by
    intro b key
    rw [hrep.mem_paths_list_iff, startsWith_agentDir_iff, heq]
    refine and_congr_left' ⟨?_, ?_⟩
    · rintro ⟨key', hkey'⟩
      exact (agentPath_eq_iff.mp hkey').1
    · rintro rfl
      exact ⟨key, rfl⟩
  refine ⟨⟨_, hrep.foldl_deleteFile _, fun b key => ?_⟩, fun b key v hv => ?_⟩
  · simp only [hlisted, happly, heq]
    by_cases hb : b = a
    · cases hkey : m b key with
      | none => simp
      | some value => simp [hb]
    · simp [hb]
  · rw [cached_clearAgent] at hv
    rw [happly]
    split at hv
    · cases hv
    · next hb => rw [if_neg hb, h.cached b key v hv]

/-- **A call on the store is the call on the map.** -/
theorem Represents.exec (h : Represents s m) (c : StoreCall) :
    Represents (ContextStore.exec s c).2 (m.apply c) := by
  cases c with
  | set a key value tick =>
    exact h.assign (fun files hrep => hrep.writeFile) (cached_set s.1 s.2 a key value tick)
  | get a key => exact h
  | delete a key => exact h.assign (fun files hrep => hrep.deleteFile) (cached_delete s.1 s.2 a key)
  | keys a => exact h
  | clearAgent a => exact h.clearAgent a

/-! ## Results -/

theorem Represents.get_eq (h : Represents s m) (a : AgentId) (key : String) :
    s.1.get s.2 a key = m a key := by
  obtain ⟨files, hrep, heq⟩ := h.files
  rw [get, ← ContextStore.cached]
  cases hcached : s.1.cached a key with
  | none => exact (hrep.readFile _).trans (heq a key)
  | some value => exact (h.cached a key value hcached).symm

theorem Represents.keys_spec (h : Represents s m) (a : AgentId) :
    (keys s.2 a).Nodup ∧ ∀ key, key ∈ keys s.2 a ↔ (m a key).isSome = true := by
  obtain ⟨files, hrep, heq⟩ := h.files
  refine ⟨nodup_keys hrep.wellFormed a, fun key => ?_⟩
  rw [mem_keys_iff hrep, heq]

/-- A key with a value has an entry in the index. -/
theorem Represents.mem_index (h : Represents s m) (hkey : (m a key).isSome = true) :
    agentPath a key ∈ s.2.index := by
  obtain ⟨files, hrep, heq⟩ := h.files
  rw [← heq] at hkey
  obtain ⟨e, hlive⟩ := hrep.isSome_iff.mp hkey
  have hentry : s.2.index[agentPath a key]? = some e := (OxideFs.mem_liveEntries.mp hlive).1
  rw [Std.ExtTreeMap.mem_iff_isSome_getElem?, hentry]
  rfl

/-- Deleting tells whether there is an entry, live or marked. -/
theorem Represents.delete_iff (h : Represents s m) (a : AgentId) (key : String) :
    (s.1.delete s.2 a key).1 = true ↔ agentPath a key ∈ s.2.index := by
  have hfs : (s.2.deleteFile (agentPath a key)).1 = true ↔ agentPath a key ∈ s.2.index := by
    rw [OxideFs.deleteFile]
    split
    · next hmem => simp [hmem]
    · next hmem => simp [hmem]
  rw [delete]
  dsimp only
  rw [Bool.or_eq_true, hfs, or_iff_right_iff_imp]
  intro hcache
  cases hentries : s.1.cache[a]? with
  | none => simp [hentries] at hcache
  | some entries =>
    have hcontains : entries[key]?.isSome = true := by
      simpa [hentries, Std.ExtTreeMap.isSome_getElem?_eq_contains] using hcache
    obtain ⟨value, hvalue⟩ := Option.isSome_iff_exists.mp hcontains
    refine h.mem_index ?_
    rw [h.cached a key value (by rw [ContextStore.cached, hentries, Option.bind_some, hvalue])]
    rfl

/-- One of the calls set the key. -/
def WasSet (calls : List StoreCall) (agentId : AgentId) (key : String) : Prop :=
  ∃ value tick, .set agentId key value tick ∈ calls

/-- A call adds an entry for the key it sets, and no call takes one away. -/
theorem mem_index_exec (s : ContextStore × OxideFs) (c : StoreCall) :
    agentPath a key ∈ (exec s c).2.2.index ↔ WasSet [c] a key ∨ agentPath a key ∈ s.2.index := by
  have hother : (∀ value tick, c ≠ .set a key value tick) → ¬WasSet [c] a key := by
    rintro hc ⟨value, tick, hmem⟩
    exact hc value tick (List.mem_singleton.mp hmem).symm
  cases c with
  | set b key' value tick =>
    have hset : WasSet [.set b key' value tick] a key ↔ agentPath a key = agentPath b key' := by
      rw [agentPath_eq_iff]
      constructor
      · rintro ⟨value', tick', hmem⟩
        obtain ⟨rfl, rfl, -, -⟩ := StoreCall.set.inj (List.mem_singleton.mp hmem)
        exact ⟨rfl, rfl⟩
      · rintro ⟨rfl, rfl⟩
        exact ⟨value, tick, List.mem_cons_self⟩
    rw [hset]
    exact OxideFs.mem_index_writeFile _ _ _ _
  | get b key' => exact (or_iff_right (hother fun _ _ => by rintro ⟨⟩)).symm
  | delete b key' =>
    rw [or_iff_right (hother fun _ _ => by rintro ⟨⟩)]
    exact OxideFs.mem_index_deleteFile _ _
  | keys b => exact (or_iff_right (hother fun _ _ => by rintro ⟨⟩)).symm
  | clearAgent b =>
    rw [or_iff_right (hother fun _ _ => by rintro ⟨⟩)]
    exact OxideFs.mem_index_foldl_deleteFile _ _

/-- The store and the file system after calls on empty ones. -/
def afterCalls (calls : List StoreCall) : ContextStore × OxideFs :=
  calls.foldl (fun s c => (exec s c).2) (new, .new)

theorem afterCalls_concat (calls : List StoreCall) (c : StoreCall) :
    afterCalls (calls ++ [c]) = (exec (afterCalls calls) c).2 := by
  rw [afterCalls, List.foldl_concat, ← afterCalls]

theorem represents_afterCalls (calls : List StoreCall) :
    Represents (afterCalls calls) (calls.foldl ContextMap.apply .empty) := by
  induction calls using List.reverseRecOn with
  | nil => exact represents_new
  | append_singleton calls c ih =>
    rw [afterCalls_concat, List.foldl_concat]
    exact ih.exec c

/-- The keys with an entry are those that were ever set. -/
theorem mem_index_afterCalls (calls : List StoreCall) :
    agentPath a key ∈ (afterCalls calls).2.index ↔ WasSet calls a key := by
  induction calls using List.reverseRecOn with
  | nil => simp [afterCalls, WasSet, OxideFs.new]
  | append_singleton calls c ih =>
    rw [afterCalls_concat, mem_index_exec, ih, WasSet, WasSet, WasSet]
    simp only [List.mem_append, exists_or, or_comm]

/-- The call deletes a key that was set once and has no value any more. -/
def DeletesAgain (calls : List StoreCall) (m : ContextMap) : StoreCall → Prop
  | .delete agentId key => m agentId key = none ∧ WasSet calls agentId key
  | _ => False

/-- **The context store is a map but for repeated deletions**: after any calls on an empty store and
an empty file system, the result of the next call is that of the map from agents and keys to
values, exactly when the call does not delete a key that was set before and has been deleted or
cleared since. -/
theorem refines_contextMap (calls : List StoreCall) (c : StoreCall) :
    let m := calls.foldl ContextMap.apply .empty
    m.Answers c (exec (afterCalls calls) c).1 ↔ ¬DeletesAgain calls m c := by
  intro m
  have h : Represents (afterCalls calls) m := represents_afterCalls calls
  cases c with
  | set a key value tick => exact iff_of_true trivial id
  | get a key => exact iff_of_true (h.get_eq a key) id
  | delete a key =>
    have hdelete := (h.delete_iff a key).trans (mem_index_afterCalls calls)
    show ((afterCalls calls).1.delete (afterCalls calls).2 a key).1 = (m a key).isSome ↔
      ¬(m a key = none ∧ WasSet calls a key)
    cases hkey : m a key with
    | none => simp [← hdelete]
    | some value =>
      have hindex : agentPath a key ∈ (afterCalls calls).2.index :=
        h.mem_index (by rw [hkey]; rfl)
      simp [(h.delete_iff a key).mpr hindex]
  | keys a => exact iff_of_true (h.keys_spec a) id
  | clearAgent a => exact iff_of_true trivial id

/-- A key deleted twice: the second deletion finds nothing, and returns true. -/
theorem delete_twice :
    let calls : List StoreCall := [.set 1 "k" [7] 0, .delete 1 "k"]
    calls.foldl ContextMap.apply .empty 1 "k" = none ∧
      (exec (afterCalls calls) (.get 1 "k")).1 = .value none ∧
      (exec (afterCalls calls) (.delete 1 "k")).1 = .deleted true := by
  decide +kernel

end ContextStore

end OxideOS
