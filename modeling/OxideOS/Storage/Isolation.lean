import OxideOS.Storage.ContextStore
import OxideOS.Storage.FileMap

/-!
# Agents' context stores do not interfere

All agents keep their keys in one file system, told apart by the start of the path.  The decimal
number of an agent holds no slash and a slash follows it, so no path starts like the paths of two
agents, whatever the keys are.  A call for one agent touches paths of that agent only, and its part
of the cache; what another agent reads and lists stays the same.

## Main definitions

* `OxideFs.AgreeOn`: two file systems have the same files among some paths
* `StoreOp`, `ContextStore.system`: the calls on the store and the file system

## Main results

* `not_startsWith_agentDir`: no path belongs to two agents
* `ContextStore.isolated`: a call for one agent changes nothing for another
-/

namespace OxideOS

/-! ## The directories of the agents -/

/-- A word and a separator that it does not hold: no such text starts another. -/
theorem eq_of_concat_isPrefix {α : Type} {c : α} {l l' : List α} (hl : c ∉ l) (hl' : c ∉ l')
    (h : l ++ [c] <+: l' ++ [c]) : l = l' := by
  induction l generalizing l' with
  | nil =>
    cases l' with
    | nil => rfl
    | cons x l' =>
      obtain ⟨hx, -⟩ := List.cons_prefix_cons.mp h
      exact absurd hx fun hx => hl' (hx ▸ List.mem_cons_self)
  | cons x l ih =>
    cases l' with
    | nil =>
      obtain ⟨hx, -⟩ := List.cons_prefix_cons.mp h
      exact absurd hx.symm fun hx => hl (hx ▸ List.mem_cons_self)
    | cons y l' =>
      obtain ⟨rfl, htail⟩ := List.cons_prefix_cons.mp h
      rw [ih (fun hc => hl (List.mem_cons_of_mem _ hc)) (fun hc => hl' (List.mem_cons_of_mem _ hc))
        htail]

theorem slash_notMem_toString (n : Nat) : '/' ∉ (toString n).toList := by
  intro h
  rw [Nat.toString_eq_repr, Nat.toList_repr] at h
  exact absurd (Nat.isDigit_of_mem_toDigits (by decide) (by decide) h) (by decide)

theorem toList_agentDir (agentId : AgentId) :
    (agentDir agentId).toList = "/agents/".toList ++ ((toString agentId).toList ++ ['/']) := by
  simp only [agentDir, String.toList_append, List.append_assoc]
  rfl

variable {a b : AgentId} {path key : String}

theorem eq_of_agentDir_isPrefix (h : (agentDir a).toList <+: (agentDir b).toList) : a = b := by
  rw [toList_agentDir, toList_agentDir, List.prefix_append_right_inj] at h
  have hword := eq_of_concat_isPrefix (slash_notMem_toString a) (slash_notMem_toString b) h
  rw [Nat.toString_eq_repr, Nat.toString_eq_repr, Nat.toList_repr, Nat.toList_repr] at hword
  simpa using congrArg (fun digits => Nat.ofDigitChars 10 digits 0) hword

/-- **No path starts like the paths of two agents.** -/
theorem not_startsWith_agentDir (hab : a ≠ b) (ha : startsWith path (agentDir a) = true) :
    startsWith path (agentDir b) = false := by
  rw [startsWith_iff] at ha
  rw [Bool.eq_false_iff, ne_eq, startsWith_iff]
  intro hb
  rcases List.prefix_or_prefix_of_prefix ha hb with h | h
  · exact hab (eq_of_agentDir_isPrefix h)
  · exact hab (eq_of_agentDir_isPrefix h).symm

theorem agentPath_inj {key' : String} (h : agentPath a key' = agentPath a key) : key' = key := by
  have hlist := congrArg String.toList h
  simp only [agentPath, String.toList_append, List.append_cancel_left_eq] at hlist
  exact String.toList_inj.mp hlist

theorem startsWith_agentPath (agentId : AgentId) (key : String) :
    startsWith (agentPath agentId key) (agentDir agentId) = true :=
  startsWith_append _ _

/-! ## File systems that agree on some paths -/

namespace OxideFs

variable {fs fs' fs'' : OxideFs} {P : String → Prop}

/-- The entries of these paths are the same, and so are the blobs that were there. -/
structure AgreeOn (P : String → Prop) (fs fs' : OxideFs) : Prop where
  index : ∀ path : String, P path → fs'.index[path]? = fs.index[path]?
  blobs : fs.KeepsBlobs fs'

theorem AgreeOn.refl (P : String → Prop) (fs : OxideFs) : AgreeOn P fs fs :=
  ⟨fun _ _ => rfl, fun _ _ h => h⟩

theorem AgreeOn.trans (h : AgreeOn P fs fs') (h' : AgreeOn P fs' fs'') : AgreeOn P fs fs'' :=
  ⟨fun path hP => (h'.index path hP).trans (h.index path hP),
    fun id data hdata => h'.blobs id data (h.blobs id data hdata)⟩

theorem AgreeOn.readFile (h : AgreeOn P fs fs') (hfs : fs.WellFormed) (hP : P path) :
    fs'.readFile path = fs.readFile path := by
  rw [OxideFs.readFile, OxideFs.readFile, h.index path hP]
  cases he : fs.index[path]? with
  | none => rfl
  | some e =>
    obtain ⟨data, hdata⟩ := mem_blobs_iff.mp (hfs.entry path e he).2
    have hdata' := h.blobs e.blobId data hdata
    simp [hdata, hdata']

/-- Agreement on all paths with a prefix gives the same listing. -/
theorem AgreeOn.list {pre : String} (h : AgreeOn (fun path => startsWith path pre = true) fs fs') :
    fs'.list pre = fs.list pre := by
  have hfilter : (fs'.index.filter fun path e => startsWith path pre && !e.deleted) =
      fs.index.filter fun path e => startsWith path pre && !e.deleted := by
    apply Std.ExtTreeMap.ext_getElem?
    intro path
    rw [Std.ExtTreeMap.getElem?_filter', Std.ExtTreeMap.getElem?_filter']
    cases hpre : startsWith path pre with
    | true => rw [h.index path hpre]
    | false => simp
  have hlist := congrArg Std.ExtTreeMap.toList hfilter
  rw [Std.ExtTreeMap.toList_filter, Std.ExtTreeMap.toList_filter] at hlist
  rw [OxideFs.list, OxideFs.list, hlist]

/-- A write touches no other path. -/
theorem WellFormed.agreeOn_writeFile (hfs : fs.WellFormed) (hpath : ¬P path) (data : List UInt8)
    (tick : UInt64) : AgreeOn P fs (fs.writeFile path data tick).2 := by
  refine ⟨fun p hp => ?_, hfs.keepsBlobs_step (.writeFile path data tick)⟩
  obtain ⟨blobId, -, hindex⟩ := writeFile_spec fs path data tick
  have hne : path ≠ p := fun h => hpath (h ▸ hp)
  rw [hindex, Std.ExtTreeMap.getElem?_insert]
  simp [hne]

theorem WellFormed.agreeOn_deleteFile (hfs : fs.WellFormed) (hpath : ¬P path) :
    AgreeOn P fs (fs.deleteFile path).2 := by
  refine ⟨fun p hp => ?_, hfs.keepsBlobs_step (.deleteFile path)⟩
  have hne : p ≠ path := fun h => hpath (h ▸ hp)
  rw [getElem?_index_deleteFile, if_neg hne]

/-- Deleting paths one after another touches no other path. -/
theorem WellFormed.agreeOn_foldl_deleteFile (hfs : fs.WellFormed) {paths : List String}
    (hpaths : ∀ path ∈ paths, ¬P path) :
    AgreeOn P fs (paths.foldl (fun fs path => (fs.deleteFile path).2) fs) := by
  induction paths generalizing fs with
  | nil => exact AgreeOn.refl P fs
  | cons path paths ih =>
    have hhead := hfs.agreeOn_deleteFile (hpaths path List.mem_cons_self)
    exact hhead.trans (ih hfs.deleteFile fun p hp => hpaths p (List.mem_cons_of_mem path hp))

end OxideFs

/-! ## Calls on the store -/

/-- A call that changes the store. -/
inductive StoreOp
  | set (agentId : AgentId) (key : String) (value : List UInt8) (tick : UInt64)
  | delete (agentId : AgentId) (key : String)
  | clearAgent (agentId : AgentId)

/-- The agent a call is for. -/
def StoreOp.agentId : StoreOp → AgentId
  | .set agentId _ _ _ => agentId
  | .delete agentId _ => agentId
  | .clearAgent agentId => agentId

namespace ContextStore

def step (s : ContextStore × OxideFs) : StoreOp → ContextStore × OxideFs
  | .set agentId key value tick => s.1.set s.2 agentId key value tick
  | .delete agentId key => (s.1.delete s.2 agentId key).2
  | .clearAgent agentId => s.1.clearAgent s.2 agentId

/-- Any calls on the empty store and the empty file system. -/
def system : TransitionSystem (ContextStore × OxideFs) StoreOp := .ofFun (new, .new) step

variable {s : ContextStore × OxideFs} {op : StoreOp}

/-- The gated entry point sets the key, or does nothing. -/
theorem gatedSet_cases (caps : CapabilityTable) (store : ContextStore) (fs : OxideFs)
    (agentId : AgentId) (key : String) (value : List UInt8) (capId : CapId) (tick : UInt64) :
    (store.gatedSet caps fs agentId key value capId tick).2 = (store, fs) ∨
      ∃ op, step (store, fs) op = (store.gatedSet caps fs agentId key value capId tick).2 := by
  rw [gatedSet]
  split
  · exact .inl rfl
  · exact .inr ⟨.set agentId key value tick, rfl⟩

/-- Clearing an agent is a sequence of deletions. -/
theorem run_foldl_deleteFile (paths : List String) (fs : OxideFs) :
    OxideFs.system.Run fs (paths.map .deleteFile)
      (paths.foldl (fun fs path => (fs.deleteFile path).2) fs) := by
  induction paths generalizing fs with
  | nil => exact .nil fs
  | cons path paths ih => exact .cons rfl (ih _)

/-- The store drives the file system with writes and deletions. -/
theorem fs_projects : system.Projects OxideFs.system Prod.snd where
  init := by
    rintro s rfl
    rfl
  step := by
    rintro s op s' rfl
    cases op with
    | set agentId key value tick =>
      exact ⟨[.writeFile (agentPath agentId key) value tick], .cons rfl (.nil _)⟩
    | delete agentId key => exact ⟨[.deleteFile (agentPath agentId key)], .cons rfl (.nil _)⟩
    | clearAgent agentId => exact ⟨_, run_foldl_deleteFile _ _⟩

/-- A call touches paths of its agent only. -/
theorem agreeOn_step (hfs : s.2.WellFormed) (hop : op.agentId ≠ b) :
    OxideFs.AgreeOn (fun path => startsWith path (agentDir b) = true) s.2 (step s op).2 := by
  have hother : ∀ path, startsWith path (agentDir op.agentId) = true →
      ¬startsWith path (agentDir b) = true := fun path hpath hb => by
    rw [not_startsWith_agentDir hop hpath] at hb
    cases hb
  cases op with
  | set agentId key value tick =>
    exact hfs.agreeOn_writeFile (hother _ (startsWith_agentPath agentId key)) value tick
  | delete agentId key =>
    exact hfs.agreeOn_deleteFile (hother _ (startsWith_agentPath agentId key))
  | clearAgent agentId =>
    apply hfs.agreeOn_foldl_deleteFile
    intro path hpath
    obtain ⟨e, he, rfl⟩ := List.mem_map.mp hpath
    obtain ⟨path, hlive, hpre⟩ := OxideFs.mem_list.mp he
    have hentry : s.2.index[path]? = some e := (OxideFs.mem_liveEntries.mp hlive).1
    rw [(hfs.entry path e hentry).1]
    exact hother path hpre

/-- A call leaves the cache of other agents alone. -/
theorem cache_step (s : ContextStore × OxideFs) (hop : op.agentId ≠ b) :
    (step s op).1.cache[b]? = s.1.cache[b]? := by
  have hne : ¬compare op.agentId b = .eq := by
    rwa [Std.LawfulEqCmp.compare_eq_iff_eq]
  cases op with
  | set agentId key value tick => exact Std.ExtTreeMap.getElem?_insert.trans (if_neg hne)
  | delete agentId key => exact Std.ExtTreeMap.getElem?_modify.trans (if_neg hne)
  | clearAgent agentId => exact Std.ExtTreeMap.getElem?_erase.trans (if_neg hne)

theorem get_step_of_ne (hfs : s.2.WellFormed) (hop : op.agentId ≠ b) (key : String) :
    (step s op).1.get (step s op).2 b key = s.1.get s.2 b key := by
  have hagree := agreeOn_step hfs hop
  rw [get, get, cache_step s hop, hagree.readFile hfs (startsWith_agentPath b key)]

/-- **Agents do not interfere**: in every reachable state a call for one agent leaves every key that
another agent reads, and the keys it lists, as they were. -/
theorem isolated (hs : system.Reachable s) (hop : op.agentId ≠ b) :
    (∀ key, (step s op).1.get (step s op).2 b key = s.1.get s.2 b key) ∧
      keys (step s op).2 b = keys s.2 b := by
  have hfs : s.2.WellFormed := OxideFs.wellFormed_of_reachable (fs_projects.reachable hs)
  refine ⟨get_step_of_ne hfs hop, ?_⟩
  rw [keys, keys, (agreeOn_step hfs hop).list]

/-- A value that is set is read back. -/
theorem get_set_self (store : ContextStore) (fs : OxideFs) (agentId : AgentId) (key : String)
    (value : List UInt8) (tick : UInt64) :
    (store.set fs agentId key value tick).1.get (store.set fs agentId key value tick).2 agentId
      key = some value := by
  simp [set, get]

/-- The other keys of the agent are read as before. -/
theorem get_set_of_ne (store : ContextStore) {fs : OxideFs} (hfs : fs.WellFormed)
    (agentId : AgentId) {key' : String} (hne : key' ≠ key) (value : List UInt8) (tick : UInt64) :
    (store.set fs agentId key value tick).1.get (store.set fs agentId key value tick).2 agentId
      key' = store.get fs agentId key' := by
  have hpath : agentPath agentId key' ≠ agentPath agentId key := fun h => hne (agentPath_inj h)
  have hread : (fs.writeFile (agentPath agentId key) value tick).2.readFile
      (agentPath agentId key') = fs.readFile (agentPath agentId key') :=
    (hfs.agreeOn_writeFile (P := fun path => path ≠ agentPath agentId key) (not_not.mpr rfl) value
      tick).readFile hfs hpath
  have hcache : ((store.cache.insert agentId
      (((store.cache[agentId]?).getD ∅).insert key value))[agentId]?).bind
        (fun entries => entries[key']?) =
      (store.cache[agentId]?).bind fun entries => entries[key']? := by
    rw [Std.ExtTreeMap.getElem?_insert_self, Option.bind_some,
      Std.ExtTreeMap.getElem?_insert_eq_ite, if_neg hne]
    cases store.cache[agentId]? with
    | none => simp
    | some entries => simp
  rw [get, get, set, hread, hcache]

/-- Agent 1 clears its store after both agents have set keys that look like paths. -/
def twoAgents : List StoreOp :=
  [.set 1 "2/k" [1] 0, .set 12 "k" [2] 1, .set 1 "../12/k" [3] 2]

theorem isolated_twoAgents :
    let s := twoAgents.foldl step (new, .new)
    s.1.get s.2 12 "k" = some [2] ∧
      (step s (.clearAgent 1)).1.get (step s (.clearAgent 1)).2 12 "k" = some [2] ∧
      keys (step s (.clearAgent 1)).2 12 = keys s.2 12 := by
  intro s
  have hs : system.Reachable s := TransitionSystem.reachable_ofFun_iff.mpr ⟨twoAgents, rfl⟩
  have hget : s.1.get s.2 12 "k" = some [2] := by decide
  obtain ⟨hgets, hkeys⟩ := isolated hs (show (StoreOp.clearAgent 1).agentId ≠ 12 by decide)
  exact ⟨hget, (hgets "k").trans hget, hkeys⟩

end ContextStore

end OxideOS
