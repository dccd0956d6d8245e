import OxideOS.Capability.Table
import OxideOS.Storage.OxideFs

/-!
# The context store

`context_store.rs`: the key-value store of the agents.  Values are cached per agent and written
through to OxideFS under the path `/agents/<agent>/<key>`.  The entry points `set` and `get` ask for
a capability of the agent first.
-/

namespace OxideOS

/-- `format!("/agents/{}/{}", agent_id, key)`. -/
def agentPath (agentId : AgentId) (key : String) : String :=
  "/agents/" ++ toString agentId ++ "/" ++ key

/-- `format!("/agents/{}/", agent_id)`, which the paths of the agent's keys start with. -/
def agentDir (agentId : AgentId) : String := "/agents/" ++ toString agentId ++ "/"

structure ContextStore where
  cache : BTreeMap AgentId (BTreeMap String (List UInt8))

namespace ContextStore

/-- `ContextStore::new`. -/
def new : ContextStore := ⟨∅⟩

/-- `ContextStore::set`: the cache and the file system are both written. -/
def set (store : ContextStore) (fs : OxideFs) (agentId : AgentId) (key : String)
    (value : List UInt8) (tick : UInt64) : ContextStore × OxideFs :=
  let entries := (store.cache[agentId]?).getD ∅
  (⟨store.cache.insert agentId (entries.insert key value)⟩,
    (fs.writeFile (agentPath agentId key) value tick).2)

/-- `ContextStore::get`: the cache first, then the file system. -/
def get (store : ContextStore) (fs : OxideFs) (agentId : AgentId) (key : String) :
    Option (List UInt8) :=
  match (store.cache[agentId]?).bind fun entries => entries[key]? with
  | some value => some value
  | none => fs.readFile (agentPath agentId key)

/-- `ContextStore::delete`: the cache and the file system both forget the key. -/
def delete (store : ContextStore) (fs : OxideFs) (agentId : AgentId) (key : String) :
    Bool × ContextStore × OxideFs :=
  let fromCache := (store.cache[agentId]?.map fun entries => entries.contains key).getD false
  let (fromFs, fs) := fs.deleteFile (agentPath agentId key)
  (fromCache || fromFs, ⟨store.cache.modify agentId fun entries => entries.erase key⟩, fs)

/-- `ContextStore::keys`: what the file system lists for the agent. -/
def keys (fs : OxideFs) (agentId : AgentId) : List String :=
  (fs.list (agentDir agentId)).map fun e => (stripPrefix e.path (agentDir agentId)).getD e.path

/-- `ContextStore::clear_agent`. -/
def clearAgent (store : ContextStore) (fs : OxideFs) (agentId : AgentId) :
    ContextStore × OxideFs :=
  let paths := (fs.list (agentDir agentId)).map FileEntry.path
  (⟨store.cache.erase agentId⟩, paths.foldl (fun fs path => (fs.deleteFile path).2) fs)

/-- `context_store::set`. -/
def gatedSet (caps : CapabilityTable) (store : ContextStore) (fs : OxideFs) (agentId : AgentId)
    (key : String) (value : List UInt8) (capId : CapId) (tick : UInt64) :
    Except String Unit × ContextStore × OxideFs :=
  match caps.validate capId agentId PermissionBits.write with
  | .error _ => (.error "insufficient storage capability", store, fs)
  | .ok _ => (.ok (), store.set fs agentId key value tick)

/-- `context_store::get`. -/
def gatedGet (caps : CapabilityTable) (store : ContextStore) (fs : OxideFs) (agentId : AgentId)
    (key : String) (capId : CapId) : Except String (Option (List UInt8)) :=
  match caps.validate capId agentId PermissionBits.read with
  | .error _ => .error "insufficient storage capability"
  | .ok _ => .ok (store.get fs agentId key)

section Gates

variable {caps : CapabilityTable} {store : ContextStore} {fs : OxideFs} {agentId : AgentId}
  {key : String} {capId : CapId}

/-- A write goes through exactly when the capability is valid for writing. -/
theorem gatedSet_ok_iff {value : List UInt8} {tick : UInt64} :
    (∃ u, (store.gatedSet caps fs agentId key value capId tick).1 = .ok u) ↔
      ∃ cap, caps.validate capId agentId .write = .ok cap := by
  rw [gatedSet]
  cases caps.validate capId agentId .write with
  | error e => simp
  | ok cap => simp

/-- A read goes through exactly when the capability is valid for reading. -/
theorem gatedGet_ok_iff :
    (∃ value, store.gatedGet caps fs agentId key capId = .ok value) ↔
      ∃ cap, caps.validate capId agentId .read = .ok cap := by
  rw [gatedGet]
  cases caps.validate capId agentId .read with
  | error e => simp
  | ok cap => simp

end Gates

end ContextStore

end OxideOS
