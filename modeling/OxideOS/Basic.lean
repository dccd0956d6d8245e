import Mathlib.Data.List.Infix

/-!
# Types shared by the subsystems

Identifiers are counters that only ever grow by one from a small start, so they are natural
numbers; quantities whose width matters (permission words, addresses, ports, bytes) keep the
width of the source.
-/

namespace OxideOS

/-- `task::TaskId`. Agents use the same identifiers. -/
abbrev TaskId := Nat

/-- `agent::AgentId`. -/
abbrev AgentId := TaskId

/-- `alloc::collections::BTreeMap`: a finite map, iterated in key order. -/
abbrev BTreeMap (κ : Type) (ν : Type) [Ord κ] := Std.ExtTreeMap κ ν compare

/-- `str::starts_with`. On valid UTF-8 the byte test and the character test agree. -/
def startsWith (s pre : String) : Bool := pre.toList.isPrefixOf s.toList

theorem startsWith_iff {s pre : String} : startsWith s pre = true ↔ pre.toList <+: s.toList :=
  List.isPrefixOf_iff_prefix

@[simp] theorem startsWith_self (s : String) : startsWith s s = true :=
  startsWith_iff.mpr List.prefix_rfl

theorem startsWith_append (s t : String) : startsWith (s ++ t) s = true := by
  rw [startsWith_iff, String.toList_append]
  exact List.prefix_append _ _

theorem startsWith_trans {s t u : String} (hst : startsWith s t = true)
    (htu : startsWith t u = true) : startsWith s u = true :=
  startsWith_iff.mpr ((startsWith_iff.mp htu).trans (startsWith_iff.mp hst))

/-- `str::strip_prefix`. -/
def stripPrefix (s pre : String) : Option String :=
  if startsWith s pre then some (String.ofList (s.toList.drop pre.toList.length)) else none

theorem stripPrefix_append (pre s : String) : stripPrefix (pre ++ s) pre = some s := by
  rw [stripPrefix, if_pos (startsWith_append pre s), String.toList_append, List.drop_left,
    String.ofList_toList]

end OxideOS
