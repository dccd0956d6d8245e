import OxideOS.Capability.Confinement

/-!
# The firewall and the narrowing of network resources

Two pieces of code read the wildcards of a network resource. The narrowing test of delegation
compares the patterns of a child and a parent; the firewall compares the pattern of a capability
with the endpoint of a connection. They mean the same: one network resource narrows another when
every endpoint the firewall lets through under the first it lets through under the second. Along
the parent links of a reachable table resources narrow and rights shrink, so what is let through
for a delegated capability is let through for its ancestors.

## Main definitions

* `FirewallDecision`, `checkOutbound`
* `ResourceRef.Admits`: the endpoints a resource matches

## Main results

* `checkOutbound_eq_allow`: when the firewall lets a connection through
* `isSubsetOf_iff_admits`: the narrowing test is inclusion of the endpoints
* `firewall_respects_narrowing`: the firewall and the narrowing test agree, along whole chains of
  delegations
-/

namespace OxideOS

/-- `firewall::FirewallDecision`. -/
inductive FirewallDecision
  | allow
  | deny (reason : String)
deriving DecidableEq, Repr

/-- `firewall::check_outbound`. -/
def checkOutbound (table : CapabilityTable) (taskId : TaskId) (capId : CapId)
    (targetHost : String) (targetPort : UInt16) : FirewallDecision :=
  match table.validate capId taskId .connect with
  | .error _ => .deny "no valid network capability"
  | .ok cap =>
    match cap.resource with
    | .network host port =>
      if host ≠ "*" ∧ host ≠ targetHost then .deny "host not allowed"
      else if port ≠ 0 ∧ port ≠ targetPort then .deny "port not allowed"
      else .allow
    | _ => .deny "not a network capability"

/-! ## The endpoints of a resource -/

namespace ResourceRef

/-- The endpoints a network resource stands for; no other resource stands for any. -/
def Admits : ResourceRef → String → UInt16 → Prop
  | .network host port, targetHost, targetPort =>
    (host = "*" ∨ host = targetHost) ∧ (port = 0 ∨ port = targetPort)
  | _, _, _ => False

theorem Admits.exists_network {r : ResourceRef} {host : String} {port : UInt16}
    (h : r.Admits host port) : ∃ rh rp, r = .network rh rp := by
  cases r with
  | network rh rp => exact ⟨rh, rp, rfl⟩
  | _ => exact h.elim

/-- **Narrowing is inclusion of the endpoints.** A pattern matches itself read as an endpoint, so
that one endpoint decides: the host `*` and the port 0 are only matched by the wildcards. -/
theorem isSubsetOf_iff_admits {ch ph : String} {cp pp : UInt16} :
    isSubsetOf (.network ch cp) (.network ph pp) = true ↔
      ∀ host port, Admits (.network ch cp) host port → Admits (.network ph pp) host port := by
  rw [isSubsetOf_network]
  constructor
  · rintro ⟨hhost, hport⟩ host port ⟨h, p⟩
    refine ⟨?_, ?_⟩
    · rcases hhost with hstar | rfl
      · exact Or.inl hstar
      · exact h
    · rcases hport with hzero | rfl
      · exact Or.inl hzero
      · exact p
  · intro h
    obtain ⟨hhost, hport⟩ := h ch cp ⟨Or.inr rfl, Or.inr rfl⟩
    exact ⟨hhost.imp_right Eq.symm, hport.imp_right Eq.symm⟩

/-- A resource that narrows to one with endpoints is itself a network resource, with at least
those endpoints. -/
theorem Admits.of_isSubsetOf {c p : ResourceRef} {host : String} {port : UInt16}
    (h : c.Admits host port) (hsub : c.isSubsetOf p = true) : p.Admits host port := by
  obtain ⟨ch, cp, rfl⟩ := h.exists_network
  rcases isSubsetOf_cases hsub with rfl | ⟨_, _, _, _, hc, -⟩ | ⟨_, _, ph, pp, hc, rfl⟩ |
    ⟨_, _, hc, -⟩
  · exact h
  · cases hc
  · obtain ⟨rfl, rfl⟩ := network.inj hc
    exact isSubsetOf_iff_admits.mp hsub host port h
  · cases hc

end ResourceRef

/-! ## What the firewall lets through -/

open CapabilityTable

variable {t : CapabilityTable} {capId : CapId} {task : TaskId} {host : String} {port : UInt16}

/-- A connection is let through for a valid capability with the right to connect whose resource
admits the endpoint. -/
theorem checkOutbound_eq_allow : checkOutbound t task capId host port = .allow ↔
    ∃ cap, t.validate capId task .connect = .ok cap ∧ cap.resource.Admits host port := by
  unfold checkOutbound
  cases t.validate capId task .connect with
  | error e => simp
  | ok cap =>
    simp only [Except.ok.injEq, exists_eq_left']
    cases cap.resource with
    | network h p =>
      simp only [ResourceRef.Admits]
      split_ifs with hh hp
      · simp [hh.1, hh.2]
      · simp [hp.1, hp.2]
      · simp only [true_iff]
        tauto
    | _ => simp [ResourceRef.Admits]

/-- Under a valid capability the endpoints let through are those of its resource. -/
theorem checkOutbound_of_validate {cap : Capability}
    (h : t.validate capId task .connect = .ok cap) :
    checkOutbound t task capId host port = .allow ↔ cap.resource.Admits host port := by
  rw [checkOutbound_eq_allow]
  simp [h]

/-- **Narrowing and the firewall agree.** A network resource narrows another exactly when every
endpoint let through under a valid capability for the first is let through under a valid capability
for the second. Hence, in every reachable table, what is let through for a delegated capability is
let through for each of its ancestors when its owner presents it. -/
theorem firewall_respects_narrowing :
    (∀ (ch ph : String) (cp pp : UInt16) (t t' : CapabilityTable) (capId capId' : CapId)
        (task task' : TaskId) (c p : Capability),
      t.validate capId task .connect = .ok c → c.resource = .network ch cp →
      t'.validate capId' task' .connect = .ok p → p.resource = .network ph pp →
      (ResourceRef.isSubsetOf (.network ch cp) (.network ph pp) = true ↔
        ∀ host port, checkOutbound t task capId host port = .allow →
          checkOutbound t' task' capId' host port = .allow)) ∧
    ∀ (t : CapabilityTable) (i : CapId) (c : Capability) (as : List Capability),
      system.Reachable t → t.slot i = some c → t.ParentChain c as →
      ∀ a ∈ as, ∀ task host port, checkOutbound t task i host port = .allow →
        checkOutbound t a.owner a.id host port = .allow := by
  refine ⟨?_, ?_⟩
  · intro ch ph cp pp t t' capId capId' task task' c p hc hcr hp hpr
    simp only [checkOutbound_of_validate hc, checkOutbound_of_validate hp, hcr, hpr]
    exact ResourceRef.isSubsetOf_iff_admits
  · intro t i c as hreach hi hchain a ha task host port hallow
    obtain ⟨cap, hvalid, hadmits⟩ := checkOutbound_eq_allow.mp hallow
    obtain ⟨hslot, hlive, -, hconnect⟩ := validate_eq_ok.mp hvalid
    obtain rfl : cap = c := Option.some.inj (hslot.symm.trans hi)
    obtain ⟨haslot, halive, hnarrows⟩ :=
      hchain.narrows (wellFormed_of_reachable hreach) hi hlive a ha
    refine checkOutbound_eq_allow.mpr ⟨a, validate_eq_ok.mpr ⟨haslot, halive, rfl, ?_⟩, ?_⟩
    · exact PermissionBits.contains_trans hnarrows.permissions hconnect
    · exact hadmits.of_isSubsetOf hnarrows.resource

/-- A wildcard over the network, delegated to one host on any port and then to one port of it. -/
def delegatedNetwork : List CapOp :=
  [.createRoot 1 (.network "*" 0) .all, .delegate 1 1 2 .all (some (.network "localhost" 0)),
    .delegate 2 2 3 .connect (some (.network "localhost" 80))]

theorem firewall_respects_narrowing_delegatedNetwork :
    (∀ host port, checkOutbound (delegatedNetwork.foldl step new) 3 3 host port = .allow →
      checkOutbound (delegatedNetwork.foldl step new) 2 2 host port = .allow) ∧
    checkOutbound (delegatedNetwork.foldl step new) 1 1 "localhost" 80 = .allow :=
  ⟨(firewall_respects_narrowing.1 "localhost" "localhost" 80 0 _ _ 3 2 3 2
      ⟨3, .network "localhost" 80, .connect, 3, some 2, false⟩
      ⟨2, .network "localhost" 0, .all, 2, some 1, false⟩
      (by decide) rfl (by decide) rfl).mp (by decide),
    firewall_respects_narrowing.2 (delegatedNetwork.foldl step new) 3
      ⟨3, .network "localhost" 80, .connect, 3, some 2, false⟩
      [⟨2, .network "localhost" 0, .all, 2, some 1, false⟩,
        ⟨1, .network "*" 0, .all, 1, none, false⟩]
      (TransitionSystem.reachable_ofFun_iff.mpr ⟨delegatedNetwork, rfl⟩) (by decide)
      (.link rfl (by decide) (.link rfl (by decide) (.root rfl)))
      ⟨1, .network "*" 0, .all, 1, none, false⟩ (by simp) 3 "localhost" 80 (by decide)⟩

end OxideOS
