import OxideOS.Net.Socket

/-!
# Connections and the capabilities they are opened with

`http::get` and `http::post` take a host and a port from the URL, ask the firewall about them,
resolve the host, and connect. The socket layer below them checks the capability once more, but not
its resource. So a connection opened through HTTP goes to an endpoint that the capability admits,
and a connection opened directly goes there exactly if the caller picked such an endpoint. Where a
connection goes is read off a record of the endpoints that the TCP library was asked for.

## Main definitions

* `parseUrl`: host, port and path of a URL
* `Net.openConnection`: what `get` and `post` do until they are connected
* `Net.Reaches`, `Net.Permits`: the addresses that a resource, or a capability of a task, stands for
* `Net.Refused`: a call opens no connection, whatever the endpoint

## Main results

* `Net.openConnection_cases`: what a connection opened through HTTP has passed
* `Net.tcpConnect_confined_iff`: when a direct connection stays within its capability
* `Net.connections_confined`: which connections stay within their capability
* `Net.sshThroughHttpCapability`: a connection that does not
-/

namespace OxideOS

/-- `http::HttpError`. -/
inductive HttpError
  | dnsResolutionFailed
  | connectionFailed
  | sendFailed
  | receiveFailed
  | parseError
  | capabilityDenied
  | firewallDenied
deriving DecidableEq, Repr

/-! ## URLs -/

/-- `str::parse::<u16>`: an optional plus sign, then decimal digits, at least one of them. -/
def parseU16 (cs : List Char) : Option UInt16 :=
  let digits := match cs with
    | '+' :: rest => rest
    | cs => cs
  if digits = [] ∨ digits.any (fun c => !c.isDigit) then none
  else
    let value := digits.foldl (fun n c => 10 * n + (c.toNat - '0'.toNat)) 0
    if value < 2 ^ 16 then some (UInt16.ofNat value) else none

theorem isDigit_of_mem_toDigits {n : Nat} {c : Char} (h : c ∈ Nat.toDigits 10 n) :
    c.isDigit = true :=
  Nat.isDigit_of_mem_toDigits (by decide) (by decide) h

theorem not_mem_toDigits (n : Nat) {c : Char} (h : c.isDigit = false) :
    c ∉ Nat.toDigits 10 n := fun hmem => by
  rw [isDigit_of_mem_toDigits hmem] at h
  cases h

/-- A number is read back from its digits. -/
theorem parseU16_toDigits (n : UInt16) : parseU16 (Nat.toDigits 10 n.toNat) = some n := by
  have hdigits : ¬(Nat.toDigits 10 n.toNat = [] ∨
      (Nat.toDigits 10 n.toNat).any (fun c => !c.isDigit) = true) := by
    rintro (hnil | hany)
    · exact Nat.toDigits_ne_nil hnil
    · obtain ⟨c, hmem, hc⟩ := List.any_eq_true.mp hany
      simp [isDigit_of_mem_toDigits hmem] at hc
  have hvalue : (Nat.toDigits 10 n.toNat).foldl (fun n c => 10 * n + (c.toNat - '0'.toNat)) 0 =
      n.toNat := Nat.ofDigitChars_ten_toDigits
  have hplus : ∀ rest, Nat.toDigits 10 n.toNat = '+' :: rest → False := fun rest heq =>
    not_mem_toDigits n.toNat (c := '+') (by decide) (heq ▸ List.mem_cons_self)
  rw [parseU16, if_neg hdigits, hvalue]
  · simp only [n.toNat_lt, if_true, UInt16.ofNat_toNat]
  · exact hplus

/-- The characters before the first `c`, and those from it on if there is one: `str::find`, and the
two slices at the index found. -/
def splitAtChar (c : Char) (cs : List Char) : List Char × Option (List Char) :=
  match cs.findIdx? (· == c) with
  | some i => (cs.take i, some (cs.drop i))
  | none => (cs, none)

/-- `http::parse_url`: host, port and path. -/
def parseUrl (url : String) : Except HttpError (String × UInt16 × String) :=
  let defaultPort : UInt16 := if startsWith url "https://" then 443 else 80
  let url := (stripPrefix url "https://" <|> stripPrefix url "http://").getD url
  let (hostPort, path) := match splitAtChar '/' url.toList with
    | (hostPort, some path) => (hostPort, path)
    | (hostPort, none) => (hostPort, ['/'])
  let (host, port) := match splitAtChar ':' hostPort with
    -- the port is behind the colon
    | (host, some rest) => (host, (parseU16 (rest.drop 1)).getD defaultPort)
    | (host, none) => (host, defaultPort)
  .ok (String.ofList host, port, String.ofList path)

example : parseUrl "https://localhost:8080/a:b" = .ok ("localhost", 8080, "/a:b") := by
  decide +kernel

/-! ## Connecting -/

/-- A connection as `http::get` and `http::post` go on to use it. -/
structure Connection where
  handle : SocketHandle
  host : String
  port : UInt16
  path : String
  addr : Ipv4Address
deriving DecidableEq, Repr

namespace Net

variable {ι σ : Type}

/-- The part that `http::get` and `http::post` share, until they are connected. The log lines, and
the note that there is no TLS for port 443, are left out. -/
def openConnection (stack : TcpStack ι σ) (n : Net ι σ) (url : String) (taskId : TaskId)
    (netCap : CapId) : Option (Except HttpError Connection × Net ι σ) :=
  match parseUrl url with
  | .error e => some (.error e, n)
  | .ok (host, port, path) =>
    match n.caps.validate netCap taskId .connect with
    | .error _ => some (.error .capabilityDenied, n)
    | .ok _ =>
      match checkOutbound n.caps taskId netCap host port with
      | .deny _ => some (.error .firewallDenied, n)
      | .allow =>
        match n.resolve host with
        | none => some (.error .dnsResolutionFailed, n)
        | some addr =>
          match n.tcpCreate stack with
          | (none, n) => some (.error .connectionFailed, n)
          | (some handle, n) => do
            let (answer, n) ← n.tcpConnect stack handle addr port taskId netCap
            match answer with
            | .error _ => return (.error .connectionFailed, n)
            | .ok () => return (.ok ⟨handle, host, port, path, addr⟩, n)

variable {stack : TcpStack ι σ} {n n' : Net ι σ} {url : String} {handle : SocketHandle}
  {addr : Ipv4Address} {port : UInt16} {task : TaskId} {capId : CapId} {conn : Connection}

/-- What has happened when `get` or `post` is connected, or has given up: it stopped before
`tcp_connect`, or the firewall allowed the endpoint, the host resolved to its address, and
`tcp_connect` was called for it. -/
theorem openConnection_cases {answer : Except HttpError Connection}
    (h : n.openConnection stack url task capId = some (answer, n')) :
    (∃ e, answer = .error e ∧ (n' = n ∨ n' = (n.tcpCreate stack).2)) ∨
      ∃ conn connected, checkOutbound n.caps task capId conn.host conn.port = .allow ∧
        n.resolve conn.host = some conn.addr ∧
        (n.tcpCreate stack).2.tcpConnect stack conn.handle conn.addr conn.port task capId =
          some (connected, n') ∧
        ∀ conn', answer = .ok conn' → conn' = conn ∧ connected = .ok () := by
  unfold openConnection at h
  split at h
  · next e _ =>
    cases h
    exact .inl ⟨e, rfl, .inl rfl⟩
  next host port path _ =>
  split at h
  · cases h
    exact .inl ⟨_, rfl, .inl rfl⟩
  split at h
  · cases h
    exact .inl ⟨_, rfl, .inl rfl⟩
  next hallow =>
  split at h
  · cases h
    exact .inl ⟨_, rfl, .inl rfl⟩
  next addr hresolve =>
  split at h
  · next created hcreate =>
    cases h
    exact .inl ⟨_, rfl, .inr (congrArg Prod.snd hcreate).symm⟩
  next handle created hcreate =>
  obtain ⟨⟨connected, n''⟩, hconnect, hanswer⟩ := Option.bind_eq_some_iff.mp h
  refine .inr ⟨⟨handle, host, port, path, addr⟩, connected, hallow, hresolve, ?_, ?_⟩
  · rw [hcreate]
    cases connected with
    | error e => cases hanswer; exact hconnect
    | ok u => cases hanswer; exact hconnect
  · rintro conn' rfl
    cases connected with
    | error e => cases hanswer
    | ok u => cases hanswer; exact ⟨rfl, rfl⟩

/-- A record of the endpoints changes nothing. -/
theorem openConnection_recording (m : Net ι (σ × List IpEndpoint)) :
    m.forget.openConnection stack url task capId =
      (m.openConnection stack.recording url task capId).map
        fun answer => (answer.1, answer.2.forget) := by
  have hcaps : m.forget.caps = m.caps := rfl
  have hresolve : ∀ host, m.forget.resolve host = m.resolve host := fun _ => rfl
  unfold openConnection
  rw [hcaps]
  simp only [hresolve, tcpCreate_recording]
  split
  · rfl
  split
  · rfl
  split
  · rfl
  split
  · rfl
  rcases m.tcpCreate stack.recording with ⟨_ | handle, created⟩
  · rfl
  · simp only [tcpConnect_recording, Option.bind_eq_bind, Option.bind_map, Option.map_bind]
    congr 1
    funext answer
    rcases answer with ⟨_ | u, n⟩
    · rfl
    · rfl

/-! ## Where a capability lets a task connect to -/

/-- A resource stands for an address and a port: it is a network resource that admits the port, and
its host is the wildcard or a name that resolves to the address. -/
def Reaches (n : Net ι σ) (resource : ResourceRef) (addr : Ipv4Address) (port : UInt16) : Prop :=
  ∃ host rport, resource = .network host rport ∧ (rport = 0 ∨ rport = port) ∧
    (host = "*" ∨ n.resolve host = some addr)

/-- The task holds a capability with the right to connect, not revoked, for the address and port. -/
def Permits (n : Net ι σ) (task : TaskId) (capId : CapId) (addr : Ipv4Address) (port : UInt16) :
    Prop :=
  ∃ cap, n.caps.slot capId = some cap ∧ cap.revoked = false ∧ cap.owner = task ∧
    cap.permissions.contains .connect = true ∧ n.Reaches cap.resource addr port

/-- What the firewall allows under a name that resolves is permitted at the address. -/
theorem permits_of_checkOutbound {host : String}
    (hallow : checkOutbound n.caps task capId host port = .allow)
    (hresolve : n.resolve host = some addr) : n.Permits task capId addr port := by
  obtain ⟨cap, hvalid, hadmits⟩ := checkOutbound_eq_allow.mp hallow
  obtain ⟨hslot, hlive, howner, hconnect⟩ := CapabilityTable.validate_eq_ok.mp hvalid
  refine ⟨cap, hslot, hlive, howner, hconnect, ?_⟩
  obtain ⟨rhost, rport, hresource⟩ := hadmits.exists_network
  rw [hresource] at hadmits
  obtain ⟨hhost, hport⟩ := hadmits
  refine ⟨rhost, rport, hresource, hport, hhost.imp_right ?_⟩
  rintro rfl
  exact hresolve

/-- Whatever the resource, the call opens no connection: the capability is not a live one of the
task with the right to connect, or the library does not start the connection. -/
def Refused (stack : TcpStack ι σ) (n : Net ι σ) (handle : SocketHandle) (addr : Ipv4Address)
    (port : UInt16) (task : TaskId) (capId : CapId) : Prop :=
  (∀ cap, n.caps.slot capId = some cap → cap.revoked = false → cap.owner = task →
    cap.permissions.contains .connect = false) ∨ ¬Starts stack n handle addr port

/-- A direct connection is within the capability exactly if it is refused, or the resource of the
capability stands for the endpoint. -/
theorem tcpConnect_confined_iff :
    ((∃ n', n.tcpConnect stack handle addr port task capId = some (.ok (), n')) →
        n.Permits task capId addr port) ↔
      Refused stack n handle addr port task capId ∨
        ∃ cap, n.caps.slot capId = some cap ∧ n.Reaches cap.resource addr port := by
  rw [tcpConnect_eq_ok]
  simp only [CapabilityTable.validate_eq_ok]
  constructor
  · intro himp
    by_cases hstarts : Starts stack n handle addr port
    · by_cases hlive : ∃ cap, n.caps.slot capId = some cap ∧ cap.revoked = false ∧
          cap.owner = task ∧ cap.permissions.contains .connect = true
      · obtain ⟨cap, hslot, -, -, -, hreaches⟩ := himp ⟨hlive, hstarts⟩
        exact .inr ⟨cap, hslot, hreaches⟩
      · refine .inl (.inl fun cap hslot hrevoked howner => ?_)
        exact Bool.eq_false_of_not_eq_true fun hconnect =>
          hlive ⟨cap, hslot, hrevoked, howner, hconnect⟩
    · exact .inl (.inr hstarts)
  · rintro ((hnone | hstarts) | ⟨cap, hslot, hreaches⟩)
    · rintro ⟨⟨cap, hslot, hrevoked, howner, hconnect⟩, -⟩
      rw [hnone cap hslot hrevoked howner] at hconnect
      cases hconnect
    · exact fun hok => absurd hok.2 hstarts
    · rintro ⟨⟨cap', hslot', hrevoked, howner, hconnect⟩, -⟩
      obtain rfl := Option.some.inj (hslot.symm.trans hslot')
      exact ⟨cap, hslot, hrevoked, howner, hconnect, hreaches⟩

/-- **Which connections stay within their capability.**  Every endpoint that the library is asked to
connect to by a call of HTTP is one that the capability permits, and if the call is connected it is
connected to that endpoint.  A direct call dials the endpoint it is called with.  That one is
permitted whenever the call returns `Ok` exactly if the call is refused for another reason, or the
resource of the capability stands for the endpoint: that is the caller's choice, since `tcp_connect`
never looks at the resource. -/
theorem connections_confined (stack : TcpStack ι σ) (n : Net ι σ) (task : TaskId) (capId : CapId) :
    (∀ url answer n', n.openConnection stack url task capId = some (answer, n') →
      ∃ m, n.recorded.openConnection stack.recording url task capId = some (answer, m) ∧
        m.forget = n' ∧ (∀ e ∈ m.dialled, n.Permits task capId e.addr e.port) ∧
        ∀ conn, answer = .ok conn → m.dialled = [⟨conn.addr, conn.port⟩]) ∧
    ∀ handle addr port,
      (∀ n', n.tcpConnect stack handle addr port task capId = some (.ok (), n') →
        ∃ m, n.recorded.tcpConnect stack.recording handle addr port task capId =
            some (.ok (), m) ∧ m.forget = n' ∧ m.dialled = [⟨addr, port⟩]) ∧
      (((∃ n', n.tcpConnect stack handle addr port task capId = some (.ok (), n')) →
          n.Permits task capId addr port) ↔
        Refused stack n handle addr port task capId ∨
          ∃ cap, n.caps.slot capId = some cap ∧ n.Reaches cap.resource addr port) := by
  refine ⟨?_, fun handle addr port => ⟨?_, tcpConnect_confined_iff⟩⟩
  · intro url answer n' hopen
    rw [← n.forget_recorded, openConnection_recording] at hopen
    obtain ⟨⟨answer', m⟩, hm, heq⟩ := Option.map_eq_some_iff.mp hopen
    obtain ⟨rfl, hforget⟩ := Prod.mk.inj heq
    refine ⟨m, hm, hforget, ?_⟩
    rcases openConnection_cases hm with
      ⟨e, rfl, hsame⟩ | ⟨conn, connected, hallow, hresolve, hconnect, hok⟩
    · have hnone : m.dialled = [] := by
        rcases hsame with rfl | rfl
        · exact dialled_recorded n
        · rw [dialled_tcpCreate, dialled_recorded]
      rw [hnone]
      exact ⟨fun e he => absurd he List.not_mem_nil, by rintro conn ⟨⟩⟩
    · have hpermits : n.Permits task capId conn.addr conn.port :=
        permits_of_checkOutbound hallow hresolve
      have hdialled := dialled_tcpConnect hconnect
      rw [dialled_tcpCreate, dialled_recorded, List.nil_append] at hdialled
      rcases hdialled with hone | ⟨hne, hnone⟩
      · rw [hone]
        refine ⟨fun e he => ?_, fun conn' hconn' => ?_⟩
        · obtain rfl := List.mem_singleton.mp he
          exact hpermits
        · rw [(hok conn' hconn').1]
      · rw [hnone]
        exact ⟨fun e he => absurd he List.not_mem_nil,
          fun conn' hconn' => absurd (hok conn' hconn').2 hne⟩
  · intro n' hconnect
    rw [← n.forget_recorded, tcpConnect_recording] at hconnect
    obtain ⟨⟨answer, m⟩, hm, heq⟩ := Option.map_eq_some_iff.mp hconnect
    obtain ⟨rfl, hforget⟩ := Prod.mk.inj heq
    refine ⟨m, hm, hforget, ?_⟩
    rcases dialled_tcpConnect hm with hone | ⟨hne, -⟩
    · rwa [dialled_recorded, List.nil_append] at hone
    · exact absurd rfl hne

/-! ## Runs -/

/-- A TCP library as smoltcp behaves: a socket that is not open connects to any endpoint with an
address and a port. -/
def smolStack : TcpStack Unit (List (Option (IpEndpoint × UInt16))) where
  add sockets := (sockets.length, sockets ++ [none])
  connect _ sockets handle remote localPort :=
    sockets[handle]?.map fun socket =>
      if socket.isSome ∨ remote.addr = ⟨0, 0, 0, 0⟩ ∨ remote.port = 0 then (false, (), sockets)
      else (true, (), sockets.set handle (some (remote, localPort)))

/-- The network stack once it is up, one task holding a capability for the web server on the same
machine, and a fresh socket. -/
def webClient : Net Unit (List (Option (IpEndpoint × UInt16))) where
  caps := (CapabilityTable.new.createRoot 1 (.network "localhost" 80) .connect).2
  resolver := some .new
  interface := some ()
  sockets := some [none]
  nextLocalPort := 49152

/-- Fetching a page from the web server dials one endpoint, within the capability. -/
theorem connections_confined_webClient :
    ∃ m, webClient.recorded.openConnection smolStack.recording "http://localhost/index" 1 1 =
        some (.ok ⟨1, "localhost", 80, "/index", ⟨127, 0, 0, 1⟩⟩, m) ∧
      m.dialled = [⟨⟨127, 0, 0, 1⟩, 80⟩] ∧ webClient.Permits 1 1 ⟨127, 0, 0, 1⟩ 80 := by
  have hopen : (webClient.openConnection smolStack "http://localhost/index" 1 1).map Prod.fst =
      some (.ok ⟨1, "localhost", 80, "/index", ⟨127, 0, 0, 1⟩⟩) := by
    decide +kernel
  obtain ⟨⟨answer, n'⟩, hn', rfl⟩ := Option.map_eq_some_iff.mp hopen
  obtain ⟨hconfined, -⟩ := connections_confined smolStack webClient 1 1
  obtain ⟨m, hm, -, hpermits, hdialled⟩ := hconfined _ _ _ hn'
  have hone := hdialled _ rfl
  exact ⟨m, hm, hone, hpermits ⟨⟨127, 0, 0, 1⟩, 80⟩ (hone ▸ List.mem_singleton_self _)⟩

/-- With the same capability the task opens a connection to another machine on another port: an
endpoint that the firewall denies under every name. -/
theorem sshThroughHttpCapability :
    CapabilityTable.system.Reachable webClient.caps ∧
    ∃ n', webClient.tcpConnect smolStack 0 ⟨10, 0, 2, 2⟩ 22 1 1 = some (.ok (), n') ∧
      ¬ webClient.Permits 1 1 ⟨10, 0, 2, 2⟩ 22 ∧
      ∀ host, checkOutbound webClient.caps 1 1 host 22 ≠ .allow := by
  have hslot : webClient.caps.slot 1 =
      some ⟨1, .network "localhost" 80, .connect, 1, none, false⟩ := by decide
  have hport : ¬ ((80 : UInt16) = 0 ∨ (80 : UInt16) = 22) := by decide
  refine ⟨?_, _, rfl, ?_, ?_⟩
  · exact TransitionSystem.reachable_ofFun_iff.mpr
      ⟨[.createRoot 1 (.network "localhost" 80) .connect], rfl⟩
  · rintro ⟨cap, hcap, -, -, -, host, rport, hresource, hrport, -⟩
    obtain rfl := Option.some.inj (hslot.symm.trans hcap)
    obtain ⟨-, rfl⟩ := ResourceRef.network.inj hresource
    exact hport hrport
  · intro host hallow
    obtain ⟨cap, hvalid, hadmits⟩ := checkOutbound_eq_allow.mp hallow
    obtain rfl := Option.some.inj (hslot.symm.trans (CapabilityTable.validate_eq_ok.mp hvalid).1)
    exact hport hadmits.2

end Net

end OxideOS
