import OxideOS.Net.Firewall

/-!
# Sockets and name resolution

`tcp_connect` checks that the caller holds the capability with the right to connect, takes the next
ephemeral port and asks the TCP library for a connection. The library is a parameter: what it does
with a socket set is not part of the kernel. Names are resolved in a cache that starts with
`localhost`.

Data goes through the two buffers of a socket. Sending enqueues what there is room for and tells how
much that was; receiving copies what has arrived, and that may be nothing.

## Main definitions

* `DnsResolver`, `TcpStack`, `Net`
* `Net.resolve`, `Net.tcpCreate`, `Net.tcpConnect`
* `TcpStack.recording`: the library with a record of the endpoints it was asked to connect to
* `TcpSocket`, `tcpSend`, `tcpReceive`: sending and receiving on a connected socket

## Main results

* `Net.tcpConnect_eq_ok`: when a connection is opened
* `Net.tcpConnect_recording`, `Net.dialled_tcpConnect`: the record changes nothing, and holds the
  endpoint of the call
* `tcpSend_eq_ok`: how much of what is sent is accepted
-/

namespace OxideOS

/-- `smoltcp::wire::Ipv4Address`. -/
structure Ipv4Address where
  a : UInt8
  b : UInt8
  c : UInt8
  d : UInt8
deriving DecidableEq, Repr

/-- `smoltcp::wire::IpEndpoint`. -/
structure IpEndpoint where
  addr : Ipv4Address
  port : UInt16
deriving DecidableEq, Repr

/-- `dns::DnsResolver`. -/
structure DnsResolver where
  cache : BTreeMap String Ipv4Address

namespace DnsResolver

/-- `DnsResolver::new`. -/
def new : DnsResolver := ⟨Std.ExtTreeMap.empty.insert "localhost" ⟨127, 0, 0, 1⟩⟩

/-- `DnsResolver::resolve`. -/
def resolve (r : DnsResolver) (hostname : String) : Option Ipv4Address := r.cache[hostname]?

end DnsResolver

/-- `socket::SocketError`. -/
inductive SocketError
  | connectionFailed
  | notConnected
  | sendFailed
  | receiveFailed
  | capabilityDenied
deriving DecidableEq, Repr

/-- `smoltcp::iface::SocketHandle`. -/
abbrev SocketHandle := Nat

/-- What the kernel asks of smoltcp, over interfaces `ι` and socket sets `σ`. -/
structure TcpStack (ι σ : Type) where
  /-- `SocketSet::add` of a new TCP socket. -/
  add : σ → SocketHandle × σ
  /-- `SocketSet::get_mut`, then `tcp::Socket::connect` from a local port: whether the connection
  is started. `none` is the panic on a handle that the set does not have. -/
  connect : ι → σ → SocketHandle → IpEndpoint → UInt16 → Option (Bool × ι × σ)

/-- The globals behind a connection: `CAP_TABLE`, `RESOLVER`, `INTERFACE`, `SOCKETS` and
`NEXT_LOCAL_PORT`. -/
structure Net (ι σ : Type) where
  caps : CapabilityTable
  resolver : Option DnsResolver
  interface : Option ι
  sockets : Option σ
  nextLocalPort : UInt16

/-- The local port for a value of the counter. -/
def ephemeralPort (raw : UInt16) : UInt16 := 49152 + raw % (65535 - 49152 + 1)

namespace Net

variable {ι σ : Type}

/-- `dns::resolve`. -/
def resolve (n : Net ι σ) (hostname : String) : Option Ipv4Address :=
  n.resolver.bind fun r => r.resolve hostname

/-- `socket::tcp_create`. -/
def tcpCreate (stack : TcpStack ι σ) (n : Net ι σ) : Option SocketHandle × Net ι σ :=
  match n.sockets with
  | none => (none, n)
  | some sockets =>
    let (handle, sockets) := stack.add sockets
    (some handle, { n with sockets := some sockets })

/-- `socket::tcp_connect`. `none` is the panic of the library on an unknown handle. -/
def tcpConnect (stack : TcpStack ι σ) (n : Net ι σ) (handle : SocketHandle)
    (remoteAddr : Ipv4Address) (remotePort : UInt16) (taskId : TaskId) (netCap : CapId) :
    Option (Except SocketError Unit × Net ι σ) :=
  match n.caps.validate netCap taskId .connect with
  | .error _ => some (.error .capabilityDenied, n)
  | .ok _ =>
    match n.interface, n.sockets with
    | some iface, some sockets => do
      let (connected, iface, sockets) ←
        stack.connect iface sockets handle ⟨remoteAddr, remotePort⟩
          (ephemeralPort n.nextLocalPort)
      -- the port is taken from the counter whether or not the connection is started
      let n := { n with
        interface := some iface, sockets := some sockets, nextLocalPort := n.nextLocalPort + 1 }
      return (if connected then .ok () else .error .connectionFailed, n)
    | _, _ => some (.error .connectionFailed, n)

variable {stack : TcpStack ι σ} {n n' : Net ι σ} {handle : SocketHandle} {addr : Ipv4Address}
  {port : UInt16} {task : TaskId} {capId : CapId}

/-- The library accepts the connection. -/
def Starts (stack : TcpStack ι σ) (n : Net ι σ) (handle : SocketHandle) (addr : Ipv4Address)
    (port : UInt16) : Prop :=
  ∃ iface sockets answer, n.interface = some iface ∧ n.sockets = some sockets ∧
    stack.connect iface sockets handle ⟨addr, port⟩ (ephemeralPort n.nextLocalPort) =
      some (true, answer)

/-- A connection is opened when the capability is the caller's, with the right to connect, and the
library starts it; the resource of the capability plays no part. -/
theorem tcpConnect_eq_ok :
    (∃ n', n.tcpConnect stack handle addr port task capId = some (.ok (), n')) ↔
      (∃ cap, n.caps.validate capId task .connect = .ok cap) ∧
        Starts stack n handle addr port := by
  unfold tcpConnect Starts
  cases n.caps.validate capId task .connect with
  | error e => simp
  | ok cap =>
    cases n.interface with
    | none => simp
    | some iface =>
      cases n.sockets with
      | none => simp
      | some sockets =>
        cases hconnect :
          stack.connect iface sockets handle ⟨addr, port⟩ (ephemeralPort n.nextLocalPort) with
        | none => simp [hconnect]
        | some answer =>
          obtain ⟨connected, iface', sockets'⟩ := answer
          cases connected with
          | false => simp [hconnect]
          | true => simp [hconnect]

end Net

/-! ## The endpoints that are dialled -/

/-- The library with a record of the endpoints that it was asked to connect to. -/
def TcpStack.recording {ι σ : Type} (stack : TcpStack ι σ) : TcpStack ι (σ × List IpEndpoint) where
  add s := ((stack.add s.1).1, (stack.add s.1).2, s.2)
  connect iface s handle remote localPort :=
    (stack.connect iface s.1 handle remote localPort).map fun answer =>
      (answer.1, answer.2.1, answer.2.2, s.2 ++ [remote])

namespace Net

variable {ι σ : Type}

/-- The state with an empty record. -/
def recorded (n : Net ι σ) : Net ι (σ × List IpEndpoint) where
  caps := n.caps
  resolver := n.resolver
  interface := n.interface
  sockets := n.sockets.map fun sockets => (sockets, [])
  nextLocalPort := n.nextLocalPort

/-- The state without the record. -/
def forget (m : Net ι (σ × List IpEndpoint)) : Net ι σ where
  caps := m.caps
  resolver := m.resolver
  interface := m.interface
  sockets := m.sockets.map Prod.fst
  nextLocalPort := m.nextLocalPort

/-- The record. -/
def dialled (m : Net ι (σ × List IpEndpoint)) : List IpEndpoint :=
  (m.sockets.map Prod.snd).getD []

variable {stack : TcpStack ι σ} {m m' : Net ι (σ × List IpEndpoint)} {handle : SocketHandle}
  {addr : Ipv4Address} {port : UInt16} {task : TaskId} {capId : CapId}

@[simp] theorem forget_recorded (n : Net ι σ) : n.recorded.forget = n := by
  cases n with
  | mk caps resolver interface sockets nextLocalPort =>
    cases sockets with
    | none => rfl
    | some sockets => rfl

@[simp] theorem dialled_recorded (n : Net ι σ) : n.recorded.dialled = [] := by
  cases hsockets : n.sockets with
  | none => simp [dialled, recorded, hsockets]
  | some sockets => simp [dialled, recorded, hsockets]

theorem tcpCreate_recording (stack : TcpStack ι σ) (m : Net ι (σ × List IpEndpoint)) :
    m.forget.tcpCreate stack =
      ((m.tcpCreate stack.recording).1, (m.tcpCreate stack.recording).2.forget) := by
  unfold tcpCreate
  cases hsockets : m.sockets with
  | none => simp [forget, hsockets]
  | some sockets => simp [forget, hsockets, TcpStack.recording]

theorem dialled_tcpCreate (stack : TcpStack ι σ) (m : Net ι (σ × List IpEndpoint)) :
    (m.tcpCreate stack.recording).2.dialled = m.dialled := by
  unfold tcpCreate
  cases hsockets : m.sockets with
  | none => rfl
  | some sockets => simp [dialled, hsockets, TcpStack.recording]

/-- The record changes nothing. -/
theorem tcpConnect_recording (m : Net ι (σ × List IpEndpoint)) :
    m.forget.tcpConnect stack handle addr port task capId =
      (m.tcpConnect stack.recording handle addr port task capId).map
        fun answer => (answer.1, answer.2.forget) := by
  unfold tcpConnect
  cases hvalid : m.caps.validate capId task .connect with
  | error e => simp [forget, hvalid]
  | ok cap =>
    cases hinterface : m.interface with
    | none => simp [forget, hvalid, hinterface]
    | some iface =>
      cases hsockets : m.sockets with
      | none => simp [forget, hvalid, hinterface, hsockets]
      | some sockets =>
        cases hconnect : stack.connect iface sockets.1 handle ⟨addr, port⟩
            (ephemeralPort m.nextLocalPort) with
        | none => simp [forget, hvalid, hinterface, hsockets, hconnect, TcpStack.recording]
        | some answer => simp [forget, hvalid, hinterface, hsockets, hconnect, TcpStack.recording]

/-- The endpoint that `tcp_connect` dials, if it gets as far as that, is the one it was called
with. -/
theorem dialled_tcpConnect {answer : Except SocketError Unit}
    (h : m.tcpConnect stack.recording handle addr port task capId = some (answer, m')) :
    m'.dialled = m.dialled ++ [⟨addr, port⟩] ∨ answer ≠ .ok () ∧ m'.dialled = m.dialled := by
  unfold tcpConnect at h
  split at h
  · cases h
    exact .inr ⟨by rintro ⟨⟩, rfl⟩
  split at h
  · next iface sockets _ hsockets =>
    obtain ⟨answer', hconnect, hanswer⟩ := Option.bind_eq_some_iff.mp h
    obtain ⟨answer'', -, rfl⟩ := Option.map_eq_some_iff.mp hconnect
    cases hanswer
    refine .inl ?_
    simp [dialled, hsockets]
  · cases h
    exact .inr ⟨by rintro ⟨⟩, rfl⟩

end Net

/-! ## Data -/

/-- The size of the two buffers that `tcp_create` gives a socket. -/
def socketBufferSize : Nat := 4096

/-- A connected socket of smoltcp, as far as data is concerned. -/
structure TcpSocket where
  /-- The connection still takes data. -/
  maySend : Bool
  /-- What waits for transmission. -/
  txBuffer : List UInt8
  /-- What has arrived and was not read. -/
  rxBuffer : List UInt8
  /-- The peer has not closed the connection. -/
  remoteOpen : Bool
deriving DecidableEq, Repr

namespace TcpSocket

/-- A connected socket with empty buffers. -/
def connected : TcpSocket := ⟨true, [], [], true⟩

/-- What the transmit buffer has room for. -/
def free (socket : TcpSocket) : Nat := socketBufferSize - socket.txBuffer.length

/-- `tcp::Socket::send_slice`: as many bytes as fit are enqueued. -/
def sendSlice (socket : TcpSocket) (data : List UInt8) : Nat × TcpSocket :=
  let accepted := min data.length socket.free
  (accepted, { socket with txBuffer := socket.txBuffer ++ data.take accepted })

/-- `tcp::Socket::may_recv`. -/
def mayRecv (socket : TcpSocket) : Bool := socket.remoteOpen || !socket.rxBuffer.isEmpty

/-- `tcp::Socket::recv_slice` into a buffer of a size: the bytes that are copied there. -/
def recvSlice (socket : TcpSocket) (size : Nat) : List UInt8 × TcpSocket :=
  (socket.rxBuffer.take size, { socket with rxBuffer := socket.rxBuffer.drop size })

end TcpSocket

/-- `socket::tcp_send`, on a socket of the set if there is one: how many bytes were accepted. -/
def tcpSend (sockets : Option TcpSocket) (data : List UInt8) :
    Except SocketError Nat × Option TcpSocket :=
  match sockets with
  | none => (.error .sendFailed, none)
  | some socket =>
    if !socket.maySend then (.error .notConnected, some socket)
    else
      let (accepted, socket) := socket.sendSlice data
      (.ok accepted, some socket)

/-- `socket::tcp_receive` into a buffer of a size: the bytes that are copied there. -/
def tcpReceive (sockets : Option TcpSocket) (size : Nat) :
    Except SocketError (List UInt8) × Option TcpSocket :=
  match sockets with
  | none => (.error .receiveFailed, none)
  | some socket =>
    if !socket.mayRecv then (.error .notConnected, some socket)
    else
      let (bytes, socket) := socket.recvSlice size
      (.ok bytes, some socket)

/-- `socket::tcp_close`: nothing more is sent. -/
def tcpClose (sockets : Option TcpSocket) : Option TcpSocket :=
  sockets.map fun socket => { socket with maySend := false }

/-- What a send that succeeds has accepted. -/
theorem tcpSend_eq_ok {sockets sockets' : Option TcpSocket} {data : List UInt8} {accepted : Nat}
    (h : tcpSend sockets data = (.ok accepted, sockets')) :
    ∃ socket, sockets = some socket ∧ accepted = min data.length socket.free ∧
      sockets' = some (socket.sendSlice data).2 := by
  cases sockets with
  | none => cases h
  | some socket =>
    rw [tcpSend] at h
    split at h
    · cases h
    · obtain ⟨haccepted, hsockets⟩ := Prod.mk.inj h
      exact ⟨socket, rfl, (Except.ok.inj haccepted).symm, hsockets.symm⟩

end OxideOS
