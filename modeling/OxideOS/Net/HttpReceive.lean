import OxideOS.Net.Socket
import Mathlib.Data.List.Basic

/-!
# Receiving an HTTP response

`http::get` and `http::post` receive in the same loop: they poll the network, read what has arrived,
and go on until the connection is closed or the deadline has passed.  They also stop when a read
returns no bytes, and a read returns none whenever everything that has arrived was read before.

A response arrives in parts, one with each poll, and the peer closes the connection with the last
of them.  Any part may be empty, and may be longer than what a turn of the loop reads.

## Main definitions

* `Http.receiveLoop`: the loop, over what its turns find
* `Http.Arrival`: how a response arrives
* `Http.received`: what the loop collects of it
* `Http.unread`: how many bytes wait in the socket after some parts

## Main results

* `Http.receiveLoop_nothing`, `Http.receiveLoop_read`: a turn of the loop
* `Http.receiveLoop_closing`: what the loop collects once the connection is closed
* `Http.received_eq_sent_iff`: when the loop collects the whole response
-/

namespace OxideOS

namespace Http

/-- What a turn of the loop finds: the bytes that the poll delivers, whether the peer has closed the
connection by then, and whether the clock is past the deadline at the end of the turn. -/
structure Turn where
  bytes : List UInt8
  closed : Bool
  late : Bool
deriving DecidableEq, Repr

namespace Turn

/-- `stack::poll`, as far as the socket is concerned. -/
def poll (turn : Turn) (socket : TcpSocket) : TcpSocket :=
  { socket with
    rxBuffer := socket.rxBuffer ++ turn.bytes
    remoteOpen := socket.remoteOpen && !turn.closed }

end Turn

/-- The size of the buffer that the loop reads into. -/
def receiveBufferSize : Nat := 4096

/-- The receive loop of `http::get` and `http::post`: the bytes collected, or `none` if the loop
goes on after the last turn. -/
def receiveLoop : List Turn → Option TcpSocket → List UInt8 → Option (List UInt8)
  | [], _, _ => none
  | turn :: turns, sockets, response =>
    match tcpReceive (sockets.map turn.poll) receiveBufferSize with
    -- a read of no bytes is taken for the end of the stream
    | (.ok [], _) => some response
    | (.ok bytes, sockets) =>
      if turn.late then some (response ++ bytes)
      else receiveLoop turns sockets (response ++ bytes)
    | (.error .notConnected, _) => some response
    | (.error _, sockets) =>
      if turn.late then some response else receiveLoop turns sockets response

/-! ## One turn -/

variable {turn : Turn} {rest : List Turn} {socket : TcpSocket} {response : List UInt8}

/-- A turn that finds nothing to read ends the loop, whether or not the connection is closed. -/
theorem receiveLoop_nothing (h : socket.rxBuffer ++ turn.bytes = []) :
    receiveLoop (turn :: rest) (some socket) response = some response := by
  cases hopen : socket.remoteOpen && !turn.closed with
  | true =>
    simp [receiveLoop, tcpReceive, Turn.poll, TcpSocket.mayRecv, TcpSocket.recvSlice, h, hopen]
  | false => simp [receiveLoop, tcpReceive, Turn.poll, TcpSocket.mayRecv, h, hopen]

/-- A turn that finds something reads as much as its buffer takes. -/
theorem receiveLoop_read (h : socket.rxBuffer ++ turn.bytes ≠ []) :
    receiveLoop (turn :: rest) (some socket) response =
      if turn.late then
        some (response ++ (socket.rxBuffer ++ turn.bytes).take receiveBufferSize)
      else receiveLoop rest (some ((turn.poll socket).recvSlice receiveBufferSize).2)
        (response ++ (socket.rxBuffer ++ turn.bytes).take receiveBufferSize) := by
  have hmay : (turn.poll socket).mayRecv = true := by
    rw [TcpSocket.mayRecv, Turn.poll, List.isEmpty_eq_false_iff.mpr h]
    exact Bool.or_true _
  have hreceive : tcpReceive ((some socket).map turn.poll) receiveBufferSize =
      (.ok ((socket.rxBuffer ++ turn.bytes).take receiveBufferSize),
        some ((turn.poll socket).recvSlice receiveBufferSize).2) := by
    simp only [Option.map_some, tcpReceive, hmay]
    rfl
  rw [receiveLoop, hreceive]
  cases htake : (socket.rxBuffer ++ turn.bytes).take receiveBufferSize with
  | nil =>
    rcases List.take_eq_nil_iff.mp htake with hsize | hnil
    · cases hsize
    · exact absurd hnil h
  | cons b bs => rfl

/-! ## The arrival of a response -/

/-- How a response arrives before the deadline: the parts that polls deliver while the connection is
open, the part that comes with the close, and how many turns still end in time from then on. -/
structure Arrival where
  parts : List (List UInt8)
  last : List UInt8
  inTime : Nat

/-- The turns from the close on, with what the first of them finds.  After the ones that end in time
there is one that does not, and the loop ends with it. -/
def closingTurns (bytes : List UInt8) : Nat → List Turn
  | 0 => [⟨bytes, true, true⟩]
  | n + 1 => ⟨bytes, true, false⟩ :: closingTurns [] n

/-- The turn that finds a part while the connection is open. -/
def openTurn (part : List UInt8) : Turn := ⟨part, false, false⟩

namespace Arrival

variable (arrival : Arrival)

/-- What the peer sends. -/
def sent : List UInt8 := arrival.parts.flatten ++ arrival.last

/-- The turns of the loop. -/
def turns : List Turn :=
  arrival.parts.map openTurn ++ closingTurns arrival.last arrival.inTime

end Arrival

/-- What the loop collects of a response. -/
def received (socket : TcpSocket) (arrival : Arrival) : Option (List UInt8) :=
  receiveLoop arrival.turns (some socket) []

/-- How many bytes wait in the socket after some parts have arrived, if every turn reads what its
buffer takes. -/
def unread (waiting : Nat) (parts : List (List UInt8)) : Nat :=
  parts.foldl (fun n part => n + part.length - receiveBufferSize) waiting

/-- Once a poll delivers nothing and nothing waits in the socket, no more bytes arrive. -/
def NeverIdle (waiting : Nat) (parts : List (List UInt8)) (last : List UInt8) : Prop :=
  ∀ before after, parts = before ++ [] :: after → unread waiting before = 0 →
    after.flatten ++ last = []

variable {waiting : Nat} {part last : List UInt8} {parts : List (List UInt8)}

theorem unread_cons :
    unread waiting (part :: parts) =
      unread (waiting + part.length - receiveBufferSize) parts :=
  List.foldl_cons

theorem unread_eq_zero (h : ∀ part ∈ parts, part.length ≤ receiveBufferSize) :
    unread 0 parts = 0 := by
  induction parts with
  | nil => rfl
  | cons part parts ih =>
    have hpart : 0 + part.length - receiveBufferSize = 0 := by
      have := h part List.mem_cons_self
      omega
    rw [unread_cons, hpart]
    exact ih fun part hmem => h part (List.mem_cons_of_mem _ hmem)

theorem neverIdle_cons :
    NeverIdle waiting (part :: parts) last ↔
      (part = [] → waiting = 0 → parts.flatten ++ last = []) ∧
        NeverIdle (waiting + part.length - receiveBufferSize) parts last := by
  constructor
  · intro h
    refine ⟨?_, fun before after hparts hunread => ?_⟩
    · rintro rfl hwaiting
      exact h [] parts rfl hwaiting
    · rw [← unread_cons] at hunread
      exact h (part :: before) after (congrArg _ hparts) hunread
  · rintro ⟨hfirst, hrest⟩ before after hparts hunread
    cases before with
    | nil =>
      obtain ⟨hpart, rfl⟩ := List.cons.inj hparts
      exact hfirst hpart hunread
    | cons first before =>
      obtain ⟨rfl, htail⟩ := List.cons.inj hparts
      rw [unread_cons] at hunread
      exact hrest before after htail hunread

theorem neverIdle_of_eq_nil (h : parts.flatten ++ last = []) : NeverIdle waiting parts last := by
  rintro before after rfl -
  rw [List.flatten_append, List.append_assoc, List.flatten_cons, List.nil_append] at h
  exact (List.append_eq_nil_iff.mp h).2

/-- Where a turn finds nothing to read, the response is whole exactly when nothing is to come. -/
theorem neverIdle_nil_cons_iff (n : Nat) :
    NeverIdle 0 ([] :: parts) last ∧
        unread 0 ([] :: parts) + last.length ≤ receiveBufferSize * (n + 1) ↔
      parts.flatten ++ last = [] := by
  rw [neverIdle_cons]
  refine ⟨fun h => h.1.1 rfl rfl, fun hall => ?_⟩
  obtain ⟨hparts, rfl⟩ := List.append_eq_nil_iff.mp hall
  refine ⟨⟨fun _ _ => hall, neverIdle_of_eq_nil hall⟩, ?_⟩
  have hunread : unread 0 ([] :: parts) = 0 := unread_eq_zero fun part hmem => by
    rcases List.mem_cons.mp hmem with rfl | hmem
    · exact Nat.zero_le _
    · rw [List.flatten_eq_nil_iff.mp hparts part hmem]
      exact Nat.zero_le _
  exact hunread.le.trans (Nat.zero_le _)

/-- Parts that fit in the buffer do not wait, so the loop may find nothing to read at any part that
is empty. -/
theorem neverIdle_iff_pairwise (h : ∀ part ∈ parts, part.length ≤ receiveBufferSize) :
    NeverIdle 0 parts last ↔
      (parts ++ [last]).Pairwise fun part later => part = [] → later = [] := by
  induction parts with
  | nil =>
    refine iff_of_true ?_ (List.pairwise_singleton _ _)
    intro before after hparts
    simp at hparts
  | cons part parts ih =>
    have hpart : 0 + part.length - receiveBufferSize = 0 := by
      have := h part List.mem_cons_self
      omega
    have hnothing : parts.flatten ++ last = [] ↔ ∀ later ∈ parts ++ [last], later = [] := by
      rw [List.append_eq_nil_iff, List.flatten_eq_nil_iff, List.forall_mem_append,
        List.forall_mem_singleton]
    rw [neverIdle_cons, hpart, ih fun part hmem => h part (List.mem_cons_of_mem _ hmem),
      List.cons_append, List.pairwise_cons, hnothing]
    refine and_congr_left fun _ => ?_
    constructor
    · exact fun hall later hmem hnil => hall hnil rfl later hmem
    · exact fun hall hnil _ later hmem => hall later hmem hnil

/-- Once the connection is closed, the loop collects what the turns that are left have room for. -/
theorem receiveLoop_closing (n : Nat) (bytes : List UInt8) (socket : TcpSocket)
    (response : List UInt8) :
    receiveLoop (closingTurns bytes n) (some socket) response =
      some (response ++ (socket.rxBuffer ++ bytes).take (receiveBufferSize * (n + 1))) := by
  induction n generalizing bytes socket response with
  | zero =>
    by_cases hnil : socket.rxBuffer ++ bytes = []
    · rw [closingTurns, receiveLoop_nothing hnil, hnil, List.take_nil, List.append_nil]
    · rw [closingTurns, receiveLoop_read hnil]
      rfl
  | succ n ih =>
    by_cases hnil : socket.rxBuffer ++ bytes = []
    · rw [closingTurns, receiveLoop_nothing hnil, hnil, List.take_nil, List.append_nil]
    · rw [closingTurns, receiveLoop_read hnil, if_neg Bool.false_ne_true, ih, List.append_nil,
        List.append_assoc, Nat.mul_succ receiveBufferSize (n + 1),
        Nat.add_comm _ receiveBufferSize, List.take_add]
      rfl

/-- **What the loop collects**: it ends, with an initial part of what was waiting and what the peer
sends.  That is all of it exactly when the loop never finds nothing to read too early, and what
waits at the close can be read in time. -/
theorem receiveLoop_spec (n : Nat) (last : List UInt8) (parts : List (List UInt8))
    (socket : TcpSocket) (response : List UInt8) :
    ∃ collected,
      receiveLoop (parts.map openTurn ++ closingTurns last n) (some socket) response =
        some (response ++ collected) ∧
      collected <+: socket.rxBuffer ++ (parts.flatten ++ last) ∧
      (collected = socket.rxBuffer ++ (parts.flatten ++ last) ↔
        NeverIdle socket.rxBuffer.length parts last ∧
          unread socket.rxBuffer.length parts + last.length ≤ receiveBufferSize * (n + 1)) := by
  induction parts generalizing socket response with
  | nil =>
    refine ⟨_, receiveLoop_closing n last socket response, List.take_prefix _ _, ?_⟩
    rw [List.flatten_nil, List.nil_append, List.take_eq_self_iff, List.length_append]
    exact (and_iff_right fun before after hparts => by simp at hparts).symm
  | cons part parts ih =>
    rw [List.map_cons, List.cons_append, List.flatten_cons, List.append_assoc]
    by_cases hnil : socket.rxBuffer ++ part = []
    · obtain ⟨hbuffer, rfl⟩ := List.append_eq_nil_iff.mp hnil
      refine ⟨[], ?_, List.nil_prefix, ?_⟩
      · rw [receiveLoop_nothing hnil, List.append_nil]
      · rw [hbuffer, List.nil_append, List.nil_append, eq_comm]
        exact (neverIdle_nil_cons_iff n).symm
    · have hdata : socket.rxBuffer ++ (part ++ (parts.flatten ++ last)) =
          (socket.rxBuffer ++ part).take receiveBufferSize ++
            ((socket.rxBuffer ++ part).drop receiveBufferSize ++ (parts.flatten ++ last)) := by
        rw [← List.append_assoc, ← List.append_assoc (List.take _ _), List.take_append_drop]
      have hleft : ((socket.rxBuffer ++ part).drop receiveBufferSize).length =
          socket.rxBuffer.length + part.length - receiveBufferSize := by
        rw [List.length_drop, List.length_append]
      obtain ⟨collected, hloop, hinitial, hiff⟩ :=
        ih (((openTurn part).poll socket).recvSlice receiveBufferSize).2
          (response ++ (socket.rxBuffer ++ part).take receiveBufferSize)
      have hbusy : part = [] → socket.rxBuffer.length = 0 → parts.flatten ++ last = [] :=
        fun hpart hwaiting => absurd
          (List.append_eq_nil_iff.mpr ⟨List.length_eq_zero_iff.mp hwaiting, hpart⟩) hnil
      refine ⟨(socket.rxBuffer ++ part).take receiveBufferSize ++ collected, ?_, ?_, ?_⟩
      · rw [receiveLoop_read hnil, ← List.append_assoc]
        exact hloop
      · rw [hdata]
        exact (List.prefix_append_right_inj _).mpr hinitial
      · rw [hdata, List.append_right_inj, neverIdle_cons, and_iff_right hbusy, unread_cons, ← hleft]
        exact hiff

/-- **When the whole response is collected.**  However a response arrives before the deadline, the
loop ends with an initial part of what is sent.  That is all of it exactly when no byte arrives
after a turn that finds nothing to read, and what waits at the close can be read in time.  If every
part fits in the buffer of the socket, nothing ever waits: then no byte may arrive after a poll that
has delivered none. -/
theorem received_eq_sent_iff (socket : TcpSocket) (arrival : Arrival) :
    (∃ collected, received socket arrival = some collected ∧
        collected <+: socket.rxBuffer ++ arrival.sent) ∧
      (received socket arrival = some (socket.rxBuffer ++ arrival.sent) ↔
        NeverIdle socket.rxBuffer.length arrival.parts arrival.last ∧
          unread socket.rxBuffer.length arrival.parts + arrival.last.length ≤
            receiveBufferSize * (arrival.inTime + 1)) ∧
      (socket.rxBuffer = [] →
        (∀ part ∈ arrival.parts ++ [arrival.last], part.length ≤ socketBufferSize) →
        (received socket arrival = some arrival.sent ↔ (arrival.parts ++ [arrival.last]).Pairwise
          fun part later => part = [] → later = [])) := by
  obtain ⟨collected, hloop, hinitial, hiff⟩ :=
    receiveLoop_spec arrival.inTime arrival.last arrival.parts socket []
  have hreceived : received socket arrival = some collected := hloop
  rw [← Option.some_inj, ← hreceived] at hiff
  refine ⟨⟨collected, hreceived, hinitial⟩, hiff, fun hempty hfits => ?_⟩
  obtain ⟨hparts, hlast⟩ := List.forall_mem_append.mp hfits
  have hunread : unread 0 arrival.parts + arrival.last.length ≤
      receiveBufferSize * (arrival.inTime + 1) := by
    rw [unread_eq_zero hparts, Nat.zero_add]
    exact (hlast _ (List.mem_singleton_self _)).trans (Nat.le_mul_of_pos_right _ (Nat.succ_pos _))
  rw [hempty, List.nil_append, List.length_nil, and_iff_left hunread,
    neverIdle_iff_pairwise hparts] at hiff
  exact hiff

/-- A response of two parts, the second of which comes with the close. -/
theorem received_eq_sent_twoParts :
    received .connected ⟨[[0x48, 0x54]], [0x54, 0x50], 0⟩ = some [0x48, 0x54, 0x54, 0x50] :=
  ((received_eq_sent_iff .connected ⟨[[0x48, 0x54]], [0x54, 0x50], 0⟩).2.2 rfl (by decide)).mpr
    (by decide)

/-- The first poll delivers nothing, the second the whole response with the close: nothing is
collected. -/
theorem received_nothing :
    received .connected ⟨[[]], [0x48, 0x54, 0x54, 0x50], 1⟩ = some [] := by
  decide

end Http

end OxideOS
