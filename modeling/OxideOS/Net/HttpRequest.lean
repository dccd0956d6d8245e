import OxideOS.Lib.Text
import OxideOS.Net.Http

/-!
# HTTP requests

What `http::get` and `http::post` write to the socket once they are connected.  The request text is
put together from the path and the host of the URL, which may hold any characters, line ends
included.  The two parts of a `POST` are handed to the socket by two calls, and of neither does the
code look at how many bytes were accepted.

## Main definitions

* `Http.getRequest`, `Http.postHead`: the request texts
* `Http.crlfLines`: a text, split at the line ends of HTTP
* `Http.postSend`: the send phase of `http::post`

## Main results

* `Http.getRequest_lines_iff`: when a request has the lines that were meant
* `Http.postSend_complete_iff`: when the whole of a `POST` is sent
-/

namespace OxideOS

namespace Http

/-- The request of `http::get`. -/
def getRequest (host path : String) : String :=
  "GET " ++ path ++ " HTTP/1.1\r\nHost: " ++ host ++ "\r\nConnection: close\r\n\r\n"

/-- The head of the request of `http::post`. -/
def postHead (host path : String) (length : Nat) : String :=
  "POST " ++ path ++ " HTTP/1.1\r\nHost: " ++ host ++
    "\r\nContent-Type: application/json\r\nContent-Length: " ++ toString length ++
    "\r\nConnection: close\r\n\r\n"

/-! ## Lines -/

/-- A line end of HTTP. -/
def crlf : List Char := ['\r', '\n']

/-- A text, split at CRLF. -/
def crlfLines (text : String) : List String :=
  (Text.cut '\r' '\n' text.toList).map String.ofList

/-- The text holds a line end. -/
def HasCrlf (text : String) : Prop := crlf <:+: text.toList

instance (text : String) : Decidable (HasCrlf text) := inferInstanceAs (Decidable (_ <:+: _))

theorem crlfLines_ne_nil (s : String) : crlfLines s ≠ [] :=
  mt List.map_eq_nil_iff.mp (Text.cut_ne_nil _)

theorem crlfLines_append (s t : String) :
    crlfLines (s ++ ("\r\n" ++ t)) = crlfLines s ++ crlfLines t := by
  have hpair : ("\r\n" ++ t).toList = '\r' :: '\n' :: t.toList := by
    rw [String.toList_append]
    rfl
  rw [crlfLines, String.toList_append, hpair, Text.cut_append (by decide), List.map_append]
  rfl

theorem crlfLines_eq_singleton_iff (s : String) : crlfLines s = [s] ↔ ¬HasCrlf s := by
  rw [HasCrlf, crlf, ← Text.cut_eq_singleton_iff (by decide), crlfLines]
  constructor
  · intro h
    obtain ⟨piece, hpiece, rfl⟩ := List.map_eq_singleton_iff.mp h
    rw [hpiece, String.toList_ofList]
  · intro h
    rw [h, List.map_singleton, String.ofList_toList]

/-- Where two texts meet, a line end needs both of its characters. -/
theorem hasCrlf_append_iff (s t : String) :
    HasCrlf (s ++ t) ↔
      HasCrlf s ∨ HasCrlf t ∨ ['\r'] <:+ s.toList ∧ ['\n'] <+: t.toList := by
  rw [HasCrlf, String.toList_append]
  exact Text.pair_infix_append_iff s.toList t.toList

/-- The request line has a line end exactly when the path does. -/
theorem hasCrlf_requestLine (path : String) :
    HasCrlf ("GET " ++ path ++ " HTTP/1.1") ↔ HasCrlf path := by
  have hmethod : ¬HasCrlf "GET " ∧ ¬['\r'] <:+ "GET ".toList := by decide
  have hversion : ¬HasCrlf " HTTP/1.1" ∧ ¬['\n'] <+: " HTTP/1.1".toList := by decide
  simp only [hasCrlf_append_iff, hmethod, hversion, false_or, false_and, or_false, and_false]

theorem hasCrlf_hostLine (host : String) : HasCrlf ("Host: " ++ host) ↔ HasCrlf host := by
  have hname : ¬HasCrlf "Host: " ∧ ¬['\r'] <:+ "Host: ".toList := by decide
  simp only [hasCrlf_append_iff, hname, false_or, false_and, or_false]

/-- The request is its request line and its header lines, with a line end behind each. -/
theorem getRequest_eq (host path : String) :
    getRequest host path =
      ("GET " ++ path ++ " HTTP/1.1") ++ ("\r\n" ++ (("Host: " ++ host) ++
        ("\r\n" ++ ("Connection: close" ++ ("\r\n" ++ ("" ++ ("\r\n" ++ ""))))))) := by
  have hhost : " HTTP/1.1\r\nHost: " = " HTTP/1.1" ++ ("\r\n" ++ "Host: ") := by decide
  have hclose : "\r\nConnection: close\r\n\r\n" =
      "\r\n" ++ ("Connection: close" ++ ("\r\n" ++ ("" ++ ("\r\n" ++ "")))) := by decide
  rw [getRequest, hhost, hclose]
  simp only [String.append_assoc]

theorem crlfLines_getRequest (host path : String) :
    crlfLines (getRequest host path) =
      crlfLines ("GET " ++ path ++ " HTTP/1.1") ++ (crlfLines ("Host: " ++ host) ++
        ["Connection: close", "", ""]) := by
  have hclose : crlfLines "Connection: close" = ["Connection: close"] := by decide
  have hblank : crlfLines "" = [""] := by decide
  rw [getRequest_eq, crlfLines_append, crlfLines_append, crlfLines_append, crlfLines_append,
    hclose, hblank]
  rfl

/-- The lines of two texts are the texts. -/
theorem append_append_eq_iff {xs ys zs : List String} {x y : String} (hxs : xs ≠ [])
    (hys : ys ≠ []) : xs ++ (ys ++ zs) = x :: y :: zs ↔ xs = [x] ∧ ys = [y] := by
  obtain ⟨x', xs', rfl⟩ := List.exists_cons_of_ne_nil hxs
  obtain ⟨y', ys', rfl⟩ := List.exists_cons_of_ne_nil hys
  constructor
  · intro h
    have hlength := congrArg List.length h
    simp only [List.length_append, List.length_cons] at hlength
    obtain rfl : xs' = [] := List.length_eq_zero_iff.mp (by omega)
    obtain rfl : ys' = [] := List.length_eq_zero_iff.mp (by omega)
    obtain ⟨rfl, hrest⟩ := List.cons.inj h
    obtain ⟨rfl, -⟩ := List.cons.inj hrest
    exact ⟨rfl, rfl⟩
  · rintro ⟨hx, hy⟩
    rw [hx, hy]
    rfl

/-! ## URLs -/

theorem splitAtChar_infix (c : Char) (cs : List Char) :
    (splitAtChar c cs).1 <:+: cs ∧ ∀ rest, (splitAtChar c cs).2 = some rest → rest <:+: cs := by
  rw [splitAtChar]
  split
  · next i _ =>
    have htake := List.take_prefix i cs
    refine ⟨htake.isInfix, fun rest hrest => ?_⟩
    rw [← Option.some.inj hrest]
    exact (List.drop_suffix i cs).isInfix
  · refine ⟨List.infix_rfl, fun rest hrest => ?_⟩
    cases hrest

theorem stripPrefix_infix {s pre rest : String} (h : stripPrefix s pre = some rest) :
    rest.toList <:+: s.toList := by
  rw [stripPrefix] at h
  split at h
  · rw [← Option.some.inj h, String.toList_ofList]
    exact (List.drop_suffix _ _).isInfix
  · cases h

/-- The host is a part of the URL, and so is the path unless the URL has none. -/
theorem parseUrl_infix {url host path : String} {port : UInt16}
    (h : parseUrl url = .ok (host, port, path)) :
    host.toList <:+: url.toList ∧ (path.toList <:+: url.toList ∨ path = "/") := by
  rw [parseUrl] at h
  generalize hrest : (stripPrefix url "https://" <|> stripPrefix url "http://").getD url = rest
    at h
  have hstripped : rest.toList <:+: url.toList := by
    cases hhttps : stripPrefix url "https://" with
    | some stripped =>
      rw [hhttps] at hrest
      exact hrest ▸ stripPrefix_infix hhttps
    | none =>
      cases hhttp : stripPrefix url "http://" with
      | some stripped =>
        rw [hhttps, hhttp] at hrest
        exact hrest ▸ stripPrefix_infix hhttp
      | none =>
        rw [hhttps, hhttp] at hrest
        exact hrest ▸ List.infix_rfl
  have hparts : String.ofList (splitAtChar ':' (splitAtChar '/' rest.toList).1).1 = host ∧
      String.ofList ((splitAtChar '/' rest.toList).2.getD ['/']) = path := by
    rcases hslash : splitAtChar '/' rest.toList with ⟨hostPort, _ | slash⟩ <;>
      rcases hcolon : splitAtChar ':' hostPort with ⟨name, _ | colon⟩ <;>
      simp only [hslash, hcolon, Except.ok.injEq, Prod.mk.injEq] at h ⊢ <;>
      exact ⟨h.1, h.2.2⟩
  obtain ⟨rfl, rfl⟩ := hparts
  have hslash := splitAtChar_infix '/' rest.toList
  have hcolon := splitAtChar_infix ':' (splitAtChar '/' rest.toList).1
  rw [String.toList_ofList, String.toList_ofList]
  refine ⟨(hcolon.1.trans hslash.1).trans hstripped, ?_⟩
  cases hpath : (splitAtChar '/' rest.toList).2 with
  | none => exact .inr rfl
  | some path => exact .inl ((hslash.2 path hpath).trans hstripped)

/-- **When a request has the lines that were meant.**  The request for a URL consists of its request
line, its two header lines and the blank line exactly when neither the path nor the host holds a
line end, whatever the firewall has allowed; a URL without line ends has such a path and host. -/
theorem getRequest_lines_iff {url host path : String} {port : UInt16}
    (h : parseUrl url = .ok (host, port, path)) :
    (crlfLines (getRequest host path) =
        ["GET " ++ path ++ " HTTP/1.1", "Host: " ++ host, "Connection: close", "", ""] ↔
      ¬HasCrlf path ∧ ¬HasCrlf host) ∧
      (¬HasCrlf url → ¬HasCrlf path ∧ ¬HasCrlf host) := by
  constructor
  · rw [crlfLines_getRequest, append_append_eq_iff (crlfLines_ne_nil _) (crlfLines_ne_nil _),
      crlfLines_eq_singleton_iff, crlfLines_eq_singleton_iff, hasCrlf_requestLine,
      hasCrlf_hostLine]
  · intro hurl
    obtain ⟨hhost, hpath⟩ := parseUrl_infix h
    refine ⟨?_, fun hcrlf => hurl (hcrlf.trans hhost)⟩
    rcases hpath with hpath | rfl
    · exact fun hcrlf => hurl (hcrlf.trans hpath)
    · decide

theorem getRequest_lines_localhost :
    crlfLines (getRequest "localhost" "/index") =
      ["GET /index HTTP/1.1", "Host: localhost", "Connection: close", "", ""] := by
  have hparse : parseUrl "http://localhost/index" = .ok ("localhost", 80, "/index") := by
    decide +kernel
  exact (getRequest_lines_iff hparse).1.mpr (by decide)

/-- A URL with line ends in its path, for an endpoint that the firewall allows: the request has two
more header lines. -/
theorem getRequest_injected :
    parseUrl "http://localhost/ HTTP/1.1\r\nX-Role: admin\r\nX-Rest:" =
        .ok ("localhost", 80, "/ HTTP/1.1\r\nX-Role: admin\r\nX-Rest:") ∧
      checkOutbound Net.webClient.caps 1 1 "localhost" 80 = .allow ∧
      crlfLines (getRequest "localhost" "/ HTTP/1.1\r\nX-Role: admin\r\nX-Rest:") =
        ["GET / HTTP/1.1", "X-Role: admin", "X-Rest: HTTP/1.1", "Host: localhost",
          "Connection: close", "", ""] := by
  refine ⟨by decide +kernel, by decide +kernel, ?_⟩
  rw [crlfLines_getRequest]
  decide +kernel

/-! ## Sending -/

/-- `String::as_bytes`. -/
def asBytes (s : String) : List UInt8 := s.toUTF8.data.toList

/-- The head of the request for a body. -/
def postHeadBytes (host path : String) (body : List UInt8) : List UInt8 :=
  asBytes (postHead host path body.length)

/-- The send phase of `http::post`: how much of the head and of the body was accepted.  What the
network does to the socket between the two calls is a parameter. -/
def postSend (between : TcpSocket → TcpSocket) (sockets : Option TcpSocket) (host path : String)
    (body : List UInt8) : Except HttpError (Nat × Nat) × Option TcpSocket :=
  match tcpSend sockets (postHeadBytes host path body) with
  -- an error closes the socket; how much was accepted is not looked at
  | (.error _, sockets) => (.error .sendFailed, tcpClose sockets)
  | (.ok headSent, sockets) =>
    match tcpSend (sockets.map between) body with
    | (.error _, sockets) => (.error .sendFailed, tcpClose sockets)
    | (.ok bodySent, sockets) => (.ok (headSent, bodySent), sockets)

/-- Two lists are taken whole exactly when there is room for each of them. -/
theorem take_append_take_eq_iff (xs ys : List UInt8) (m n : Nat) :
    xs.take (min xs.length m) ++ ys.take (min ys.length n) = xs ++ ys ↔
      xs.length ≤ m ∧ ys.length ≤ n := by
  constructor
  · intro heq
    have hlength := congrArg List.length heq
    simp only [List.length_append, List.length_take] at hlength
    omega
  · rintro ⟨hm, hn⟩
    rw [Nat.min_eq_left hm, Nat.min_eq_left hn, List.take_length, List.take_length]

variable {between : TcpSocket → TcpSocket} {sockets sockets' : Option TcpSocket}
  {host path : String} {body : List UInt8} {headSent bodySent : Nat}

/-- What was accepted of the two parts, given the room for each of them. -/
theorem postSend_eq_ok
    (h : postSend between sockets host path body = (.ok (headSent, bodySent), sockets')) :
    ∃ socket, sockets = some socket ∧
      headSent = min (postHeadBytes host path body).length socket.free ∧
      bodySent = min body.length
        (between (socket.sendSlice (postHeadBytes host path body)).2).free := by
  rw [postSend] at h
  split at h
  · cases h
  · next _ sent hhead =>
    obtain ⟨socket, rfl, rfl, rfl⟩ := tcpSend_eq_ok hhead
    split at h
    · cases h
    · next hbody =>
      obtain ⟨_, hsocket, rfl, -⟩ := tcpSend_eq_ok hbody
      obtain rfl := Option.some.inj hsocket
      obtain ⟨hsent, -⟩ := Prod.mk.inj h
      obtain ⟨rfl, rfl⟩ := Prod.mk.inj (Except.ok.inj hsent)
      exact ⟨socket, rfl, rfl, rfl⟩

/-- **When the whole of a `POST` is sent.**  If the send phase succeeds, the bytes that were handed
to the socket are the head and the whole body exactly when the transmit buffer had room for the head
and then for the body; and as many bytes of the body were handed over as the head announces exactly
when it had room for the body. -/
theorem postSend_complete_iff
    (h : postSend between sockets host path body = (.ok (headSent, bodySent), sockets')) :
    ∃ socket, sockets = some socket ∧
      ((postHeadBytes host path body).take headSent ++ body.take bodySent =
          postHeadBytes host path body ++ body ↔
        (postHeadBytes host path body).length ≤ socket.free ∧
          body.length ≤ (between (socket.sendSlice (postHeadBytes host path body)).2).free) ∧
      ((body.take bodySent).length = body.length ↔
        body.length ≤ (between (socket.sendSlice (postHeadBytes host path body)).2).free) := by
  obtain ⟨socket, hsocket, rfl, rfl⟩ := postSend_eq_ok h
  refine ⟨socket, hsocket, take_append_take_eq_iff _ _ _ _, ?_⟩
  rw [List.length_take]
  omega

theorem postSend_complete_connected :
    (postHeadBytes "localhost" "/v1" [0x7B, 0x7D]).take 108 ++ [0x7B, 0x7D].take 2 =
      postHeadBytes "localhost" "/v1" [0x7B, 0x7D] ++ [0x7B, 0x7D] := by
  have hsent : (postSend id (some .connected) "localhost" "/v1" [0x7B, 0x7D]).1 = .ok (108, 2) := by
    decide +kernel
  obtain ⟨socket, hsocket, hcomplete, -⟩ := postSend_complete_iff (Prod.ext hsent rfl)
  obtain rfl := Option.some.inj hsocket
  exact hcomplete.mpr (by decide +kernel)

/-- A body of 5000 bytes, with nothing else in the buffer: the send phase succeeds, and fewer bytes
of the body are handed over than the head announces. -/
theorem postSend_truncated :
    (postSend id (some .connected) "localhost" "/v1" (List.replicate 5000 0x20)).1 =
      .ok (111, 3985) := by
  decide +kernel

end Http

end OxideOS
