import OxideOS.Lib.Text
import OxideOS.Net.Http

/-!
# HTTP responses

`parse_http_response` takes the status code from the first line of a response and the body from
behind the first blank line.  For that it looks at the whole response as text: a body that is not
valid UTF-8 is an error, even though the body is returned as bytes.

## Main definitions

* `Http.parseHttpResponse`
* `Http.ResponseHead`: a status line and header lines

## Main results

* `Http.find_blankLine`: where the first blank line is
* `Http.parseHttpResponse_eq_ok_iff`: a response is decoded to its status code and its body exactly
  when the body is valid UTF-8
-/

namespace OxideOS

/-- `http::HttpResponse`. -/
structure HttpResponse where
  statusCode : UInt16
  body : List UInt8
deriving DecidableEq, Repr

namespace Http

/-! ## Strings -/

/-- The UTF-8 bytes of a text. -/
def utf8 (text : List Char) : List UInt8 := text.flatMap String.utf8EncodeChar

/-- `core::str::from_utf8`: the characters of a text, if the bytes are valid. -/
def fromUtf8 (data : List UInt8) : Option (List Char) :=
  data.toByteArray.utf8Decode?.map Array.toList

/-- `str::lines().next()`: what is before the first line feed, without a carriage return in front of
that; nothing if the text is empty. -/
def firstLine (text : List Char) : Option (List Char) :=
  if text = [] then none
  else match text.findIdx? (· == '\n') with
    | none => some text
    | some i =>
      let line := text.take i
      some (if line.getLast? = some '\r' then line.dropLast else line)

/-- `char::is_whitespace`. -/
def isWhitespace (c : Char) : Bool :=
  (0x09 ≤ c.toNat && c.toNat ≤ 0x0D) || c.toNat == 0x20 || c.toNat == 0x85 || c.toNat == 0xA0 ||
    c.toNat == 0x1680 || (0x2000 ≤ c.toNat && c.toNat ≤ 0x200A) || c.toNat == 0x2028 ||
    c.toNat == 0x2029 || c.toNat == 0x202F || c.toNat == 0x205F || c.toNat == 0x3000

/-- `str::split_whitespace`. -/
def splitWhitespace (text : List Char) : List (List Char) :=
  (text.splitOnP isWhitespace).filter fun word => !word.isEmpty

/-- `str::find`: the index of the first byte of the first occurrence. -/
def strFind (pattern text : List Char) : Option Nat :=
  (Text.find pattern text).map fun i => (utf8 (text.take i)).length

/-- `http::parse_http_response`. -/
def parseHttpResponse (data : List UInt8) : Except HttpError HttpResponse :=
  match fromUtf8 data with
  | none => .error .parseError
  | some text =>
    match firstLine text with
    | none => .error .parseError
    | some statusLine =>
      match (splitWhitespace statusLine)[1]?.bind parseU16 with
      | none => .error .parseError
      | some statusCode =>
        -- without a blank line there is no body; an index into the text is one into the bytes
        let bodyStart := ((strFind ['\r', '\n', '\r', '\n'] text).map (· + 4)).getD data.length
        .ok ⟨statusCode, data.drop bodyStart⟩

/-! ## Decoding -/

@[simp] theorem utf8_cons (c : Char) (text : List Char) :
    utf8 (c :: text) = String.utf8EncodeChar c ++ utf8 text := rfl

@[simp] theorem utf8_append (text rest : List Char) :
    utf8 (text ++ rest) = utf8 text ++ utf8 rest :=
  List.flatMap_append

/-- A text before some bytes is decoded, whatever the bytes are. -/
theorem fromUtf8_append (text : List Char) (data : List UInt8) :
    fromUtf8 (utf8 text ++ data) = (fromUtf8 data).map (text ++ ·) := by
  induction text with
  | nil => simp [utf8]
  | cons c text ih =>
    have hbytes : (utf8 (c :: text) ++ data).toByteArray =
        [c].utf8Encode ++ (utf8 text ++ data).toByteArray := by
      rw [utf8_cons, List.append_assoc, List.toByteArray_append]
      simp [List.utf8Encode]
    have hcons : fromUtf8 (utf8 (c :: text) ++ data) =
        (fromUtf8 (utf8 text ++ data)).map (c :: ·) := by
      rw [fromUtf8, hbytes, ByteArray.utf8Decode?_utf8Encode_singleton_append, fromUtf8,
        Option.map_map, Option.map_map]
      congr 1
      funext chars
      simp
    rw [hcons, ih, Option.map_map]
    rfl

theorem fromUtf8_isSome_iff (data : List UInt8) :
    (fromUtf8 data).isSome ↔ data.toByteArray.IsValidUTF8 := by
  rw [fromUtf8, Option.isSome_map, ByteArray.isSome_utf8Decode?_iff]

/-! ## The head of a response -/

theorem isWhitespace_of_isDigit {c : Char} (h : c.isDigit = true) : isWhitespace c = false := by
  have hrange : 48 ≤ c.toNat ∧ c.toNat ≤ 57 := by
    simpa [Char.isDigit, UInt32.le_iff_toNat_le] using h
  simp [isWhitespace]
  omega

/-- The text has no line ends. -/
def IsLine (text : List Char) : Prop := '\r' ∉ text ∧ '\n' ∉ text

instance (text : List Char) : Decidable (IsLine text) := inferInstanceAs (Decidable (_ ∧ _))

theorem IsLine.append {text rest : List Char} (h : IsLine text) (hrest : IsLine rest) :
    IsLine (text ++ rest) :=
  ⟨fun hmem => (List.mem_append.mp hmem).elim h.1 hrest.1,
    fun hmem => (List.mem_append.mp hmem).elim h.2 hrest.2⟩

/-- A line end. -/
def lineEnd : List Char := ['\r', '\n']

/-- A status code with a reason, and header lines. -/
structure ResponseHead where
  statusCode : UInt16
  reason : List Char
  headers : List (List Char)
  reason_isLine : IsLine reason
  headers_isLine : ∀ header ∈ headers, header ≠ [] ∧ IsLine header

namespace ResponseHead

variable (head : ResponseHead)

/-- The first word of a status line. -/
def version : List Char := ['H', 'T', 'T', 'P', '/', '1', '.', '1']

/-- The digits of the status code. -/
def digits : List Char := Nat.toDigits 10 head.statusCode.toNat

/-- The status line. -/
def statusLine : List Char := version ++ ' ' :: (head.digits ++ ' ' :: head.reason)

/-- The status line and the header lines, with a line end behind each. -/
def lines : List Char := (head.statusLine :: head.headers).flatMap (· ++ lineEnd)

/-- The head, up to and with the blank line. -/
def text : List Char := head.lines ++ lineEnd

theorem not_mem_digits {c : Char} (h : c.isDigit = false) : c ∉ head.digits :=
  not_mem_toDigits head.statusCode.toNat h

/-- The status code is read back. -/
theorem parseU16_digits : parseU16 head.digits = some head.statusCode :=
  parseU16_toDigits head.statusCode

theorem statusLine_isLine : IsLine head.statusLine := by
  have hdigits : IsLine head.digits :=
    ⟨head.not_mem_digits (by decide), head.not_mem_digits (by decide)⟩
  have hspace : IsLine [' '] := by decide
  have hversion : IsLine version := by decide
  exact hversion.append (hspace.append (hdigits.append (hspace.append head.reason_isLine)))

/-- The second word of the status line is the status code. -/
theorem splitWhitespace_statusLine :
    (splitWhitespace head.statusLine)[1]? = some head.digits := by
  have hversion : ∀ c ∈ version, isWhitespace c = false := by simp [version, isWhitespace]
  have hdigits : ∀ c ∈ head.digits, isWhitespace c = false := fun c hc =>
    isWhitespace_of_isDigit (isDigit_of_mem_toDigits hc)
  have hne : head.digits.isEmpty = false :=
    List.isEmpty_eq_false_iff.mpr Nat.toDigits_ne_nil
  have hsplit : head.statusLine.splitOnP isWhitespace =
      version :: head.digits :: head.reason.splitOnP isWhitespace :=
    (List.splitOnP_append_cons_of_forall_mem hversion ' ' (by decide) _).trans
      (congrArg _ (List.splitOnP_append_cons_of_forall_mem hdigits ' ' (by decide) _))
  unfold splitWhitespace
  rw [hsplit, List.filter_cons_of_pos (by decide), List.filter_cons_of_pos (by simp [hne]),
    List.getElem?_cons_succ, List.getElem?_cons_zero]

end ResponseHead

/-- The first line of a text, up to its line end. -/
theorem firstLine_append {line : List Char} (h : IsLine line) (rest : List Char) :
    firstLine (line ++ (lineEnd ++ rest)) = some line := by
  have hindex : (line ++ (lineEnd ++ rest)).findIdx? (· == '\n') = some (line.length + 1) := by
    rw [List.findIdx?_append, Text.findIdx?_beq_of_notMem h.2]
    simp [lineEnd, List.findIdx?_cons, Nat.add_comm]
  have htake : (line ++ (lineEnd ++ rest)).take (line.length + 1) = line ++ ['\r'] := by
    rw [List.take_length_add_append]
    rfl
  rw [firstLine, if_neg (by simp [lineEnd]), hindex]
  simp [htake]

/-- A line end before a line that is not empty is passed over. -/
theorem find_lineEnd {line : List Char} (hne : line ≠ []) (h : IsLine line) (rest : List Char) :
    Text.find ['\r', '\n', '\r', '\n'] (lineEnd ++ (line ++ rest)) =
      (Text.find ['\r', '\n', '\r', '\n'] (line ++ rest)).map (· + 2) := by
  obtain ⟨c, line, rfl⟩ := List.exists_cons_of_ne_nil hne
  have hc : c ≠ '\r' := fun hc => h.1 (hc ▸ List.mem_cons_self)
  rw [lineEnd, List.cons_append, List.singleton_append, Text.find_cons, Text.find_cons,
    Option.map_map]
  · rfl
  · simp
  · simp [hc.symm]

/-- **The first blank line** is behind the last of the lines, if none of them is empty. -/
theorem find_blankLine {lines : List (List Char)} (hne : lines ≠ [])
    (hlines : ∀ line ∈ lines, line ≠ [] ∧ IsLine line) (rest : List Char) :
    ∃ before, lines.flatMap (· ++ lineEnd) = before ++ lineEnd ∧
      Text.find ['\r', '\n', '\r', '\n']
        (lines.flatMap (· ++ lineEnd) ++ (lineEnd ++ rest)) = some before.length := by
  induction lines with
  | nil => exact absurd rfl hne
  | cons line lines ih =>
    obtain ⟨-, hline⟩ := hlines line List.mem_cons_self
    cases lines with
    | nil =>
      refine ⟨line, by simp, ?_⟩
      rw [List.flatMap_singleton, List.append_assoc, Text.find_append hline.1,
        Text.find_of_prefix ⟨rest, by simp [lineEnd]⟩]
      simp
    | cons next lines =>
      obtain ⟨before, hbefore, hfind⟩ := ih (List.cons_ne_nil _ _) fun line hmem =>
        hlines line (List.mem_cons_of_mem _ hmem)
      refine ⟨line ++ lineEnd ++ before, ?_, ?_⟩
      · rw [List.flatMap_cons, hbefore]
        simp only [List.append_assoc]
      · obtain ⟨hnext, hnextLine⟩ := hlines next (List.mem_cons_of_mem _ List.mem_cons_self)
        have hflat : (next :: lines).flatMap (· ++ lineEnd) ++ (lineEnd ++ rest) =
            next ++ (lineEnd ++ (lines.flatMap (· ++ lineEnd) ++ (lineEnd ++ rest))) := by
          simp only [List.flatMap_cons, List.append_assoc]
        rw [List.flatMap_cons, List.append_assoc, List.append_assoc, Text.find_append hline.1,
          hflat, find_lineEnd hnext hnextLine, ← hflat, hfind]
        simp only [Option.map_some, List.length_append, lineEnd, List.length_cons, List.length_nil]
        congr 1
        omega

namespace ResponseHead

variable (head : ResponseHead)

/-- The body begins behind the head, whatever it is. -/
theorem strFind_text (rest : List Char) :
    (strFind ['\r', '\n', '\r', '\n'] (head.text ++ rest)).map (· + 4) =
      some (utf8 head.text).length := by
  have hlines : ∀ line ∈ head.statusLine :: head.headers, line ≠ [] ∧ IsLine line := by
    intro line hmem
    rcases List.mem_cons.mp hmem with rfl | hheader
    · exact ⟨List.append_ne_nil_of_right_ne_nil _ (List.cons_ne_nil _ _), head.statusLine_isLine⟩
    · exact head.headers_isLine line hheader
  obtain ⟨before, hbefore, hfind⟩ := find_blankLine (List.cons_ne_nil _ _) hlines rest
  have htext : head.text = before ++ (lineEnd ++ lineEnd) := by
    rw [text, lines, hbefore, List.append_assoc]
  have hlength : (utf8 head.text).length = (utf8 before).length + 4 := by
    rw [htext, utf8_append, List.length_append]
    rfl
  have hindex : Text.find ['\r', '\n', '\r', '\n'] (head.text ++ rest) = some before.length := by
    rw [text, List.append_assoc]
    exact hfind
  rw [strFind, hindex, hlength, Option.map_some, Option.map_some, htext, List.append_assoc,
    List.take_left]

theorem firstLine_text (rest : List Char) :
    firstLine (head.text ++ rest) = some head.statusLine := by
  rw [text, lines, List.flatMap_cons, List.append_assoc, List.append_assoc, List.append_assoc]
  exact firstLine_append head.statusLine_isLine _

end ResponseHead

section Decoding

variable (head : ResponseHead) {body : List UInt8}

theorem parseHttpResponse_eq_ok (h : body.toByteArray.IsValidUTF8) :
    parseHttpResponse (utf8 head.text ++ body) = .ok ⟨head.statusCode, body⟩ := by
  obtain ⟨chars, hchars⟩ := Option.isSome_iff_exists.mp ((fromUtf8_isSome_iff body).mpr h)
  rw [parseHttpResponse, fromUtf8_append, hchars]
  simp only [Option.map_some, head.firstLine_text, head.splitWhitespace_statusLine,
    Option.bind_some, head.parseU16_digits, head.strFind_text, Option.getD_some, List.drop_left]

/-- The status line and the header lines do not matter if the body is not text. -/
theorem parseHttpResponse_eq_error (h : ¬body.toByteArray.IsValidUTF8) :
    parseHttpResponse (utf8 head.text ++ body) = .error .parseError := by
  have hnone : fromUtf8 body = none := by
    rw [← Option.not_isSome_iff_eq_none, fromUtf8_isSome_iff]
    exact h
  rw [parseHttpResponse, fromUtf8_append, hnone]
  rfl

end Decoding

/-- **When a response is decoded.**  A response with any status code, any reason and any header
lines that are not empty is decoded to its status code and its body exactly when the body is valid
UTF-8, and is an error otherwise. -/
theorem parseHttpResponse_eq_ok_iff (head : ResponseHead) (body : List UInt8) :
    (parseHttpResponse (utf8 head.text ++ body) = .ok ⟨head.statusCode, body⟩ ↔
      body.toByteArray.IsValidUTF8) ∧
      (¬body.toByteArray.IsValidUTF8 →
        parseHttpResponse (utf8 head.text ++ body) = .error .parseError) := by
  refine ⟨⟨fun hok => ?_, parseHttpResponse_eq_ok head⟩, parseHttpResponse_eq_error head⟩
  by_contra hinvalid
  rw [parseHttpResponse_eq_error head hinvalid] at hok
  cases hok

/-- A response whose body is one byte with its high bit set. -/
theorem parseHttpResponse_binary : ∃ head : ResponseHead,
    head.statusCode = 200 ∧ head.text = "HTTP/1.1 200 OK\r\n\r\n".toList ∧
      parseHttpResponse (utf8 head.text ++ [0xFF]) = .error .parseError := by
  refine ⟨⟨200, ['O', 'K'], [], by decide, List.forall_mem_nil _⟩, rfl, by decide +kernel, ?_⟩
  refine parseHttpResponse_eq_error _ fun hvalid => ?_
  have hfirst := hvalid.isUTF8FirstByte_getElem_zero (by decide)
  revert hfirst
  decide

end Http

end OxideOS
