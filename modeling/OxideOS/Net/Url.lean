import OxideOS.Lib.Text
import OxideOS.Net.Http

/-!
# Writing and parsing URLs

A URL is written as a scheme, a host, a port and a path, of which all but the host may be left out.
`parse_url` takes it apart again with two searches: the path begins at the first slash behind the
scheme, and the port is behind the first colon before the path.  The firewall and the connection
rest on this one split.

## Main definitions

* `Url`: the parts of a URL, of which the host has no delimiters and the path begins with one
* `Url.write`: the URL, written from its parts

## Main results

* `not_beginsWith_scheme`: a URL that is written without a scheme does not begin with one
* `Url.parseUrl_write`: the parts of a written URL are read back
-/

namespace OxideOS

/-- What a URL begins with. -/
inductive UrlScheme
  | http
  | https
  | absent
deriving DecidableEq, Repr

namespace UrlScheme

def text : UrlScheme → String
  | http => "http://"
  | https => "https://"
  | absent => ""

/-- The port of a URL that has none of its own. -/
def defaultPort : UrlScheme → UInt16
  | http => 80
  | https => 443
  | absent => 80

end UrlScheme

/-- The parts of a URL. -/
structure Url where
  scheme : UrlScheme
  host : String
  port : Option UInt16
  path : String
  host_plain : '/' ∉ host.toList ∧ ':' ∉ host.toList
  path_rooted : path = "" ∨ path.toList.head? = some '/'

namespace Url

variable (url : Url)

/-- The port, with the colon before it. -/
def portText : String :=
  match url.port with
  | some port => ":" ++ toString port.toNat
  | none => ""

/-- What is behind the scheme. -/
def rest : String := url.host ++ url.portText ++ url.path

/-- The URL, written from its parts. -/
def write : String := url.scheme.text ++ url.rest

end Url

/-! ## Splitting -/

theorem splitAtChar_of_notMem {c : Char} {cs : List Char} (h : c ∉ cs) :
    splitAtChar c cs = (cs, none) := by
  rw [splitAtChar, Text.findIdx?_beq_of_notMem h]

theorem splitAtChar_append {c : Char} {cs : List Char} (h : c ∉ cs) (rest : List Char) :
    splitAtChar c (cs ++ c :: rest) = (cs, some (c :: rest)) := by
  rw [splitAtChar, Text.findIdx?_beq_append h]
  simp only [List.take_left, List.drop_left]

/-- What may be behind a host: nothing, a path, or a port. -/
def BehindHost (tail : List Char) : Prop :=
  tail = [] ∨ (∃ rest, tail = '/' :: rest) ∨ ∃ c rest, tail = ':' :: c :: rest ∧ c ≠ '/'

/-- **A URL that is written without a scheme does not begin with one**: its first colon is that of
the port, and a digit is behind it. -/
theorem not_beginsWith_scheme {word host tail : List Char} (hword : ':' ∉ word ∧ '/' ∉ word)
    (hhost : ':' ∉ host) (htail : BehindHost tail) :
    ¬word ++ [':', '/', '/'] <+: host ++ tail := by
  rintro ⟨rest, heq⟩
  have hslashes : tail ≠ ':' :: '/' :: '/' :: rest := by
    rintro rfl
    rcases htail with hnil | ⟨_, hpath⟩ | ⟨c, _, hport, hc⟩
    · cases hnil
    · exact absurd (List.cons.inj hpath).1 (by decide)
    · exact hc (List.cons.inj (List.cons.inj hport).2).1.symm
  rw [List.append_assoc] at heq
  rcases List.append_eq_append_iff.mp heq with ⟨more, rfl, hmore⟩ | ⟨more, rfl, hmore⟩
  · cases more with
    | nil => exact hslashes hmore.symm
    | cons c more =>
      obtain ⟨rfl, -⟩ := List.cons.inj hmore
      exact hhost (List.mem_append_right _ List.mem_cons_self)
  · cases more with
    | nil => exact hslashes hmore
    | cons c more =>
      have hmem : c ∈ host ++ c :: more := List.mem_append_right _ List.mem_cons_self
      rcases htail with rfl | ⟨_, rfl⟩ | ⟨_, _, rfl, -⟩
      · cases hmore
      · exact hword.2 ((List.cons.inj hmore).1 ▸ hmem)
      · exact hword.1 ((List.cons.inj hmore).1 ▸ hmem)

namespace Url

variable (url : Url)

/-- The port is a colon and digits, or nothing. -/
theorem portText_cases :
    (url.port = none ∧ url.portText.toList = []) ∨
      ∃ port, url.port = some port ∧
        url.portText.toList = ':' :: Nat.toDigits 10 port.toNat := by
  rw [portText]
  cases url.port with
  | none => exact .inl ⟨rfl, rfl⟩
  | some port =>
    refine .inr ⟨port, rfl, ?_⟩
    rw [String.toList_append]
    exact congrArg (':' :: ·) String.toList_ofList

/-- The path begins with a slash, or is empty. -/
theorem path_cases : (url.path = "" ∧ url.path.toList = []) ∨
    ∃ rest, url.path ≠ "" ∧ url.path.toList = '/' :: rest := by
  rcases url.path_rooted with hempty | hslash
  · exact .inl ⟨hempty, by rw [hempty]; rfl⟩
  · cases hpath : url.path.toList with
    | nil =>
      rw [hpath] at hslash
      cases hslash
    | cons c rest =>
      rw [hpath] at hslash
      obtain rfl := Option.some.inj hslash
      refine .inr ⟨rest, fun hempty => ?_, rfl⟩
      rw [hempty] at hpath
      cases hpath

theorem toList_rest :
    url.rest.toList = (url.host.toList ++ url.portText.toList) ++ url.path.toList := by
  rw [rest, String.toList_append, String.toList_append]

/-- There is no slash before the path. -/
theorem slash_notMem : '/' ∉ url.host.toList ++ url.portText.toList := by
  rw [List.mem_append, not_or]
  refine ⟨url.host_plain.1, ?_⟩
  rcases url.portText_cases with ⟨-, hnone⟩ | ⟨port, -, hsome⟩
  · rw [hnone]
    exact List.not_mem_nil
  · rw [hsome, List.mem_cons, not_or]
    exact ⟨by decide, not_mem_toDigits _ (by decide)⟩

theorem behindHost : BehindHost (url.portText.toList ++ url.path.toList) := by
  rcases url.portText_cases with ⟨-, hnone⟩ | ⟨port, -, hsome⟩
  · rw [hnone, List.nil_append]
    rcases url.path_cases with ⟨-, hpath⟩ | ⟨rest, -, hpath⟩
    · exact .inl hpath
    · exact .inr (.inl ⟨rest, hpath⟩)
  · rw [hsome]
    cases hdigits : Nat.toDigits 10 port.toNat with
    | nil => exact absurd hdigits Nat.toDigits_ne_nil
    | cons c digits =>
      refine .inr (.inr ⟨c, digits ++ url.path.toList, rfl, ?_⟩)
      rintro rfl
      exact not_mem_toDigits port.toNat (c := '/') (by decide) (hdigits ▸ List.mem_cons_self)

/-- What is behind the scheme begins with none. -/
theorem startsWith_rest (word : String) (hword : ':' ∉ word.toList ∧ '/' ∉ word.toList) :
    startsWith url.rest (word ++ "://") = false := by
  rw [Bool.eq_false_iff, ne_eq, startsWith_iff, toList_rest, String.toList_append,
    List.append_assoc]
  exact not_beginsWith_scheme hword url.host_plain.2 url.behindHost

/-- The scheme is taken off, and tells the default port. -/
theorem stripScheme_write :
    (if startsWith url.write "https://" then 443 else 80) = url.scheme.defaultPort ∧
      (stripPrefix url.write "https://" <|> stripPrefix url.write "http://").getD url.write =
        url.rest := by
  rw [write]
  cases url.scheme with
  | http =>
    have hother : startsWith ("http://" ++ url.rest) "https://" = false := by
      rw [startsWith, String.toList_append]
      rfl
    have hstrip : stripPrefix ("http://" ++ url.rest) "https://" = none := by
      rw [stripPrefix, hother]
      rfl
    rw [UrlScheme.text, hother, hstrip, stripPrefix_append]
    exact ⟨rfl, rfl⟩
  | https =>
    rw [UrlScheme.text, startsWith_append, stripPrefix_append]
    exact ⟨rfl, rfl⟩
  | absent =>
    have hhttps : startsWith url.rest "https://" = false := url.startsWith_rest "https" (by decide)
    have hhttp : startsWith url.rest "http://" = false := url.startsWith_rest "http" (by decide)
    rw [UrlScheme.text, String.empty_append, stripPrefix, stripPrefix, hhttps, hhttp]
    exact ⟨rfl, rfl⟩

/-- The first slash is where the path begins. -/
theorem splitPath :
    splitAtChar '/' url.rest.toList = (url.host.toList ++ url.portText.toList,
      if url.path = "" then none else some url.path.toList) := by
  rw [toList_rest]
  rcases url.path_cases with ⟨hempty, hpath⟩ | ⟨rest, hne, hpath⟩
  · rw [hpath, List.append_nil, splitAtChar_of_notMem url.slash_notMem, if_pos hempty]
  · rw [hpath, splitAtChar_append url.slash_notMem, if_neg hne]

/-- The first colon before the path is that of the port. -/
theorem splitPort :
    splitAtChar ':' (url.host.toList ++ url.portText.toList) = (url.host.toList,
      url.port.map fun port => ':' :: Nat.toDigits 10 port.toNat) := by
  rcases url.portText_cases with ⟨hport, hnone⟩ | ⟨port, hport, hsome⟩
  · rw [hnone, List.append_nil, splitAtChar_of_notMem url.host_plain.2, hport, Option.map_none]
  · rw [hsome, splitAtChar_append url.host_plain.2, hport, Option.map_some]

/-- **A written URL is read back.**  For every host without slashes and colons, every port and every
path that is empty or begins with a slash, the parts of the URL are its host, its port or that of
its scheme, and its path or a slash. -/
theorem parseUrl_write :
    parseUrl url.write =
      .ok (url.host, url.port.getD url.scheme.defaultPort,
        if url.path = "" then "/" else url.path) := by
  obtain ⟨hdefault, hstrip⟩ := url.stripScheme_write
  have hport := url.splitPort
  rw [parseUrl, hdefault, hstrip, url.splitPath]
  cases hgiven : url.port with
  | none =>
    rw [hgiven, Option.map_none] at hport
    by_cases hempty : url.path = "" <;>
      simp only [hport, hempty, if_true, if_false, String.ofList_toList, Option.getD_none]
  | some port =>
    rw [hgiven, Option.map_some] at hport
    by_cases hempty : url.path = "" <;>
      simp only [hport, hempty, if_true, if_false, String.ofList_toList, List.drop_succ_cons,
        List.drop_zero, parseU16_toDigits, Option.getD_some]

/-- A URL without a scheme, for a host whose name is that of a scheme. -/
example : parseUrl "https:8080//a:b" = .ok ("https", 8080, "//a:b") := by decide +kernel

end Url

end OxideOS
