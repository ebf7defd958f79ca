import FaultChain.Number.Hexadecimal
import FaultChain.Text.Basic
import FaultChain.Text.Path

/-!
# Requests and replies

* `HttpRequest`, `HttpReply`: what is exchanged with clients.
* `Target`: the parts of what a request is sent to, with the escapes of the path resolved.
* `HttpReply.redirect`: sends a client to another path.
-/

namespace FaultChain

/-- A request of a client. -/
structure HttpRequest where
  method : String
  /-- The target as it was sent: a path, with a query behind a question mark, and with a scheme and a
  site in front of it if it is absolute. -/
  target : String
  body : String := ""

structure HttpReply where
  status : Nat
  body : String := ""

/-! ## Escapes -/

namespace UrlText

/-- The bytes a text stands for: two hexadecimal digits behind a percent sign are one byte. -/
def decode : List Char → List UInt8
  | [] => []
  | '%' :: a :: b :: rest =>
    match Hexadecimal.number? [a, b] with
    | some n => n.toUInt8 :: decode rest
    | none => 37 :: decode (a :: b :: rest)
  | c :: rest => (String.singleton c).toUTF8.toList ++ decode rest

/-- Writes bytes with escapes for all but letters, digits and some further characters. -/
def encode (further : String) (bs : List UInt8) : String :=
  String.ofList (bs.flatMap fun b =>
    let c := Char.ofNat b.toNat
    if c.isAlphanum || (unreserved ++ further).toList.contains c then [c]
    else '%' :: (Hexadecimal.digits 2 b.toNat).map Char.toUpper)
where
  /-- The characters that stand for themselves everywhere. -/
  unreserved : String := "-_.~"

def encodePath : List UInt8 → String := encode "$&+,/:;=@"

def encodeHost : List UInt8 → String := encode "!$&'()*+,;=:[]<>\""

def encodeUser : List UInt8 → String := encode "$&+,;="

end UrlText

/-! ## Targets -/

structure Target where
  /-- Scheme, user and host, with which links begin; empty for a target that is only a path. -/
  site : String := ""
  path : List UInt8
  query : String

namespace Target

def scheme? (cs : List Char) : Option (String × List Char) :=
  let isInner (c : Char) : Bool := c.isAlphanum || c == '+' || c == '-' || c == '.'
  match cs.takeWhile isInner, cs.dropWhile isInner with
  | c :: name, ':' :: rest =>
    if c.isAlpha then some (String.ofList ((c :: name).map Char.toLower), rest) else none
  | _, _ => none

/-- The texts before and behind the last `@`, if there is one. -/
def cutUser (cs : List Char) : Option (List Char) × List Char :=
  let host := (cs.reverse.takeWhile (· != '@')).reverse
  if host.length == cs.length then (none, cs)
  else (some (cs.take (cs.length - host.length - 1)), host)

def authority (cs : List Char) : String :=
  let part (cs : List Char) : String := UrlText.encodeUser (UrlText.decode cs)
  let (user, host) := cutUser cs
  let user :=
    match user with
    | none => ""
    | some cs =>
      match cs.dropWhile (· != ':') with
      | [] => part cs ++ "@"
      | _ :: password => part (cs.takeWhile (· != ':')) ++ ":" ++ part password ++ "@"
  user ++ UrlText.encodeHost (UrlText.decode host)

/-- Takes a target apart. One that has a scheme but no slash behind it has no path. -/
def ofString (s : String) : Target :=
  let (site, rest) :=
    match scheme? s.toList with
    | none => ("", s.toList)
    | some (scheme, rest) => (scheme ++ ":", rest)
  let front := rest.takeWhile (· != '?')
  let query := String.ofList (rest.dropWhile (· != '?'))
  if site == "" then ⟨"", UrlText.decode front, query⟩
  else
    match front with
    | '/' :: '/' :: cs =>
      ⟨site ++ "//" ++ authority (cs.takeWhile (· != '/')),
        UrlText.decode (cs.dropWhile (· != '/')), query⟩
    | '/' :: _ => ⟨site, UrlText.decode front, query⟩
    | _ => ⟨site, [], query⟩

end Target

/-! ## Redirections -/

namespace HttpReply

def markup (c : Char) : List Char :=
  match c with
  | '&' => "&amp;".toList
  | '<' => "&lt;".toList
  | '>' => "&gt;".toList
  | '"' => "&#34;".toList
  | '\'' => "&#39;".toList
  | c => [c]

/-- Cleans up a path but keeps a slash at its end. -/
def tidy (path : String) : String :=
  let cleaned := Path.clean path
  if Text.endsWith path "/" && !Text.endsWith cleaned "/" then cleaned ++ "/" else cleaned

/-- Sends a client from a target to another path. Those that only read are sent there for good and
get a page with a link. -/
def redirect (reading : Bool) (t : Target) (path : List UInt8) : HttpReply :=
  if reading then
    let link := UrlText.encodePath path
    let url := (if t.site == "" then tidy link else t.site ++ link) ++ t.query
    let shown := String.ofList (url.toList.flatMap markup)
    { status := 301, body := "<a href=\"" ++ shown ++ "\">Moved Permanently</a>.\n\n" }
  else { status := 307 }

end HttpReply
end FaultChain
