import FaultChain.Config.Load

/-!
# Export of traces

Traces are exported if the environment names an endpoint.

* `Telemetry.headers`: the headers written in a variable.
* `Telemetry.mask`: a header variable as it may be logged.
* `Telemetry.target`: the network address of an endpoint.
* `Telemetry.exporter`: the exporter that the environment asks for.
-/

namespace FaultChain
namespace Telemetry

def isHeaderKey (key : String) : Bool :=
  key != "" && key.toList.all fun c =>
    ('a' ≤ c && c ≤ 'z') || c.isDigit || c == '-' || c == '_' || c == '.'

/-- The header written in one part of a variable. -/
def header? (part : String) : Option (String × String) :=
  match Text.cut '=' part with
  | none => none
  | some (key, value) =>
    let key := Text.trim (Text.lower key)
    if key == "authorization" || isHeaderKey key then some (key, Text.trim value) else none

/-- The headers written as `k1=v1,k2=v2`; the last one of a key counts. -/
def headers (s : String) : List (String × String) :=
  let all := (Text.split ',' s).filterMap header?
  (all.map (·.1)).eraseDups.filterMap fun key => (all.reverse.lookup key).map (key, ·)

/-- A header variable without its values, if it mentions credentials. -/
def mask (s : String) : String :=
  if Text.contains (Text.lower s) "authorization" then
    match Text.cut '=' s with
    | some (start, _) => start ++ "=<redacted>"
    | none => s
  else s

/-- The network address of an endpoint, and whether the connection is insecure. An address without a
number of its own gets the one of its scheme. -/
def target (endpoint : String) : String × Bool :=
  let numbered (host number : String) : String :=
    if host.toList.contains ':' then host else host ++ ":" ++ number
  if Text.startsWith endpoint "https://" then
    (numbered (Text.dropStart endpoint "https://") "443", false)
  else if Text.startsWith endpoint "http://" then
    (numbered (Text.dropStart endpoint "http://") "80", true)
  else (endpoint, false)

/-- Whether every percent sign is followed by two hexadecimal digits. -/
def escapesComplete : List Char → Bool
  | [] => true
  | '%' :: a :: b :: rest =>
    (Hexadecimal.digit? a).isSome && (Hexadecimal.digit? b).isSome && escapesComplete rest
  | c :: rest => c != '%' && escapesComplete rest

/-- Whether an address can be connected to at all: no control characters, and complete escapes
outside its query. -/
def isAddress (address : String) : Bool :=
  let cs := address.toList
  let body := cs.takeWhile (· != '#')
  cs.all (fun c => 0x20 ≤ c.toNat && c.toNat != 0x7F) &&
    escapesComplete (body.takeWhile (· != '?')) && escapesComplete (cs.drop body.length)

/-- How traces are exported. -/
structure Exporter where
  endpoint : String := ""
  headers : List (String × String) := []
  enabled : Bool := false
  failed : Bool := false

def dropSlashes (s : String) : String :=
  String.ofList (s.toList.reverse.dropWhile (· == '/')).reverse

def exporter (env : Environment) : Exporter :=
  let endpoint := env.get "OTEL_EXPORTER_OTLP_ENDPOINT"
  if endpoint == "" then {}
  else
    let endpoint := dropSlashes endpoint
    let given := env.get "OTEL_EXPORTER_OTLP_HEADERS"
    { endpoint := endpoint
      headers := if given == "" then [] else headers given
      enabled := true
      failed := !isAddress (target endpoint).1 }

end Telemetry
end FaultChain
