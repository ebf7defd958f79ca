import FaultChain.Inspect.Campaigns
import FaultChain.Rehearsal.Service
import FaultChain.Service.Api
import FaultChain.Service.Submission
import FaultChain.Text.Replacement

/-!
# Services as JSON

For programs that drive the library: requests to rehearsed services and what became of them.
Identifiers that are made up by a service are written as the number of the analysis in angle
brackets.
-/

namespace FaultChain
namespace Inspect

open Json

/-! ## Changing documents -/

mutual

def mapTexts (f : String → String) : Json → Json
  | .str s => .str (f s)
  | .arr items => .arr (mapItems f items)
  | .obj members => .obj (mapMembers f members)
  | j => j

def mapItems (f : String → String) : List Json → List Json
  | [] => []
  | item :: rest => mapTexts f item :: mapItems f rest

def mapMembers (f : String → String) : List (String × Json) → List (String × Json)
  | [] => []
  | (name, value) :: rest => (f name, mapTexts f value) :: mapMembers f rest

end

/-- A document without the dates that name run directories. -/
def stampless : Json → Json := mapTexts (Text.hideStamps · "STAMP")

def withoutAll (names : List String) (j : Json) : Json := names.foldl (fun j n => without n j) j

/-! ## Identifiers -/

def placeholder (i : Nat) : String := "<" ++ Decimal.ofNat (i + 1) ++ ">"

def withIds (ids : List Uuid) (s : String) : String :=
  ids.zipIdx.foldl (fun s (id, i) => Text.replace s (placeholder i) id.render) s

def withPlaceholders (ids : List Uuid) (s : String) : String :=
  ids.zipIdx.foldl (fun s (id, i) => Text.replace s id.render (placeholder i)) s

/-! ## Replies -/

def isOwnRefusal (message : String) : Bool :=
  Text.startsWith message "Key: " || Text.startsWith message "invalid analysis "

/-- The document in a reply, without what hangs on the clock or on how documents are read. -/
def replyDocument (ids : List Uuid) (r : HttpReply) : Json :=
  match Json.parse r.body with
  | some (.obj members) =>
    let refusal : Json → Json
      | .str s => .str (if isOwnRefusal s then s else "json")
      | j => j
    let members :=
      if r.status = 400 then
        members.map fun (k, v) => if k == "error" then (k, refusal v) else (k, v)
      else members
    mapTexts (withPlaceholders ids)
      (withoutAll ["since", "created", "finished"] (.obj members))
  | _ => .null

def serviceStep (files : FileTree) (now : Int) (r : ServiceRehearsal) (o : Members) :
    Option (Json × ServiceRehearsal) := do
  let n ← getInt o "n"
  let chains ← getInt o "chains"
  let error ← getStr o "err"
  match ← getStr o "do" with
  | "request" =>
    let request : HttpRequest :=
      { method := ← getStr o "method"
        target := withIds r.ids (← getStr o "path")
        body := ← getStr o "body" }
    let (reply, s) := (Service.backend files r.fresh now).respond request r.service
    let r := { r with service := s }.settle now
    return (.obj [("status", nat reply.status), ("body", replyDocument r.ids reply)], r)
  | "finish" =>
    match if 0 < n then r.ids[n.toNat - 1]? else none with
    | some id =>
      let r := r.finish id chains error now
      return (.obj [("analyses", r.service.counts.toJson)], r)
    | none => return (.obj [("error", .str "bad_step")], r)
  | _ => return (.obj [("error", .str "bad_step")], r)

/-! ## Analyses -/

def analysisRecord (a : Analysis) : Json :=
  stampless (withoutAll ["id", "created", "finished"] (a.record.toJsonWith summary))

def chainRecord? (j : Json) : Option Registry.ChainRecord := do
  let o ← Json.object? j
  return {
    id := ← intField o "id"
    location := ← textField o "vulnerable-instruction"
    reason := ← textField o "reason"
    length := ← intField o "length"
    depth := ← intField o "depth"
    trace := ← textsField? o "trace"
    programTrace := ← textsField? o "program-trace"
    reports := ← textsField? o "error-files"
    support := ← intField o "support" }

def reply? (j : Json) : Option HttpReply := do
  let o ← Json.object? j
  return { status := (← getInt o "status").toNat, body := ← getStr o "body" }

/-- An endpoint with replies for the first posts, which accepts all others. It keeps the posts. -/
def scriptedEndpoint (replies : List HttpReply) (p : Post) (received : List Post) :
    HttpReply × List Post :=
  let n := received.length
  let accepted : Json :=
    .obj [("status", .str "accepted"), ("submission_id", .str ("sub-" ++ Decimal.ofNat (n + 1)))]
  (replies[n]?.getD { status := 200, body := accepted.compact }, received ++ [p])

def post (p : Post) : Json :=
  .obj [("method", .str "POST"), ("path", .str p.path), ("user", .str p.user),
    ("pass", .str p.password), ("type", .str Post.contentType),
    ("body", (Json.parse p.body).getD .null)]

end Inspect
end FaultChain
