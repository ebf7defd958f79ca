import FaultChain.Service.Http
import FaultChain.Service.Record

/-!
# The interface of the service

* `Endpoint`: what a request is for.
* `route`: finds the endpoint of a request.
* `Backend`: whatever performs the operations of clients.
* `Backend.respond`: answers a request.
-/

namespace FaultChain

inductive Endpoint where
  | status
  | submit
  | cancelAll
  | find (id : List UInt8)
  | cancel (id : List UInt8)
  deriving DecidableEq

inductive Route where
  | endpoint (e : Endpoint)
  | moved (path : List UInt8)
  | unknown
  deriving DecidableEq

namespace Endpoint

def bytesOf (s : String) : List UInt8 := s.toUTF8.toList

def slash : UInt8 := 47

def identifier? (path : List UInt8) : Option (List UInt8) :=
  match path.splitOn slash with
  | [[], root, id, []] => if root == bytesOf "analysis" then some id else none
  | _ => none

/-- The endpoint of a path. -/
def of? (method : String) (path : List UInt8) : Option Endpoint :=
  let analyses := path == bytesOf "/analysis/"
  match method with
  | "GET" => if path == bytesOf "/status/" then some .status else (identifier? path).map .find
  | "POST" => if analyses then some .submit else none
  | "DELETE" => if analyses then some .cancelAll else (identifier? path).map .cancel
  | _ => none

/-- The path with a slash more or less at its end. -/
def otherEnding (path : List UInt8) : List UInt8 :=
  if path.getLast? == some slash then path.dropLast else path ++ [slash]

end Endpoint

/-- Finds out where a request leads. -/
def route (method : String) (path : List UInt8) : Route :=
  match Endpoint.of? method path with
  | some e => .endpoint e
  | none =>
    let other := Endpoint.otherEnding path
    if path != [Endpoint.slash] && (Endpoint.of? method other).isSome then .moved other
    else .unknown

inductive BodyFault where
  | empty
  | malformed
  | invalid (violations : String)

def BodyFault.message : BodyFault → String
  | .empty => "EOF"
  | .malformed => "malformed json body"
  | .invalid violations => violations

/-- Reads the body of a submission: the first document counts. -/
def readSubmission (body : String) : Except BodyFault AnalysisRequest :=
  if body.toList.all Json.isSpace then .error .empty
  else
    match (Json.readStream body).bind AnalysisRequest.decode? with
    | none => .error .malformed
    | some r =>
      match r.refusal? with
      | some violations => .error (.invalid violations)
      | none => .ok r

/-- Whatever performs the operations of clients. -/
structure Backend (σ : Type) where
  status : σ → ServiceStatus
  submit : AnalysisRequest → σ → Except Failure (Uuid × σ)
  find : Uuid → σ → Except Failure AnalysisRecord
  cancel : Uuid → σ → Except Failure σ
  cancelAll : σ → Except Failure σ

namespace Backend

variable {σ : Type}

def replyJson (status : Nat) (j : Json) : HttpReply := { status := status, body := j.compact }

def replyError (status : Nat) (message : String) : HttpReply :=
  replyJson status (.obj [("error", .str message)])

def statusOf (f : Failure) : Nat :=
  match f.root with
  | .invalidRequest _ => 400
  | .analysisNotFound _ => 404
  | .analysisFinished _ => 409
  | _ => 500

def replyFailure (f : Failure) : HttpReply := replyError (statusOf f) f.message

def withIdentifier (id : List UInt8) (s : σ) (perform : Uuid → HttpReply × σ) : HttpReply × σ :=
  match Uuid.ofBytes? id with
  | some u => perform u
  | none => (replyError 400 "invalid analysis id", s)

def serve (b : Backend σ) (body : String) (s : σ) : Endpoint → HttpReply × σ
  | .status => (replyJson 200 (b.status s).toJson, s)
  | .submit =>
    match readSubmission body with
    | .error fault => (replyError 400 fault.message, s)
    | .ok r =>
      match b.submit r s with
      | .error f => (replyFailure f, s)
      | .ok (id, s) => (replyJson 202 (.obj [("id", .str id.render)]), s)
  | .find id =>
    withIdentifier id s fun u =>
      match b.find u s with
      | .error f => (replyFailure f, s)
      | .ok record => (replyJson 200 record.toJson, s)
  | .cancel id =>
    withIdentifier id s fun u =>
      match b.cancel u s with
      | .error f => (replyFailure f, s)
      | .ok s => ({ status := 200 }, s)
  | .cancelAll =>
    match b.cancelAll s with
    | .error f => (replyError 500 f.message, s)
    | .ok s => ({ status := 200 }, s)

def respond (b : Backend σ) (r : HttpRequest) (s : σ) : HttpReply × σ :=
  let method := if r.method == "" then "GET" else r.method
  let target := Target.ofString r.target
  match route method target.path with
  | .endpoint e => b.serve r.body s e
  | .moved path => (HttpReply.redirect (method == "GET") target path, s)
  | .unknown => ({ status := 404, body := "404 page not found" }, s)

end Backend

/-- The service as a backend. A submission looks at the given files and gets the given identifier. -/
def Service.backend (files : FileTree) (fresh : Uuid) (now : Int) : Backend Service where
  status := Service.status
  submit r s := (s.submit files fresh now r).map (fresh, ·)
  find id s := (s.find id).map Analysis.record
  cancel id s := s.cancel id
  cancelAll s := .ok s.cancelAll

end FaultChain
