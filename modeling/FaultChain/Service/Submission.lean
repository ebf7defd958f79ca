import FaultChain.Service.Basic
import FaultChain.Service.Http

/-!
# Submitting chains

The chains an analysis has found can be posted to an endpoint that collects results.

* `ChainSubmission`: a chain as it is posted.
* `ResultsClient.submit`: posts one chain.
* `ResultsClient.submitAll`: posts chains one after another, whether or not one is refused.
* `Analysis.submissions`: what is posted when an analysis has ended.
-/

namespace FaultChain

structure ChainSubmission where
  run : Uuid
  bitcode : String
  location : String
  reason : String
  trace : Option (List String)
  reports : Option (List String)
  length : Int

namespace ChainSubmission

def ofRecord (run : Uuid) (bitcode : String) (c : Registry.ChainRecord) : ChainSubmission :=
  { run := run
    bitcode := bitcode
    location := c.location
    reason := c.reason
    trace := c.trace
    reports := c.reports
    length := c.length }

def toJson (c : ChainSubmission) : Json :=
  .obj [("run_id", .str c.run.render), ("bitcode", .str c.bitcode),
    ("vulnerable_instruction", .str c.location), ("reason", .str c.reason),
    ("trace", .maybeStrings c.trace), ("error_files", .maybeStrings c.reports),
    ("length", .int c.length)]

end ChainSubmission

structure Post where
  path : String
  user : String
  password : String
  body : String

def Post.contentType : String := "application/json"

inductive SubmissionFault where
  | refused (status : Nat) (body : String)
  | unreadable
  deriving DecidableEq

def SubmissionFault.message : SubmissionFault → String
  | .refused status body =>
    "chain submission failed with status " ++ Decimal.ofNat status ++ ": " ++ body
  | .unreadable => "failed to parse response"

/-- Whoever posts chains. -/
structure ResultsClient where
  user : String
  password : String

namespace ResultsClient

def post (client : ResultsClient) (c : ChainSubmission) : Post :=
  { path := "/v1/run/" ++ c.run.render ++ "/chain/"
    user := client.user
    password := client.password
    body := c.toJson.compact }

def identifier? : Json → Option String
  | .null => some ""
  | .obj members => do
    let _ ← Json.textField members "status"
    Json.textField members "submission_id"
  | _ => none

/-- What a reply says about a submission. -/
def accept (reply : HttpReply) : Except SubmissionFault String :=
  if reply.status = 200 then
    match (Json.parse reply.body).bind identifier? with
    | some id => .ok id
    | none => .error .unreadable
  else .error (.refused reply.status reply.body)

variable {σ : Type}

def submit (client : ResultsClient) (endpoint : Post → σ → HttpReply × σ) (c : ChainSubmission)
    (s : σ) : Except SubmissionFault String × σ :=
  let (reply, s) := endpoint (client.post c) s
  (accept reply, s)

def submitEach (client : ResultsClient) (endpoint : Post → σ → HttpReply × σ) :
    List ChainSubmission → σ → List (Except SubmissionFault String) × σ
  | [], s => ([], s)
  | c :: cs, s =>
    let (r, s) := client.submit endpoint c s
    let (rs, s) := client.submitEach endpoint cs s
    (r :: rs, s)

/-- Posts chains one after another. Gives the identifiers of those accepted, and a failure if there
are others. -/
def submitAll (client : ResultsClient) (endpoint : Post → σ → HttpReply × σ)
    (cs : List ChainSubmission) (s : σ) : List String × Option Failure × σ :=
  let (rs, s) := client.submitEach endpoint cs s
  let ids := rs.filterMap (·.toOption)
  let lost := cs.length - ids.length
  (ids,
    if lost = 0 then none
    else some (.other (Decimal.ofNat lost ++ " of " ++ Decimal.ofNat cs.length ++
      " chain submissions failed")), s)

end ResultsClient

/-- What is posted when the end of an analysis has been recorded: the chains of one that did not
fail. -/
def Analysis.submissions (a : Analysis) : List ChainSubmission :=
  match a.result.failure, a.result.summary with
  | none, some s => (s.chainRecords.getD []).map (ChainSubmission.ofRecord a.id a.options.bitcode)
  | _, _ => []

end FaultChain
