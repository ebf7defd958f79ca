import FaultChain.Service.Basic

/-!
# What clients are shown

* `AnalysisRecord`: an analysis as clients see it.
* `ServiceStatus`: the service as clients see it.
-/

namespace FaultChain

/-- An analysis as clients see it. What is empty is left out. -/
structure AnalysisRecord where
  id : Uuid := Uuid.nil
  state : String := ""
  request : AnalysisRequest := {}
  runDir : String := ""
  error : String := ""
  summary : Option Summary := none
  created : Int := 0
  finished : Int := 0

namespace AnalysisRecord

def unlessEmpty (name value : String) : List (String × Json) :=
  if value == "" then [] else [(name, .str value)]

/-- The shown form, with a way to show the summary. -/
def toJsonWith (summary : Summary → Json) (r : AnalysisRecord) : Json :=
  .obj ([("id", .str r.id.render), ("state", .str r.state), ("request", r.request.toJson)] ++
    unlessEmpty "run_dir" r.runDir ++ unlessEmpty "error" r.error ++
    (match r.summary with
      | some s => [("summary", summary s)]
      | none => []) ++
    [("created", .int r.created)] ++
    if r.finished == 0 then [] else [("finished", .int r.finished)])

def toJson (r : AnalysisRecord) : Json := r.toJsonWith Summary.toJson

end AnalysisRecord

def Analysis.record (a : Analysis) : AnalysisRecord :=
  { id := a.id
    state := a.state.name
    request := a.request
    runDir := a.result.dir
    error := (a.result.failure.map (·.message)).getD ""
    summary := a.result.summary
    created := a.created
    finished := a.finished.getD 0 }

def AnalysisCounts.toJson (c : AnalysisCounts) : Json :=
  .obj [("pending", .int c.pending), ("running", .int c.running), ("succeeded", .int c.succeeded),
    ("failed", .int c.failed), ("canceled", .int c.canceled)]

structure ServiceStatus where
  ready : Bool := true
  since : Int := 0
  counts : AnalysisCounts := {}
  version : String

def ServiceStatus.toJson (s : ServiceStatus) : Json :=
  .obj [("ready", .bool s.ready), ("since", .int s.since),
    ("state", .obj [("analyses", s.counts.toJson)]), ("version", .str s.version)]

def Service.status (s : Service) : ServiceStatus :=
  { since := s.started, counts := s.counts, version := Campaign.version }

end FaultChain
