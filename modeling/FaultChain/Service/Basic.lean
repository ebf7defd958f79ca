import FaultChain.Campaign.Summary
import FaultChain.Files
import FaultChain.Service.Request

/-!
# The analysis service

The service keeps a table of analyses. Each one waits for a slot, runs once, and ends. What the
service does for different analyses may interleave in any way, so every step in the life of an
analysis is a separate event.

* `Stage`: how far the service has come with an analysis.
* `Service.submit`, `cancel`, `cancelAll`, `find`, `counts`: what clients can do.
* `Service.step`, `Service.run`: any sequence of client operations and steps of analyses.
-/

namespace FaultChain

inductive AnalysisState where
  | pending
  | running
  | succeeded
  | failed
  | canceled
  deriving DecidableEq

namespace AnalysisState

def name : AnalysisState → String
  | .pending => "pending"
  | .running => "running"
  | .succeeded => "succeeded"
  | .failed => "failed"
  | .canceled => "canceled"

def isFinal : AnalysisState → Bool
  | .pending => false
  | .running => false
  | _ => true

end AnalysisState

structure RunEnd where
  summary : Option Summary := none
  /-- The run directory, empty if there is none. -/
  dir : String := ""
  failure : Option Failure := none

def RunEnd.verdict (e : RunEnd) (stopped : Bool) : AnalysisState :=
  if stopped then .canceled
  else if e.failure.isSome then .failed
  else .succeeded

-- Once the run has returned it is looked up whether the analysis was told to stop; only later is its
-- end recorded, while it still has its slot.
inductive Stage where
  | waiting
  | admitted
  | running
  | returned (result : RunEnd)
  | judged (result : RunEnd) (stopped : Bool)
  | recorded
  | over

def Stage.holdsSlot : Stage → Bool
  | .waiting => false
  | .over => false
  | _ => true

/-- An analysis in the table of the service. -/
structure Analysis where
  id : Uuid
  request : AnalysisRequest
  options : Options
  created : Int
  state : AnalysisState := .pending
  /-- When its end was recorded, which is shown as a number; a clock never says 0 then, which stands
  for no end. -/
  finished : Option Int := none
  result : RunEnd := {}
  stage : Stage := .waiting
  /-- Whether it was told to stop. -/
  stopped : Bool := false
  runs : Nat := 0

namespace Analysis

def finish (a : Analysis) (result : RunEnd) (stopped : Bool) (now : Int) : Analysis :=
  { a with state := result.verdict stopped, finished := some now, result := result }

/-- Tells an analysis to stop unless its end is recorded. -/
def stop (a : Analysis) : Analysis := if a.finished.isSome then a else { a with stopped := true }

end Analysis

/-- The service. -/
structure Service where
  workDir : String
  free : Nat
  started : Int := 0
  /-- All analyses ever accepted, the latest one last. -/
  analyses : List Analysis := []

/-- Number of analyses in each state. -/
structure AnalysisCounts where
  pending : Nat := 0
  running : Nat := 0
  succeeded : Nat := 0
  failed : Nat := 0
  canceled : Nat := 0

namespace AnalysisCounts

def add (c : AnalysisCounts) : AnalysisState → AnalysisCounts
  | .pending => { c with pending := c.pending + 1 }
  | .running => { c with running := c.running + 1 }
  | .succeeded => { c with succeeded := c.succeeded + 1 }
  | .failed => { c with failed := c.failed + 1 }
  | .canceled => { c with canceled := c.canceled + 1 }

def total (c : AnalysisCounts) : Nat :=
  c.pending + c.running + c.succeeded + c.failed + c.canceled

end AnalysisCounts

namespace Service

/-! ## Starting -/

def ofSlots (workDir : String) (slots : Int) (now : Int) : Service :=
  { workDir := workDir, free := slots.toNat, started := now }

/-- Starts a service, which has one slot at least and makes its directory. -/
def start (workDir : String) (slots : Int) (now : Int) (files : FileTree) :
    Except Failure (Service × FileTree) :=
  let dir := if workDir == "" then Options.default.parentDir else workDir
  match files.makeDirs dir with
  | .error f => .error (.within ("failed to create work directory " ++ dir) f)
  | .ok files => .ok (ofSlots dir (if slots ≤ 0 then 1 else slots) now, files)

/-! ## Operations of clients -/

def lookup? (s : Service) (id : Uuid) : Option Analysis := s.analyses.find? (·.id = id)

def modify (s : Service) (id : Uuid) (f : Analysis → Analysis) : Service :=
  { s with analyses := s.analyses.map fun a => if a.id = id then f a else a }

def refusal? (options : Options) (files : FileTree) : Option Failure :=
  match options.validate, files.stat options.bitcode with
  | .error f, _ => some (.invalidRequest f.message)
  | .ok _, .error f => some (.invalidRequest f.message)
  | .ok _, .ok _ => none

/-- Submits an analysis under a new identifier. -/
def submit (s : Service) (files : FileTree) (id : Uuid) (now : Int) (r : AnalysisRequest) :
    Except Failure Service :=
  let options := r.options s.workDir id
  match refusal? options files with
  | some f => .error f
  | none =>
    .ok { s with
      analyses := s.analyses ++ [{ id := id, request := r, options := options, created := now }] }

def find (s : Service) (id : Uuid) : Except Failure Analysis :=
  match s.lookup? id with
  | some a => .ok a
  | none => .error (.analysisNotFound id.render)

/-- Tells an analysis to stop. -/
def cancel (s : Service) (id : Uuid) : Except Failure Service :=
  match s.find id with
  | .error f => .error f
  | .ok a =>
    if a.finished.isSome then .error (.analysisFinished (id.render ++ " is " ++ a.state.name))
    else .ok (s.modify id Analysis.stop)

def cancelAll (s : Service) : Service := { s with analyses := s.analyses.map Analysis.stop }

def counts (s : Service) : AnalysisCounts :=
  s.analyses.foldl (fun c a => c.add a.state) {}

/-! ## Steps of analyses -/

inductive Advance where
  | admission
  | withdrawal (now : Int)
  | beginning
  | returning (result : RunEnd)
  | judgment
  | recording (now : Int)
  | release

/-- What an analysis that never ran came to. -/
def withdrawn : RunEnd := { failure := some .canceled }

/-- An analysis after a step, if the step is possible where it stands. -/
def Advance.perform? (a : Analysis) : Advance → Option Analysis
  | .admission =>
    match a.stage with
    | .waiting => some { a with stage := .admitted }
    | _ => none
  | .withdrawal now =>
    match a.stage, a.stopped with
    | .waiting, true => some { a.finish withdrawn true now with stage := .over }
    | _, _ => none
  | .beginning =>
    match a.stage with
    | .admitted => some { a with stage := .running, state := .running, runs := a.runs + 1 }
    | _ => none
  | .returning result =>
    match a.stage with
    | .running => some { a with stage := .returned result }
    | _ => none
  | .judgment =>
    match a.stage with
    | .returned result => some { a with stage := .judged result a.stopped }
    | _ => none
  | .recording now =>
    match a.stage with
    | .judged result stopped => some { a.finish result stopped now with stage := .recorded }
    | _ => none
  | .release =>
    match a.stage with
    | .recorded => some { a with stage := .over }
    | _ => none

/-- The free slots after a step of an analysis, if there are enough. -/
def Advance.slots? (free : Nat) : Advance → Option Nat
  | .admission => if free = 0 then none else some (free - 1)
  | .release => some (free + 1)
  | _ => some free

/-- The service after a step of an analysis. A step that is not possible changes nothing. -/
def advance (s : Service) (id : Uuid) (step : Advance) : Service :=
  match (s.lookup? id).bind (Advance.perform? · step), step.slots? s.free with
  | some a, some free => { s.modify id (fun _ => a) with free := free }
  | _, _ => s

/-! ## Histories -/

inductive Event where
  | submit (files : FileTree) (id : Uuid) (now : Int) (request : AnalysisRequest)
  | cancel (id : Uuid)
  | cancelAll
  | advance (id : Uuid) (step : Advance)

/-- The service after an event. An operation that is refused changes nothing. -/
def step (s : Service) : Event → Service
  | .submit files id now request => (s.submit files id now request).toOption.getD s
  | .cancel id => (s.cancel id).toOption.getD s
  | .cancelAll => s.cancelAll
  | .advance id a => s.advance id a

def run (s : Service) (events : List Event) : Service := events.foldl step s

end Service
end FaultChain
