import FaultChain.CallGraph.Batches
import FaultChain.Campaign.World
import FaultChain.Fuzz.Fuzzer
import FaultChain.Options
import FaultChain.Registry.Views
import FaultChain.Session.Basic
import FaultChain.Toolchain.Basic

/-!
# Campaigns

A campaign analyzes one program: every function is analyzed in isolation first, then the errors found
are propagated along the call graph.

* `Campaign`: the fixed parts of a campaign.
* `Site`: what is set up before the first run.
* `Campaign.State`: a campaign under way.
* `Campaign.register`: takes the results of finished runs into the registry.
-/

namespace FaultChain

/-- The fixed parts of a campaign. -/
structure Campaign where
  config : Config
  options : Options
  toolchain : Toolchain
  /-- Runs the symbolic executor, given what was done before. -/
  explore : List Deed → SymbolicRun → Host → TaskEnd Result × Host
  /-- How many runs may be active at once. -/
  limit : Nat
  /-- What happens first in each batch of runs; the rest of a batch is finished in order. -/
  interleaving : Nat → List (BatchEvent Signal) := fun _ => []
  /-- The same while the images of a batch are built. -/
  preparing : Nat → List (BatchEvent Signal) := fun _ => []
  /-- Whether the worker of a function goes without a memory group once the campaign is told to stop,
  although one is free. Either may happen. -/
  declines : String → Bool := fun _ => false
  /-- The largest number of stages of a session, which is unfinished if it would enter more. -/
  sessionStages : Nat := 1000000

/-- What is set up before the first run. -/
structure Site where
  dir : RunDir
  graph : CallGraph
  start : Int
  fuzzer : Fuzzer
  drivers : List String := []

namespace Campaign

def version : String := "1.0.0"

/-- The number of parallel runs asked for, where `available` is the number of processors. -/
def threads (c : Config) (o : Options) (available : Int) : Int :=
  if o.threads ≤ 0 then c.threadCount available else o.threads

/-- A campaign under way. -/
structure State where
  world : World
  registry : Registry
  /-- No run is started after this moment. -/
  deadline : Option Int := none
  functions : List String := []
  phaseOne : List Result := []
  phaseTwo : List Result := []
  /-- The output directories with registered errors, by function. -/
  errorRuns : List (String × List String) := []
  /-- Number of reports that were taken in, by kind. -/
  isolated : Nat := 0
  propagated : Nat := 0
  functionsInPhaseOne : Nat := 0
  suitableCalls : Nat := 0
  totalCalls : Nat := 0
  skippedCalls : Nat := 0
  batches : Nat := 0
  startTwo : Option Int := none

namespace State

def results (s : State) : List Result := s.phaseOne ++ s.phaseTwo

def close (s : State) (span : Span) : State := { s with world := s.world.close span }

end State

/-! ## Registration -/

/-- Adds a directory to those of a function. -/
def addRun (function dir : String) : List (String × List String) → List (String × List String)
  | [] => [(function, [dir])]
  | (f, dirs) :: rest =>
    if f == function then (f, dirs ++ [dir]) :: rest else (f, dirs) :: addRun function dir rest

/-- Takes in one report of a run. Gives whether it was registered. -/
def registerReport (function : String) (acc : Bool × State) (report : String) : Bool × State :=
  let s := acc.2
  match s.registry.registerFile s.world.host.files report function with
  | (.error _, registry) => (acc.1, { s with registry := registry })
  | (.ok e, registry) =>
    let s := { s with registry := registry }
    (true,
      if e.isPropagated then { s with propagated := s.propagated + 1 }
      else { s with isolated := s.isolated + 1 })

def registerResult (s : State) (r : Result) : State :=
  let (any, s) := r.errorFiles.foldl (registerReport r.function) (false, s)
  if any then { s with errorRuns := addRun r.function r.outDir s.errorRuns } else s

def register (s : State) (rs : List Result) : State := rs.foldl registerResult s

/-! ## Runs -/

/-- The result of a task that has none. -/
def failedTask (name : String) (why : Failure) : Result := { function := name, failure := some why }

/-- Runs a batch of tasks. Each task gets a result; once the cutoff is reached none is started. -/
def runBatch {α : Type} (c : Campaign) (cutoff : Host.Cutoff) (k : Nat)
    (fallback : String → Failure → α) (tasks : List (Task World α)) (w : World) :
    List α × World :=
  let events := (c.interleaving k).map (·.map Signal.apply)
  let (b, _) := (Scheduler.ofLimit c.limit).runBatch (fun w => cutoff.reached? w.host) fallback
    events w tasks
  (b.results, b.world)

/-- A backend run with its span. A run without a result counts as one that does not return. -/
def traced (name : String) (run : Job World (TaskEnd Result)) : Job World (TaskEnd Result) := do
  let span : Span := { name := name }
  match ← run with
  | .returned r =>
    let span := { span with attributes := r.attributes }
    .atomic fun w => (.returned r, w.close (span.failing r.failure))
  | .nothing => .atomic fun w => (.panicked Session.missingResult, w.close span.interrupted)
  | .panicked why => .atomic fun w => (.panicked why, w.close span.interrupted)

/-- One symbolic run in a directory of its own. -/
def symbolicJob (c : Campaign) (site : Site) (record : RunRecord) (run : SymbolicRun) :
    Job World (TaskEnd Result) := do
  let outDir ← .atomic (·.reserve site.dir { record with kind := symbolicKind })
  .atomic fun w => w.explore { run with outDir := outDir } c.explore

end Campaign
end FaultChain
