import FaultChain.Campaign.Basic

/-!
# The first phase of a campaign

Every suitable function gets an entry point of its own and is analyzed in isolation: by the symbolic
executor, by the fuzzer, or by a session of both.

* `Campaign.encapsulateAll`: adds the entry points.
* `Campaign.analysis`: the analysis of one function as a job.
* `Campaign.isolate`: the phase.
-/

namespace FaultChain
namespace Campaign

/-! ## Entry points -/

/-- Adds an entry point for each function. Nothing more is added once the cutoff is reached, or after
a failure of a campaign that was told to stop. -/
def encapsulateAll (c : Campaign) (site : Site) (cutoff : Host.Cutoff) :
    List String → World → Except Failure Unit × World
  | [], w => (.ok (), w)
  | function :: rest, w =>
    if function == CallGraph.mainFunction then c.encapsulateAll site cutoff rest w
    else if (cutoff.reached? w.host).isSome then (.ok (), w)
    else
      let image := site.dir.symMains
      let pass : Pass := .encapsulate image function image
      match w.pass pass (c.toolchain.transform pass) with
      | (.ok _, w) => c.encapsulateAll site cutoff rest w
      | (.error f, w) => if w.host.canceled then (.ok (), w) else (.error f, w)

/-! ## Backends -/

def functionRecord (site : Site) (kind function : String) : RunRecord :=
  { image := if kind == fuzzKind then site.dir.program else site.dir.symMains
    function := function
    kind := kind
    phase := 1 }

def symbolicAnalysis (c : Campaign) (site : Site) (function : String) :
    Job World (TaskEnd (List Result)) := do
  let run : SymbolicRun :=
    { image := site.dir.symMains
      function := function
      flags := c.options.backendFlags
      posixFlags := c.options.posixFlags
      timeout := c.options.maxTime }
  match ← traced "backend.symbolic"
      (c.symbolicJob site (functionRecord site symbolicKind function) run) with
  | .returned r => return .returned [r]
  | .nothing => return .nothing
  | .panicked why => return .panicked why

def fuzz (site : Site) (r : FuzzRun) (w : World) : TaskEnd Result × World :=
  let (result, w) := w.onHost (site.fuzzer.run r)
  (.returned result, w)

def fuzzAnalysis (c : Campaign) (site : Site) (function : String) (group : MemoryGroup) :
    Job World (TaskEnd (List Result)) := do
  let job : Job World (TaskEnd Result) := do
    let outDir ← .atomic (·.reserve site.dir (functionRecord site fuzzKind function))
    .atomic (fuzz site
      { function := function
        outDir := outDir
        duration := c.options.fuzzTime
        stopWhenDone := c.options.stopFuzzWhenDone
        group := some group })
  match ← traced "backend.fuzz" job with
  | .returned r => return .returned [r]
  | .nothing => return .nothing
  | .panicked why => return .panicked why

def sessionHost (c : Campaign) (site : Site) (function : String) : SessionHost World :=
  { now := (·.host.wall)
    canceled := (·.host.canceled)
    files := (·.host.files)
    reserve := fun kind w => w.reserve site.dir (functionRecord site kind function)
    symbolic := fun r w => w.explore r c.explore
    fuzz := fuzz site
    convert := fun fn outDir seedDir w =>
      let ((n, why), w) := w.onHost fun h =>
        let (n, why, h) := site.fuzzer.convertQueue fn outDir seedDir h
        ((n, why), h)
      (n, why, w) }

/-- The session of a function. -/
def session (c : Campaign) (site : Site) (function : String) (group : MemoryGroup) : Session :=
  { function := function
    image := site.dir.symMains
    budget := c.options.flipperTime
    symbolicSlice := c.options.maxTime
    fuzzSlice := c.options.fuzzTime
    stopFuzzWhenDone := c.options.stopFuzzWhenDone
    flags := c.options.limitFlags
    posixFlags := c.options.posixFlags
    group := some group }

/-- The results of a session; one that was told to stop before its first run failed. -/
def sessionResults (function : String) (results : List Result) : List Result :=
  if results.isEmpty then
    [{ kind := symbolicKind
       function := function
       failure := some (.within ("flipper " ++ function) .canceled) }]
  else results

def sessionAnalysis (c : Campaign) (site : Site) (function : String) (group : MemoryGroup) :
    Job World (TaskEnd (List Result)) := do
  let span : Span :=
    { name := "backend.flipper", attributes := [("macke.function", function)] }
  match ← (c.session site function group).job (c.sessionHost site function) c.sessionStages with
  | .error why => .atomic fun w => (.panicked why, w.close span.interrupted)
  | .ok out =>
    let span := { span with
      attributes := span.attributes ++ [("macke.runs", Decimal.ofNat out.results.length),
        ("macke.converged", Result.flag out.converged)] }
    .atomic fun w => (.returned (sessionResults function out.results), w.close span)

/-- Takes a memory group, of which there is one for every active run. -/
def takeGroup (c : Campaign) (function : String) (w : World) : Option MemoryGroup × World :=
  if w.host.canceled && c.declines function then (none, w)
  else
    match w.pool.acquire with
    | some (g, pool) => (some g, { w with pool := pool })
    | none => (none, w)

/-- Holds a memory group while a job runs. -/
def withGroup (c : Campaign) (function : String)
    (job : MemoryGroup → Job World (TaskEnd (List Result))) :
    Job World (TaskEnd (List Result)) := do
  match ← .atomic (c.takeGroup function) with
  | none =>
    return .returned
      [{ kind := fuzzKind
         function := function
         failure := some (.within ("no resource group for " ++ function) .canceled) }]
  | some g =>
    let result ← job g
    .atomic fun w => (result, { w with pool := w.pool.release g })

/-- The analysis of one function. A function that cannot be fuzzed is left to the symbolic
executor. -/
def analysis (c : Campaign) (site : Site) (function : String) :
    Job World (TaskEnd (List Result)) :=
  if c.options.useFlipper && site.drivers.contains function then
    c.withGroup function (c.sessionAnalysis site function)
  else if c.options.useFuzzer && site.drivers.contains function then
    c.withGroup function (c.fuzzAnalysis site function)
  else c.symbolicAnalysis site function

/-! ## The phase -/

def isolationSpan : Span := { name := "phase-one" }

/-- Analyzes functions one by one and takes in what was found. -/
def analyzeAll (c : Campaign) (site : Site) (cutoff : Host.Cutoff) (functions : List String)
    (s : State) : State :=
  let tasks := functions.map fun f => ({ name := f, body := c.analysis site f } : Task World _)
  let (results, w) := c.runBatch cutoff 0 (fun name why => [failedTask name why]) tasks s.world
  let s := register { s with world := w, phaseOne := results.flatten } results.flatten
  { s with functionsInPhaseOne := s.registry.byEntry.size }

/-- Analyzes every suitable function in isolation. -/
def isolate (c : Campaign) (site : Site) (s : State) : Except Failure Unit × State :=
  let cutoff := s.world.host.cutoff s.deadline
  let functions := site.graph.encapsulable c.options.removeMain
  let s := { s with functions := functions }
  match s.world.onFiles (RunDir.copyFile site.dir.program site.dir.symMains) with
  | (.error f, w) =>
    (.error (.within "failed to copy program image" f), { s with world := w.close isolationSpan })
  | (.ok _, w) =>
    match c.encapsulateAll site cutoff functions w with
    | (.error f, w) => (.error f, { s with world := w.close (isolationSpan.failing (some f)) })
    | (.ok _, w) =>
      let s := c.analyzeAll site cutoff functions { s with world := w }
      let span := { isolationSpan with
        attributes := [("macke.functions", Decimal.ofNat functions.length),
          ("macke.errors", Decimal.ofNat s.registry.order.length)] }
      (.ok (), s.close span)

end Campaign
end FaultChain
