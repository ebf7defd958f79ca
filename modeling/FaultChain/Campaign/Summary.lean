import FaultChain.Campaign.Basic

/-!
# Summaries

What a campaign came to, in numbers and chains.

* `Campaign.summary`: the summary of a campaign so far.
* `Summary.toJson`: its stored form.
* `Campaign.counters`: how much the counters of the program have grown.
-/

namespace FaultChain

/-- What a campaign came to. -/
structure Summary where
  functions : Int := 0
  encapsulated : Int := 0
  tests : Int := 0
  runs : Int := 0
  phaseOneRuns : Int := 0
  phaseTwoRuns : Int := 0
  suitableCalls : Int := 0
  totalCalls : Int := 0
  skippedCalls : Int := 0
  batches : Int := 0
  errors : Int := 0
  propagated : Int := 0
  dropped : List (String × Nat) := []
  functionsWithErrors : Int := 0
  newFunctions : Int := 0
  locations : Int := 0
  timeouts : Int := 0
  outOfMemory : Int := 0
  crashed : Int := 0
  /-- The functions and calls of failed runs, sorted; absent before there is a campaign. -/
  failed : Option (List String) := none
  chains : Int := 0
  chainsLongerThanOne : Int := 0
  chainsFromMain : Int := 0
  maxChainLength : Int := 0
  avgChainLength : Binary64 := Binary64.ofNat 0
  errorRuns : Option (List (String × List String)) := none
  chainRecords : Option (List Registry.ChainRecord) := none

namespace Campaign

def count (p : Result → Bool) (rs : List Result) : Int := (rs.filter p).length

def summary (site : Site) (s : State) : Summary :=
  let stats := s.registry.stats
  let all := s.results
  let withErrors : Int := s.registry.byEntry.size
  { functions := site.graph.size
    encapsulated := s.functions.length
    tests := (all.foldl (fun n (r : Result) => n + r.tests) 0).toInt
    runs := all.length
    phaseOneRuns := s.phaseOne.length
    phaseTwoRuns := s.phaseTwo.length
    suitableCalls := s.suitableCalls
    totalCalls := s.totalCalls
    skippedCalls := s.skippedCalls
    batches := s.batches
    errors := s.registry.order.length
    propagated := s.registry.propagated
    dropped := s.registry.drops.toList
    functionsWithErrors := withErrors
    newFunctions := withErrors - s.functionsInPhaseOne
    locations := s.registry.byLocation.size
    timeouts := count (·.diagnostics.outOfTime) all
    outOfMemory := count (·.diagnostics.outOfMemory) all
    crashed := count (fun r => r.isFailed && r.diagnostics.crashed) all
    failed := some (Registry.sorted ((all.filter (·.isFailed)).map (·.label)))
    chains := stats.count
    chainsLongerThanOne := stats.longerThanOne
    chainsFromMain := stats.fromMain
    maxChainLength := stats.maxLength
    avgChainLength := stats.avgLength
    errorRuns := some (s.errorRuns.mergeSort (·.1 ≤ ·.1))
    chainRecords := some (s.registry.chainRecords ⟨site.graph.functions⟩) }

end Campaign

namespace Summary

def droppedJson (dropped : List (String × Nat)) : List (String × Json) :=
  if dropped.isEmpty then []
  else [("dropped-errors", .obj (dropped.map fun (reason, n) => (reason, .int n)))]

/-- The stored form, with a way to show the average. -/
def toJsonWith (average : Binary64 → Json) (s : Summary) : Json :=
  .obj ([("functions", .int s.functions), ("encapsulated-functions", .int s.encapsulated),
    ("testcases", .int s.tests), ("backend-runs", .int s.runs),
    ("phase-one-runs", .int s.phaseOneRuns), ("phase-two-runs", .int s.phaseTwoRuns),
    ("suitable-calls", .int s.suitableCalls), ("total-calls", .int s.totalCalls),
    ("skipped-calls", .int s.skippedCalls), ("batches", .int s.batches),
    ("totalNumberOfErrors", .int s.errors), ("propagated-errors", .int s.propagated)] ++
    droppedJson s.dropped ++
    [("numberOfFunctionsWithErrors", .int s.functionsWithErrors),
      ("new-functions-with-errors-in-phase-two", .int s.newFunctions),
      ("vulnerable-instructions", .int s.locations), ("klee-timeouts", .int s.timeouts),
      ("klee-outofmemory", .int s.outOfMemory), ("crashed-runs", .int s.crashed),
      ("failed-functions", Json.maybeStrings s.failed), ("chains", .int s.chains),
      ("chains-longer-than-one", .int s.chainsLongerThanOne),
      ("chainsfrommain", .int s.chainsFromMain), ("max-chain-length", .int s.maxChainLength),
      ("avg-chain-length", average s.avgChainLength),
      ("functionToKleeRunWithErrorMap", match s.errorRuns with
        | none => .null
        | some runs => .obj (runs.map fun (f, dirs) => (f, Json.strings dirs))),
      ("errorchains", match s.chainRecords with
        | none => .null
        | some cs => .arr (cs.map (·.toJson)))])

def toJson (s : Summary) : Json := s.toJsonWith fun x => .num x.render

end Summary

namespace Campaign

def counterName (name : String) (labels : List (String × String)) : String :=
  Text.join " " (name :: labels.map fun (k, v) => k ++ "=" ++ v)

def runCounter (phase : String) (r : Result) : String :=
  counterName "macke_backend_runs_total"
    [("kind", if r.kind == "" then "unknown" else r.kind), ("outcome", r.outcome),
      ("phase", phase)]

def tally (names : List String) : List (String × Nat) :=
  names.eraseDups.map fun n => (n, names.count n)

/-- How much the counters of the program have grown by a campaign. -/
def counters (s : State) : List (String × Nat) :=
  let all : List (String × Nat) :=
    tally (s.phaseOne.map (runCounter "1") ++ s.phaseTwo.map (runCounter "2")) ++
    s.registry.drops.toList.map (fun (reason, n) =>
      (counterName "macke_registry_dropped_errors_total" [("reason", reason)], n)) ++
    [(counterName "macke_registry_errors_total" [("kind", "isolated")], s.isolated),
      (counterName "macke_registry_errors_total" [("kind", "propagated")], s.propagated),
      ("macke_phase_two_skipped_edges_total", s.skippedCalls)]
  all.filter (0 < ·.2)

end Campaign
end FaultChain
