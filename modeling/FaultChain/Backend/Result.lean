import FaultChain.Failure

/-!
# Results of backend runs

What one run of the symbolic executor or the fuzzer came to, and how its exit code and output are
classified.

* `Diagnostics.classify`: what the exit code and the captured output say.
* `runFailure`: the failure of a run with given diagnostics.
* `Result`: the outcome of a run.
* `Result.outcome`, `Result.attributes`: the outcome for counters and traces.
-/

namespace FaultChain

structure Diagnostics where
  crashed : Bool := false
  failed : Bool := false
  outOfTime : Bool := false
  outOfMemory : Bool := false
  reachedTarget : Bool := false
  deriving DecidableEq

namespace Diagnostics

def timeoutPhrases : List String := ["KLEE: WATCHDOG: time expired", "KLEE: HaltTimer invoked"]

def memoryPhrases : List String :=
  ["LLVM ERROR: not enough shared memory", "KLEE: WARNING: killing", "MEMORY_LIMIT",
    "Out of memory"]

def crashPhrases : List String :=
  ["Stack dump:", "Segmentation fault", "PLEASE submit a bug report", "Assertion `",
    "[-] PROGRAM ABORT"]

/-- Printed before the name of the function a targeted run has reached. -/
def targetPhrases : List String :=
  ["KLEE: targeted function reached: ", "reached target function "]

def mentions (output : String) (phrases : List String) : Bool :=
  phrases.any (Text.contains output ·)

/-- What exit code and output say. Limits of time and memory are expected ends, whatever the exit
code; `target` is the function a targeted run aims at, or empty. -/
def classify (exit : Int) (output target : String) : Diagnostics :=
  let outOfTime := mentions output timeoutPhrases
  let outOfMemory := mentions output memoryPhrases
  let expected := outOfTime || outOfMemory
  let crashed :=
    exit < 0 || 128 < exit || (exit != 0 && mentions output crashPhrases)
  { crashed := !expected && crashed
    failed := !expected && !crashed && exit != 0
    outOfTime := outOfTime
    outOfMemory := outOfMemory
    reachedTarget := target != "" && mentions output (targetPhrases.map (· ++ target)) }

end Diagnostics

/-- The last five lines of an output. -/
def excerpt (output : String) : String :=
  let lines := Text.split '\n' (Text.trim output)
  Text.join " | " (lines.drop (lines.length - 5))

def crashFailure (label : String) (exit : Int) (output : String) : Failure :=
  .backendCrash label exit (excerpt output)

def statusFailure (label : String) (exit : Int) (output : String) : Failure :=
  .backendFailed label exit (excerpt output)

/-- The failure of a run, if it neither ended normally nor by an expected limit. -/
def runFailure (d : Diagnostics) (label : String) (exit : Int) (output : String) :
    Option Failure :=
  if d.crashed then some (crashFailure label exit output)
  else if d.failed then some (statusFailure label exit output)
  else none

def symbolicKind : String := "symbolic"

def fuzzKind : String := "fuzz"

structure Result where
  /-- The backend, empty if none was started. -/
  kind : String := ""
  function : String := ""
  /-- Caller and callee of a targeted run, otherwise empty. -/
  caller : String := ""
  callee : String := ""
  image : String := ""
  outDir : String := ""
  output : String := ""
  exit : Int := 0
  errorFiles : List String := []
  tests : Int64 := 0
  progress : Bool := false
  diagnostics : Diagnostics := {}
  failure : Option Failure := none

namespace Result

def isFailed (r : Result) : Bool := r.failure.isSome

def isTargeted (r : Result) : Bool := r.callee != ""

def label (r : Result) : String :=
  if r.isTargeted then r.caller ++ "->" ++ r.callee else r.function

def render (r : Result) : String :=
  r.kind ++ " run of " ++ r.label ++ " (" ++ Decimal.ofInt r.tests.toInt ++ " tests, " ++
    Decimal.ofNat r.errorFiles.length ++ " errors)"

def outcome (r : Result) : String :=
  if r.isFailed then "failed"
  else if r.diagnostics.outOfMemory then "out_of_memory"
  else if r.diagnostics.outOfTime then "timeout"
  else "ok"

def flag (b : Bool) : String := if b then "true" else "false"

def attributes (r : Result) : List (String × String) :=
  [("macke.backend", r.kind),
    ("macke.function", r.function),
    ("macke.tests", Decimal.ofInt r.tests.toInt),
    ("macke.errors", Decimal.ofNat r.errorFiles.length),
    ("macke.out_of_time", flag r.diagnostics.outOfTime),
    ("macke.out_of_memory", flag r.diagnostics.outOfMemory),
    ("macke.crashed", flag r.diagnostics.crashed)] ++
  if r.isTargeted then
    [("macke.caller", r.caller),
      ("macke.callee", r.callee),
      ("macke.reached_target", flag r.diagnostics.reachedTarget)]
  else []

end Result
end FaultChain
