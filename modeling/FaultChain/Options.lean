import FaultChain.Json.Basic
import FaultChain.Number.Duration
import FaultChain.Trace
import FaultChain.Validation

/-!
# Options of an analysis

* `Options.default`: the defaults.
* `Options.validate`: why options cannot be used.
* `Options.backendFlags`, `posixFlags`: flags of the symbolic executor.
* `Options.toJson`: the form in which options are stored.

Lists that were never given are distinguished from empty ones.
-/

namespace FaultChain

/-- The parameters of one analysis. -/
structure Options where
  bitcode : String := ""
  parentDir : String := "/tmp/macke"
  comment : String := ""
  /-- Bounds every symbolic run. -/
  maxTime : Duration := Duration.ofSeconds 120
  maxInstructionTime : Duration := Duration.ofSeconds 12
  /-- Least and largest number of arguments and their length; without them the program entry point
  is not analyzed. -/
  symArgs : Option (List String) := none
  symFiles : Option (List String) := none
  useFuzzer : Bool := false
  useFlipper : Bool := false
  fuzzTime : Duration := Duration.ofMinutes 10
  flipperTime : Duration := Duration.ofMinutes 30
  stopFuzzWhenDone : Bool := false
  /-- Replaces the bitcode as the source of the fuzz target, unless empty. -/
  fuzzBitcode : String := ""
  libraries : Option (List String) := none
  excludeKnown : Bool := true
  /-- Number of parallel runs; zero means the configured number. -/
  threads : Int := 0
  /-- No further run is started once this time is over, unless it is zero. -/
  runTimeout : Duration := Duration.zero
  containment : Containment := .strict
  argv : Option (List String) := none

namespace Options

def default : Options := {}

def fuzzing (o : Options) : Bool := o.useFuzzer || o.useFlipper

/-- Whether the program entry point is left out of both phases. -/
def removeMain (o : Options) : Bool := (o.symArgs.getD []).isEmpty

/-! ## Validation -/

def violations (o : Options) : List Violation :=
  let path := "Options."
  Check.required path "Bitcode" o.bitcode ++
  Check.required path "ParentDir" o.parentDir ++
  Check.rules path "MaxTime" [("gt", Duration.zero < o.maxTime)] ++
  Check.rules path "MaxInstructionTime" [("gte", Duration.zero ≤ o.maxInstructionTime)] ++
  Check.numbers path "SymArgs" 3 o.symArgs ++
  Check.numbers path "SymFiles" 2 o.symFiles ++
  Check.rules path "FuzzTime" [("gte", Duration.zero ≤ o.fuzzTime)] ++
  Check.rules path "FlipperTime" [("gte", Duration.zero ≤ o.flipperTime)] ++
  Check.rules path "Threads" [("gte", 0 ≤ o.threads), ("lte", o.threads ≤ 127)] ++
  Check.rules path "RunTimeout" [("gte", Duration.zero ≤ o.runTimeout)]

/-- The time of one symbolic and one fuzzing run. -/
def roundTime (o : Options) : Duration := o.maxTime + o.fuzzTime

def validate (o : Options) : Except Failure Unit :=
  let bad (why : String) : Except Failure Unit := .error (.other ("invalid options: " ++ why))
  match o.violations with
  | v :: vs => bad (Violation.describe (v :: vs))
  | [] =>
    if o.fuzzing && o.fuzzTime ≤ Duration.zero then bad "fuzzing needs a positive fuzz time"
    else if o.useFlipper && o.flipperTime < o.roundTime then
      bad ("flipper time " ++ o.flipperTime.render ++ " is shorter than one round (" ++
        o.roundTime.render ++ ")")
    else .ok ()

/-! ## Flags -/

/-- The flags of the symbolic executor without a time budget. -/
def limitFlags (o : Options) : List String :=
  if o.maxInstructionTime ≤ Duration.zero then []
  else ["--max-instruction-time=" ++ Decimal.ofInt o.maxInstructionTime.wholeSeconds]

def backendFlags (o : Options) : List String :=
  ("--max-time=" ++ Decimal.ofInt o.maxTime.wholeSeconds) :: o.limitFlags

def posixFlags (o : Options) : List String :=
  let group (flag : String) (given : Option (List String)) : List String :=
    match given.getD [] with
    | [] => []
    | xs => flag :: xs
  group "--sym-args" o.symArgs ++ group "--sym-files" o.symFiles

/-! ## Stored form -/

def toJson (o : Options) (threads : Int) : Json :=
  .obj
    ([("bitcode", .str o.bitcode),
      ("parent-dir", .str o.parentDir),
      ("comment", .str o.comment),
      ("max-time", Json.int o.maxTime.wholeSeconds),
      ("max-instruction-time", Json.int o.maxInstructionTime.wholeSeconds),
      ("sym-args", Json.maybeStrings o.symArgs),
      ("sym-files", Json.maybeStrings o.symFiles),
      ("use-fuzzer", .bool o.useFuzzer),
      ("use-flipper", .bool o.useFlipper),
      ("fuzz-time", Json.int o.fuzzTime.wholeSeconds),
      ("flipper-time", Json.int o.flipperTime.wholeSeconds),
      ("stop-fuzz-when-done", .bool o.stopFuzzWhenDone)] ++
    (if o.fuzzBitcode == "" then [] else [("fuzz-bc", .str o.fuzzBitcode)]) ++
    [("libraries", Json.maybeStrings o.libraries),
      ("exclude-known", .bool o.excludeKnown),
      ("threads", Json.int threads),
      ("run-timeout", Json.int o.runTimeout.wholeSeconds),
      ("containment", .str o.containment.name),
      ("klee-flags", Json.strings o.backendFlags),
      ("posix4main", if o.posixFlags.isEmpty then .null else Json.strings o.posixFlags)])

end Options
end FaultChain
