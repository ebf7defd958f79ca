import FaultChain.Json.Reader
import FaultChain.Options
import FaultChain.Uuid

/-!
# Requests for analyses

* `AnalysisRequest.decode?`: reads a request from JSON.
* `AnalysisRequest.violations`: the fields that break a rule.
* `AnalysisRequest.options`: the options a requested analysis runs with.
* `AnalysisRequest.toJson`: the form in which a request is shown.
-/

namespace FaultChain

/-- What a client asks for. Times are in seconds; those that are not positive stand for the
defaults. -/
structure AnalysisRequest where
  bitcode : String := ""
  comment : String := ""
  maxTime : Int := 0
  maxInstructionTime : Int := 0
  symArgs : Option (List String) := none
  symFiles : Option (List String) := none
  useFuzzer : Bool := false
  useFlipper : Bool := false
  fuzzTime : Int := 0
  stopFuzzWhenDone : Bool := false
  excludeKnown : Option Bool := none
  libraries : Option (List String) := none
  threads : Int := 0
  timeout : Int := 0

namespace AnalysisRequest

/-! ## Reading -/

/-- Reads a request; null asks for nothing. Members of other names are ignored. -/
def decode? : Json → Option AnalysisRequest
  | .null => some {}
  | .obj members => do
    return {
      bitcode := ← Json.textField members "bitcode"
      comment := ← Json.textField members "comment"
      maxTime := ← Json.intField members "max_time"
      maxInstructionTime := ← Json.intField members "max_instruction_time"
      symArgs := ← Json.textsField? members "sym_args"
      symFiles := ← Json.textsField? members "sym_files"
      useFuzzer := ← Json.boolField members "use_fuzzer"
      useFlipper := ← Json.boolField members "use_flipper"
      fuzzTime := ← Json.intField members "fuzz_time"
      stopFuzzWhenDone := ← Json.boolField members "stop_fuzz_when_done"
      excludeKnown := ← Json.boolField? members "exclude_known"
      libraries := ← Json.textsField? members "libraries"
      threads := ← Json.intField members "threads"
      timeout := ← Json.intField members "timeout" }
  | _ => none

/-! ## Rules -/

/-- The fields that break a rule. Numbers that are zero count as not given. -/
def violations (r : AnalysisRequest) : List Violation :=
  let path := "AnalysisRequest."
  let positive (n : Int) : String × Bool := ("min", n == 0 || 1 ≤ n)
  Check.required path "Bitcode" r.bitcode ++
  Check.rules path "MaxTime" [positive r.maxTime] ++
  Check.rules path "MaxInstTime" [positive r.maxInstructionTime] ++
  Check.ofLength path "SymArgs" 3 r.symArgs ++
  Check.ofLength path "SymFiles" 2 r.symFiles ++
  Check.rules path "FuzzTime" [positive r.fuzzTime] ++
  Check.rules path "Threads" [positive r.threads, ("max", r.threads ≤ 127)] ++
  Check.rules path "Timeout" [positive r.timeout]

/-- Why a request is refused before it is looked at as an analysis. -/
def refusal? (r : AnalysisRequest) : Option String :=
  match r.violations with
  | [] => none
  | vs => some (Violation.describe vs)

/-! ## Options -/

/-- A requested number of seconds if it is positive, or else a default. -/
def seconds (requested : Int) (default : Duration) : Duration :=
  if 0 < requested then Duration.ofSeconds requested else default

/-- The options an analysis runs with below a directory. -/
def options (r : AnalysisRequest) (workDir : String) (id : Uuid) : Options :=
  let d := Options.default
  { d with
    bitcode := r.bitcode
    parentDir := workDir
    comment := r.comment
    maxTime := seconds r.maxTime d.maxTime
    maxInstructionTime := seconds r.maxInstructionTime d.maxInstructionTime
    symArgs := r.symArgs
    symFiles := r.symFiles
    useFuzzer := r.useFuzzer
    useFlipper := r.useFlipper
    fuzzTime := seconds r.fuzzTime d.fuzzTime
    stopFuzzWhenDone := r.stopFuzzWhenDone
    libraries := r.libraries
    excludeKnown := r.excludeKnown.getD d.excludeKnown
    threads := r.threads
    runTimeout := seconds r.timeout d.runTimeout
    argv := some ["macke-server", id.render] }

/-! ## Shown form -/

def toJson (r : AnalysisRequest) : Json :=
  .obj [("bitcode", .str r.bitcode), ("comment", .str r.comment), ("max_time", .int r.maxTime),
    ("max_instruction_time", .int r.maxInstructionTime), ("sym_args", .maybeStrings r.symArgs),
    ("sym_files", .maybeStrings r.symFiles), ("use_fuzzer", .bool r.useFuzzer),
    ("use_flipper", .bool r.useFlipper), ("fuzz_time", .int r.fuzzTime),
    ("stop_fuzz_when_done", .bool r.stopFuzzWhenDone),
    ("exclude_known", match r.excludeKnown with
      | some b => .bool b
      | none => .null),
    ("libraries", .maybeStrings r.libraries), ("threads", .int r.threads),
    ("timeout", .int r.timeout)]

end AnalysisRequest
end FaultChain
