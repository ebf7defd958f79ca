import FaultChain.Files
import FaultChain.Fuzz.Saturation
import FaultChain.Number.Duration
import FaultChain.Validation

/-!
# Configuration

Where the external tools are, and the limits shared by all analyses.

* `Config.default`: the configuration without a file.
* `Config.validate`: why a configuration cannot be used.
* `Config.checkBinaries`: the tools that cannot be found.
-/

namespace FaultChain

structure Binaries where
  opt : String := "opt"
  passes : String := "libMackeOpt.so"
  executor : String := "klee"
  fuzzOpt : String := "opt"
  fuzzPasses : String := ""
  fuzzSources : String := ""
  clang : String := "clang"
  fuzzCompiler : String := "afl-clang"
  fuzzer : String := "afl-fuzz"
  fuzzerLibrary : String := ""
  /-- Turns inputs of the fuzzer into test cases, unless empty. -/
  converter : String := ""

namespace Binaries

def toList (b : Binaries) : List (String × String) :=
  [("llvmopt", b.opt), ("libmackeopt", b.passes), ("klee", b.executor),
    ("llvmfuzzopt", b.fuzzOpt), ("libmackefuzzopt", b.fuzzPasses),
    ("libmackefuzzpath", b.fuzzSources), ("clang", b.clang), ("afl_cc", b.fuzzCompiler),
    ("afl_fuzz", b.fuzzer), ("afl_lib", b.fuzzerLibrary), ("ktest_converter", b.converter)]

def set? (b : Binaries) (name value : String) : Option Binaries :=
  match name with
  | "llvmopt" => some { b with opt := value }
  | "libmackeopt" => some { b with passes := value }
  | "klee" => some { b with executor := value }
  | "llvmfuzzopt" => some { b with fuzzOpt := value }
  | "libmackefuzzopt" => some { b with fuzzPasses := value }
  | "libmackefuzzpath" => some { b with fuzzSources := value }
  | "clang" => some { b with clang := value }
  | "afl_cc" => some { b with fuzzCompiler := value }
  | "afl_fuzz" => some { b with fuzzer := value }
  | "afl_lib" => some { b with fuzzerLibrary := value }
  | "ktest_converter" => some { b with converter := value }
  | _ => none

end Binaries

structure Config where
  binaries : Binaries := {}
  /-- Number of parallel runs; zero means one per processor of the host. -/
  threadNum : Int := 0
  /-- Seconds added to every time limit before a run is killed. -/
  graceSeconds : Int := 10
  /-- Memory of a fuzzing worker in megabytes. -/
  memLimit : Int := 50
  useGroups : Bool := false
  groupRoot : String := "/sys/fs/cgroup/memory"
  ignoreSwap : Bool := false
  /-- Length of the seed filled with zeros. -/
  inputMaxLen : Int := 32
  pollInterval : Duration := Duration.ofSeconds 5
  cycleDone : Int := 2
  incomplete : Int := 1
  threshold : Int := 2

namespace Config

def default : Config := {}

/-- The fields that break a rule. -/
def violations (c : Config) : List Violation :=
  let nonNegative (path field : String) (n : Int) : List Violation :=
    Check.rules path field [("min", 0 ≤ n)]
  Check.required "Config.Binaries." "LLVMOpt" c.binaries.opt ++
  Check.required "Config.Binaries." "LibMackeOpt" c.binaries.passes ++
  Check.required "Config.Binaries." "Klee" c.binaries.executor ++
  Check.rules "Config.Runtime." "ThreadNum" [("min", 0 ≤ c.threadNum), ("max", c.threadNum ≤ 127)] ++
  nonNegative "Config.Runtime." "GraceSeconds" c.graceSeconds ++
  nonNegative "Config.Fuzz." "MemLimitMB" c.memLimit ++
  Check.rules "Config.Fuzz." "InputMaxLen" [("min", 1 ≤ c.inputMaxLen)] ++
  Check.rules "Config.Saturation." "PollInterval" [("gt", Duration.zero < c.pollInterval)] ++
  nonNegative "Config.Saturation." "CycleDoneIncrement" c.cycleDone ++
  nonNegative "Config.Saturation." "IncompleteIncrement" c.incomplete ++
  nonNegative "Config.Saturation." "Threshold" c.threshold

def validate (c : Config) : Except Failure Config :=
  match c.violations with
  | [] => .ok c
  | vs => .error (.other ("invalid config: " ++ Violation.describe vs))

def threadCount (c : Config) (processors : Int) : Int :=
  if 0 < c.threadNum then c.threadNum else processors

/-- The slack granted to a run after its own time limit. -/
def grace (c : Config) : Duration := Duration.ofSeconds c.graceSeconds

def saturation (c : Config) : SaturationRule :=
  { cycleDone := Int64.ofInt c.cycleDone
    incomplete := Int64.ofInt c.incomplete
    threshold := Int64.ofInt c.threshold }

/-! ## Tools -/

def searchDir : String := "bin"

def isRunnable (files : FileTree) (path : String) : Bool :=
  match files.entry? path with
  | .ok (.file _ runnable) => runnable
  | _ => false

/-- Whether a name is that of a tool in the search directory. -/
def isOnPath (files : FileTree) (name : String) : Bool :=
  name != "" && isRunnable files (Path.join [searchDir, name])

/-- Whether a tool or library can be found: paths and libraries as files, all else by name. -/
def canFind (files : FileTree) (binary : String) : Bool :=
  if binary == "" then false
  else if binary.toList.contains '/' || Text.endsWith binary ".so" then files.exists? binary
  else isOnPath files binary

def required (c : Config) (withFuzzer : Bool) : List (String × String) :=
  let b := c.binaries
  [("llvmopt", b.opt), ("libmackeopt", b.passes), ("klee", b.executor)] ++
  if withFuzzer then
    [("llvmfuzzopt", b.fuzzOpt), ("libmackefuzzopt", b.fuzzPasses), ("clang", b.clang),
      ("afl_cc", b.fuzzCompiler), ("afl_fuzz", b.fuzzer)]
  else []

def checkBinaries (c : Config) (files : FileTree) (withFuzzer : Bool) : Except Failure Unit :=
  let missing := (c.required withFuzzer).filter fun (_, binary) => !canFind files binary
  if missing.isEmpty then .ok ()
  else
    let shown := (missing.map fun (name, binary) => name ++ " (" ++ Text.quote binary ++ ")")
    .error (.other ("config: binaries not found: " ++
      Text.join ", " (shown.mergeSort (· ≤ ·))))

end Config
end FaultChain
