import FaultChain.Config.Basic
import FaultChain.Document.Value
import FaultChain.Environment

/-!
# Loading a configuration

A configuration is the defaults, changed by a file and then by environment variables.

* `Config.applyDocument`: changes by a document.
* `Config.applyEnv`: changes by environment variables.
* `Config.load`: both, and validation.
-/

namespace FaultChain

namespace Config

/-! ## Documents -/

def setBy {α : Type} (old : α) (read? : Document.Scalar → Document.Value → Option α)
    (node : Document.Node) : Option α := do
  match ← node.itself? with
  | .scalar s =>
    match ← s.value? with
    | .nothing => return old
    | v => read? s v
  | _ => none

def setText (old : String) : Document.Node → Option String := setBy old fun s _ => some s.text

/-- The integer part of a number that is at most `2 ^ 63`. Numbers that do not fit become the least
integer. -/
def integerPart? (x : Binary64) : Option Int :=
  let n := x.truncate
  if x.isNaN || Word64.half < n then none
  else if n < -(Word64.half : Int) || n == Word64.half then some (-(Word64.half : Int))
  else some n

/-- Sets an integer; a fraction is cut off. -/
def setInt (old : Int) : Document.Node → Option Int := setBy old fun _ v =>
  match v with
  | .int n => if n < Word64.half then some n else none
  | .float x => integerPart? x
  | _ => none

def truthWord? (s : String) : Option Bool :=
  if ["y", "Y", "yes", "Yes", "YES", "on", "On", "ON"].contains s then some true
  else if ["n", "N", "no", "No", "NO", "off", "Off", "OFF"].contains s then some false
  else none

def setBool (old : Bool) : Document.Node → Option Bool := setBy old fun _ v =>
  match v with
  | .bool b => some b
  | .text t => truthWord? t
  | _ => none

def setDuration (old : Duration) : Document.Node → Option Duration := setBy old fun _ v =>
  match v with
  | .text t => Duration.parse t
  | _ => none

def setBinary (b : Binaries) (key : String) (v : Document.Node) : Option Binaries :=
  match b.toList.lookup key with
  | none => some b
  | some old => (setText old v).bind (b.set? key ·)

/-- Changes a field of a section; unknown sections and keys are ignored. -/
def setField (section_ : String) (c : Config) (key : String) (v : Document.Node) :
    Option Config :=
  match section_, key with
  | "binaries", _ => do return { c with binaries := ← setBinary c.binaries key v }
  | "runtime", "threadnum" => do return { c with threadNum := ← setInt c.threadNum v }
  | "runtime", "grace_seconds" => do return { c with graceSeconds := ← setInt c.graceSeconds v }
  | "fuzz", "memlimit" => do return { c with memLimit := ← setInt c.memLimit v }
  | "fuzz", "use_cgroups" => do return { c with useGroups := ← setBool c.useGroups v }
  | "fuzz", "cgroup_root" => do return { c with groupRoot := ← setText c.groupRoot v }
  | "fuzz", "ignore_swap" => do return { c with ignoreSwap := ← setBool c.ignoreSwap v }
  | "fuzz", "input_maxlen" => do return { c with inputMaxLen := ← setInt c.inputMaxLen v }
  | "saturation", "poll_interval" => do
    return { c with pollInterval := ← setDuration c.pollInterval v }
  | "saturation", "cycle_done_increment" => do return { c with cycleDone := ← setInt c.cycleDone v }
  | "saturation", "incomplete_increment" => do
    return { c with incomplete := ← setInt c.incomplete v }
  | "saturation", "threshold" => do return { c with threshold := ← setInt c.threshold v }
  | _, _ => some c

/-- Changes something field by field; nothing changes nothing. -/
def applyFields (c : Config) (set : Config → String → Document.Node → Option Config)
    (node : Document.Node) : Option Config := do
  match ← node.itself? with
  | .mapping entries =>
    let fields ← Document.Node.fields? Document.Node.mergeDepth entries
    fields.foldlM (fun c (key, v) => set c key v) c
  | .scalar s =>
    match ← s.value? with
    | .nothing => return c
    | _ => none
  | _ => none

def sections : List String := ["binaries", "runtime", "fuzz", "saturation"]

def applySection (c : Config) (name : String) (v : Document.Node) : Option Config :=
  if sections.contains name then applyFields c (setField name) v else some c

def applyDocument (c : Config) (node : Document.Node) : Option Config :=
  applyFields c applySection node

/-! ## Environment variables -/

/-- A variable's value in place of an old one, unless it is empty. -/
def override (env : Environment) (name old : String) : String :=
  if env.get name == "" then old else env.get name

/-- A variable's integer in place of an old one, if it is one. -/
def overrideInt (env : Environment) (name : String) (old : Int) : Int :=
  match Decimal.parse (env.get name) with
  | .ok n => n
  | .error _ => old

def applyEnv (c : Config) (env : Environment) : Config :=
  let b := c.binaries
  let flag := env.get "MACKE_USE_CGROUPS"
  { c with
    binaries :=
      { opt := override env "MACKE_LLVMOPT" b.opt
        passes := override env "MACKE_LIBMACKEOPT" b.passes
        executor := override env "MACKE_KLEE" b.executor
        fuzzOpt := override env "MACKE_LLVMFUZZOPT" b.fuzzOpt
        fuzzPasses := override env "MACKE_LIBMACKEFUZZOPT" b.fuzzPasses
        fuzzSources := override env "MACKE_LIBMACKEFUZZPATH" b.fuzzSources
        clang := override env "MACKE_CLANG" b.clang
        fuzzCompiler := override env "MACKE_AFL_CC" b.fuzzCompiler
        fuzzer := override env "MACKE_AFL_FUZZ" b.fuzzer
        fuzzerLibrary := override env "MACKE_AFL_LIB" b.fuzzerLibrary
        converter := override env "MACKE_KTEST_CONVERTER" b.converter }
    groupRoot := override env "MACKE_CGROUP_ROOT" c.groupRoot
    threadNum := overrideInt env "MACKE_THREADNUM" c.threadNum
    memLimit := overrideInt env "MACKE_FUZZ_MEMLIMIT" c.memLimit
    useGroups := if flag == "" then c.useGroups else Text.lower flag == "true" || flag == "1" }

/-! ## Loading -/

inductive LoadFailure where
  | document (path : String)
  | other (f : Failure)

/-- The failure behind it; the document's own fault is not worded here. -/
def LoadFailure.toFailure : LoadFailure → Failure
  | .document path => .within ("failed to parse config " ++ path) (.other "yaml")
  | .other f => f

/-- The configuration of a file, or the defaults if the path is empty, with changes by environment
variables. -/
def load (files : FileTree) (env : Environment) (path : String) : Except LoadFailure Config := do
  let c ←
    if path == "" then .ok default
    else
      match files.read path with
      | .error f => .error (.other (.within ("failed to read config " ++ path) f))
      | .ok text =>
        match (Document.parse? text).bind (applyDocument default) with
        | some c => .ok c
        | none => .error (.document path)
  ((c.applyEnv env).validate).mapError .other

end Config
end FaultChain
