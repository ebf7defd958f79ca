import FaultChain.CallGraph.Basic
import FaultChain.Json.Fields
import FaultChain.Options
import FaultChain.Rehearsal.Script
import FaultChain.Report
import FaultChain.Symbolic.Command

/-!
# Values from JSON

How programs that drive the library describe values to it: traces, errors, call graphs, options,
and hosts with scripted programs. A description with a value of the wrong kind is `none`.
-/

namespace FaultChain
namespace Inspect

open Json

/-! ## Traces and errors -/

def frame? (j : Json) : Option Frame := do
  let ss ← Json.texts? j
  return ⟨ss.getD 0 "", ss.getD 1 ""⟩

/-- A trace, truncated after its entry function unless it is raw. -/
def trace? (j : Json) : Option Trace := do
  let o ← Json.object? j
  let frames ← (← getArr o "frames").mapM frame?
  let entry ← getStr o "entry"
  return if ← getBool o "raw" then { frames := frames, entry := entry }
    else Trace.ofFrames frames entry

def fault? (j : Json) : Option Fault := do
  let o ← Json.object? j
  return {
    report := ← getStr o "errfile"
    ktest := ← getStr o "ktest"
    entry := ← getStr o "entry"
    reason := ← getStr o "reason"
    location := ← getStr o "location"
    function := ← getStr o "function"
    seed := ← getStr o "seed"
    trace := ← trace? ((member? o "trace").getD .null) }

/-! ## Call graphs -/

def node? (j : Json) : Option NodeInfo := do
  let o ← Json.object? j
  return {
    calls := ← getStrs o "calls"
    calledBy := ← getStrs o "calledby"
    doublePointer := ← getBool o "hasdoubleptrarg"
    external := ← getBool o "isexternal" }

def getGraph : Members → String → Option (List (String × NodeInfo)) := getOr [] (membersOf? node?)

def getGroups? : Members → String → Option (Option (List (List String))) :=
  get? fun j => (Json.list? j).bind (·.mapM Json.texts?)

/-! ## Options -/

def getMillis (o : Members) (k : String) : Option Duration := (getInt o k).map Duration.ofMillis

def getMillisOr (d : Duration) : Members → String → Option Duration :=
  getOr d fun j => (int? j).map Duration.ofMillis

def options? (d : Options) (o : Members) : Option Options := do
  let mode ← getInt o "containment"
  return {
    bitcode := ← getOr d.bitcode text? o "bitcode"
    parentDir := ← getOr d.parentDir text? o "parent_dir"
    comment := ← getStr o "comment"
    maxTime := ← getMillisOr d.maxTime o "max_time_ms"
    maxInstructionTime := ← getMillisOr d.maxInstructionTime o "max_instruction_time_ms"
    symArgs := ← get? Json.texts? o "sym_args"
    symFiles := ← get? Json.texts? o "sym_files"
    useFuzzer := ← getBool o "use_fuzzer"
    useFlipper := ← getBool o "use_flipper"
    fuzzTime := ← getMillisOr d.fuzzTime o "fuzz_time_ms"
    flipperTime := ← getMillisOr d.flipperTime o "flipper_time_ms"
    stopFuzzWhenDone := ← getBool o "stop_fuzz_when_done"
    fuzzBitcode := ← getStr o "fuzz_bitcode"
    libraries := ← get? Json.texts? o "libraries"
    excludeKnown := ← getOr d.excludeKnown bool? o "exclude_known"
    threads := ← getInt o "threads"
    runTimeout := ← getMillis o "run_timeout_ms"
    containment := if mode == 0 then .strict else if mode == 1 then .inclusive else .unnamed
    argv := d.argv }

/-- Tools that differ from given ones; there has to be a tool of every name. -/
def getBinaries (b : Binaries) (o : Members) : Option Binaries := do
  (← getOr [] (membersOf? text?) o "binaries").foldlM (fun b (name, value) => b.set? name value) b

/-! ## Runs -/

def symbolicRun? (o : Members) : Option SymbolicRun := do
  return {
    image := ← getStr o "image"
    function := ← getStr o "function"
    outDir := ← getStr o "outdir"
    target := ← getStr o "target"
    seedDir := ← getStr o "seed"
    flags := ← getStrs o "flags"
    posixFlags := ← getStrs o "posix"
    timeout := ← getMillis o "timeout_ms" }

/-! ## Hosts -/

def rule? (j : Json) : Option Rule := do
  let o ← Json.object? j
  let hang ← getBool o "hang"
  let signal ← getBool o "signal"
  let exit ← getInt o "exit"
  return {
    needles := ← getStrs o "match"
    nth := ← getInt o "nth"
    input := ← getStr o "stdin"
    output := ← getContent o "out"
    echo := ← getStrs o "echo"
    files := ← getContents o "files"
    here := ← getBool o "cwd"
    create := ← getBool o "create"
    ending := if hang then .lasting else if signal then .signaled else .exited (exit % 256) }

def getScript : Members → Option Script := fun o =>
  getOr [] (membersOf? fun j => (Json.list? j).bind (·.mapM rule?)) o "tools"

def getFiles (o : Members) : Option FileTree := do
  return (← getContents o "files").foldl (fun t (path, text) => t.plant path text false)
    FileTree.empty

def getHost (o : Members) : Option Host := do
  return (← getScript o).host (← getFiles o)

end Inspect
end FaultChain
