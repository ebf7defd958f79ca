import FaultChain.Inspect.Requests
import FaultChain.Inspect.Values
import FaultChain.Rehearsal.Session

/-!
# Sessions as JSON

For programs that drive the library: descriptions of sessions to rehearse, and what was run in them.
-/

namespace FaultChain
namespace Inspect

open Json

/-! ## Descriptions -/

def runScript? (record : String) (j : Json) : Option RunScript := do
  let o ← Json.object? j
  return {
    takes := ← get? (fun j => (int? j).map Duration.ofMillis) o "advance_ms"
    record := ← get? content? o record
    queue := ← getStrs o "queue"
    tests := ← getInt o "tests"
    failure := ← getStr o "err"
    cancels := ← getBool o "cancel" }

def conversionScript? (j : Json) : Option ConversionScript := do
  let o ← Json.object? j
  let why ← getStr o "err"
  return {
    count := ← getInt o "n"
    failure := match why with
      | "" => none
      | "no_converter" => some .noConverter
      | text => some (.other text) }

def sessionScript? (o : Members) : Option SessionScript := do
  return {
    symbolic := ← (← getArr o "sym").mapM (runScript? "istats")
    fuzz := ← (← getArr o "fuzz").mapM (runScript? "plot")
    conversions := ← (← getArr o "convert").mapM conversionScript? }

def session? (o : Members) : Option Session := do
  let group ← getBool o "group"
  return {
    function := ← getStr o "function"
    image := ← getStr o "image"
    budget := ← getMillis o "budget_ms"
    symbolicSlice := ← getMillis o "symbolic_ms"
    fuzzSlice := ← getMillis o "fuzz_ms"
    stopFuzzWhenDone := ← getBool o "stop"
    flags := ← getStrs o "flags"
    posixFlags := ← getStrs o "posix"
    group := if group then some { name := MemoryGroup.indexed 0 } else none }

/-! ## Records -/

def millis (d : Duration) : Json := .int (d.toInt.tdiv 1000000)

def symbolicRun (r : SymbolicRun) : Members :=
  [("image", .str r.image), ("outdir", .str r.outDir), ("flags", .strings r.flags),
    ("posix", .strings r.posixFlags), ("seed", .str r.seedDir), ("timeout_ms", millis r.timeout)]

def sessionStage (w : SessionStage) : Members :=
  [("sym_runs", .arr (w.symbolic.map fun r =>
      .obj (symbolicRun r ++ [("function", .str r.function), ("target", .str r.target)]))),
    ("fuzz_runs", .arr (w.fuzz.map fun r =>
      .obj [("function", .str r.function), ("outdir", .str r.outDir), ("input", .str r.inputDir),
        ("duration_ms", millis r.duration), ("stop", .bool r.stopWhenDone),
        ("wrapper", .strings (MemoryGroup.wrapper r.group))])),
    ("converts", .arr (w.conversions.map fun (function, outDir, seedDir) =>
      pairs [("function", function), ("outdir", outDir), ("seed", seedDir)]))]

end Inspect
end FaultChain
