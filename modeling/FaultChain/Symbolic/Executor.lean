import FaultChain.Backend.OutputDir
import FaultChain.Backend.Result
import FaultChain.Host.Command
import FaultChain.Symbolic.Command

/-!
# The symbolic executor

* `Executor.run`: runs the symbolic executor and collects what it found.
* `Executor.checkTargetedSearch`: whether it can aim at calls.
-/

namespace FaultChain

structure Executor where
  program : String
  /-- Added to every time limit before a run is killed. -/
  grace : Duration := Duration.zero

namespace Executor

def ofConfig (c : Config) : Executor := { program := c.binaries.executor, grace := c.grace }

/-- The result of a run before anything is known about it. -/
def blankResult (r : SymbolicRun) : Result :=
  { kind := symbolicKind
    function := r.function
    caller := if r.target == "" then "" else r.function
    callee := r.target
    image := r.image
    outDir := r.outDir }

/-- The command of a run. A run without a time limit is never killed. -/
def command (e : Executor) (r : SymbolicRun) : Command :=
  { path := e.program
    args := r.args
    timeout := if Duration.zero < r.timeout then r.timeout + e.grace else Duration.zero }

/-- What the output of a run says; a run that was killed has not crashed. -/
def diagnose (r : SymbolicRun) (o : Output) (reports : List String) : Diagnostics :=
  let d := Diagnostics.classify o.exit o.text r.target
  let d :=
    if o.killed then
      { d with crashed := false, failed := false, outOfTime := d.outOfTime || o.timedOut }
    else d
  { d with reachedTarget := d.reachedTarget || reports.any (Text.endsWith · ".macke.err") }

/-- Runs the symbolic executor. Limits of time and memory are no failures. The output directory
exists afterwards. -/
def run (e : Executor) (r : SymbolicRun) (h : Host) : Result × Host :=
  match (e.command r).run h with
  | (.error f, h) =>
    ({ blankResult r with failure := some (.within r.label f) },
      { h with files := OutputDir.ensure h.files r.outDir })
  | (.ok o, h) =>
    let files := OutputDir.keepOutput (OutputDir.ensure h.files r.outDir) r.outDir o.text
    let reports := (OutputDir.errorFiles files r.outDir).toOption.getD []
    let tests := testCount o.text
    let d := diagnose r o reports
    ({ blankResult r with
        output := o.text
        exit := o.exit
        tests := tests
        progress := 0 < tests
        diagnostics := d
        errorFiles := reports
        failure :=
          if o.canceled then some (.within r.label .canceled)
          else runFailure d r.label o.exit o.text },
      { h with files := files })

/-- Fails unless the help of the symbolic executor mentions the targeted search. -/
def checkTargetedSearch (e : Executor) (h : Host) : Except Failure Unit × Host :=
  let c : Command := { path := e.program, args := ["-help"], timeout := Duration.ofMinutes 1 }
  match c.run h with
  | (.error f, h) => (.error (.within ("failed to run " ++ e.program) f), h)
  | (.ok o, h) =>
    match ["=" ++ SymbolicRun.targetedSearch, "-targeted-function"].find?
        (!Text.contains o.text ·) with
    | none => (.ok (), h)
    | some missing =>
      (.error (.other (e.program ++ " does not support targeted search (" ++ missing ++
        " missing)")), h)

end Executor
end FaultChain
