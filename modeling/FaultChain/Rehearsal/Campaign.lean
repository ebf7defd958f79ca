import FaultChain.Backend.OutputDir
import FaultChain.Campaign.Run
import FaultChain.Symbolic.Executor

/-!
# Rehearsed campaigns

A campaign with scripted passes and scripted runs of the symbolic executor. Passes change no files. A
run of a call offers every report that was prepended into its image to the caller.

* `CampaignScript`: the scripts.
* `CampaignScript.toolchain`, `CampaignScript.explore`: the collaborators of a rehearsed campaign.
* `Campaign.runStaged`: a campaign stage by stage.
-/

namespace FaultChain

structure ExplorationScript where
  files : List (String × String) := []
  tests : Int := 0
  diagnostics : Diagnostics := {}
  failure : String := ""
  /-- Whether a run of a call reports the errors prepended into its image. -/
  propagates : Bool := true
  takes : Duration := Duration.ofSeconds 1
  /-- Whether the run ends without a result. -/
  silent : Bool := false
  dies : Bool := false
  cancels : Bool := false

/-- The scripts of a campaign. -/
structure CampaignScript where
  graph : List (String × NodeInfo) := []
  reported : List (List String) := []
  /-- The pass that fails: its name, or its name and its second operand. -/
  failing : String := ""
  /-- The pass that fails and tells the campaign to stop. -/
  canceling : String := ""
  runs : List (String × List ExplorationScript) := []

namespace CampaignScript

/-! ## Passes -/

def names (text : String) (p : Pass) : Bool :=
  text == p.name || p.operands[1]?.any fun operand => text == p.name ++ " " ++ operand

def pass {α : Type} (s : CampaignScript) (p : Pass) (answer : α) (h : Host) :
    Except Failure α × Host :=
  let stops := names s.canceling p
  let h := { h with canceled := h.canceled || stops }
  if stops || names s.failing p then
    (.error (.tool p.name p.operands "broken pass\n" (.other "exit status 1")), h)
  else (.ok answer, h)

def toolchain (s : CampaignScript) : Toolchain :=
  { extract := fun image => s.pass (.extract image) s.graph
    list := fun image => s.pass (.list image) s.reported
    transform := fun p => s.pass p () }

/-! ## Runs -/

/-- The function or call of a run. -/
def key (r : SymbolicRun) : String :=
  if r.target == "" then r.function else r.function ++ "->" ++ r.target

/-- How often a function or call was run before. -/
def earlier (journal : List Deed) (k : String) : Nat :=
  journal.countP fun
    | .explored r => key r == k
    | _ => false

/-- The reports prepended into an image. -/
def prepended (journal : List Deed) (image : String) : List String :=
  (journal.reverse.findSome? fun
    | .passed (.prepend _ _ dest reports) _ => if dest == image then some reports else none
    | _ => none).getD []

def propagatedReport (caller callee report : String) : String :=
  "Error: ERROR FROM " ++ report ++ "\nStack:\n\t#000000001 in __macke_error_" ++ callee ++
    " () at macke.c:1\n\t#100000002 in " ++ callee ++ " () at prepended.c:1\n\t#200000003 in " ++
    caller ++ " () at prog.c:" ++ caller ++ "\nInfo:\n"

def output (s : ExplorationScript) (journal : List Deed) (r : SymbolicRun) :
    List (String × String) :=
  let reports :=
    if r.target != "" && s.propagates then (prepended journal r.image).zipIdx 1 else []
  s.files ++ reports.map fun (report, i) =>
    ("test" ++ Decimal.pad 6 i ++ ".macke.err", propagatedReport r.function r.target report)

def explore (s : CampaignScript) (journal : List Deed) (r : SymbolicRun) (h : Host) :
    TaskEnd Result × Host :=
  let k := key r
  let script := (((s.runs.lookup k).getD [])[earlier journal k]?).getD {}
  let files := (output script journal r).foldl
    (fun (t : FileTree) (name, text) => t.plant (Path.join [r.outDir, name]) text false)
    (OutputDir.ensure h.files r.outDir)
  let h := { h with
    files := files
    clock := h.clock + script.takes.toInt
    canceled := h.canceled || script.cancels }
  if script.dies then (.panicked "klee runner died", h)
  else if script.silent then (.nothing, h)
  else
    (.returned { Executor.blankResult r with
      tests := Int64.ofInt script.tests
      diagnostics := script.diagnostics
      failure := if script.failure == "" then none else some (.other script.failure)
      errorFiles := (OutputDir.errorFiles files r.outDir).toOption.getD [] }, h)

end CampaignScript

/-! ## Stages -/

structure StageEnd where
  name : String
  failure : Option Failure
  registry : Option Registry

namespace Campaign

def failureOf : Except Failure Unit → Option Failure
  | .ok _ => none
  | .error f => some f

def State.cancelIf (s : State) (b : Bool) : State :=
  if b then { s with world := Signal.cancel.apply s.world } else s

/-- Runs a campaign stage by stage until one fails; it may be told to stop before a phase. -/
def runStaged (c : Campaign) (h : Host) (cancelBefore : Int) : Course × List StageEnd :=
  let p := c.prepare h
  match p.outcome with
  | .error f =>
    ({ world := p.world, dir := p.dir, graph := p.graph, failure := some f },
      [⟨"stage_initialize", some f, p.graph.map fun g =>
        Registry.empty c.options.containment ⟨g.functions⟩⟩])
  | .ok site =>
    let s := (c.begin site p.world).cancelIf (cancelBefore == 1)
    let first : StageEnd := ⟨"stage_initialize", none, some s.registry⟩
    let (r, s) := c.isolate site s
    let second : StageEnd := ⟨"stage_one", failureOf r, some s.registry⟩
    match failureOf r with
    | some f => ({ p.course s with failure := some f }, [first, second])
    | none =>
      let (r, s) := c.propagate site (s.cancelIf (cancelBefore == 2))
      let third : StageEnd := ⟨"stage_two", failureOf r, some s.registry⟩
      match failureOf r with
      | some f => ({ p.course s with failure := some f }, [first, second, third])
      | none =>
        let (sum, why, s) := finish site s
        ({ p.course s with summary := some sum, failure := why }, [first, second, third])

end Campaign
end FaultChain
