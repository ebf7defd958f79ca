import FaultChain.Inspect.Requests
import FaultChain.Inspect.RunDirs
import FaultChain.Inspect.Sessions
import FaultChain.Rehearsal.Campaign

/-!
# Campaigns as JSON

For programs that drive the library: descriptions of campaigns to rehearse, and what became of them.
-/

namespace FaultChain
namespace Inspect

open Json

/-! ## Descriptions -/

def diagnostics? (o : Members) : Option Diagnostics := do
  return {
    crashed := ← getBool o "crashed"
    failed := ← getBool o "failed"
    outOfTime := ← getBool o "out_of_time"
    outOfMemory := ← getBool o "out_of_memory"
    reachedTarget := ← getBool o "reached_target" }

def explorationScript? (j : Json) : Option ExplorationScript := do
  let o ← Json.object? j
  return {
    files := ← getContents o "files"
    tests := ← getInt o "tests"
    diagnostics := ← diagnostics? (← getObj o "diag")
    failure := ← getStr o "err"
    propagates := ← getOr true bool? o "propagate"
    takes := ← getMillisOr (Duration.ofSeconds 1) o "advance_ms"
    silent := ← getBool o "nil"
    dies := ← getBool o "panic"
    cancels := ← getBool o "cancel" }

def campaignScript? (o : Members) : Option CampaignScript := do
  return {
    graph := ← getGraph o "graph"
    reported := (← getGroups? o "reported").getD []
    failing := ← getStr o "fail_tool"
    canceling := ← getStr o "cancel_tool"
    runs := ← getOr [] (membersOf? fun j => (Json.list? j).bind (·.mapM explorationScript?)) o
      "klee" }

def campaignConfig? (o : Members) : Option Config := do
  let d := Config.default
  return { d with
    binaries := ← getBinaries d.binaries o
    useGroups := ← getOr d.useGroups bool? o "use_cgroups"
    groupRoot := ← getOr d.groupRoot text? o "cgroup_root"
    memLimit := ← getOr d.memLimit int? o "memlimit"
    inputMaxLen := ← getOr d.inputMaxLen int? o "input_maxlen" }

/-! ## Records -/

def document? (files : FileTree) (path : String) : Option Json :=
  ((files.read path).toOption).bind Json.parse

def documentOrNull (files : FileTree) (path : String) : Json := (document? files path).getD .null

def without (name : String) : Json → Json
  | .obj members => .obj (members.filter (·.1 != name))
  | j => j

def numberBits : Json → Json
  | .num spelling => ((Binary64.parse spelling).toOption.map bits).getD .null
  | j => j

def renamed (o : Members) (names : List (String × String)) (change : Json → Json) : Members :=
  names.map fun (old, new) => (new, change ((member? o old).getD .null))

def timing : Json → Json
  | .obj o =>
    .obj (renamed o [("start", "start"), ("start-phase-two", "start_two"), ("end", "end")] id ++
      renamed o [("phase-one-seconds", "one"), ("phase-two-seconds", "two"), ("total-seconds", "total")]
        numberBits)
  | j => j

def summary (s : Summary) : Json := s.toJsonWith bits

def runFiles (files : FileTree) (d : RunDir) : Members :=
  let maybe (name : String) : Option Json → Members
    | some j => [(name, j)]
    | none => []
  [("root", .str d.root), ("klee_json", documentOrNull files (d.path "klee.json")),
    ("options_json", documentOrNull files (d.path "options.json")),
    ("has_summary_file", .bool (files.read (d.path "summary.json")).toBool),
    ("last", lastRun files d.parent), ("run_id_set", .bool true)] ++
    maybe "info_json" ((document? files (d.path "info.json")).map (without "run-id")) ++
    maybe "timing" ((document? files (d.path "timing.json")).map timing)

def span (s : Span) : Json := .arr [.str s.name, pairs s.attributes, .str s.status, nat s.events]

def stageEnd (failure : Option Failure → Json) (s : StageEnd) : String × Json :=
  (s.name, .obj (("err", failure s.failure) ::
    match s.registry with
    | some r => [("errors", nat r.order.length), ("dropped", drops r.drops)]
    | none => []))

def course (c : Course) : Members :=
  let w := c.world
  [("calls", .arr (w.passes.map (.strings ·.words))),
    ("runs", .arr (w.runs.map fun r =>
      .obj (("key", .str (CampaignScript.key r)) :: symbolicRun r))),
    ("tool_calls", .arr (w.host.calls.map .strings))] ++
    (match c.summary with
      | some s => [("summary", summary s)]
      | none => []) ++
    (match c.dir with
      | some d => runFiles w.host.files d ++ [("index_len", nat w.index.size)]
      | none => []) ++
    (match c.graph with
      | some g => [("graph_len", nat g.size)]
      | none => [])

end Inspect
end FaultChain
