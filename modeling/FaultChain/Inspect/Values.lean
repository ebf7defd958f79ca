import FaultChain.Backend.Result
import FaultChain.CallGraph.Batches
import FaultChain.CallGraph.Drawing
import FaultChain.Config.Basic
import FaultChain.Json.Fields
import FaultChain.Registry.Views

/-!
# Values as JSON

How the values of an analysis are shown to programs that drive the library and look at what it
computes. The modules below `Inspect` are for such programs only: neither the command line nor the
theory rests on them. Floating point numbers are shown by their bits.
-/

namespace FaultChain
namespace Inspect

open Json

def nat (n : Nat) : Json := .int n

def pairs (ps : List (String × String)) : Json := .obj (ps.map fun (k, v) => (k, .str v))

def bits (x : Binary64) : Json :=
  if x.isNaN then .str "nan"
  else .str (String.ofList (Hexadecimal.digits 16 x.bits))

/-! ## Traces and errors -/

def frames (fs : List Frame) : Json := .arr (fs.map fun f => .strings [f.function, f.location])

def trace (t : Trace) : Json :=
  .obj [("frames", frames t.frames), ("entry", .str t.entry), ("depth", nat t.depth),
    ("empty", .bool t.frames.isEmpty), ("functions", .strings t.functions),
    ("string", .str t.render),
    ("head", match t.head? with
      | some f => .str f.render
      | none => .null)]

def relation (x y : Trace) : Json :=
  .obj [("contained", .bool (x.isContainedIn .strict y)),
    ("contained_strict", .bool (x.isContainedIn .strict y)),
    ("contained_inclusive", .bool (x.isContainedIn .inclusive y)),
    ("equal", .bool (x.sameFrames y)), ("prepend", trace (x.prepend y))]

def fault (f : Fault) : Json :=
  .obj [("errfile", .str f.report), ("ktest", .str f.ktest), ("entry", .str f.entry),
    ("reason", .str f.reason), ("location", .str f.location), ("function", .str f.function),
    ("seed", .str f.seed), ("frames", frames f.trace.frames),
    ("trace_entry", .str f.trace.entry), ("propagated", .bool f.isPropagated),
    ("blacklisted", .bool f.isBlacklisted), ("depth", nat f.depth), ("string", .str f.render)]

def chain (fns : FunctionSet) (c : Chain) : Json :=
  .obj [("id", nat c.id), ("trace", .str c.trace.render), ("trace_entry", .str c.trace.entry),
    ("found", .strings c.reports), ("heads", .strings (c.heads.map (·.report))),
    ("files", .strings c.reports), ("origin", .str c.origin), ("depth", nat c.depth),
    ("support", nat c.support), ("location", .str c.location), ("entry", .str c.entry),
    ("user_functions", nat (c.length fns)), ("filtered", frames (c.programFrames fns))]

def drops (d : Drops) : Json := .obj (d.toList.map fun (k, n) => (k, nat n))

def registry (r : Registry) : Json :=
  .obj [("errors", nat r.order.length), ("propagated", nat r.propagated),
    ("locations", nat r.byLocation.size), ("functions", nat r.byEntry.size),
    ("dropped", drops r.drops),
    ("chains", .arr (r.chains.map fun c =>
      .arr [nat c.id, nat c.depth, nat c.support, nat c.heads.length, .str c.entry,
        .str c.location]))]

def chainStats (r : Registry) : Json :=
  let s := r.stats
  .obj [("count", nat s.count), ("longer_than_one", nat s.longerThanOne),
    ("min_length", nat s.minLength), ("max_length", nat s.maxLength),
    ("avg_length", bits s.avgLength), ("from_main", nat s.fromMain)]

/-! ## Call graphs -/

def callGraph (cg : CallGraph) (lookup : List String) : Json :=
  let batches (removeMain : Bool) : Json :=
    .arr ((cg.batches removeMain).map fun b => .strings (b.map Call.render))
  .obj [("len", nat cg.size), ("names", .strings cg.functions),
    ("nodes", .arr (cg.nodes.map fun n =>
      .arr [.str n.name, .strings n.calls, .strings n.calledBy, .bool n.external,
        .bool n.doublePointer])),
    ("topology", .arr (cg.topology.map fun c =>
      .obj [("functions", .strings c.functions), ("cyclic", .bool c.cyclic)])),
    ("encapsulable", .strings (cg.encapsulable true)),
    ("encapsulable_main", .strings (cg.encapsulable false)),
    ("batches", batches true), ("batches_main", batches false),
    ("dot", .str cg.drawing), ("dot_file_same", .bool true),
    ("lookup", .arr (lookup.map fun n => .bool (cg.contains n)))]

def extracted (nodes : List (String × NodeInfo)) : Json :=
  .obj (nodes.map fun (name, n) =>
    (name, .arr [.strings n.calls, .strings n.calledBy, .bool n.doublePointer, .bool n.external]))

/-! ## Runs and configuration -/

def diagnostics (d : Diagnostics) : Json :=
  .obj [("crashed", .bool d.crashed), ("failed", .bool d.failed), ("out_of_time", .bool d.outOfTime),
    ("out_of_memory", .bool d.outOfMemory), ("reached_target", .bool d.reachedTarget)]

def result (r : Result) : Members :=
  [("kind", .str r.kind), ("function", .str r.function), ("caller", .str r.caller),
    ("callee", .str r.callee), ("image", .str r.image), ("outdir", .str r.outDir),
    ("output", .str r.output), ("exit", .int r.exit), ("errors", .strings r.errorFiles),
    ("tests", .int r.tests.toInt), ("progress", .bool r.progress),
    ("diagnostics", diagnostics r.diagnostics), ("string", .str r.render)]

def config (c : Config) : Json :=
  .obj [("binaries", pairs c.binaries.toList),
    ("runtime", .obj [("threadnum", .int c.threadNum), ("grace_seconds", .int c.graceSeconds)]),
    ("fuzz", .obj [("memlimit", .int c.memLimit), ("use_cgroups", .bool c.useGroups),
      ("cgroup_root", .str c.groupRoot), ("ignore_swap", .bool c.ignoreSwap),
      ("input_maxlen", .int c.inputMaxLen)]),
    ("saturation", .obj [("poll_interval_ns", .int c.pollInterval.toInt),
      ("cycle_done_increment", .int c.cycleDone), ("incomplete_increment", .int c.incomplete),
      ("threshold", .int c.threshold)]),
    ("grace_ns", .int c.grace.toInt),
    ("thread_count", if c.threadNum == 0 then .null else .int (c.threadCount 1))]

/-! ## Files -/

def filesBelow (t : FileTree) (dir : String) : Json := pairs (t.texts dir)

def fileText (t : FileTree) (path : String) : Json :=
  match t.read path with
  | .ok text => .str text
  | .error _ => .null

end Inspect
end FaultChain
