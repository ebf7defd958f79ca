import FaultChain.Campaign.Basic

/-!
# The second phase of a campaign

The errors of a function are offered to its callers: each suitable call gets an image in which the
callee first checks for its known errors, and the caller is run on it with the callee as its target.
Calls are handled in batches, one after another.

* `Campaign.Edge`: a call with the reports of its callee.
* `Campaign.propagateBatch`: handles one batch.
* `Campaign.propagate`: the phase.
-/

namespace FaultChain
namespace Campaign

/-- A call with the reports of its callee that are offered to the caller. -/
structure Edge where
  call : Call
  reports : List String
  image : String

/-- The calls of a batch that have something to offer. -/
def edges (c : Campaign) (site : Site) (r : Registry) (batch : List Call) : List Edge :=
  (batch.map fun call =>
    ({ call := call
       reports := r.toPrepend call.caller call.callee c.options.excludeKnown
       image := site.dir.edgeImage call.caller call.callee } : Edge)).filter (!·.reports.isEmpty)

/-! ## Images -/

/-- Marks whether the programs that follow are given up. -/
def abandon (w : World) (given : Bool) : World :=
  { w with host := { w.host with abandoned := given } }

/-- The end of a preparation that failed: the others are given up. The first failure counts. -/
def giveUp (f : Failure) : Job World (TaskEnd (Option Failure)) :=
  .atomic fun w => (.returned (if w.host.abandoned then none else some f), abandon w true)

/-- Builds the image of a call. Images are built side by side, and the same path may be that of
several. -/
def imageTask (c : Campaign) (site : Site) (e : Edge) : Task World (Option Failure) :=
  let prepend : Pass := .prepend site.dir.symMains e.call.callee e.image e.reports
  let merge : Pass := .mergeConstants e.image e.image
  { name := e.call.render
    body := do
      match ← .atomic fun w => w.pass prepend (c.toolchain.transform prepend) with
      | .error f => giveUp f
      | .ok _ =>
        match ← .atomic fun w => w.pass merge (c.toolchain.transform merge) with
        | .error f => giveUp f
        | .ok _ => return .returned none }

/-- Builds the images of all calls, as many at a time as there may be runs. -/
def buildImages (c : Campaign) (site : Site) (k : Nat) (es : List Edge) (w : World) :
    Option Failure × World :=
  let events := (c.preparing k).map (·.map Signal.apply)
  let (b, _) := (Scheduler.ofLimit c.limit).runBatch (fun _ => none) (fun _ why => some why) events
    w (es.map (c.imageTask site))
  (b.results.findSome? id, abandon b.world false)

/-! ## Runs -/

/-- What the output directory of a call's run is for. A callee without a name is none, so that the
run is one of the caller. -/
def edgeRecord (e : Edge) : RunRecord :=
  let named := e.call.callee != ""
  { image := e.image
    function := if named then "" else e.call.caller
    caller := if named then e.call.caller else ""
    callee := e.call.callee
    kind := symbolicKind
    phase := 2 }

def edgeTask (c : Campaign) (site : Site) (e : Edge) : Task World Result :=
  { name := e.call.render
    body := traced "backend.targeted"
      (c.symbolicJob site (edgeRecord e)
        { image := e.image
          function := e.call.caller
          target := e.call.callee
          flags := c.options.backendFlags
          posixFlags := c.options.posixFlags
          timeout := c.options.maxTime }) }

/-- A result with the call it belongs to. -/
def forEdge (e : Edge) (r : Result) : Result :=
  if r.caller == "" then
    { r with function := e.call.caller, caller := e.call.caller, callee := e.call.callee }
  else r

/-- Runs the calls of a batch and takes in what was found. -/
def runEdges (c : Campaign) (site : Site) (cutoff : Host.Cutoff) (k : Nat) (es : List Edge)
    (s : State) : State :=
  let (results, w) :=
    c.runBatch cutoff (k + 1) failedTask (es.map (c.edgeTask site)) s.world
  let results := (es.zip results).map fun (e, r) => forEdge e r
  register { s with world := w, phaseTwo := s.phaseTwo ++ results } results

/-! ## The phase -/

def batchSpan (k calls skipped : Nat) : Span :=
  { name := "phase-two.batch"
    attributes := [("macke.batch", Decimal.ofNat k), ("macke.calls", Decimal.ofNat calls),
      ("macke.skipped", Decimal.ofNat skipped)] }

/-- Handles one batch. A batch whose images could not be built because the campaign was told to stop
is left out. -/
def propagateBatch (c : Campaign) (site : Site) (cutoff : Host.Cutoff) (k : Nat)
    (batch : List Call) (s : State) : Except Failure Unit × State :=
  let es := c.edges site s.registry batch
  let skipped := batch.length - es.length
  let span := batchSpan k batch.length skipped
  let s := { s with skippedCalls := s.skippedCalls + skipped }
  if es.isEmpty then (.ok (), s.close span)
  else
    match c.buildImages site k es s.world with
    | (some f, w) =>
      let s := { s with world := w.close span }
      (if w.host.canceled then .ok () else .error f, s)
    | (none, w) => (.ok (), (c.runEdges site cutoff k es { s with world := w }).close span)

/-- Handles batches one after another until one fails or the cutoff is reached. -/
def propagateAll (c : Campaign) (site : Site) (cutoff : Host.Cutoff) (k : Nat) :
    List (List Call) → State → Except Failure Unit × State
  | [], s => (.ok (), s)
  | batch :: rest, s =>
    if (cutoff.reached? s.world.host).isSome then (.ok (), s)
    else
      match c.propagateBatch site cutoff k batch s with
      | (.error f, s) => (.error f, s)
      | (.ok _, s) => c.propagateAll site cutoff (k + 1) rest s

/-- Number of calls in a graph, without those of the function that stands for unknown callers. -/
def callCount (g : CallGraph) : Nat :=
  ((g.nodes.filter (·.name != CallGraph.nullFunction)).map (·.calls.length)).foldl (· + ·) 0

/-- Propagates the registered errors along the call graph. -/
def propagate (c : Campaign) (site : Site) (s : State) : Except Failure Unit × State :=
  let cutoff := s.world.host.cutoff s.deadline
  let batches := site.graph.batches c.options.removeMain
  let s := { s with
    startTwo := some s.world.host.clock
    batches := batches.length
    suitableCalls := s.suitableCalls + (batches.map (·.length)).foldl (· + ·) 0
    totalCalls := s.totalCalls + callCount site.graph }
  let (r, s) := c.propagateAll site cutoff 0 batches s
  let why := match r with
    | .error f => some f
    | .ok _ => none
  (r, s.close (Span.failing { name := "phase-two" } why))

end Campaign
end FaultChain
