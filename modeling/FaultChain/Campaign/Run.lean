import FaultChain.Campaign.Isolation
import FaultChain.Campaign.Preparation
import FaultChain.Campaign.Propagation
import FaultChain.Campaign.Summary

/-!
# Running campaigns

* `Campaign.finish`: stores the summary of a campaign.
* `Campaign.run`: a whole campaign.
* `Course`: what is left of a campaign, however far it came.
-/

namespace FaultChain

/-- What is left of a campaign, however far it came. -/
structure Course where
  world : World
  dir : Option RunDir := none
  graph : Option CallGraph := none
  /-- The campaign as its last phase left it. -/
  state : Option Campaign.State := none
  summary : Option Summary := none
  failure : Option Failure := none

namespace Campaign

/-! ## The end -/

def between (later earlier : Int) : Duration := Session.timeLeft later earlier

/-- When the phases of a campaign started and ended, for moments that can be written. -/
def timingJson? (start startTwo end_ : Int) : Option Json := do
  let seconds (later earlier : Int) : Json := .num (between later earlier).seconds.render
  return .obj [("start", .str (← timestamp? start)), ("start-phase-two", .str (← timestamp? startTwo)),
    ("end", .str (← timestamp? end_)), ("phase-one-seconds", seconds startTwo start),
    ("phase-two-seconds", seconds end_ startTwo), ("total-seconds", seconds end_ start)]

/-- Stores the summary of a campaign and lets the link of the parent directory lead to it. The
summary is given in any case. -/
def finish (site : Site) (s : State) : Summary × Option Failure × State :=
  let sum := summary site s
  let now := s.world.host.clock
  let docs :=
    [("summary.json", some sum.toJson),
      ("timing.json", timingJson? site.start (s.startTwo.getD now) now),
      ("klee.json", some s.world.index.toJson)]
  match s.world.onFiles (storeAll site.dir docs) with
  | (.error f, w) => (sum, some f, { s with world := w })
  | (.ok _, w) =>
    let (_, w) := w.onFiles site.dir.linkLast
    (sum, none, { s with world := w })

/-! ## The whole -/

def Prepared.course (p : Prepared) (s : State) : Course :=
  { world := s.world, dir := p.dir, graph := p.graph, state := some s }

/-- The beginning of the first year, which stands for no moment at all. -/
def noMoment : Int := -62135596800000000000

/-- The moment after which no run is started. -/
def deadline (c : Campaign) (h : Host) : Option Int :=
  let moment := h.clock + c.options.runTimeout.toInt
  if Duration.zero < c.options.runTimeout && moment != noMoment then some moment else none

/-- The phases of a campaign that is set up. -/
def runPhases (c : Campaign) (p : Prepared) (site : Site) : Course :=
  let s := { c.begin site p.world with deadline := c.deadline p.world.host }
  match c.isolate site s with
  | (.error f, s) => { p.course s with failure := some f }
  | (.ok _, s) =>
    match c.propagate site s with
    | (.error f, s) => { p.course s with failure := some f }
    | (.ok _, s) =>
      let (sum, why, s) := finish site s
      { p.course s with summary := some sum, failure := why }

def runSpan (c : Campaign) (course : Course) : Span :=
  let base : Span :=
    { name := "macke.run"
      attributes := [("macke.bitcode", c.options.bitcode), ("macke.threads", Decimal.ofNat c.limit)] }
  match course.failure, course.summary with
  | some f, _ => base.failing (some f)
  | none, some sum =>
    { base with
      attributes := base.attributes ++ [("macke.errors", Decimal.ofInt sum.errors),
        ("macke.chains", Decimal.ofInt sum.chains)] }
  | none, none => base

def run (c : Campaign) (h : Host) : Course :=
  let p := c.prepare h
  let course : Course :=
    match p.outcome with
    | .error f => { world := p.world, dir := p.dir, graph := p.graph, failure := some f }
    | .ok site => c.runPhases p site
  { course with world := course.world.close (c.runSpan course) }

end Campaign
end FaultChain
