import FaultChain.Campaign.Tools
import FaultChain.Service.Basic

/-!
# The work of the service

* `RunEnd.ofCourse`: what a campaign means to the service.
* `Service.settle`: carries every analysis on as far as possible.
-/

namespace FaultChain

/-- What a campaign means to the service. -/
def RunEnd.ofCourse (c : Course) : RunEnd :=
  { summary := c.summary
    dir := (c.dir.map (·.root)).getD ""
    failure := c.failure }

namespace Service

/-- The next step of an analysis, where `ended` tells whether its run returns by now. An analysis
that waits for a slot steps back if it was told to stop. -/
def nextStep? (ended : Analysis → Option RunEnd) (now : Int) (a : Analysis) : Option Advance :=
  match a.stage with
  | .waiting => if a.stopped then some (.withdrawal now) else none
  | .admitted => some .beginning
  | .running => (ended a).map .returning
  | .returned _ => some .judgment
  | .judged _ _ => some (.recording now)
  | .recorded => some .release
  | .over => none

/-- The next step of the service: one of an analysis that does not need a slot, or else the admission
of the analysis that has been waiting longest. -/
def nextEvent? (ended : Analysis → Option RunEnd) (now : Int) (s : Service) :
    Option (Uuid × Advance) :=
  match s.analyses.findSome? fun a => (nextStep? ended now a).map (a.id, ·) with
  | some e => some e
  | none =>
    if s.free = 0 then none
    else
      (s.analyses.find? fun a => match a.stage with
        | .waiting => true
        | _ => false).map fun a => (a.id, .admission)

def settleSteps (ended : Analysis → Option RunEnd) (now : Int) : Nat → Service → Service
  | 0, s => s
  | n + 1, s =>
    match s.nextEvent? ended now with
    | some (id, step) => settleSteps ended now n (s.advance id step)
    | none => s

/-- Carries every analysis on as far as possible; none has more than seven steps before it. -/
def settle (s : Service) (ended : Analysis → Option RunEnd) (now : Int) : Service :=
  settleSteps ended now (7 * s.analyses.length) s

end Service
end FaultChain
