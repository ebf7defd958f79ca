import FaultChain.Fuzz.PlotData

/-!
# Saturation

Decides when a fuzzer has stopped making progress. Every row of its log adds to a score: a finished
queue cycle without pending paths adds more than an unfinished one, pending paths reset it.
-/

namespace FaultChain

/-- How the score grows, and the score that counts as saturation. -/
structure SaturationRule where
  cycleDone : Int64
  incomplete : Int64
  threshold : Int64

/-- The score, and the number of cycles in the latest row. -/
structure Saturation where
  rule : SaturationRule
  score : Int64
  lastCycles : Int

namespace Saturation

def start (rule : SaturationRule) : Saturation := { rule := rule, score := 0, lastCycles := 0 }

def observe (s : Saturation) (row : PlotRow) : Saturation :=
  let score :=
    if 0 < row.pendingTotal then 0
    else if s.lastCycles < row.cyclesDone then s.score + s.rule.cycleDone
    else s.score + s.rule.incomplete
  { s with score := score, lastCycles := row.cyclesDone }

def isSaturated (s : Saturation) : Bool := s.rule.threshold < s.score

end Saturation
end FaultChain
