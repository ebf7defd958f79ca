import FaultChain.Environment
import FaultChain.Files

/-!
# The host of an analysis

Everything outside an analysis, as a value: its files, clocks and environment, the programs that can
be started, and those that were started so far. A program may behave in any way that depends on what
was started before, on the files, and on how it is started.

* `Programs`: how programs behave.
* `Host`: the host.
* `Host.cutoff`: the time by which no further run may be started.
-/

namespace FaultChain

/-- A program as it is started. -/
structure Launch where
  program : String
  args : List String := []
  /-- Environment settings `name=value`, of which the last one of a name counts. -/
  settings : List String := []
  input : String := ""

inductive Ending where
  | exited (code : Int)
  | signaled
  | lasting
  deriving DecidableEq

structure Reaction where
  output : String := ""
  files : FileTree
  /-- The programs it started in turn. -/
  started : List (List String) := []
  ending : Ending := .exited 0

abbrev Programs := List (List String) → FileTree → Launch → Reaction

/-- The host of an analysis. -/
structure Host where
  files : FileTree
  env : Environment := []
  programs : Programs
  /-- The programs started so far, each with its name first. -/
  calls : List (List String) := []
  /-- The clock of the analysis in nanoseconds since 1970. -/
  clock : Int := 0
  /-- The clock by which deadlines expire, in nanoseconds since 1970. -/
  wall : Int := 0
  /-- Whether the analysis was told to stop. -/
  canceled : Bool := false
  /-- Whether the programs of a common step are given up because one of them failed. -/
  abandoned : Bool := false

namespace Host

/-- Whether a program that is started now is stopped at once. -/
def isStopped (h : Host) : Bool := h.canceled || h.abandoned

/-- The host after something that left it as `later`: a host that was told to stop stays so, and
deadlines that have expired stay expired. -/
def becoming (h later : Host) : Host :=
  { later with
    canceled := h.canceled || later.canceled
    wall := max h.wall later.wall
    abandoned := h.abandoned }

/-- The time by which no further run may be started, and the reason found when it was set. -/
structure Cutoff where
  deadline : Option Int := none
  already : Option Failure := none

def cutoff (h : Host) (deadline : Option Int) : Cutoff :=
  let expired := deadline.any (· ≤ h.wall)
  { deadline := deadline
    already :=
      if h.canceled then some .canceled else if expired then some .deadlineExceeded else none }

/-- Why no further run may be started. -/
def Cutoff.reached? (c : Cutoff) (h : Host) : Option Failure :=
  match c.already with
  | some why => some why
  | none =>
    if h.canceled then some .canceled
    else if c.deadline.any (· ≤ h.wall) then some .deadlineExceeded
    else none

end Host
end FaultChain
