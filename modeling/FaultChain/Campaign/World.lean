import FaultChain.MemoryGroup
import FaultChain.RunDir.Index
import FaultChain.Symbolic.Command
import FaultChain.Telemetry.Span
import FaultChain.Toolchain.Pass

/-!
# The world of a campaign

What the tasks of a campaign share: the host, the index of runs, the memory groups, a journal of what
was done, and the finished spans.

* `World.pass`, `World.explore`: what the compiler and the symbolic executor do is noted in the
  journal.
* `World.reserve`: reserves the output directory of a run.
* `Signal`: what can happen to a campaign from outside at any time.
-/

namespace FaultChain

inductive Deed where
  | passed (pass : Pass) (ok : Bool)
  | explored (run : SymbolicRun)

/-- What the tasks of a campaign share. -/
structure World where
  host : Host
  index : RunIndex := {}
  pool : GroupPool
  journal : List Deed := []
  spans : List Span := []

namespace World

def note (w : World) (d : Deed) : World := { w with journal := w.journal ++ [d] }

def close (w : World) (s : Span) : World := { w with spans := w.spans ++ [s] }

def passes (w : World) : List Pass :=
  w.journal.filterMap fun
    | .passed pass _ => some pass
    | _ => none

def runs (w : World) : List SymbolicRun :=
  w.journal.filterMap fun
    | .explored run => some run
    | _ => none

/-- The same world with the host that something left behind. -/
def withHost (w : World) (h : Host) : World := { w with host := w.host.becoming h }

def withFiles (w : World) (files : FileTree) : World :=
  { w with host := { w.host with files := files } }

def onFiles {α : Type} (w : World) (f : FileTree → α × FileTree) : α × World :=
  let (a, files) := f w.host.files
  (a, w.withFiles files)

def onHost {α : Type} (w : World) (f : Host → α × Host) : α × World :=
  let (a, h) := f w.host
  (a, w.withHost h)

/-- Runs a compiler pass, which is noted at its end. -/
def pass {α : Type} (w : World) (p : Pass) (run : Host → Except Failure α × Host) :
    Except Failure α × World :=
  let (r, w) := w.onHost run
  (r, w.note (.passed p r.toBool))

/-- Runs the symbolic executor, which is noted at its start. The executor may look at the journal. -/
def explore {α : Type} (w : World) (r : SymbolicRun)
    (run : List Deed → SymbolicRun → Host → α × Host) : α × World :=
  (w.note (.explored r)).onHost (run w.journal r)

/-- Reserves the output directory of a run. The stored index is brought up to date as far as
possible. -/
def reserve (w : World) (d : RunDir) (r : RunRecord) : String × World :=
  let (folder, index) := w.index.reserve d r
  let (_, w) := w.onFiles (index.store d)
  (folder, { w with index := index })

end World

inductive Signal where
  | cancel
  | elapse (nanos : Nat)

def Signal.apply : Signal → World → World
  | .cancel, w => { w with host := { w.host with canceled := true } }
  | .elapse nanos, w => { w with host := { w.host with wall := w.host.wall + nanos } }

end FaultChain
