import FaultChain.Session.Basic

/-!
# Rehearsed sessions

A session with scripted runs and a simulated clock. The nth run of each kind follows the nth script
of that kind; without one it leaves nothing behind.

* `SessionScript`: the scripts.
* `SessionStage`: the surroundings of a rehearsed session, with a record of what was run.
* `SessionScript.perform`: the outcome of a rehearsed session.
-/

namespace FaultChain

structure RunScript where
  /-- How long the run takes, if not as long as it may. -/
  takes : Option Duration := none
  record : Option String := none
  queue : List String := []
  tests : Int := 0
  failure : String := ""
  cancels : Bool := false

structure ConversionScript where
  count : Int := 1
  failure : Option Failure := none

structure SessionScript where
  symbolic : List RunScript := []
  fuzz : List RunScript := []
  conversions : List ConversionScript := []

/-- The surroundings of a rehearsed session. -/
structure SessionStage where
  files : FileTree := FileTree.empty
  clock : Int := 0
  canceled : Bool := false
  reserved : Nat := 0
  symbolic : List SymbolicRun := []
  fuzz : List FuzzRun := []
  conversions : List (String × String × String) := []

namespace SessionStage

def play (w : SessionStage) (s : RunScript) (limit : Duration) (path : String) : SessionStage :=
  { w with
    clock := w.clock + (s.takes.getD limit).toInt
    canceled := w.canceled || s.cancels
    files := match s.record with
      | some text => w.files.plant path text false
      | none => w.files }

def reserve (kind : String) (w : SessionStage) : String × SessionStage :=
  (kind ++ "-out-" ++ Decimal.ofNat (w.reserved + 1), { w with reserved := w.reserved + 1 })

def leave (files : FileTree) (dir : String) (names : List String) : FileTree :=
  names.foldl (fun t name => t.plant (Path.join [dir, name]) "" false) files

end SessionStage

namespace SessionScript

def runSymbolic (s : SessionScript) (r : SymbolicRun) (w : SessionStage) :
    TaskEnd Result × SessionStage :=
  let script := (s.symbolic[w.symbolic.length]?).getD {}
  let w := w.play script r.timeout (Path.join [r.outDir, "run.istats"])
  (.returned
    { kind := symbolicKind
      function := r.function
      outDir := r.outDir
      tests := Int64.ofInt script.tests
      progress := true },
    { w with symbolic := w.symbolic ++ [r] })

def runFuzz (s : SessionScript) (r : FuzzRun) (w : SessionStage) : TaskEnd Result × SessionStage :=
  let script := (s.fuzz[w.fuzz.length]?).getD {}
  let w := w.play script r.duration (Path.join [r.outDir, "plot_data"])
  (.returned
    { kind := fuzzKind
      function := r.function
      outDir := r.outDir
      tests := Int64.ofInt script.tests
      progress := true
      failure := if script.failure == "" then none else some (.other script.failure) },
    { w with
      files := SessionStage.leave w.files (Path.join [r.outDir, "queue"]) script.queue
      fuzz := w.fuzz ++ [r] })

def convert (s : SessionScript) (function outDir seedDir : String) (w : SessionStage) :
    Int × Option Failure × SessionStage :=
  let script := (s.conversions[w.conversions.length]?).getD {}
  (script.count, script.failure,
    { w with conversions := w.conversions ++ [(function, outDir, seedDir)] })

def host (s : SessionScript) : SessionHost SessionStage :=
  { now := (·.clock)
    canceled := (·.canceled)
    files := (·.files)
    reserve := SessionStage.reserve
    symbolic := s.runSymbolic
    fuzz := s.runFuzz
    convert := s.convert }

/-- More stages than a rehearsed session can have: a run without a script makes no progress. -/
def stageLimit (s : SessionScript) : Nat :=
  8 * (s.symbolic.length + s.fuzz.length) + 16

def perform (s : SessionScript) (session : Session) (w : SessionStage) :
    Except String Session.Outcome × SessionStage :=
  (session.job s.host s.stageLimit).run w

end SessionScript
end FaultChain
