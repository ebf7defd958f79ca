import FaultChain.Backend.OutputDir
import FaultChain.Backend.Result
import FaultChain.Fuzz.Sanitizer
import FaultChain.Fuzz.Saturation
import FaultChain.Fuzz.Target
import FaultChain.MemoryGroup
import FaultChain.Report

/-!
# The fuzzer

* `Fuzzer.run`: fuzzes one driver until its time is over or the fuzzer is saturated, and turns the
  crashes it found into error reports.
* `Fuzzer.convertQueue`: turns the inputs of the fuzzer into test cases of the symbolic executor.
-/

namespace FaultChain

/-- One fuzzing run of a single driver. -/
structure FuzzRun where
  function : String := ""
  outDir : String := ""
  /-- The input corpus, or empty for the seeds. -/
  inputDir : String := ""
  duration : Duration := Duration.zero
  /-- Whether the run ends early once the fuzzer is saturated. -/
  stopWhenDone : Bool := false
  group : Option MemoryGroup := none

def FuzzRun.label (r : FuzzRun) : String := "fuzz " ++ r.function

structure Fuzzer where
  program : String
  /-- Turns inputs into test cases, unless empty. -/
  converter : String
  target : FuzzTarget
  rule : SaturationRule
  pollInterval : Duration
  replayTimeout : Duration := Duration.ofSeconds 10

namespace Fuzzer

def ofConfig (c : Config) (target : FuzzTarget) : Fuzzer :=
  { program := c.binaries.fuzzer
    converter := c.binaries.converter
    target := target
    rule := c.saturation
    pollInterval := c.pollInterval }

def args (f : Fuzzer) (r : FuzzRun) : List String :=
  ["-i", if r.inputDir == "" then f.target.inputDir else r.inputDir, "-o", r.outDir, f.target.target,
    "--fuzz-driver=" ++ r.function]

/-! ## Saturation -/

/-- Whether a row that is seen again and again saturates the fuzzer within so many looks. -/
def saturatedWithin (s : Saturation) (row : PlotRow) : Nat → Bool
  | 0 => false
  | looks + 1 =>
    let s := s.observe row
    s.isSaturated || saturatedWithin s row looks

/-- How often the progress of a run is looked at. Without a time limit it is looked at until it could
not be saturated any more. -/
def looks (f : Fuzzer) (r : FuzzRun) : Nat :=
  if r.duration ≤ Duration.zero then f.rule.threshold.toInt.toNat + 2
  else (r.duration.toInt / f.pollInterval.toInt).toNat

def plotFile (dir : String) : String := Path.join [dir, "plot_data"]

/-- Whether a run is stopped because the fuzzer is saturated. -/
def stops (f : Fuzzer) (r : FuzzRun) (files : FileTree) : Bool :=
  r.stopWhenDone &&
    match (PlotData.read files (plotFile r.outDir)).rows.getLast? with
    | none => false
    | some row => saturatedWithin (Saturation.start f.rule) row (f.looks r)

/-! ## Crashes -/

def convertInput (f : Fuzzer) (function input ktest : String) (h : Host) :
    Except Failure Unit × Host :=
  if f.converter == "" then (.error .noConverter, h)
  else
    let c : Command :=
      { path := f.converter, args := [function, input, ktest], timeout := Duration.ofMinutes 1 }
    match c.run h with
    | (.error why, h) => (.error (.within ("failed to convert " ++ input) why), h)
    | (.ok o, h) =>
      if o.exit != 0 then
        (.error (.within ("failed to convert " ++ input)
          (.other ("exit status " ++ Decimal.ofInt o.exit ++ ": " ++ Text.trim o.text))), h)
      else (.ok (), h)

def replay (f : Fuzzer) (function input : String) (h : Host) : Option SanitizerReport × Host :=
  match h.files.openFile input with
  | .error _ => (none, h)
  | .ok text =>
    let c : Command :=
      { path := f.target.reproducer
        args := ["--fuzz-driver=" ++ function]
        input := text.getD ""
        timeout := f.replayTimeout }
    match c.run h with
    | (.error _, h) => (none, h)
    | (.ok o, h) => (SanitizerReport.parse o.text, h)

/-- The error report of a crash. -/
def crashFile (dir : String) (i : Nat) : String :=
  Path.join [dir, "crash" ++ Decimal.pad 6 i ++ ".fuzz.err"]

/-- Replays one crashing input and, if it shows an error again, writes the report and a test case. -/
def reproduce (f : Fuzzer) (r : FuzzRun) (i : Nat) (crash : String) (h : Host) : Host :=
  match f.replay r.function crash h with
  | (none, h) => h
  | (some report, h) =>
    let path := crashFile r.outDir i
    match h.files.write path (report.text crash) with
    | .error _ => h
    | .ok files =>
      let h := { h with files := files }
      if f.converter == "" then h
      else (f.convertInput r.function crash ((Report.ktestOf path).toOption.getD "") h).2

def reproduceAll (f : Fuzzer) (r : FuzzRun) (crashes : List String) (h : Host) : Host :=
  crashes.zipIdx.foldl (fun h (crash, i) => f.reproduce r i crash h) h

/-! ## Runs -/

/-- The result of a run before anything is known about it. -/
def blankResult (f : Fuzzer) (r : FuzzRun) : Result :=
  { kind := fuzzKind, function := r.function, image := f.target.target, outDir := r.outDir }

def command (f : Fuzzer) (r : FuzzRun) : Command :=
  { path := f.program
    args := f.args r
    settings := f.target.settings
    wrapper := MemoryGroup.wrapper r.group
    timeout := r.duration }

/-- What the output of a run says. Fuzzing only ever ends by being killed. -/
def diagnose (o : Output) : Diagnostics :=
  let d := Diagnostics.classify o.exit o.text ""
  if o.killed then { d with crashed := false, failed := false, outOfTime := o.timedOut } else d

/-- Whether an input was not among the seeds. -/
def isNew (input : String) : Bool := !Text.contains (Path.base input) ",orig:"

def run (f : Fuzzer) (r : FuzzRun) (h : Host) : Result × Host :=
  match (f.command r).runWatched (f.stops r) h with
  | (.error why, h) =>
    ({ f.blankResult r with failure := some (.within r.label why) },
      { h with files := OutputDir.ensure h.files r.outDir })
  | (.ok o, h) =>
    let files := OutputDir.keepOutput (OutputDir.ensure h.files r.outDir) r.outDir o.text
    let h := { h with files := files }
    let d := diagnose o
    let result : Result :=
      { f.blankResult r with output := o.text, exit := o.exit, diagnostics := d }
    let failure :=
      if h.canceled then some (Failure.within r.label .canceled)
      else runFailure d r.label o.exit o.text
    match failure with
    | some why => ({ result with failure := some why }, h)
    | none =>
      let queue := OutputDir.inputs h.files (Path.join [r.outDir, "queue"])
      let crashes := OutputDir.inputs h.files (Path.join [r.outDir, "crashes"])
      let h := f.reproduceAll r crashes h
      ({ result with
          tests := Int64.ofNat queue.length
          progress := !crashes.isEmpty || queue.any isNew
          errorFiles := (OutputDir.errorFiles h.files r.outDir).toOption.getD [] }, h)

/-! ## Test cases -/

/-- Converts inputs into numbered test cases; those that cannot be converted are skipped. Gives the
number of test cases. -/
def convertInputs (f : Fuzzer) (function seedDir : String) (n : Nat) : List String → Host →
    Nat × Option Failure × Host
  | [], h => (n, none, h)
  | input :: rest, h =>
    if h.canceled then (n, some .canceled, h)
    else
      let ktest := Path.join [seedDir, "test" ++ Decimal.pad 6 (n + 1) ++ ".ktest"]
      match f.convertInput function input ktest h with
      | (.ok _, h) => f.convertInputs function seedDir (n + 1) rest h
      | (.error _, h) => f.convertInputs function seedDir n rest h

/-- Converts the queue of a run into test cases in a directory. Gives their number, and why there are
not more. -/
def convertQueue (f : Fuzzer) (function outDir seedDir : String) (h : Host) :
    Nat × Option Failure × Host :=
  if f.converter == "" then (0, some .noConverter, h)
  else
    match h.files.makeDirs seedDir with
    | .error why => (0, some why, h)
    | .ok files =>
      let h := { h with files := files }
      f.convertInputs function seedDir 0
        (OutputDir.inputs h.files (Path.join [outDir, "queue"])) h

end Fuzzer
end FaultChain
