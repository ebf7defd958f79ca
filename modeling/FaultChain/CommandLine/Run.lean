import FaultChain.Campaign.Tools
import FaultChain.CommandLine.Help
import FaultChain.Config.Load
import FaultChain.EnvFile

/-!
# Running command lines

* `Invocation.ofWords`: what a command line asks for.
* `Invocation.perform`: does it.
* `CommandLine.run`: a whole command line, with the variables of the file `.env`.
-/

namespace FaultChain

inductive Invocation where
  | analyze (settings : Settings) (bitcode : String)
  | createGroups (settings : Settings)
  | describe (verb : Verb)
  | script (shell : Shell)
  | unusable

namespace Invocation

def ofLine (v : Verb) (line : SplitLine) : Invocation :=
  if (line.settings.switch? "help").getD false then .describe v
  else
    match v with
    | .analyze =>
      match line.args with
      | [bitcode] => .analyze line.settings bitcode
      | _ => .unusable
    | .createGroups =>
      if line.args.isEmpty && line.settings.has "user" then .createGroups line.settings else .unusable
    | .script shell => if line.args.isEmpty then .script shell else .unusable
    | .help => .describe (Verb.find line.args).1
    | v => .describe v

def ofWords (words : List String) : Invocation :=
  let (v, rest) := Verb.find words
  match Flag.read? (v.flags "") rest with
  | some line => ofLine v line
  | none => .unusable

/-! ## Options -/

/-- The options of an analysis, where `argv` is the whole command line. -/
def options (s : Settings) (bitcode : String) (argv : List String) : Options :=
  let d := Options.default
  { d with
    bitcode := bitcode
    comment := (s.text? "comment").getD d.comment
    parentDir := (s.text? "parent-dir").getD d.parentDir
    maxTime := ((s.integer? "max-time").map Duration.ofSeconds).getD d.maxTime
    maxInstructionTime :=
      ((s.integer? "max-instruction-time").map Duration.ofSeconds).getD d.maxInstructionTime
    symArgs := s.texts? "sym-args"
    symFiles := s.texts? "sym-files"
    useFuzzer := (s.switch? "use-fuzzer").getD d.useFuzzer
    useFlipper := (s.switch? "use-flipper").getD d.useFlipper
    fuzzTime := ((s.integer? "fuzz-time").map Duration.ofMinutes).getD d.fuzzTime
    flipperTime := ((s.integer? "flipper-time").map Duration.ofMinutes).getD d.flipperTime
    stopFuzzWhenDone := (s.switch? "stop-fuzz-when-done").getD d.stopFuzzWhenDone
    fuzzBitcode := (s.text? "fuzz-bc").getD d.fuzzBitcode
    excludeKnown := (s.switch? "exclude-known").getD d.excludeKnown
    libraries := s.texts? "libraries"
    threads := (s.integer? "threads").getD d.threads
    runTimeout := ((s.integer? "run-timeout").map Duration.ofSeconds).getD d.runTimeout
    containment :=
      if (s.switch? "inclusive-containment").getD false then .inclusive else d.containment
    argv := some argv }

def config (s : Settings) (h : Host) : Except Failure Config :=
  let path := (s.text? "config").getD (h.env.get "MACKE_CONFIG")
  (Config.load h.files h.env path).mapError Config.LoadFailure.toFailure

/-! ## Commands -/

def analysisConfig (s : Settings) (h : Host) : Except Failure Config :=
  (config s h).map fun c =>
    match s.integer? "fuzz-input-maxlen" with
    | some n => if 0 < n then { c with inputMaxLen := n } else c
    | none => c

/-- What has to hold before the tools are looked at. -/
def ready (s : Settings) (o : Options) (h : Host) : Except Failure Config := do
  let _ ← h.files.stat o.bitcode
  let c ← analysisConfig s h
  c.checkBinaries h.files o.fuzzing
  return c

def report (root : String) (s : Summary) : String :=
  root ++ ": " ++ Decimal.ofInt s.errors ++ " errors, " ++ Decimal.ofInt s.chains ++ " chains (" ++
    Decimal.ofInt s.chainsFromMain ++ " from main)\n"

def reportCourse (c : Course) : Except Failure String :=
  match c.failure, c.dir, c.summary with
  | some f, _, _ => .error f
  | none, some d, some s => .ok (report d.root s)
  | none, _, _ => .ok ""

def runAnalysis (s : Settings) (o : Options) (available : Int) (h : Host) :
    Except Failure String × Host :=
  match ready s o h with
  | .error f => (.error f, h)
  | .ok c =>
    match Campaign.preflight c h with
    | (.error f, h) => (.error f, h)
    | (.ok _, h) =>
      match o.validate with
      | .error f => (.error f, h)
      | .ok _ =>
        let course := (Campaign.ofConfig c o available).run h
        (reportCourse course, course.world.host)

/-- Creates memory groups. -/
def makeGroups (s : Settings) (available : Int) (h : Host) : Except Failure String × Host :=
  match config s h with
  | .error f => (.error f, h)
  | .ok c =>
    let asked := (s.integer? "threads").getD 0
    let n := if asked ≤ 0 then c.threadCount available else asked
    let (r, h) := (GroupPool.ofConfig c n).create ((s.text? "user").getD "") h
    (r.map fun _ => "", h)

end Invocation

structure CommandEnd where
  exit : Nat
  stdout : String := ""
  stderr : String := ""
  host : Host

/-- The end of a command that says something or fails. -/
def CommandEnd.of : Except Failure String × Host → CommandEnd
  | (.ok text, h) => { exit := 0, stdout := text, host := h }
  | (.error f, h) =>
    { exit := 1, stderr := Verb.program ++ ": " ++ f.message ++ "\n", host := h }

namespace Invocation

/-- Does what a command line asks for, where `argv` is the whole line and `available` the number of
processors. -/
def perform (argv : List String) (available : Int) (h : Host) : Invocation → CommandEnd
  | .analyze s bitcode => .of (runAnalysis s (options s bitcode argv) available h)
  | .createGroups s => .of (makeGroups s available h)
  | .describe v => { exit := 0, stdout := v.description (h.env.get "MACKE_CONFIG"), host := h }
  | .script _ => { exit := 0, host := h }
  | .unusable => { exit := 1, host := h }

end Invocation

namespace CommandLine

def run (words : List String) (available : Int) (h : Host) : CommandEnd :=
  let h := { h with env := EnvFile.extend h.files h.env }
  (Invocation.ofWords words).perform (Verb.program :: words) available h

end CommandLine
end FaultChain
