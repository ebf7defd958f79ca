import FaultChain.Fuzz.Fuzzer
import FaultChain.Session.Progress
import FaultChain.Symbolic.Command
import FaultChain.Work.Batch

/-!
# Sessions

A session alternates symbolic execution and fuzzing on a single function until neither makes
progress or its time is spent. Each fuzzing run resumes from the inputs of the one before, and its
inputs seed the symbolic runs that follow.

* `SessionHost`: what a session needs of its surroundings.
* `Session.job`: a session as a job; `Session.Outcome` lists its runs and stages.
-/

namespace FaultChain

/-- The analysis of one function. -/
structure Session where
  function : String
  image : String
  budget : Duration
  symbolicSlice : Duration
  fuzzSlice : Duration
  /-- Whether fuzzing runs end early once the fuzzer is saturated. -/
  stopFuzzWhenDone : Bool := false
  /-- Flags of every symbolic run; its time limit is added. -/
  flags : List String := []
  posixFlags : List String := []
  group : Option MemoryGroup := none

/-- The surroundings of a session, of which nothing else is known. -/
structure SessionHost (σ : Type) where
  now : σ → Int
  canceled : σ → Bool
  files : σ → FileTree
  reserve : String → σ → String × σ
  symbolic : SymbolicRun → σ → TaskEnd Result × σ
  fuzz : FuzzRun → σ → TaskEnd Result × σ
  /-- Converts the inputs in the output directory of a fuzzing run of a function into test cases in
  another directory. Gives their number. -/
  convert : String → String → String → σ → Int × Option Failure × σ

namespace Session

inductive Stage where
  | symbolic
  | fuzz
  | evaluate
  | finalSymbolic
  | done
  deriving DecidableEq

def Stage.name : Stage → String
  | .symbolic => "symbolic"
  | .fuzz => "fuzz"
  | .evaluate => "evaluate"
  | .finalSymbolic => "final-symbolic"
  | .done => "done"

/-- A session at work. -/
structure State where
  stage : Stage := .symbolic
  stages : List Stage := []
  results : List Result := []
  /-- Whether the session ended because nothing progressed. -/
  converged : Bool := false
  /-- Test cases to start symbolic runs from, or empty. -/
  seedDir : String := ""
  fuzzInput : String := ""
  /-- Whether the latest symbolic run progressed. -/
  symbolicProgress : Option Bool := none
  fuzzProgress : Option Bool := none
  /-- Whether inputs can be converted, as far as known. -/
  canConvert : Bool := true
  reached : Progress := {}

def missingResult : String := "runtime error: invalid memory address or nil pointer dereference"

/-- A value, or how the run ended without one. -/
def demand {α : Type} : TaskEnd α → Except String α
  | .returned a => .ok a
  | .nothing => .error missingResult
  | .panicked why => .error why

variable {σ : Type}

def timeLeft (deadline now : Int) : Duration :=
  let d := deadline - now
  if d < -(Word64.half : Int) then Duration.ofNanos (-(Word64.half : Int))
  else if Word64.half ≤ d then Duration.ofNanos (Word64.half - 1)
  else Duration.ofNanos d

def symbolicRun (s : Session) (h : SessionHost σ) (slice : Duration) (seedDir : String) :
    Job σ (TaskEnd Result) := do
  let outDir ← .atomic (h.reserve symbolicKind)
  .atomic (h.symbolic
    { image := s.image
      function := s.function
      outDir := outDir
      flags := s.flags ++ ["--max-time=" ++ Decimal.ofInt slice.wholeSeconds]
      posixFlags := s.posixFlags
      seedDir := seedDir
      timeout := slice })

def fuzzRun (s : Session) (h : SessionHost σ) (inputDir : String) : Job σ (TaskEnd Result) := do
  let outDir ← .atomic (h.reserve fuzzKind)
  .atomic (h.fuzz
    { function := s.function
      outDir := outDir
      inputDir := inputDir
      duration := s.fuzzSlice
      stopWhenDone := s.stopFuzzWhenDone
      group := s.group })

def addSymbolic (st : State) (files : FileTree) (r : Result) : State :=
  let (grown, reached) := st.reached.symbolic files r.outDir
  { st with
    results := st.results ++ [{ r with progress := grown }]
    reached := reached
    symbolicProgress := some grown }

/-- Records a fuzzing run; the next one starts from its inputs, if it left any. -/
def addFuzz (st : State) (files : FileTree) (r : Result) : State :=
  let (grown, reached) := st.reached.fuzz files r.outDir
  let queue := Path.join [r.outDir, "queue"]
  { st with
    results := st.results ++ [{ r with progress := grown }]
    reached := reached
    fuzzProgress := some grown
    fuzzInput := if (OutputDir.inputs files queue).isEmpty then st.fuzzInput else queue }

def lacksConverter (f : Failure) : Bool :=
  match f.root with
  | .noConverter => true
  | _ => false

def addConversion (st : State) (dir : String) (n : Int) (why : Option Failure) : State :=
  match why with
  | some f => if lacksConverter f then { st with canConvert := false } else st
  | none => if 0 < n then { st with seedDir := dir } else st

/-- Converts the inputs of a fuzzing run that progressed and did not fail. -/
def convertInputs (s : Session) (h : SessionHost σ) (st : State) (r : Result) : Job σ State :=
  if st.fuzzProgress == some true && st.canConvert && r.failure.isNone then do
    let dir := Path.join [r.outDir, "ktests"]
    let (n, why) ← .atomic fun w =>
      let (n, why, w) := h.convert s.function r.outDir dir w
      ((n, why), w)
    return addConversion st dir n why
  else return st

def State.symbolicLast (st : State) : Bool := st.results.getLast?.any (·.kind == symbolicKind)

/-- Decides how to go on after a run. -/
def evaluate (st : State) : State :=
  if st.symbolicProgress == some false && st.fuzzProgress == some false then
    { st with converged := true, stage := .done }
  else if st.symbolicLast then { st with stage := .fuzz }
  else { st with stage := .symbolic }

/-- The stage that is entered: a last symbolic run once no full round fits into the time left. -/
def nextStage (s : Session) (deadline now : Int) (stage : Stage) : Stage :=
  if stage == .symbolic && timeLeft deadline now < s.symbolicSlice + s.fuzzSlice then .finalSymbolic
  else stage

def perform (s : Session) (h : SessionHost σ) (deadline : Int) (st : State) :
    Job σ (Except String State) :=
  match st.stage with
  | .symbolic => do
    match demand (← s.symbolicRun h s.symbolicSlice st.seedDir) with
    | .error why => return .error why
    | .ok r =>
      let files ← .look h.files
      return .ok { addSymbolic st files r with stage := .evaluate }
  | .fuzz => do
    match demand (← s.fuzzRun h st.fuzzInput) with
    | .error why => return .error why
    | .ok r =>
      let files ← .look h.files
      let st ← s.convertInputs h (addFuzz st files r) r
      return .ok { st with stage := .evaluate }
  | .evaluate => return .ok (evaluate st)
  | .finalSymbolic => do
    let left := timeLeft deadline (← .look h.now)
    if Duration.zero < left then
      match demand (← s.symbolicRun h left st.seedDir) with
      | .error why => return .error why
      | .ok r =>
        let files ← .look h.files
        return .ok { addSymbolic st files r with stage := .done }
    else return .ok { st with stage := .done }
  | .done => return .ok st

structure Halt where
  state : State
  /-- It is not done, but may enter no further stage. -/
  unfinished : Bool := false

/-- Goes through stages until the session is done or told to stop, at most `fuel` of them. -/
def proceed (s : Session) (h : SessionHost σ) (deadline : Int) : Nat → State →
    Job σ (Except String Halt)
  | 0, st => return .ok { state := st, unfinished := st.stage != .done }
  | fuel + 1, st => do
    if st.stage == .done then return .ok { state := st }
    else if ← .look h.canceled then return .ok { state := st }
    else
      let stage := s.nextStage deadline (← .look h.now) st.stage
      match ← s.perform h deadline { st with stage := stage, stages := st.stages ++ [stage] } with
      | .error why => return .error why
      | .ok st => s.proceed h deadline fuel st

structure Outcome where
  results : List Result
  stages : List Stage
  converged : Bool
  /-- The session would have gone on, but had entered as many stages as it may. -/
  unfinished : Bool := false

def Halt.outcome (halt : Halt) : Outcome :=
  { results := halt.state.results
    stages := halt.state.stages ++ [.done]
    converged := halt.state.converged
    unfinished := halt.unfinished }

/-- A session of at most `fuel` stages. An error says why a run did not return. -/
def job (s : Session) (h : SessionHost σ) (fuel : Nat) : Job σ (Except String Outcome) := do
  let start ← .look h.now
  match ← s.proceed h (start + s.budget.toInt) fuel {} with
  | .error why => return .error why
  | .ok halt => return .ok halt.outcome

end Session
end FaultChain
