import FaultChain.Number.Duration
import FaultChain.Text.Basic

/-!
# Commands of the symbolic executor

* `SymbolicRun`: one run of the symbolic executor.
* `SymbolicRun.args`: its command line.
* `testCount`: the number of generated tests an output reports.
-/

namespace FaultChain

/-- One run of the symbolic executor. -/
structure SymbolicRun where
  image : String := ""
  function : String := ""
  outDir : String := ""
  /-- The function whose calls the run aims at, or empty. -/
  target : String := ""
  flags : List String := []
  /-- Symbolic arguments and files, only used for the program entry point. -/
  posixFlags : List String := []
  /-- Concrete inputs to replay before exploring, or empty. -/
  seedDir : String := ""
  timeout : Duration := Duration.zero

namespace SymbolicRun

def defaultFlags : List String :=
  ["--allow-external-sym-calls", "--istats-write-interval=3600", "--libc=uclibc",
    "--max-memory=1000", "--only-output-states-covering-new", "--optimize",
    "--output-source=false", "--posix-runtime", "--stats-write-interval=3600", "--watchdog"]

def targetedSearch : String := "ld2t"

/-- The name of the symbolic wrapper of a function. -/
def entryPoint (function : String) : String := "macke_" ++ function ++ "_main"

/-- The command line of a run. The symbolic environment has to follow the image. -/
def args (r : SymbolicRun) : List String :=
  let isMain := r.function == "main"
  ["--output-dir=" ++ r.outDir] ++
    (if r.target == "" then []
      else ["--search=" ++ targetedSearch, "--targeted-function=" ++ r.target]) ++
    r.flags ++ defaultFlags ++
    (if r.seedDir == "" then []
      else ["--seed-out-dir=" ++ r.seedDir, "--named-seed-matching", "--allow-seed-extension"]) ++
    (if isMain then [] else ["--entry-point", entryPoint r.function]) ++
    [r.image] ++ (if isMain then r.posixFlags else [])

def label (r : SymbolicRun) : String :=
  "klee " ++ r.function ++ if r.target == "" then "" else "->" ++ r.target

end SymbolicRun

/-- Printed before the number of generated tests. -/
def testCountStart : List Char := "KLEE: done: generated tests = ".toList

/-- The digits after the first announcement of generated tests that is followed by a digit. -/
def testCountDigits : List Char → Option (List Char)
  | [] => none
  | c :: rest =>
    if testCountStart.isPrefixOf (c :: rest) then
      match ((c :: rest).drop testCountStart.length).takeWhile Char.isDigit with
      | [] => testCountDigits rest
      | digits => some digits
    else testCountDigits rest

/-- The number of generated tests an output reports, zero if there is none. -/
def testCount (output : String) : Int64 :=
  match (testCountDigits output.toList).map Decimal.parseChars with
  | some (.ok n) => Int64.ofInt n
  | _ => 0

end FaultChain
