import FaultChain.Files
import FaultChain.Number.Binary64
import FaultChain.Text.Lines
import FaultChain.Text.Quoted

/-!
# Progress logs of the fuzzer

The fuzzer appends one row of numbers, separated by commas, to its progress log from time to time.

* `PlotRow`: a row.
* `PlotRow.parse`: reading a row; columns after the eleventh are ignored.
* `PlotData.read`: all rows of a log up to the first malformed one.
-/

namespace FaultChain

structure PlotRow where
  time : Int := 0
  cyclesDone : Int := 0
  curPath : Int := 0
  pathsTotal : Int := 0
  pendingTotal : Int := 0
  pendingFavs : Int := 0
  mapSize : Binary64 := ⟨0⟩
  crashes : Int := 0
  hangs : Int := 0
  maxDepth : Int := 0
  execsPerSec : Binary64 := ⟨0⟩

namespace PlotRow

def unreadable (reader text : String) (why : Decimal.Fault) : String :=
  "strconv." ++ reader ++ ": parsing " ++ Text.quote text ++ ": " ++ why.message

def int (reader text : String) : Except String Int :=
  (Decimal.parse text).mapError (unreadable reader text ·)

def float (text : String) : Except String Binary64 :=
  (Binary64.parse text).mapError (unreadable "ParseFloat" text ·)

def parse (line : List Char) : Except String PlotRow :=
  let cols := (line.splitOn ',').map fun c => String.ofList (Text.trimChars c)
  match cols with
  | time :: cycles :: cur :: paths :: pending :: favs :: map :: crashes :: hangs :: depth ::
      execs :: _ => do
    return {
      time := ← int "ParseInt" time
      cyclesDone := ← int "Atoi" cycles
      curPath := ← int "Atoi" cur
      pathsTotal := ← int "Atoi" paths
      pendingTotal := ← int "Atoi" pending
      pendingFavs := ← int "Atoi" favs
      mapSize := ← float (Text.dropEnding map "%")
      crashes := ← int "Atoi" crashes
      hangs := ← int "Atoi" hangs
      maxDepth := ← int "Atoi" depth
      execsPerSec := ← float execs }
  | _ => .error ("expected 11 columns, got " ++ Decimal.ofNat cols.length)

end PlotRow

/-- The rows of a log, and what stopped the reading of further ones. -/
structure PlotData where
  rows : List PlotRow
  failure : Option Failure

namespace PlotData

/-- Whether a trimmed line holds no row. -/
def isComment (line : List Char) : Bool := line.isEmpty || line.head? == some '#'

/-- Reads rows, the first line having number `n`; `acc` holds the rows so far, the latest first. -/
def takeLines (path : String) (n : Nat) (acc : List PlotRow) : List (List Char) → PlotData
  | [] => { rows := acc.reverse, failure := none }
  | line :: rest =>
    let text := Text.trimChars line
    if isComment text then takeLines path (n + 1) acc rest
    else
      match PlotRow.parse text with
      | .error why =>
        { rows := acc.reverse
          failure := some (.malformedArtifact (path ++ ":" ++ Decimal.ofNat n ++ ": " ++ why)) }
      | .ok row => takeLines path (n + 1) (row :: acc) rest

def ofText (path text : String) : PlotData :=
  let lines := Text.readLines Text.shortLine text
  let data := takeLines path 1 [] lines.lines
  if data.failure.isNone && lines.tooLong then
    { data with failure := some (.other Text.tooLongMessage) }
  else data

/-- The rows of a log file; a missing file has none. -/
def read (files : FileTree) (path : String) : PlotData :=
  match files.read path with
  | .ok text => ofText path text
  | .error f => { rows := [], failure := if f.isMissing then none else some f }

end PlotData
end FaultChain
