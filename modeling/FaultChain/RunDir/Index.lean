import FaultChain.Backend.Result
import FaultChain.RunDir.Basic

/-!
# The index of runs

Every backend run reserves an output directory before it starts. The index records what each of them
is for.

* `RunIndex.reserve`: reserves the next directory.
* `RunIndex.toJson`: the stored form.
-/

namespace FaultChain

/-- What an output directory is for. -/
structure RunRecord where
  image : String := ""
  /-- The function of a run, unless it aims at a call. -/
  function : String := ""
  caller : String := ""
  callee : String := ""
  folder : String := ""
  kind : String := ""
  phase : Int := 0
  deriving DecidableEq

namespace RunRecord

/-- A text that is left out if it is empty. -/
def optional (name value : String) : List (String × Json) :=
  if value == "" then [] else [(name, .str value)]

def toJson (r : RunRecord) : Json :=
  .obj ([("bcfile", .str r.image)] ++ optional "callee" r.callee ++ optional "caller" r.caller ++
    [("folder", .str r.folder)] ++ optional "function" r.function ++
    [("kind", .str r.kind), ("phase", .int r.phase)])

end RunRecord

/-- All reserved directories, by name, in the order in which they were reserved. -/
structure RunIndex where
  runs : List (String × RunRecord) := []

namespace RunIndex

def size (x : RunIndex) : Nat := x.runs.length

/-- The name of the nth output directory, and the directory it is in. -/
def place (d : RunDir) (kind : String) (n : Nat) : String × String :=
  if kind == fuzzKind then ("fuzz-out-" ++ Decimal.ofNat n, d.fuzzDir)
  else ("klee-out-" ++ Decimal.ofNat n, d.symbolicDir)

/-- Reserves the next directory. Gives its path. -/
def reserve (x : RunIndex) (d : RunDir) (r : RunRecord) : String × RunIndex :=
  let (name, parent) := place d r.kind (x.size + 1)
  let folder := Path.join [parent, name]
  (folder, { runs := x.runs ++ [(name, { r with folder := folder })] })

def toJson (x : RunIndex) : Json :=
  .obj ((x.runs.map fun (name, r) => (name, r.toJson)).mergeSort (·.1 ≤ ·.1))

def store (x : RunIndex) (d : RunDir) (files : FileTree) : Except Failure Unit × FileTree :=
  d.writeJson "klee.json" x.toJson files

end RunIndex
end FaultChain
