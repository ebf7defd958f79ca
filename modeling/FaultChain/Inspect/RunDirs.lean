import FaultChain.Inspect.Values
import FaultChain.RunDir.Index

/-!
# Run directories as JSON

For programs that drive the library: descriptions of runs, and how run directories are shown.
-/

namespace FaultChain
namespace Inspect

open Json

def runRecord? (j : Json) : Option RunRecord := do
  let o ← Json.object? j
  return {
    image := ← getStr o "bcfile"
    function := ← getStr o "function"
    caller := ← getStr o "caller"
    callee := ← getStr o "callee"
    folder := ← getStr o "folder"
    kind := ← getStr o "kind"
    phase := ← getInt o "phase" }

def runDir (d : RunDir) (caller callee : String) : Members :=
  [("root", .str d.root), ("bitcode", .str d.bitcodeDir), ("klee", .str d.symbolicDir),
    ("fuzz", .str d.fuzzDir), ("program", .str d.program), ("symmains", .str d.symMains),
    ("edge", .str (d.edgeImage caller callee)), ("path", .str (d.path "x.json"))]

/-- The target of the link to the latest run directory, or an empty text. -/
def lastRun (files : FileTree) (parent : String) : Json :=
  .str ((files.target? (RunDir.lastLink parent)).getD "")

def reservations (d : RunDir) (runs : List RunRecord) (files : FileTree) : Members :=
  let (folders, x, files) := runs.foldl
    (fun (acc : List String × RunIndex × FileTree) r =>
      let (folder, x) := acc.2.1.reserve d r
      (acc.1 ++ [folder], x, (x.store d acc.2.2).2))
    ([], {}, files)
  [("folders", .strings folders), ("len", nat x.size), ("runs", x.toJson),
    ("file", fileText files (d.path "klee.json"))]

end Inspect
end FaultChain
