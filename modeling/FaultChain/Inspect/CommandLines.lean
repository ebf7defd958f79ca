import FaultChain.CommandLine.Run
import FaultChain.Inspect.Services

/-!
# Command lines as JSON

For programs that drive the library: what is left of a command line that put its run directories
into `runs`.
-/

namespace FaultChain
namespace Inspect

open Json

def runDirs (files : FileTree) : List String :=
  (((files.list "runs").toOption.getD []).map (·.1)).filter (Text.startsWith · "2")

def averageBits : Json → Json
  | .obj members =>
    .obj (members.map fun (k, v) => if k == "avg-chain-length" then (k, numberBits v) else (k, v))
  | j => j

def runDocuments (files : FileTree) : Members :=
  match runDirs files with
  | [dir] =>
    ["options.json", "klee.json", "summary.json"].filterMap fun name =>
      (document? files (Path.join ["runs", dir, name])).map fun j => (name, averageBits j)
  | _ => []

def ownLines (text : String) : List String :=
  (Text.split '\n' text).filter (Text.startsWith · (Verb.program ++ ": "))

def commandEnd (c : CommandEnd) (paths : List String) : Json :=
  let files := c.host.files
  stampless (.obj ([("exit", nat c.exit), ("stdout", .str c.stdout),
    ("stderr", .strings (ownLines c.stderr)), ("run_dirs", nat (runDirs files).length),
    ("calls", .arr (c.host.calls.map .strings)),
    ("show", .obj (paths.map fun p => (p, fileText files p)))] ++ runDocuments files))

end Inspect
end FaultChain
