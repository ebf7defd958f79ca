import FaultChain.Files

/-!
# Output directories

What backend runs leave in their output directories.

* `OutputDir.errorFiles`: the error reports in a directory.
* `OutputDir.inputs`: the inputs a fuzzer kept in a directory.
-/

namespace FaultChain
namespace OutputDir

def reportEndings : List String :=
  [".ptr.err", ".free.err", ".assert.err", ".div.err", ".macke.err", ".fuzz.err"]

def isErrorFile (name : String) : Bool := reportEndings.any (Text.endsWith name ·)

/-- The error reports directly inside a directory, sorted. -/
def errorFiles (files : FileTree) (dir : String) : Except Failure (List String) := do
  let entries ← (files.list dir).mapError
    (.within ("failed to read output directory " ++ dir) ·)
  let names := (entries.filter fun (name, e) => !e.isDir && isErrorFile name).map (·.1)
  .ok ((names.map fun name => Path.join [dir, name]).mergeSort (· ≤ ·))

def inputs (files : FileTree) (dir : String) : List String :=
  match files.list dir with
  | .error _ => []
  | .ok entries =>
    let names := (entries.filter fun (name, e) => e.isFile && Text.startsWith name "id:").map (·.1)
    (names.map fun name => Path.join [dir, name]).mergeSort (· ≤ ·)

def ensure (files : FileTree) (dir : String) : FileTree :=
  (files.makeDirs dir).toOption.getD files

def outputFile (dir : String) : String := Path.join [dir, "output.txt"]

def keepOutput (files : FileTree) (dir output : String) : FileTree :=
  (files.write (outputFile dir) output).toOption.getD files

end OutputDir
end FaultChain
