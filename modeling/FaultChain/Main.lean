import Std.Time.DateTime.Timestamp
import FaultChain.CommandLine.Run

/-!
# The program

Runs a command line on the files of the working directory and stores what it changes there. Other
programs are not started from here: each one found on the way ends at once with status 127.
-/

namespace FaultChain

def variableNames : List String :=
  ["MACKE_CONFIG", "MACKE_LLVMOPT", "MACKE_LIBMACKEOPT", "MACKE_KLEE", "MACKE_LLVMFUZZOPT",
    "MACKE_LIBMACKEFUZZOPT", "MACKE_LIBMACKEFUZZPATH", "MACKE_CLANG", "MACKE_AFL_CC",
    "MACKE_AFL_FUZZ", "MACKE_AFL_LIB", "MACKE_KTEST_CONVERTER", "MACKE_CGROUP_ROOT",
    "MACKE_THREADNUM", "MACKE_FUZZ_MEMLIMIT", "MACKE_USE_CGROUPS"]

def readVariables : IO Environment :=
  variableNames.filterMapM fun name => do return (← IO.getEnv name).map (name, ·)

/-- Adds the files of a directory at a path. A file that is no text counts as empty. -/
partial def loadFiles (path : String) (entries : Array IO.FS.DirEntry) (t : FileTree) :
    IO FileTree := do
  let mut t := t
  for e in entries do
    let name := Path.join [path, e.fileName]
    if ← e.path.isDir then
      t := (t.makeDirs name).toOption.getD t
      t ← loadFiles name (← e.path.readDir) t
    else
      let text ← (IO.FS.readFile e.path).toBaseIO
      t := t.plant name (text.toOption.getD "") true
  return t

def storeChanges (before after : FileTree) : IO Unit := do
  let old := before.texts "."
  for (path, text) in after.texts "." do
    if old.lookup path != some text then
      let parent := FileTree.parentOf path
      if parent != "" then IO.FS.createDirAll parent
      IO.FS.writeFile path text

end FaultChain

open FaultChain in
def main (words : List String) : IO UInt32 := do
  let here ← IO.currentDir
  let files ← loadFiles "" (← here.readDir) FileTree.empty
  let now : Int := (← Std.Time.Timestamp.now).toNanosecondsSinceUnixEpoch.val
  let host : Host :=
    { files := files
      env := ← readVariables
      programs := fun _ files _ => { files := files, ending := .exited 127 }
      clock := now
      wall := now }
  let done := CommandLine.run words 1 host
  storeChanges files done.host.files
  IO.print done.stdout
  IO.eprint done.stderr
  return done.exit.toUInt32
