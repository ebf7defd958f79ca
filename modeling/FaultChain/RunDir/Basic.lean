import FaultChain.Calendar
import FaultChain.Files
import FaultChain.Json.Basic

/-!
# Run directories

Every campaign has a directory of its own, named after the moment it starts:

    <parent>/<stamp>/
        bitcode/program.bc, bitcode/symmains.bc, bitcode/prepend-*.bc
        klee/klee-out-N/      one directory per symbolic run
        fuzz/                 fuzz target, inputs and fuzz-out-N/
        klee.json info.json options.json summary.json timing.json callgraph.dot

* `RunDir.create`: makes a fresh directory.
* `RunDir.writeJson`: stores a document in it, which is either the old or the new one at any time.
* `RunDir.linkLast`: lets the link of the parent directory lead to it.
-/

namespace FaultChain

/-- The directory of a campaign. -/
structure RunDir where
  parent : String
  root : String
  deriving DecidableEq

namespace RunDir

/-! ## Paths -/

def path (d : RunDir) (name : String) : String := Path.join [d.root, name]

def bitcodeDir (d : RunDir) : String := d.path "bitcode"

def symbolicDir (d : RunDir) : String := d.path "klee"

def fuzzDir (d : RunDir) : String := d.path "fuzz"

def program (d : RunDir) : String := Path.join [d.bitcodeDir, "program.bc"]

/-- The image in which every suitable function has an entry point of its own. -/
def symMains (d : RunDir) : String := Path.join [d.bitcodeDir, "symmains.bc"]

def edgeImage (d : RunDir) (caller callee : String) : String :=
  Path.join [d.bitcodeDir, "prepend-" ++ caller ++ "-" ++ callee ++ ".bc"]

/-! ## Creation -/

/-- The nth name to try. -/
def candidate (stamp : String) (n : Nat) : String :=
  if n == 0 then stamp else stamp ++ "-" ++ Decimal.ofNat n

/-- Makes the first directory that does not exist, of at most `tries` ones from the nth name on. -/
def makeFirst (files : FileTree) (parent stamp : String) (n : Nat) :
    Nat → Except Failure (String × FileTree)
  | 0 => .error (.file "mkdir" (Path.join [parent, candidate stamp n]) .alreadyExists)
  | tries + 1 =>
    let root := Path.join [parent, candidate stamp n]
    match files.makeDir root with
    | .ok files => .ok (root, files)
    | .error (.file _ _ .alreadyExists) => makeFirst files parent stamp (n + 1) tries
    | .error f => .error f

def makeAll : List String → FileTree → Except Failure Unit × FileTree
  | [], files => (.ok (), files)
  | dir :: rest, files =>
    match files.makeDirs dir with
    | .error f => (.error (.within ("failed to create " ++ dir) f), files)
    | .ok files => makeAll rest files

/-- Makes a fresh directory. One of the names up to the number of names in the parent directory is
free. -/
def create (parent : String) (now : Int) (files : FileTree) : Except Failure RunDir × FileTree :=
  match files.makeDirs parent with
  | .error f => (.error (.within "failed to create parent directory" f), files)
  | .ok files =>
    let stamp := (Date.ofSeconds (now.fdiv 1000000000)).stamp
    let taken := ((files.list (Path.clean parent)).toOption.getD []).length
    match makeFirst files parent stamp 0 (taken + 1) with
    | .error f => (.error (.within "failed to create run directory" f), files)
    | .ok (root, files) =>
      let d : RunDir := { parent := parent, root := root }
      match makeAll [d.bitcodeDir, d.symbolicDir, d.fuzzDir] files with
      | (.error f, files) => (.error f, files)
      | (.ok _, files) => (.ok d, files)

/-! ## Files -/

/-- Replaces a file by way of another one. -/
def replaceFile (path text : String) (files : FileTree) : Except Failure Unit × FileTree :=
  let tmp := path ++ ".tmp"
  match files.write tmp text with
  | .error f => (.error (.within ("failed to write " ++ tmp) f), files)
  | .ok files =>
    match files.rename tmp path with
    | .error f => (.error (.within ("failed to rename " ++ tmp) f), files)
    | .ok files => (.ok (), files)

def writeJson (d : RunDir) (name : String) (doc : Json) (files : FileTree) :
    Except Failure Unit × FileTree :=
  replaceFile (d.path name) doc.pretty files

/-- Why a document with a moment in a year of more than four digits cannot be stored. -/
def unwritable (name : String) : Failure :=
  .within ("failed to marshal " ++ name)
    (.other "json: error calling MarshalJSON for type time.Time: Time.MarshalJSON: year outside of range [0,9999]")

def copyFile (source dest : String) (files : FileTree) : Except Failure Unit × FileTree :=
  match files.openFile source with
  | .error f => (.error f, files)
  | .ok text =>
    match files.write dest (text.getD "") with
    | .error f => (.error f, files)
    | .ok files =>
      match text with
      | some _ => (.ok (), files)
      | none =>
        (.error (.within ("write " ++ dest)
          (.within "copy_file_range" (.other Refusal.isDirectory.message))), files)

/-- The link to the latest directory. -/
def lastLink (parent : String) : String := Path.join [parent, "macke-last"]

def linkLast (d : RunDir) (files : FileTree) : Except Failure Unit × FileTree :=
  let link := lastLink d.parent
  let removed : Except Failure FileTree :=
    match files.remove link with
    | .ok files => .ok files
    | .error f =>
      if f.isMissing then .ok files else .error (.within ("failed to remove " ++ link) f)
  match removed with
  | .error f => (.error f, files)
  | .ok files =>
    match files.link d.root link with
    | .error f => (.error f, files)
    | .ok files => (.ok (), files)

end RunDir
end FaultChain
