import FaultChain.Host.Command
import FaultChain.Toolchain.Basic

/-!
# Fuzz targets

The two binaries shared by all fuzzing runs of an analysis: the instrumented target and the
reproducer that replays crashing inputs under a sanitizer.

* `FuzzTarget.prepare`: builds both.
* `FuzzTarget.fillInputs`: puts seeds into an empty input directory.
* `FuzzTarget.drivers`: the functions that can be fuzzed.
-/

namespace FaultChain

/-- The binaries of fuzzing and how they are built. -/
structure FuzzTarget where
  binaries : Binaries
  buildDir : String
  inputDir : String
  flags : List String := []
  libraries : List String := []
  /-- Length of the seed filled with zeros. -/
  inputMaxLen : Int
  target : String
  reproducer : String
  timeout : Duration := Duration.ofMinutes 30

namespace FuzzTarget

def ofConfig (c : Config) (dir : String) : FuzzTarget :=
  let build := Path.join [dir, "build"]
  { binaries := c.binaries
    buildDir := build
    inputDir := Path.join [dir, "inputdir"]
    inputMaxLen := c.inputMaxLen
    target := Path.join [build, "afl-target"]
    reproducer := Path.join [build, "reproducer"] }

def settings (t : FuzzTarget) : List String :=
  ["AFL_NO_UI=1", "AFL_CC=" ++ t.binaries.clang] ++
  if t.binaries.fuzzerLibrary == "" then [] else ["AFL_PATH=" ++ t.binaries.fuzzerLibrary]

/-! ## Building -/

def built (t : FuzzTarget) (name : String) : String := Path.join [t.buildDir, name]

def buildSteps (t : FuzzTarget) (image : String) : List (String × List String) :=
  let b := t.binaries
  let helpers := Path.join [b.fuzzSources, "helper_funcs"]
  let extract := Path.join [helpers, "buffer_extract.c"]
  let initializer := Path.join [helpers, "initializer.c"]
  let plain := t.built "target_with_drivers.bc"
  let sanitized := t.built "target_with_drivers_and_asan.bc"
  let libraries := t.libraries.map ("-l" ++ ·)
  let object (name : String) : List String := ["-o", t.built name]
  [(b.fuzzCompiler, ["-c", "-g"] ++ t.flags ++ [extract] ++ object "buffer_extract_afl.o"),
    (b.fuzzCompiler, ["-c", "-g"] ++ t.flags ++ [initializer] ++ object "initializer_afl.o"),
    (b.clang, ["-c", "-g", "-fsanitize=address"] ++ t.flags ++ [extract] ++
      object "buffer_extract_reproducer.o"),
    (b.clang, ["-c", "-g", "-fsanitize=address", "-D__REPRODUCE_FUZZING"] ++ t.flags ++
      [initializer] ++ object "initializer_reproducer.o"),
    (b.fuzzOpt, ["-load", b.fuzzPasses, "-insert-fuzzdriver", "-renamemain", "-mem2reg", image,
      "-o", plain]),
    (b.fuzzOpt, ["-load", b.fuzzPasses, "-enable-asan", "-asan", "-asan-module", plain, "-o",
      sanitized]),
    (b.fuzzCompiler, ["-o", t.target] ++ t.flags ++
      [t.built "buffer_extract_afl.o", t.built "initializer_afl.o", plain] ++ libraries),
    (b.fuzzCompiler, ["-fsanitize=address", "-o", t.reproducer] ++ t.flags ++
      [t.built "buffer_extract_reproducer.o", t.built "initializer_reproducer.o", sanitized] ++
      libraries)]

def runStep (t : FuzzTarget) (program : String) (args : List String) (h : Host) :
    Except Failure Unit × Host :=
  let c : Command :=
    { path := program, args := args, settings := t.settings, timeout := t.timeout }
  match c.run h with
  | (.error f, h) => (.error (.tool program args "" f), h)
  | (.ok o, h) => ((Compiler.outputFailure program args o).map fun _ => (), h)

def runSteps (t : FuzzTarget) : List (String × List String) → Host → Except Failure Unit × Host
  | [], h => (.ok (), h)
  | (program, args) :: rest, h =>
    match t.runStep program args h with
    | (.error f, h) => (.error f, h)
    | (.ok _, h) => t.runSteps rest h

def makeDir (files : FileTree) (dir : String) : Except Failure FileTree :=
  (files.makeDirs dir).mapError (.within ("failed to create " ++ dir) ·)

/-- Builds both binaries with a driver for every function of an image. -/
def prepare (t : FuzzTarget) (image : String) (h : Host) : Except Failure Unit × Host :=
  match makeDir h.files t.buildDir with
  | .error f => (.error f, h)
  | .ok files =>
    let h := { h with files := files }
    match makeDir h.files t.inputDir with
    | .error f => (.error f, h)
    | .ok files => t.runSteps (t.buildSteps image) { h with files := files }

/-! ## Inputs -/

/-- Puts seeds into an input directory without files: a dummy of one byte and, if it has a length,
one filled with zeros. -/
def seed (t : FuzzTarget) (files : FileTree) : Except Failure FileTree := do
  let files ← files.makeDirs t.inputDir
  let entries ← files.list t.inputDir
  if entries.any (·.2.isFile) then return files
  let files ← files.write (Path.join [t.inputDir, "dummy.input"]) "a"
  if 0 < t.inputMaxLen then
    files.write (Path.join [t.inputDir, "zeros.input"])
      (String.ofList (List.replicate t.inputMaxLen.toNat (Char.ofNat 0)))
  else return files

/-- Puts seeds into the input directory, as far as possible. -/
def fillInputs (t : FuzzTarget) (h : Host) : Except Failure Unit × Host :=
  match t.seed h.files with
  | .ok files => (.ok (), { h with files := files })
  | .error f => (.error f, { h with files := (h.files.makeDirs t.inputDir).toOption.getD h.files })

/-! ## Drivers -/

/-- The functions the target has a driver for. -/
def drivers (t : FuzzTarget) (h : Host) : Except Failure (List String) × Host :=
  let args := ["--list-fuzz-drivers"]
  let c : Command := { path := t.target, args := args, timeout := Duration.ofMinutes 1 }
  match c.run h with
  | (.error f, h) => (.error (.tool t.target args "" f), h)
  | (.ok o, h) =>
    if o.exit != 0 then
      (.error (.tool t.target args o.text (.other ("exit status " ++ Decimal.ofInt o.exit))), h)
    else (.ok (((Text.split '\n' o.text).map Text.trim).filter (· != "")), h)

end FuzzTarget
end FaultChain
