import FaultChain.Files
import FaultChain.Text.Lines
import FaultChain.Text.Quoted

/-!
# Line coverage

The symbolic executor writes how often every instruction was executed: a header, then blocks of rows
per source file. A line counts as covered once any of its instructions was executed.

* `Coverage.rows`: the rows of a file with coverage data.
* `Coverage.ofText`: covered and uncovered lines per source file.
* `Coverage.read`: the same from a file.
-/

namespace FaultChain

/-- Covered and uncovered lines of a source file, in increasing order. -/
structure FileCoverage where
  file : String
  covered : List Int
  uncovered : List Int

/-- Covered and uncovered lines of all source files, in the order of their names. -/
structure Coverage where
  files : List FileCoverage

namespace Coverage

structure Row where
  file : String
  line : Int
  count : Int

/-- What has been read: the header, whether it has ended, the current source file, all source files
and all rows, both with the latest first. -/
structure Reading where
  header : List (String × String) := []
  inHeader : Bool := true
  current : Option String := none
  files : List String := []
  rows : List Row := []

/-- Fragments of the paths of library and runtime sources, which are left out. -/
def runtimeSources : List String :=
  ["/libc/string/", "/runtime/Intrinsic/", "/runtime/POSIX/", "/libc/termios/", "/libc/stdio/",
    "/libc/stdlib/", "/klee-uclibc/"]

/-- Beginnings of lines without coverage data. -/
def ignoredStarts : List String := ["#", "ob=", "cob=", "fn=", "cfl=", "cfn=", "calls="]

def headerLine? (line : List Char) : Option (String × String) :=
  match Text.cutChars (· == ':') line with
  | some (k, v) =>
    if k.contains '=' then none
    else some (String.ofList (Text.trimChars k), String.ofList (Text.trimChars v))
  | none => none

/-- Whether the header announces rows of instruction and line. -/
def goodHeader (header : List (String × String)) : Bool :=
  header.lookup "version" == some "1" && header.lookup "creator" == some "klee" &&
    header.lookup "positions" == some "instr line"

def bad (path why : String) : Failure := .malformedArtifact (path ++ ": " ++ why)

def badLine (path : String) (n : Nat) (why : String) : Failure :=
  .malformedArtifact (path ++ ":" ++ Decimal.ofNat n ++ ": " ++ why)

/-- Takes in a row. Rows of no line or no source file are left out. -/
def takeRow (path : String) (n : Nat) (st : Reading) (line : List Char) :
    Except Failure Reading :=
  match Text.fieldsChars line with
  | _ :: loc :: count :: _ =>
    match Decimal.parseChars loc, Decimal.parseChars count with
    | .ok loc, .ok count =>
      match st.current with
      | some file =>
        if loc == 0 then .ok st else .ok { st with rows := ⟨file, loc, count⟩ :: st.rows }
      | none => .ok st
    | _, _ => .error (badLine path n ("bad row " ++ Text.quote (String.ofList line)))
  | _ => .error (badLine path n "short row")

def openFile (st : Reading) (name : String) : Reading :=
  if name == "" then { st with current := none }
  else { st with current := some name, files := name :: st.files }

/-- Takes in a line after the header. -/
def takeData (path : String) (n : Nat) (st : Reading) (line : List Char) :
    Except Failure Reading :=
  if (line.head?.map Char.isDigit).getD false then takeRow path n st line
  else if "fl=".toList.isPrefixOf line then
    .ok (openFile st (String.ofList (Text.trimChars (line.drop 3))))
  else if ignoredStarts.any (·.toList.isPrefixOf line) then .ok st
  else .error (badLine path n ("invalid line " ++ Text.quote (String.ofList line)))

def takeLine (path : String) (n : Nat) (st : Reading) (line : List Char) :
    Except Failure Reading :=
  if line.isEmpty then .ok st
  else if st.inHeader then
    match headerLine? line with
    | some entry => .ok { st with header := entry :: st.header }
    | none =>
      if goodHeader st.header then takeData path n { st with inHeader := false } line
      else .error (bad path "unexpected istats header")
  else takeData path n st line

/-- Takes in lines, the first of which has number `n`. -/
def takeLines (path : String) (n : Nat) (st : Reading) : List (List Char) → Except Failure Reading
  | [] => .ok st
  | line :: rest =>
    match takeLine path n st line with
    | .error f => .error f
    | .ok st => takeLines path (n + 1) st rest

/-- Distinct numbers in increasing order. -/
def sortedSet (ns : List Int) : List Int := ns.eraseDups.mergeSort (· ≤ ·)

/-- The coverage of one source file: a line is uncovered if none of its rows was executed. -/
def ofRows (rows : List Row) (file : String) : FileCoverage :=
  let mine := rows.filter (·.file == file)
  let covered := sortedSet ((mine.filter (·.count != 0)).map (·.line))
  { file := file
    covered := covered
    uncovered := (sortedSet (mine.map (·.line))).filter (!covered.contains ·) }

def isRuntime (file : String) : Bool := runtimeSources.any (Text.contains file ·)

def ofReading (st : Reading) : Coverage :=
  let files := (st.files.eraseDups.mergeSort (· ≤ ·)).filter (!isRuntime ·)
  { files := files.map (ofRows st.rows.reverse) }

def ofText (path text : String) : Except Failure Coverage :=
  let lines := Text.readLines Text.longLine text
  match takeLines path 1 {} lines.lines with
  | .error f => .error f
  | .ok st =>
    if lines.tooLong then .error (.other Text.tooLongMessage)
    else if st.inHeader then .error (bad path "no coverage data")
    else .ok (ofReading st)

def read (files : FileTree) (path : String) : Except Failure Coverage :=
  match files.read path with
  | .error f => .error f
  | .ok text => ofText path text

def total (c : Coverage) : Nat := (c.files.map (·.covered.length)).foldl (· + ·) 0

end Coverage
end FaultChain
