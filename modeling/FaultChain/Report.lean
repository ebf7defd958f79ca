import FaultChain.Files
import FaultChain.Text.Lines
import FaultChain.Trace

/-!
# Error reports

A backend run leaves one report per error it finds: a reason line, an optional location, and a stack
section. A report whose name ends in `.macke.err` describes an error reached through a prepended
error summary; its reason names the report it was seeded from.

* `Fault`: what a report says.
* `Report.ktestOf`: the test case beside a report.
* `Report.parse`: a fault from the lines of a report.
* `Report.read`: a fault from a report file.
-/

namespace FaultChain

/-- One error found by a backend run. -/
structure Fault where
  /-- The file of the report, which identifies the error. -/
  report : String
  ktest : String
  /-- The function the run started from. -/
  entry : String
  reason : String
  location : String
  function : String
  trace : Trace
  /-- The report a propagated error was seeded from. -/
  seed : String
  deriving DecidableEq

namespace Fault

def propagatedEnding : String := ".macke.err"

/-- Reason fragments of errors that are never registered. -/
def blacklist : List String := ["klee_get_obj_size"]

/-- Whether the error was reached through a prepended error summary. -/
def isPropagated (f : Fault) : Bool := Text.endsWith f.report propagatedEnding

def isBlacklisted (f : Fault) : Bool := blacklist.any (Text.contains f.reason ·)

def depth (f : Fault) : Nat := f.trace.depth

def render (f : Fault) : String :=
  "<" ++ f.entry ++ ", " ++ f.report ++ ", " ++ f.reason ++ ", " ++ f.location ++ ">"

end Fault

namespace Report

/-! ## Names -/

/-- A function name without what a compiler added after a dot. -/
def normalize (function : String) : String :=
  String.ofList (function.toList.takeWhile (· != '.'))

/-- The test case of a report: its path without the error type and the ending. -/
def ktestOf (report : String) : Except Failure String :=
  if !Text.endsWith report ".err" then
    .error (.malformedArtifact (report ++ " is not an error report"))
  else
    match Text.cutLast '.' (Text.dropEnding report ".err") with
    | some (stem, kind) =>
      if kind.toList.contains '/' then
        .error (.malformedArtifact (report ++ " has no error type"))
      else .ok (stem ++ ".ktest")
    | none => .error (.malformedArtifact (report ++ " has no error type"))

/-! ## Lines -/

structure Line where
  number : Nat
  text : List Char

/-- The lines after the first one, trimmed and numbered. -/
def numbered (lines : List (List Char)) : List Line :=
  (lines.zipIdx 2).map fun (text, n) => ⟨n, Text.trimChars text⟩

def Line.starts (l : Line) (word : String) : Bool := word.toList.isPrefixOf l.text

/-- The text of a line after a word in front. -/
def Line.after (l : Line) (word : String) : List Char := l.text.drop word.toList.length

/-- The line number written in a `line:` line. -/
def lineNumber (l : Line) : Except String Int :=
  if !l.starts "line: " then
    .error ("expected line:, got " ++ Text.quote (String.ofList l.text))
  else
    let digits := Text.trimChars (l.after "line: ")
    match Decimal.parseChars digits with
    | .ok n => .ok n
    | .error why =>
      .error ("bad line number: strconv.Atoi: parsing " ++ Text.quote (String.ofList digits) ++
        ": " ++ why.message)

/-- The faulting location given by the second and third line, if the second line names a file, and
the lines that follow. -/
def location : List Line → Except String (String × List Line)
  | [] => .ok ("", [])
  | l :: rest =>
    if l.starts "File: " then
      match rest with
      | [] => .error "missing line after File:"
      | next :: more => do
        let n ← lineNumber next
        .ok (String.ofList (l.after "File: ") ++ ":" ++ Decimal.ofInt n, more)
    else .ok ("", l :: rest)

/-- The lines after the one that opens the stack section. -/
def stackLines (lines : List Line) : List Line :=
  (lines.dropWhile (!·.starts "Stack:")).drop 1

/-- Functions of frames that only lead into a prepended error summary. -/
def helperStart : String := "__macke_error_"

/-- The frame a stack line stands for: its third and last field. Helper frames are left out. -/
def frameOf (l : Line) : Except String (Option Frame) :=
  match (Text.fieldsChars l.text).map String.ofList with
  | a :: b :: function :: rest =>
    if Text.startsWith function helperStart then .ok none
    else .ok (some ⟨function, (a :: b :: function :: rest).getLast (by simp)⟩)
  | _ => .error ("short stack frame " ++ Text.quote (String.ofList l.text))

/-- Collects frames up to the line that opens the section of further information; also tells
whether that line was found. -/
def frames (path : String) (acc : List Frame) : List Line → Except Failure (List Frame × Bool)
  | [] => .ok (acc.reverse, false)
  | l :: rest =>
    if l.starts "Info:" then .ok (acc.reverse, true)
    else if l.text.isEmpty then frames path acc rest
    else
      match frameOf l with
      | .error why =>
        .error (.malformedArtifact (path ++ ":" ++ Decimal.ofNat l.number ++ ": " ++ why))
      | .ok none => frames path acc rest
      | .ok (some f) => frames path (f :: acc) rest

/-! ## Reports -/

def reasonStart : String := "Error: "

def seedStart : String := "ERROR FROM "

def seedOf (path reason : String) : Except Failure String :=
  if !Text.endsWith path Fault.propagatedEnding then .ok ""
  else if Text.startsWith reason seedStart then .ok (Text.trim (Text.dropStart reason seedStart))
  else .error (.malformedArtifact (path ++ ": propagated error without seed"))

def innermost (fns : FunctionSet) (t : Trace) : String :=
  match t.frames.find? (fns.contains ·.function) with
  | some f => f.function
  | none => ""

/-- A fault from the lines of a report; `entry` is the function the run started from. -/
def parse (path ktest entry : String) (fns : FunctionSet) (text : Text.Lines) :
    Except Failure Fault := do
  let bad (why : String) : Failure := .malformedArtifact (path ++ ": " ++ why)
  match text.lines with
  | [] => .error (bad "missing reason line")
  | first :: rest =>
    if !reasonStart.toList.isPrefixOf first then .error (bad "missing reason line")
    else
      let reason :=
        String.ofList (Text.trimChars (first.drop reasonStart.toList.length))
      let (loc, body) ← (location (numbered rest)).mapError bad
      let (stack, closed) ← frames path [] (stackLines body)
      if text.tooLong && !closed then .error (bad Text.tooLongMessage)
      else
        let trace := Trace.ofFrames stack (normalize entry)
        let seed ← seedOf path reason
        .ok {
          report := path
          ktest := ktest
          entry := normalize entry
          reason := reason
          location := loc
          function := innermost fns trace
          trace := trace
          seed := seed }

/-- A fault from a report file; a directory opens but has no lines. -/
def read (files : FileTree) (path entry : String) (fns : FunctionSet) : Except Failure Fault := do
  let ktest ← ktestOf path
  let content ← (files.openFile path).mapError (.within "failed to open error report" ·)
  let lines : Text.Lines :=
    match content with
    | some text => Text.readLines Text.longLine text
    | none => { lines := [], tooLong := false }
  parse path ktest entry fns lines

end Report
end FaultChain
