import FaultChain.Number.Decimal
import FaultChain.Text.Basic

/-!
# Sanitizer reports

A crashing input is replayed under a memory sanitizer, whose report becomes an error report.

* `SanitizerReport.parse`: the report in an output.
* `SanitizerReport.text`: the report in the form the registry reads.
-/

namespace FaultChain

structure SanitizerFrame where
  function : String
  /-- File and line, or the module of a frame without source. -/
  location : String
  deriving DecidableEq

/-- The part of a sanitizer report that is kept. -/
structure SanitizerReport where
  description : String
  frames : List SanitizerFrame
  deriving DecidableEq

namespace SanitizerReport

/-! ## Locations -/

def isInteger (s : String) : Bool :=
  match Decimal.parse s with
  | .ok _ => true
  | .error _ => false

def stripColumn (location : String) : String :=
  match (Text.split ':' location).reverse with
  | column :: line :: file :: rest =>
    if isInteger column && isInteger line then
      Text.join ":" (line :: file :: rest).reverse
    else location
  | _ => location

def splitLocation (location : String) : Option (String × Int) :=
  match Text.cutLast ':' location with
  | some (file, line) =>
    if file == "" then none
    else
      match Decimal.parse line with
      | .ok n => some (file, n)
      | .error _ => none
  | none => none

/-! ## Reading -/

def errorMark : String := "==ERROR:"

/-- The text after the first occurrence of `word`. -/
def afterWord (word : List Char) : List Char → Option (List Char)
  | [] => if word.isEmpty then some [] else none
  | c :: rest =>
    if word.isPrefixOf (c :: rest) then some ((c :: rest).drop word.length)
    else afterWord word rest

def describe? (line : String) : Option String :=
  if Text.contains line errorMark then
    match afterWord "Sanitizer:".toList line.toList with
    | some rest => ((Text.fieldsChars rest).map String.ofList).head?
    | none => none
  else none

def runtimeStarts : List String := ["__interceptor_", "__asan_", "__sanitizer_"]

/-- The frames of consecutive lines numbered from `n`; those of the sanitizer are left out. -/
def framesFrom (n : Nat) : List String → List SanitizerFrame
  | [] => []
  | line :: rest =>
    match Text.fields line with
    | number :: a :: b :: function :: more =>
      if number == "#" ++ Decimal.ofNat n then
        let frames := framesFrom (n + 1) rest
        if runtimeStarts.any (Text.startsWith function ·) then frames
        else
          let last := (number :: a :: b :: function :: more).getLast (by simp)
          { function := function, location := stripColumn last } :: frames
      else []
    | _ => []

def stackLines (lines : List String) : List String :=
  lines.dropWhile fun line => !Text.startsWith (Text.trim line) "#0 "

/-- The report in an output, if there is one. -/
def parse (output : String) : Option SanitizerReport :=
  if Text.contains output errorMark then
    let lines := Text.split '\n' output
    some {
      description := (lines.findSome? describe?).getD "unknown-crash"
      frames := framesFrom 0 (stackLines lines) }
  else none

/-! ## Writing -/

def locationLines (r : SanitizerReport) : String :=
  match r.frames with
  | [] => ""
  | f :: _ =>
    match splitLocation f.location with
    | some (file, line) => "File: " ++ file ++ "\nline: " ++ Decimal.ofInt line ++ "\n"
    | none => ""

def frameLine (n : Nat) (f : SanitizerFrame) : String :=
  "\t#" ++ Decimal.pad 9 n ++ " in " ++ f.function ++ " () at " ++ f.location ++ "\n"

/-- The text of an error report; `input` is the crashing input, or empty. -/
def text (r : SanitizerReport) (input : String) : String :=
  "Error: " ++ r.description ++ "\n" ++ r.locationLines ++ "Stack:\n" ++
    String.join (r.frames.zipIdx.map fun (f, n) => frameLine n f) ++ "Info:\n" ++
    if input == "" then "" else "\tfuzzer input: " ++ input ++ "\n"

end SanitizerReport
end FaultChain
