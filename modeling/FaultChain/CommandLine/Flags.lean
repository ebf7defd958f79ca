import FaultChain.CommandLine.Csv
import FaultChain.Number.Integer
import FaultChain.Text.Basic

/-!
# Flags of commands

A flag is written `--name=value` or `--name value`; a switch needs no value. Everything behind `--` is
no flag. A command line that cannot be read is `none`.

* `Flag`: a flag of a command.
* `Flag.read?`: splits a command line into flags and other arguments.
* `Settings`: what flags were set to.
-/

namespace FaultChain

inductive FlagKind where
  | text
  | integer
  | switch
  | texts
  deriving DecidableEq

structure Flag where
  name : String
  kind : FlagKind
  usage : String
  shown : String := ""
  letter : Option Char := none

inductive FlagValue where
  | text (s : String)
  | integer (n : Int)
  | switch (b : Bool)
  | texts (ss : List String)
  deriving DecidableEq

/-! ## Values -/

namespace FlagKind

def switch? (s : String) : Option Bool :=
  if ["1", "t", "T", "TRUE", "true", "True"].contains s then some true
  else if ["0", "f", "F", "FALSE", "false", "False"].contains s then some false
  else none

def read? (s : String) : FlagKind → Option FlagValue
  | .text => some (.text s)
  | .integer => (Integer.parse? s).map .integer
  | .switch => (switch? s).map .switch
  | .texts => if s == "" then some (.texts []) else (Csv.record? s).map .texts

end FlagKind

/-- What flags were set to, in order. -/
abbrev Settings := List (String × FlagValue)

namespace Settings

def has (s : Settings) (name : String) : Bool := s.any (·.1 == name)

def text? (s : Settings) (name : String) : Option String :=
  s.reverse.findSome? fun
    | (n, .text v) => if n == name then some v else none
    | _ => none

def integer? (s : Settings) (name : String) : Option Int :=
  s.reverse.findSome? fun
    | (n, .integer v) => if n == name then some v else none
    | _ => none

def switch? (s : Settings) (name : String) : Option Bool :=
  s.reverse.findSome? fun
    | (n, .switch v) => if n == name then some v else none
    | _ => none

/-- All texts of a list, if it was set. -/
def texts? (s : Settings) (name : String) : Option (List String) :=
  let given := s.filterMap fun
    | (n, .texts v) => if n == name then some v else none
    | _ => none
  if given.isEmpty then none else some given.flatten

end Settings

/-! ## Command lines -/

/-- A command line split into flags and other arguments. -/
structure SplitLine where
  settings : Settings := []
  args : List String := []

namespace Flag

def isSwitch (f : Flag) : Bool := f.kind == .switch

def set? (f : Flag) (value : String) (line : SplitLine) : Option SplitLine :=
  (f.kind.read? value).map fun v => { line with settings := line.settings ++ [(f.name, v)] }

/-- The flags in a word of letters behind one dash: switches may be joined, and the last one may have a
value behind an equals sign. -/
def readLetters? (flags : List Flag) (line : SplitLine) : List Char → Option SplitLine
  | [] => some line
  | c :: rest =>
    match flags.find? (·.letter == some c) with
    | none => none
    | some f =>
      match rest with
      | '=' :: v :: vs => f.set? (String.ofList (v :: vs)) line
      | _ =>
        match f.set? "true" line with
        | some line => readLetters? flags line rest
        | none => none

/-- Words of letters that are skipped. -/
def isTestWord (letters : List Char) : Bool := "test.".toList.isPrefixOf letters

/-- The name in a word behind two dashes, and its value behind an equals sign. -/
def nameAndValue (word : String) : String × Option String :=
  match Text.cut '=' word with
  | some (name, value) => (name, some value)
  | none => (word, none)

/-- The value of a flag: behind an equals sign, none for a switch, or else the next word. Gives also
whether the next word is used up. -/
def valueOf? (f : Flag) (value : Option String) (next : Option String) : Option (String × Bool) :=
  match value with
  | some v => some (v, false)
  | none => if f.isSwitch then some ("true", false) else next.map (·, true)

/-- Splits a command line into flags and other arguments; the first word is left out if it was the
value of a flag. -/
def readFrom? (flags : List Flag) (used : Bool) (line : SplitLine) : List String → Option SplitLine
  | [] => some line
  | word :: rest =>
    if used then readFrom? flags false line rest
    else
      match word.toList with
      | ['-', '-'] => some { line with args := line.args ++ rest }
      | '-' :: '-' :: cs =>
        let (name, value) := nameAndValue (String.ofList cs)
        match flags.find? (·.name == name) with
        | none => none
        | some f =>
          match valueOf? f value rest.head? with
          | none => none
          | some (v, used) =>
            match f.set? v line with
            | some line => readFrom? flags used line rest
            | none => none
      | '-' :: c :: cs =>
        if isTestWord (c :: cs) then readFrom? flags false line rest
        else
          match readLetters? flags line (c :: cs) with
          | some line => readFrom? flags false line rest
          | none => none
      | _ => readFrom? flags false { line with args := line.args ++ [word] } rest

def read? (flags : List Flag) (words : List String) : Option SplitLine :=
  readFrom? flags false {} words

end Flag
end FaultChain
