import FaultChain.Environment
import FaultChain.Files

/-!
# Files with environment variables

A file sets variables with lines `NAME=value` or `NAME: value`, after `export` or not. Values may be
quoted; unquoted and double quoted ones may refer to variables set earlier in the same file.

* `EnvFile.parse?`: the variables of a file.
* `EnvFile.extend`: adds the variables of the file `.env` that are not set already.
-/

namespace FaultChain
namespace EnvFile

/-! ## Characters -/

def isGap (c : Char) : Bool :=
  c == '\t' || c == ' ' || c == '\r' || c.toNat == 0x0B || c.toNat == 0x0C || c.toNat == 0x85 ||
    c.toNat == 0xA0

def isLineEnd (c : Char) : Bool := c == '\n' || c == '\r'

/-- Whether a byte may occur in a variable name: letters, digits and white space, of which there are
some among the bytes that are no ASCII characters too. -/
def isNameByte (b : UInt8) : Bool :=
  let c := Char.ofNat b.toNat
  c.isAlphanum || c == '_' || c == '.' || isGap c ||
    [0xAA, 0xB2, 0xB3, 0xB5, 0xB9, 0xBA, 0xBC, 0xBD, 0xBE].contains b ||
    (0xC0 ≤ b && b != 0xD7 && b != 0xF7)

/-- Whether a character may occur in a variable name, which is decided byte by byte. -/
def isNameChar (c : Char) : Bool := (String.singleton c).toUTF8.toList.all isNameByte

def dropGaps (cs : List Char) : List Char := cs.dropWhile isGap

/-- Without white space at both ends. -/
def trimGaps (cs : List Char) : List Char := ((dropGaps cs).reverse.dropWhile isGap).reverse

def unifyLines : List Char → List Char
  | '\r' :: '\n' :: rest => '\n' :: unifyLines rest
  | c :: rest => c :: unifyLines rest
  | [] => []

/-! ## Values -/

def isReferenceChar (c : Char) : Bool := ('A' ≤ c && c ≤ 'Z') || c.isDigit || c == '_'

/-- The reference behind a dollar sign: an optional parenthesis and brace, a name and an optional
closing brace. Gives the name and the whole reference. -/
def reference (cs : List Char) : List Char × List Char :=
  let opening := (cs.take 1).filter (· == '(')
  let cs := cs.drop opening.length
  let brace := (cs.take 1).filter (· == '\x7b')
  let cs := cs.drop brace.length
  let name := cs.takeWhile isReferenceChar
  let closing := ((cs.drop name.length).take 1).filter (· == '\x7d')
  (name, opening ++ brace ++ name ++ closing)

/-- Puts the values of variables in place of references. A reference behind a backslash stays, and the
next `skip` characters belong to the last reference. -/
def expand (vars : Environment) (skip : Nat) : List Char → List Char
  | [] => []
  | c :: rest =>
    if 0 < skip then expand vars (skip - 1) rest
    else if c == '\\' && rest.head? == some '$' then
      let (_, whole) := reference (rest.drop 1)
      '$' :: whole ++ expand vars (1 + whole.length) rest
    else if c == '$' then
      let (name, whole) := reference rest
      (if name.isEmpty then '$' :: whole else (vars.get (String.ofList name)).toList) ++
        expand vars whole.length rest
    else c :: expand vars 0 rest

def breakLines : List Char → List Char
  | '\\' :: c :: rest =>
    if c == 'n' then '\n' :: breakLines rest
    else if c == 'r' then '\r' :: breakLines rest
    else '\\' :: c :: breakLines rest
  | c :: rest => c :: breakLines rest
  | [] => []

def dropBackslashes : List Char → List Char
  | '\\' :: c :: rest =>
    if c == '$' then '\\' :: c :: dropBackslashes rest else c :: dropBackslashes rest
  | c :: rest => c :: dropBackslashes rest
  | [] => []

/-- The text up to a closing quote and what follows it. A quote behind a backslash does not count. -/
def quotedBody (quote : Char) (acc : List Char) (previous : Char) :
    List Char → Option (List Char × List Char)
  | [] => none
  | c :: rest =>
    if c == quote && previous != '\\' then some (acc.reverse, rest)
    else quotedBody quote (c :: acc) c rest

def trimQuotes (quote : Char) (cs : List Char) : List Char :=
  ((cs.dropWhile (· == quote)).reverse.dropWhile (· == quote)).reverse

/-- A line without a comment, which begins with the last number sign behind white space. -/
def dropComment (cs : List Char) : List Char :=
  let start := (List.range cs.length).reverse.find? fun i =>
    cs[i]? == some '#' && 0 < i && (cs[i - 1]?.any isGap)
  match start with
  | some i => cs.take i
  | none => cs

def value? (vars : Environment) (cs : List Char) : Option (List Char × List Char) :=
  let quoted (quote : Char) (rest : List Char) : Option (List Char × List Char) :=
    (quotedBody quote [] quote rest).map fun (body, rest) => (trimQuotes quote body, rest)
  match cs with
  | '"' :: rest =>
    (quoted '"' rest).map fun (body, rest) =>
      (expand vars 0 (dropBackslashes (breakLines body)), rest)
  | '\'' :: rest => quoted '\'' rest
  | _ =>
    let line := cs.takeWhile (!isLineEnd ·)
    some (expand vars 0 (trimGaps (dropComment line)), cs.drop line.length)

/-! ## Statements -/

/-- Drops white space and comment lines in front of a statement. -/
def statementStart : Nat → List Char → List Char
  | 0, cs => cs
  | fuel + 1, cs =>
    match cs.dropWhile Text.isBlank with
    | '#' :: rest => statementStart fuel (rest.dropWhile (· != '\n'))
    | cs => cs

def dropExport (cs : List Char) : List Char :=
  let word := "export".toList
  if word.isPrefixOf cs && ((cs.drop word.length).head?.any isGap) then
    dropGaps (cs.drop word.length)
  else cs

/-- The name of a statement and what follows its sign. Without a sign there is no name, and all of it
is the value. -/
def name? (cs : List Char) : Option (List Char × List Char) :=
  let cs := dropExport (dropGaps cs)
  let isSign (c : Char) : Bool := c == '=' || c == ':'
  let name := cs.takeWhile (!isSign ·)
  if cs.isEmpty || !name.all isNameChar then none
  else if name.length == cs.length then some ([], dropGaps cs)
  else some ((name.reverse.dropWhile Text.isBlank).reverse, dropGaps (cs.drop (name.length + 1)))

def set (vars : Environment) (name value : String) : Environment :=
  vars.filter (·.1 != name) ++ [(name, value)]

def statements? : Nat → Environment → List Char → Option Environment
  | 0, vars, _ => some vars
  | fuel + 1, vars, cs =>
    match statementStart cs.length cs with
    | [] => some vars
    | cs =>
      match name? cs with
      | none => none
      | some (name, rest) =>
        match value? vars rest with
        | none => none
        | some (value, rest) =>
          statements? fuel (set vars (String.ofList name) (String.ofList value)) rest

def parse? (text : String) : Option Environment :=
  let cs := unifyLines text.toList
  statements? (cs.length + 1) [] cs

def isSettable (name value : String) : Bool := name != "" && !value.toList.contains (Char.ofNat 0)

/-- Adds the variables of the file `.env` that are not set already. A file that is missing or
malformed adds nothing. -/
def extend (files : FileTree) (env : Environment) : Environment :=
  match ((files.read ".env").toOption).bind parse? with
  | some vars =>
    env ++ vars.filter fun (name, value) => isSettable name value && (env.lookup name).isNone
  | none => env

end EnvFile
end FaultChain
