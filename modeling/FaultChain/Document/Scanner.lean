import FaultChain.Document.Scalars

/-!
# Tokens of documents

A document is cut into tokens. The indentation of lines becomes tokens too: they open and close the
collections that are written without brackets. What turns out to be a key when its colon is found
gets its tokens put in front of it.

* `Token`: the tokens.
* `Scanner.fetch?`: reads one more token.
* `tokens`: the tokens of a text.
-/

namespace FaultChain
namespace Document

inductive Token where
  | finish
  | fault
  | version (major minor : Nat)
  | documentStart
  | documentEnd
  | blockSequenceStart
  | blockMappingStart
  | blockEnd
  | flowSequenceStart
  | flowSequenceEnd
  | flowMappingStart
  | flowMappingEnd
  | blockEntry
  | flowEntry
  | key
  | value
  | alias (name : String)
  | anchor (name : String)
  | tag (name : String)
  | scalar (plain : Bool) (text : String)
  deriving DecidableEq

/-- Something that may turn out to be a key. -/
structure KeyStart where
  /-- Whether it must turn out to be a key. -/
  required : Bool
  number : Nat
  index : Nat
  line : Nat
  column : Nat

/-- How far the text is read. -/
structure Scanner where
  cursor : Cursor
  tokens : List Token := []
  count : Nat := 0
  /-- The columns of the open collections without brackets, innermost first. -/
  columns : List Nat := []
  keyAllowed : Bool := true
  keyStart : Option KeyStart := none
  /-- The same for the brackets around those, innermost first. -/
  outer : List (Option KeyStart) := []

namespace Scanner

def inFlow (s : Scanner) : Bool := !s.outer.isEmpty

def emit (s : Scanner) (t : Token) : Scanner :=
  { s with tokens := t :: s.tokens, count := s.count + 1 }

/-- Puts a token behind the first `number` tokens. -/
def insert (s : Scanner) (number : Nat) (t : Token) : Scanner :=
  let later := s.count - number
  { s with tokens := s.tokens.take later ++ t :: s.tokens.drop later, count := s.count + 1 }

def emitSkipping (s : Scanner) (n : Nat) (t : Token) : Scanner :=
  { s with cursor := s.cursor.skipMany n }.emit t

/-! ## Indentation -/

/-- Closes the collections that are indented further than a column, or all of them. -/
def closeTo (column : Option Nat) : List Nat → Scanner → Scanner
  | [], s => { s with columns := [] }
  | k :: ks, s =>
    if column.all (· < k) then closeTo column ks (s.emit .blockEnd)
    else { s with columns := k :: ks }

def close (s : Scanner) (column : Option Nat) : Scanner :=
  if s.inFlow then s else closeTo column s.columns s

/-- Opens a collection at a column with a token behind the first `number` tokens, if the column is
indented further than the innermost collection. -/
def openAt (s : Scanner) (column number : Nat) (t : Token) : Scanner :=
  if s.inFlow || !(s.columns.head?.all (· < column)) then s
  else { s with columns := column :: s.columns }.insert number t

/-! ## Keys -/

/-- Whether a key that started here can no longer be one: its colon has to come soon. -/
def isPast (c : Cursor) (k : KeyStart) : Bool := k.line < c.line || k.index + 1024 < c.index

/-- Forgets what can no longer be a key, unless it has to be one. -/
def forget? (c : Cursor) : Option KeyStart → Option (Option KeyStart)
  | none => some none
  | some k => if !isPast c k then some (some k) else if k.required then none else some none

def forgetPast? (s : Scanner) : Option Scanner := do
  return { s with
    keyStart := ← forget? s.cursor s.keyStart
    outer := ← s.outer.mapM (forget? s.cursor) }

def dropKey? (s : Scanner) : Option Scanner :=
  if s.keyStart.any (·.required) then none else some { s with keyStart := none }

/-- Remembers this place if a key may start here. -/
def saveKey? (s : Scanner) : Option Scanner :=
  if !s.keyAllowed then some s
  else
    s.dropKey?.map fun s =>
      { s with
        keyStart := some
          { required := !s.inFlow && s.columns.head? == some s.cursor.column
            number := s.count
            index := s.cursor.index
            line := s.cursor.line
            column := s.cursor.column } }

/-! ## Between tokens -/

/-- Goes on to the next token. Tabs count as blanks only where no key may start. -/
def settle : Nat → Scanner → Scanner
  | 0, s => s
  | n + 1, s =>
    let c := s.cursor
    let c := if c.column == 0 && c.isAt orderMark then c.skip else c
    let passes (ch : Char) : Bool := ch == ' ' || ((s.inFlow || !s.keyAllowed) && ch == '\t')
    let c := c.skipWhile passes
    let c := if c.isAt '#' then c.skipComments c.limit else c
    if c.here.any isBreak then
      settle n { s with cursor := c.skipLine, keyAllowed := s.keyAllowed || !s.inFlow }
    else { s with cursor := c }

/-! ## Tokens -/

def fetchMark? (s : Scanner) (t : Token) : Option Scanner :=
  (s.close none).dropKey?.map fun s => { s with keyAllowed := false }.emitSkipping 3 t

def number? (cs : List Char) : Option (Nat × List Char) :=
  let digits := cs.takeWhile Char.isDigit
  if digits.isEmpty || 9 < digits.length then none
  else some (digits.foldl (fun n c => n * 10 + (c.toNat - 48)) 0, cs.drop digits.length)

def version? (line : List Char) : Option Token := do
  let word := "%YAML".toList
  if !word.isPrefixOf line || !(line.drop word.length).head?.any isBlank then none
  else
    let (major, rest) ← number? ((line.drop word.length).dropWhile isBlank)
    match rest with
    | '.' :: rest =>
      let (minor, rest) ← number? rest
      let tail := rest.dropWhile isBlank
      if tail.isEmpty || (tail.head? == some '#' && tail.length < rest.length) then
        some (.version major minor)
      else none
    | _ => none

def fetchDirective? (s : Scanner) : Option Scanner := do
  let s ← (s.close none).dropKey?
  let stop := s.cursor.toLineEnd
  let t ← version? (s.cursor.rest.take (stop.index - s.cursor.index))
  return { s with cursor := stop.skipLine, keyAllowed := false }.emit t

def fetchOpening? (s : Scanner) (t : Token) : Option Scanner :=
  s.saveKey?.map fun s =>
    { s with keyAllowed := true, keyStart := none, outer := s.keyStart :: s.outer }.emitSkipping 1 t

def fetchClosing? (s : Scanner) (t : Token) : Option Scanner :=
  s.dropKey?.map fun s =>
    let s :=
      match s.outer with
      | [] => s
      | k :: outer => { s with keyStart := k, outer := outer }
    { s with keyAllowed := false }.emitSkipping 1 t

def fetchFlowEntry? (s : Scanner) : Option Scanner :=
  s.dropKey?.map fun s => { s with keyAllowed := true }.emitSkipping 1 .flowEntry

def fetchBlockEntry? (s : Scanner) : Option Scanner :=
  if !s.inFlow && !s.keyAllowed then none
  else
    (s.openAt s.cursor.column s.count .blockSequenceStart).dropKey?.map fun s =>
      { s with keyAllowed := true }.emitSkipping 1 .blockEntry

def fetchKey? (s : Scanner) : Option Scanner :=
  if !s.inFlow && !s.keyAllowed then none
  else
    (s.openAt s.cursor.column s.count .blockMappingStart).dropKey?.map fun s =>
      { s with keyAllowed := !s.inFlow }.emitSkipping 1 .key

/-- Reads a colon in front of a value. What may be a key in front of it is one. -/
def fetchValue? (s : Scanner) : Option Scanner :=
  match s.keyStart with
  | some k =>
    let s := (s.insert k.number .key).openAt k.column k.number .blockMappingStart
    some ({ s with keyStart := none, keyAllowed := false }.emitSkipping 1 .value)
  | none =>
    if !s.inFlow && !s.keyAllowed then none
    else
      let s := s.openAt s.cursor.column s.count .blockMappingStart
      some ({ s with keyAllowed := !s.inFlow }.emitSkipping 1 .value)

def fetchName? (s : Scanner) (t : String → Token) : Option Scanner := do
  let s ← s.saveKey?
  let name := s.cursor.skip.rest.takeWhile isNameChar
  let c := s.cursor.skipMany (1 + name.length)
  let ends := c.wordEnds 0 || c.here.any ['?', ':', ',', ']', '}', '%', '@', Char.ofNat 96].contains
  if name.isEmpty || !ends then none
  else return { s with cursor := c, keyAllowed := false }.emit (t (String.ofList name))

def isTagChar (c : Char) : Bool := isNameChar c || ";/?:@&=+$.!~*'()%,[]".toList.contains c

/-- The name of a tag behind its exclamation mark. Common tags have two such marks in front, and a
name between angles stands for itself. -/
def tagName? (cs : List Char) : Option String :=
  match cs with
  | '<' :: rest =>
    let name := rest.takeWhile isTagChar
    if name.isEmpty || rest.drop name.length != ['>'] then none else some (String.ofList name)
  | '!' :: name =>
    if name.isEmpty || !name.all isTagChar then none else some ("!!" ++ String.ofList name)
  | name =>
    let handle := name.takeWhile isNameChar
    if !name.all isTagChar || (name.drop handle.length).head? == some '!' then none
    else some ("!" ++ String.ofList name)

def fetchTag? (s : Scanner) : Option Scanner := do
  let s ← s.saveKey?
  let word := s.cursor.skip.rest.takeWhile fun c => !isBlank c && !isBreak c
  let name ← tagName? word
  return { s with keyAllowed := false }.emitSkipping (1 + word.length) (.tag name)

def fetchBlock? (s : Scanner) : Option Scanner := do
  let s ← s.dropKey?
  let (text, c) ← block? s.columns.head? s.cursor
  return { s with cursor := c, keyAllowed := true }.emit (.scalar false (String.ofList text))

def fetchQuoted? (s : Scanner) : Option Scanner := do
  let s ← s.saveKey?
  let (text, c) ← quoted? s.cursor
  return { s with cursor := c, keyAllowed := false }.emit (.scalar false (String.ofList text))

def fetchPlain? (s : Scanner) : Option Scanner := do
  let s ← s.saveKey?
  let p ← plain? s.inFlow (s.columns.head?.elim 0 (· + 1)) s.cursor
  return { s with cursor := p.cursor, keyAllowed := p.ended }.emit
    (.scalar true (String.ofList p.text))

/-- Characters that begin no plain text, unless a few of them are followed by others. -/
def indicators : List Char :=
  ['-', '?', ':', ',', '[', ']', '{', '}', '#', '&', '*', '!', '|', '>', '\'', '"', '%', '@',
    Char.ofNat 96]

def startsPlain (flow : Bool) (c : Cursor) : Bool :=
  match c.here with
  | none => false
  | some ch =>
    !(isBlank ch || isBreak ch || indicators.contains ch) ||
      (ch == '-' && !(c.ahead 1).any isBlank) ||
      (!flow && (ch == '?' || ch == ':') && !c.wordEnds 1)

/-- Reads a token that is no mark between documents, and a comment behind it. -/
def fetchContent? (s : Scanner) (ch : Char) : Option Scanner :=
  let c := s.cursor
  let ends := c.wordEnds 1
  let commented (s : Scanner) : Scanner := { s with cursor := s.cursor.skipLineComment }
  if ch == '-' && ends then s.fetchBlockEntry?
  else
    Option.map commented <|
      if ch == '[' then s.fetchOpening? .flowSequenceStart
      else if ch == '{' then s.fetchOpening? .flowMappingStart
      else if ch == ']' then s.fetchClosing? .flowSequenceEnd
      else if ch == '}' then s.fetchClosing? .flowMappingEnd
      else if ch == ',' then s.fetchFlowEntry?
      else if ch == '?' && (s.inFlow || ends) then s.fetchKey?
      else if ch == ':' && (s.inFlow || ends) then s.fetchValue?
      else if ch == '*' then s.fetchName? .alias
      else if ch == '&' then s.fetchName? .anchor
      else if ch == '!' then s.fetchTag?
      else if (ch == '|' || ch == '>') && !s.inFlow then s.fetchBlock?
      else if ch == '\'' || ch == '"' then s.fetchQuoted?
      else if startsPlain s.inFlow c then s.fetchPlain?
      else none

/-- Reads one more token, and tells whether it was the last one. -/
def fetch? (s : Scanner) : Option (Scanner × Bool) := do
  let s ← (settle s.cursor.limit s).forgetPast?
  let s := s.close (some s.cursor.column)
  let c := s.cursor
  match c.here with
  | none =>
    let s ← (s.close none).dropKey?
    return (s.emit .finish, true)
  | some ch =>
    if c.column == 0 && ch == '%' then return (← s.fetchDirective?, false)
    else if c.atDocumentMark then
      return (← s.fetchMark? (if ch == '-' then .documentStart else .documentEnd), false)
    else return (← s.fetchContent? ch, false)

/-- Reads tokens to the end. Two tokens are looked at ahead of time, so that a text that cannot be
read on spoils those in front of the place. -/
def run : Nat → Scanner → List Token
  | 0, s => (s.tokens.drop 2).reverse ++ [.fault]
  | n + 1, s =>
    match s.fetch? with
    | none => (s.tokens.drop 2).reverse ++ [.fault]
    | some (s, true) => s.tokens.reverse
    | some (s, false) => run n s

end Scanner

def tokens (text : String) : List Token :=
  let cs := text.toList
  let cs := if cs.head? == some orderMark then cs.drop 1 else cs
  let c := Cursor.start cs
  if cs.all isAllowed then Scanner.run c.limit { cursor := c } else [.fault]

end Document
end FaultChain
