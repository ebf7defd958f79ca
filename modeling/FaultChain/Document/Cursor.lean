/-!
# Places in documents

* `Cursor`: a place in a text, with the line and the column it is in.
* `Cursor.skip`, `Cursor.skipLine`: the next place.
* `Cursor.skipComments`: the end of a comment and of those that follow it.
-/

namespace FaultChain
namespace Document

/-! ## Characters -/

def isBlank (c : Char) : Bool := c == ' ' || c == '\t'

def isBreak (c : Char) : Bool :=
  c == '\n' || c == '\r' || c.toNat == 0x85 || c.toNat == 0x2028 || c.toNat == 0x2029

def isAllowed (c : Char) : Bool :=
  let n := c.toNat
  n == 0x09 || n == 0x0A || n == 0x0D || (0x20 ≤ n && n ≤ 0x7E) || n == 0x85 ||
    (0xA0 ≤ n && n ≤ 0xFFFD) || 0x10000 ≤ n

/-- The mark of the byte order, which may stand in front of a line. -/
def orderMark : Char := Char.ofNat 0xFEFF

def isNameChar (c : Char) : Bool := c.isAlphanum || c == '-' || c == '_'

/-! ## Places -/

structure Cursor where
  rest : List Char
  /-- How many characters come before this place. -/
  index : Nat := 0
  line : Nat := 0
  column : Nat := 0
  /-- Whether nothing but blanks comes between the last line end and this place. -/
  indented : Bool := false
  /-- More than the length of the whole text, and so a bound on the steps of every reader. -/
  limit : Nat

namespace Cursor

def start (text : List Char) : Cursor := { rest := text, limit := text.length + 1 }

def ahead (c : Cursor) (n : Nat) : Option Char := c.rest[n]?

def here (c : Cursor) : Option Char := c.rest.head?

def isAt (c : Cursor) (ch : Char) : Bool := c.here == some ch

def wordEnds (c : Cursor) (n : Nat) : Bool := (c.ahead n).all fun ch => isBlank ch || isBreak ch

def lineEnds (c : Cursor) : Bool := c.here.all isBreak

def inGap (c : Cursor) : Bool := c.here.any fun ch => isBlank ch || isBreak ch

def skip (c : Cursor) : Cursor :=
  match c.rest with
  | [] => c
  | ch :: rest =>
    { c with
      rest := rest
      index := c.index + 1
      column := c.column + 1
      indented := c.indented && isBlank ch }

def skipMany (c : Cursor) : Nat → Cursor
  | 0 => c
  | n + 1 => c.skip.skipMany n

def skipLine (c : Cursor) : Cursor :=
  let next (rest : List Char) (n : Nat) : Cursor :=
    { c with rest := rest, index := c.index + n, line := c.line + 1, column := 0, indented := true }
  match c.rest with
  | '\r' :: '\n' :: rest => next rest 2
  | ch :: rest => if isBreak ch then next rest 1 else c
  | [] => c

/-- The line end at this place as it enters a text: most of them are written alike. -/
def breakText (c : Cursor) : List Char :=
  match c.here with
  | none => []
  | some ch =>
    if ch.toNat == 0x2028 || ch.toNat == 0x2029 then [ch]
    else if isBreak ch then ['\n'] else []

/-- The first place from here on that holds a character outside a set, within a number of steps. -/
def skipSome (p : Char → Bool) : Nat → Cursor → Cursor
  | 0, c => c
  | n + 1, c => if c.here.any p then skipSome p n c.skip else c

/-- The first place from here on that holds a character outside a set. -/
def skipWhile (p : Char → Bool) (c : Cursor) : Cursor := skipSome p c.limit c

def toLineEnd (c : Cursor) : Cursor := c.skipWhile fun ch => !isBreak ch

/-- The first place that is neither a blank nor a line end, within a number of steps. -/
def skipGap : Nat → Cursor → Cursor
  | 0, c => c
  | n + 1, c =>
    if c.here.any isBlank then skipGap n c.skip
    else if c.here.any isBreak then skipGap n c.skipLine
    else c

/-- The end of the comment at this place, or of the last one of those that follow it with only
blanks and line ends between them. -/
def skipComments : Nat → Cursor → Cursor
  | 0, c => c
  | n + 1, c =>
    let c := c.toLineEnd
    let next := skipGap c.limit c
    if next.isAt '#' then skipComments n next else c

def skipLineComment (c : Cursor) : Cursor :=
  let next := c.skipWhile isBlank
  if !c.indented && next.isAt '#' then next.toLineEnd else c

def atDocumentMark (c : Cursor) : Bool :=
  let mark := c.rest.take 3
  c.column == 0 && (mark == ['-', '-', '-'] || mark == ['.', '.', '.']) && c.wordEnds 3

end Cursor
end Document
end FaultChain
