import FaultChain.Document.Cursor
import FaultChain.Number.Hexadecimal

/-!
# Scalars in documents

Every reader starts at the first character of a scalar and gives its text and the place behind it.

* `quoted?`: text between quotes.
* `plain?`: text without quotes.
* `block?`: lines of text below a mark.
-/

namespace FaultChain
namespace Document

/-! ## Gaps

Blanks inside a line belong to a text. A line end becomes a blank, and of several line ends in a row
all but the first are kept. -/

/-- What comes between two parts of a text. -/
structure Gap where
  /-- The blanks before the first line end, last first. -/
  blanks : List Char := []
  lineEnd : Option (List Char) := none
  further : List Char := []

def Gap.text (g : Gap) : List Char :=
  match g.lineEnd with
  | none => g.blanks.reverse
  | some ['\n'] => if g.further.isEmpty then [' '] else g.further
  | some first => first ++ g.further

/-- Reads a gap. A tab may not stand in front of the given column of a line. -/
def gap? (column : Nat) : Nat → Gap → Cursor → Option (Gap × Cursor)
  | 0, g, c => some (g, c)
  | n + 1, g, c =>
    match c.here with
    | none => some (g, c)
    | some ch =>
      if isBlank ch then
        match g.lineEnd with
        | none => gap? column n { g with blanks := ch :: g.blanks } c.skip
        | some _ =>
          if ch == '\t' && c.column < column then none else gap? column n g c.skip
      else if isBreak ch then
        match g.lineEnd with
        | none => gap? column n { blanks := [], lineEnd := some c.breakText } c.skipLine
        | some _ => gap? column n { g with further := g.further ++ c.breakText } c.skipLine
      else some (g, c)

/-! ## Quotes -/

/-- The character behind a backslash between double quotes, unless digits follow. -/
def escaped? (ch : Char) : Option Char :=
  match ch with
  | '0' => some (Char.ofNat 0x00)
  | 'a' => some (Char.ofNat 0x07)
  | 'b' => some (Char.ofNat 0x08)
  | 't' => some '\t'
  | '\t' => some '\t'
  | 'n' => some '\n'
  | 'v' => some (Char.ofNat 0x0B)
  | 'f' => some (Char.ofNat 0x0C)
  | 'r' => some '\r'
  | 'e' => some (Char.ofNat 0x1B)
  | ' ' => some ' '
  | '"' => some '"'
  | '\'' => some '\''
  | '\\' => some '\\'
  | 'N' => some (Char.ofNat 0x85)
  | '_' => some (Char.ofNat 0xA0)
  | 'L' => some (Char.ofNat 0x2028)
  | 'P' => some (Char.ofNat 0x2029)
  | _ => none

def escapeDigits? (ch : Char) : Option Nat :=
  match ch with
  | 'x' => some 2
  | 'u' => some 4
  | 'U' => some 8
  | _ => none

def character? (n : Nat) : Option Char :=
  if (0xD800 ≤ n && n ≤ 0xDFFF) || 0x10FFFF < n then none else some (Char.ofNat n)

/-- The character an escape at this place stands for, and the place behind it. -/
def escape? (c : Cursor) : Option (Char × Cursor) := do
  let letter ← c.ahead 1
  match escaped? letter with
  | some ch => some (ch, c.skipMany 2)
  | none =>
    let width ← escapeDigits? letter
    let digits := (c.rest.drop 2).take width
    if digits.length < width then none
    else
      let ch ← character? (← Hexadecimal.number? digits)
      some (ch, c.skipMany (2 + width))

/-- Reads on between quotes, where `text` is what was read, last first. -/
def quotedFrom? (quote : Char) : Nat → List Char → Cursor → Option (List Char × Cursor)
  | 0, _, _ => none
  | n + 1, text, c =>
    let single := quote == '\''
    let across (g : Gap) (c : Cursor) : Option (List Char × Cursor) := do
      let (g, c) ← gap? 0 c.limit g c
      quotedFrom? quote n (g.text.reverse ++ text) c
    if c.atDocumentMark then none
    else
      match c.here with
      | none => none
      | some ch =>
        if ch == quote then
          if single && c.ahead 1 == some quote then
            quotedFrom? quote n (quote :: text) (c.skipMany 2)
          else some (text.reverse, c.skip)
        else if c.inGap then across {} c
        else if ch == '\\' && !single then
          if (c.ahead 1).any isBreak then across { lineEnd := some [] } c.skip.skipLine
          else
            match escape? c with
            | some (ch, c) => quotedFrom? quote n (ch :: text) c
            | none => none
        else quotedFrom? quote n (ch :: text) c.skip

def quoted? (c : Cursor) : Option (List Char × Cursor) :=
  c.here.bind fun quote => quotedFrom? quote c.limit [] c.skip

/-! ## Plain text -/

/-- Whether a plain text ends here, in front of a colon or, inside brackets, of a separator. -/
def plainEnds (flow : Bool) (c : Cursor) : Bool :=
  (c.isAt ':' && c.wordEnds 1) ||
    (flow && c.here.any [',', '?', '[', ']', '{', '}'].contains)

/-- The characters up to the end of a word, last first, and the place behind them. -/
def plainWord (flow : Bool) : Nat → List Char → Cursor → List Char × Cursor
  | 0, word, c => (word, c)
  | n + 1, word, c =>
    match c.here with
    | none => (word, c)
    | some ch =>
      if isBlank ch || isBreak ch || plainEnds flow c then (word, c)
      else plainWord flow n (ch :: word) c.skip

structure PlainText where
  text : List Char
  ended : Bool
  cursor : Cursor

/-- Reads on in a plain text that goes on in lines indented to a column. -/
def plainFrom? (flow : Bool) (column : Nat) : Nat → List Char → Gap → Cursor → Option PlainText
  | 0, _, _, _ => none
  | n + 1, text, g, c =>
    let done (text : List Char) (g : Gap) (c : Cursor) : Option PlainText :=
      some ⟨text.reverse, g.lineEnd.isSome, c⟩
    if c.atDocumentMark || c.isAt '#' then done text g c
    else
      let (word, c) := plainWord flow c.limit [] c
      if word.isEmpty then done text g c
      else
        let text := word ++ (g.text.reverse ++ text)
        if !c.inGap then done text {} c
        else
          match gap? column c.limit {} c with
          | none => none
          | some (g, c) =>
            if !flow && c.column < column then done text g c else plainFrom? flow column n text g c

def plain? (flow : Bool) (column : Nat) (c : Cursor) : Option PlainText :=
  plainFrom? flow column c.limit [] {} c

/-! ## Lines -/

inductive Chomping where
  | strip
  | clip
  | keep
  deriving DecidableEq

structure BlockHeader where
  literal : Bool
  chomping : Chomping := .clip
  indentation : Option Nat := none

/-- How line ends behind the last line are marked. -/
def chomping? (ch : Char) : Option Chomping :=
  if ch == '+' then some .keep else if ch == '-' then some .strip else none

def readChomping (h : BlockHeader) (c : Cursor) : BlockHeader × Cursor :=
  match c.here.bind chomping? with
  | some m => ({ h with chomping := m }, c.skip)
  | none => (h, c)

def readIndentation? (h : BlockHeader) (c : Cursor) : Option (BlockHeader × Cursor) :=
  match c.here with
  | some '0' => none
  | some ch =>
    if ch.isDigit then some ({ h with indentation := some (ch.toNat - 48) }, c.skip)
    else some (h, c)
  | none => some (h, c)

/-- Reads the marks in front of a block, in either order, and the rest of their line. -/
def blockHeader? (c : Cursor) : Option (BlockHeader × Cursor) := do
  let h : BlockHeader := { literal := c.isAt '|' }
  let c := c.skip
  let (h, c) ←
    if (c.here.bind chomping?).isSome then
      let (h, c) := readChomping h c
      readIndentation? h c
    else
      let (h, c') ← readIndentation? h c
      pure (if c'.index == c.index then (h, c) else readChomping h c')
  let c := c.skipWhile isBlank
  let c := if c.isAt '#' then c.toLineEnd else c
  if c.lineEnds then some (h, c.skipLine) else none

/-- What was read of empty lines: their line ends, and the widest indentation. -/
structure EmptyLines where
  ends : List Char := []
  widest : Nat := 0
  cursor : Cursor

/-- Reads empty lines, and the indentation of the line that follows up to a column. -/
def emptyLines? (column : Option Nat) : Nat → EmptyLines → Option EmptyLines
  | 0, e => some e
  | n + 1, e =>
    let before (c : Cursor) : Bool := column.all fun k => c.column < k
    let c := e.cursor
    if before c && c.isAt ' ' then emptyLines? column n { e with cursor := c.skip }
    else
      let widest := max e.widest c.column
      if before c && c.isAt '\t' then none
      else if c.here.any isBreak then
        emptyLines? column n
          { ends := e.ends ++ c.breakText, widest := widest, cursor := c.skipLine }
      else some { e with widest := widest }

/-- What was read of a block: its text, last first, the end of its last line, and further ones. -/
structure BlockText where
  text : List Char := []
  lineEnd : List Char := []
  further : List Char := []
  blank : Bool := false
  cursor : Cursor

def blockLines? (literal : Bool) (column : Nat) : Nat → BlockText → Option BlockText
  | 0, b => some b
  | n + 1, b =>
    let c := b.cursor
    if c.column != column || c.rest.isEmpty then some b
    else
      let blank := c.here.any isBlank
      let folded := !literal && !b.blank && !blank && b.lineEnd == ['\n']
      let joint := if !folded then b.lineEnd else if b.further.isEmpty then [' '] else []
      let stop := c.toLineEnd
      let line := c.rest.take (stop.index - c.index)
      match emptyLines? (some column) c.limit { cursor := stop.skipLine } with
      | none => none
      | some e =>
        blockLines? literal column n
          { text := line.reverse ++ (b.further.reverse ++ (joint.reverse ++ b.text))
            lineEnd := stop.breakText
            further := e.ends
            blank := blank
            cursor := e.cursor }

/-- Reads a block below the given column, if there is one around it. -/
def block? (outer : Option Nat) (c : Cursor) : Option (List Char × Cursor) := do
  let (h, c) ← blockHeader? c
  let given := h.indentation.map fun n => outer.getD 0 + n
  let e ← emptyLines? given c.limit { cursor := c }
  let least := outer.elim 1 (· + 1)
  let column := given.getD (max e.widest least)
  let b ← blockLines? h.literal column c.limit { further := e.ends, cursor := e.cursor }
  let tail :=
    match h.chomping with
    | .strip => []
    | .clip => b.lineEnd
    | .keep => b.lineEnd ++ b.further
  return (b.text.reverse ++ tail, b.cursor)

end Document
end FaultChain
