import FaultChain.Json.Basic
import FaultChain.Number.Decimal

/-!
# Reading JSON

* `Json.read`: a document at the start of a text, and what follows it.
* `Json.parse`: a text that is one document.
* `Json.readStream`: the first document of a stream, whatever follows it.

Nesting is limited to ten thousand levels. Escaped code units that form no character are read as
the replacement character.
-/

namespace FaultChain
namespace Json

/-! ## Blanks, numbers and texts -/

def isSpace (c : Char) : Bool :=
  c == ' ' || c == '\t' || c == '\n' || c == '\r'

def skip (cs : List Char) : List Char := cs.dropWhile isSpace

def digits1? (cs : List Char) : Option (List Char × List Char) :=
  match cs.takeWhile Char.isDigit with
  | [] => none
  | ds => some (ds, cs.dropWhile Char.isDigit)

/-- The digits before a point: a zero alone, or a run that starts with no zero. -/
def whole? : List Char → Option (List Char × List Char)
  | '0' :: rest => some (['0'], rest)
  | cs => digits1? cs

/-- The digits after a point, if there is a point. -/
def places? : List Char → Option (List Char × List Char)
  | '.' :: rest => (digits1? rest).map fun (ds, r) => ('.' :: ds, r)
  | cs => some ([], cs)

def power? : List Char → Option (List Char × List Char)
  | c :: rest =>
    if c == 'e' || c == 'E' then
      match rest with
      | '+' :: r => (digits1? r).map fun (ds, t) => (c :: '+' :: ds, t)
      | '-' :: r => (digits1? r).map fun (ds, t) => (c :: '-' :: ds, t)
      | r => (digits1? r).map fun (ds, t) => (c :: ds, t)
    else some ([], c :: rest)
  | [] => some ([], [])

def number? (cs : List Char) : Option (List Char × List Char) := do
  let (sign, body) :=
    match cs with
    | '-' :: rest => (['-'], rest)
    | _ => ([], cs)
  let (a, r) ← whole? body
  let (b, r) ← places? r
  let (c, r) ← power? r
  return (sign ++ a ++ b ++ c, r)

def replacement : Char := Char.ofNat 0xFFFD

def unitChar (n : Nat) : Char :=
  if 0xD800 ≤ n && n < 0xE000 then replacement else Char.ofNat n

def pairChar? (hi lo : Nat) : Option Char :=
  if 0xD800 ≤ hi && hi < 0xDC00 && 0xDC00 ≤ lo && lo < 0xE000 then
    some (Char.ofNat (0x10000 + (hi - 0xD800) * 1024 + (lo - 0xDC00)))
  else none

/-- The character a one-letter escape stands for. -/
def simpleEscape? : Char → Option Char
  | '"' => some '"'
  | '\\' => some '\\'
  | '/' => some '/'
  | 'b' => some (Char.ofNat 8)
  | 'f' => some (Char.ofNat 12)
  | 'n' => some '\n'
  | 'r' => some '\r'
  | 't' => some '\t'
  | _ => none

/-- What was read, the last character first; a code unit left waiting for its partner is replaced. -/
def settle (acc : List Char) : Option Nat → List Char
  | none => acc
  | some _ => replacement :: acc

/-- Takes in a code unit: it completes a pair, waits for a partner, or stands alone. -/
def takeUnit (acc : List Char) (waiting : Option Nat) (n : Nat) : List Char × Option Nat :=
  match waiting.bind (pairChar? · n) with
  | some ch => (ch :: acc, none)
  | none =>
    if 0xD800 ≤ n && n < 0xDC00 then (settle acc waiting, some n)
    else (unitChar n :: settle acc waiting, none)

/-- Reads a text after its opening quote; `acc` holds what was read, the last character first, and
`waiting` the first unit of a pair whose second one may follow. -/
def textBody (acc : List Char) (waiting : Option Nat) : List Char → Option (String × List Char)
  | [] => none
  | '"' :: rest => some (String.ofList (settle acc waiting).reverse, rest)
  | '\\' :: 'u' :: a :: b :: c :: d :: rest =>
    match Hexadecimal.number? [a, b, c, d] with
    | none => none
    | some n =>
      let next := takeUnit acc waiting n
      textBody next.1 next.2 rest
  | '\\' :: c :: rest =>
    match simpleEscape? c with
    | some ch => textBody (ch :: settle acc waiting) none rest
    | none => none
  | c :: rest =>
    if c.toNat < 0x20 then none else textBody (c :: settle acc waiting) none rest

/-! ## Documents -/

mutual

/-- Reads a document; `depth` more levels may be opened. -/
def value? (depth : Nat) : Nat → List Char → Option (Json × List Char)
  | 0, _ => none
  | fuel + 1, cs =>
    match skip cs with
    | '"' :: rest => (textBody [] none rest).map fun (s, r) => (.str s, r)
    | '[' :: rest =>
      if depth == 0 then none
      else
        match skip rest with
        | ']' :: r => some (.arr [], r)
        | r => items? (depth - 1) fuel [] r
    | '{' :: rest =>
      if depth == 0 then none
      else
        match skip rest with
        | '}' :: r => some (.obj [], r)
        | r => members? (depth - 1) fuel [] r
    | 't' :: 'r' :: 'u' :: 'e' :: rest => some (.bool true, rest)
    | 'f' :: 'a' :: 'l' :: 's' :: 'e' :: rest => some (.bool false, rest)
    | 'n' :: 'u' :: 'l' :: 'l' :: rest => some (.null, rest)
    | body => (number? body).map fun (n, r) => (.num (String.ofList n), r)

/-- Reads the items of an array, the first of which is still to come. -/
def items? (depth : Nat) : Nat → List Json → List Char → Option (Json × List Char)
  | 0, _, _ => none
  | fuel + 1, acc, cs =>
    match value? depth fuel cs with
    | none => none
    | some (item, rest) =>
      match skip rest with
      | ',' :: r => items? depth fuel (item :: acc) r
      | ']' :: r => some (.arr (item :: acc).reverse, r)
      | _ => none

/-- Reads the members of an object, the first of which is still to come. -/
def members? (depth : Nat) : Nat → List (String × Json) → List Char → Option (Json × List Char)
  | 0, _, _ => none
  | fuel + 1, acc, cs =>
    match skip cs with
    | '"' :: rest =>
      match textBody [] none rest with
      | none => none
      | some (name, rest) =>
        match skip rest with
        | ':' :: rest =>
          match value? depth fuel rest with
          | none => none
          | some (value, rest) =>
            match skip rest with
            | ',' :: r => members? depth fuel ((name, value) :: acc) r
            | '}' :: r => some (.obj ((name, value) :: acc).reverse, r)
            | _ => none
        | _ => none
    | _ => none

end

def maxDepth : Nat := 10000

def read (cs : List Char) : Option (Json × List Char) :=
  value? maxDepth (cs.length + 1) cs

def parse (s : String) : Option Json :=
  match read s.toList with
  | some (j, rest) => if (skip rest).isEmpty then some j else none
  | none => none

/-- Reads the first document of a stream, whatever follows it. -/
def readStream (s : String) : Option Json := (read s.toList).map (·.1)

/-! ## Spellings -/

/-- The items of an array as they are written, the first of which is still to come. -/
def spelledItems? : Nat → List Char → Option (List String)
  | 0, _ => none
  | fuel + 1, cs =>
    let body := skip cs
    match read body with
    | none => none
    | some (_, rest) =>
      let item := String.ofList (body.take (body.length - rest.length))
      match skip rest with
      | ',' :: r => (spelledItems? fuel r).map (item :: ·)
      | ']' :: _ => some [item]
      | _ => none

/-- The items of an array as they are written; no other document has any. -/
def spellings (s : String) : List String :=
  match skip s.toList with
  | '[' :: rest =>
    match skip rest with
    | ']' :: _ => []
    | r => (spelledItems? r.length r).getD []
  | _ => []

/-! ## Decoding -/

/-- Upper and lower case letters that stand for each other in member names. -/
def foldChar (c : Char) : Char :=
  if c.toNat == 0x17F then 's' else if c.toNat == 0x212A then 'k' else c.toLower

/-- Whether two member names agree up to letter case. -/
def sameName (a b : String) : Bool :=
  a.map foldChar == b.map foldChar

/-- A text; null and a missing value are empty. -/
def asText : Option Json → Option String
  | none => some ""
  | some .null => some ""
  | some (.str s) => some s
  | some _ => none

def asBool : Option Json → Option Bool
  | none => some false
  | some .null => some false
  | some (.bool b) => some b
  | some _ => none

/-- A 64-bit integer; null and a missing value are zero. -/
def asInt : Option Json → Option Int
  | none => some 0
  | some .null => some 0
  | some (.num spelling) => (Decimal.parse spelling).toOption
  | some _ => none

/-- A list of texts, or nothing for null and a missing value; null items are empty. -/
def asTexts? : Option Json → Option (Option (List String))
  | none => some none
  | some .null => some none
  | some (.arr items) => (items.mapM fun item => asText (some item)).map some
  | some _ => none

/-! ## Members named several times

A document may name a member several times, and in any letter case. Each value takes the place of
the one before it, but null leaves that one as it is. -/

def valuesOf (members : List (String × Json)) (name : String) : List Json :=
  (members.filter fun (k, _) => sameName k name).map (·.2)

def updateText (old : String) : Json → Option String
  | .null => some old
  | .str s => some s
  | _ => none

def updateInt (old : Int) : Json → Option Int
  | .null => some old
  | .num spelling => (Decimal.parse spelling).toOption
  | _ => none

def updateBool (old : Bool) : Json → Option Bool
  | .null => some old
  | .bool b => some b
  | _ => none

/-- A list of texts while a document is read. A list that becomes shorter keeps the texts behind its
end, and those come back when it grows again. -/
structure TextSlots where
  /-- The texts, also those behind the end. -/
  slots : List String := []
  /-- How many texts are in the list, if there is a list. -/
  length : Option Nat := none

def TextSlots.texts (t : TextSlots) : Option (List String) := t.length.map t.slots.take

/-- The list of texts after a further value: null removes it, and a null item stays what stood at
its place before. -/
def updateTexts (old : TextSlots) : Json → Option TextSlots
  | .null => some {}
  | .arr [] => some { length := some 0 }
  | .arr items => do
    let front ← items.zipIdx.mapM fun (item, i) => updateText (old.slots.getD i "") item
    return { slots := front ++ old.slots.drop items.length, length := some items.length }
  | _ => none

def textField (members : List (String × Json)) (name : String) : Option String :=
  (valuesOf members name).foldlM updateText ""

def intField (members : List (String × Json)) (name : String) : Option Int :=
  (valuesOf members name).foldlM updateInt 0

def boolField (members : List (String × Json)) (name : String) : Option Bool :=
  (valuesOf members name).foldlM updateBool false

def boolField? (members : List (String × Json)) (name : String) : Option (Option Bool) :=
  (valuesOf members name).foldlM (fun old v =>
    if v matches .null then some none else (updateBool (old.getD false) v).map some) none

def textsField? (members : List (String × Json)) (name : String) : Option (Option (List String)) :=
  ((valuesOf members name).foldlM updateTexts {}).map (·.texts)

end Json
end FaultChain
