import FaultChain.Number.Hexadecimal

/-!
# JSON documents

A document keeps the members of an object in the order written and numbers as they are spelled.

* `Json.member?`: the last member of a name, the one that counts.
* `Json.compact`, `Json.pretty`: texts on one line and on indented lines.
-/

namespace FaultChain

inductive Json where
  | null
  | bool (b : Bool)
  | num (spelling : String)
  | str (s : String)
  | arr (items : List Json)
  | obj (members : List (String × Json))
  deriving Inhabited

namespace Json

/-- The value of the last member called `name`. -/
def member? (members : List (String × Json)) (name : String) : Option Json :=
  members.reverse.lookup name

/-! ## Building -/

def int (n : Int) : Json :=
  match n with
  | .ofNat k => .num (String.ofList (Nat.toDigits 10 k))
  | .negSucc k => .num (String.ofList ('-' :: Nat.toDigits 10 (k + 1)))

def strings (ss : List String) : Json :=
  .arr (ss.map .str)

/-- A list of texts that may be absent. -/
def maybeStrings : Option (List String) → Json
  | none => .null
  | some ss => strings ss

/-! ## Texts -/

/-- The characters that stand for `c` inside a JSON text: besides quotes, backslashes and control
characters, the characters that could end a script element or a line are escaped. -/
def escape (c : Char) : List Char :=
  let n := c.toNat
  if c == '"' then ['\\', '"']
  else if c == '\\' then ['\\', '\\']
  else if n == 8 then ['\\', 'b']
  else if n == 12 then ['\\', 'f']
  else if n == 10 then ['\\', 'n']
  else if n == 13 then ['\\', 'r']
  else if n == 9 then ['\\', 't']
  else if n < 0x20 || c == '<' || c == '>' || c == '&' || n == 0x2028 || n == 0x2029 then
    '\\' :: 'u' :: Hexadecimal.digits 4 n
  else [c]

def quoteChars (s : String) : List Char :=
  '"' :: (s.toList.flatMap escape ++ ['"'])

mutual

def compactChars : Json → List Char
  | .null => "null".toList
  | .bool true => "true".toList
  | .bool false => "false".toList
  | .num spelling => spelling.toList
  | .str s => quoteChars s
  | .arr items => '[' :: (compactItems true items ++ [']'])
  | .obj members => '{' :: (compactMembers true members ++ ['}'])

def compactItems (first : Bool) : List Json → List Char
  | [] => []
  | item :: rest =>
    (if first then [] else [',']) ++ (compactChars item ++ compactItems false rest)

def compactMembers (first : Bool) : List (String × Json) → List Char
  | [] => []
  | (name, value) :: rest =>
    (if first then [] else [',']) ++
      (quoteChars name ++ ':' :: (compactChars value ++ compactMembers false rest))

end

def newLine (depth : Nat) : List Char :=
  '\n' :: List.replicate (2 * depth) ' '

mutual

/-- A document on indented lines; empty arrays and objects stay on one line. -/
def prettyChars (depth : Nat) : Json → List Char
  | .null => "null".toList
  | .bool true => "true".toList
  | .bool false => "false".toList
  | .num spelling => spelling.toList
  | .str s => quoteChars s
  | .arr [] => ['[', ']']
  | .arr (item :: rest) =>
    '[' :: (prettyItems (depth + 1) true (item :: rest) ++ (newLine depth ++ [']']))
  | .obj [] => ['{', '}']
  | .obj (m :: rest) =>
    '{' :: (prettyMembers (depth + 1) true (m :: rest) ++ (newLine depth ++ ['}']))

def prettyItems (depth : Nat) (first : Bool) : List Json → List Char
  | [] => []
  | item :: rest =>
    (if first then [] else [',']) ++
      (newLine depth ++ (prettyChars depth item ++ prettyItems depth false rest))

def prettyMembers (depth : Nat) (first : Bool) : List (String × Json) → List Char
  | [] => []
  | (name, value) :: rest =>
    (if first then [] else [',']) ++
      (newLine depth ++
        (quoteChars name ++ ':' :: ' ' ::
          (prettyChars depth value ++ prettyMembers depth false rest)))

end

def compact (j : Json) : String := String.ofList (compactChars j)

def pretty (j : Json) : String := String.ofList (prettyChars 0 j)

end Json
end FaultChain
