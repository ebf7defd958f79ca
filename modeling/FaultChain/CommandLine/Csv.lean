/-!
# Lists in one argument

Texts with commas between them. A text with a comma, a line end or a quote is quoted, with its quotes
doubled.

* `Csv.record?`: the first line of texts that is not empty.
-/

namespace FaultChain
namespace Csv

inductive Place where
  | start
  | plain
  | quoted
  | closed
  deriving DecidableEq

/-- Reads the fields of a line; `acc` holds the current field, its last character first. -/
def fields? (place : Place) (acc : List Char) : List Char → Option (List String)
  | [] => if place = .quoted then none else some [String.ofList acc.reverse]
  | c :: rest =>
    let finish : List String := [String.ofList acc.reverse]
    let next : Option (List String) := (fields? .start [] rest).map (finish ++ ·)
    match place with
    | .start =>
      if c == '"' then fields? .quoted [] rest
      else if c == ',' then next
      else if c == '\n' then some finish
      else fields? .plain (c :: acc) rest
    | .plain =>
      if c == '"' then none
      else if c == ',' then next
      else if c == '\n' then some finish
      else fields? .plain (c :: acc) rest
    | .quoted => if c == '"' then fields? .closed acc rest else fields? .quoted (c :: acc) rest
    | .closed =>
      if c == '"' then fields? .quoted (c :: acc) rest
      else if c == ',' then next
      else if c == '\n' then some finish
      else none

/-- Writes every line end as one character; a carriage return at the very end does not count. -/
def unifyLines : List Char → List Char
  | ['\r'] => []
  | '\r' :: '\n' :: rest => '\n' :: unifyLines rest
  | c :: rest => c :: unifyLines rest
  | [] => []

/-- The first line of texts that is not empty. -/
def record? (s : String) : Option (List String) :=
  match (unifyLines s.toList).dropWhile (· == '\n') with
  | [] => none
  | cs => fields? .start [] cs

end Csv
end FaultChain
