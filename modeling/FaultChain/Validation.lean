import FaultChain.Number.Decimal
import FaultChain.Text.Basic

/-!
# Validation of records

A record is checked field by field; every field reports the first rule it breaks.

* `Violation`: a field and the rule it breaks.
* `Check`: the violations of a field.
* `describe`: all violations, one per line.
-/

namespace FaultChain

/-- A field that breaks a rule. -/
structure Violation where
  path : String
  field : String
  rule : String
  deriving DecidableEq

namespace Violation

def render (v : Violation) : String :=
  "Key: '" ++ v.path ++ v.field ++ "' Error:Field validation for '" ++ v.field ++
    "' failed on the '" ++ v.rule ++ "' tag"

def describe (vs : List Violation) : String := Text.join "\n" (vs.map render)

end Violation

namespace Check

/-- The first broken one of some rules, each with whether it holds. -/
def rules (path field : String) (rs : List (String × Bool)) : List Violation :=
  match rs.find? (!·.2) with
  | some (rule, _) => [{ path := path, field := field, rule := rule }]
  | none => []

def required (path field value : String) : List Violation :=
  rules path field [("required", value != "")]

/-- Whether a text is a decimal number with an optional sign and an optional fraction. -/
def isNumeric (s : String) : Bool :=
  let body :=
    match s.toList with
    | '-' :: r => r
    | '+' :: r => r
    | r => r
  match body.splitOn '.' with
  | [whole] => !whole.isEmpty && whole.all Char.isDigit
  | [whole, places] =>
    !whole.isEmpty && whole.all Char.isDigit && !places.isEmpty && places.all Char.isDigit
  | _ => false

def ofLength (path field : String) (n : Nat) : Option (List String) → List Violation
  | none => []
  | some xs => rules path field [("len", xs.length == n)]

def numbers (path field : String) (n : Nat) : Option (List String) → List Violation
  | none => []
  | some xs =>
    if xs.length == n then
      xs.zipIdx.flatMap fun (x, i) =>
        rules path (field ++ "[" ++ Decimal.ofNat i ++ "]") [("numeric", isNumeric x)]
    else rules path field [("len", false)]

end Check
end FaultChain
