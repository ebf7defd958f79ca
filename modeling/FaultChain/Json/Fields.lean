import FaultChain.Json.Reader

/-!
# Fields of JSON objects

Reading the members of an object one by one. A value of the wrong kind is `none`; a missing member
and a null stand for an empty or zero value, except where it matters that something was given.

* `getOr`: a member with a default.
* `get?`: a member that may be missing.
* `content?`: a text given in parts.
-/

namespace FaultChain
namespace Json

abbrev Members := List (String × Json)

/-! ## Values -/

def text? (j : Json) : Option String := asText (some j)

/-- A 64-bit integer; null is zero. -/
def int? (j : Json) : Option Int := asInt (some j)

def bool? (j : Json) : Option Bool := asBool (some j)

def object? (j : Json) : Option Members :=
  match j with
  | .obj m => some m
  | .null => some []
  | _ => none

def list? (j : Json) : Option (List Json) :=
  match j with
  | .arr items => some items
  | .null => some []
  | _ => none

def texts? (j : Json) : Option (List String) := (list? j).bind (·.mapM text?)

def part? : Json → Option String
  | .str s => some s
  | .arr [.str s, n] => (int? n).map fun k => String.join (List.replicate k.toNat s)
  | _ => none

def content? : Json → Option String
  | .arr parts => (parts.mapM part?).map String.join
  | j => text? j

/-- The members of an object, the last of equal names counting. -/
def distinct (m : Members) : Members :=
  (m.map (·.1)).eraseDups.filterMap fun k => (member? m k).map (k, ·)

def membersOf? {α : Type} (read : Json → Option α) (j : Json) : Option (List (String × α)) := do
  (distinct (← object? j)).mapM fun (k, v) => (read v).map (k, ·)

/-! ## Members -/

def get? {α : Type} (read : Json → Option α) (o : Members) (k : String) : Option (Option α) :=
  match member? o k with
  | none => some none
  | some .null => some none
  | some j => (read j).map some

def getOr {α : Type} (default : α) (read : Json → Option α) (o : Members) (k : String) : Option α :=
  (get? read o k).map (·.getD default)

def getStr : Members → String → Option String := getOr "" text?

def getInt : Members → String → Option Int := getOr 0 int?

def getBool : Members → String → Option Bool := getOr false bool?

def getArr : Members → String → Option (List Json) := getOr [] list?

def getObj : Members → String → Option Members := getOr [] object?

def getStrs : Members → String → Option (List String) := getOr [] texts?

def getContent : Members → String → Option String := getOr "" content?

def getContents : Members → String → Option (List (String × String)) :=
  getOr [] (membersOf? content?)

end Json
end FaultChain
