import FaultChain.Document.Node
import FaultChain.Number.Binary64

/-!
# What scalars stand for

* `Value`: what a scalar stands for.
* `Scalar.value?`: finds it out; a tag may demand a kind.
* `Node.fields?`: the entries of a mapping, with those that are taken over from other mappings.
-/

namespace FaultChain
namespace Document

inductive Value where
  | nothing
  | bool (b : Bool)
  | int (n : Int)
  | float (x : Binary64)
  | text (s : String)

namespace Value

def tag : Value → String
  | .nothing => "!!null"
  | .bool _ => "!!bool"
  | .int _ => "!!int"
  | .float _ => "!!float"
  | .text _ => "!!str"

/-! ## Numbers -/

def signed? (magnitude? : List Char → Option Nat) (cs : List Char) : Option Int := do
  let (negative, body) := Integer.sign cs
  let n ← magnitude? body
  if negative then if n ≤ Word64.half then some (-(n : Int)) else none
  else if n < Word64.half then some (n : Int) else none

/-- A number of 64 bits without a sign. -/
def unsigned? (cs : List Char) : Option Int := do
  let n ← Integer.natural? cs
  if n < Word64.count then some (n : Int) else none

def isDecimal (cs : List Char) : Bool :=
  let body := (Integer.sign cs).2
  let whole := body.takeWhile Char.isDigit
  let rest := body.drop whole.length
  let (places, rest) :=
    match rest with
    | '.' :: r => (r.takeWhile Char.isDigit, r.dropWhile Char.isDigit)
    | r => ([], r)
  let power :=
    match rest with
    | [] => true
    | e :: r =>
      let digits := (Integer.sign r).2
      (e == 'e' || e == 'E') && !digits.isEmpty && digits.all Char.isDigit
  (!whole.isEmpty || !places.isEmpty) && power

def float? (cs : List Char) : Option Value :=
  match Binary64.parseChars cs with
  | .ok x => some (.float x)
  | .error _ => none

/-- A number behind the mark of base two or eight, where a sign may stand. -/
def markedInt? (cs : List Char) : Option Int :=
  match cs with
  | '0' :: 'b' :: rest => signed? (Integer.ofDigits? 2) rest
  | '0' :: 'o' :: rest => signed? (Integer.ofDigits? 8) rest
  | _ => none

/-- A number that begins with a sign or a digit. Underscores do not count. -/
def number? (cs : List Char) : Option Value :=
  let cs := cs.filter (· != '_')
  match (signed? Integer.natural? cs).or (unsigned? cs) with
  | some n => some (.int n)
  | none =>
    match if isDecimal cs then float? cs else none with
    | some v => some v
    | none => (markedInt? cs).map .int

/-! ## Words -/

def words : List (String × Value) :=
  let all (v : Value) (ws : List String) : List (String × Value) := ws.map (·, v)
  let infinity : Binary64 := ⟨Binary64.infinityBits⟩
  all (.bool true) ["true", "True", "TRUE"] ++ all (.bool false) ["false", "False", "FALSE"] ++
    all .nothing ["", "~", "null", "Null", "NULL"] ++
    all (.float ⟨Binary64.infinityBits + 1⟩) [".nan", ".NaN", ".NAN"] ++
    all (.float infinity) [".inf", ".Inf", ".INF", "+.inf", "+.Inf", "+.INF"] ++
    all (.float ⟨Binary64.infinityBits + Binary64.signBit⟩) ["-.inf", "-.Inf", "-.INF"]

/-- What a text without quotes stands for. -/
def ofPlain (text : String) : Value :=
  match words.lookup text with
  | some v => v
  | none =>
    let cs := text.toList
    let read :=
      match cs.head? with
      | none => none
      | some c =>
        if c == '.' then float? cs
        else if c.isDigit || c == '+' || c == '-' then number? cs
        else none
    read.getD (.text text)

def floatOfInt (n : Int) : Binary64 := Binary64.ofRatio (n < 0) n.natAbs 1

end Value

/-- What a scalar stands for, unless its tag demands something else. -/
def Scalar.value? (s : Scalar) : Option Value :=
  match s.tag with
  | none => some (if s.plain then Value.ofPlain s.text else .text s.text)
  | some "!!str" => some (.text s.text)
  | some tag =>
    match Value.ofPlain s.text with
    | .int n =>
      if tag == "!!int" then some (.int n)
      else if tag == "!!float" && n < Word64.half then some (.float (Value.floatOfInt n))
      else none
    | v => if v.tag == tag then some v else none

/-! ## Mappings -/

namespace Node

/-- The value itself, wherever it stands; a value that contains itself has none. -/
def itself? : Node → Option Node
  | .alias _ target => some target
  | .loop _ => none
  | n => some n

/-- Whether two keys of a mapping count as the same. -/
def sameKey : Node → Node → Bool
  | .scalar a, .scalar b => a.text == b.text
  | .sequence _, .sequence _ => true
  | .mapping _, .mapping _ => true
  | .alias a _, .alias b _ => a == b
  | .alias a _, .loop b => a == b
  | .loop a, .alias b _ => a == b
  | .loop a, .loop b => a == b
  | _, _ => false

def distinctKeys : List (Node × Node) → Bool
  | [] => true
  | (k, _) :: rest => !(rest.any fun (l, _) => sameKey k l) && distinctKeys rest

def isMerge : Node → Bool
  | .scalar s => s.text == "<<" && (s.tag == some "!!merge" || (s.tag.isNone && s.plain))
  | _ => false

def keyName? (key : Node) : Option (Option String) := do
  match ← key.itself? with
  | .scalar s =>
    match ← s.value? with
    | .nothing => return none
    | _ => return some s.text
  | _ => none

/-- The entries of a mapping by name. Entries of mappings that are taken over come last, unless
their names occur already. -/
def fields? : Nat → List (Node × Node) → Option (List (String × Node))
  | 0, _ => none
  | n + 1, entries =>
    if !distinctKeys entries then none
    else do
      let own ← entries.filterMapM fun (k, v) => do
        if isMerge k then return none
        else return (← keyName? k).map (·, v)
      let add (fields : List (String × Node)) (source : Node) : Option (List (String × Node)) := do
        match ← source.itself? with
        | .mapping more =>
          let more ← fields? n more
          return fields ++ more.filter fun (k, _) => (fields.lookup k).isNone
        | _ => none
      match entries.find? fun (k, _) => isMerge k with
      | none => return own
      | some (_, .sequence sources) => sources.foldlM add own
      | some (_, source) => add own source

def mergeDepth : Nat := 1000

end Node
end Document
end FaultChain
