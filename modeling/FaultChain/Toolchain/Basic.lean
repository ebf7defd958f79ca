import FaultChain.CallGraph.Basic
import FaultChain.Host.Command
import FaultChain.Json.Reader
import FaultChain.Toolchain.Pass

/-!
# The compiler toolchain

Compiler passes are run by an external program that loads a library. Every failure of a pass is a
failure of a tool, which stops an analysis.

* `Toolchain`: what an analysis needs of the compiler, whatever provides it.
* `Compiler`: the external program that provides it; `Compiler.toolchain`.
* `Compiler.checkPasses`: whether the program knows every pass.
-/

namespace FaultChain

/-- Compiler passes as an analysis uses them: each may change the host in any way. -/
structure Toolchain where
  extract : String → Host → Except Failure (List (String × NodeInfo)) × Host
  /-- The functions of an image in topological order, those of a cycle together. -/
  list : String → Host → Except Failure (List (List String)) × Host
  transform : Pass → Host → Except Failure Unit × Host

/-- The external program that runs compiler passes. -/
structure Compiler where
  program : String
  library : String
  timeout : Duration := Duration.ofMinutes 30

namespace Compiler

def ofConfig (c : Config) : Compiler :=
  { program := c.binaries.opt, library := c.binaries.passes }

/-- Why a program that ran is taken to have failed. -/
def outputFailure (program : String) (args : List String) (o : Output) : Except Failure String :=
  if o.killed then .error (.tool program args o.text .killed)
  else if o.exit != 0 then
    .error (.tool program args o.text (.other ("exit status " ++ Decimal.ofInt o.exit)))
  else .ok o.text

def run (t : Compiler) (args : List String) (h : Host) : Except Failure String × Host :=
  let full := "-load" :: t.library :: args
  match Command.run { path := t.program, args := full, timeout := t.timeout } h with
  | (.error f, h) => (.error (.tool t.program full "" f), h)
  | (.ok o, h) => (outputFailure t.program full o, h)

/-! ## Documents printed by passes -/

/-- The text from the first bracket or brace on, which skips messages in front of a document. -/
def payload (text : String) : String :=
  match text.toList.dropWhile (fun c => c != '{' && c != '[') with
  | [] => text
  | rest => String.ofList rest

def runReading {α : Type} (t : Compiler) (args : List String) (decode : String → Option α)
    (h : Host) : Except Failure α × Host :=
  match t.run args h with
  | (.error f, h) => (.error f, h)
  | (.ok text, h) =>
    match decode (payload text) with
    | some a => (.ok a, h)
    | none => (.error (.tool t.program args text .malformedOutput), h)

/-- A function's node in a document; members of other names are ignored. -/
def nodeInfo? : Json → Option NodeInfo
  | .null => some {}
  | .obj members => do
    return {
      calls := (← Json.textsField? members "calls").getD []
      calledBy := (← Json.textsField? members "calledby").getD []
      doublePointer := ← Json.boolField members "hasdoubleptrarg"
      external := ← Json.boolField members "isexternal" }
  | _ => none

/-- A call graph in a document; the last of equal names counts. -/
def graph? : Json → Option (List (String × NodeInfo))
  | .null => some []
  | .obj members => do
    let nodes ← members.mapM fun (name, j) => (nodeInfo? j).map (name, ·)
    return (nodes.map (·.1)).eraseDups.filterMap fun name =>
      (nodes.reverse.lookup name).map (name, ·)
  | _ => none

/-- The items of a document that lists functions, each with its spelling. -/
def items? (text : String) : Option (List (Json × String)) :=
  match Json.parse text with
  | some .null => some []
  | some (.arr items) => some (items.zip (Json.spellings text))
  | _ => none

/-- One item of a list of functions: a name, or the names of a cycle. -/
def unit? (j : Json) : Option (List String) :=
  match j with
  | .null => some [""]
  | .str name => some [name]
  | _ => (Json.asTexts? (some j)).map (·.getD [])

/-- All units of a list of functions, or the spelling of the first item that is none. -/
def units (items : List (Json × String)) : Except String (List (List String)) :=
  items.mapM fun (j, spelling) =>
    match unit? j with
    | some u => .ok u
    | none => .error spelling

/-! ## Passes -/

def extract (t : Compiler) (image : String) (h : Host) :
    Except Failure (List (String × NodeInfo)) × Host :=
  t.runReading (Pass.extract image).args (fun text => (Json.parse text).bind graph?) h

/-- The functions of an image in topological order. -/
def list (t : Compiler) (image : String) (h : Host) :
    Except Failure (List (List String)) × Host :=
  match t.runReading (Pass.list image).args items? h with
  | (.error f, h) => (.error f, h)
  | (.ok items, h) =>
    match units items with
    | .ok us => (.ok us, h)
    | .error spelling =>
      (.error (.tool t.program ["-listallfuncstopologic", image] spelling .unexpectedEntry), h)

def transform (t : Compiler) (pass : Pass) (h : Host) : Except Failure Unit × Host :=
  match t.run pass.args h with
  | (.error f, h) => (.error f, h)
  | (.ok _, h) => (.ok (), h)

def toolchain (t : Compiler) : Toolchain :=
  { extract := t.extract, list := t.list, transform := t.transform }

def requiredPasses : List String :=
  ["-extractcallgraph", "-listallfuncstopologic", "-encapsulatesymbolic", "-preprenderror"]

/-- Fails unless the compiler's help lists every pass. -/
def checkPasses (t : Compiler) (h : Host) : Except Failure Unit × Host :=
  let args := ["-load", t.library, "-help"]
  match Command.run { path := t.program, args := args, timeout := Duration.ofMinutes 1 } h with
  | (.error f, h) => (.error (.tool t.program args "" f), h)
  | (.ok o, h) =>
    match requiredPasses.filter (!Text.contains o.text ·) with
    | [] => (.ok (), h)
    | missing =>
      (.error (.tool t.program args ""
        (.other ("libmackeopt does not support " ++ Text.join ", " missing))), h)

end Compiler
end FaultChain
