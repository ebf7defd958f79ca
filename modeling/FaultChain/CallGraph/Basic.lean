import FaultChain.Failure

/-!
# The call graph

The functions of a program and the calls between them.

* `NodeInfo`: what the compiler says about a function.
* `CallGraph.Links`: the calls between functions, with those to unknown functions dropped and the
  inverse relation rebuilt.
* `CallGraph.nodesOf`: the nodes of a graph.
* `canCall`, `canBeCalled`: which calls errors are propagated along.
-/

namespace FaultChain

structure NodeInfo where
  calls : List String := []
  calledBy : List String := []
  doublePointer : Bool := false
  external : Bool := false

structure Node where
  name : String
  /-- The functions it calls, in increasing order. -/
  calls : List String
  /-- The functions that call it, in increasing order. -/
  calledBy : List String
  external : Bool
  doublePointer : Bool
  deriving DecidableEq

/-- Functions that are handled together: a single one, or several that call each other. -/
structure Cluster where
  functions : List String
  /-- Whether there are several functions, or one that calls itself. -/
  cyclic : Bool
  deriving DecidableEq

structure Call where
  caller : String
  callee : String
  deriving DecidableEq

def Call.render (c : Call) : String := c.caller ++ "->" ++ c.callee

/-- The functions of a program, and an order in which callees come before their callers. -/
structure CallGraph where
  nodes : List Node
  topology : List Cluster

namespace CallGraph

/-- The pseudo function that stands for the targets of indirect calls. -/
def nullFunction : String := "null function"

def mainFunction : String := "main"

/-! ## Nodes -/

/-- Distinct names in increasing order. -/
def sortedSet (names : List String) : List String :=
  (names.eraseDups).mergeSort (· ≤ ·)

/-- The calls between functions, noted at both ends: names under the name they are noted for, the
latest one first. -/
structure Links where
  /-- Callees, each under a caller. -/
  calls : List (String × String) := []
  /-- Callers, each under a callee. -/
  calledBy : List (String × String) := []

namespace Links

def add (l : Links) (caller callee : String) : Links :=
  { calls := (caller, callee) :: l.calls, calledBy := (callee, caller) :: l.calledBy }

/-- Notes the calls of a function, those to unknown functions left out. -/
def addCalls (known : String → Bool) (l : Links) (entry : String × NodeInfo) : Links :=
  entry.2.calls.foldl (fun l callee => if known callee then l.add entry.1 callee else l) l

/-- The calls of all functions, gone through in the given order. -/
def gather (entries : List (String × NodeInfo)) : Links :=
  entries.foldl (addCalls fun name => (entries.lookup name).isSome) {}

/-- The names noted under a name, in increasing order. -/
def under (notes : List (String × String)) (name : String) : List String :=
  sortedSet ((notes.filter (·.1 == name)).map (·.2))

/-- The node of a function. What the compiler says about its callers is not used. -/
def node (l : Links) (entry : String × NodeInfo) : Node :=
  { name := entry.1
    calls := under l.calls entry.1
    calledBy := under l.calledBy entry.1
    external := entry.2.external
    doublePointer := entry.2.doublePointer }

end Links

/-- Puts a node to its place in the order of names; a node of the same name gives way. -/
def putNode (nodes : List Node) (n : Node) : List Node :=
  match nodes with
  | [] => [n]
  | m :: rest =>
    if n.name < m.name then n :: m :: rest
    else if n.name = m.name then n :: rest
    else m :: putNode rest n

/-- The nodes of extracted information. Its functions are gone through in one order to link them,
and in another one to store them. -/
def nodesIn (linking storing : List (String × NodeInfo)) : List Node :=
  let links := Links.gather linking
  storing.foldl (fun nodes entry => putNode nodes (links.node entry)) []

def nodesOf (info : List (String × NodeInfo)) : List Node := nodesIn info info

def find? (nodes : List Node) (name : String) : Option Node :=
  nodes.find? (·.name == name)

def callsIn (nodes : List Node) (name : String) : List String :=
  match find? nodes name with
  | some n => n.calls
  | none => []

def node? (cg : CallGraph) (name : String) : Option Node := find? cg.nodes name

def contains (cg : CallGraph) (name : String) : Bool := (cg.node? name).isSome

def size (cg : CallGraph) : Nat := cg.nodes.length

def functions (cg : CallGraph) : List String := cg.nodes.map (·.name)

/-- Whether functions form a cycle: several of them, or one that calls itself. -/
def isCyclic (nodes : List Node) : List String → Bool
  | [] => false
  | [name] => (callsIn nodes name).contains name
  | _ :: _ :: _ => true

/-! ## Suitable functions -/

/-- Whether a function can be the entry point of an isolated run. -/
def canCall (cg : CallGraph) (removeMain : Bool) (name : String) : Bool :=
  match cg.node? name with
  | none => false
  | some n =>
    if n.external || name == nullFunction then false
    else if name == mainFunction then !removeMain
    else !n.doublePointer

/-- Whether errors of a function can be offered to its callers. -/
def canBeCalled (cg : CallGraph) (name : String) : Bool :=
  match cg.node? name with
  | none => false
  | some n => !n.external && name != nullFunction

/-- Those of some functions that can be analyzed in isolation. Only `main` may take a pointer to a
pointer, unless it is to be left out. -/
def keepIsolable (cg : CallGraph) (removeMain : Bool) : List String → List String
  | [] => []
  | name :: rest =>
    let kept := keepIsolable cg removeMain rest
    match cg.node? name with
    | none => kept
    | some n =>
      if n.external || name == nullFunction then kept
      else if name == mainFunction then
        if removeMain then kept else name :: kept
      else if n.doublePointer then kept
      else name :: kept

/-- The functions that can be analyzed in isolation, deepest callees first. -/
def encapsulable (cg : CallGraph) (removeMain : Bool) : List String :=
  cg.keepIsolable removeMain (cg.topology.flatMap (·.functions))

/-- The suitable callees of a function other than itself, in increasing order. -/
def eligibleCallees (cg : CallGraph) (removeMain : Bool) (caller : String) : List String :=
  if cg.canCall removeMain caller then
    (callsIn cg.nodes caller).filter fun callee => callee != caller && cg.canBeCalled callee
  else []

end CallGraph
end FaultChain
