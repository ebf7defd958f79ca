import FaultChain.CallGraph.Basic
import FaultChain.Text.Quoted

/-!
# Drawings of call graphs

A call graph in the DOT language. External functions are drawn grey, functions that cannot be
encapsulated red.
-/

namespace FaultChain
namespace CallGraph

def color (n : Node) : String :=
  if n.external then "lightgrey" else if n.doublePointer then "salmon" else "lightblue"

def nodeLine (n : Node) : String :=
  "  " ++ Text.quote n.name ++ " [fillcolor=" ++ color n ++ "];\n"

def callLines (n : Node) : List String :=
  (n.calls.filter (· != nullFunction)).map fun callee =>
    "  " ++ Text.quote n.name ++ " -> " ++ Text.quote callee ++ ";\n"

def drawing (cg : CallGraph) : String :=
  let shown := cg.nodes.filter (·.name != nullFunction)
  String.join
    (["digraph CallGraph \x7b\n", "  node [shape=box, style=filled, fillcolor=lightblue];\n"] ++
      shown.map nodeLine ++ shown.flatMap callLines ++ ["\x7d\n"])

end CallGraph
end FaultChain
