/-!
# Compiler passes

The passes an analysis needs, as requests.

* `Pass.args`: the command line of a pass.
* `Pass.words`: a pass with its operands, as it is recorded.
-/

namespace FaultChain

inductive Pass where
  | extract (image : String)
  | list (image : String)
  | encapsulate (source function dest : String)
  | prepend (source function dest : String) (reports : List String)
  | mergeConstants (source dest : String)
  deriving DecidableEq

namespace Pass

/-- The command line of a pass, without the library that provides it. -/
def args : Pass → List String
  | .extract image => ["-extractcallgraph", image, "-disable-output"]
  | .list image => ["-listallfuncstopologic", image, "-disable-output"]
  | .encapsulate source function dest =>
    ["-encapsulatesymbolic", source, "-encapsulatedfunction", function, "-o", dest]
  | .prepend source function dest reports =>
    ["-preprenderror", source, "-prependtofunction", function] ++
      reports.flatMap (fun r => ["-errorfiletoprepend", r]) ++ ["-o", dest]
  | .mergeConstants source dest => ["-constmerge", source, "-o", dest]

def name : Pass → String
  | .extract _ => "extract"
  | .list _ => "list"
  | .encapsulate _ _ _ => "encapsulate"
  | .prepend _ _ _ _ => "prepend"
  | .mergeConstants _ _ => "constmerge"

def operands : Pass → List String
  | .extract image => [image]
  | .list image => [image]
  | .encapsulate source function dest => [source, function, dest]
  | .prepend source function dest reports => [source, function, dest] ++ reports
  | .mergeConstants source dest => [source, dest]

def words (p : Pass) : List String := p.name :: p.operands

end Pass
end FaultChain
