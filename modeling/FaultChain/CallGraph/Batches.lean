import FaultChain.CallGraph.Topology

/-!
# Batches of independent calls

Errors are propagated along calls in batches. No function is both caller and callee within a batch,
and a call comes after all batches in which its callee acts as a caller. Calls inside a cycle get a
batch of their own after the rest of their cluster.

* `CallGraph.batches`: the batches of a graph.
* `CallGraph.checkDisjoint`: whether callers and callees of a batch are different functions.
-/

namespace FaultChain
namespace CallGraph

/-- Calls that can run in parallel; a closed batch takes no further calls. -/
structure Batch where
  calls : List Call
  closed : Bool

/-- The batches so far, and for every handled function the first batch that may call it. -/
structure Plan where
  batches : List Batch
  ready : List (String × Nat)

namespace Plan

/-- The first batch that may call a function. -/
def readyAt (p : Plan) (name : String) : Nat := (p.ready.lookup name).getD 0

/-- Puts a call into the first open batch once `skip` batches are passed over, or into a new one at
the end. Also gives the position of that batch. -/
def placeIn (c : Call) : Nat → List Batch → List Batch × Nat
  | _, [] => ([{ calls := [c], closed := false }], 0)
  | 0, b :: rest =>
    if b.closed then
      let (rest, i) := placeIn c 0 rest
      (b :: rest, i + 1)
    else ({ b with calls := b.calls ++ [c] } :: rest, 0)
  | skip + 1, b :: rest =>
    let (rest, i) := placeIn c skip rest
    (b :: rest, i + 1)

/-- The plan while a cluster is handled: the batches, and the number of batches up to the last one
with a call of the cluster. -/
structure Progress where
  batches : List Batch
  used : Nat

/-- Places a call that leaves its cluster. -/
def placeOuter (p : Plan) (acc : Progress) (c : Call) : Progress :=
  let (batches, i) := placeIn c (p.readyAt c.callee) acc.batches
  { batches := batches, used := max acc.used (i + 1) }

/-- Gives a call inside a cluster a closed batch of its own. -/
def placeInner (acc : Progress) (c : Call) : Progress :=
  let batches := acc.batches ++ [{ calls := [c], closed := true }]
  { batches := batches, used := batches.length }

def addCluster (cg : CallGraph) (removeMain : Bool) (p : Plan) (cluster : Cluster) : Plan :=
  let calls := cluster.functions.flatMap fun caller =>
    (cg.eligibleCallees removeMain caller).map fun callee => ({ caller, callee } : Call)
  let inner := calls.filter fun c => cluster.functions.contains c.callee
  let outer := calls.filter fun c => !cluster.functions.contains c.callee
  let done := outer.foldl (placeOuter p) { batches := p.batches, used := 0 }
  let done := inner.foldl placeInner done
  { batches := done.batches
    ready := cluster.functions.map (·, done.used) ++ p.ready }

end Plan

/-- The batches of all calls that errors are propagated along. -/
def batches (cg : CallGraph) (removeMain : Bool) : List (List Call) :=
  let plan := cg.topology.foldl (Plan.addCluster cg removeMain) { batches := [], ready := [] }
  plan.batches.map (·.calls)

/-- Fails at the first callee that is also a caller. -/
def checkDisjoint (batch : List Call) : Except Failure Unit :=
  match batch.find? fun c => batch.any (·.caller == c.callee) with
  | some c => .error (.other (c.callee ++ " is both caller and callee"))
  | none => .ok ()

end CallGraph
end FaultChain
