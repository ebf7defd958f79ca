import FaultChain.CallGraph.DepthFirst

/-!
# Dependency order

Components ordered so that callees come before their callers. Each component counts the others it
still waits for. Those that wait for no other one are ready, and the ready one with the least first
name is listed next.

* `CallGraph.Listing`: how far the listing of components has come; `Listing.step`, `Listing.run`.
* `CallGraph.listComponents`: the components in the order in which they are listed.
* `CallGraph.ofInfo`: the call graph of extracted information, with its computed order.
* `CallGraph.Adoption`: how far a reported order is taken over, group by group.
* `CallGraph.adopt?`: a reported order, if it agrees with the graph.
* `CallGraph.withReported`: the graph with a reported order, or with its own.
-/

namespace FaultChain
namespace CallGraph

def position (groups : List (List String)) (name : String) : Nat :=
  groups.findIdx (·.contains name)

def firstName (c : List String) : String := c.head?.getD ""

/-! ## Waiting for others -/

/-- The order in which the members of sets are gone through, which may be any for each of them. -/
structure Enumeration where
  order : Nat → List Nat → List Nat
  perm : ∀ k set, (order k set).Perm set

def Enumeration.asFilled : Enumeration := ⟨fun _ set => set, fun _ set => List.Perm.refl set⟩

/-- The other components that a component calls into, by their numbers. -/
def waitsFor (nodes : List Node) (comps : List (List String)) (i : Nat) : List Nat :=
  ((((comps.getD i []).flatMap (callsIn nodes)).map (position comps)).filter (· != i)).eraseDups

/-- For every component those that wait for it. -/
def dependents (e : Enumeration) (nodes : List Node) (comps : List (List String)) :
    List (List Nat) :=
  (List.range comps.length).foldl
    (fun table i =>
      (e.order i (waitsFor nodes comps i)).foldl (fun table j => table.modify j (·.insert i)) table)
    (List.replicate comps.length [])

/-- How far the listing of components has come. Components go by their numbers. -/
structure Listing where
  /-- For every component how many others it still waits for. -/
  pending : List Int
  ready : List Nat
  listed : List Nat := []

namespace Listing

def start (nodes : List Node) (comps : List (List String)) : Listing :=
  let pending := (List.range comps.length).map fun i => ((waitsFor nodes comps i).length : Int)
  { pending := pending
    ready := (List.range comps.length).filter fun i => pending.getD i 0 == 0 }

/-- A component has one other less to wait for, and is ready if that was the last one. -/
def release (l : Listing) (i : Nat) : Listing :=
  let left := l.pending.getD i 0 - 1
  { l with
    pending := l.pending.set i left
    ready := if left == 0 then l.ready ++ [i] else l.ready }

/-- Components that are ready, the least first name in front. -/
def sortReady (comps : List (List String)) (ready : List Nat) : List Nat :=
  ready.mergeSort fun a b => firstName (comps.getD a []) ≤ firstName (comps.getD b [])

/-- Lists the ready component with the least first name, and releases those that wait for it. -/
def step (e : Enumeration) (comps : List (List String)) (waiting : List (List Nat)) (l : Listing) :
    Listing :=
  match sortReady comps l.ready with
  | [] => l
  | next :: rest =>
    (e.order next (waiting.getD next [])).foldl release
      { l with ready := rest, listed := l.listed ++ [next] }

def ahead (l : Listing) : Nat := l.ready.length + l.pending.countP (0 < ·)

theorem ahead_release (l : Listing) (i : Nat) : (l.release i).ahead = l.ahead := by
  by_cases hi : i < l.pending.length
  · have hget : l.pending.getD i 0 = l.pending[i] := by simp [hi]
    have hset := List.countP_set (p := fun n : Int => decide (0 < n)) (a := l.pending[i] - 1) hi
    have hpos : 0 < l.pending[i] → 0 < l.pending.countP fun n : Int => decide (0 < n) := fun h =>
      List.countP_pos_iff.mpr ⟨_, List.getElem_mem hi, by simpa using h⟩
    simp only [ahead, release, hget, hset]
    generalize l.pending[i] = n at hpos ⊢
    -- What was the last one to wait for moves the component from the pending to the ready ones.
    rcases Int.lt_trichotomy n 1 with hlt | rfl | hgt
    · have hnot : ¬ 0 < n ∧ ¬ 1 < n ∧ n - 1 ≠ 0 := by omega
      simp [hnot]
    · have := hpos (by omega)
      simp
      omega
    · have hmore : 0 < n ∧ 1 < n ∧ n - 1 ≠ 0 := by omega
      have := hpos hmore.1
      simp [hmore]
      omega
  · have hget : l.pending.getD i 0 = 0 := by simp [List.getD, hi]
    have hset : l.pending.set i (0 - 1) = l.pending := List.set_eq_of_length_le (Nat.not_lt.mp hi)
    simp only [ahead, release, hget, hset]
    rfl

theorem ahead_foldl_release (l : Listing) (set : List Nat) :
    (set.foldl release l).ahead = l.ahead := by
  induction set generalizing l with
  | nil => rfl
  | cons i set ih => rw [List.foldl_cons, ih, ahead_release]

/-- A listed component is not ahead any more. -/
theorem ahead_step_lt (e : Enumeration) (comps : List (List String)) (waiting : List (List Nat))
    {l : Listing} (h : l.ready ≠ []) : (l.step e comps waiting).ahead < l.ahead := by
  have hlength : (sortReady comps l.ready).length = l.ready.length := List.length_mergeSort _
  unfold step
  split
  · rename_i hnil
    rw [hnil] at hlength
    exact absurd (List.length_eq_zero_iff.mp hlength.symm) h
  · rename_i next rest hsorted
    rw [hsorted, List.length_cons] at hlength
    rw [ahead_foldl_release]
    exact Nat.add_lt_add_right (by omega : rest.length < l.ready.length) _

/-- Lists components until none is ready. -/
def run (e : Enumeration) (comps : List (List String)) (waiting : List (List Nat)) (l : Listing) :
    Listing :=
  if _h : l.ready = [] then l else run e comps waiting (l.step e comps waiting)
termination_by l.ahead
decreasing_by exact ahead_step_lt e comps waiting (by assumption)

end Listing

/-! ## Computed order -/

/-- Components listed so that callees come before their callers. -/
def listComponents (e : Enumeration) (nodes : List Node) (comps : List (List String)) :
    List (List String) :=
  let done := (Listing.start nodes comps).run e comps (dependents e nodes comps)
  done.listed.map fun i => comps.getD i []

/-- The clusters of components, deepest callees first. -/
def clustersOf (e : Enumeration) (nodes : List Node) (comps : List (List String)) : List Cluster :=
  (listComponents e nodes comps).map fun c => { functions := c, cyclic := isCyclic nodes c }

/-- The clusters of a graph: its components, deepest callees first. -/
def computeTopology (e : Enumeration) (nodes : List Node) : List Cluster :=
  clustersOf e nodes (stronglyConnected nodes)

/-- The call graph of extracted information. -/
def ofInfo (info : List (String × NodeInfo)) : CallGraph :=
  let nodes := nodesOf info
  { nodes := nodes, topology := computeTopology .asFilled nodes }

/-! ## Reported order -/

/-- How far a reported order is taken over. -/
structure Adoption where
  /-- The number of its group for every function that is listed, the latest one first. -/
  position : List (String × Nat) := []
  clusters : List Cluster := []

namespace Adoption

/-- Notes the group of a function, which must be known and not be listed before. -/
def place (cg : CallGraph) (number : Nat) (position : List (String × Nat)) (name : String) :
    Option (List (String × Nat)) :=
  if cg.contains name && (position.lookup name).isNone then some ((name, number) :: position)
  else none

/-- Takes over a group, which must not be empty, with its functions in increasing order. -/
def take (cg : CallGraph) (a : Adoption) (group : List String) : Option Adoption :=
  if group.isEmpty then none
  else
    let members := group.mergeSort (· ≤ ·)
    let cluster : Cluster := { functions := members, cyclic := isCyclic cg.nodes members }
    (members.foldlM (place cg a.clusters.length) a.position).map fun position =>
      { position := position, clusters := a.clusters ++ [cluster] }

def groupOf (a : Adoption) (name : String) : Nat := (a.position.lookup name).getD 0

/-- Whether every function is listed, and none calls into a later group. -/
def isComplete (cg : CallGraph) (a : Adoption) : Bool :=
  a.position.length == cg.size &&
    cg.nodes.all fun n => n.calls.all fun callee => a.groupOf callee ≤ a.groupOf n.name

end Adoption

/-- The clusters of reported groups, if they list every function exactly once, and no function calls
into a later group. -/
def adopt? (cg : CallGraph) (groups : List (List String)) : Option (List Cluster) :=
  match groups.foldlM (Adoption.take cg) {} with
  | none => none
  | some a => if a.isComplete cg then some a.clusters else none

/-- Whether reported groups are taken over. -/
def agrees (cg : CallGraph) (groups : List (List String)) : Bool := (cg.adopt? groups).isSome

/-- The graph with a reported order where it agrees, otherwise with its own. -/
def withReported (cg : CallGraph) (groups : List (List String)) : CallGraph :=
  match cg.adopt? groups with
  | some clusters => { cg with topology := clusters }
  | none => cg

/-- How an extracted graph without functions is reported. -/
def emptyGraph (bitcode : String) : Failure :=
  .tool "extractcallgraph" [bitcode] "" (.other "empty call graph")

/-- The call graph of what the compiler extracted, which must not be empty. -/
def ofExtracted (bitcode : String) (info : List (String × NodeInfo)) : Except Failure CallGraph :=
  if info.isEmpty then .error (emptyGraph bitcode) else .ok (ofInfo info)

end CallGraph
end FaultChain
