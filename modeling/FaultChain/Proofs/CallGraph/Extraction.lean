import Mathlib
import FaultChain.CallGraph.Topology
import FaultChain.Proofs.CallGraph.Nodes

/-!
# Graphs of extracted information

What the compiler says about functions comes as a map. Its functions are gone through to note their
calls at both ends and again to store their nodes, and so are the sets that are filled in between,
each in an order of its own. What it says about callers may be wrong, and callees may be unknown or
be named several times. None of this shows in the graph.

* `CallGraph.Traversal`: the orders in which a graph is built, and `Traversal.nodes`, what is built.
* `CallGraph.Represents`: nodes for exactly the given functions, with their calls to each other
  at both ends.
* `CallGraph.Represents.unique`: only one list of nodes represents extracted information.
* `CallGraph.SameCalls`: information that is represented by the same nodes.
* `CallGraph.Traversal.nodes_represent`: the main statement.
-/

namespace FaultChain
namespace CallGraph

variable {info : List (String × NodeInfo)}

/-! ## Orders of maps and sets -/

namespace Links

/-- The set of the names that are noted under a name, gone through in some order. -/
structure Enumerates (notes : List (String × String)) (name : String) (keys : List String) :
    Prop where
  nodup : keys.Nodup
  mem_iff : ∀ x, x ∈ keys ↔ (name, x) ∈ notes

/-- Sorting hides the order in which a set is gone through. -/
theorem Enumerates.mergeSort_eq {notes : List (String × String)} {name : String}
    {keys : List String} (h : Enumerates notes name keys) :
    keys.mergeSort (· ≤ ·) = under notes name := by
  have hunder : (under notes name).Pairwise (· < ·) := pairwise_lt_sortedSet _
  refine (pairwise_lt_mergeSort h.nodup).eq_of_mem_iff hunder fun x => ?_
  rw [List.mem_mergeSort, h.mem_iff, mem_under_iff]

theorem enumerates_reverse_under (notes : List (String × String)) (name : String) :
    Enumerates notes name (under notes name).reverse where
  nodup := List.nodup_reverse.mpr (nodup_sortedSet _)
  mem_iff := fun x => by rw [List.mem_reverse, mem_under_iff]

end Links

/-- The orders in which a graph is built: of the functions when their calls are noted and when their
nodes are stored, and of the sets of callees and callers that are filled in between. -/
structure Traversal (info : List (String × NodeInfo)) where
  linking : List (String × NodeInfo)
  storing : List (String × NodeInfo)
  callees : String → List String
  callers : String → List String
  linking_perm : linking.Perm info
  storing_perm : storing.Perm info
  callees_enumerate : ∀ f, Links.Enumerates (Links.gather linking).calls f (callees f)
  callers_enumerate : ∀ f, Links.Enumerates (Links.gather linking).calledBy f (callers f)

namespace Traversal

/-- The node of a function, with its sets sorted from the order in which they are gone through. -/
def node (t : Traversal info) (entry : String × NodeInfo) : Node :=
  { name := entry.1
    calls := (t.callees entry.1).mergeSort (· ≤ ·)
    calledBy := (t.callers entry.1).mergeSort (· ≤ ·)
    external := entry.2.external
    doublePointer := entry.2.doublePointer }

/-- The nodes that are built. -/
def nodes (t : Traversal info) : List Node :=
  t.storing.foldl (fun nodes entry => putNode nodes (t.node entry)) []

theorem node_eq (t : Traversal info) : t.node = (Links.gather t.linking).node := by
  funext entry
  rw [node, (t.callees_enumerate entry.1).mergeSort_eq, (t.callers_enumerate entry.1).mergeSort_eq,
    Links.node]

theorem nodes_eq_nodesIn (t : Traversal info) : t.nodes = nodesIn t.linking t.storing := by
  rw [nodes, node_eq, nodesIn]

theorem nodes_eq_nodesOf (t : Traversal info) (hdistinct : (info.map (·.1)).Nodup) :
    t.nodes = nodesOf info :=
  t.nodes_eq_nodesIn.trans (nodesIn_perm hdistinct t.linking_perm t.storing_perm)

/-- Everything is gone through from its end. -/
def backwards (info : List (String × NodeInfo)) : Traversal info where
  linking := info.reverse
  storing := info.reverse
  callees := fun f => (Links.under (Links.gather info.reverse).calls f).reverse
  callers := fun f => (Links.under (Links.gather info.reverse).calledBy f).reverse
  linking_perm := List.reverse_perm info
  storing_perm := List.reverse_perm info
  callees_enumerate := Links.enumerates_reverse_under _
  callers_enumerate := Links.enumerates_reverse_under _

end Traversal

/-! ## What is represented -/

/-- Nodes for exactly the given functions, with the functions among them that they call and that
call them. What is said about callers does not count. -/
structure Represents (info : List (String × NodeInfo)) (nodes : List Node) : Prop where
  functions : (nodes.map (·.name)).Perm (info.map (·.1))
  inOrder : InOrder nodes
  marks : ∀ n ∈ nodes, ∀ i, (n.name, i) ∈ info →
    n.external = i.external ∧ n.doublePointer = i.doublePointer
  calls_increasing : ∀ n ∈ nodes, n.calls.Pairwise (· < ·)
  mem_calls_iff : ∀ n ∈ nodes, ∀ i, (n.name, i) ∈ info →
    ∀ g, g ∈ n.calls ↔ g ∈ i.calls ∧ g ∈ info.map (·.1)
  calledBy_increasing : ∀ n ∈ nodes, n.calledBy.Pairwise (· < ·)
  mem_calledBy_iff : ∀ n ∈ nodes,
    ∀ g, g ∈ n.calledBy ↔ ∃ m ∈ nodes, m.name = g ∧ n.name ∈ m.calls

/-- A function has one entry. -/
theorem eq_of_mem_info (hdistinct : (info.map (·.1)).Nodup) {f : String} {i i' : NodeInfo}
    (hi : (f, i) ∈ info) (hi' : (f, i') ∈ info) : i = i' := by
  have heq : (f, i) = (f, i') := List.inj_on_of_nodup_map hdistinct hi hi' rfl
  exact congrArg Prod.snd heq

theorem represents_nodesOf (hdistinct : (info.map (·.1)).Nodup) :
    Represents info (nodesOf info) := by
  have hwf : WellFormed (nodesOf info) := wellFormed_nodesOf info
  have hmem : ∀ n, n ∈ nodesOf info ↔ ∃ entry ∈ info, n = (Links.gather info).node entry :=
    fun n => mem_nodesIn_iff hdistinct (.refl info) (.refl info)
  refine ⟨?_, inOrder_nodesIn info info, ?_, ?_, ?_, ?_, ?_⟩
  · refine (List.perm_ext_iff_of_nodup hwf.names_nodup hdistinct).mpr fun f => ?_
    simp only [List.mem_map, hmem]
    constructor
    · rintro ⟨_, ⟨entry, hentry, rfl⟩, rfl⟩
      exact ⟨entry, hentry, rfl⟩
    · rintro ⟨entry, hentry, rfl⟩
      exact ⟨_, ⟨entry, hentry, rfl⟩, rfl⟩
  · intro n hn i hi
    obtain ⟨entry, hentry, rfl⟩ := (hmem n).mp hn
    rw [eq_of_mem_info hdistinct hi hentry]
    exact ⟨rfl, rfl⟩
  · intro n hn
    obtain ⟨entry, -, rfl⟩ := (hmem n).mp hn
    exact pairwise_lt_sortedSet _
  · intro n hn i hi g
    obtain ⟨entry, -, rfl⟩ := (hmem n).mp hn
    rw [Links.mem_calls_node_iff, Links.mem_gather_calls_iff]
    refine and_congr_left fun _ => ⟨?_, fun hg => ⟨i, hi, hg⟩⟩
    rintro ⟨i', hi', hg⟩
    rwa [eq_of_mem_info hdistinct hi hi']
  · intro n hn
    obtain ⟨entry, -, rfl⟩ := (hmem n).mp hn
    exact pairwise_lt_sortedSet _
  · -- A caller is noted together with its call, and the caller has a node.
    intro n hn g
    obtain ⟨entry, -, rfl⟩ := (hmem n).mp hn
    rw [Links.mem_calledBy_node_iff, Links.mem_gather_calledBy_iff]
    constructor
    · intro hcall
      obtain ⟨⟨i, hi, -⟩, -⟩ := Links.mem_gather_calls_iff.mp hcall
      exact ⟨_, (hmem _).mpr ⟨(g, i), hi, rfl⟩, rfl, Links.mem_calls_node_iff.mpr hcall⟩
    · rintro ⟨m, hm, rfl, hcall⟩
      obtain ⟨caller, -, rfl⟩ := (hmem m).mp hm
      exact Links.mem_calls_node_iff.mp hcall

namespace Represents

variable {nodes nodes' : List Node}

/-- Every node stands for an entry. -/
theorem exists_entry (h : Represents info nodes) {n : Node} (hn : n ∈ nodes) :
    ∃ i, (n.name, i) ∈ info := by
  have hname : n.name ∈ info.map (·.1) := h.functions.mem_iff.mp (List.mem_map_of_mem hn)
  obtain ⟨⟨f, i⟩, hi, hf⟩ := List.mem_map.mp hname
  exact ⟨i, hf ▸ hi⟩

/-- The callers of a function, read off the information itself. -/
theorem mem_calledBy_iff_info (h : Represents info nodes) {n : Node} (hn : n ∈ nodes) (g : String) :
    g ∈ n.calledBy ↔ ∃ i, (g, i) ∈ info ∧ n.name ∈ i.calls := by
  rw [h.mem_calledBy_iff n hn]
  constructor
  · rintro ⟨m, hm, rfl, hcall⟩
    obtain ⟨i, hi⟩ := h.exists_entry hm
    exact ⟨i, hi, ((h.mem_calls_iff m hm i hi n.name).mp hcall).1⟩
  · rintro ⟨i, hi, hcall⟩
    have hg : g ∈ nodes.map (·.name) := h.functions.mem_iff.mpr (List.mem_map_of_mem hi)
    obtain ⟨m, hm, rfl⟩ := List.mem_map.mp hg
    have hknown : n.name ∈ info.map (·.1) := h.functions.mem_iff.mp (List.mem_map_of_mem hn)
    exact ⟨m, hm, rfl, (h.mem_calls_iff m hm i hi n.name).mpr ⟨hcall, hknown⟩⟩

/-- The information determines every node. -/
theorem mem_of_mem (h : Represents info nodes) (h' : Represents info nodes') {n : Node}
    (hn : n ∈ nodes) : n ∈ nodes' := by
  obtain ⟨i, hi⟩ := h.exists_entry hn
  have hname : n.name ∈ nodes'.map (·.name) :=
    h'.functions.mem_iff.mpr (List.mem_map_of_mem hi)
  obtain ⟨m, hm, heq⟩ := List.mem_map.mp hname
  have hi' : (m.name, i) ∈ info := heq ▸ hi
  obtain ⟨hexternal, hpointer⟩ := h.marks n hn i hi
  obtain ⟨hexternal', hpointer'⟩ := h'.marks m hm i hi'
  have hcalls : m.calls = n.calls := by
    refine (h'.calls_increasing m hm).eq_of_mem_iff (h.calls_increasing n hn) fun g => ?_
    rw [h'.mem_calls_iff m hm i hi' g, h.mem_calls_iff n hn i hi g]
  -- Whether the other nodes agree is not known yet, so callers are read off the information.
  have hcalledBy : m.calledBy = n.calledBy := by
    refine (h'.calledBy_increasing m hm).eq_of_mem_iff (h.calledBy_increasing n hn) fun g => ?_
    rw [h'.mem_calledBy_iff_info hm, h.mem_calledBy_iff_info hn, heq]
  have hsame : m = n := by
    cases m
    cases n
    simp_all only
  exact hsame ▸ hm

/-- Only one list of nodes represents extracted information. -/
theorem unique (h : Represents info nodes) (h' : Represents info nodes') : nodes = nodes' :=
  h.inOrder.eq_of_mem_iff h'.inOrder fun _ => ⟨h.mem_of_mem h', h'.mem_of_mem h⟩

end Represents

/-! ## What does not count -/

/-- Information on the same functions with the same marks, that agrees on which of them they call.
It may differ in what it says about callers, and in callees that are unknown or named again. -/
structure SameCalls (info info' : List (String × NodeInfo)) : Prop where
  functions : (info'.map (·.1)).Perm (info.map (·.1))
  marks : ∀ e ∈ info, ∀ e' ∈ info', e'.1 = e.1 →
    e'.2.external = e.2.external ∧ e'.2.doublePointer = e.2.doublePointer
  calls : ∀ e ∈ info, ∀ e' ∈ info', e'.1 = e.1 →
    ∀ g ∈ info.map (·.1), g ∈ e'.2.calls ↔ g ∈ e.2.calls

theorem SameCalls.represents {info' : List (String × NodeInfo)} (hsame : SameCalls info info')
    {nodes : List Node} (h : Represents info' nodes) : Represents info nodes := by
  refine { h with functions := h.functions.trans hsame.functions, marks := ?_, mem_calls_iff := ?_ }
  · intro n hn i hi
    obtain ⟨i', hi'⟩ := h.exists_entry hn
    obtain ⟨hexternal, hpointer⟩ := hsame.marks _ hi _ hi' rfl
    obtain ⟨hexternal', hpointer'⟩ := h.marks n hn i' hi'
    exact ⟨hexternal'.trans hexternal, hpointer'.trans hpointer⟩
  · intro n hn i hi g
    obtain ⟨i', hi'⟩ := h.exists_entry hn
    rw [h.mem_calls_iff n hn i' hi' g, hsame.functions.mem_iff]
    exact and_congr_left fun hg => hsame.calls _ hi _ hi' rfl g hg

/-- In whatever orders maps and sets are gone through, the graph has exactly the given functions,
each with the known functions it calls and those that call it, without repetition and in increasing
order, and callers are exactly the inverse of callees. No other nodes are like this. What is said
about callers, unknown callees and repeated ones changes nothing in the graph. -/
theorem Traversal.nodes_represent (hdistinct : (info.map (·.1)).Nodup) (t : Traversal info) :
    t.nodes = (ofInfo info).nodes ∧
    Represents info t.nodes ∧
    (∀ nodes, Represents info nodes → nodes = t.nodes) ∧
    (∀ info', SameCalls info info' → ofInfo info' = ofInfo info) := by
  have hnodes : t.nodes = nodesOf info := t.nodes_eq_nodesOf hdistinct
  have hrepresents : Represents info (nodesOf info) := represents_nodesOf hdistinct
  refine ⟨hnodes, hnodes ▸ hrepresents, fun nodes h => ?_, fun info' hsame => ?_⟩
  · rw [hnodes]
    exact h.unique hrepresents
  · -- The order of the components is computed from the nodes alone.
    have hdistinct' : (info'.map (·.1)).Nodup := hsame.functions.nodup_iff.mpr hdistinct
    have hnodes' : nodesOf info' = nodesOf info :=
      (hsame.represents (represents_nodesOf hdistinct')).unique hrepresents
    rw [ofInfo, ofInfo, hnodes']

/-- Information with a wrong caller, an unknown callee, a callee named twice and a function that
calls itself. -/
def noisyInfo : List (String × NodeInfo) :=
  [("main", { calls := ["b", "a", "unknown", "b"], calledBy := ["bogus"] }),
    ("b", { calls := ["b"], doublePointer := true }), ("a", { calls := ["b"] })]

/-- The same functions and calls without all that. -/
def tidyInfo : List (String × NodeInfo) :=
  [("a", { calls := ["b"], calledBy := ["main"] }),
    ("b", { calls := ["b"], calledBy := ["a", "b", "main"], doublePointer := true }),
    ("main", { calls := ["a", "b"] })]

/-- Gone through backwards, the one gives the nodes that represent it, and both give one graph. -/
theorem nodes_represent_noisy :
    let nodes : List Node :=
      [⟨"a", ["b"], ["main"], false, false⟩, ⟨"b", ["b"], ["a", "b", "main"], false, true⟩,
        ⟨"main", ["a", "b"], [], false, false⟩]
    (noisyInfo.map (·.1)).Nodup ∧ SameCalls noisyInfo tidyInfo ∧
      (Traversal.backwards noisyInfo).nodes = nodes ∧ Represents noisyInfo nodes ∧
      ofInfo tidyInfo = ofInfo noisyInfo := by
  intro nodes
  have hdistinct : (noisyInfo.map (·.1)).Nodup := by decide
  have hsame : SameCalls noisyInfo tidyInfo := ⟨by decide, by decide, by decide⟩
  obtain ⟨hbuilt, hrepresents, -, hcongr⟩ :=
    (Traversal.backwards noisyInfo).nodes_represent hdistinct
  have hnodes : (Traversal.backwards noisyInfo).nodes = nodes := by
    rw [hbuilt]
    cbv
  exact ⟨hdistinct, hsame, hnodes, hnodes ▸ hrepresents, hcongr tidyInfo hsame⟩

end CallGraph
end FaultChain
