import FaultChain.CallGraph.Basic

/-!
# Strongly connected components

Two functions belong to the same component when each reaches the other through calls. Here components
are read off what functions reach, which says what they are but looks at every pair of functions.

* `CallGraph.reach`: the functions that a function reaches.
* `CallGraph.components`: all components, each after the ones it can reach.
-/

namespace FaultChain
namespace CallGraph

def unvisited (nodes : List Node) (visited : List String) : List Node :=
  nodes.filter fun n => !visited.contains n.name

theorem length_unvisited_le (nodes : List Node) (visited : List String) (name : String) :
    (unvisited nodes (name :: visited)).length ≤ (unvisited nodes visited).length := by
  unfold unvisited
  rw [← List.countP_eq_length_filter, ← List.countP_eq_length_filter]
  apply List.countP_mono_left
  intro n _ h
  simp_all

/-- Marking a node as visited leaves fewer nodes unvisited. -/
theorem length_unvisited_lt {nodes : List Node} {visited : List String} {name : String} {n : Node}
    (hn : find? nodes name = some n) (hv : visited.contains name = false) :
    (unvisited nodes (name :: visited)).length < (unvisited nodes visited).length := by
  induction nodes with
  | nil => simp [find?] at hn
  | cons m rest ih =>
    have le := length_unvisited_le rest visited name
    unfold unvisited at le ih ⊢
    by_cases h : m.name = name
    · subst h
      have h3 : (m.name :: visited).contains m.name = true := by simp
      rw [List.filter_cons_of_neg (by rw [h3]; decide), List.filter_cons_of_pos (by rw [hv]; decide),
        List.length_cons]
      exact Nat.lt_succ_of_le le
    · have hr : find? rest name = some n := by
        simpa [find?, List.find?_cons, h] using hn
      have lt := ih hr
      have h3 : (name :: visited).contains m.name = visited.contains m.name := by simp [h]
      cases h2 : visited.contains m.name with
      | true =>
        rw [List.filter_cons_of_neg (by rw [h3, h2]; decide),
          List.filter_cons_of_neg (by rw [h2]; decide)]
        exact lt
      | false =>
        rw [List.filter_cons_of_pos (by rw [h3, h2]; decide),
          List.filter_cons_of_pos (by rw [h2]; decide), List.length_cons, List.length_cons]
        exact Nat.succ_lt_succ lt

/-- Visits everything that can be reached from the functions in `todo`. -/
def explore (nodes : List Node) (todo visited : List String) : List String :=
  match todo with
  | [] => visited
  | name :: rest =>
    if _hv : visited.contains name then explore nodes rest visited
    else
      match _hn : find? nodes name with
      | none => explore nodes rest visited
      | some n => explore nodes (n.calls ++ rest) (name :: visited)
termination_by ((unvisited nodes visited).length, todo.length)
decreasing_by
  · exact Prod.Lex.right _ (by simp)
  · exact Prod.Lex.right _ (by simp)
  · exact Prod.Lex.left _ _ (length_unvisited_lt (by assumption) (by simp_all))

/-- The functions that a function reaches through calls, itself included. -/
def reach (nodes : List Node) (name : String) : List String :=
  explore nodes [name] []

def reachTable (nodes : List Node) : List (String × List String) :=
  nodes.map fun n => (n.name, reach nodes n.name)

def reaches (table : List (String × List String)) (a b : String) : Bool :=
  ((table.lookup a).getD []).contains b

/-- The functions of a component, in increasing order: all that reach and are reached. -/
def componentOf (table : List (String × List String)) (name : String) : List String :=
  (table.filter fun (other, reached) => reaches table name other && reached.contains name).map (·.1)

/-- All components. A component that reaches another one has more functions in reach and comes
after it; otherwise they are in the order of their first names. -/
def components (nodes : List Node) : List (List String) :=
  let table := reachTable nodes
  let weigh (name : String) : Nat := ((table.lookup name).getD []).length
  let found := (table.map fun (name, _) => (weigh name, componentOf table name)).filter
    fun (_, members) => !members.isEmpty
  let distinct := (found.map (·.2)).eraseDups
  let weight (members : List String) : Nat := (members.head?.map weigh).getD 0
  distinct.mergeSort fun a b => weight a ≤ weight b

end CallGraph
end FaultChain
