import FaultChain.CallGraph.Components

/-!
# Components by depth-first search

A single depth-first search finds all strongly connected components. Functions are numbered as they
are visited and wait on a stack until their component is complete, which is when the search leaves a
function from which nothing with a smaller number on the stack was found to be in reach.

* `Visit`, `Search`: a function under visit, and how far a search has come.
* `Search.step`: looks at the next call of the innermost function under visit, or leaves it.
* `stronglyConnected`: all components, in the order in which they are completed.
-/

namespace FaultChain
namespace CallGraph

structure Visit where
  name : String
  number : Nat
  /-- The least number on the stack that is known to be in reach. -/
  low : Nat
  calls : List String

/-- The visit of a function that turns out to reach a number. -/
def Visit.lower (v : Visit) (n : Nat) : Visit := { v with low := min v.low n }

structure Search where
  visited : List String := []
  /-- Those without a component and their numbers, the latest one first. -/
  stack : List (String × Nat) := []
  /-- The functions under visit, the innermost one first. -/
  path : List Visit := []
  found : List (List String) := []

namespace Search

def enter (nodes : List Node) (s : Search) (name : String) : Search :=
  let number := s.visited.length
  { s with
    visited := name :: s.visited
    stack := (name, number) :: s.stack
    path := { name := name, number := number, low := number, calls := callsIn nodes name } :: s.path }

def look (nodes : List Node) (s : Search) (v : Visit) (outer : List Visit) (callee : String) :
    Search :=
  if s.visited.contains callee then
    match s.stack.lookup callee with
    | some n => { s with path := v.lower n :: outer }
    | none => { s with path := v :: outer }
  else
    match find? nodes callee with
    | some _ => { s with path := v :: outer }.enter nodes callee
    | none => { s with path := v :: outer }

/-- Takes the stack down to a function as a component. -/
def complete (s : Search) (root : String) : Search :=
  let members := (s.stack.takeWhile (·.1 != root)).map (·.1) ++ [root]
  { s with
    stack := (s.stack.dropWhile (·.1 != root)).drop 1
    found := s.found ++ [members.mergeSort (· ≤ ·)] }

/-- Leaves the innermost function under visit; what it reaches, its caller reaches. -/
def leave (s : Search) (v : Visit) (outer : List Visit) : Search :=
  let s := { s with path := outer.modifyHead (·.lower v.low) }
  if v.low = v.number then s.complete v.name else s

/-- Looks at the next call of the innermost function under visit, or leaves it. -/
def step (nodes : List Node) (s : Search) : Search :=
  match s.path with
  | [] => s
  | v :: outer =>
    match v.calls with
    | [] => s.leave v outer
    | callee :: calls => s.look nodes { v with calls := calls } outer callee

/-- Number of steps before the functions under visit are left if no further one is visited. -/
def pending : List Visit → Nat
  | [] => 0
  | v :: path => v.calls.length + 1 + pending path

theorem pending_modifyHead_lower (path : List Visit) (n : Nat) :
    pending (path.modifyHead (·.lower n)) = pending path := by
  cases path with
  | nil => rfl
  | cons v path => simp [pending, Visit.lower]

/-- A step visits a new function or gets closer to leaving those under visit. -/
theorem step_lt (nodes : List Node) {s : Search} (h : s.path ≠ []) :
    Prod.Lex (· < ·) (· < ·)
      ((unvisited nodes (s.step nodes).visited).length, pending (s.step nodes).path)
      ((unvisited nodes s.visited).length, pending s.path) := by
  obtain ⟨v, outer, hpath⟩ := List.exists_cons_of_ne_nil h
  cases hcalls : v.calls with
  | nil =>
    have hvisited : (s.leave v outer).visited = s.visited := by
      unfold leave
      split <;> rfl
    have hpending : pending (s.leave v outer).path = pending outer := by
      have hleft : (s.leave v outer).path = outer.modifyHead (·.lower v.low) := by
        unfold leave
        split <;> rfl
      rw [hleft, pending_modifyHead_lower]
    simp only [step, hpath, hcalls, hvisited, hpending, pending]
    exact .right _ (by omega)
  | cons callee calls =>
    simp only [step, hpath, hcalls, pending, List.length_cons]
    unfold look
    split
    · split
      · exact .right _ (by simp [pending, Visit.lower])
      · exact .right _ (by simp [pending])
    · rename_i hnew
      split
      · rename_i n hn
        exact .left _ _ (length_unvisited_lt hn (by simpa using hnew))
      · exact .right _ (by simp [pending])

/-- Goes on until all functions under visit are left. -/
def run (nodes : List Node) (s : Search) : Search :=
  if _h : s.path = [] then s else run nodes (s.step nodes)
termination_by ((unvisited nodes s.visited).length, pending s.path)
decreasing_by exact step_lt nodes (by assumption)

/-- Visits a function and all it reaches, unless it was visited before. -/
def visit (nodes : List Node) (s : Search) (name : String) : Search :=
  if s.visited.contains name then s else run nodes (s.enter nodes name)

end Search

/-- All strongly connected components, in the order in which they are completed. -/
def stronglyConnected (nodes : List Node) : List (List String) :=
  (nodes.foldl (fun s n => s.visit nodes n.name) ({} : Search)).found

end CallGraph
end FaultChain
