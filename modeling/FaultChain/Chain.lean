import FaultChain.Report

/-!
# Error chains

A chain groups errors that describe the same root cause seen from increasingly shallow callers. Its
trace is the longest trace found so far.

* `Chain.start`: a chain with a single error.
* `Chain.matches?`: whether an error belongs to a chain.
* `Chain.add`: a chain with one more error.
-/

namespace FaultChain

/-- Errors whose traces contain each other. -/
structure Chain where
  id : Nat
  /-- The longest trace of the errors found. -/
  trace : Trace
  /-- All errors in the order they were merged. -/
  found : List Fault
  /-- The errors with the longest trace. -/
  heads : List Fault
  mode : Containment

namespace Chain

def start (id : Nat) (e : Fault) (mode : Containment) : Chain :=
  { id := id, trace := e.trace, found := [e], heads := [e], mode := mode }

def depth (c : Chain) : Nat := c.trace.depth

def support (c : Chain) : Nat := c.found.length

/-- Whether the trace of the error contains that of the chain, or the other way round. -/
def matches? (c : Chain) (e : Fault) : Bool :=
  e.trace.isContainedIn c.mode c.trace || c.trace.isContainedIn c.mode e.trace

/-- The chain with one more error; a longer trace takes over. -/
def add (c : Chain) (e : Fault) : Chain :=
  if e.depth = c.depth then
    { c with found := c.found ++ [e], heads := c.heads ++ [e] }
  else if c.depth < e.depth then
    { c with found := c.found ++ [e], trace := e.trace, heads := [e] }
  else { c with found := c.found ++ [e] }

/-- Whether an error would make the chain longer. -/
def growsBy (c : Chain) (e : Fault) : Bool := c.depth < e.depth

def reason (c : Chain) : String := (c.found.head?.map (·.reason)).getD ""

def origin (c : Chain) : String := (c.found.head?.map (·.report)).getD ""

def location (c : Chain) : String := (c.heads.head?.map (·.location)).getD ""

def entry (c : Chain) : String := c.trace.outermost

def programFrames (c : Chain) (fns : FunctionSet) : List Frame :=
  c.trace.frames.filter (fns.contains ·.function)

/-- Number of distinct program functions on the trace. -/
def length (c : Chain) (fns : FunctionSet) : Nat :=
  ((c.programFrames fns).map (·.function)).eraseDups.length

def reports (c : Chain) : List String := c.found.map (·.report)

end Chain
end FaultChain
