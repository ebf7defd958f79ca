import FaultChain.Chain
import FaultChain.Registry.Index

/-!
# The error registry

The registry collects the errors found by all backend runs of one analysis and rebuilds error chains
from their stack traces.

* `Registry.register`: takes in an error, or drops it and counts why; `Registry.handedBack` is what
  this does to the error itself.
* `Registry.registerFile`: the same for a report file.
* `Registry.toPrepend`: the reports of a callee that are worth offering to a caller.
-/

namespace FaultChain

/-! ## Dropped errors -/

inductive DropReason where
  | malformed
  | emptyStack
  | ordering
  | blacklisted
  | other
  deriving DecidableEq

namespace DropReason

def name : DropReason → String
  | .malformed => "malformed"
  | .emptyStack => "empty_stack"
  | .ordering => "ordering"
  | .blacklisted => "blacklisted"
  | .other => "other"

def ofFailure (f : Failure) : DropReason :=
  match f.root with
  | .malformedArtifact _ => .malformed
  | .emptyStack _ => .emptyStack
  | .unknownSeed _ _ => .ordering
  | .blacklisted _ => .blacklisted
  | _ => .other

def all : List DropReason := [.blacklisted, .emptyStack, .malformed, .ordering, .other]

end DropReason

/-- How many errors were dropped for each reason. -/
structure Drops where
  malformed : Nat := 0
  emptyStack : Nat := 0
  ordering : Nat := 0
  blacklisted : Nat := 0
  other : Nat := 0
  deriving DecidableEq

namespace Drops

def count (d : Drops) : DropReason → Nat
  | .malformed => d.malformed
  | .emptyStack => d.emptyStack
  | .ordering => d.ordering
  | .blacklisted => d.blacklisted
  | .other => d.other

def bump (d : Drops) : DropReason → Drops
  | .malformed => { d with malformed := d.malformed + 1 }
  | .emptyStack => { d with emptyStack := d.emptyStack + 1 }
  | .ordering => { d with ordering := d.ordering + 1 }
  | .blacklisted => { d with blacklisted := d.blacklisted + 1 }
  | .other => { d with other := d.other + 1 }

def total (d : Drops) : Nat :=
  d.malformed + d.emptyStack + d.ordering + d.blacklisted + d.other

def toList (d : Drops) : List (String × Nat) :=
  (DropReason.all.map fun r => (r.name, d.count r)).filter (0 < ·.2)

end Drops

/-! ## The registry -/

/-- All registered errors with their indexes and chains. -/
structure Registry where
  mode : Containment
  functions : FunctionSet
  byReport : List (String × Fault)
  byEntry : Index String
  byLocation : Index String
  byHead : Index Frame
  bySeed : Index String
  order : List Fault
  chains : List Chain
  propagated : Nat
  drops : Drops

namespace Registry

def empty (mode : Containment) (functions : FunctionSet) : Registry :=
  { mode := mode
    functions := functions
    byReport := []
    byEntry := Index.empty
    byLocation := Index.empty
    byHead := Index.empty
    bySeed := Index.empty
    order := []
    chains := []
    propagated := 0
    drops := {} }

/-- The registered error of a report. -/
def lookup (r : Registry) (report : String) : Option Fault := r.byReport.lookup report

/-! ## Chains -/

/-- Adds an error to the oldest matching chain, if there is one. -/
def addToFirst (e : Fault) : List Chain → Option (List Chain)
  | [] => none
  | c :: rest =>
    if c.matches? e then some (c.add e :: rest) else (addToFirst e rest).map (c :: ·)

/-- Pulls the matching ones of some errors into a chain; `seen` are reports already looked at. -/
def pull (acc : Chain × List String) (candidates : List Fault) : Chain × List String :=
  candidates.foldl
    (fun (acc : Chain × List String) e =>
      if acc.2.contains e.report then acc
      else if acc.1.matches? e then (acc.1.add e, e.report :: acc.2)
      else (acc.1, e.report :: acc.2))
    acc

/-- Starts a chain with an error and pulls in every registered error along its trace that
matches. -/
def startChain (r : Registry) (e : Fault) : Chain :=
  let fresh := Chain.start r.chains.length e r.mode
  (e.trace.frames.foldl (fun acc frame => pull acc (r.byHead.get frame)) (fresh, [e.report])).1

/-- The chains once an error is merged into the oldest matching one, or has started its own. -/
def mergedChains (r : Registry) (e : Fault) : List Chain :=
  match addToFirst e r.chains with
  | some chains => chains
  | none => r.chains ++ [r.startChain e]

/-! ## Registration -/

def drop (r : Registry) (f : Failure) : Registry :=
  { r with drops := r.drops.bump (DropReason.ofFailure f) }

/-- What a propagated error takes over from its seed: the faulting location, and the trace in front
of its own. -/
def inherit (seed e : Fault) : Fault :=
  { e with location := seed.location, trace := e.trace.prepend seed.trace }

/-- The error with what it takes over if it is propagated. Its seed has to be registered. -/
def inherited (r : Registry) (e : Fault) : Except Failure Fault :=
  if e.isPropagated then
    match r.lookup e.seed with
    | none => .error (.unknownSeed e.report e.seed)
    | some seed => .ok (inherit seed e)
  else .ok e

/-- Why an error that is not registered yet is dropped, if it is, and the error as its owner finds it
after that. What it takes over stays with it even if it is dropped for its frames. -/
def assess (r : Registry) (e : Fault) : Option Failure × Fault :=
  if e.isBlacklisted then (some (.blacklisted e.report), e)
  else
    match r.inherited e with
    | .error f => (some f, e)
    | .ok e => (if e.trace.frames.isEmpty then some (.emptyStack e.report) else none, e)

/-- The error as it is to be registered, or why it is dropped. -/
def vetted (r : Registry) (e : Fault) : Except Failure Fault :=
  match r.assess e with
  | (some f, _) => .error f
  | (none, e) => .ok e

def index (r : Registry) (e : Fault) : Registry :=
  { r with
    byReport := r.byReport ++ [(e.report, e)]
    byEntry := r.byEntry.add e.entry e
    byLocation := r.byLocation.add e.location e
    byHead :=
      match e.trace.head? with
      | some frame => r.byHead.add frame e
      | none => r.byHead
    bySeed := if e.isPropagated then r.bySeed.add e.seed e else r.bySeed
    order := r.order ++ [e]
    propagated := if e.isPropagated then r.propagated + 1 else r.propagated }

def insert (r : Registry) (e : Fault) : Registry :=
  let r := r.index e
  { r with chains := r.mergedChains e }

/-- Registers an error. A report registered before changes nothing. The answer is the error as it
was registered, or why it was dropped. -/
def register (r : Registry) (e : Fault) : Except Failure Fault × Registry :=
  match r.lookup e.report with
  | some _ => (.ok e, r)
  | none =>
    match r.vetted e with
    | .error f => (.error f, r.drop f)
    | .ok e => (.ok e, r.insert e)

/-- The error as its owner finds it after the request to register it. -/
def handedBack (r : Registry) (e : Fault) : Fault :=
  match r.lookup e.report with
  | some _ => e
  | none => (r.assess e).2

def registerFile (r : Registry) (files : FileTree) (path entry : String) :
    Except Failure Fault × Registry :=
  match Report.read files path entry r.functions with
  | .error f => (.error f, r.drop f)
  | .ok e => r.register e

/-! ## Propagation -/

/-- Whether the trace of an error is contained in that of an error of the caller. -/
def knownTo (r : Registry) (caller : String) (e : Fault) : Bool :=
  (r.byEntry.get caller).any fun other => e.trace.isContainedIn r.mode other.trace

def sorted (names : List String) : List String := names.mergeSort (· ≤ ·)

/-- The reports of a callee that are to be prepended when a caller is analyzed. -/
def toPrepend (r : Registry) (caller callee : String) (excludeKnown : Bool) : List String :=
  let errors := (r.byEntry.get callee).filter fun e => !(excludeKnown && r.knownTo caller e)
  sorted (errors.map (·.report))

end Registry
end FaultChain
