import FaultChain.Json.Basic
import FaultChain.Number.Binary64
import FaultChain.Registry.Basic

/-!
# Views of the registry

What the registry says about the errors and chains found.

* `Registry.functionsWithErrors`, `locationsFor`: sorted names.
* `Registry.chainsByLocation`: chains grouped by faulting location, longest first.
* `Registry.stats`: numbers about the lengths of the chains.
* `Registry.chainRecords`: the chains as they are stored, longest first.
-/

namespace FaultChain
namespace Registry

def errorsFor (r : Registry) (function : String) : List Fault := r.byEntry.get function

def propagatedFrom (r : Registry) (report : String) : List Fault := r.bySeed.get report

def functionsWithErrors (r : Registry) : List String := sorted r.byEntry.keys

/-- The distinct faulting locations of the errors found from a function, sorted. -/
def locationsFor (r : Registry) (function : String) : List String :=
  sorted ((r.errorsFor function).map (·.location)).eraseDups

/-! ## Chains -/

/-- Longest chains first; chains of equal depth keep their order. -/
def longestFirst (chains : List Chain) : List Chain :=
  chains.mergeSort fun a b => b.depth ≤ a.depth

/-- The chains of every faulting location, longest first. -/
def chainsByLocation (r : Registry) : List (String × List Chain) :=
  let locations := sorted (r.chains.map (·.location)).eraseDups
  locations.map fun loc => (loc, longestFirst (r.chains.filter (·.location == loc)))

/-- Numbers about the chains, whose length is the number of distinct program functions. -/
structure ChainStats where
  count : Nat
  longerThanOne : Nat
  minLength : Nat
  maxLength : Nat
  avgLength : Binary64
  fromMain : Nat

def mainFunction : String := "main"

/-- Numbers about the chains. -/
def stats (r : Registry) : ChainStats :=
  let lengths := r.chains.map (·.length r.functions)
  { count := r.chains.length
    longerThanOne := (lengths.filter (1 < ·)).length
    minLength := lengths.min?.getD 0
    maxLength := lengths.max?.getD 0
    avgLength :=
      if lengths.isEmpty then Binary64.ofNat 0
      else Binary64.ofRatio false (lengths.foldl (· + ·) 0) lengths.length
    fromMain := (r.chains.filter (·.entry == mainFunction)).length }

/-- A chain as it is stored. Lists that were never filled are absent. -/
structure ChainRecord where
  id : Int
  location : String
  reason : String
  length : Int
  depth : Int
  trace : Option (List String)
  programTrace : Option (List String)
  reports : Option (List String)
  support : Int

def ChainRecord.toJson (c : ChainRecord) : Json :=
  .obj [("id", .int c.id), ("vulnerable-instruction", .str c.location), ("reason", .str c.reason),
    ("length", .int c.length), ("depth", .int c.depth), ("trace", .maybeStrings c.trace),
    ("program-trace", .maybeStrings c.programTrace), ("error-files", .maybeStrings c.reports),
    ("support", .int c.support)]

def nonEmpty? {α : Type} (xs : List α) : Option (List α) :=
  if xs.isEmpty then none else some xs

def chainRecords (r : Registry) (fns : FunctionSet) : List ChainRecord :=
  (longestFirst r.chains).map fun c =>
    { id := c.id
      location := c.location
      reason := c.reason
      length := c.length fns
      depth := c.depth
      trace := some c.trace.functions
      programTrace := nonEmpty? ((c.programFrames fns).map Frame.render)
      reports := some c.reports
      support := c.support }

end Registry
end FaultChain
