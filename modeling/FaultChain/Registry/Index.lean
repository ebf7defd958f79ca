import FaultChain.Report

/-!
# Indexes of errors

An index keeps errors in buckets, one per key, in the order they were added.

* `Index.add`, `Index.get`: adding to a bucket and looking at it.
* `Index.keys`: the keys in the order of their first use.
-/

namespace FaultChain

/-- Errors in buckets by key. -/
structure Index (κ : Type) where
  buckets : List (κ × List Fault)

namespace Index

variable {κ : Type} [DecidableEq κ]

def empty : Index κ := ⟨[]⟩

def addTo (k : κ) (e : Fault) : List (κ × List Fault) → List (κ × List Fault)
  | [] => [(k, [e])]
  | (k', es) :: rest => if k' = k then (k', es ++ [e]) :: rest else (k', es) :: addTo k e rest

def add (ix : Index κ) (k : κ) (e : Fault) : Index κ := ⟨addTo k e ix.buckets⟩

def get (ix : Index κ) (k : κ) : List Fault := (ix.buckets.lookup k).getD []

def keys (ix : Index κ) : List κ := ix.buckets.map (·.1)

def size (ix : Index κ) : Nat := ix.buckets.length

end Index
end FaultChain
