import FaultChain.Fuzz.PlotData
import FaultChain.Symbolic.Coverage

/-!
# Progress of a session

What the runs of a session have reached so far. A run progresses only if it gets beyond everything
before it: a symbolic run if it makes the number of covered lines grow, a fuzzing run if it ends
with more paths.

* `Progress.symbolic`: new source lines.
* `Progress.fuzz`: more paths.
-/

namespace FaultChain

structure Progress where
  /-- The covered lines of every source file, each line once. -/
  lines : List (String × List Int) := []
  /-- The largest number of paths. -/
  paths : Int := 0

namespace Progress

/-- Adds lines to those seen before, each once. -/
def mergeLines (seen new : List Int) : List Int := new.foldl (fun seen l => seen.insert l) seen

def mergeFile (lines : List (String × List Int)) (f : FileCoverage) : List (String × List Int) :=
  match lines with
  | [] => [(f.file, mergeLines [] f.covered)]
  | (file, seen) :: rest =>
    if file = f.file then (file, mergeLines seen f.covered) :: rest
    else (file, seen) :: mergeFile rest f

/-- Adds the covered lines of all source files of a report on coverage. -/
def merge (lines : List (String × List Int)) (c : Coverage) : List (String × List Int) :=
  c.files.foldl mergeFile lines

def count (lines : List (String × List Int)) : Nat :=
  lines.foldl (fun n entry => n + entry.2.length) 0

/-- Adds the lines a symbolic run covered, and says whether there are more than before. There are
not if its coverage cannot be read. -/
def symbolic (p : Progress) (files : FileTree) (outDir : String) : Bool × Progress :=
  match Coverage.read files (Path.join [outDir, "run.istats"]) with
  | .error _ => (false, p)
  | .ok c =>
    let merged := merge p.lines c
    (count p.lines < count merged, { p with lines := merged })

/-- Adds the paths a fuzzing run found, and says whether there are more than before. There are not
if its records cannot be read. -/
def fuzz (p : Progress) (files : FileTree) (outDir : String) : Bool × Progress :=
  let d := PlotData.read files (Path.join [outDir, "plot_data"])
  match d.failure, d.rows.getLast? with
  | none, some row =>
    if row.pathsTotal ≤ p.paths then (false, p) else (true, { p with paths := row.pathsTotal })
  | _, _ => (false, p)

end Progress
end FaultChain
