/-!
# Paths

Paths are texts with slashes between their components.

* `clean`: the shortest path with the same meaning, without looking at any file.
* `join`: a clean path from non-empty pieces.
* `base`: the last component.
-/

namespace FaultChain
namespace Path

/-- The components of a path between slashes. -/
def components (p : String) : List String :=
  (p.toList.splitOn '/').map String.ofList

def isRooted (p : String) : Bool :=
  p.toList.head? == some '/'

/-- Adds a component to the components so far, the last one first. -/
def push (rooted : Bool) (done : List String) (c : String) : List String :=
  if c == "" || c == "." then done
  else if c == ".." then
    match done with
    | [] => if rooted then [] else [".."]
    | d :: rest => if d == ".." then c :: d :: rest else rest
  else c :: done

/-- The components that remain once dots are resolved. -/
def cleanComponents (p : String) : List String :=
  ((components p).foldl (push (isRooted p)) []).reverse

/-- The shortest path with the same meaning. -/
def clean (p : String) : String :=
  let body := String.intercalate "/" (cleanComponents p)
  if isRooted p then "/" ++ body else if body == "" then "." else body

/-- A clean path from pieces; empty pieces are left out. -/
def join (pieces : List String) : String :=
  match pieces.filter (· != "") with
  | [] => ""
  | ps => clean (String.intercalate "/" ps)

/-- The last component, ignoring slashes at the end. -/
def base (p : String) : String :=
  if p == "" then "."
  else
    match (components p).reverse.dropWhile (· == "") with
    | [] => "/"
    | c :: _ => c

end Path
end FaultChain
