import FaultChain.Failure
import FaultChain.Text.Quoted

/-!
# Stack traces

A trace lists frames from the faulting function outwards. It ends with the frame of its entry
function, or holds the whole stack if the entry function never appears in it.

* `Trace.ofFrames`: the trace of a stack seen from an entry function.
* `Trace.isContainedIn`: containment of traces, strict or inclusive.
* `Trace.prepend`: a caller's trace with the trace of the callee's error put in front.
* `FunctionSet`: the functions of the analyzed program.
-/

namespace FaultChain

/-- One entry of a stack trace. -/
structure Frame where
  function : String
  location : String
  deriving DecidableEq

def Frame.render (f : Frame) : String := f.function ++ "@" ++ f.location

/-! ## Containment modes -/

-- A mode without a name compares inclusively, and is shown as strict.
inductive Containment where
  | strict
  | inclusive
  | unnamed
  deriving DecidableEq

namespace Containment

def name : Containment → String
  | .inclusive => "inclusive"
  | _ => "strict"

/-- Reads the name of a mode in any letter case; no name means strict. -/
def parse (s : String) : Except Failure Containment :=
  let word := Text.lower s
  if word == "" || word == "strict" then .ok .strict
  else if word == "inclusive" then .ok .inclusive
  else .error (.other ("unknown containment mode " ++ Text.quote s))

end Containment

/-! ## Traces -/

/-- Frames from the faulting function outwards, seen from an entry function. -/
structure Trace where
  frames : List Frame
  entry : String
  deriving DecidableEq

namespace Trace

/-- The frames up to and including the first one of `entry`. -/
def through (entry : String) : List Frame → List Frame
  | [] => []
  | f :: rest => if f.function = entry then [f] else f :: through entry rest

/-- The trace of a stack seen from an entry function. -/
def ofFrames (frames : List Frame) (entry : String) : Trace :=
  { frames := through entry frames, entry := entry }

def depth (t : Trace) : Nat := t.frames.length

def head? (t : Trace) : Option Frame := t.frames.head?

def outermost (t : Trace) : String :=
  match t.frames.getLast? with
  | some f => f.function
  | none => ""

def sameFrames (a b : Trace) : Bool := a.frames == b.frames

/-- Whether the frames of `a` begin those of `b`; in strict mode `a` must also be shorter. -/
def isContainedIn (mode : Containment) (a b : Trace) : Bool :=
  match mode with
  | .strict => a.frames.isPrefixOf b.frames && a.frames.length < b.frames.length
  | _ => a.frames.isPrefixOf b.frames

/-- The frames after the first one of `function`. -/
def after (function : String) (frames : List Frame) : List Frame :=
  (frames.dropWhile (·.function != function)).drop 1

/-- Puts the frames of `inner` in place of the frame that calls its entry function and everything
below it. -/
def prepend (outer inner : Trace) : Trace :=
  { frames := inner.frames ++ after inner.entry outer.frames, entry := outer.entry }

def functions (t : Trace) : List String := t.frames.map (·.function)

def render (t : Trace) : String :=
  "[" ++ Text.join " <- " (t.frames.map Frame.render) ++ "]"

end Trace

/-! ## Program functions -/

/-- The functions defined by the analyzed program, as opposed to library functions that show up in
stack traces. -/
structure FunctionSet where
  names : List String

namespace FunctionSet

/-- Whether a function belongs to the program; an empty set contains every function. -/
def contains (s : FunctionSet) (name : String) : Bool :=
  s.names.isEmpty || s.names.contains name

def size (s : FunctionSet) : Nat := s.names.eraseDups.length

end FunctionSet
end FaultChain
