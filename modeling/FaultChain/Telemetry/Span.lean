import FaultChain.Failure

/-!
# Spans

A span records one activity of a campaign for tracing: its attributes, whether it failed and how many
events it had.
-/

namespace FaultChain

structure Span where
  name : String
  attributes : List (String × String) := []
  /-- Why the activity failed, or empty. -/
  status : String := ""
  events : Nat := 0
  deriving DecidableEq

namespace Span

def failing (s : Span) : Option Failure → Span
  | none => s
  | some why => { s with status := why.message, events := s.events + 1 }

def interrupted (s : Span) : Span := { s with events := s.events + 1 }

end Span
end FaultChain
