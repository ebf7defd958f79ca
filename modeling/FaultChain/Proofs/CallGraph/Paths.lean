import FaultChain.Proofs.CallGraph.Ranks
import FaultChain.Trace

/-!
# Call paths

A call path leads from an outermost caller to a given function, each function calling the next.

* `CallGraph.CallPath`: call paths, the outermost caller first.
* `CallGraph.pathFrames`: the frames of an error that is passed on along a call path.
* `CallGraph.pathFrames_prefix_iff`: frames begin others exactly if the path ends the other path.
* `CallGraph.CallPath.rank_le`: ranks along a path.
-/

namespace FaultChain
namespace CallGraph

/-- A path of calls to a function, the outermost caller first. -/
inductive CallPath (nodes : List Node) (b : String) : List String → Prop where
  | start : CallPath nodes b [b]
  | caller {f g : String} {p : List String} :
      Calls nodes f g → CallPath nodes b (g :: p) → CallPath nodes b (f :: g :: p)

/-- The frames of an error at `bug` that is passed on along a path: each caller adds a frame with
the location of its call. -/
def pathFrames (bug : Frame) (loc : Call → String) : List String → List Frame
  | f :: g :: p => pathFrames bug loc (g :: p) ++ [⟨f, loc ⟨f, g⟩⟩]
  | _ => [bug]

/-- The outermost caller of a path. -/
def outermost (p : List String) : String := p.headD ""

/-- The trace of an error that is passed on along a path. -/
def pathTrace (bug : Frame) (loc : Call → String) (p : List String) : Trace :=
  { frames := pathFrames bug loc p, entry := outermost p }

variable {nodes : List Node} {b : String} {bug : Frame} {loc : Call → String}

theorem CallPath.cons_outermost {p : List String} (h : CallPath nodes b p) :
    ∃ q, p = outermost p :: q := by
  cases h with
  | start => exact ⟨[], rfl⟩
  | caller => exact ⟨_, rfl⟩

/-! ## Frames of paths -/

theorem CallPath.functions {p : List String} (h : CallPath nodes b p) (hbug : bug.function = b) :
    (pathFrames bug loc p).map (·.function) = p.reverse := by
  induction h with
  | start => simp [pathFrames, hbug]
  | @caller f g p _ _ ih =>
    calc (pathFrames bug loc (f :: g :: p)).map (·.function)
        = (pathFrames bug loc (g :: p)).map (·.function) ++ [f] := by simp [pathFrames]
      _ = (g :: p).reverse ++ [f] := by rw [ih]
      _ = (f :: g :: p).reverse := by simp

/-- The frames tell the path. -/
theorem CallPath.eq_of_pathFrames {p q : List String} (hp : CallPath nodes b p)
    (hq : CallPath nodes b q) (hbug : bug.function = b)
    (h : pathFrames bug loc p = pathFrames bug loc q) : p = q := by
  have hfunctions := congrArg (List.map (·.function)) h
  rw [hp.functions hbug, hq.functions hbug] at hfunctions
  exact List.reverse_injective hfunctions

theorem CallPath.getLast?_pathFrames {p : List String} (h : CallPath nodes b p)
    (hbug : bug.function = b) :
    (pathFrames bug loc p).getLast?.map (·.function) = some (outermost p) := by
  cases h with
  | start => simp [pathFrames, outermost, hbug]
  | caller => simp [pathFrames, outermost]

theorem pathFrames_append_prefix (q : List String) (g : String) (p : List String) :
    pathFrames bug loc (g :: p) <+: pathFrames bug loc (q ++ g :: p) := by
  induction q with
  | nil => exact List.prefix_rfl
  | cons f q ih =>
    -- The next function of the longer path is the first of `q` or of the shorter path.
    have hstep : ∃ g' p', q ++ g :: p = g' :: p' := by
      cases q with
      | nil => exact ⟨g, p, rfl⟩
      | cons g' q => exact ⟨g', _, rfl⟩
    rcases hstep with ⟨g', p', heq⟩
    rw [heq] at ih
    rw [List.cons_append, heq]
    exact ih.trans (List.prefix_append _ _)

/-- Frames begin others exactly if the path ends the other path. -/
theorem CallPath.pathFrames_prefix_iff {p q : List String} (hp : CallPath nodes b p)
    (hq : CallPath nodes b q) (hbug : bug.function = b) :
    pathFrames bug loc p <+: pathFrames bug loc q ↔ p <:+ q := by
  constructor
  · intro h
    have hfunctions := h.map (·.function)
    rw [hp.functions hbug, hq.functions hbug] at hfunctions
    exact List.reverse_prefix.mp hfunctions
  · rintro ⟨q', rfl⟩
    rcases hp.cons_outermost with ⟨p', heq⟩
    rw [heq]
    exact pathFrames_append_prefix q' _ p'

/-- The functions of a path but the outermost one are called. -/
theorem CallPath.exists_caller {q : List String} {g : String} {p : List String}
    (h : CallPath nodes b (q ++ g :: p)) (hq : q ≠ []) : ∃ f, Calls nodes f g := by
  induction q with
  | nil => exact absurd rfl hq
  | cons f q ih =>
    cases q with
    | nil =>
      cases h with
      | caller hcall _ => exact ⟨f, hcall⟩
    | cons f' q =>
      cases h with
      | caller _ hrest => exact ih hrest (by simp)

/-! ## Ranks along paths -/

section

variable {info : List (String × NodeInfo)} {removeMain : Bool}

/-- Ranks do not grow along a path. -/
theorem CallPath.rank_le (hplain : Plain (ofInfo info) removeMain)
    (hacyclic : Acyclic (ofInfo info).nodes) {p : List String}
    (h : CallPath (ofInfo info).nodes b p) :
    ∀ g ∈ p, (ofInfo info).rank removeMain g ≤ (ofInfo info).rank removeMain (outermost p) := by
  induction h with
  | start =>
    intro g hg
    rw [List.mem_singleton.mp hg]
    exact Nat.le_refl _
  | @caller f g p hcall _ ih =>
    intro g' hg'
    rcases List.mem_cons.mp hg' with rfl | hg'
    · exact Nat.le_refl _
    · have hlt := rank_lt_rank hacyclic.onlyLoops
        ((hplain.mem_eligibleCallees_iff hacyclic).mpr hcall)
      exact Nat.le_of_lt (Nat.lt_of_le_of_lt (ih g' hg') hlt)

end

end CallGraph
end FaultChain
