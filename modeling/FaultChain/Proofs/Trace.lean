import FaultChain.Trace

/-!
# Containment of traces

Containment is the prefix relation on frames; strict containment also asks for different frames.

* `Trace.prefix_of_isContainedIn`, `Trace.isContainedIn_iff`: containment as a prefix.
* `Trace.Comparable`: one of two lists of frames begins the other.
-/

namespace FaultChain
namespace Trace

variable {mode : Containment} {a b : Trace}

/-! ## Containment -/

theorem prefix_of_isContainedIn (h : a.isContainedIn mode b = true) : a.frames <+: b.frames := by
  cases mode with
  | strict =>
    have hboth : a.frames.isPrefixOf b.frames = true ∧ a.frames.length < b.frames.length := by
      simpa [isContainedIn] using h
    exact List.isPrefixOf_iff_prefix.mp hboth.1
  | inclusive => exact List.isPrefixOf_iff_prefix.mp h
  | unnamed => exact List.isPrefixOf_iff_prefix.mp h

/-- Only the strict mode tells equal frames apart from a proper prefix. -/
theorem isContainedIn_iff :
    a.isContainedIn mode b = true ↔
      a.frames <+: b.frames ∧ (mode = .strict → a.frames ≠ b.frames) := by
  constructor
  · intro h
    refine ⟨prefix_of_isContainedIn h, ?_⟩
    rintro rfl heq
    -- A proper prefix is shorter, which is what the strict mode looks at.
    have hlt : a.frames.length < b.frames.length := by
      have hboth : a.frames.isPrefixOf b.frames = true ∧ a.frames.length < b.frames.length := by
        simpa [isContainedIn] using h
      exact hboth.2
    rw [heq] at hlt
    exact Nat.lt_irrefl _ hlt
  · rintro ⟨hpre, hne⟩
    have hbool : a.frames.isPrefixOf b.frames = true := List.isPrefixOf_iff_prefix.mpr hpre
    cases mode with
    | strict =>
      have hlt : a.frames.length < b.frames.length := by
        refine Nat.lt_of_le_of_ne hpre.length_le ?_
        intro hlen
        exact hne rfl (hpre.eq_of_length hlen)
      simp [isContainedIn, hbool, hlt]
    | inclusive => exact hbool
    | unnamed => exact hbool

/-! ## Comparable frames -/

/-- One of two lists of frames begins the other. -/
def Comparable (s t : List Frame) : Prop := s <+: t ∨ t <+: s

theorem Comparable.symm {s t : List Frame} (h : Comparable s t) : Comparable t s := Or.symm h

/-- Two beginnings of the same frames are comparable. -/
theorem Comparable.of_prefixes {s t u : List Frame} (hs : s <+: u) (ht : t <+: u) :
    Comparable s t :=
  List.prefix_or_prefix_of_prefix hs ht

theorem comparable_of_contained
    (h : a.isContainedIn mode b = true ∨ b.isContainedIn mode a = true) :
    Comparable a.frames b.frames := by
  rcases h with h | h
  · exact Or.inl (prefix_of_isContainedIn h)
  · exact Or.inr (prefix_of_isContainedIn h)

/-- Outside of the strict mode, and for different frames, comparable frames are contained in each
other. -/
theorem contained_of_comparable (h : Comparable a.frames b.frames)
    (hne : mode = .strict → a.frames ≠ b.frames) :
    a.isContainedIn mode b = true ∨ b.isContainedIn mode a = true := by
  rcases h with h | h
  · exact Or.inl (isContainedIn_iff.mpr ⟨h, hne⟩)
  · exact Or.inr (isContainedIn_iff.mpr ⟨h, fun hm heq => hne hm heq.symm⟩)

end Trace
end FaultChain
