import FaultChain.Proofs.Trace

/-!
# Containment as an order

Strict containment is a strict order on traces. Containment in any other mode is a preorder in which
only traces with the same frames contain each other. The traces contained in a common one all begin
it, so two of them always compare: the order is a forest.

* `Trace.contained_iff_begins`, `Trace.strictly_contained_iff`: containment in terms of frames.
* `Trace.comparable_of_common`: what is contained in a common trace is comparable.
* `Trace.containment_forest`: the laws of all modes.
-/

namespace FaultChain
namespace Trace

variable {mode mode' : Containment} {a b c : Trace}

/-! ## Containment and frames -/

theorem sameFrames_iff : a.sameFrames b = true ↔ a.frames = b.frames := beq_iff_eq

/-- Outside of the strict mode a trace is contained in those that it begins. -/
theorem contained_iff_begins (hmode : mode ≠ .strict) :
    a.isContainedIn mode b = true ↔ a.frames <+: b.frames := by
  rw [isContainedIn_iff]
  constructor
  · exact And.left
  · intro hpre
    exact ⟨hpre, fun hstrict => absurd hstrict hmode⟩

/-- A trace is strictly contained in those that it properly begins. -/
theorem strictly_contained_iff :
    a.isContainedIn .strict b = true ↔ a.frames <+: b.frames ∧ a.frames ≠ b.frames := by
  rw [isContainedIn_iff]
  constructor
  · rintro ⟨hpre, hne⟩
    exact ⟨hpre, hne rfl⟩
  · rintro ⟨hpre, hne⟩
    exact ⟨hpre, fun _ => hne⟩

theorem depth_lt_of_strictly_contained (h : a.isContainedIn .strict b = true) :
    a.depth < b.depth := by
  obtain ⟨hpre, hne⟩ := strictly_contained_iff.mp h
  refine Nat.lt_of_le_of_ne hpre.length_le ?_
  intro hlen
  exact hne (hpre.eq_of_length hlen)

/-! ## The strict order -/

theorem strictly_contained_asymm (h : a.isContainedIn .strict b = true) :
    b.isContainedIn .strict a = false := by
  cases hba : b.isContainedIn .strict a with
  | false => rfl
  | true =>
    have hlt : a.depth < b.depth := depth_lt_of_strictly_contained h
    exact absurd (depth_lt_of_strictly_contained hba) (Nat.lt_asymm hlt)

theorem strictly_contained_irrefl (a : Trace) : a.isContainedIn .strict a = false := by
  cases haa : a.isContainedIn .strict a with
  | false => rfl
  | true => exact absurd rfl (strictly_contained_iff.mp haa).2

theorem strictly_contained_trans (hab : a.isContainedIn .strict b = true)
    (hbc : b.isContainedIn .strict c = true) : a.isContainedIn .strict c = true := by
  have hlt : a.depth < c.depth :=
    Nat.lt_trans (depth_lt_of_strictly_contained hab) (depth_lt_of_strictly_contained hbc)
  refine strictly_contained_iff.mpr
    ⟨(prefix_of_isContainedIn hab).trans (prefix_of_isContainedIn hbc), ?_⟩
  intro heq
  exact Nat.ne_of_lt hlt (congrArg List.length heq)

/-! ## The other modes -/

theorem contained_refl (hmode : mode ≠ .strict) (a : Trace) : a.isContainedIn mode a = true :=
  (contained_iff_begins hmode).mpr List.prefix_rfl

theorem contained_trans (hmode : mode ≠ .strict) (hab : a.isContainedIn mode b = true)
    (hbc : b.isContainedIn mode c = true) : a.isContainedIn mode c = true :=
  (contained_iff_begins hmode).mpr
    ((prefix_of_isContainedIn hab).trans (prefix_of_isContainedIn hbc))

/-- Only traces with the same frames are contained in each other. -/
theorem contained_both_iff (hmode : mode ≠ .strict) :
    a.isContainedIn mode b = true ∧ b.isContainedIn mode a = true ↔ a.sameFrames b = true := by
  rw [contained_iff_begins hmode, contained_iff_begins hmode, sameFrames_iff]
  constructor
  · rintro ⟨hab, hba⟩
    exact hab.eq_of_length_le hba.length_le
  · intro heq
    rw [heq]
    exact ⟨List.prefix_rfl, List.prefix_rfl⟩

/-! ## Common traces -/

/-- Whatever is contained in a common trace begins it. -/
theorem comparable_of_common {common : Trace} (ha : a.isContainedIn mode common = true)
    (hb : b.isContainedIn mode' common = true) : Comparable a.frames b.frames :=
  Comparable.of_prefixes (prefix_of_isContainedIn ha) (prefix_of_isContainedIn hb)

/-- Strict containment is that of a proper prefix; it is irreflexive, asymmetric and transitive. In
any other mode containment is that of a prefix; it is reflexive and transitive, and traces are
contained in each other exactly if they have the same frames. Traces that are contained in a common
one, each in whatever mode, are comparable in every mode but the strict one. -/
theorem containment_forest :
    (∀ a b : Trace, a.isContainedIn .strict b = true ↔
      a.frames <+: b.frames ∧ a.frames ≠ b.frames) ∧
    (∀ a : Trace, a.isContainedIn .strict a = false) ∧
    (∀ a b : Trace, a.isContainedIn .strict b = true → b.isContainedIn .strict a = false) ∧
    (∀ a b c : Trace, a.isContainedIn .strict b = true → b.isContainedIn .strict c = true →
      a.isContainedIn .strict c = true) ∧
    ∀ mode, mode ≠ Containment.strict →
      (∀ a b : Trace, a.isContainedIn mode b = true ↔ a.frames <+: b.frames) ∧
      (∀ a : Trace, a.isContainedIn mode a = true) ∧
      (∀ a b c : Trace, a.isContainedIn mode b = true → b.isContainedIn mode c = true →
        a.isContainedIn mode c = true) ∧
      (∀ a b : Trace, a.isContainedIn mode b = true ∧ b.isContainedIn mode a = true ↔
        a.sameFrames b = true) ∧
      (∀ (m m' : Containment) (a b common : Trace), a.isContainedIn m common = true →
        b.isContainedIn m' common = true →
          a.isContainedIn mode b = true ∨ b.isContainedIn mode a = true) := by
  refine ⟨fun _ _ => strictly_contained_iff, strictly_contained_irrefl,
    fun _ _ => strictly_contained_asymm, fun _ _ _ => strictly_contained_trans, ?_⟩
  intro mode hmode
  refine ⟨fun _ _ => contained_iff_begins hmode, contained_refl hmode,
    fun _ _ _ => contained_trans hmode, fun _ _ => contained_both_iff hmode, ?_⟩
  -- Beginnings of the same frames are comparable; only the strict mode asks for more.
  intro m m' a b common ha hb
  exact contained_of_comparable (comparable_of_common ha hb) fun hstrict => absurd hstrict hmode

end Trace
end FaultChain
