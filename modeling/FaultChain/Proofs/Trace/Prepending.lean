import FaultChain.Proofs.Trace.Containment

/-!
# Prepended traces

The frames of a callee's trace take the place of what the caller's trace has up to the first frame of
the callee. Where a function occurs several times it is the first frame that counts, so what comes
after a trace that reaches the function does not matter. This makes prepending associative along a
chain of callers.

* `Trace.FirstAt`: the frame at which frames come to a function for the first time.
* `Trace.after_append`: further frames behind it are kept.
* `Trace.EndsAtEntry`: traces whose last frame is the first one of their entry function.
* `Trace.prepend_assoc`, `Trace.prepend_prepend_self`: the laws of prepending.
* `Trace.prepend_laws`: the same for all traces, with what a prepended trace consists of.
* `Trace.prepend_climb`: a chain of callers may be put together in segments.
-/

namespace FaultChain
namespace Trace

variable {function : String} {frames below above rest : List Frame} {f : Frame} {x y z : Trace}

/-! ## The first frame of a function -/

/-- Frames that come to a function at a frame for the first time. -/
structure FirstAt (function : String) (frames below : List Frame) (f : Frame)
    (above : List Frame) : Prop where
  split : frames = below ++ f :: above
  called : f.function = function
  fresh : ∀ b ∈ below, b.function ≠ function

theorem exists_firstAt_iff :
    (∃ below f above, FirstAt function frames below f above) ↔
      function ∈ frames.map (·.function) := by
  constructor
  · rintro ⟨below, f, above, hfirst⟩
    have hmem : f ∈ frames := by
      rw [hfirst.split]
      exact List.mem_append_right _ List.mem_cons_self
    exact hfirst.called ▸ List.mem_map_of_mem hmem
  · intro hmem
    induction frames with
    | nil => cases hmem
    | cons g frames ih =>
      -- The first frame is the one, or the first one among those above it is.
      by_cases hg : g.function = function
      · exact ⟨[], g, frames, rfl, hg, by simp⟩
      · have hlater : function ∈ frames.map (·.function) :=
          (List.mem_cons.mp hmem).resolve_left fun heq => hg heq.symm
        obtain ⟨below, f, above, hfirst⟩ := ih hlater
        refine ⟨g :: below, f, above, ?_, hfirst.called, ?_⟩
        · rw [hfirst.split]
          rfl
        · exact List.forall_mem_cons.mpr ⟨hg, hfirst.fresh⟩

theorem FirstAt.append (h : FirstAt function frames below f above) (rest : List Frame) :
    FirstAt function (frames ++ rest) below f (above ++ rest) := by
  refine ⟨?_, h.called, h.fresh⟩
  rw [h.split, List.append_assoc]
  rfl

/-! ## What comes after it -/

theorem FirstAt.after_eq (h : FirstAt function frames below f above) :
    after function frames = above := by
  have hpass : ∀ b ∈ below, (b.function != function) = true := by
    intro b hb
    simpa using h.fresh b hb
  unfold after
  rw [h.split, List.dropWhile_append_of_pos hpass]
  simp [h.called]

theorem after_of_not_mem (h : function ∉ frames.map (·.function)) : after function frames = [] := by
  have hpass : ∀ b ∈ frames, (b.function != function) = true := by
    intro b hb
    have hne : b.function ≠ function := fun heq => h (heq ▸ List.mem_map_of_mem hb)
    simpa using hne
  unfold after
  rw [← List.append_nil frames, List.dropWhile_append_of_pos hpass]
  rfl

/-- Behind frames that come to the function, further ones are simply kept. -/
theorem after_append (h : function ∈ frames.map (·.function)) (rest : List Frame) :
    after function (frames ++ rest) = after function frames ++ rest := by
  obtain ⟨below, f, above, hfirst⟩ := exists_firstAt_iff.mpr h
  rw [(hfirst.append rest).after_eq, hfirst.after_eq]

/-! ## What comes up to it -/

theorem FirstAt.through_eq (h : FirstAt function frames below f above) :
    through function frames = below ++ [f] := by
  obtain ⟨rfl, hcalled, hfresh⟩ := h
  induction below with
  | nil => simp [through, hcalled]
  | cons b below ih =>
    obtain ⟨hb, hbelow⟩ := List.forall_mem_cons.mp hfresh
    simp [through, hb, ih hbelow]

theorem prefix_through (function : String) (frames : List Frame) :
    through function frames <+: frames := by
  induction frames with
  | nil => exact List.prefix_rfl
  | cons f frames ih =>
    unfold through
    split
    · exact ⟨frames, rfl⟩
    · exact (List.prefix_cons_inj f).mpr ih

/-- A trace whose last frame is the first one of its entry function. -/
def EndsAtEntry (t : Trace) : Prop := ∃ below f, FirstAt t.entry t.frames below f []

/-- The trace of a stack ends at its entry function exactly if the stack comes to it. -/
theorem endsAtEntry_ofFrames_iff {entry : String} :
    (ofFrames frames entry).EndsAtEntry ↔ entry ∈ frames.map (·.function) := by
  constructor
  · rintro ⟨below, f, hfirst⟩
    have hmem : entry ∈ (through entry frames).map (·.function) :=
      exists_firstAt_iff.mp ⟨below, f, [], hfirst⟩
    exact List.map_subset _ (prefix_through entry frames).subset hmem
  · intro hmem
    obtain ⟨below, f, above, hfirst⟩ := exists_firstAt_iff.mpr hmem
    exact ⟨below, f, hfirst.through_eq, hfirst.called, hfirst.fresh⟩

/-! ## Prepending -/

/-- What a prepended trace consists of. -/
theorem exists_frames_prepend (x y : Trace) :
    ∃ above, (x.prepend y).frames = y.frames ++ above ∧
      ((∃ below f, FirstAt y.entry x.frames below f above) ∨
        y.entry ∉ x.functions ∧ above = []) := by
  refine ⟨after y.entry x.frames, rfl, ?_⟩
  by_cases hmem : y.entry ∈ x.functions
  · obtain ⟨below, f, above, hfirst⟩ := exists_firstAt_iff.mpr hmem
    exact Or.inl ⟨below, f, hfirst.after_eq.symm ▸ hfirst⟩
  · exact Or.inr ⟨hmem, after_of_not_mem hmem⟩

theorem frames_prefix_prepend (x y : Trace) : y.frames <+: (x.prepend y).frames :=
  List.prefix_append _ _

theorem mem_functions_prepend (x : Trace) (h : function ∈ y.functions) :
    function ∈ (x.prepend y).functions :=
  List.map_subset _ (frames_prefix_prepend x y).subset h

/-- Prepending is associative where the middle trace calls the entry function of the inner one. -/
theorem prepend_assoc (x : Trace) (h : z.entry ∈ y.functions) :
    x.prepend (y.prepend z) = (x.prepend y).prepend z := by
  have hframes : (x.prepend (y.prepend z)).frames = ((x.prepend y).prepend z).frames := by
    calc (x.prepend (y.prepend z)).frames
        = (z.frames ++ after z.entry y.frames) ++ after y.entry x.frames := rfl
      _ = z.frames ++ (after z.entry y.frames ++ after y.entry x.frames) := List.append_assoc ..
      _ = z.frames ++ after z.entry (y.frames ++ after y.entry x.frames) := by
          rw [after_append h]
      _ = ((x.prepend y).prepend z).frames := rfl
  exact congrArg (Trace.mk · x.entry) hframes

/-- A trace that ends at its entry function is prepended once and for all. -/
theorem prepend_prepend_self (x : Trace) (h : y.EndsAtEntry) :
    (x.prepend y).prepend y = x.prepend y := by
  obtain ⟨below, f, hfirst⟩ := h
  have hafter : after y.entry (y.frames ++ after y.entry x.frames) = after y.entry x.frames :=
    (hfirst.append _).after_eq
  have hframes : ((x.prepend y).prepend y).frames = (x.prepend y).frames :=
    congrArg (y.frames ++ ·) hafter
  exact congrArg (Trace.mk · x.entry) hframes

/-- A prepended trace keeps the entry function of the outer trace, and consists of the frames of the
inner one and of what the outer one has after its first frame of the inner entry function, so it
contains the inner trace. Prepending is associative where the middle trace calls the entry function of
the inner one, and a trace that ends at its entry function, as that of every stack which comes to the
function does, is prepended once and for all. -/
theorem prepend_laws :
    (∀ x y : Trace, (x.prepend y).entry = x.entry ∧
      (∃ above, (x.prepend y).frames = y.frames ++ above ∧
        ((∃ below f, FirstAt y.entry x.frames below f above) ∨
          y.entry ∉ x.functions ∧ above = [])) ∧
      ∀ mode, mode ≠ Containment.strict → y.isContainedIn mode (x.prepend y) = true) ∧
    (∀ x y z : Trace, z.entry ∈ y.functions →
      x.prepend (y.prepend z) = (x.prepend y).prepend z) ∧
    (∀ x y : Trace, y.EndsAtEntry → (x.prepend y).prepend y = x.prepend y) ∧
    ∀ (frames : List Frame) (entry : String),
      (ofFrames frames entry).EndsAtEntry ↔ entry ∈ frames.map (·.function) := by
  refine ⟨?_, fun x _ _ => prepend_assoc x, fun x _ => prepend_prepend_self x,
    fun _ _ => endsAtEntry_ofFrames_iff⟩
  -- The inner frames come first, so they begin those of the result.
  intro x y
  refine ⟨rfl, exists_frames_prepend x y, ?_⟩
  intro mode hmode
  exact (contained_iff_begins hmode).mpr (frames_prefix_prepend x y)

/-! ## Chains of callers -/

/-- The trace of a chain of callers, each of them put behind what is there already. -/
def climb (t : Trace) (callers : List Trace) : Trace :=
  callers.foldl (fun inner outer => outer.prepend inner) t

theorem prepend_climb_eq (u : Trace) (callers : List Trace) (h : x.entry ∈ u.functions) :
    (u.climb callers).prepend x = (u.prepend x).climb callers := by
  induction callers generalizing u with
  | nil => rfl
  | cons v callers ih =>
    have hv : x.entry ∈ (v.prepend u).functions := mem_functions_prepend v h
    calc ((v.prepend u).climb callers).prepend x
        = ((v.prepend u).prepend x).climb callers := ih (v.prepend u) hv
      _ = (v.prepend (u.prepend x)).climb callers := by rw [prepend_assoc v h]

/-- A chain may be put together in segments: where a segment calls the entry function of what lies
below it, climbing it on its own and prepending what lies below gives the same as going up caller by
caller. -/
theorem prepend_climb (t u : Trace) (lower upper : List Trace)
    (h : (t.climb lower).entry ∈ u.functions) :
    (u.climb upper).prepend (t.climb lower) = t.climb (lower ++ u :: upper) := by
  rw [prepend_climb_eq u upper h]
  simp [climb]

end Trace
end FaultChain
