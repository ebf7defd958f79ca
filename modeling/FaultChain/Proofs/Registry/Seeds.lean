import Mathlib.Logic.Relation
import FaultChain.Proofs.Registry.MaximalTraces

/-!
# Seeds of propagated errors

A propagated error is registered after its seed and takes over from it. Seeds therefore lead back, in
the order of registration, to an error that was found by itself: no error can name itself or a later
one, and it does not matter how many propagated errors are in between.

* `Registry.Extends`: what a propagated error has in common with its seed.
* `Registry.SeedsFirst`: every propagated error is behind an error that it extends.
* `Registry.exists_root`: following seeds ends at an error that is not propagated.
* `Registry.serveAll_seeds_lead_back`: the main statement, and what it means for the errors of a
  chain.
-/

namespace FaultChain

theorem Trace.head?_eq_of_prefix {a b : Trace} (h : a.frames <+: b.frames)
    (hne : a.frames ≠ []) : a.head? = b.head? := by
  obtain ⟨rest, hrest⟩ := h
  unfold Trace.head?
  rw [← hrest, List.head?_append_of_ne_nil _ hne]

namespace Registry

open Relation (ReflTransGen)

/-! ## Seeds -/

/-- What a propagated error has in common with its seed. -/
structure Extends (seed e : Fault) : Prop where
  named : seed.report = e.seed
  location : e.location = seed.location
  frames : seed.trace.frames <+: e.trace.frames

/-- Every propagated error is behind an error that it extends. -/
def SeedsFirst (registered : List Fault) : Prop :=
  ∀ before e after, registered = before ++ e :: after → e.isPropagated = true →
    ∃ seed ∈ before, Extends seed e

theorem SeedsFirst.snoc {registered : List Fault} (h : SeedsFirst registered) {e : Fault}
    (hseed : e.isPropagated = true → ∃ seed ∈ registered, Extends seed e) :
    SeedsFirst (registered ++ [e]) := by
  intro before e' after hsplit hp
  rcases List.eq_nil_or_concat after with rfl | ⟨after', last, rfl⟩
  · -- The error is the new one, so everything registered is before it.
    obtain ⟨rfl, hlast⟩ := List.append_inj' hsplit rfl
    cases hlast
    exact hseed hp
  · have hsplit' : registered ++ [e] = (before ++ e' :: after') ++ [last] := by
      rw [hsplit]
      simp
    exact h before e' after' (List.append_inj' hsplit' rfl).1 hp

theorem Accepts.exists_seed {r : Registry} (hix : r.Indexed) {given e : Fault}
    (h : r.Accepts given e) (hp : e.isPropagated = true) : ∃ seed ∈ r.order, Extends seed e := by
  rcases (vetted_cases h.2).2 with ⟨hnot, rfl⟩ | ⟨-, seed, hlookup, rfl⟩
  · rw [hp] at hnot
    cases hnot
  · obtain ⟨hmem, hreport⟩ := (hix.lookup_eq_some_iff _ _).mp hlookup
    exact ⟨seed, hmem, hreport, rfl, List.prefix_append _ _⟩

theorem seedsFirst_serveAll (mode : Containment) (functions : FunctionSet) (qs : List Request) :
    SeedsFirst ((Registry.empty mode functions).serveAll qs).order := by
  suffices h : ((Registry.empty mode functions).serveAll qs).Indexed ∧
      SeedsFirst ((Registry.empty mode functions).serveAll qs).order from h.2
  refine serveAll_induction (P := fun r => r.Indexed ∧ SeedsFirst r.order) ?_ ?_ ?_ qs
  · refine ⟨Indexed.empty mode functions, ?_⟩
    intro before e after hsplit
    cases before <;> cases hsplit
  · rintro r drops ⟨hix, h⟩
    exact ⟨hix.drop drops, h⟩
  · rintro r given e ⟨hix, h⟩ he
    exact ⟨hix.insert he.lookup_eq_none he.frames_ne_nil, h.snoc (he.exists_seed hix)⟩

/-! ## Following seeds -/

/-- The step from a propagated error to the registered error that its seed names. -/
def SeededFrom (r : Registry) (e seed : Fault) : Prop :=
  e.isPropagated = true ∧ r.lookup e.seed = some seed

theorem seededFrom_rightUnique (r : Registry) : Relator.RightUnique r.SeededFrom := by
  intro e seed seed' h h'
  exact Option.some.inj (h.2.symm.trans h'.2)

/-- Following seeds ends at an error that is not propagated, which the first one extends. -/
theorem exists_root {r : Registry} (hix : r.Indexed) (hseeds : SeedsFirst r.order) {e : Fault}
    (he : e ∈ r.order) :
    ∃ root ∈ r.order, root.isPropagated = false ∧ ReflTransGen r.SeededFrom e root ∧
      e.location = root.location ∧ root.trace.frames <+: e.trace.frames := by
  obtain ⟨before, after, hsplit⟩ := List.append_of_mem he
  -- Every step leads to an error with fewer errors before it.
  induction hn : before.length using Nat.strongRecOn generalizing e before after with
  | ind n ih =>
    cases hp : e.isPropagated with
    | false => exact ⟨e, he, hp, .refl, rfl, List.prefix_rfl⟩
    | true =>
      obtain ⟨seed, hseed, hext⟩ := hseeds before e after hsplit hp
      obtain ⟨before', between, rfl⟩ := List.append_of_mem hseed
      have hsplit' : r.order = before' ++ seed :: (between ++ e :: after) := by
        rw [hsplit]
        simp
      have hmem : seed ∈ r.order := by simp [hsplit']
      have hlt : before'.length < n := by
        rw [← hn]
        simp
      obtain ⟨root, hroot, hfound, hsteps, hlocation, hframes⟩ :=
        ih _ hlt hmem before' _ hsplit' rfl
      have hstep : r.SeededFrom e seed :=
        ⟨hp, (hix.lookup_eq_some_iff _ _).mpr ⟨hmem, hext.named⟩⟩
      exact ⟨root, hroot, hfound, hsteps.head hstep, hext.location.trans hlocation,
        hframes.trans hext.frames⟩

/-- Wherever one stands on the way along seeds, the way ends at the same error. -/
theorem seeds_end_at {r : Registry} {e root e' : Fault} (hroot : root.isPropagated = false)
    (h : ReflTransGen r.SeededFrom e root) (h' : ReflTransGen r.SeededFrom e e') :
    ReflTransGen r.SeededFrom e' root := by
  rcases ReflTransGen.total_of_right_unique (seededFrom_rightUnique r) h' h with hon | hpast
  · exact hon
  · rcases ReflTransGen.cases_head hpast with rfl | ⟨seed, hstep, -⟩
    · exact .refl
    · have hp := hstep.1
      rw [hroot] at hp
      cases hp

/-! ## Locations of chains -/

/-- Errors that are not propagated have the same location if their first frames are the same. -/
def HeadsLocate (r : Registry) : Prop :=
  ∀ e ∈ r.order, ∀ e' ∈ r.order, e.isPropagated = false → e'.isPropagated = false →
    e.trace.head? = e'.trace.head? → e.location = e'.location

/-- The errors of a chain lead back to errors with the first frame of the chain. -/
theorem exists_root_of_found {r : Registry} (hix : r.Indexed) (hseeds : SeedsFirst r.order)
    {c : Chain} (hc : c.Sound r.order) {e : Fault} (he : e ∈ c.found) :
    ∃ root ∈ r.order, root.isPropagated = false ∧ root.trace.head? = c.trace.head? ∧
      e.location = root.location := by
  obtain ⟨root, hroot, hfound, -, hlocation, hframes⟩ :=
    exists_root hix hseeds (hc.found_subset e he)
  have hbegins := hframes.trans (hc.found_begins e he)
  exact ⟨root, hroot, hfound, Trace.head?_eq_of_prefix hbegins (hix.frames_ne_nil root hroot),
    hlocation⟩

theorem location_eq_of_found {r : Registry} (hix : r.Indexed) (hseeds : SeedsFirst r.order)
    (hheads : r.HeadsLocate) {c : Chain} (hc : c.Sound r.order) {e e' : Fault}
    (he : e ∈ c.found) (he' : e' ∈ c.found) : e.location = e'.location := by
  obtain ⟨root, hroot, hfound, hhead, hlocation⟩ := exists_root_of_found hix hseeds hc he
  obtain ⟨root', hroot', hfound', hhead', hlocation'⟩ := exists_root_of_found hix hseeds hc he'
  calc e.location = root.location := hlocation
    _ = root'.location :=
      hheads root hroot root' hroot' hfound hfound' (hhead.trans hhead'.symm)
    _ = e'.location := hlocation'.symm

/-- After any requests the seed of a propagated error is registered before it, at the same location
and with frames that begin its own. Following seeds from any error ends at one that is not
propagated, of which the same holds. Where the first frames of such errors determine their
locations, all errors of a chain have the same location. -/
theorem serveAll_seeds_lead_back (mode : Containment) (functions : FunctionSet)
    (qs : List Request) :
    let r := (Registry.empty mode functions).serveAll qs
    (∀ before e after, r.order = before ++ e :: after → e.isPropagated = true →
      ∃ seed ∈ before, r.lookup e.seed = some seed ∧ e.location = seed.location ∧
        seed.trace.frames <+: e.trace.frames) ∧
    (∀ e ∈ r.order, ∃ root ∈ r.order, root.isPropagated = false ∧
      (∀ e', ReflTransGen r.SeededFrom e e' → ReflTransGen r.SeededFrom e' root) ∧
      e.location = root.location ∧ root.trace.frames <+: e.trace.frames) ∧
    (r.HeadsLocate → ∀ c ∈ r.chains, ∀ e ∈ c.found, ∀ e' ∈ c.found, e.location = e'.location) := by
  intro r
  have hix : r.Indexed := indexed_serveAll mode functions qs
  have hseeds : SeedsFirst r.order := seedsFirst_serveAll mode functions qs
  have hchains : r.ChainsSound := chainsSound_serveAll mode functions qs
  refine ⟨?_, ?_, ?_⟩
  · intro before e after hsplit hp
    obtain ⟨seed, hseed, hext⟩ := hseeds before e after hsplit hp
    have hmem : seed ∈ r.order := by simp [hsplit, hseed]
    exact ⟨seed, hseed, (hix.lookup_eq_some_iff _ _).mpr ⟨hmem, hext.named⟩, hext.location,
      hext.frames⟩
  -- Seeds are registered before, so the way back from an error ends.
  · intro e he
    obtain ⟨root, hroot, hfound, hsteps, hlocation, hframes⟩ := exists_root hix hseeds he
    exact ⟨root, hroot, hfound, fun e' he' => seeds_end_at hfound hsteps he', hlocation, hframes⟩
  · intro hheads c hc e he e' he'
    exact location_eq_of_found hix hseeds hheads (hchains.sound c hc) he he'

theorem serveAll_seeds_lead_back_caller :
    let r := (Registry.empty .strict ⟨[]⟩).serveAll
      [.register leafFault, .register callerFault, .register otherFault]
    r.HeadsLocate ∧ r.order.length = 3 ∧
      ∀ c ∈ r.chains, ∀ e ∈ c.found, ∀ e' ∈ c.found, e.location = e'.location := by
  intro r
  have hheads : r.HeadsLocate := by
    unfold HeadsLocate
    decide +kernel
  exact ⟨hheads, by decide +kernel, (serveAll_seeds_lead_back .strict ⟨[]⟩ _).2.2 hheads⟩

end Registry
end FaultChain
