import FaultChain.Proofs.Registry.Accounting
import FaultChain.Proofs.Registry.MaximalTraces

/-!
# Errors without frames

An error without frames is dropped, unless it takes over the frames of a registered seed before it
is looked at whether it has any. Such an error is registered with the frames of its seed, although
it tells nothing about how its own function leads there.

* `Registry.Seeded`: an error takes over from a registered seed.
* `Registry.dropsFrameless`: why an error without frames is dropped otherwise.
* `Registry.register_of_seeded`, `Registry.register_of_not_seeded`: the two cases.
* `Registry.register_frameless_iff`: the main statement.
-/

namespace FaultChain
namespace Registry

variable {r : Registry} {e seed : Fault}

/-! ## Taking over from a seed -/

/-- An error is propagated from a registered seed, and its reason does not rule it out. -/
structure Seeded (r : Registry) (e seed : Fault) : Prop where
  allowed : e.isBlacklisted = false
  propagated : e.isPropagated = true
  known : r.lookup e.seed = some seed

theorem Seeded.frames_ne_nil (hix : r.Indexed) (h : r.Seeded e seed) : seed.trace.frames ≠ [] :=
  hix.frames_ne_nil seed ((hix.lookup_eq_some_iff _ _).mp h.known).1

/-- Nothing of an error without frames is behind the frames of its seed. -/
theorem frames_inherit_of_frameless (hframes : e.trace.frames = []) :
    (inherit seed e).trace.frames = seed.trace.frames := by
  have hnone : Trace.after seed.trace.entry [] = [] := rfl
  simp [inherit, Trace.prepend, hframes, hnone]

/-- The frames of a registered seed are enough for an error without frames to be registered. -/
theorem register_of_seeded (hix : r.Indexed) (hnew : r.lookup e.report = none)
    (hframes : e.trace.frames = []) (h : r.Seeded e seed) :
    r.register e = (.ok (inherit seed e), r.insert (inherit seed e)) := by
  -- What is looked at are the frames of the seed, which was registered and so has some.
  have hne : (inherit seed e).trace.frames ≠ [] := by
    rw [frames_inherit_of_frameless hframes]
    exact h.frames_ne_nil hix
  have hvetted : r.vetted e = .ok (inherit seed e) := by
    simp [vetted, assess, inherited, h.allowed, h.propagated, h.known, hne]
  simp [register, hnew, hvetted]

/-! ## Being dropped -/

/-- Why an error without frames is dropped if there is no seed to take over from. -/
def dropsFrameless (e : Fault) : Failure :=
  if e.isBlacklisted then .blacklisted e.report
  else if e.isPropagated then .unknownSeed e.report e.seed
  else .emptyStack e.report

theorem register_of_not_seeded (hnew : r.lookup e.report = none) (hframes : e.trace.frames = [])
    (h : ¬ ∃ seed, r.Seeded e seed) :
    r.register e = (.error (dropsFrameless e), r.drop (dropsFrameless e)) := by
  -- The cases are the tests in the order they are made.
  have hvetted : r.vetted e = .error (dropsFrameless e) := by
    cases hblack : e.isBlacklisted with
    | true => simp [vetted, assess, dropsFrameless, hblack]
    | false =>
      cases hp : e.isPropagated with
      | false => simp [vetted, assess, inherited, dropsFrameless, hblack, hp, hframes]
      | true =>
        cases hseed : r.lookup e.seed with
        | none => simp [vetted, assess, inherited, dropsFrameless, hblack, hp, hseed]
        | some seed => exact absurd ⟨seed, hblack, hp, hseed⟩ h
  simp [register, hnew, hvetted]

/-- After any requests an error without frames whose report is not registered is registered if and
only if it takes over from a registered seed. Otherwise it is dropped for its reason, because its
seed is not registered, or for its frames, which counts once and changes nothing else. If it is
registered, it is so behind all others, with the location and exactly the frames of the seed. -/
theorem register_frameless_iff (mode : Containment) (functions : FunctionSet)
    (qs : List Request) (e : Fault) :
    let r := (Registry.empty mode functions).serveAll qs
    e.trace.frames = [] → r.lookup e.report = none →
    ((∃ e', (r.register e).1 = .ok e') ↔ ∃ seed, r.Seeded e seed) ∧
    (∀ f, (r.register e).1 = .error f → f = dropsFrameless e ∧ r.CountsDrop f (r.register e).2) ∧
    ∀ seed, r.Seeded e seed → ∃ e', (r.register e).1 = .ok e' ∧
      (r.register e).2.order = r.order ++ [e'] ∧
      (r.register e).2.lookup e.report = some e' ∧ e'.entry = e.entry ∧
      e'.location = seed.location ∧ e'.trace.frames = seed.trace.frames := by
  intro r hframes hnew
  have hix : r.Indexed := indexed_serveAll mode functions qs
  -- The frames can come from a seed only, so the seed decides.
  by_cases hseeded : ∃ seed, r.Seeded e seed
  · obtain ⟨seed, hseed⟩ := hseeded
    have hreg := register_of_seeded hix hnew hframes hseed
    have hsame : (inherit seed e).trace.frames = seed.trace.frames :=
      frames_inherit_of_frameless hframes
    have hlookup : (r.insert (inherit seed e)).lookup e.report = some (inherit seed e) :=
      lookup_insert_self hix hnew (hsame ▸ hseed.frames_ne_nil hix)
    rw [hreg]
    refine ⟨⟨fun _ => ⟨seed, hseed⟩, fun _ => ⟨_, rfl⟩⟩, ?_, ?_⟩
    · intro f hf
      cases hf
    · intro seed' hseed'
      obtain rfl : seed = seed' := Option.some.inj (hseed.known.symm.trans hseed'.known)
      exact ⟨inherit seed e, rfl, rfl, hlookup, rfl, rfl, hsame⟩
  · have hreg := register_of_not_seeded hnew hframes hseeded
    rw [hreg]
    refine ⟨⟨?_, fun h => absurd h hseeded⟩, ?_, fun seed hseed => absurd ⟨seed, hseed⟩ hseeded⟩
    · rintro ⟨e', hok⟩
      cases hok
    · intro f hf
      cases hf
      exact ⟨rfl, r.countsDrop_drop _⟩

/-- An error without frames that was propagated from that of the leaf. -/
def framelessFault : Fault :=
  { leafFault with
    report := "2.macke.err", entry := "g", location := "", seed := "1.ptr.err", trace := ⟨[], "g"⟩ }

/-- It is registered for its function, with the frames of the leaf. -/
theorem register_frameless_leaf :
    let r := (Registry.empty .strict ⟨[]⟩).serveAll [.register leafFault]
    framelessFault.trace.frames = [] ∧ r.lookup framelessFault.report = none ∧
      r.Seeded framelessFault leafFault ∧
      ∃ e', (r.register framelessFault).1 = .ok e' ∧
        (r.register framelessFault).2.order = [leafFault, e'] ∧ e'.entry = "g" ∧
        e'.location = "f.c:1" ∧ e'.trace.frames = [⟨"f", "f.c:1"⟩] := by
  intro r
  have hnew : r.lookup framelessFault.report = none := by decide +kernel
  have hseeded : r.Seeded framelessFault leafFault :=
    ⟨by decide +kernel, by decide +kernel, by decide +kernel⟩
  obtain ⟨-, -, hregistered⟩ := register_frameless_iff .strict ⟨[]⟩ [.register leafFault]
    framelessFault rfl hnew
  obtain ⟨e', hok, horder, -, hentry, hlocation, hframes⟩ := hregistered leafFault hseeded
  have hbefore : r.order = [leafFault] := by decide +kernel
  refine ⟨rfl, hnew, hseeded, e', hok, ?_, hentry, hlocation, hframes⟩
  exact horder.trans (congrArg (· ++ [e']) hbefore)

end Registry
end FaultChain
