import Mathlib.Algebra.Ring.Nat
import FaultChain.Proofs.Registry.Requests

/-!
# Every request is accounted for

A request to register an error does one of three things: it finds the report registered, it counts
one dropped error, or it registers the report. Whatever it does, it does completely.

* `Registry.CountsDrop`: one more error is dropped, and nothing else differs.
* `Registry.register_outcome`: the three things a request can do.
* `Registry.repeats`: how many requests of a sequence find their report registered.
* `Registry.register_atomic_accounted`: the main statement.
-/

namespace FaultChain

/-! ## Counters -/

namespace Drops

theorem count_bump_self (d : Drops) (reason : DropReason) :
    (d.bump reason).count reason = d.count reason + 1 := by
  cases reason <;> rfl

theorem count_bump_of_ne (d : Drops) {reason reason' : DropReason} (h : reason' ≠ reason) :
    (d.bump reason).count reason' = d.count reason' := by
  cases reason <;> cases reason' <;> first | rfl | exact absurd rfl h

theorem total_bump (d : Drops) (reason : DropReason) : (d.bump reason).total = d.total + 1 := by
  cases reason <;> simp only [bump, total] <;> omega

/-- Reasons that did not occur add nothing. -/
theorem sum_toList (d : Drops) : (d.toList.map (·.2)).sum = d.total := by
  have hall : ∀ counts : List (String × Nat),
      ((counts.filter (0 < ·.2)).map (·.2)).sum = (counts.map (·.2)).sum := by
    intro counts
    induction counts with
    | nil => rfl
    | cons entry counts ih =>
      by_cases hpos : 0 < entry.2
      · simp [hpos, ih]
      · simp [ih, Nat.eq_zero_of_not_pos hpos]
  rw [toList, hall]
  simp only [DropReason.all, List.map_cons, List.map_nil, List.sum_cons, List.sum_nil, count, total]
  omega

end Drops

namespace Registry

variable {r : Registry} {e : Fault} {f : Failure}

/-- One more error is dropped, for the reason of a failure, and nothing else differs. -/
structure CountsDrop (r : Registry) (f : Failure) (r' : Registry) : Prop where
  rest : r' = { r with drops := r'.drops }
  counted : r'.drops.count (.ofFailure f) = r.drops.count (.ofFailure f) + 1
  others : ∀ reason, reason ≠ .ofFailure f → r'.drops.count reason = r.drops.count reason

theorem countsDrop_drop (r : Registry) (f : Failure) : r.CountsDrop f (r.drop f) where
  rest := rfl
  counted := r.drops.count_bump_self _
  others := fun _ hne => r.drops.count_bump_of_ne hne

/-! ## One request -/

/-- The frames of a registered seed stay in front, so an error is not dropped after it has taken
over from its seed. -/
theorem assess_of_dropped (hix : r.Indexed) (h : (r.assess e).1 = some f) :
    (r.assess e).2 = e := by
  cases hblack : e.isBlacklisted with
  | true => simp [assess, hblack]
  | false =>
    cases hp : e.isPropagated with
    | false => simp [assess, inherited, hblack, hp]
    | true =>
      cases hseed : r.lookup e.seed with
      | none => simp [assess, inherited, hblack, hp, hseed]
      | some seed =>
        have hmem : seed ∈ r.order := ((hix.lookup_eq_some_iff _ _).mp hseed).1
        have hframes : (inherit seed e).trace.frames ≠ [] :=
          List.append_ne_nil_of_left_ne_nil (hix.frames_ne_nil seed hmem) _
        simp [assess, inherited, hblack, hp, hseed, hframes] at h

theorem lookup_insert_self (hix : r.Indexed) (hnew : r.lookup e.report = none)
    (hframes : e.trace.frames ≠ []) : (r.insert e).lookup e.report = some e := by
  apply ((hix.insert hnew hframes).lookup_eq_some_iff _ _).mpr
  exact ⟨by simp [order_insert], rfl⟩

/-- What a request to register an error does: the answer, the error as its owner finds it, and the
registry. -/
theorem register_outcome (hix : r.Indexed) (e : Fault) :
    ((r.lookup e.report).isSome ∧ r.register e = (.ok e, r) ∧ r.handedBack e = e) ∨
    (r.lookup e.report = none ∧ ∃ f, r.register e = (.error f, r.drop f) ∧ r.handedBack e = e) ∨
    (r.lookup e.report = none ∧
      r.register e = (.ok (r.handedBack e), r.insert (r.handedBack e)) ∧
      r.Accepts e (r.handedBack e)) := by
  cases hlookup : r.lookup e.report with
  | some old => exact Or.inl ⟨rfl, by simp [register, hlookup], by simp [handedBack, hlookup]⟩
  | none =>
    right
    have hback : r.handedBack e = (r.assess e).2 := by simp [handedBack, hlookup]
    cases hassess : r.assess e with
    | mk why e' =>
      cases why with
      | some f =>
        left
        -- What is dropped is handed back as it was given.
        have hsame : (r.assess e).2 = e := assess_of_dropped hix (f := f) (by rw [hassess])
        have hvetted : r.vetted e = .error f := by simp [vetted, hassess]
        exact ⟨rfl, f, by simp [register, hlookup, hvetted], hback.trans hsame⟩
      | none =>
        right
        have hvetted : r.vetted e = .ok e' := by simp [vetted, hassess]
        have hback' : r.handedBack e = e' := by rw [hback, hassess]
        rw [hback']
        exact ⟨rfl, by simp [register, hlookup, hvetted], hlookup, hvetted⟩

/-! ## Sequences of requests -/

/-- Whether a request asks for a report that is registered. A report that cannot be read is not. -/
def isRepeat (r : Registry) : Request → Bool
  | .register e => (r.lookup e.report).isSome
  | .registerFile files path entry =>
    match Report.read files path entry r.functions with
    | .error _ => false
    | .ok e => (r.lookup e.report).isSome

/-- How many requests of a sequence ask for a report that is registered by then. -/
def repeats (r : Registry) : List Request → Nat
  | [] => 0
  | q :: qs => (r.isRepeat q).toNat + (r.serve q).repeats qs

/-- How many errors a registry has registered or dropped. -/
def handled (r : Registry) : Nat := r.order.length + r.drops.total

theorem handled_drop (r : Registry) (f : Failure) : (r.drop f).handled = r.handled + 1 := by
  have htotal := r.drops.total_bump (.ofFailure f)
  simp only [handled, drop]
  omega

theorem handled_insert (r : Registry) (e : Fault) :
    (r.insert e).handled = r.handled + 1 := by
  simp only [handled, order_insert, List.length_append, List.length_singleton]
  change r.order.length + 1 + r.drops.total = _
  omega

theorem handled_register (hix : r.Indexed) (e : Fault) :
    (r.register e).2.handled + (r.lookup e.report).isSome.toNat = r.handled + 1 := by
  rcases register_outcome hix e with ⟨hsome, heq, -⟩ | ⟨hnone, f, heq, -⟩ | ⟨hnone, heq, -⟩
  · rw [heq, hsome]
    rfl
  · rw [heq, hnone]
    exact r.handled_drop f
  · rw [heq, hnone]
    exact r.handled_insert _

/-- A request that does not repeat an earlier one is registered or dropped, and counted once. -/
theorem handled_serve (hix : r.Indexed) (q : Request) :
    (r.serve q).handled + (r.isRepeat q).toNat = r.handled + 1 := by
  cases q with
  | register e => exact handled_register hix e
  | registerFile files path entry =>
    cases hread : Report.read files path entry r.functions with
    | error f =>
      -- The file itself is dropped, so no error gets as far as being registered.
      simpa [serve, registerFile, isRepeat, hread] using r.handled_drop f
    | ok e => simpa [serve, registerFile, isRepeat, hread] using handled_register hix e

theorem Indexed.serve (hix : r.Indexed) (q : Request) : (r.serve q).Indexed := by
  rcases serve_cases r q with ⟨drops, h⟩ | ⟨given, e, he, h⟩
  · rw [h]
    exact hix.drop drops
  · rw [h]
    exact hix.insert he.lookup_eq_none he.frames_ne_nil

theorem handled_serveAll (hix : r.Indexed) (qs : List Request) :
    (r.serveAll qs).handled + r.repeats qs = r.handled + qs.length := by
  induction qs generalizing r with
  | nil => rfl
  | cons q qs ih =>
    have hrest := ih (hix.serve q)
    have hfirst := handled_serve hix q
    have hserve : r.serveAll (q :: qs) = (r.serve q).serveAll qs := rfl
    simp only [repeats, List.length_cons]
    rw [hserve]
    omega

/-- In every registry that requests can lead to, a request to register an error finds its report
registered and changes nothing; or it is dropped, which counts once and changes neither the error
nor anything else; or it is registered as it is handed back. A report file is dropped once, whether
it cannot be read or its error is dropped. So the number of requests is the number of errors
registered, of errors dropped, and of requests that repeat earlier ones. -/
theorem register_atomic_accounted (mode : Containment) (functions : FunctionSet)
    (qs : List Request) :
    let r := (Registry.empty mode functions).serveAll qs
    (∀ e,
      ((r.lookup e.report).isSome ∧ (r.register e).1 = .ok e ∧ (r.register e).2 = r ∧
        r.handedBack e = e) ∨
      (r.lookup e.report = none ∧ ∃ f, (r.register e).1 = .error f ∧
        r.CountsDrop f (r.register e).2 ∧ r.handedBack e = e) ∨
      (r.lookup e.report = none ∧ (r.register e).1 = .ok (r.handedBack e) ∧
        (r.register e).2.lookup e.report = some (r.handedBack e) ∧
        (r.register e).2.order = r.order ++ [r.handedBack e] ∧
        (r.register e).2.drops = r.drops)) ∧
    (∀ files path entry f, (r.registerFile files path entry).1 = .error f →
      r.CountsDrop f (r.registerFile files path entry).2) ∧
    qs.length = r.order.length + r.drops.total + (Registry.empty mode functions).repeats qs := by
  intro r
  have hix : r.Indexed := indexed_serveAll mode functions qs
  refine ⟨?_, ?_, ?_⟩
  · intro e
    rcases register_outcome hix e with ⟨hsome, heq, hsame⟩ | ⟨hnone, f, heq, hsame⟩ |
      ⟨hnone, heq, haccept⟩
    · rw [heq]
      exact Or.inl ⟨hsome, rfl, rfl, hsame⟩
    · rw [heq]
      exact Or.inr (Or.inl ⟨hnone, f, rfl, r.countsDrop_drop f, hsame⟩)
    · have hlookup := lookup_insert_self hix haccept.lookup_eq_none haccept.frames_ne_nil
      rw [haccept.report_eq] at hlookup
      rw [heq]
      exact Or.inr (Or.inr ⟨hnone, rfl, hlookup, rfl, rfl⟩)
  · intro files path entry f hf
    -- An unreadable report is dropped before, any other by its error.
    cases hread : Report.read files path entry r.functions with
    | error why =>
      have hwhy : why = f := by simpa [registerFile, hread] using hf
      simpa [registerFile, hread, hwhy] using r.countsDrop_drop f
    | ok e =>
      simp only [registerFile, hread] at hf ⊢
      rcases register_outcome hix e with ⟨-, heq, -⟩ | ⟨-, why, heq, -⟩ | ⟨-, heq, -⟩
      · rw [heq] at hf
        cases hf
      · rw [heq] at hf ⊢
        cases hf
        exact r.countsDrop_drop f
      · rw [heq] at hf
        cases hf
  · have hcount := handled_serveAll (Indexed.empty mode functions) qs
    have hstart : (Registry.empty mode functions).handled = 0 := rfl
    have hend : r.handled = r.order.length + r.drops.total := rfl
    change r.handled + _ = _ at hcount
    omega

end Registry
end FaultChain
