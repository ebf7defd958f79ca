import FaultChain.Proofs.CallGraph.Nodes
import FaultChain.Proofs.Registry.Offers
import FaultChain.Proofs.Registry.Seeds

/-!
# Errors that callers know

An error is not worth offering to a caller for which an error is registered that it is contained in.
More errors make more of them known, and none unknown. What the caller found by starting from the
report of an error contains that error, so nothing is propagated to the same caller twice.

* `Registry.toPrepend_increasing`: reports are offered in order.
* `Registry.toPrepend_serveAll_subset`: what is offered later was offered before.
* `Registry.known_of_seed`: the seed of a longer error is known.
* `Registry.serveAll_offers_unknown`: the main statement.
-/

namespace FaultChain
namespace Registry

variable {r : Registry} {caller callee : String} {excludeKnown : Bool} {e : Fault}

/-! ## What is offered -/

/-- Errors stay registered, so what a caller knows it never forgets. -/
theorem Known.serveAll (h : r.Known caller e) (qs : List Request) :
    (r.serveAll qs).Known caller e := by
  obtain ⟨other, hother, hentry, hprefix, hstrict⟩ := h
  refine ⟨other, mem_order_serveAll hother qs, hentry, hprefix, ?_⟩
  rw [mode_serveAll]
  exact hstrict

theorem toPrepend_increasing (hix : r.Indexed) :
    (r.toPrepend caller callee excludeKnown).Pairwise (· < ·) := by
  -- Registered errors have different reports, so no report is offered twice.
  let offered := (r.byEntry.get callee).filter fun e => !(excludeKnown && r.knownTo caller e)
  have hsub : offered.Sublist r.order := by
    have hbucket : (r.byEntry.get callee).Sublist r.order := by
      rw [hix.byEntry callee]
      exact List.filter_sublist
    exact List.filter_sublist.trans hbucket
  have hnodup : (offered.map (·.report)).Nodup := hix.reports_nodup.sublist (hsub.map _)
  exact pairwise_lt_mergeSort hnodup

/-- Errors of other functions than the callee add nothing to what is offered. -/
theorem toPrepend_serveAll_subset (hix : r.Indexed) (later : List Request)
    (hothers : ∀ e ∈ (r.serveAll later).order, e ∉ r.order → e.entry ≠ callee) :
    (r.serveAll later).toPrepend caller callee true ⊆ r.toPrepend caller callee true := by
  intro report hoffered
  obtain ⟨e, he, hentry, hreport, hunknown⟩ := (mem_toPrepend (hix.serveAll later) true).mp hoffered
  have hold : e ∈ r.order := by
    by_contra hnew
    exact hothers e he hnew hentry
  refine (mem_toPrepend hix true).mpr ⟨e, hold, hentry, hreport, ?_⟩
  -- What was known before would be known later, and not be offered.
  intro hexclude hknown
  exact hunknown hexclude (hknown.serveAll later)

/-! ## Seeds -/

/-- An error that is longer than its seed contains it. -/
theorem known_of_seed (hix : r.Indexed) (hseeds : SeedsFirst r.order) {seed : Fault}
    (he : e ∈ r.order) (hp : e.isPropagated = true) (hlookup : r.lookup e.seed = some seed)
    (hlonger : seed.depth < e.depth) : r.Known e.entry seed := by
  obtain ⟨before, after, hsplit⟩ := List.append_of_mem he
  obtain ⟨named, hbefore, hext⟩ := hseeds before e after hsplit hp
  have hmem : named ∈ r.order := by simp [hsplit, hbefore]
  -- The error it took over from when it was registered is still the one its seed names.
  obtain rfl : named = seed :=
    Option.some.inj (((hix.lookup_eq_some_iff _ _).mpr ⟨hmem, hext.named⟩).symm.trans hlookup)
  refine ⟨e, he, rfl, hext.frames, ?_⟩
  rintro - heq
  exact Nat.ne_of_lt hlonger (congrArg List.length heq)

/-- A known error is not offered, whatever is registered later. -/
theorem Known.not_mem_toPrepend (hix : r.Indexed) (h : r.Known caller e) (he : e ∈ r.order)
    (later : List Request) : e.report ∉ (r.serveAll later).toPrepend caller callee true := by
  have hix' : (r.serveAll later).Indexed := hix.serveAll later
  intro hoffered
  obtain ⟨e', he', -, hreport, hunknown⟩ := (mem_toPrepend hix' true).mp hoffered
  -- No other error has the report.
  obtain rfl : e' = e :=
    List.inj_on_of_nodup_map hix'.reports_nodup he' (mem_order_serveAll he later) hreport
  exact hunknown rfl (h.serveAll later)

/-- After any requests the reports offered to a caller are, in increasing order, those of the
registered errors of the callee; if known ones are left out, those that are not contained in an
error of the caller. As long as no errors of the callee are registered, nothing is added to the
reports that are offered without known ones. A report from which a longer error of the caller was
propagated is never among them again. -/
theorem serveAll_offers_unknown (mode : Containment) (functions : FunctionSet)
    (qs : List Request) :
    let r := (Registry.empty mode functions).serveAll qs
    r.mode = mode ∧
    (∀ caller callee excludeKnown,
      (r.toPrepend caller callee excludeKnown).Pairwise (· < ·) ∧
      ∀ report, report ∈ r.toPrepend caller callee excludeKnown ↔
        ∃ e ∈ r.order, e.entry = callee ∧ e.report = report ∧
          (excludeKnown = true → ¬ r.Known caller e)) ∧
    (∀ later caller callee,
      (∀ e ∈ (r.serveAll later).order, e ∉ r.order → e.entry ≠ callee) →
      (r.serveAll later).toPrepend caller callee true ⊆ r.toPrepend caller callee true) ∧
    ∀ e ∈ r.order, e.isPropagated = true →
      ∀ seed, r.lookup e.seed = some seed → seed.depth < e.depth →
      ∀ later callee, e.seed ∉ (r.serveAll later).toPrepend e.entry callee true := by
  intro r
  have hix : r.Indexed := indexed_serveAll mode functions qs
  have hseeds : SeedsFirst r.order := seedsFirst_serveAll mode functions qs
  refine ⟨mode_serveAll _ qs, ?_, ?_, ?_⟩
  · intro caller callee excludeKnown
    exact ⟨toPrepend_increasing hix, fun report => mem_toPrepend hix excludeKnown⟩
  · intro later caller callee hothers
    exact toPrepend_serveAll_subset hix later hothers
  · intro e he hp seed hlookup hlonger later callee
    -- An error made longer from its seed contains the seed, and stays registered.
    have hknown : r.Known e.entry seed := known_of_seed hix hseeds he hp hlookup hlonger
    obtain ⟨hmem, hreport⟩ := (hix.lookup_eq_some_iff _ _).mp hlookup
    rw [← hreport]
    exact hknown.not_mem_toPrepend hix hmem later

/-- The error of the leaf is known to the caller that was reached from it, and to no other. -/
theorem serveAll_offers_unknown_caller :
    let r := (Registry.empty .strict ⟨[]⟩).serveAll [.register leafFault, .register callerFault]
    let e := inherit leafFault callerFault
    e ∈ r.order ∧ e.isPropagated = true ∧ r.lookup e.seed = some leafFault ∧
      leafFault.depth < e.depth ∧ r.toPrepend "h" "f" true = ["1.ptr.err"] ∧
      "1.ptr.err" ∉ (r.serve (.register otherFault)).toPrepend "g" "f" true ∧
      (r.serve (.register otherFault)).toPrepend "h" "f" true ⊆ ["1.ptr.err"] := by
  intro r e
  obtain ⟨-, -, hothers, hseeds⟩ := serveAll_offers_unknown .strict ⟨[]⟩
    [.register leafFault, .register callerFault]
  have hmem : e ∈ r.order := by decide +kernel
  have hp : e.isPropagated = true := by decide +kernel
  have hlookup : r.lookup e.seed = some leafFault := by decide +kernel
  have hlonger : leafFault.depth < e.depth := by decide +kernel
  have hnew : ∀ e ∈ (r.serveAll [.register otherFault]).order, e ∉ r.order → e.entry ≠ "f" := by
    decide +kernel
  have hoffered : r.toPrepend "h" "f" true = ["1.ptr.err"] := by decide +kernel
  refine ⟨hmem, hp, hlookup, hlonger, hoffered, ?_, ?_⟩
  · exact hseeds e hmem hp leafFault hlookup hlonger [.register otherFault] "f"
  · rw [← hoffered]
    exact hothers [.register otherFault] "h" "f" hnew

end Registry
end FaultChain
