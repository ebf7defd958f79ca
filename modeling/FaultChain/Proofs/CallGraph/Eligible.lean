import FaultChain.Proofs.CallGraph.Reachability

/-!
# Eligible calls

Errors are propagated along a call between two different functions of the program, if its caller can
be run in isolation.

* `CallGraph.Eligible`: the condition on a caller and a callee.
* `CallGraph.mem_eligibleCallees_iff`: the eligible callees of a function are those that meet it.
-/

namespace FaultChain
namespace CallGraph

/-- Whether errors are propagated along the calls of one function to another. -/
structure Eligible (removeMain : Bool) (caller callee : Node) : Prop where
  calls : callee.name ∈ caller.calls
  ne : caller.name ≠ callee.name
  caller_defined : caller.external = false ∧ caller.name ≠ nullFunction
  callee_defined : callee.external = false ∧ callee.name ≠ nullFunction
  suitable : (caller.name = mainFunction ∧ removeMain = false) ∨
    (caller.name ≠ mainFunction ∧ caller.doublePointer = false)

section

variable {cg : CallGraph} {removeMain : Bool}

theorem canCall_iff {n : Node} (hnode : cg.node? n.name = some n) :
    cg.canCall removeMain n.name = true ↔
      (n.external = false ∧ n.name ≠ nullFunction) ∧
        ((n.name = mainFunction ∧ removeMain = false) ∨
          (n.name ≠ mainFunction ∧ n.doublePointer = false)) := by
  simp only [canCall, hnode]
  by_cases hmain : n.name = mainFunction
  · simp [hmain]
  · simp [hmain]

theorem canBeCalled_iff {n : Node} (hnode : cg.node? n.name = some n) :
    cg.canBeCalled n.name = true ↔ n.external = false ∧ n.name ≠ nullFunction := by
  simp [canBeCalled, hnode]

theorem mem_eligibleCallees {f g : String} :
    g ∈ cg.eligibleCallees removeMain f ↔
      cg.canCall removeMain f = true ∧ Calls cg.nodes f g ∧ g ≠ f ∧ cg.canBeCalled g = true := by
  unfold eligibleCallees Calls
  split
  · rename_i hcan
    simp [hcan, List.mem_filter]
  · rename_i hcan
    simp [hcan]

theorem ne_of_mem_eligibleCallees {f g : String} (h : g ∈ cg.eligibleCallees removeMain f) :
    g ≠ f :=
  (mem_eligibleCallees.mp h).2.2.1

theorem mem_eligibleCallees_iff (hwf : WellFormed cg.nodes) {f g : String} :
    g ∈ cg.eligibleCallees removeMain f ↔
      ∃ caller ∈ cg.nodes, ∃ callee ∈ cg.nodes,
        caller.name = f ∧ callee.name = g ∧ Eligible removeMain caller callee := by
  have hnode : ∀ n ∈ cg.nodes, cg.node? n.name = some n :=
    fun n hn => (find?_eq_some_iff hwf).mpr ⟨hn, rfl⟩
  rw [mem_eligibleCallees]
  constructor
  · rintro ⟨hcan, hcall, hne, hcalled⟩
    obtain ⟨caller, hcaller, rfl, hmem⟩ := (calls_iff hwf).mp hcall
    obtain ⟨callee, hcallee, rfl⟩ := List.mem_map.mp (hcall.callee_known hwf)
    obtain ⟨hdefined, hsuitable⟩ := (canCall_iff (hnode caller hcaller)).mp hcan
    have hdefined' := (canBeCalled_iff (hnode callee hcallee)).mp hcalled
    exact ⟨caller, hcaller, callee, hcallee, rfl, rfl,
      ⟨hmem, hne.symm, hdefined, hdefined', hsuitable⟩⟩
  · rintro ⟨caller, hcaller, callee, hcallee, rfl, rfl, h⟩
    exact ⟨(canCall_iff (hnode caller hcaller)).mpr ⟨h.caller_defined, h.suitable⟩,
      (calls_iff hwf).mpr ⟨caller, hcaller, rfl, h.calls⟩, h.ne.symm,
      (canBeCalled_iff (hnode callee hcallee)).mpr h.callee_defined⟩

end

end CallGraph
end FaultChain
