import FaultChain.Proofs.CallGraph.Batches
import FaultChain.Proofs.CallGraph.Eligible
import FaultChain.Proofs.CallGraph.Reported

/-!
# Functions analyzed in isolation

The functions that can get an entry point of their own are listed with callees before their callers.
A function that is left out of the list may still lie on the way from a caller to a callee, so the
order is one of what functions reach, not of what they call.

* `CallGraph.Isolable`: the condition on a function.
* `CallGraph.keepIsolable_eq_filter`: the list takes a function exactly if it can be a caller.
* `CallGraph.encapsulable_callees_first`: the main statement.
-/

namespace FaultChain
namespace CallGraph

/-- Whether a function can be analyzed in isolation. -/
structure Isolable (removeMain : Bool) (n : Node) : Prop where
  defined : n.external = false ∧ n.name ≠ nullFunction
  suitable : (n.name = mainFunction ∧ removeMain = false) ∨
    (n.name ≠ mainFunction ∧ n.doublePointer = false)

variable {cg : CallGraph} {removeMain : Bool}

/-! ## What is listed -/

/-- The list and the choice of callers agree on every function. -/
theorem keepIsolable_eq_filter (fs : List String) :
    cg.keepIsolable removeMain fs = fs.filter (cg.canCall removeMain) := by
  induction fs with
  | nil => rfl
  | cons f fs ih =>
    rw [keepIsolable, ih, List.filter_cons]
    cases hnode : cg.node? f with
    | none => simp [canCall, hnode]
    | some n =>
      by_cases hdefined : (n.external || f == nullFunction) = true
      · simp [canCall, hnode, hdefined]
      · by_cases hmain : f = mainFunction
        · subst hmain
          cases removeMain <;> simp [canCall, hnode, hdefined]
        · cases hpointer : n.doublePointer <;> simp [canCall, hnode, hdefined, hmain, hpointer]

theorem encapsulable_eq_filter :
    cg.encapsulable removeMain = cg.groups.flatten.filter (cg.canCall removeMain) := by
  rw [encapsulable, keepIsolable_eq_filter, groups, ← List.flatMap_def]

theorem mem_encapsulable_iff (htop : IsTopology cg.nodes cg.groups) (hwf : WellFormed cg.nodes)
    {f : String} :
    f ∈ cg.encapsulable removeMain ↔ ∃ n ∈ cg.nodes, n.name = f ∧ Isolable removeMain n := by
  have hnode : ∀ n ∈ cg.nodes, cg.node? n.name = some n :=
    fun n hn => (find?_eq_some_iff hwf).mpr ⟨hn, rfl⟩
  rw [encapsulable_eq_filter, List.mem_filter]
  constructor
  · rintro ⟨-, hcan⟩
    cases hfind : cg.node? f with
    | none => simp [canCall, hfind] at hcan
    | some n =>
      obtain ⟨hn, rfl⟩ := (find?_eq_some_iff hwf).mp hfind
      obtain ⟨hdefined, hsuitable⟩ := (canCall_iff (hnode n hn)).mp hcan
      exact ⟨n, hn, rfl, hdefined, hsuitable⟩
  · rintro ⟨n, hn, rfl, hdefined, hsuitable⟩
    -- The order lists every function, so filtering it misses none.
    exact ⟨List.mem_flatten.mpr (htop.covers _ (List.mem_map_of_mem hn)),
      (canCall_iff (hnode n hn)).mpr ⟨hdefined, hsuitable⟩⟩

/-- The caller of a call that errors are propagated along can be analyzed in isolation. -/
theorem caller_mem_encapsulable (htop : IsTopology cg.nodes cg.groups) {batch : List Call}
    (hbatch : batch ∈ cg.batches removeMain) {call : Call} (hcall : call ∈ batch) :
    call.caller ∈ cg.encapsulable removeMain := by
  obtain ⟨i, hi⟩ := List.getElem?_of_mem hbatch
  have hplaced : ∃ i, PlacedAt cg removeMain i call := ⟨i, batch, hi, hcall⟩
  have hcallee := (exists_placedAt_iff htop).mp hplaced
  rw [encapsulable_eq_filter, List.mem_filter]
  exact ⟨List.mem_flatten.mpr (htop.covers _ (known_of_mem_eligibleCallees hcallee)),
    (mem_eligibleCallees.mp hcallee).1⟩

/-! ## The order -/

/-- In the computed order a function reaches a later one only if that one reaches it as well. -/
theorem pairwise_flatten_groups (info : List (String × NodeInfo)) :
    (ofInfo info).groups.flatten.Pairwise fun f g =>
      Reaches (ofInfo info).nodes f g → Reaches (ofInfo info).nodes g f := by
  have htop := isTopology_ofInfo info
  rw [List.pairwise_flatten]
  constructor
  · intro u hu
    refine List.pairwise_of_forall_mem_list ?_
    intro f hf g hg _
    exact ((sameComponent_iff_of_mem_groups hu hf g).mp hg).2
  · rw [List.pairwise_iff_getElem]
    intro i j hi hj hij f hf g hg hreach
    have hle := htop.index_le hreach (List.getElem?_eq_getElem hi) hf (List.getElem?_eq_getElem hj) hg
    omega

/-- What is listed for isolated runs: each function that can be analyzed in isolation once and no
other one, callees before the callers they do not reach back. Whatever calls are handled later, their
callers are listed. -/
theorem encapsulable_callees_first (info : List (String × NodeInfo)) (removeMain : Bool) :
    let cg := ofInfo info
    let listed := cg.encapsulable removeMain
    listed.Nodup ∧
    (∀ f, f ∈ listed ↔ ∃ n ∈ cg.nodes, n.name = f ∧ Isolable removeMain n) ∧
    (∀ f ∈ listed, ∀ g ∈ listed, Reaches cg.nodes g f → ¬ Reaches cg.nodes f g →
      listed.idxOf f < listed.idxOf g) ∧
    ∀ batch ∈ cg.batches removeMain, ∀ call ∈ batch, call.caller ∈ listed := by
  intro cg listed
  have htop : IsTopology cg.nodes cg.groups := isTopology_ofInfo info
  have hfilter : listed = cg.groups.flatten.filter (cg.canCall removeMain) := encapsulable_eq_filter
  have hpairs : listed.Pairwise fun f g => Reaches cg.nodes f g → Reaches cg.nodes g f := by
    rw [hfilter]
    exact (pairwise_flatten_groups info).filter _
  refine ⟨hfilter ▸ htop.nodup.filter _, fun f => mem_encapsulable_iff htop (wellFormed_nodesOf info),
    ?_, fun batch hbatch call hcall => caller_mem_encapsulable htop hbatch hcall⟩
  intro f hf g hg hreach hback
  have hfl := List.idxOf_lt_length_iff.mpr hf
  have hgl := List.idxOf_lt_length_iff.mpr hg
  rcases Nat.lt_trichotomy (listed.idxOf f) (listed.idxOf g) with hlt | heq | hgt
  · exact hlt
  · -- One position holds one function, and that reaches itself.
    have hsame : f = g := List.idxOf_inj hf |>.mp heq
    rw [hsame] at hback
    exact absurd .refl hback
  · have hpair := List.pairwise_iff_getElem.mp hpairs _ _ hgl hfl hgt
    rw [List.getElem_idxOf, List.getElem_idxOf] at hpair
    exact absurd (hpair hreach) hback

end CallGraph
end FaultChain
