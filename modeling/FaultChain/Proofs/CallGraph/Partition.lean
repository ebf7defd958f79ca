import FaultChain.Proofs.CallGraph.Ranks
import FaultChain.Proofs.CallGraph.Reported

/-!
# Batches as a partition

The batches of a graph hold every call that errors are propagated along once, and nothing else. This
holds for any topology, so it does not matter whether the order was computed or reported.

* `CallGraph.Plan.Filled`: no batch of a plan is empty, which every placed call keeps.
* `CallGraph.callee_ne_caller`: no function of a batch is both caller and callee.
* `CallGraph.batches_partitioned`: the main statement.
-/

namespace FaultChain
namespace CallGraph

/-! ## No empty batch -/

namespace Plan

/-- Every batch holds a call. -/
def Filled (bs : List Batch) : Prop := ∀ b ∈ bs, b.calls ≠ []

theorem Filled.placeIn {bs : List Batch} (h : Filled bs) (c : Call) (skip : Nat) :
    Filled (placeIn c skip bs).1 := by
  fun_induction Plan.placeIn c skip bs with
  | case1 skip => simp [Filled]
  | case2 b rest hclosed rest' i heq ih =>
    rw [heq] at ih
    exact List.forall_mem_cons.mpr ⟨h b (by simp), ih fun b' hb' => h b' (by simp [hb'])⟩
  | case3 b rest hopen =>
    exact List.forall_mem_cons.mpr ⟨by simp, fun b' hb' => h b' (by simp [hb'])⟩
  | case4 skip b rest rest' i heq ih =>
    rw [heq] at ih
    exact List.forall_mem_cons.mpr ⟨h b (by simp), ih fun b' hb' => h b' (by simp [hb'])⟩

theorem Filled.foldl_placeOuter {p : Plan} (calls : List Call) {acc : Progress}
    (h : Filled acc.batches) : Filled (calls.foldl (placeOuter p) acc).batches := by
  induction calls generalizing acc with
  | nil => exact h
  | cons c calls ih =>
    apply ih
    exact h.placeIn c (p.readyAt c.callee)

theorem Filled.addCluster {cg : CallGraph} {removeMain : Bool} {p : Plan} (h : Filled p.batches)
    (cluster : Cluster) : Filled (addCluster cg removeMain p cluster).batches := by
  unfold Plan.addCluster
  dsimp only
  rw [(foldl_placeInner _ _).1]
  intro b hb
  rcases List.mem_append.mp hb with hb | hb
  · exact Filled.foldl_placeOuter _ h b hb
  · -- The batch of a call inside the cluster holds that call.
    obtain ⟨c, -, rfl⟩ := List.mem_map.mp hb
    simp [alone]

theorem filled_foldl {cg : CallGraph} {removeMain : Bool} (clusters : List Cluster) {p : Plan}
    (h : Filled p.batches) : Filled (clusters.foldl (addCluster cg removeMain) p).batches := by
  induction clusters generalizing p with
  | nil => exact h
  | cons cluster clusters ih =>
    apply ih
    exact h.addCluster cluster

end Plan

/-! ## Callers and callees -/

theorem checkDisjoint_eq_ok_iff {batch : List Call} :
    checkDisjoint batch = .ok () ↔ ∀ c ∈ batch, ∀ d ∈ batch, c.callee ≠ d.caller := by
  unfold checkDisjoint
  split
  · rename_i c hfind
    -- A call that the check finds is called by another one of the batch.
    have hmem := List.mem_of_find?_eq_some hfind
    have hany := List.find?_some hfind
    obtain ⟨d, hd, heq⟩ := List.any_eq_true.mp hany
    constructor
    · intro hok
      cases hok
    · intro hdisjoint
      exact absurd (beq_iff_eq.mp heq).symm (hdisjoint c hmem d hd)
  · rename_i hnone
    refine ⟨fun _ c hc d hd heq => ?_, fun _ => rfl⟩
    have hnot := List.find?_eq_none.mp hnone c hc
    exact hnot (List.any_eq_true.mpr ⟨d, hd, beq_iff_eq.mpr heq.symm⟩)

/-- No function is both caller and callee within a batch. -/
theorem callee_ne_caller {cg : CallGraph} (htop : IsTopology cg.nodes cg.groups)
    {removeMain : Bool} {batch : List Call} (hbatch : batch ∈ cg.batches removeMain) {c d : Call}
    (hc : c ∈ batch) (hd : d ∈ batch) : c.callee ≠ d.caller := by
  have hplan := planned htop removeMain
  obtain ⟨i, hi⟩ := List.getElem?_of_mem hbatch
  have hc : c ∈ Plan.callsAt (cg.plan removeMain).batches i := placedAt_iff.mp ⟨batch, hi, hc⟩
  have hd : d ∈ Plan.callsAt (cg.plan removeMain).batches i := placedAt_iff.mp ⟨batch, hi, hd⟩
  obtain ⟨⟨u, hu, hf⟩, hcallee⟩ := hplan.mem hc
  intro heq
  by_cases hg : c.callee ∈ u
  · -- A call inside its group is alone, so it would be a call of a function to itself.
    have halone := (hplan.inner hu hc hf hg).1
    have hdc : d = c := by simpa [Plan.callsAt, halone, Plan.alone] using hd
    rw [hdc] at heq
    exact ne_of_mem_eligibleCallees hcallee heq
  · -- A call that leaves its group waits until its callee has made all of its calls.
    have hwait := (hplan.outer hu hc hf hg).1
    have hmade := hplan.lt_readyAt hd
    rw [← heq] at hmade
    omega

/-! ## The partition -/

/-- The batches of a graph hold every eligible call once and nothing else, none is empty, and the
callers of each are different from its callees, so that the check of a batch succeeds. -/
structure Partitioned (cg : CallGraph) (removeMain : Bool) : Prop where
  once : (cg.batches removeMain).flatten.Nodup
  eligible : ∀ c, c ∈ (cg.batches removeMain).flatten ↔
    ∃ caller ∈ cg.nodes, ∃ callee ∈ cg.nodes,
      caller.name = c.caller ∧ callee.name = c.callee ∧ Eligible removeMain caller callee
  nonempty : ∀ batch ∈ cg.batches removeMain, batch ≠ []
  disjoint : ∀ batch ∈ cg.batches removeMain, ∀ c ∈ batch, ∀ d ∈ batch, c.callee ≠ d.caller
  checked : ∀ batch ∈ cg.batches removeMain, checkDisjoint batch = .ok ()

theorem flatten_batches (cg : CallGraph) (removeMain : Bool) :
    (cg.batches removeMain).flatten = (cg.plan removeMain).batches.flatMap (·.calls) := rfl

theorem IsTopology.partitioned {cg : CallGraph} (htop : IsTopology cg.nodes cg.groups)
    (hwf : WellFormed cg.nodes) (removeMain : Bool) : Partitioned cg removeMain where
  once := by
    rw [flatten_batches, (planned htop removeMain).all.nodup_iff]
    exact nodup_callsOf hwf htop.nodup
  eligible := by
    intro c
    rw [flatten_batches, ← Plan.mem_callsAt_iff, ← mem_eligibleCallees_iff hwf,
      ← exists_placedAt_iff htop]
    simp only [placedAt_iff]
  nonempty := by
    intro batch hbatch
    obtain ⟨b, hb, rfl⟩ := List.mem_map.mp hbatch
    have hfilled : Plan.Filled (cg.plan removeMain).batches :=
      Plan.filled_foldl cg.topology (by simp [Plan.Filled])
    exact hfilled b hb
  disjoint := fun _ hbatch _ hc _ hd => callee_ne_caller htop hbatch hc hd
  checked := fun _ hbatch =>
    checkDisjoint_eq_ok_iff.mpr fun _ hc _ hd => callee_ne_caller htop hbatch hc hd

/-- The batches of an extracted graph partition its eligible calls, in the computed order and with
every order that may be reported. -/
theorem batches_partitioned (info : List (String × NodeInfo)) (removeMain : Bool) :
    Partitioned (ofInfo info) removeMain ∧
      ∀ reported, Partitioned ((ofInfo info).withReported reported) removeMain := by
  have hwf : WellFormed (ofInfo info).nodes := wellFormed_nodesOf info
  refine ⟨(isTopology_ofInfo info).partitioned hwf removeMain, ?_⟩
  intro reported
  have hwf' : WellFormed ((ofInfo info).withReported reported).nodes := by
    rw [nodes_withReported]
    exact hwf
  exact (isTopology_withReported info reported).partitioned hwf' removeMain

end CallGraph
end FaultChain
