import FaultChain.Proofs.CallGraph.Topology

/-!
# Reported orders

A reported order is adopted if it lists every function once and no group calls into a later one.
Nothing is asked about calls inside a group: functions that do not reach each other may be reported
together.

* `CallGraph.isTopology_withReported`: the groups that a graph ends up with are a topology, whatever
  was reported.
* `CallGraph.pairwise_of_mem_groups`: they list their functions in increasing order.
* `CallGraph.agreement_iff_count`: agreement in terms of how often names occur.
* `CallGraph.Agreement.existsUnique_cluster`: functions that reach each other stay together.
* `CallGraph.adoption_iff`: which orders are adopted, and as which clusters.
-/

namespace FaultChain
namespace CallGraph

variable {nodes : List Node} {groups : List (List String)}

/-! ## The order of a graph -/

/-- Reported groups are adopted with their functions sorted, or not at all. -/
theorem withReported_cases (cg : CallGraph) (hwf : WellFormed cg.nodes)
    (reported : List (List String)) :
    (cg.agrees reported = true ∧ (cg.withReported reported).nodes = cg.nodes ∧
        (cg.withReported reported).groups = reported.map (·.mergeSort (· ≤ ·))) ∨
      (cg.agrees reported = false ∧ cg.withReported reported = cg) := by
  unfold withReported agrees
  cases hadopt : cg.adopt? reported with
  | some clusters =>
    refine Or.inl ⟨rfl, rfl, ?_⟩
    rw [((adopt?_eq_some_iff hwf).mp hadopt).2]
    simp [CallGraph.groups, clusterOf, Function.comp_def]
  | none => exact Or.inr ⟨rfl, rfl⟩

@[simp] theorem nodes_withReported (cg : CallGraph) (reported : List (List String)) :
    (cg.withReported reported).nodes = cg.nodes := by
  unfold withReported
  split <;> rfl

theorem Agreement.isTopology (hwf : WellFormed nodes) (h : Agreement nodes groups) :
    IsTopology nodes (groups.map (·.mergeSort (· ≤ ·))) := by
  -- Sorting inside the groups keeps them what they are as sets.
  have hsorted : ∀ u : List String, (u.mergeSort (· ≤ ·)).Perm u :=
    fun u => List.mergeSort_perm u _
  refine ⟨?_, ?_, ?_⟩
  · have hperm : (groups.map (·.mergeSort (· ≤ ·))).flatten.Perm groups.flatten := by
      apply List.Perm.flatten_congr
      rw [List.forall₂_map_left_iff]
      exact List.forall₂_same.mpr fun u _ => hsorted u
    exact (hperm.trans h.perm).nodup_iff.mpr hwf.names_nodup
  · intro f hf
    obtain ⟨u, hu, hfu⟩ := List.mem_flatten.mp (h.perm.mem_iff.mpr hf)
    exact ⟨_, List.mem_map_of_mem hu, (hsorted u).mem_iff.mpr hfu⟩
  · rw [List.pairwise_map]
    apply h.backward.imp
    intro u v hback f hf g hcall hg
    exact hback f ((hsorted u).mem_iff.mp hf) g hcall ((hsorted v).mem_iff.mp hg)

/-- Whatever was reported, the groups of the graph are a topology. -/
theorem isTopology_withReported (info : List (String × NodeInfo)) (reported : List (List String)) :
    IsTopology ((ofInfo info).withReported reported).nodes
      ((ofInfo info).withReported reported).groups := by
  have hwf : WellFormed (ofInfo info).nodes := wellFormed_nodesOf info
  rcases withReported_cases (ofInfo info) hwf reported with ⟨hagrees, hnodes, hgroups⟩ | ⟨-, hsame⟩
  · rw [hnodes, hgroups]
    exact ((agrees_iff hwf).mp hagrees).isTopology hwf
  · rw [hsame]
    exact isTopology_ofInfo info

theorem pairwise_of_mem_groups {info : List (String × NodeInfo)} {reported : List (List String)}
    {u : List String} (hu : u ∈ ((ofInfo info).withReported reported).groups) :
    u.Pairwise (· ≤ ·) := by
  rcases withReported_cases (ofInfo info) (wellFormed_nodesOf info) reported with
    ⟨-, -, hgroups⟩ | ⟨-, hsame⟩
  · rw [hgroups] at hu
    obtain ⟨v, -, rfl⟩ := List.mem_map.mp hu
    exact pairwise_mergeSort_names v
  · rw [hsame] at hu
    exact (pairwise_of_mem_components (wellFormed_nodesOf info) (mem_groups_ofInfo_iff.mp hu)).1

/-! ## What is adopted -/

/-- Listing every function once, in terms of how often names occur. -/
theorem agreement_iff_count (hwf : WellFormed nodes) :
    Agreement nodes groups ↔
      (∀ u ∈ groups, u ≠ []) ∧
      (∀ f ∈ nodes.map (·.name), groups.flatten.count f = 1) ∧
      (∀ f ∈ groups.flatten, f ∈ nodes.map (·.name)) ∧
      groups.Pairwise fun u v => ∀ f ∈ u, ∀ g ∈ v, ¬ Calls nodes f g := by
  have hswap : (groups.Pairwise fun u v => ∀ f ∈ u, ∀ g, Calls nodes f g → g ∉ v) ↔
      groups.Pairwise fun u v => ∀ f ∈ u, ∀ g ∈ v, ¬ Calls nodes f g := by
    refine List.Pairwise.iff ?_
    intro u v
    exact ⟨fun h f hf g hg hcall => h f hf g hcall hg, fun h f hf g hcall hg => h f hf g hg hcall⟩
  rw [← hswap]
  constructor
  · rintro ⟨hne, hperm, hback⟩
    refine ⟨hne, ?_, fun f hf => hperm.mem_iff.mp hf, hback⟩
    intro f hf
    rw [hperm.count_eq]
    exact List.count_eq_one_of_mem hwf.names_nodup hf
  · rintro ⟨hne, hcount, hknown, hback⟩
    -- A name occurs once if it is known and not at all otherwise.
    have hnodup : groups.flatten.Nodup := by
      rw [List.nodup_iff_count_le_one]
      intro f
      by_cases hf : f ∈ groups.flatten
      · exact Nat.le_of_eq (hcount f (hknown f hf))
      · rw [List.count_eq_zero_of_not_mem hf]
        exact Nat.zero_le 1
    refine ⟨hne, ?_, hback⟩
    rw [List.perm_ext_iff_of_nodup hnodup hwf.names_nodup]
    intro f
    refine ⟨hknown f, ?_⟩
    intro hf
    exact List.count_pos_iff.mp (Nat.lt_of_lt_of_eq Nat.zero_lt_one (hcount f hf).symm)

/-- The cluster that stands for a reported group: its functions in increasing order, and whether there
are several or one that calls itself. -/
structure StandsFor (nodes : List Node) (group : List String) (u : Cluster) : Prop where
  perm : u.functions.Perm group
  sorted : u.functions.Pairwise (· < ·)
  cyclic_iff : u.cyclic = true ↔ 1 < group.length ∨ ∃ f ∈ group, Calls nodes f f

theorem isCyclic_iff_self_call {c : List String} :
    isCyclic nodes c = true ↔ 1 < c.length ∨ ∃ f ∈ c, Calls nodes f f := by
  match c with
  | [] => simp [isCyclic]
  | [name] => simp [isCyclic, Calls]
  | _ :: _ :: _ => simp [isCyclic]

theorem standsFor_clusterOf {group : List String} (hnodup : group.Nodup) :
    StandsFor nodes group (clusterOf nodes group) := by
  have hperm : (group.mergeSort (· ≤ ·)).Perm group := List.mergeSort_perm _ _
  refine ⟨hperm, pairwise_lt_mergeSort hnodup, ?_⟩
  simp only [clusterOf, isCyclic_iff_self_call, hperm.length_eq, hperm.mem_iff]

/-- Functions that reach each other are in the same cluster, and in no other one. -/
theorem Agreement.existsUnique_cluster (hwf : WellFormed nodes) (h : Agreement nodes groups)
    {f : String} (hf : f ∈ nodes.map (·.name)) :
    ∃! u, u ∈ groups.map (clusterOf nodes) ∧
      ∀ g, Reaches nodes f g → Reaches nodes g f → g ∈ u.functions := by
  have htop := h.isTopology hwf
  obtain ⟨group, hgroup, hfg⟩ := List.mem_flatten.mp (h.perm.mem_iff.mpr hf)
  refine ⟨clusterOf nodes group, ⟨List.mem_map_of_mem hgroup, ?_⟩, ?_⟩
  · intro g hto hfrom
    exact htop.mem_of_sameComponent hwf hf ⟨hto, hfrom⟩
      (List.mem_map_of_mem hgroup) (List.mem_mergeSort.mpr hfg)
  · rintro u ⟨hu, hcomponent⟩
    obtain ⟨other, hother, rfl⟩ := List.mem_map.mp hu
    have hfo : f ∈ other := List.mem_mergeSort.mp (hcomponent f .refl .refl)
    -- The function itself is in both groups, and names do not repeat.
    have hnodup : groups.flatten.Nodup := h.perm.nodup_iff.mpr hwf.names_nodup
    obtain ⟨i, hi⟩ := List.getElem?_of_mem hgroup
    obtain ⟨j, hj⟩ := List.getElem?_of_mem hother
    rw [index_eq_of_mem hnodup hi hj hfg hfo, hj] at hi
    cases hi
    rfl

/-- A reported order is adopted exactly if its groups are not empty, every function occurs once and
no other name does, and no function calls one of a later group. What is adopted are the groups in the
order in which they are reported, each with its functions in increasing order; and the functions that
reach each other are in a single one of them. -/
theorem adoption_iff (info : List (String × NodeInfo)) (reported : List (List String)) :
    let cg := ofInfo info
    ((cg.adopt? reported).isSome = true ↔
      (∀ u ∈ reported, u ≠ []) ∧
      (∀ f ∈ cg.functions, reported.flatten.count f = 1) ∧
      (∀ f ∈ reported.flatten, f ∈ cg.functions) ∧
      reported.Pairwise fun u v => ∀ f ∈ u, ∀ g ∈ v, ¬ Calls cg.nodes f g) ∧
    ∀ clusters, cg.adopt? reported = some clusters →
      List.Forall₂ (StandsFor cg.nodes) reported clusters ∧
      ∀ f ∈ cg.functions, ∃! u, u ∈ clusters ∧
        ∀ g, Reaches cg.nodes f g → Reaches cg.nodes g f → g ∈ u.functions := by
  intro cg
  have hwf : WellFormed cg.nodes := wellFormed_nodesOf info
  refine ⟨(agrees_iff hwf).trans (agreement_iff_count hwf), ?_⟩
  intro clusters hadopt
  obtain ⟨hagree, rfl⟩ := (adopt?_eq_some_iff hwf).mp hadopt
  refine ⟨?_, fun f hf => hagree.existsUnique_cluster hwf hf⟩
  rw [List.forall₂_map_right_iff, List.forall₂_same]
  intro u hu
  have hnodup := (List.nodup_flatten.mp (hagree.perm.nodup_iff.mpr hwf.names_nodup)).1 u hu
  exact standsFor_clusterOf hnodup

end CallGraph
end FaultChain
