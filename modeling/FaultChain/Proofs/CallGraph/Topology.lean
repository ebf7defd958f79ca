import FaultChain.Proofs.CallGraph.Adoption

/-!
# The order of components

* `CallGraph.IsTopology`: groups of functions in which every function occurs once and no function
  calls into a later group.
* `CallGraph.isTopology_ofInfo`: the computed order is a topology, and its groups are the
  components.
* `CallGraph.IsTopology.index_le`: no function reaches into a later group.
-/

namespace FaultChain
namespace CallGraph

variable {nodes : List Node}

/-! ## Topologies -/

/-- Groups in which every function occurs exactly once, and no function calls into a later one. -/
structure IsTopology (nodes : List Node) (groups : List (List String)) : Prop where
  nodup : groups.flatten.Nodup
  covers : ∀ f ∈ nodes.map (·.name), ∃ u ∈ groups, f ∈ u
  backward : groups.Pairwise fun u v => ∀ f ∈ u, ∀ g, Calls nodes f g → g ∉ v

/-- The groups of a graph. -/
def groups (cg : CallGraph) : List (List String) := cg.topology.map (·.functions)

theorem groups_ofInfo (info : List (String × NodeInfo)) :
    (ofInfo info).groups =
      listComponents .asFilled (nodesOf info) (stronglyConnected (nodesOf info)) := by
  simp [groups, ofInfo, computeTopology, clustersOf, Function.comp_def]

/-- The clusters of a computed order are the components found. -/
theorem perm_groups_stronglyConnected (info : List (String × NodeInfo)) :
    (ofInfo info).groups.Perm (stronglyConnected (ofInfo info).nodes) := by
  rw [groups_ofInfo]
  exact (listComponents_spec .asFilled (wellFormed_nodesOf info) (.refl _)).1

theorem leastFirst_groups (info : List (String × NodeInfo)) :
    LeastFirst (ofInfo info).nodes (ofInfo info).groups := by
  rw [groups_ofInfo]
  exact (listComponents_spec .asFilled (wellFormed_nodesOf info) (.refl _)).2

theorem mem_groups_ofInfo_iff {info : List (String × NodeInfo)} {u : List String} :
    u ∈ (ofInfo info).groups ↔ u ∈ components (nodesOf info) := by
  rw [(perm_groups_stronglyConnected info).mem_iff]
  exact mem_stronglyConnected_iff (wellFormed_nodesOf info)

/-- What is freed by groups before it does not call into groups behind it. -/
theorem LeastFirst.backward {groups : List (List String)} (h : LeastFirst nodes groups)
    (hnodup : groups.flatten.Nodup) :
    groups.Pairwise fun u v => ∀ f ∈ u, ∀ g, Calls nodes f g → g ∉ v := by
  rw [List.pairwise_iff_getElem]
  intro i j hi hj hij f hf g hcall hg
  have hsplit : groups = groups.take i ++ groups[i] :: groups.drop (i + 1) := by simp
  have hgj : groups[j]? = some groups[j] := List.getElem?_eq_getElem hj
  rcases (h _ _ _ hsplit).1 f hf g hcall with hg' | ⟨b, hb, hg'⟩
  · have heq := index_eq_of_mem hnodup (List.getElem?_eq_getElem hi) hgj hg' hg
    exact absurd heq (Nat.ne_of_lt hij)
  · obtain ⟨k, hk, rfl⟩ := List.mem_take_iff_getElem.mp hb
    have hki : k < i := (Nat.lt_min.mp hk).1
    have hkj := index_eq_of_mem hnodup (List.getElem?_eq_getElem (Nat.lt_trans hki hi)) hgj hg' hg
    exact absurd hkj (Nat.ne_of_lt (Nat.lt_trans hki hij))

/-- The computed order is a topology. -/
theorem isTopology_ofInfo (info : List (String × NodeInfo)) :
    IsTopology (ofInfo info).nodes (ofInfo info).groups := by
  have hwf : WellFormed (ofInfo info).nodes := wellFormed_nodesOf info
  have hperm : (ofInfo info).groups.flatten.Perm ((ofInfo info).nodes.map (·.name)) :=
    (perm_groups_stronglyConnected info).flatten.trans (perm_flatten_stronglyConnected hwf)
  have hnodup := hperm.nodup_iff.mpr hwf.names_nodup
  refine ⟨hnodup, ?_, (leastFirst_groups info).backward hnodup⟩
  intro f hf
  exact List.mem_flatten.mp (hperm.mem_iff.mpr hf)

/-- Functions are in the same computed group if they reach each other. -/
theorem sameComponent_iff_of_mem_groups {info : List (String × NodeInfo)} {u : List String}
    (hu : u ∈ (ofInfo info).groups) {f : String} (hf : f ∈ u) (g : String) :
    g ∈ u ↔ SameComponent (ofInfo info).nodes f g :=
  mem_iff_of_mem_components (wellFormed_nodesOf info) (mem_groups_ofInfo_iff.mp hu) hf g

/-! ## Reported orders -/

/-- Reporting the computed order changes nothing. -/
theorem withReported_groups (info : List (String × NodeInfo)) :
    (ofInfo info).withReported (ofInfo info).groups = ofInfo info := by
  have hwf : WellFormed (ofInfo info).nodes := wellFormed_nodesOf info
  have hclusters : (ofInfo info).groups.map (clusterOf (ofInfo info).nodes) =
      (ofInfo info).topology := by
    -- Components are sorted already.
    have hsorted : ∀ u ∈ (ofInfo info).groups, u.mergeSort (· ≤ ·) = u := by
      intro u hu
      have hpairs := (pairwise_of_mem_components hwf (mem_groups_ofInfo_iff.mp hu)).1
      exact List.mergeSort_of_pairwise (by simpa using hpairs)
    have hmap : (ofInfo info).groups.map (clusterOf (ofInfo info).nodes) =
        (ofInfo info).groups.map fun g =>
          { functions := g, cyclic := isCyclic (ofInfo info).nodes g } := by
      refine List.map_congr_left ?_
      intro u hu
      rw [clusterOf, hsorted u hu]
    rw [hmap, groups_ofInfo]
    rfl
  unfold withReported
  split
  · rename_i clusters hadopt
    rw [((adopt?_eq_some_iff hwf).mp hadopt).2, hclusters]
  · rfl

/-! ## Reachability -/

/-- No function reaches into a later group, whatever lies in between. -/
theorem IsTopology.index_le {groups : List (List String)} (htop : IsTopology nodes groups)
    {f g : String} (hreach : Reaches nodes f g) {i j : Nat} {u v : List String}
    (hu : groups[i]? = some u) (hf : f ∈ u) (hv : groups[j]? = some v) (hg : g ∈ v) : j ≤ i := by
  induction hreach generalizing j v with
  | refl => exact Nat.le_of_eq (index_eq_of_mem htop.nodup hv hu hg hf)
  | @tail h g _ hcall ih =>
    -- The function before the last call is in some group, which is not later than the first one.
    obtain ⟨w, hw, hh⟩ := htop.covers h hcall.caller_known
    obtain ⟨k, hk⟩ := List.getElem?_of_mem hw
    have hki : k ≤ i := ih hk hh
    by_contra hlt
    obtain ⟨hkl, rfl⟩ := List.getElem?_eq_some_iff.mp hk
    obtain ⟨hjl, rfl⟩ := List.getElem?_eq_some_iff.mp hv
    have hkj : k < j := by omega
    exact List.pairwise_iff_getElem.mp htop.backward k j hkl hjl hkj h hh g hcall hg

/-- Functions that reach each other are in one group. -/
theorem IsTopology.mem_of_sameComponent (hwf : WellFormed nodes) {groups : List (List String)}
    (htop : IsTopology nodes groups) {f g : String} (hf : f ∈ nodes.map (·.name))
    (hsame : SameComponent nodes f g) {u : List String} (hu : u ∈ groups) (hfu : f ∈ u) : g ∈ u := by
  obtain ⟨v, hv, hgv⟩ := htop.covers g (hsame.1.known hwf hf)
  obtain ⟨i, hi⟩ := List.getElem?_of_mem hu
  obtain ⟨j, hj⟩ := List.getElem?_of_mem hv
  have hij : i = j :=
    Nat.le_antisymm (htop.index_le hsame.2 hj hgv hi hfu) (htop.index_le hsame.1 hi hfu hj hgv)
  rw [hij, hj] at hi
  cases hi
  exact hgv

end CallGraph
end FaultChain
