import FaultChain.Proofs.CallGraph.Topology

/-!
# The least freed component first

At each step the computed order goes on with the component that has the least name among those whose
callees are listed. This leaves no choice: the order does not depend on how the functions of a
program, the components found or the sets of components in between are gone through.

* `CallGraph.LeastFirst.unique`: there is one such order of given groups.
* `CallGraph.ofInfo_least_first`: the computed order is this one.
-/

namespace FaultChain
namespace CallGraph

variable {nodes : List Node}

/-- Orders of the same groups that agree up to some place agree on what follows. -/
theorem LeastFirst.unique_after (before : List (List String)) {rest rest' : List (List String)}
    (hperm : rest.Perm rest')
    (h : LeastFirst nodes (before ++ rest)) (h' : LeastFirst nodes (before ++ rest')) :
    rest = rest' := by
  induction rest generalizing before rest' with
  | nil => exact hperm.nil_eq
  | cons c rest ih =>
    cases rest' with
    | nil => exact absurd hperm.eq_nil (List.cons_ne_nil _ _)
    | cons d rest' =>
      obtain ⟨hfreed, hleast⟩ := h before c rest rfl
      obtain ⟨hfreed', hleast'⟩ := h' before d rest' rfl
      have hcd : c = d := by
        by_contra hne
        -- Both are freed by then, and each of them would have the least name.
        have hc : c ∈ rest' :=
          (List.mem_cons.mp (hperm.mem_iff.mp List.mem_cons_self)).resolve_left hne
        have hd : d ∈ rest :=
          (List.mem_cons.mp (hperm.mem_iff.mpr List.mem_cons_self)).resolve_left (Ne.symm hne)
        obtain ⟨f, hf, hlt⟩ := hleast d hd hfreed'
        obtain ⟨g, hg, hlt'⟩ := hleast' c hc hfreed
        exact String.lt_asymm (hlt g hg) (hlt' f hf)
      subst hcd
      have hrest : rest = rest' := by
        refine ih (before ++ [c]) hperm.cons_inv ?_ ?_
        · simpa using h
        · simpa using h'
      rw [hrest]

/-- Groups have one order in which the least freed one always comes first. -/
theorem LeastFirst.unique {groups groups' : List (List String)} (hperm : groups.Perm groups')
    (h : LeastFirst nodes groups) (h' : LeastFirst nodes groups') : groups = groups' :=
  LeastFirst.unique_after [] hperm h h'

/-- The computed order lists every component once, and always goes on with the one that has the
least name among the components that call only into themselves and into what is listed. It is the
only such order, it is the same in whatever orders functions, components and sets of components are
gone through, and calls between different clusters lead to earlier ones. -/
theorem ofInfo_least_first (info : List (String × NodeInfo)) :
    let cg := ofInfo info
    let found := stronglyConnected cg.nodes
    cg.groups.flatten.Perm cg.functions ∧
    (∀ u ∈ cg.groups, ∀ f ∈ u, ∀ g, g ∈ u ↔ Reaches cg.nodes f g ∧ Reaches cg.nodes g f) ∧
    cg.groups.Perm found ∧
    LeastFirst cg.nodes cg.groups ∧
    (∀ groups, groups.Perm found → LeastFirst cg.nodes groups → groups = cg.groups) ∧
    ((info.map (·.1)).Nodup → ∀ (e : Enumeration) (linking storing : List (String × NodeInfo))
      (comps : List (List String)), linking.Perm info → storing.Perm info → comps.Perm found →
      nodesIn linking storing = cg.nodes ∧
        clustersOf e (nodesIn linking storing) comps = cg.topology) ∧
    (∀ (i j : Nat) (u v : Cluster), cg.topology[i]? = some u → cg.topology[j]? = some v → i ≠ j →
      ∀ f ∈ u.functions, ∀ g ∈ v.functions, Calls cg.nodes f g → j < i) := by
  intro cg found
  have hwf : WellFormed cg.nodes := wellFormed_nodesOf info
  have hperm : cg.groups.Perm found := perm_groups_stronglyConnected info
  have hleast : LeastFirst cg.nodes cg.groups := leastFirst_groups info
  have hunique : ∀ groups, groups.Perm found → LeastFirst cg.nodes groups → groups = cg.groups :=
    fun groups hgroups h => LeastFirst.unique (hgroups.trans hperm.symm) h hleast
  refine ⟨hperm.flatten.trans (perm_flatten_stronglyConnected hwf), ?_, hperm, hleast, hunique, ?_,
    ?_⟩
  · exact fun u hu f hf g => sameComponent_iff_of_mem_groups hu hf g
  · intro hdistinct e linking storing comps hlinking hstoring hcomps
    have hnodes : nodesIn linking storing = cg.nodes := nodesIn_perm hdistinct hlinking hstoring
    refine ⟨hnodes, ?_⟩
    obtain ⟨hlisted, hleastListed⟩ := listComponents_spec e hwf hcomps
    -- Every enumeration lists the components least first, which is possible in one way only.
    have hsame : listComponents e cg.nodes comps =
        listComponents .asFilled cg.nodes (stronglyConnected cg.nodes) := by
      rw [hunique _ (hlisted.trans hcomps) hleastListed]
      exact groups_ofInfo info
    rw [hnodes, clustersOf, hsame]
    rfl
  · intro i j u v hu hv hne f hf g hg hcall
    have hgroup : ∀ {k : Nat} {w : Cluster}, cg.topology[k]? = some w →
        cg.groups[k]? = some w.functions := fun hk => by simp [groups, hk]
    -- A call into a later cluster would contradict the topology.
    have hbackward := (isTopology_ofInfo info).backward
    by_contra hge
    obtain ⟨hi, hi'⟩ := List.getElem?_eq_some_iff.mp (hgroup hu)
    obtain ⟨hj, hj'⟩ := List.getElem?_eq_some_iff.mp (hgroup hv)
    have hlt : i < j := Nat.lt_of_le_of_ne (Nat.not_lt.mp hge) hne
    exact List.pairwise_iff_getElem.mp hbackward i j hi hj hlt f (hi' ▸ hf) g hcall (hj' ▸ hg)

end CallGraph
end FaultChain
