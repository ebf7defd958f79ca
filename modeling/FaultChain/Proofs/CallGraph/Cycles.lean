import FaultChain.Proofs.CallGraph.Topology

/-!
# Call cycles

The clusters of a computed order are the components that the search finds. A cluster is marked as
cyclic exactly if calls lead from its functions back to them.

* `CallGraph.isCyclic_iff`: the mark of a component.
* `CallGraph.ofInfo_components`: the components of an extracted graph and its clusters.
-/

namespace FaultChain
namespace CallGraph

variable {nodes : List Node}

/-- Components have several functions, or a single one that calls itself, exactly if calls lead from
each of their functions to each of them, itself included. -/
theorem isCyclic_iff {c : List String} (hc : IsComponent nodes c) (hnodup : c.Nodup) {f g : String}
    (hf : f ∈ c) (hg : g ∈ c) :
    isCyclic nodes c = true ↔ Relation.TransGen (Calls nodes) f g := by
  match c, hc, hnodup, hf, hg with
  | [name], hc, _, hf, hg =>
    rw [List.mem_singleton.mp hf, List.mem_singleton.mp hg]
    have hself : isCyclic nodes [name] = true ↔ Calls nodes name name := by
      simp [isCyclic, Calls]
    rw [hself]
    constructor
    · exact .single
    · -- The first function on the way back is in the component, so it is the only one there is.
      intro hcycle
      obtain ⟨k, hcall, hback⟩ := Relation.TransGen.head'_iff.mp hcycle
      have hk : k ∈ [name] := (hc.mem_iff name List.mem_cons_self k).mpr ⟨.single hcall, hback⟩
      rw [List.mem_singleton.mp hk] at hcall
      exact hcall
  | a :: b :: rest, hc, hnodup, hf, hg =>
    have hcyclic : isCyclic nodes (a :: b :: rest) = true := rfl
    refine iff_of_true hcyclic ?_
    -- Some other function is on the way.
    obtain ⟨k, hk, hne⟩ : ∃ k ∈ a :: b :: rest, k ≠ f := by
      by_cases hfa : f = a
      · refine ⟨b, by simp, ?_⟩
        rintro rfl
        exact (List.nodup_cons.mp hnodup).1 (hfa ▸ List.mem_cons_self)
      · exact ⟨a, by simp, fun h => hfa h.symm⟩
    have hfk : Reaches nodes f k := ((hc.mem_iff f hf k).mp hk).1
    have hkg : Reaches nodes k g := ((hc.mem_iff k hk g).mp hg).1
    rcases Relation.reflTransGen_iff_eq_or_transGen.mp hfk with heq | hway
    · exact absurd heq hne
    · exact hway.trans_left hkg

theorem nodup_of_mem_stronglyConnected (hwf : WellFormed nodes) {c : List String}
    (hc : c ∈ stronglyConnected nodes) : c.Nodup := by
  have hflat := (perm_flatten_stronglyConnected hwf).nodup_iff.mpr hwf.names_nodup
  exact (List.nodup_flatten.mp hflat).1 c hc

theorem cyclic_of_mem_topology {info : List (String × NodeInfo)} {u : Cluster}
    (hu : u ∈ (ofInfo info).topology) : u.cyclic = isCyclic (ofInfo info).nodes u.functions := by
  obtain ⟨c, -, rfl⟩ := List.mem_map.mp hu
  rfl

/-- The components of an extracted graph list every function once, in increasing order; functions are
listed together if they reach each other, and no component is listed before one that it reaches. The
clusters of the computed order are these components, and they are marked as cyclic exactly if calls
lead from their functions back to them. -/
theorem ofInfo_components (info : List (String × NodeInfo)) :
    let cg := ofInfo info
    let found := stronglyConnected cg.nodes
    found.flatten.Perm cg.functions ∧
    (∀ c ∈ found, c ≠ [] ∧ c.Pairwise (· < ·)) ∧
    (∀ f ∈ cg.functions, ∀ g,
      (∃ c ∈ found, f ∈ c ∧ g ∈ c) ↔ Reaches cg.nodes f g ∧ Reaches cg.nodes g f) ∧
    (∀ (i j : Nat) (c d : List String), found[i]? = some c → found[j]? = some d →
      ∀ f ∈ c, ∀ g ∈ d, Reaches cg.nodes f g → j ≤ i) ∧
    (cg.topology.map (·.functions)).Perm found ∧
    (∀ u ∈ cg.topology, ∀ f ∈ u.functions, ∀ g ∈ u.functions,
      (u.cyclic = true ↔ Relation.TransGen (Calls cg.nodes) f g)) := by
  intro cg found
  have hwf : WellFormed cg.nodes := wellFormed_nodesOf info
  have hcomponent : ∀ c ∈ found, IsComponent cg.nodes c :=
    fun _ hc => isComponent_of_mem_stronglyConnected hwf hc
  have hnodup : ∀ c ∈ found, c.Nodup := fun _ hc => nodup_of_mem_stronglyConnected hwf hc
  have hperm : found.flatten.Perm cg.functions := perm_flatten_stronglyConnected hwf
  have hgroups : (cg.topology.map (·.functions)).Perm found := perm_groups_stronglyConnected info
  refine ⟨hperm, ?_, ?_, ?_, hgroups, ?_⟩
  · intro c hc
    refine ⟨(hcomponent c hc).ne_nil, ?_⟩
    refine List.Pairwise.imp₂ ?_ (hcomponent c hc).sorted (hnodup c hc)
    intro a b hle hne
    exact String.not_le.mp fun hge => hne (String.le_antisymm hle hge)
  · intro f hf g
    constructor
    · rintro ⟨c, hc, hfc, hgc⟩
      exact ((hcomponent c hc).mem_iff f hfc g).mp hgc
    · intro hboth
      obtain ⟨c, hc, hfc⟩ := List.mem_flatten.mp (hperm.mem_iff.mpr hf)
      exact ⟨c, hc, hfc, ((hcomponent c hc).mem_iff f hfc g).mpr hboth⟩
  · intro i j c d hi hj f hf g hg hreach
    -- No component reaches one that was found after it.
    by_contra hlt
    obtain ⟨hi', rfl⟩ := List.getElem?_eq_some_iff.mp hi
    obtain ⟨hj', rfl⟩ := List.getElem?_eq_some_iff.mp hj
    have hpairs := List.pairwise_iff_getElem.mp (stronglyConnected_pairwise hwf)
    exact hpairs i j hi' hj' (Nat.not_le.mp hlt) f hf g hg hreach
  · intro u hu f hf g hg
    have hmem : u.functions ∈ found := hgroups.mem_iff.mp (List.mem_map_of_mem hu)
    rw [cyclic_of_mem_topology hu]
    exact isCyclic_iff (hcomponent _ hmem) (hnodup _ hmem) hf hg

end CallGraph
end FaultChain
