import FaultChain.Proofs.CallGraph.Reachability

/-!
# Strongly connected components

The components as read off what functions reach are what the search for components is held against.

* `CallGraph.SameComponent`: functions that reach each other.
* `CallGraph.mem_components_iff`, `CallGraph.mem_iff_of_mem_components`: the components are the
  classes of such functions.
-/

namespace FaultChain
namespace CallGraph

variable {nodes : List Node}

/-! ## Functions that reach each other -/

/-- Functions that reach each other. -/
def SameComponent (nodes : List Node) (f g : String) : Prop :=
  Reaches nodes f g ∧ Reaches nodes g f

theorem SameComponent.refl (f : String) : SameComponent nodes f f := ⟨.refl, .refl⟩

theorem SameComponent.symm {f g : String} (h : SameComponent nodes f g) :
    SameComponent nodes g f := ⟨h.2, h.1⟩

theorem SameComponent.trans {f g k : String} (hfg : SameComponent nodes f g)
    (hgk : SameComponent nodes g k) : SameComponent nodes f k :=
  ⟨Relation.ReflTransGen.trans hfg.1 hgk.1, Relation.ReflTransGen.trans hgk.2 hfg.2⟩

/-! ## Components -/

theorem lookup_reachTable {f : String} (hf : f ∈ nodes.map (·.name)) :
    (reachTable nodes).lookup f = some (reach nodes f) := by
  unfold reachTable
  rw [lookup_map_key Node.name]
  cases hfind : nodes.find? fun n => n.name == f with
  | none => exact absurd hf (find?_eq_none_iff.mp hfind)
  | some n =>
    have hname : n.name = f := by simpa using List.find?_some hfind
    rw [Option.map_some, hname]

theorem reaches_reachTable_iff (hwf : WellFormed nodes) {f g : String}
    (hf : f ∈ nodes.map (·.name)) :
    reaches (reachTable nodes) f g = true ↔ Reaches nodes f g := by
  unfold reaches
  rw [lookup_reachTable hf]
  simpa using mem_reach_iff hwf hf

theorem componentOf_eq_filter (f : String) :
    componentOf (reachTable nodes) f =
      (nodes.map (·.name)).filter fun g =>
        reaches (reachTable nodes) f g && reaches (reachTable nodes) g f := by
  -- The row of a known function is what it reaches.
  have hrow : ∀ n ∈ nodes, (reach nodes n.name).contains f =
      reaches (reachTable nodes) n.name f := by
    intro n hn
    unfold reaches
    rw [lookup_reachTable (List.mem_map_of_mem hn)]
    rfl
  unfold componentOf
  generalize hdefs : reaches (reachTable nodes) = known at hrow ⊢
  have hfilter : nodes.filter (fun n => known f n.name && (reach nodes n.name).contains f) =
      nodes.filter (fun n => known f n.name && known n.name f) := by
    refine List.filter_congr ?_
    intro n hn
    rw [hrow n hn]
  unfold reachTable
  simp only [List.filter_map, List.map_map]
  exact congrArg (List.map (·.name)) hfilter

theorem mem_componentOf_iff (hwf : WellFormed nodes) {f g : String}
    (hf : f ∈ nodes.map (·.name)) :
    g ∈ componentOf (reachTable nodes) f ↔ SameComponent nodes f g := by
  rw [componentOf_eq_filter, List.mem_filter, Bool.and_eq_true]
  constructor
  · rintro ⟨hg, hfg, hgf⟩
    exact ⟨(reaches_reachTable_iff hwf hf).mp hfg, (reaches_reachTable_iff hwf hg).mp hgf⟩
  · rintro ⟨hfg, hgf⟩
    have hg := hfg.known hwf hf
    exact ⟨hg, (reaches_reachTable_iff hwf hf).mpr hfg, (reaches_reachTable_iff hwf hg).mpr hgf⟩

theorem componentOf_eq_of_sameComponent (hwf : WellFormed nodes) {f g : String}
    (hf : f ∈ nodes.map (·.name)) (h : SameComponent nodes f g) :
    componentOf (reachTable nodes) f = componentOf (reachTable nodes) g := by
  have hg := h.1.known hwf hf
  rw [componentOf_eq_filter, componentOf_eq_filter]
  refine List.filter_congr ?_
  intro k hk
  rw [Bool.eq_iff_iff, Bool.and_eq_true, Bool.and_eq_true, reaches_reachTable_iff hwf hf,
    reaches_reachTable_iff hwf hk, reaches_reachTable_iff hwf hg, reaches_reachTable_iff hwf hk]
  constructor
  · intro hfk
    exact h.symm.trans hfk
  · intro hgk
    exact h.trans hgk

/-- The components are those of the known functions. -/
theorem mem_components_iff (hwf : WellFormed nodes) {c : List String} :
    c ∈ components nodes ↔
      ∃ f ∈ nodes.map (·.name), c = componentOf (reachTable nodes) f := by
  -- No component is empty: a function is in its own.
  have hself : ∀ f ∈ nodes.map (·.name), componentOf (reachTable nodes) f ≠ [] := by
    intro f hf hnil
    have hmem := (mem_componentOf_iff hwf hf).mpr (SameComponent.refl f)
    rw [hnil] at hmem
    cases hmem
  simp only [components, List.mem_mergeSort, List.mem_eraseDups, List.mem_map, List.mem_filter]
  constructor
  · rintro ⟨⟨w, members⟩, ⟨⟨⟨name, reached⟩, hrow, heq⟩, -⟩, rfl⟩
    obtain ⟨n, hn, hname⟩ := List.mem_map.mp hrow
    cases hname
    cases heq
    exact ⟨n.name, ⟨n, hn, rfl⟩, rfl⟩
  · rintro ⟨f, ⟨n, hn, rfl⟩, rfl⟩
    refine ⟨(_, componentOf (reachTable nodes) n.name),
      ⟨⟨(n.name, reach nodes n.name), List.mem_map_of_mem hn, rfl⟩, ?_⟩, rfl⟩
    simpa using hself n.name (List.mem_map_of_mem hn)

/-- What a component is: the functions that reach and are reached by any of its members. -/
theorem mem_iff_of_mem_components (hwf : WellFormed nodes) {c : List String}
    (hc : c ∈ components nodes) {f : String} (hf : f ∈ c) (g : String) :
    g ∈ c ↔ SameComponent nodes f g := by
  obtain ⟨k, hk, rfl⟩ := (mem_components_iff hwf).mp hc
  have hkf := (mem_componentOf_iff hwf hk).mp hf
  rw [mem_componentOf_iff hwf hk]
  exact ⟨hkf.symm.trans, hkf.trans⟩

theorem known_of_mem_components (hwf : WellFormed nodes) {c : List String}
    (hc : c ∈ components nodes) {f : String} (hf : f ∈ c) : f ∈ nodes.map (·.name) := by
  obtain ⟨k, hk, rfl⟩ := (mem_components_iff hwf).mp hc
  exact ((mem_componentOf_iff hwf hk).mp hf).1.known hwf hk

theorem eq_of_mem_components (hwf : WellFormed nodes) {c d : List String}
    (hc : c ∈ components nodes) (hd : d ∈ components nodes) {f : String} (hfc : f ∈ c)
    (hfd : f ∈ d) : c = d := by
  obtain ⟨j, hj, rfl⟩ := (mem_components_iff hwf).mp hc
  obtain ⟨k, hk, rfl⟩ := (mem_components_iff hwf).mp hd
  rw [componentOf_eq_of_sameComponent hwf hj ((mem_componentOf_iff hwf hj).mp hfc),
    componentOf_eq_of_sameComponent hwf hk ((mem_componentOf_iff hwf hk).mp hfd)]

/-- Components list their functions in increasing order. -/
theorem pairwise_of_mem_components (hwf : WellFormed nodes) {c : List String}
    (hc : c ∈ components nodes) : c.Pairwise (· ≤ ·) ∧ c.Nodup := by
  obtain ⟨k, -, rfl⟩ := (mem_components_iff hwf).mp hc
  rw [componentOf_eq_filter]
  exact ⟨hwf.names_sorted.filter _, hwf.names_nodup.filter _⟩

end CallGraph
end FaultChain
