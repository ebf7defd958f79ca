import Mathlib.Logic.Relation
import FaultChain.CallGraph.Components
import FaultChain.Proofs.CallGraph.Nodes

/-!
# Reachability in a call graph

* `CallGraph.Reaches`: reachability through calls, as a relation.
* `CallGraph.mem_reach_iff`: the functions visited from a function are those it reaches.
-/

namespace FaultChain
namespace CallGraph

section

variable {nodes : List Node}

theorem find?_eq_some_iff (hwf : WellFormed nodes) {name : String} {n : Node} :
    find? nodes name = some n ↔ n ∈ nodes ∧ n.name = name :=
  find?_key_eq_some_iff hwf.names_nodup

theorem find?_eq_none_iff {name : String} :
    find? nodes name = none ↔ name ∉ nodes.map (·.name) := by
  unfold find?
  rw [List.find?_eq_none]
  simp

/-- A function that calls another one. -/
def Calls (nodes : List Node) (f g : String) : Prop := g ∈ callsIn nodes f

theorem Calls.caller_known {f g : String} (h : Calls nodes f g) : f ∈ nodes.map (·.name) := by
  by_contra hf
  unfold Calls callsIn at h
  rw [find?_eq_none_iff.mpr hf] at h
  cases h

theorem Calls.callee_known (hwf : WellFormed nodes) {f g : String} (h : Calls nodes f g) :
    g ∈ nodes.map (·.name) := by
  unfold Calls callsIn at h
  split at h
  · rename_i n hn
    exact hwf.calls_known n ((find?_eq_some_iff hwf).mp hn).1 g h
  · cases h

theorem nodup_callsIn (hwf : WellFormed nodes) (f : String) : (callsIn nodes f).Nodup := by
  unfold callsIn
  split
  · rename_i n hn
    exact hwf.calls_nodup n ((find?_eq_some_iff hwf).mp hn).1
  · exact List.nodup_nil

theorem calls_iff (hwf : WellFormed nodes) {f g : String} :
    Calls nodes f g ↔ ∃ n ∈ nodes, n.name = f ∧ g ∈ n.calls := by
  constructor
  · intro hcall
    unfold Calls callsIn at hcall
    split at hcall
    · rename_i n hn
      obtain ⟨hmem, hname⟩ := (find?_eq_some_iff hwf).mp hn
      exact ⟨n, hmem, hname, hcall⟩
    · cases hcall
  · rintro ⟨n, hn, hname, hg⟩
    unfold Calls callsIn
    rw [(find?_eq_some_iff hwf).mpr ⟨hn, hname⟩]
    exact hg

/-- Reachability through calls. -/
def Reaches (nodes : List Node) : String → String → Prop := Relation.ReflTransGen (Calls nodes)

theorem Reaches.known (hwf : WellFormed nodes) {f g : String} (h : Reaches nodes f g)
    (hf : f ∈ nodes.map (·.name)) : g ∈ nodes.map (·.name) := by
  induction h with
  | refl => exact hf
  | tail _ hcall _ => exact hcall.callee_known hwf

/-! ## Visiting -/

/-- Nothing is forgotten: what was visited or is known and still to do is visited in the end. -/
theorem mem_explore_of_mem {todo visited : List String} {x : String}
    (h : x ∈ visited ∨ (x ∈ todo ∧ x ∈ nodes.map (·.name))) :
    x ∈ explore nodes todo visited := by
  -- The first name to do is passed over as visited or unknown, or visited with its calls to do.
  fun_induction explore nodes todo visited with
  | case1 visited =>
    rcases h with h | ⟨h, -⟩
    · exact h
    · cases h
  | case2 visited name rest hv ih =>
    refine ih ?_
    rcases h with h | ⟨h, hk⟩
    · exact Or.inl h
    · rcases List.mem_cons.mp h with rfl | h
      · exact Or.inl (by simpa using hv)
      · exact Or.inr ⟨h, hk⟩
  | case3 visited name rest hv hn ih =>
    refine ih ?_
    rcases h with h | ⟨h, hk⟩
    · exact Or.inl h
    · rcases List.mem_cons.mp h with rfl | h
      · exact absurd hk (find?_eq_none_iff.mp hn)
      · exact Or.inr ⟨h, hk⟩
  | case4 visited name rest hv n hn ih =>
    refine ih ?_
    rcases h with h | ⟨h, hk⟩
    · exact Or.inl (List.mem_cons_of_mem _ h)
    · rcases List.mem_cons.mp h with rfl | h
      · exact Or.inl List.mem_cons_self
      · exact Or.inr ⟨List.mem_append_right _ h, hk⟩

/-- What is visited in the end was visited before or is reached from what was to do. -/
theorem of_mem_explore {todo visited : List String} {x : String}
    (h : x ∈ explore nodes todo visited) :
    x ∈ visited ∨ ∃ t ∈ todo, Reaches nodes t x := by
  fun_induction explore nodes todo visited with
  | case1 visited => exact Or.inl h
  | case2 visited name rest hv ih =>
    rcases ih h with h | ⟨t, ht, hreach⟩
    · exact Or.inl h
    · exact Or.inr ⟨t, List.mem_cons_of_mem _ ht, hreach⟩
  | case3 visited name rest hv hn ih =>
    rcases ih h with h | ⟨t, ht, hreach⟩
    · exact Or.inl h
    · exact Or.inr ⟨t, List.mem_cons_of_mem _ ht, hreach⟩
  | case4 visited name rest hv n hn ih =>
    rcases ih h with h | ⟨t, ht, hreach⟩
    · rcases List.mem_cons.mp h with rfl | h
      · exact Or.inr ⟨x, List.mem_cons_self, .refl⟩
      · exact Or.inl h
    · rcases List.mem_append.mp ht with ht | ht
      -- What was put in front is called by the function just visited.
      · have hcall : Calls nodes name t := by
          unfold Calls callsIn
          rw [hn]
          exact ht
        exact Or.inr ⟨name, List.mem_cons_self, .head hcall hreach⟩
      · exact Or.inr ⟨t, List.mem_cons_of_mem _ ht, hreach⟩

/-- If the calls of everything visited are visited or still to do, nothing visited in the end calls
anything else. -/
theorem explore_closed (hwf : WellFormed nodes) {todo visited : List String}
    (hclosed : ∀ f ∈ visited, ∀ g, Calls nodes f g → g ∈ visited ∨ g ∈ todo) :
    ∀ f ∈ explore nodes todo visited, ∀ g, Calls nodes f g → g ∈ explore nodes todo visited := by
  fun_induction explore nodes todo visited with
  | case1 visited =>
    intro f hf g hcall
    rcases hclosed f hf g hcall with h | h
    · exact h
    · cases h
  | case2 visited name rest hv ih =>
    refine ih ?_
    intro f hf g hcall
    rcases hclosed f hf g hcall with h | h
    · exact Or.inl h
    · rcases List.mem_cons.mp h with rfl | h
      · exact Or.inl (by simpa using hv)
      · exact Or.inr h
  | case3 visited name rest hv hn ih =>
    refine ih ?_
    intro f hf g hcall
    rcases hclosed f hf g hcall with h | h
    · exact Or.inl h
    · rcases List.mem_cons.mp h with rfl | h
      -- Functions that are called are known, so none is passed over as unknown.
      · exact absurd (hcall.callee_known hwf) (find?_eq_none_iff.mp hn)
      · exact Or.inr h
  | case4 visited name rest hv n hn ih =>
    refine ih ?_
    intro f hf g hcall
    rcases List.mem_cons.mp hf with rfl | hf
    · have hg : g ∈ n.calls := by
        unfold Calls callsIn at hcall
        rw [hn] at hcall
        exact hcall
      exact Or.inr (List.mem_append_left _ hg)
    · rcases hclosed f hf g hcall with h | h
      · exact Or.inl (List.mem_cons_of_mem _ h)
      · rcases List.mem_cons.mp h with rfl | h
        · exact Or.inl List.mem_cons_self
        · exact Or.inr (List.mem_append_right _ h)

/-- The functions visited from a known function are those it reaches. -/
theorem mem_reach_iff (hwf : WellFormed nodes) {f g : String} (hf : f ∈ nodes.map (·.name)) :
    g ∈ reach nodes f ↔ Reaches nodes f g := by
  unfold reach
  constructor
  · intro h
    rcases of_mem_explore h with h | ⟨t, ht, hreach⟩
    · cases h
    · rw [List.mem_singleton.mp ht] at hreach
      exact hreach
  · intro h
    have hstart : f ∈ explore nodes [f] [] := mem_explore_of_mem (Or.inr ⟨by simp, hf⟩)
    induction h with
    | refl => exact hstart
    | tail _ hcall ih =>
      exact explore_closed hwf (fun _ h => absurd h List.not_mem_nil) _ ih _ hcall

end

end CallGraph
end FaultChain
