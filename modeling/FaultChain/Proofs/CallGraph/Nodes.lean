import Mathlib.Data.List.Induction
import FaultChain.CallGraph.Basic
import FaultChain.Proofs.Lists

/-!
# The nodes of a call graph

The functions of a program are gone through twice: once to note their calls at both ends, and once
to store them in the order of their names. Neither order shows in the result.

* `CallGraph.mem_gather_calls_iff`, `CallGraph.calledBy_gather`: what is noted of the calls.
* `CallGraph.WellFormed`: names are different and calls lead to known functions, which holds of the
  nodes of every extracted graph.
* `CallGraph.mem_nodesIn_iff`, `CallGraph.nodesIn_perm`: the nodes do not depend on the orders.
-/

namespace FaultChain
namespace CallGraph

/-! ## Sorted sets of names -/

@[simp] theorem mem_sortedSet {names : List String} {name : String} :
    name ∈ sortedSet names ↔ name ∈ names := by
  simp [sortedSet, List.mem_eraseDups]

theorem nodup_sortedSet (names : List String) : (sortedSet names).Nodup :=
  (List.mergeSort_perm _ _).nodup_iff.mpr (nodup_eraseDups names)

theorem pairwise_mergeSort_names (names : List String) :
    (names.mergeSort (· ≤ ·)).Pairwise (· ≤ ·) := pairwise_mergeSort_le names

theorem pairwise_lt_sortedSet (names : List String) : (sortedSet names).Pairwise (· < ·) :=
  pairwise_lt_mergeSort (nodup_eraseDups names)

/-- A sorted set is known from its members. -/
theorem sortedSet_congr {xs ys : List String} (h : ∀ x, x ∈ xs ↔ x ∈ ys) :
    sortedSet xs = sortedSet ys := mergeSort_eraseDups_congr h

/-! ## Links -/

section

variable {info linking storing entries : List (String × NodeInfo)}

theorem isSome_lookup_iff {name : String} :
    (entries.lookup name).isSome = true ↔ name ∈ entries.map (·.1) := by
  induction entries with
  | nil => simp
  | cons entry rest ih =>
    by_cases h : name = entry.1
    · simp [h]
    · rw [lookup_cons_of_ne h, ih, List.map_cons, List.mem_cons]
      exact (or_iff_right h).symm

namespace Links

theorem mem_addCalls_iff (known : String → Bool) (l : Links) (entry : String × NodeInfo)
    {f g : String} : (f, g) ∈ (l.addCalls known entry).calls ↔
      (f, g) ∈ l.calls ∨ f = entry.1 ∧ g ∈ entry.2.calls ∧ known g = true := by
  unfold addCalls
  generalize entry.2.calls = callees
  induction callees generalizing l with
  | nil => simp
  | cons callee callees ih =>
    rw [List.foldl_cons, ih, List.mem_cons]
    split
    · simp only [add, List.mem_cons, Prod.mk.injEq]
      grind
    · grind

theorem calledBy_addCalls (known : String → Bool) {l : Links} (entry : String × NodeInfo)
    (h : l.calledBy = l.calls.map Prod.swap) :
    (l.addCalls known entry).calledBy = (l.addCalls known entry).calls.map Prod.swap := by
  unfold addCalls
  generalize entry.2.calls = callees
  induction callees generalizing l with
  | nil => exact h
  | cons callee callees ih =>
    rw [List.foldl_cons]
    refine ih ?_
    split
    · simp [add, h]
    · exact h

/-- The calls that are noted are those to known functions. -/
theorem mem_gather_calls_iff {f g : String} :
    (f, g) ∈ (gather entries).calls ↔
      (∃ n, (f, n) ∈ entries ∧ g ∈ n.calls) ∧ g ∈ entries.map (·.1) := by
  -- With any notes to start from.
  have hfold : ∀ (es : List (String × NodeInfo)) (l : Links),
      (f, g) ∈ (es.foldl (addCalls fun name => (entries.lookup name).isSome) l).calls ↔
        (f, g) ∈ l.calls ∨ (∃ n, (f, n) ∈ es ∧ g ∈ n.calls) ∧ g ∈ entries.map (·.1) := by
    intro es
    induction es with
    | nil => simp
    | cons entry es ih =>
      intro l
      rw [List.foldl_cons, ih, mem_addCalls_iff, isSome_lookup_iff]
      obtain ⟨name, n⟩ := entry
      simp only [List.mem_cons, Prod.mk.injEq]
      grind
  simpa [gather] using hfold entries {}

/-- Each call is noted at both ends. -/
theorem calledBy_gather (entries : List (String × NodeInfo)) :
    (gather entries).calledBy = (gather entries).calls.map Prod.swap := by
  have hfold : ∀ (known : String → Bool) (es : List (String × NodeInfo)) (l : Links),
      l.calledBy = l.calls.map Prod.swap →
        (es.foldl (addCalls known) l).calledBy =
          (es.foldl (addCalls known) l).calls.map Prod.swap := by
    intro known es
    induction es with
    | nil => exact fun _ h => h
    | cons entry es ih => exact fun l h => ih _ (calledBy_addCalls known entry h)
  exact hfold _ entries {} rfl

theorem mem_gather_calledBy_iff {f g : String} :
    (g, f) ∈ (gather entries).calledBy ↔ (f, g) ∈ (gather entries).calls := by
  rw [calledBy_gather, List.mem_map]
  constructor
  · rintro ⟨⟨a, b⟩, hmem, heq⟩
    cases heq
    exact hmem
  · exact fun hmem => ⟨(f, g), hmem, rfl⟩

theorem mem_under_iff {notes : List (String × String)} {name x : String} :
    x ∈ under notes name ↔ (name, x) ∈ notes := by
  simp [under]

theorem mem_calls_node_iff {l : Links} {entry : String × NodeInfo} {g : String} :
    g ∈ (l.node entry).calls ↔ (entry.1, g) ∈ l.calls := mem_under_iff

theorem mem_calledBy_node_iff {l : Links} {entry : String × NodeInfo} {g : String} :
    g ∈ (l.node entry).calledBy ↔ (entry.1, g) ∈ l.calledBy := mem_under_iff

/-- What is noted does not depend on the order in which functions are gone through. -/
theorem node_gather_perm (h : linking.Perm info) (entry : String × NodeInfo) :
    (gather linking).node entry = (gather info).node entry := by
  have hcalls : ∀ f g, (f, g) ∈ (gather linking).calls ↔ (f, g) ∈ (gather info).calls := by
    intro f g
    rw [mem_gather_calls_iff, mem_gather_calls_iff, (h.map _).mem_iff]
    simp only [h.mem_iff]
  -- What is listed under a name is sorted, so only membership counts.
  have hunder : ∀ {notes notes' : List (String × String)} {name : String},
      (∀ x, (name, x) ∈ notes ↔ (name, x) ∈ notes') → under notes name = under notes' name := by
    intro notes notes' name hsame
    refine sortedSet_congr fun x => ?_
    simpa using hsame x
  have hcallees : under (gather linking).calls entry.1 = under (gather info).calls entry.1 :=
    hunder fun g => hcalls entry.1 g
  have hcallers : under (gather linking).calledBy entry.1 = under (gather info).calledBy entry.1 :=
    hunder fun f => by rw [mem_gather_calledBy_iff, mem_gather_calledBy_iff, hcalls f entry.1]
  unfold node
  rw [hcallees, hcallers]

end Links

/-! ## Storing -/

/-- Nodes in the order of their names, which are different. -/
def InOrder (nodes : List Node) : Prop := nodes.Pairwise fun m n => m.name < n.name

theorem InOrder.nodup {nodes : List Node} (h : InOrder nodes) : nodes.Nodup := by
  refine List.Pairwise.imp ?_ h
  rintro m n hlt rfl
  exact String.lt_irrefl _ hlt

/-- Nodes in the order of their names are known from their members. -/
theorem InOrder.eq_of_mem_iff {nodes nodes' : List Node} (h : InOrder nodes) (h' : InOrder nodes')
    (hmem : ∀ m, m ∈ nodes ↔ m ∈ nodes') : nodes = nodes' := by
  have hperm : nodes.Perm nodes' := (List.perm_ext_iff_of_nodup h.nodup h'.nodup).mpr hmem
  exact hperm.eq_of_pairwise (fun m n _ _ hmn hnm => absurd hnm (String.lt_asymm hmn)) h h'

theorem mem_putNode_iff {nodes : List Node} (h : InOrder nodes) {m n : Node} :
    m ∈ putNode nodes n ↔ m = n ∨ m ∈ nodes ∧ m.name ≠ n.name := by
  induction nodes with
  | nil => simp [putNode]
  | cons k rest ih =>
    obtain ⟨hfirst, hrest⟩ := List.pairwise_cons.mp h
    unfold putNode
    split
    · -- All that is stored already comes later.
      rename_i hlt
      have hlater : ∀ m ∈ k :: rest, m.name ≠ n.name := by
        intro m hm
        rcases List.mem_cons.mp hm with rfl | hm
        · exact (Std.ne_of_lt hlt).symm
        · exact (Std.ne_of_lt (String.lt_trans hlt (hfirst m hm))).symm
      rw [List.mem_cons]
      exact or_congr_right ⟨fun hm => ⟨hm, hlater m hm⟩, And.left⟩
    · split
      · rename_i heq
        have hlater : ∀ m ∈ rest, m.name ≠ n.name := by
          intro m hm
          rw [heq]
          exact (Std.ne_of_lt (hfirst m hm)).symm
        grind
      · rw [List.mem_cons, ih hrest, List.mem_cons]
        grind

theorem inOrder_putNode {nodes : List Node} (h : InOrder nodes) (n : Node) :
    InOrder (putNode nodes n) := by
  induction nodes with
  | nil => exact List.pairwise_singleton _ _
  | cons k rest ih =>
    obtain ⟨hfirst, hrest⟩ := List.pairwise_cons.mp h
    unfold putNode
    split
    -- A new name goes in front of the first greater one, a known one takes the place of its node.
    · rename_i hlt
      refine List.pairwise_cons.mpr ⟨?_, h⟩
      intro m hm
      rcases List.mem_cons.mp hm with rfl | hm
      · exact hlt
      · exact String.lt_trans hlt (hfirst m hm)
    · rename_i hnlt
      split
      · rename_i heq
        exact List.pairwise_cons.mpr ⟨fun m hm => heq ▸ hfirst m hm, hrest⟩
      · rename_i hne
        refine List.pairwise_cons.mpr ⟨?_, ih hrest⟩
        intro m hm
        rcases (mem_putNode_iff hrest).mp hm with rfl | ⟨hm, -⟩
        · exact Std.lt_of_le_of_ne (String.not_lt.mp hnlt) (Ne.symm hne)
        · exact hfirst m hm

/-- The nodes that are stored: one for each name, as it was noted last. -/
theorem foldl_putNode_spec (l : Links) (storing : List (String × NodeInfo)) :
    let nodes := storing.foldl (fun nodes entry => putNode nodes (l.node entry)) []
    InOrder nodes ∧ (∀ m ∈ nodes, ∃ entry ∈ storing, m = l.node entry) ∧
      (∀ entry ∈ storing, entry.1 ∈ nodes.map (·.name)) ∧
      ((storing.map (·.1)).Nodup → ∀ entry ∈ storing, l.node entry ∈ nodes) := by
  induction storing using List.reverseRecOn with
  | nil => exact ⟨List.Pairwise.nil, by simp, by simp, by simp⟩
  | append_singleton storing entry ih =>
    obtain ⟨horder, hfrom, hnames, hall⟩ := ih
    simp only [List.foldl_append, List.foldl_cons, List.foldl_nil] at horder hfrom hnames hall ⊢
    generalize storing.foldl (fun nodes entry => putNode nodes (l.node entry)) [] = nodes at *
    have hmem : ∀ m, m ∈ putNode nodes (l.node entry) ↔
        m = l.node entry ∨ m ∈ nodes ∧ m.name ≠ entry.1 := fun m => mem_putNode_iff horder
    refine ⟨inOrder_putNode horder _, ?_, ?_, ?_⟩
    · intro m hm
      rcases (hmem m).mp hm with rfl | ⟨hm, -⟩
      · exact ⟨entry, by simp, rfl⟩
      · obtain ⟨entry', hentry', rfl⟩ := hfrom m hm
        exact ⟨entry', by simp [hentry'], rfl⟩
    · intro entry' hentry'
      rw [List.mem_map]
      by_cases heq : entry'.1 = entry.1
      · exact ⟨l.node entry, (hmem _).mpr (Or.inl rfl), heq.symm⟩
      -- Another name was stored before.
      · have hearlier : entry' ∈ storing := by
          rcases List.mem_append.mp hentry' with h | h
          · exact h
          · exact absurd (List.mem_singleton.mp h ▸ rfl) heq
        obtain ⟨m, hm, hname⟩ := List.mem_map.mp (hnames entry' hearlier)
        exact ⟨m, (hmem m).mpr (Or.inr ⟨hm, hname ▸ heq⟩), hname⟩
    · intro hdistinct entry' hentry'
      rw [List.map_append, List.nodup_append] at hdistinct
      obtain ⟨hdistinct, -, hnew⟩ := hdistinct
      rcases List.mem_append.mp hentry' with h | h
      · refine (hmem _).mpr (Or.inr ⟨hall hdistinct entry' h, ?_⟩)
        exact hnew entry'.1 (List.mem_map_of_mem h) entry.1 (by simp)
      · exact (hmem _).mpr (Or.inl (List.mem_singleton.mp h ▸ rfl))

theorem inOrder_nodesIn (linking storing : List (String × NodeInfo)) :
    InOrder (nodesIn linking storing) :=
  (foldl_putNode_spec (Links.gather linking) storing).1

/-- The nodes are those of the functions that are given. -/
theorem mem_nodesIn_iff (hdistinct : (info.map (·.1)).Nodup) (hlinking : linking.Perm info)
    (hstoring : storing.Perm info) {m : Node} :
    m ∈ nodesIn linking storing ↔ ∃ entry ∈ info, m = (Links.gather info).node entry := by
  obtain ⟨-, hfrom, -, hall⟩ := foldl_putNode_spec (Links.gather linking) storing
  constructor
  · intro hm
    obtain ⟨entry, hentry, rfl⟩ := hfrom m hm
    exact ⟨entry, hstoring.mem_iff.mp hentry, Links.node_gather_perm hlinking entry⟩
  · rintro ⟨entry, hentry, rfl⟩
    rw [← Links.node_gather_perm hlinking entry]
    exact hall ((hstoring.map _).nodup_iff.mpr hdistinct) entry (hstoring.mem_iff.mpr hentry)

/-- The nodes do not depend on the orders in which the functions are gone through. -/
theorem nodesIn_perm (hdistinct : (info.map (·.1)).Nodup) (hlinking : linking.Perm info)
    (hstoring : storing.Perm info) : nodesIn linking storing = nodesOf info := by
  refine (inOrder_nodesIn _ _).eq_of_mem_iff (inOrder_nodesIn _ _) fun m => ?_
  exact (mem_nodesIn_iff hdistinct hlinking hstoring).trans
    (mem_nodesIn_iff hdistinct (.refl info) (.refl info)).symm

/-! ## Well-formed graphs -/

/-- Names are different and sorted, and the calls of a function are different known functions. -/
structure WellFormed (nodes : List Node) : Prop where
  names_nodup : (nodes.map (·.name)).Nodup
  names_sorted : (nodes.map (·.name)).Pairwise (· ≤ ·)
  calls_known : ∀ n ∈ nodes, ∀ g ∈ n.calls, g ∈ nodes.map (·.name)
  calls_nodup : ∀ n ∈ nodes, n.calls.Nodup

theorem wellFormed_nodesOf (info : List (String × NodeInfo)) : WellFormed (nodesOf info) := by
  obtain ⟨horder, hfrom, hnames, -⟩ := foldl_putNode_spec (Links.gather info) info
  change InOrder (nodesOf info) at horder
  have hlt : ((nodesOf info).map (·.name)).Pairwise (· < ·) := List.pairwise_map.mpr horder
  refine ⟨hlt.imp Std.ne_of_lt, hlt.imp fun h => Std.le_of_lt h, ?_, ?_⟩
  · intro n hn g hg
    obtain ⟨entry, -, rfl⟩ := hfrom n hn
    obtain ⟨-, hknown⟩ := Links.mem_gather_calls_iff.mp (Links.mem_calls_node_iff.mp hg)
    obtain ⟨entry', hentry', rfl⟩ := List.mem_map.mp hknown
    exact hnames entry' hentry'
  · intro n hn
    obtain ⟨entry, -, rfl⟩ := hfrom n hn
    exact nodup_sortedSet _

end

end CallGraph
end FaultChain
