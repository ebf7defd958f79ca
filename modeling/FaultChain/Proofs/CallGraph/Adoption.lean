import FaultChain.Proofs.CallGraph.Listing

/-!
# Taking over a reported order

Groups are taken over one after another, and the first function that is unknown or was listed before
ends it. What is left to ask in the end is that there are as many functions as the graph has, and that
no call leads to a greater number. Together these say that the groups list every function once, and
that no group calls into a later one.

* `CallGraph.Agreement`: what is asked of reported groups.
* `CallGraph.Adoption.Holds`: what is noted of groups that were taken over.
* `CallGraph.adopt?_eq_some_iff`: which groups are taken over, and as what.
-/

namespace FaultChain
namespace CallGraph

variable {nodes : List Node} {cg : CallGraph}

/-- Groups that list every function once, with no call into a later group. -/
structure Agreement (nodes : List Node) (groups : List (List String)) : Prop where
  nonempty : ∀ u ∈ groups, u ≠ []
  perm : groups.flatten.Perm (nodes.map (·.name))
  backward : groups.Pairwise fun u v => ∀ f ∈ u, ∀ g, Calls nodes f g → g ∉ v

/-- The cluster of a reported group. -/
def clusterOf (nodes : List Node) (group : List String) : Cluster :=
  let members := group.mergeSort (· ≤ ·)
  { functions := members, cyclic := isCyclic nodes members }

theorem contains_iff {f : String} : cg.contains f = true ↔ f ∈ cg.nodes.map (·.name) := by
  unfold contains node?
  rw [← not_iff_not, Bool.not_eq_true, Option.isSome_eq_false_iff, Option.isNone_iff_eq_none]
  exact find?_eq_none_iff

namespace Adoption

variable {done groups : List (List String)} {group : List String} {a b : Adoption}
  {number : Nat} {names : List String} {name f : String} {position position' : List (String × Nat)}

/-! ## One group -/

theorem place_eq_some_iff :
    place cg number position name = some position' ↔
      (name ∈ cg.nodes.map (·.name) ∧ position.lookup name = none) ∧
        position' = (name, number) :: position := by
  unfold place
  rw [← contains_iff, ← Option.isNone_iff_eq_none, ← Bool.and_eq_true]
  split
  · rename_i hfits
    rw [Option.some.injEq, eq_comm]
    exact (and_iff_right hfits).symm
  · rename_i hfits
    exact iff_of_false (by simp) fun h => hfits h.1

/-- The table once functions are noted under a number. -/
def placed (number : Nat) (names : List String) (position : List (String × Nat)) :
    List (String × Nat) :=
  (names.map (·, number)).reverse ++ position

theorem placed_cons (number : Nat) (name : String) (names : List String)
    (position : List (String × Nat)) :
    placed number (name :: names) position = placed number names ((name, number) :: position) := by
  simp [placed]

theorem lookup_placed_of_not_mem (h : f ∉ names) :
    (placed number names position).lookup f = position.lookup f := by
  induction names generalizing position with
  | nil => rfl
  | cons name names ih =>
    obtain ⟨hname, hnames⟩ := not_or.mp fun hor => h (List.mem_cons.mpr hor)
    rw [placed_cons, ih hnames, lookup_cons_of_ne hname]

theorem lookup_placed_of_mem (h : f ∈ names) :
    (placed number names position).lookup f = some number := by
  induction names generalizing position with
  | nil => cases h
  | cons name names ih =>
    rw [placed_cons]
    -- What is noted last is found first, though it is the same number.
    by_cases hlater : f ∈ names
    · exact ih hlater
    · have hname : f = name := (List.mem_cons.mp h).resolve_right hlater
      rw [lookup_placed_of_not_mem hlater, hname]
      exact List.lookup_cons_self

/-- Functions are still to be listed after another one if they are without it and are not the same. -/
theorem unlisted_cons_iff :
    (∀ f ∈ names, ((name, number) :: position).lookup f = none) ↔
      name ∉ names ∧ ∀ f ∈ names, position.lookup f = none := by
  constructor
  · intro h
    -- Whoever is listed is found there.
    have hnew : name ∉ names := by
      intro hmem
      have hlookup := h name hmem
      rw [List.lookup_cons_self] at hlookup
      cases hlookup
    refine ⟨hnew, ?_⟩
    intro f hf
    have hne : f ≠ name := fun heq => hnew (heq ▸ hf)
    rw [← h f hf, lookup_cons_of_ne hne]
  · rintro ⟨hnew, h⟩ f hf
    have hne : f ≠ name := fun heq => hnew (heq ▸ hf)
    rw [lookup_cons_of_ne hne, h f hf]

/-- Functions are noted exactly if all of them are known, different and not listed before. -/
theorem foldlM_place_eq_some_iff :
    names.foldlM (place cg number) position = some position' ↔
      ((∀ f ∈ names, f ∈ cg.nodes.map (·.name)) ∧ names.Nodup ∧
        ∀ f ∈ names, position.lookup f = none) ∧
      position' = placed number names position := by
  induction names generalizing position with
  | nil =>
    simp only [List.foldlM_nil, Option.pure_def, Option.some.injEq, List.not_mem_nil,
      false_implies, implies_true, List.nodup_nil, true_and]
    exact eq_comm
  | cons name names ih =>
    -- That the names differ is checked one by one, against a table in which the earlier ones stand.
    simp only [List.foldlM_cons, Option.bind_eq_bind, Option.bind_eq_some_iff, place_eq_some_iff,
      List.forall_mem_cons, List.nodup_cons, ih, placed_cons]
    constructor
    · rintro ⟨_, ⟨⟨hknown, hunlisted⟩, rfl⟩, ⟨hknowns, hnodup, hrest⟩, rfl⟩
      obtain ⟨hnew, hunlisteds⟩ := unlisted_cons_iff.mp hrest
      exact ⟨⟨⟨hknown, hknowns⟩, ⟨hnew, hnodup⟩, hunlisted, hunlisteds⟩, rfl⟩
    · rintro ⟨⟨⟨hknown, hknowns⟩, ⟨hnew, hnodup⟩, hunlisted, hunlisteds⟩, rfl⟩
      exact ⟨_, ⟨⟨hknown, hunlisted⟩, rfl⟩,
        ⟨hknowns, hnodup, unlisted_cons_iff.mpr ⟨hnew, hunlisteds⟩⟩, rfl⟩

/-- A group is taken over exactly if it is not empty and its functions are known, different and not
listed before. -/
theorem take_eq_some_iff :
    take cg a group = some b ↔
      (group ≠ [] ∧ (∀ f ∈ group, f ∈ cg.nodes.map (·.name)) ∧ group.Nodup ∧
        ∀ f ∈ group, a.position.lookup f = none) ∧
      b = { position := placed a.clusters.length (group.mergeSort (· ≤ ·)) a.position
            clusters := a.clusters ++ [clusterOf cg.nodes group] } := by
  -- Sorting changes neither who is in the group nor how often.
  have hsorted : (group.mergeSort (· ≤ ·)).Perm group := List.mergeSort_perm _ _
  unfold take
  by_cases hempty : group = []
  · simp [hempty]
  · have hnot : ¬ group.isEmpty = true := by simpa using hempty
    simp only [if_neg hnot, Option.map_eq_some_iff, foldlM_place_eq_some_iff, hsorted.mem_iff,
      hsorted.nodup_iff]
    constructor
    · rintro ⟨_, ⟨hfits, rfl⟩, rfl⟩
      exact ⟨⟨hempty, hfits⟩, rfl⟩
    · rintro ⟨⟨-, hfits⟩, rfl⟩
      exact ⟨_, ⟨hfits, rfl⟩, rfl⟩

/-! ## All groups -/

/-- What is noted of groups that were taken over. -/
structure Holds (cg : CallGraph) (done : List (List String)) (a : Adoption) : Prop where
  nonempty : ∀ u ∈ done, u ≠ []
  known : ∀ u ∈ done, ∀ f ∈ u, f ∈ cg.nodes.map (·.name)
  nodup : done.flatten.Nodup
  size : a.position.length = done.flatten.length
  lookup : ∀ f i, a.position.lookup f = some i ↔ ∃ u, done[i]? = some u ∧ f ∈ u
  clusters : a.clusters = done.map (clusterOf cg.nodes)

theorem Holds.start (cg : CallGraph) : Holds cg [] {} := by
  constructor <;> simp

theorem Holds.lookup_eq_none_iff (h : Holds cg done a) :
    a.position.lookup f = none ↔ f ∉ done.flatten := by
  constructor
  · intro hnone hmem
    obtain ⟨i, u, hu, hf⟩ := exists_getElem?_of_mem_flatten hmem
    rw [(h.lookup f i).mpr ⟨u, hu, hf⟩] at hnone
    cases hnone
  · intro hmem
    cases hlookup : a.position.lookup f with
    | none => rfl
    | some i =>
      obtain ⟨u, hu, hf⟩ := (h.lookup f i).mp hlookup
      exact absurd (List.mem_flatten.mpr ⟨u, List.mem_of_getElem? hu, hf⟩) hmem

/-- Where a function is once one more group is listed. -/
theorem exists_getElem?_snoc_iff {i : Nat} :
    (∃ u, (done ++ [group])[i]? = some u ∧ f ∈ u) ↔
      (∃ u, done[i]? = some u ∧ f ∈ u) ∨ i = done.length ∧ f ∈ group := by
  rcases Nat.lt_trichotomy i done.length with hlt | rfl | hgt
  · simp [List.getElem?_append_left hlt, Nat.ne_of_lt hlt]
  · simp
  · have hnone : (done ++ [group])[i]? = none := by simp; omega
    have hnone' : done[i]? = none := by simp; omega
    simp [hnone, hnone', Nat.ne_of_gt hgt]

theorem Holds.take (h : Holds cg done a) (htake : take cg a group = some b) :
    Holds cg (done ++ [group]) b := by
  obtain ⟨⟨hne, hknown, hnodup, hfresh⟩, rfl⟩ := take_eq_some_iff.mp htake
  have hsorted : (group.mergeSort (· ≤ ·)).Perm group := List.mergeSort_perm _ _
  have hlength : a.clusters.length = done.length := by rw [h.clusters, List.length_map]
  refine ⟨?_, ?_, ?_, ?_, ?_, ?_⟩
  · exact List.forall_mem_append.mpr ⟨h.nonempty, by simpa using hne⟩
  · exact List.forall_mem_append.mpr ⟨h.known, by simpa using hknown⟩
  · rw [List.flatten_append, List.flatten_singleton, List.nodup_append]
    refine ⟨h.nodup, hnodup, ?_⟩
    rintro f hf g hg rfl
    exact h.lookup_eq_none_iff.mp (hfresh f hg) hf
  · simp [placed, h.size, hsorted.length_eq, Nat.add_comm]
  · intro f i
    -- A function is looked up among those just placed, or among the earlier ones.
    rw [exists_getElem?_snoc_iff, ← h.lookup, hlength]
    by_cases hf : f ∈ group
    · rw [lookup_placed_of_mem (hsorted.mem_iff.mpr hf), hfresh f hf]
      simp [hf, eq_comm]
    · rw [lookup_placed_of_not_mem fun hmem => hf (hsorted.mem_iff.mp hmem)]
      simp [hf]
  · simp [h.clusters]

/-- A group of known functions that are not listed yet is taken over. -/
theorem Holds.exists_take (h : Holds cg done a) (hne : group ≠ [])
    (hknown : ∀ f ∈ group, f ∈ cg.nodes.map (·.name))
    (hnodup : (done ++ [group]).flatten.Nodup) : ∃ b, Adoption.take cg a group = some b := by
  rw [List.flatten_append, List.flatten_singleton, List.nodup_append] at hnodup
  obtain ⟨-, hgroup, hdisjoint⟩ := hnodup
  refine ⟨_, take_eq_some_iff.mpr ⟨⟨hne, hknown, hgroup, ?_⟩, rfl⟩⟩
  intro f hf
  exact h.lookup_eq_none_iff.mpr fun hmem => hdisjoint f hmem f hf rfl

/-- What is noted once all groups were taken over. -/
theorem Holds.foldlM_take (h : Holds cg done a)
    (hrun : groups.foldlM (Adoption.take cg) a = some b) : Holds cg (done ++ groups) b := by
  induction groups generalizing done a with
  | nil =>
    cases hrun
    rw [List.append_nil]
    exact h
  | cons group groups ih =>
    -- The first group joins those that were taken over before.
    rw [List.foldlM_cons] at hrun
    obtain ⟨a', htake, hrest⟩ := Option.bind_eq_some_iff.mp hrun
    rw [List.append_cons]
    exact ih (h.take htake) hrest

theorem Holds.exists_foldlM_take (h : Holds cg done a) (hne : ∀ u ∈ groups, u ≠ [])
    (hknown : ∀ u ∈ groups, ∀ f ∈ u, f ∈ cg.nodes.map (·.name))
    (hnodup : (done ++ groups).flatten.Nodup) :
    ∃ b, groups.foldlM (Adoption.take cg) a = some b := by
  induction groups generalizing done a with
  | nil => exact ⟨a, rfl⟩
  | cons group groups ih =>
    rw [List.forall_mem_cons] at hne hknown
    rw [List.append_cons] at hnodup
    -- One group at a time moves from what is left to what is done.
    have hfirst : (done ++ [group]).flatten.Nodup := by
      rw [List.flatten_append] at hnodup
      exact (List.nodup_append.mp hnodup).1
    obtain ⟨a', htake⟩ := h.exists_take hne.1 hknown.1 hfirst
    obtain ⟨b, hrest⟩ := ih (h.take htake) hne.2 hknown.2 hnodup
    refine ⟨b, ?_⟩
    rw [List.foldlM_cons, htake]
    exact hrest

/-! ## What is asked in the end -/

theorem Holds.groupOf_eq (h : Holds cg groups a) {i : Nat} {u : List String}
    (hu : groups[i]? = some u) (hf : f ∈ u) : a.groupOf f = i := by
  unfold groupOf
  rw [(h.lookup f i).mpr ⟨u, hu, hf⟩]
  rfl

/-- Comparing numbers is the same as looking for calls into later groups. -/
theorem Holds.groupOf_le_iff (h : Holds cg groups a) (hwf : WellFormed cg.nodes)
    (hperm : groups.flatten.Perm (cg.nodes.map (·.name))) :
    (∀ f g, Calls cg.nodes f g → a.groupOf g ≤ a.groupOf f) ↔
      groups.Pairwise fun u v => ∀ f ∈ u, ∀ g, Calls cg.nodes f g → g ∉ v := by
  rw [List.pairwise_iff_getElem]
  constructor
  · intro hle i j hi hj hlt f hf g hcall hg
    have hfi : a.groupOf f = i := h.groupOf_eq (List.getElem?_eq_getElem hi) hf
    have hgj : a.groupOf g = j := h.groupOf_eq (List.getElem?_eq_getElem hj) hg
    have := hle f g hcall
    omega
  · intro hback f g hcall
    -- The groups list everybody, so caller and callee each have one.
    obtain ⟨i, u, hu, hf⟩ :=
      exists_getElem?_of_mem_flatten (hperm.mem_iff.mpr hcall.caller_known)
    obtain ⟨j, v, hv, hg⟩ :=
      exists_getElem?_of_mem_flatten (hperm.mem_iff.mpr (hcall.callee_known hwf))
    rw [h.groupOf_eq hu hf, h.groupOf_eq hv hg]
    by_contra hlt
    obtain ⟨hi, rfl⟩ := List.getElem?_eq_some_iff.mp hu
    obtain ⟨hj, rfl⟩ := List.getElem?_eq_some_iff.mp hv
    exact hback i j hi hj (Nat.lt_of_not_le hlt) f hf g hcall hg

theorem isComplete_iff (hwf : WellFormed cg.nodes) :
    a.isComplete cg = true ↔ a.position.length = cg.size ∧
      ∀ f g, Calls cg.nodes f g → a.groupOf g ≤ a.groupOf f := by
  simp only [isComplete, Bool.and_eq_true, beq_iff_eq, List.all_eq_true, decide_eq_true_eq,
    calls_iff hwf]
  refine and_congr_right fun _ => ?_
  constructor
  · rintro h f g ⟨n, hn, rfl, hg⟩
    exact h n hn g hg
  · intro h n hn g hg
    exact h n.name g ⟨n, hn, rfl, hg⟩

/-- Groups that were taken over are complete exactly if they agree with the graph. -/
theorem Holds.isComplete_iff_agreement (h : Holds cg groups a) (hwf : WellFormed cg.nodes) :
    a.isComplete cg = true ↔ Agreement cg.nodes groups := by
  have hsize : cg.size = (cg.nodes.map (·.name)).length := by simp [CallGraph.size]
  rw [isComplete_iff hwf, h.size]
  constructor
  · rintro ⟨hlength, hle⟩
    have hsub : groups.flatten ⊆ cg.nodes.map (·.name) := by
      intro f hf
      obtain ⟨u, hu, hfu⟩ := List.mem_flatten.mp hf
      exact h.known u hu f hfu
    -- Different known names, as many as there are functions: every function is listed.
    have hperm : groups.flatten.Perm (cg.nodes.map (·.name)) :=
      (List.subperm_of_subset h.nodup hsub).perm_of_length_le
        (Nat.le_of_eq (hsize.symm.trans hlength.symm))
    exact ⟨h.nonempty, hperm, (h.groupOf_le_iff hwf hperm).mp hle⟩
  · rintro ⟨-, hperm, hback⟩
    exact ⟨hperm.length_eq.trans hsize.symm, (h.groupOf_le_iff hwf hperm).mpr hback⟩

end Adoption

/-- The groups that are taken over are those that agree with the graph, each as its cluster. -/
theorem adopt?_eq_some_iff (hwf : WellFormed cg.nodes) {groups : List (List String)}
    {clusters : List Cluster} :
    cg.adopt? groups = some clusters ↔
      Agreement cg.nodes groups ∧ clusters = groups.map (clusterOf cg.nodes) := by
  unfold adopt?
  constructor
  · intro hadopt
    -- Groups are refused while they are taken over, or at the end if somebody is missing.
    split at hadopt
    · cases hadopt
    · rename_i a hrun
      -- Groups that agree with the graph are all taken over.
      have hholds : Adoption.Holds cg groups a := (Adoption.Holds.start cg).foldlM_take hrun
      split at hadopt
      · rename_i hcomplete
        cases hadopt
        exact ⟨(hholds.isComplete_iff_agreement hwf).mp hcomplete, hholds.clusters⟩
      · cases hadopt
  · rintro ⟨hagree, rfl⟩
    have hknown : ∀ u ∈ groups, ∀ f ∈ u, f ∈ cg.nodes.map (·.name) :=
      fun u hu f hf => hagree.perm.mem_iff.mp (List.mem_flatten.mpr ⟨u, hu, hf⟩)
    have hnodup : groups.flatten.Nodup := hagree.perm.nodup_iff.mpr hwf.names_nodup
    obtain ⟨a, hrun⟩ :=
      (Adoption.Holds.start cg).exists_foldlM_take hagree.nonempty hknown hnodup
    have hholds : Adoption.Holds cg groups a := (Adoption.Holds.start cg).foldlM_take hrun
    rw [hrun]
    simp only [(hholds.isComplete_iff_agreement hwf).mpr hagree, if_true, hholds.clusters]

theorem agrees_iff (hwf : WellFormed cg.nodes) {groups : List (List String)} :
    cg.agrees groups = true ↔ Agreement cg.nodes groups := by
  rw [agrees, Option.isSome_iff_exists]
  constructor
  · rintro ⟨clusters, hadopt⟩
    exact ((adopt?_eq_some_iff hwf).mp hadopt).1
  · intro hagree
    exact ⟨_, (adopt?_eq_some_iff hwf).mpr ⟨hagree, rfl⟩⟩

end CallGraph
end FaultChain
