import Mathlib
import FaultChain.Proofs.CallGraph.Partition

/-!
# Batches of reported orders

A group that is reported as one is handled like a cycle: each call inside it has a batch of its own,
in the order of the callers' names. Where the group is not a cycle this can put a call before the
calls that its callee makes.

* `CallGraph.Plan.CallerOrder`: calls inside a group are in the order of their callers, kept by
  every cluster and so true of every plan.
* `CallGraph.CallsBefore`: all calls of a function are in earlier batches.
* `CallGraph.Overtakes`: a call inside a group whose callee comes later in the group and calls into
  it.
* `CallGraph.batches_withReported_ordered`: a call comes after all calls of its callee unless it
  overtakes it, which no call does where the groups lie inside cycles.
-/

namespace FaultChain
namespace CallGraph
namespace Plan

variable {cg : CallGraph} {removeMain : Bool}

/-! ## Calls inside a group -/

/-- The calls of functions to others of the same list. -/
def innerCalls (cg : CallGraph) (removeMain : Bool) (u : List String) : List Call :=
  (callsOf cg removeMain u).filter fun c => u.contains c.callee

theorem pairwise_innerCalls {u : List String} (hsorted : u.Pairwise (· ≤ ·)) :
    (innerCalls cg removeMain u).Pairwise fun c d => c.caller ≤ d.caller := by
  apply List.Pairwise.filter
  unfold callsOf
  rw [List.pairwise_flatMap]
  constructor
  · intro f _
    rw [List.pairwise_map]
    exact List.pairwise_of_forall fun _ _ => String.le_refl f
  · apply hsorted.imp
    intro f g hle c hc d hd
    obtain ⟨_, -, rfl⟩ := List.mem_map.mp hc
    obtain ⟨_, -, rfl⟩ := List.mem_map.mp hd
    exact hle

theorem lt_of_caller_lt {calls : List Call}
    (hordered : calls.Pairwise fun c d => c.caller ≤ d.caller) {i j : Nat} {c d : Call}
    (hc : calls[i]? = some c) (hd : calls[j]? = some d) (hlt : c.caller < d.caller) : i < j := by
  obtain ⟨hi, rfl⟩ := List.getElem?_eq_some_iff.mp hc
  obtain ⟨hj, rfl⟩ := List.getElem?_eq_some_iff.mp hd
  have hpairs := List.pairwise_iff_getElem.mp hordered
  rcases Nat.lt_trichotomy i j with hij | rfl | hji
  · exact hij
  · exact absurd hlt (String.lt_irrefl _)
  · exact absurd hlt (String.not_lt.mpr (hpairs j i hj hi hji))

/-- A cluster appends a batch for each call inside it; what it puts elsewhere leaves it. -/
theorem batches_addCluster {p : Plan} (hready : ∀ f, p.readyAt f ≤ p.batches.length)
    (cluster : Cluster) :
    ∃ bs, (addCluster cg removeMain p cluster).batches =
        bs ++ (innerCalls cg removeMain cluster.functions).map alone ∧
      ∀ {i c}, c ∈ callsAt bs i → c ∈ callsAt p.batches i ∨ c.callee ∉ cluster.functions := by
  let outer := (callsOf cg removeMain cluster.functions).filter
    fun c => !cluster.functions.contains c.callee
  refine ⟨(outer.foldl (placeOuter p) { batches := p.batches, used := 0 }).batches,
    (foldl_placeInner _ _).1, ?_⟩
  intro i c hc
  rcases (grown hready outer).added hc with hold | ⟨hout, -⟩
  · exact Or.inl hold
  · have hleaves := (List.mem_filter.mp hout).2
    exact Or.inr (by simpa using hleaves)

/-- In each of the groups, the calls inside it are in the order of their callers. -/
def CallerOrder (done : List (List String)) (p : Plan) : Prop :=
  ∀ u ∈ done, ∀ i j c d, c ∈ callsAt p.batches i → d ∈ callsAt p.batches j →
    c.caller ∈ u → c.callee ∈ u → d.caller ∈ u → d.callee ∈ u → c.caller < d.caller → i < j

theorem CallerOrder.snoc {done : List (List String)} {p : Plan} (h : CallerOrder done p)
    (hplan : Planned cg removeMain done p) {cluster : Cluster}
    (hsorted : cluster.functions.Pairwise (· ≤ ·))
    (hfresh : ∀ w ∈ done, ∀ f ∈ w, f ∉ cluster.functions) :
    CallerOrder (done ++ [cluster.functions]) (addCluster cg removeMain p cluster) := by
  have hadded : Added cg removeMain cluster.functions p (addCluster cg removeMain p cluster) :=
    added hplan.readyAt_le cluster
  intro w hw i j c d hc hd hcf hcg hdf hdg hlt
  rcases List.mem_append.mp hw with hw | hw
  · -- Calls of an old group were placed before, and stay where they were.
    have hc' := hadded.mem_of_caller_not_mem hc (hfresh w hw _ hcf)
    have hd' := hadded.mem_of_caller_not_mem hd (hfresh w hw _ hdf)
    exact h w hw i j c d hc' hd' hcf hcg hdf hdg hlt
  · obtain rfl : w = cluster.functions := by simpa using hw
    obtain ⟨bs, hbatches, hleaves⟩ :=
      @batches_addCluster cg removeMain p hplan.readyAt_le cluster
    -- Calls of the new group to itself are behind all others, one batch each.
    have hlast : ∀ {k e}, e ∈ callsAt (addCluster cg removeMain p cluster).batches k →
        e.caller ∈ cluster.functions → e.callee ∈ cluster.functions →
        bs.length ≤ k ∧ (innerCalls cg removeMain cluster.functions)[k - bs.length]? = some e := by
      intro k e he hef heg
      rw [hbatches] at he
      rcases getElem?_append_alone he with ⟨-, hfront⟩ | ⟨hle, -, hget⟩
      · rcases hleaves hfront with hprev | hout
        · obtain ⟨v, hv, hev⟩ := (hplan.mem hprev).1
          exact absurd hef (hfresh v hv _ hev)
        · exact absurd heg hout
      · rw [List.getElem?_append_right hle, List.getElem?_map] at hget
        obtain ⟨e', he', heq⟩ := Option.map_eq_some_iff.mp hget
        cases heq
        exact ⟨hle, he'⟩
    obtain ⟨hi, hci⟩ := hlast hc hcf hcg
    obtain ⟨hj, hdj⟩ := hlast hd hdf hdg
    have := lt_of_caller_lt (pairwise_innerCalls hsorted) hci hdj hlt
    omega

/-- Handling a topology keeps the calls inside each of its groups in order. -/
theorem callerOrder_foldl (clusters : List Cluster)
    (hnodup : (clusters.map (·.functions)).flatten.Nodup)
    (hback : (clusters.map (·.functions)).Pairwise fun u v =>
      ∀ f ∈ u, ∀ g, Calls cg.nodes f g → g ∉ v)
    (hsorted : ∀ u ∈ clusters.map (·.functions), u.Pairwise (· ≤ ·)) :
    CallerOrder (clusters.map (·.functions))
      (clusters.foldl (addCluster cg removeMain) { batches := [], ready := [] }) := by
  induction clusters using List.reverseRecOn with
  | nil => simp [CallerOrder]
  | append_singleton clusters cluster ih =>
    rw [List.map_append, List.map_singleton] at hnodup hback hsorted ⊢
    have hfresh := fresh_of_nodup hnodup
    rw [List.flatten_append, List.nodup_append] at hnodup
    rw [List.pairwise_append] at hback
    have hplan : Planned cg removeMain _ _ := planned_foldl clusters hnodup.1 hback.1
    have horder := ih hnodup.1 hback.1 fun u hu => hsorted u (List.mem_append_left _ hu)
    rw [List.foldl_append]
    exact horder.snoc hplan (hsorted _ (by simp)) hfresh

end Plan

/-! ## Calls before their callees are done -/

/-- All calls that a function makes are in batches before a position. -/
def CallsBefore (cg : CallGraph) (removeMain : Bool) (i : Nat) (g : String) : Prop :=
  ∀ j c, PlacedAt cg removeMain j c → c.caller = g → j < i

/-- A call to a function further down in the same group that calls into the group itself. -/
def Overtakes (cg : CallGraph) (removeMain : Bool) (f g : String) : Prop :=
  ∃ u ∈ cg.groups, f ∈ u ∧ g ∈ u ∧ f < g ∧ ∃ h ∈ u, h ∈ cg.eligibleCallees removeMain g

theorem callsBefore_iff {cg : CallGraph} {removeMain : Bool}
    (htop : IsTopology cg.nodes cg.groups) (hsorted : ∀ u ∈ cg.groups, u.Pairwise (· ≤ ·))
    {f g : String} {i : Nat} (hplaced : PlacedAt cg removeMain i ⟨f, g⟩) :
    CallsBefore cg removeMain i g ↔ ¬ Overtakes cg removeMain f g := by
  have hplan := planned htop removeMain
  have horder : Plan.CallerOrder cg.groups (cg.plan removeMain) :=
    Plan.callerOrder_foldl cg.topology htop.nodup htop.backward hsorted
  have hcall := placedAt_iff.mp hplaced
  obtain ⟨⟨u, hu, hf⟩, hcallee⟩ := hplan.mem hcall
  constructor
  · rintro hbefore ⟨v, hv, hfv, hgv, hlt, h, hh, hgh⟩
    -- The call of the callee is inside the group too, and its caller comes later.
    obtain ⟨j, hj⟩ : ∃ j, PlacedAt cg removeMain j ⟨g, h⟩ := (exists_placedAt_iff htop).mpr hgh
    have hij := horder v hv i j ⟨f, g⟩ ⟨g, h⟩ hcall (placedAt_iff.mp hj) hfv hgv hgv hh hlt
    have hji := hbefore j ⟨g, h⟩ hj rfl
    omega
  · intro hnot j c hc hcaller
    subst hcaller
    have hc' := placedAt_iff.mp hc
    by_cases hgu : c.caller ∈ u
    · by_cases hin : c.callee ∈ u
      · -- Both calls are inside the group, so the order of the callers decides.
        have hle : ¬ f < c.caller :=
          fun hlt => hnot ⟨u, hu, hf, hgu, hlt, c.callee, hin, (hplan.mem hc').2⟩
        have hne : f ≠ c.caller := fun heq => ne_of_mem_eligibleCallees hcallee heq.symm
        have hlt : c.caller < f :=
          Std.lt_of_le_of_ne (String.not_lt.mp hle) hne.symm
        exact horder u hu j i c ⟨f, c.caller⟩ hc' hcall hgu hin hf hgu hlt
      · exact (hplan.inner hu hcall hf hgu).2 hc' hgu hin
    · calc j < (cg.plan removeMain).readyAt c.caller := hplan.lt_readyAt hc'
        _ ≤ i := (hplan.outer hu hcall hf hgu).1

/-- Groups that lie inside cycles: the computed ones, or reported ones that are adopted. -/
theorem reaches_of_mem_groups {info : List (String × NodeInfo)} {reported : List (List String)}
    (h : (ofInfo info).agrees reported = false ∨
      ∀ u ∈ reported, ∀ f ∈ u, ∀ g ∈ u, Reaches (ofInfo info).nodes f g)
    {u : List String} (hu : u ∈ ((ofInfo info).withReported reported).groups) {f g : String}
    (hf : f ∈ u) (hg : g ∈ u) : Reaches (ofInfo info).nodes f g := by
  rcases withReported_cases (ofInfo info) (wellFormed_nodesOf info) reported with
    ⟨hagrees, -, hgroups⟩ | ⟨-, hsame⟩
  · rcases h with hrejected | hcycles
    · rw [hagrees] at hrejected
      cases hrejected
    · rw [hgroups] at hu
      obtain ⟨v, hv, rfl⟩ := List.mem_map.mp hu
      exact hcycles v hv f (List.mem_mergeSort.mp hf) g (List.mem_mergeSort.mp hg)
  · rw [hsame] at hu
    exact ((sameComponent_iff_of_mem_groups hu hf g).mp hg).1

/-- Every eligible call of an extracted graph is placed. It comes after all batches in which its
callee acts as a caller, unless it overtakes one of them. Where the reported order is rejected, or
its groups lie inside cycles, only calls inside a cycle do. -/
theorem batches_withReported_ordered (info : List (String × NodeInfo))
    (reported : List (List String)) (removeMain : Bool) :
    let cg := (ofInfo info).withReported reported
    (∀ f g, g ∈ cg.eligibleCallees removeMain f → ∃ i, PlacedAt cg removeMain i ⟨f, g⟩) ∧
    (∀ f g i, PlacedAt cg removeMain i ⟨f, g⟩ →
      (CallsBefore cg removeMain i g ↔ ¬ Overtakes cg removeMain f g)) ∧
    (((ofInfo info).agrees reported = false ∨
        ∀ u ∈ reported, ∀ f ∈ u, ∀ g ∈ u, Reaches cg.nodes f g) →
      ∀ f g i, PlacedAt cg removeMain i ⟨f, g⟩ → ¬ Reaches cg.nodes g f →
        CallsBefore cg removeMain i g) := by
  intro cg
  have htop : IsTopology cg.nodes cg.groups := isTopology_withReported info reported
  -- Overtaking is all that can go wrong in a topology.
  have hbefore : ∀ f g i, PlacedAt cg removeMain i ⟨f, g⟩ →
      (CallsBefore cg removeMain i g ↔ ¬ Overtakes cg removeMain f g) :=
    fun _ _ _ hplaced => callsBefore_iff htop (fun _ => pairwise_of_mem_groups) hplaced
  refine ⟨fun _ _ hg => (exists_placedAt_iff htop).mpr hg, hbefore, ?_⟩
  intro hcycles f g i hplaced hreach
  apply (hbefore f g i hplaced).mpr
  rintro ⟨u, hu, hf, hg, -⟩
  have hnodes : cg.nodes = (ofInfo info).nodes := nodes_withReported (ofInfo info) reported
  rw [hnodes] at hcycles hreach
  -- To overtake, caller and callee share a group, which lies inside a cycle here.
  exact hreach (reaches_of_mem_groups hcycles hu hg hf)

/-- A chain of calls `a`, `b`, `c`. -/
def chainInfo : List (String × NodeInfo) :=
  [("a", { calls := ["b"] }), ("b", { calls := ["c"] }), ("c", {})]

/-- The chain with all of its functions reported as one group. -/
def mergedChain : CallGraph :=
  { nodes :=
      [⟨"a", ["b"], [], false, false⟩, ⟨"b", ["c"], ["a"], false, false⟩,
        ⟨"c", [], ["b"], false, false⟩]
    topology := [{ functions := ["a", "b", "c"], cyclic := true }] }

theorem withReported_chainInfo :
    (ofInfo chainInfo).withReported [["a", "b", "c"]] = mergedChain := by
  cbv

/-- In the merged chain the call of `b` is placed before the one that `b` makes, though nothing leads
back from `b`. -/
theorem batches_withReported_ordered_chain :
    let cg := (ofInfo chainInfo).withReported [["a", "b", "c"]]
    PlacedAt cg false 0 ⟨"a", "b"⟩ ∧ ¬ Reaches cg.nodes "b" "a" ∧ ¬ CallsBefore cg false 0 "b" := by
  intro cg
  have hcg : cg = mergedChain := withReported_chainInfo
  have hplaced : PlacedAt cg false 0 ⟨"a", "b"⟩ := by
    rw [hcg]
    exact ⟨[⟨"a", "b"⟩], by decide, by decide⟩
  have hreach : ¬ Reaches cg.nodes "b" "a" := by
    have hwf : WellFormed cg.nodes := by
      rw [nodes_withReported]
      exact wellFormed_nodesOf chainInfo
    have hvisited : reach mergedChain.nodes "b" = ["c", "b"] := by cbv
    rw [hcg] at hwf ⊢
    rw [← mem_reach_iff hwf (by decide), hvisited]
    decide
  refine ⟨hplaced, hreach, ?_⟩
  rw [(batches_withReported_ordered chainInfo [["a", "b", "c"]] false).2.1 "a" "b" 0 hplaced,
    not_not, withReported_chainInfo]
  exact ⟨["a", "b", "c"], by decide, by decide, by decide, by decide, "c", by decide, by decide⟩

end CallGraph
end FaultChain
