import Mathlib
import FaultChain.Proofs.CallGraph.Partition

/-!
# Batches and longest paths

A call has to wait for all calls of its callee, these for the calls of their callees, and so on
along every path of eligible calls. In a graph whose only cycles are calls of functions to themselves
the batches make a call wait no longer than that: its position is the length of the longest path from
its callee. So there are as many batches as there are calls in a longest path, and no schedule that
respects the same order needs fewer.

* `CallGraph.EligibleCall`, `CallGraph.pathLengths`: eligible calls and the paths they make up.
* `CallGraph.Schedule`: sequences of batches in which every call waits for the calls of its callee.
* `CallGraph.Schedule.length_le`: a call waits for all paths from its callee.
* `CallGraph.isGreatest_rank`: the longest path from a callee is as long as its rank.
* `CallGraph.batches_longest_paths`: the main statement.
-/

namespace FaultChain
namespace CallGraph

/-! ## Paths of eligible calls -/

/-- Errors are propagated along the calls of one function to another, both given by name. -/
def EligibleCall (cg : CallGraph) (removeMain : Bool) (f g : String) : Prop :=
  ∃ caller ∈ cg.nodes, ∃ callee ∈ cg.nodes,
    caller.name = f ∧ callee.name = g ∧ Eligible removeMain caller callee

/-- The numbers of calls of the paths of eligible calls that start at a function. -/
def pathLengths (cg : CallGraph) (removeMain : Bool) (f : String) : Set Nat :=
  {n | ∃ p : List String, p.length = n ∧ (f :: p).IsChain (EligibleCall cg removeMain)}

theorem EligibleCall.callee_known {cg : CallGraph} {removeMain : Bool} {f g : String}
    (h : EligibleCall cg removeMain f g) : g ∈ cg.nodes.map (·.name) := by
  obtain ⟨-, -, callee, hcallee, -, rfl, -⟩ := h
  exact List.mem_map_of_mem hcallee

theorem eligibleCall_iff {info : List (String × NodeInfo)} {removeMain : Bool} {f g : String} :
    EligibleCall (ofInfo info) removeMain f g ↔
      g ∈ (ofInfo info).eligibleCallees removeMain f :=
  (mem_eligibleCallees_iff (wellFormed_nodesOf info)).symm

/-! ## Schedules -/

/-- Whether the batch at a position holds a call. -/
def Holds (bs : List (List Call)) (i : Nat) (c : Call) : Prop :=
  ∃ batch, bs[i]? = some batch ∧ c ∈ batch

theorem Holds.lt_length {bs : List (List Call)} {i : Nat} {c : Call} (h : Holds bs i c) :
    i < bs.length := by
  obtain ⟨batch, hbatch, -⟩ := h
  exact (List.getElem?_eq_some_iff.mp hbatch).1

/-- A sequence of batches that holds all eligible calls, each of them strictly after the eligible
calls of its callee. -/
structure Schedule (cg : CallGraph) (removeMain : Bool) (bs : List (List Call)) : Prop where
  complete : ∀ f g, EligibleCall cg removeMain f g → ∃ i, Holds bs i ⟨f, g⟩
  ordered : ∀ f g h i j, EligibleCall cg removeMain f g → EligibleCall cg removeMain g h →
    Holds bs i ⟨f, g⟩ → Holds bs j ⟨g, h⟩ → j < i

namespace Schedule

variable {cg : CallGraph} {removeMain : Bool} {bs : List (List Call)}

/-- Every call on a path from the callee takes up one position before the call. -/
theorem length_le (hs : Schedule cg removeMain bs) {f g : String} {p : List String} {i : Nat}
    (hcall : EligibleCall cg removeMain f g)
    (hpath : (g :: p).IsChain (EligibleCall cg removeMain)) (hi : Holds bs i ⟨f, g⟩) :
    p.length ≤ i := by
  -- The call moves along the path, each time to an earlier batch.
  induction p generalizing f g i with
  | nil => exact Nat.zero_le _
  | cons h p ih =>
    obtain ⟨hnext, hrest⟩ := List.isChain_cons_cons.mp hpath
    obtain ⟨j, hj⟩ := hs.complete g h hnext
    calc (h :: p).length = p.length + 1 := rfl
      _ ≤ j + 1 := Nat.succ_le_succ (ih hnext hrest hj)
      _ ≤ i := hs.ordered f g h i j hcall hnext hi hj

/-- No path is longer than a schedule. -/
theorem pathLengths_le (hs : Schedule cg removeMain bs) {f : String} {n : Nat}
    (hn : n ∈ pathLengths cg removeMain f) : n ≤ bs.length := by
  obtain ⟨p, rfl, hpath⟩ := hn
  cases p with
  | nil => exact Nat.zero_le _
  | cons g p =>
    obtain ⟨hcall, hrest⟩ := List.isChain_cons_cons.mp hpath
    obtain ⟨i, hi⟩ := hs.complete f g hcall
    calc (g :: p).length = p.length + 1 := rfl
      _ ≤ i + 1 := Nat.succ_le_succ (hs.length_le hcall hrest hi)
      _ ≤ bs.length := hi.lt_length

end Schedule

/-! ## Ranks are lengths of paths -/

section

variable {info : List (String × NodeInfo)} {removeMain : Bool} {f g : String}

/-- The batches are a schedule, as the rank of a callee is below that of its callers. -/
theorem schedule_batches (hloops : OnlyLoops (ofInfo info).nodes) :
    Schedule (ofInfo info) removeMain ((ofInfo info).batches removeMain) where
  complete := by
    intro f g hcall
    exact (exists_placedAt_iff (isTopology_ofInfo info)).mpr (eligibleCall_iff.mp hcall)
  ordered := by
    intro f g h i j _ hnext hi hj
    obtain ⟨-, rfl⟩ := hloops.placedAt_iff.mp hi
    obtain ⟨-, rfl⟩ := hloops.placedAt_iff.mp hj
    exact rank_lt_rank hloops (eligibleCall_iff.mp hnext)

/-- A call is in the batch of the rank of its callee and in no other. -/
theorem holds_batches_iff (hloops : OnlyLoops (ofInfo info).nodes)
    (hcall : EligibleCall (ofInfo info) removeMain f g) {i : Nat} :
    Holds ((ofInfo info).batches removeMain) i ⟨f, g⟩ ↔
      i = (ofInfo info).rank removeMain g := by
  constructor
  · intro hi
    exact (hloops.placedAt_iff.mp hi).2
  · intro heq
    exact hloops.placedAt_iff.mpr ⟨eligibleCall_iff.mp hcall, heq⟩

/-- A function whose calls are not in the first batches calls one whose rank is just below. -/
theorem exists_callee_of_rank (hloops : OnlyLoops (ofInfo info).nodes)
    (hf : f ∈ (ofInfo info).nodes.map (·.name)) {k : Nat}
    (hrank : (ofInfo info).rank removeMain f = k + 1) :
    ∃ g, EligibleCall (ofInfo info) removeMain f g ∧ (ofInfo info).rank removeMain g = k := by
  have htop := isTopology_ofInfo info
  obtain ⟨u, hu, hfu⟩ := htop.covers f hf
  obtain ⟨c, hc, hcaller⟩ := (planned htop removeMain).attained hu hfu hrank
  -- The call is one of the group of `f`, which has no other function.
  have hsame : f = c.caller :=
    hloops f c.caller ((sameComponent_iff_of_mem_groups hu hfu c.caller).mp hcaller)
  obtain ⟨hcallee, heq⟩ := hloops.placedAt_iff.mp (placedAt_iff.mpr hc)
  exact ⟨c.callee, eligibleCall_iff.mpr (hsame ▸ hcallee), heq.symm⟩

theorem rank_mem_pathLengths (hloops : OnlyLoops (ofInfo info).nodes)
    (hf : f ∈ (ofInfo info).nodes.map (·.name)) :
    (ofInfo info).rank removeMain f ∈ pathLengths (ofInfo info) removeMain f := by
  induction hk : (ofInfo info).rank removeMain f generalizing f with
  | zero => exact ⟨[], rfl, List.isChain_singleton f⟩
  | succ k ih =>
    -- The rank of the callee is smaller by one, so a path from it is extended by the call.
    obtain ⟨g, hcall, hrank⟩ := exists_callee_of_rank hloops hf hk
    obtain ⟨p, hlength, hpath⟩ := ih hcall.callee_known hrank
    exact ⟨g :: p, congrArg (· + 1) hlength, List.isChain_cons_cons.mpr ⟨hcall, hpath⟩⟩

theorem isGreatest_rank (hloops : OnlyLoops (ofInfo info).nodes)
    (hcall : EligibleCall (ofInfo info) removeMain f g) :
    IsGreatest (pathLengths (ofInfo info) removeMain g) ((ofInfo info).rank removeMain g) := by
  refine ⟨rank_mem_pathLengths hloops hcall.callee_known, ?_⟩
  rintro n ⟨p, rfl, hpath⟩
  exact (schedule_batches hloops).length_le hcall hpath ((holds_batches_iff hloops hcall).mpr rfl)

/-- A longest path starts with a call in the last batch. -/
theorem isGreatest_length (hloops : OnlyLoops (ofInfo info).nodes) :
    IsGreatest {n | ∃ f, n ∈ pathLengths (ofInfo info) removeMain f}
      ((ofInfo info).batches removeMain).length := by
  refine ⟨?_, fun n ⟨f, hn⟩ => (schedule_batches hloops).pathLengths_le hn⟩
  cases hlength : ((ofInfo info).batches removeMain).length with
  | zero => exact ⟨mainFunction, [], rfl, List.isChain_singleton _⟩
  | succ n =>
    -- Any call of the last batch has a longest path from its callee behind it.
    have hlast : n < ((ofInfo info).batches removeMain).length := by omega
    have hne := (batches_partitioned info removeMain).1.nonempty _ (List.getElem_mem hlast)
    obtain ⟨c, hc⟩ := List.exists_mem_of_ne_nil _ hne
    obtain ⟨hcallee, hrank⟩ := hloops.placedAt_iff.mp ⟨_, List.getElem?_eq_getElem hlast, hc⟩
    have hcall : EligibleCall (ofInfo info) removeMain c.caller c.callee :=
      eligibleCall_iff.mpr hcallee
    obtain ⟨p, hp, hpath⟩ : (ofInfo info).rank removeMain c.callee ∈
        pathLengths (ofInfo info) removeMain c.callee :=
      rank_mem_pathLengths hloops hcall.callee_known
    refine ⟨c.caller, c.callee :: p, ?_, List.isChain_cons_cons.mpr ⟨hcall, hpath⟩⟩
    rw [List.length_cons, hp, hrank]

end

/-- In the computed order of a graph in which no two functions reach each other, an eligible call is
in one batch only, behind as many others as there are calls in a longest path of eligible calls from
its callee. There are as many batches as there are calls in a longest path at all. They are a
schedule, and no schedule has fewer batches. -/
theorem batches_longest_paths (info : List (String × NodeInfo)) (removeMain : Bool)
    (hloops : OnlyLoops (ofInfo info).nodes) :
    let cg := ofInfo info
    (∀ f g, EligibleCall cg removeMain f g → ∃ k, IsGreatest (pathLengths cg removeMain g) k ∧
      ∀ i, Holds (cg.batches removeMain) i ⟨f, g⟩ ↔ i = k) ∧
    IsGreatest {n | ∃ f, n ∈ pathLengths cg removeMain f} (cg.batches removeMain).length ∧
    Schedule cg removeMain (cg.batches removeMain) ∧
    ∀ bs, Schedule cg removeMain bs → (cg.batches removeMain).length ≤ bs.length := by
  intro cg
  have hlongest : IsGreatest {n | ∃ f, n ∈ pathLengths cg removeMain f}
      (cg.batches removeMain).length := isGreatest_length hloops
  refine ⟨?_, hlongest, schedule_batches hloops, ?_⟩
  · intro f g hcall
    exact ⟨cg.rank removeMain g, isGreatest_rank hloops hcall,
      fun i => holds_batches_iff hloops hcall⟩
  · intro bs hs
    obtain ⟨f, hpath⟩ := hlongest.1
    exact hs.pathLengths_le hpath

/-! ## A graph with an ineligible call -/

/-- The function `a` also calls itself, and `b` takes a pointer to a pointer. -/
def detouredInfo : List (String × NodeInfo) :=
  [("a", { calls := ["a", "b", "c"] }), ("b", { calls := ["c"], doublePointer := true }),
    ("c", { calls := ["d"] }), ("d", {})]

theorem nodes_detoured : (ofInfo detouredInfo).nodes =
    [⟨"a", ["a", "b", "c"], ["a"], false, false⟩, ⟨"b", ["c"], ["a"], false, true⟩,
      ⟨"c", ["d"], ["a", "b"], false, false⟩, ⟨"d", [], ["c"], false, false⟩] := by
  cbv

theorem le_of_calls_detoured {f g : String} (h : Calls (ofInfo detouredInfo).nodes f g) :
    f ≤ g := by
  have hall : ∀ n ∈ (ofInfo detouredInfo).nodes, ∀ g ∈ n.calls, n.name ≤ g := by
    rw [nodes_detoured]
    decide
  obtain ⟨n, hn, rfl, hg⟩ := (calls_iff (wellFormed_nodesOf detouredInfo)).mp h
  exact hall n hn g hg

/-- Calls do not lead back to smaller names, so only `a` is on a cycle. -/
theorem onlyLoops_detoured : OnlyLoops (ofInfo detouredInfo).nodes := by
  have hle : ∀ {f g}, Reaches (ofInfo detouredInfo).nodes f g → f ≤ g := by
    intro f g h
    induction h with
    | refl => exact String.le_refl _
    | tail _ hcall ih => exact String.le_trans ih (le_of_calls_detoured hcall)
  intro f g hfg
  exact String.le_antisymm (hle hfg.1) (hle hfg.2)

/-- The call of `b` is not eligible, so the call to `b` does not wait for it. -/
theorem batches_longest_paths_detoured :
    OnlyLoops (ofInfo detouredInfo).nodes ∧
      (ofInfo detouredInfo).batches true = [[⟨"c", "d"⟩, ⟨"a", "b"⟩], [⟨"a", "c"⟩]] ∧
      ∀ bs, Schedule (ofInfo detouredInfo) true bs → 2 ≤ bs.length := by
  have hbatches : (ofInfo detouredInfo).batches true =
      [[⟨"c", "d"⟩, ⟨"a", "b"⟩], [⟨"a", "c"⟩]] := by
    cbv
  obtain ⟨-, -, -, hleast⟩ := batches_longest_paths detouredInfo true onlyLoops_detoured
  refine ⟨onlyLoops_detoured, hbatches, ?_⟩
  intro bs hs
  have hlength : ((ofInfo detouredInfo).batches true).length = 2 := by rw [hbatches]; rfl
  exact hlength ▸ hleast bs hs

end CallGraph
end FaultChain
