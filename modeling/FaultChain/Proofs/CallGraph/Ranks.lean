import Mathlib.Data.List.Nodup
import Mathlib.Logic.Relation
import FaultChain.Proofs.CallGraph.Batches
import FaultChain.Proofs.CallGraph.Eligible

/-!
# Ranks in graphs without cycles

In a graph whose only cycles are calls of functions to themselves no batch is closed, so every call
is in the first batch that may call its callee.

* `CallGraph.OnlyLoops`: no two functions reach each other.
* `CallGraph.Acyclic`: no function reaches itself by a call.
* `CallGraph.rank`: the number of the batch of all calls of a function.
* `CallGraph.OnlyLoops.placedAt_iff`, `CallGraph.rank_lt_rank`: where calls are, and that ranks grow
  from callees to callers.
* `CallGraph.nodup_of_mem_batches`: no batch holds a call twice.
-/

namespace FaultChain
namespace CallGraph

/-! ## Cycles -/

/-- No two functions reach each other, but a function may call itself. -/
def OnlyLoops (nodes : List Node) : Prop :=
  ∀ f g, SameComponent nodes f g → f = g

/-- No function reaches itself by a call. -/
def Acyclic (nodes : List Node) : Prop :=
  ∀ f, ¬ Relation.TransGen (Calls nodes) f f

theorem Acyclic.onlyLoops {nodes : List Node} (h : Acyclic nodes) : OnlyLoops nodes := by
  intro f g hfg
  by_contra hne
  rcases Relation.reflTransGen_iff_eq_or_transGen.mp hfg.1 with heq | hforth
  · exact hne heq.symm
  · exact h f (Relation.TransGen.trans_left hforth hfg.2)

/-! ## Ranks -/

/-- The number of the batch of all calls of a function. -/
def rank (cg : CallGraph) (removeMain : Bool) (f : String) : Nat :=
  (cg.plan removeMain).readyAt f

section

variable {info : List (String × NodeInfo)} {removeMain : Bool}

/-- A call that is placed leaves its group. -/
theorem OnlyLoops.callee_not_mem (hloops : OnlyLoops (ofInfo info).nodes) {u : List String}
    (hu : u ∈ (ofInfo info).groups) {f g : String} (hf : f ∈ u)
    (hg : g ∈ (ofInfo info).eligibleCallees removeMain f) : g ∉ u := by
  intro hmem
  have hsame := (sameComponent_iff_of_mem_groups hu hf g).mp hmem
  exact ne_of_mem_eligibleCallees hg (hloops f g hsame).symm

theorem OnlyLoops.closedAt_eq_false (hloops : OnlyLoops (ofInfo info).nodes) (i : Nat) :
    Plan.closedAt ((ofInfo info).plan removeMain).batches i = false := by
  have hplan := planned (isTopology_ofInfo info) removeMain
  cases hclosed : Plan.closedAt ((ofInfo info).plan removeMain).batches i with
  | false => rfl
  | true =>
    obtain ⟨u, hu, c, hc, hf, hg⟩ := hplan.closed hclosed
    exact absurd hg (hloops.callee_not_mem hu hf (hplan.mem hc).2)

theorem OnlyLoops.placedAt_iff (hloops : OnlyLoops (ofInfo info).nodes) {i : Nat} {c : Call} :
    PlacedAt (ofInfo info) removeMain i c ↔
      c.callee ∈ (ofInfo info).eligibleCallees removeMain c.caller ∧
        i = (ofInfo info).rank removeMain c.callee := by
  have hplan := planned (isTopology_ofInfo info) removeMain
  have hrank : ∀ {j}, PlacedAt (ofInfo info) removeMain j c →
      j = (ofInfo info).rank removeMain c.callee := by
    intro j hj
    rw [CallGraph.placedAt_iff] at hj
    obtain ⟨⟨u, hu, hf⟩, hcallee⟩ := hplan.mem hj
    have hnot := hloops.callee_not_mem hu hf hcallee
    obtain ⟨hle, hpassed⟩ := hplan.outer hu hj hf hnot
    by_contra hne
    have hlt : (ofInfo info).rank removeMain c.callee < j :=
      Nat.lt_of_le_of_ne hle fun heq => hne heq.symm
    -- Behind the earliest place a call passes over closed batches only, and without cycles none is
    -- closed.
    have hclosed := hpassed _ (Nat.le_refl _) hlt
    rw [hloops.closedAt_eq_false] at hclosed
    cases hclosed
  constructor
  · intro hplaced
    exact ⟨(exists_placedAt_iff (isTopology_ofInfo info)).mp ⟨i, hplaced⟩, hrank hplaced⟩
  · rintro ⟨hcallee, rfl⟩
    obtain ⟨j, hj⟩ := (exists_placedAt_iff (isTopology_ofInfo info)).mpr hcallee
    rw [← hrank hj]
    exact hj

theorem placedAt_iff_rank (hacyclic : Acyclic (ofInfo info).nodes) {i : Nat} {c : Call} :
    PlacedAt (ofInfo info) removeMain i c ↔
      c.callee ∈ (ofInfo info).eligibleCallees removeMain c.caller ∧
        i = (ofInfo info).rank removeMain c.callee :=
  hacyclic.onlyLoops.placedAt_iff

theorem rank_lt_rank (hloops : OnlyLoops (ofInfo info).nodes) {f g : String}
    (hg : g ∈ (ofInfo info).eligibleCallees removeMain f) :
    (ofInfo info).rank removeMain g < (ofInfo info).rank removeMain f := by
  have hplaced : PlacedAt (ofInfo info) removeMain ((ofInfo info).rank removeMain g) ⟨f, g⟩ :=
    hloops.placedAt_iff.mpr ⟨hg, rfl⟩
  rw [placedAt_iff] at hplaced
  exact (planned (isTopology_ofInfo info) removeMain).lt_readyAt hplaced

theorem rank_lt_length (hloops : OnlyLoops (ofInfo info).nodes) {f g : String}
    (hg : g ∈ (ofInfo info).eligibleCallees removeMain f) :
    (ofInfo info).rank removeMain g < ((ofInfo info).batches removeMain).length := by
  have hplaced : PlacedAt (ofInfo info) removeMain ((ofInfo info).rank removeMain g) ⟨f, g⟩ :=
    hloops.placedAt_iff.mpr ⟨hg, rfl⟩
  obtain ⟨batch, hbatch, -⟩ := hplaced
  exact (List.getElem?_eq_some_iff.mp hbatch).1

/-! ## Every call once -/

theorem nodup_callsOf {cg : CallGraph} (hwf : WellFormed cg.nodes) {fs : List String}
    (h : fs.Nodup) : (Plan.callsOf cg removeMain fs).Nodup := by
  unfold Plan.callsOf
  rw [List.nodup_flatMap]
  constructor
  · intro f _
    refine List.Nodup.map ?_ ?_
    · intro g g' hgg
      cases hgg
      rfl
    · unfold eligibleCallees
      split
      · exact (nodup_callsIn hwf f).filter _
      · exact List.nodup_nil
  -- Calls of different callers differ.
  · refine h.imp ?_
    intro f f' hne c hc hc'
    obtain ⟨g, -, rfl⟩ := List.mem_map.mp hc
    obtain ⟨g', -, heq⟩ := List.mem_map.mp hc'
    cases heq
    exact hne rfl

/-- No batch holds a call twice. -/
theorem nodup_of_mem_batches {batch : List Call}
    (h : batch ∈ (ofInfo info).batches removeMain) : batch.Nodup := by
  have hplan := planned (isTopology_ofInfo info) removeMain
  have hcalls : (Plan.callsOf (ofInfo info) removeMain (ofInfo info).groups.flatten).Nodup :=
    nodup_callsOf (wellFormed_nodesOf info) (isTopology_ofInfo info).nodup
  have hall := hplan.all.nodup_iff.mpr hcalls
  obtain ⟨b, hb, rfl⟩ := List.mem_map.mp h
  exact (List.nodup_flatMap.mp hall).1 b hb

end

/-! ## Graphs of plain functions -/

/-- Errors are propagated along all calls of known functions. -/
structure Plain (cg : CallGraph) (removeMain : Bool) : Prop where
  not_external : ∀ n ∈ cg.nodes, n.external = false
  no_doublePointer : ∀ n ∈ cg.nodes, n.doublePointer = false
  no_null : nullFunction ∉ cg.nodes.map (·.name)
  main_kept : mainFunction ∈ cg.nodes.map (·.name) → removeMain = false

theorem Plain.mem_eligibleCallees_iff {info : List (String × NodeInfo)} {removeMain : Bool}
    (h : Plain (ofInfo info) removeMain) (hacyclic : Acyclic (ofInfo info).nodes) {f g : String} :
    g ∈ (ofInfo info).eligibleCallees removeMain f ↔ Calls (ofInfo info).nodes f g := by
  refine ⟨Plan.calls_of_mem_eligibleCallees, ?_⟩
  intro hcall
  have hwf : WellFormed (ofInfo info).nodes := wellFormed_nodesOf info
  obtain ⟨caller, hcaller, rfl, hmem⟩ := (calls_iff hwf).mp hcall
  obtain ⟨callee, hcallee, rfl⟩ := List.mem_map.mp (hcall.callee_known hwf)
  have hnull : ∀ n ∈ (ofInfo info).nodes, n.name ≠ nullFunction :=
    fun n hn heq => h.no_null (heq ▸ List.mem_map_of_mem hn)
  -- A plain graph has no function that errors cannot be propagated to.
  have hsuitable : (caller.name = mainFunction ∧ removeMain = false) ∨
      (caller.name ≠ mainFunction ∧ caller.doublePointer = false) := by
    by_cases hmain : caller.name = mainFunction
    · exact Or.inl ⟨hmain, h.main_kept (hmain ▸ List.mem_map_of_mem hcaller)⟩
    · exact Or.inr ⟨hmain, h.no_doublePointer caller hcaller⟩
  have hne : caller.name ≠ callee.name := by
    intro heq
    rw [← heq] at hcall
    exact hacyclic caller.name (Relation.TransGen.single hcall)
  exact (CallGraph.mem_eligibleCallees_iff hwf).mpr ⟨caller, hcaller, callee, hcallee, rfl, rfl,
    { calls := hmem
      ne := hne
      caller_defined := ⟨h.not_external caller hcaller, hnull caller hcaller⟩
      callee_defined := ⟨h.not_external callee hcallee, hnull callee hcallee⟩
      suitable := hsuitable }⟩

end CallGraph
end FaultChain
