import Mathlib.Data.List.Perm.Basic
import FaultChain.CallGraph.Batches
import FaultChain.Proofs.CallGraph.Topology

/-!
# The order of batches

* `CallGraph.Plan.placement`: what placing one call does to the batches.
* `CallGraph.Plan.grown`: what placing the calls that leave a cluster does.
* `CallGraph.Plan.Planned`: what holds of the batches of the groups handled so far, for any
  topology.
* `CallGraph.batches_ofInfo_ordered`: calls between components come after all batches in which the
  component of their callee acts as a caller, calls inside a component are alone in their batch and
  come last.
-/

namespace FaultChain
namespace CallGraph
namespace Plan

/-! ## Batches by position -/

/-- The calls of the batch at a position, none past the end. -/
def callsAt (bs : List Batch) (i : Nat) : List Call := (bs[i]?.map (·.calls)).getD []

/-- Whether the batch at a position is closed; there are no closed batches past the end. -/
def closedAt (bs : List Batch) (i : Nat) : Bool := (bs[i]?.map (·.closed)).getD false

@[simp] theorem callsAt_nil (i : Nat) : callsAt [] i = [] := rfl

@[simp] theorem callsAt_cons_zero (b : Batch) (bs : List Batch) :
    callsAt (b :: bs) 0 = b.calls := rfl

@[simp] theorem callsAt_cons_succ (b : Batch) (bs : List Batch) (i : Nat) :
    callsAt (b :: bs) (i + 1) = callsAt bs i := rfl

@[simp] theorem closedAt_nil (i : Nat) : closedAt [] i = false := rfl

@[simp] theorem closedAt_cons_zero (b : Batch) (bs : List Batch) :
    closedAt (b :: bs) 0 = b.closed := rfl

@[simp] theorem closedAt_cons_succ (b : Batch) (bs : List Batch) (i : Nat) :
    closedAt (b :: bs) (i + 1) = closedAt bs i := rfl

theorem lt_length_of_mem_callsAt {bs : List Batch} {i : Nat} {c : Call}
    (h : c ∈ callsAt bs i) : i < bs.length := by
  by_contra hlen
  have hnone : bs[i]? = none := List.getElem?_eq_none (Nat.le_of_not_lt hlen)
  simp [callsAt, hnone] at h

theorem callsAt_append_left {bs cs : List Batch} {i : Nat} (h : i < bs.length) :
    callsAt (bs ++ cs) i = callsAt bs i := by
  simp [callsAt, List.getElem?_append_left h]

theorem mem_callsAt_append {bs cs : List Batch} {i : Nat} {c : Call} (h : c ∈ callsAt bs i) :
    c ∈ callsAt (bs ++ cs) i := by
  rw [callsAt_append_left (lt_length_of_mem_callsAt h)]
  exact h

theorem lt_length_of_closedAt {bs : List Batch} {i : Nat} (h : closedAt bs i = true) :
    i < bs.length := by
  by_contra hlen
  have hnone : bs[i]? = none := List.getElem?_eq_none (Nat.le_of_not_lt hlen)
  simp [closedAt, hnone] at h

theorem mem_callsAt_iff {bs : List Batch} {c : Call} :
    (∃ i, c ∈ callsAt bs i) ↔ c ∈ bs.flatMap (·.calls) := by
  rw [List.mem_flatMap]
  constructor
  · rintro ⟨i, hi⟩
    have hlt := lt_length_of_mem_callsAt hi
    refine ⟨bs[i], List.getElem_mem hlt, ?_⟩
    simpa [callsAt, List.getElem?_eq_getElem hlt] using hi
  · rintro ⟨b, hb, hc⟩
    obtain ⟨i, hi⟩ := List.getElem?_of_mem hb
    exact ⟨i, by simpa [callsAt, hi] using hc⟩

/-! ## Placing one call -/

/-- What placing a call from a position on does: the first open batch takes it. -/
structure Placement (c : Call) (skip : Nat) (bs bs' : List Batch) (i : Nat) : Prop where
  skip_le : skip ≤ i
  length_eq : bs'.length = max bs.length (i + 1)
  calls : ∀ j, callsAt bs' j = callsAt bs j ++ if j = i then [c] else []
  closed : ∀ j, closedAt bs' j = closedAt bs j
  taken : closedAt bs i = false
  passed : ∀ j, skip ≤ j → j < i → closedAt bs j = true
  all : (bs'.flatMap (·.calls)).Perm (c :: bs.flatMap (·.calls))

theorem Placement.mem_iff {c d : Call} {skip i j : Nat} {bs bs' : List Batch}
    (h : Placement c skip bs bs' i) :
    d ∈ callsAt bs' j ↔ d ∈ callsAt bs j ∨ j = i ∧ d = c := by
  rw [h.calls j, List.mem_append]
  split <;> simp_all

/-- A closed batch takes no call. -/
theorem Placement.calls_of_closed {c : Call} {skip i j : Nat} {bs bs' : List Batch}
    (h : Placement c skip bs bs' i) (hj : closedAt bs j = true) :
    callsAt bs' j = callsAt bs j := by
  have hne : j ≠ i := by
    rintro rfl
    rw [h.taken] at hj
    cases hj
  rw [h.calls, if_neg hne, List.append_nil]

/-- Passing over the first batch, because it is skipped or closed. -/
theorem Placement.cons {c : Call} {skip skip' i : Nat} {bs bs' : List Batch}
    (h : Placement c skip bs bs' i) (b : Batch) (hskip : skip' ≤ skip + 1)
    (hb : skip' = skip + 1 ∨ skip = 0 ∧ b.closed = true) :
    Placement c skip' (b :: bs) (b :: bs') (i + 1) where
  skip_le := by
    have := h.skip_le
    omega
  length_eq := by
    simp only [List.length_cons, h.length_eq]
    omega
  calls := by
    intro j
    cases j with
    | zero => simp
    | succ j => simpa using h.calls j
  closed := by
    intro j
    cases j with
    | zero => simp
    | succ j => simpa using h.closed j
  taken := h.taken
  passed := by
    intro j hj hlt
    cases j with
    | zero =>
      -- The first batch was skipped by request, which leaves nothing to show, or is closed.
      rcases hb with hb | ⟨-, hb⟩
      · omega
      · exact hb
    | succ j => exact h.passed j (by omega) (by omega)
  all := by
    simp only [List.flatMap_cons]
    exact (h.all.append_left b.calls).trans List.perm_middle

theorem placement (c : Call) (skip : Nat) (bs : List Batch) (hskip : skip ≤ bs.length) :
    Placement c skip bs (placeIn c skip bs).1 (placeIn c skip bs).2 := by
  -- Along the recursion: no batch left, a closed batch, an open one, and one to be skipped.
  fun_induction placeIn c skip bs with
  | case1 skip =>
    obtain rfl : skip = 0 := by simpa using hskip
    refine ⟨Nat.le_refl _, rfl, ?_, ?_, rfl, ?_, List.Perm.refl _⟩
    · intro j
      cases j with
      | zero => rfl
      | succ j => simp
    · intro j
      cases j with
      | zero => rfl
      | succ j => rfl
    · intro j _ hlt
      omega
  | case2 b rest hclosed rest' i heq ih =>
    rw [heq] at ih
    exact (ih (Nat.zero_le _)).cons b (by omega) (Or.inr ⟨rfl, hclosed⟩)
  | case3 b rest hopen =>
    refine ⟨Nat.le_refl _, by simp, ?_, ?_, by simpa using hopen, ?_, ?_⟩
    · intro j
      cases j with
      | zero => simp
      | succ j => simp
    · intro j
      cases j with
      | zero => simp
      | succ j => simp
    · intro j _ hlt
      omega
    · simp only [List.flatMap_cons, List.append_assoc, List.singleton_append]
      exact List.perm_middle
  | case4 skip b rest rest' i heq ih =>
    rw [heq] at ih
    exact (ih (by simpa using hskip)).cons b (Nat.le_refl _) (Or.inl rfl)

/-! ## Placing the calls that leave a cluster -/

/-- What placing calls does to the batches of a plan, with `used` the number of batches up to the
last one that took a call. -/
structure Grown (p : Plan) (calls : List Call) (acc : Progress) : Prop where
  length_le : p.batches.length ≤ acc.batches.length
  used_le : acc.used ≤ acc.batches.length
  kept : ∀ {j c}, c ∈ callsAt p.batches j → c ∈ callsAt acc.batches j
  closed : ∀ j, closedAt acc.batches j = closedAt p.batches j
  closed_kept : ∀ {j}, closedAt p.batches j = true → callsAt acc.batches j = callsAt p.batches j
  added : ∀ {j c}, c ∈ callsAt acc.batches j → c ∈ callsAt p.batches j ∨
    c ∈ calls ∧ p.readyAt c.callee ≤ j ∧ j < acc.used ∧
      ∀ k, p.readyAt c.callee ≤ k → k < j → closedAt p.batches k = true
  attained : ∀ {k}, acc.used = k + 1 → ∃ c ∈ calls, c ∈ callsAt acc.batches k
  all : (acc.batches.flatMap (·.calls)).Perm (calls ++ p.batches.flatMap (·.calls))

theorem Grown.nil (p : Plan) : Grown p [] { batches := p.batches, used := 0 } where
  length_le := Nat.le_refl _
  used_le := Nat.zero_le _
  kept := id
  closed := fun _ => rfl
  closed_kept := fun _ => rfl
  added := Or.inl
  attained := by
    intro k hk
    cases hk
  all := List.Perm.refl _

theorem Grown.snoc {p : Plan} {calls : List Call} {acc : Progress} (h : Grown p calls acc)
    (hready : ∀ f, p.readyAt f ≤ p.batches.length) (c : Call) :
    Grown p (calls ++ [c]) (placeOuter p acc c) := by
  have hplace := placement c (p.readyAt c.callee) acc.batches
    (Nat.le_trans (hready c.callee) h.length_le)
  have hbatches : (placeOuter p acc c).batches =
    (placeIn c (p.readyAt c.callee) acc.batches).1 := rfl
  have hused : (placeOuter p acc c).used =
    max acc.used ((placeIn c (p.readyAt c.callee) acc.batches).2 + 1) := rfl
  generalize (placeIn c (p.readyAt c.callee) acc.batches).1 = bs' at hplace hbatches
  generalize (placeIn c (p.readyAt c.callee) acc.batches).2 = i at hplace hused
  refine ⟨?_, ?_, ?_, ?_, ?_, ?_, ?_, ?_⟩
  · rw [hbatches, hplace.length_eq]
    exact Nat.le_trans h.length_le (Nat.le_max_left _ _)
  · rw [hbatches, hused, hplace.length_eq]
    have := h.used_le
    omega
  · intro j d hd
    rw [hbatches]
    exact hplace.mem_iff.mpr (Or.inl (h.kept hd))
  · intro j
    rw [hbatches, hplace.closed, h.closed]
  · intro j hj
    rw [hbatches, hplace.calls_of_closed ((h.closed j).trans hj), h.closed_kept hj]
  · intro j d hd
    rw [hbatches, hplace.mem_iff] at hd
    rw [hused]
    rcases hd with hd | ⟨rfl, rfl⟩
    · rcases h.added hd with hold | ⟨hmem, hfrom, hlt, hpassed⟩
      · exact Or.inl hold
      · exact Or.inr ⟨List.mem_append_left _ hmem, hfrom, by omega, hpassed⟩
    · refine Or.inr ⟨by simp, hplace.skip_le, by omega, ?_⟩
      intro k hk hlt
      rw [← h.closed]
      exact hplace.passed k hk hlt
  · intro k hk
    rw [hused] at hk
    rw [hbatches]
    -- The last batch in use is the one that took the call, or what it was before.
    by_cases hle : acc.used ≤ i
    · obtain rfl : k = i := by omega
      exact ⟨c, by simp, hplace.mem_iff.mpr (Or.inr ⟨rfl, rfl⟩)⟩
    · obtain ⟨d, hd, hat⟩ := h.attained (show acc.used = k + 1 by omega)
      exact ⟨d, List.mem_append_left _ hd, hplace.mem_iff.mpr (Or.inl hat)⟩
  · rw [hbatches, List.append_assoc, List.singleton_append]
    exact hplace.all.trans ((h.all.cons c).trans List.perm_middle.symm)

theorem grown {p : Plan} (hready : ∀ f, p.readyAt f ≤ p.batches.length) (calls : List Call) :
    Grown p calls (calls.foldl (placeOuter p) { batches := p.batches, used := 0 }) := by
  induction calls using List.reverseRecOn with
  | nil => exact Grown.nil p
  | append_singleton calls c ih =>
    rw [List.foldl_append]
    exact ih.snoc hready c

/-! ## Placing the calls inside a cluster -/

/-- The closed batch of a call inside a cluster. -/
def alone (c : Call) : Batch := { calls := [c], closed := true }

theorem foldl_placeInner (calls : List Call) (acc : Progress) :
    (calls.foldl placeInner acc).batches = acc.batches ++ calls.map alone ∧
      (calls.foldl placeInner acc).used =
        if calls = [] then acc.used else (acc.batches ++ calls.map alone).length := by
  induction calls generalizing acc with
  | nil => simp
  | cons c calls ih =>
    obtain ⟨hbatches, hused⟩ := ih (placeInner acc c)
    have hfirst : (placeInner acc c).batches = acc.batches ++ [alone c] := rfl
    have hlast : (placeInner acc c).used = (acc.batches ++ [alone c]).length := rfl
    rw [List.foldl_cons, hbatches, hused, hfirst, hlast]
    refine ⟨by simp, ?_⟩
    cases calls with
    | nil => simp
    | cons d calls => simp

/-- The batches behind a position are those of the calls inside the cluster. -/
theorem getElem?_append_alone {bs : List Batch} {calls : List Call} {i : Nat} {c : Call}
    (h : c ∈ callsAt (bs ++ calls.map alone) i) :
    (i < bs.length ∧ c ∈ callsAt bs i) ∨
      (bs.length ≤ i ∧ c ∈ calls ∧ (bs ++ calls.map alone)[i]? = some (alone c)) := by
  -- In front are the batches that were there, behind them one for each call inside.
  by_cases hlt : i < bs.length
  · rw [callsAt_append_left hlt] at h
    exact Or.inl ⟨hlt, h⟩
  · have hle : bs.length ≤ i := Nat.le_of_not_lt hlt
    unfold callsAt at h
    rw [List.getElem?_append_right hle, List.getElem?_map] at h ⊢
    cases hget : calls[i - bs.length]? with
    | none => simp [hget] at h
    | some d =>
      have hcd : c = d := by simpa [hget, alone] using h
      subst hcd
      exact Or.inr ⟨hle, List.mem_of_getElem? hget, rfl⟩

/-- A closed batch was closed before, or it is that of a call inside the cluster. -/
theorem closedAt_append_alone {bs : List Batch} {calls : List Call} {i : Nat}
    (h : closedAt (bs ++ calls.map alone) i = true) :
    closedAt bs i = true ∨ ∃ c ∈ calls, c ∈ callsAt (bs ++ calls.map alone) i := by
  by_cases hlt : i < bs.length
  · simp only [closedAt, List.getElem?_append_left hlt] at h ⊢
    exact Or.inl h
  · have hle := Nat.le_of_not_lt hlt
    cases hget : calls[i - bs.length]? with
    | none => simp [closedAt, List.getElem?_append_right hle, hget] at h
    | some c =>
      refine Or.inr ⟨c, List.mem_of_getElem? hget, ?_⟩
      simp [callsAt, List.getElem?_append_right hle, hget, alone]

/-- The last batch is that of the last call inside the cluster. -/
theorem exists_mem_callsAt_last {bs : List Batch} {calls : List Call} {k : Nat} (hne : calls ≠ [])
    (hk : (bs ++ calls.map alone).length = k + 1) :
    ∃ c ∈ calls, c ∈ callsAt (bs ++ calls.map alone) k := by
  obtain ⟨front, c, rfl⟩ := (List.eq_nil_or_concat calls).resolve_left hne
  have hlen : k = bs.length + front.length := by
    simp at hk
    omega
  refine ⟨c, by simp, ?_⟩
  simp [callsAt, hlen, alone]

theorem flatMap_alone (calls : List Call) : (calls.map alone).flatMap (·.calls) = calls := by
  simp [List.flatMap_map, alone]

/-- A call was there before, was placed, or has a batch of its own at the end. -/
theorem Grown.mem_append_alone {p : Plan} {outer inner : List Call} {acc : Progress}
    (h : Grown p outer acc) {i : Nat} {c : Call}
    (hc : c ∈ callsAt (acc.batches ++ inner.map alone) i) :
    c ∈ callsAt p.batches i ∨
    (c ∈ outer ∧ p.readyAt c.callee ≤ i ∧ i < acc.used ∧
      ∀ k, p.readyAt c.callee ≤ k → k < i → closedAt p.batches k = true) ∨
    (acc.batches.length ≤ i ∧ c ∈ inner ∧
      (acc.batches ++ inner.map alone)[i]? = some (alone c)) := by
  rcases getElem?_append_alone hc with ⟨-, hin⟩ | hend
  · rcases h.added hin with hold | hnew
    · exact Or.inl hold
    · exact Or.inr (Or.inl hnew)
  · exact Or.inr (Or.inr hend)

/-! ## Adding a cluster -/

section

variable {cg : CallGraph} {removeMain : Bool}

/-- The calls of functions that errors are propagated along. -/
def callsOf (cg : CallGraph) (removeMain : Bool) (fs : List String) : List Call :=
  fs.flatMap fun caller =>
    (cg.eligibleCallees removeMain caller).map fun callee => ({ caller, callee } : Call)

theorem mem_callsOf_iff {fs : List String} {c : Call} :
    c ∈ callsOf cg removeMain fs ↔
      c.caller ∈ fs ∧ c.callee ∈ cg.eligibleCallees removeMain c.caller := by
  simp only [callsOf, List.mem_flatMap, List.mem_map]
  constructor
  · rintro ⟨caller, hf, callee, hg, rfl⟩
    exact ⟨hf, hg⟩
  · rintro ⟨hf, hg⟩
    exact ⟨c.caller, hf, c.callee, hg, rfl⟩

theorem calls_of_mem_eligibleCallees {f g : String} (h : g ∈ cg.eligibleCallees removeMain f) :
    Calls cg.nodes f g := by
  unfold eligibleCallees at h
  split at h
  · exact (List.mem_filter.mp h).1
  · cases h

/-- The calls of functions that leave them. -/
def leaving (cg : CallGraph) (removeMain : Bool) (fs : List String) : List Call :=
  (callsOf cg removeMain fs).filter fun c => !fs.contains c.callee

/-- The calls of functions that stay among them. -/
def staying (cg : CallGraph) (removeMain : Bool) (fs : List String) : List Call :=
  (callsOf cg removeMain fs).filter fun c => fs.contains c.callee

theorem mem_leaving_iff {fs : List String} {c : Call} :
    c ∈ leaving cg removeMain fs ↔ c ∈ callsOf cg removeMain fs ∧ c.callee ∉ fs := by
  simp [leaving]

theorem mem_staying_iff {fs : List String} {c : Call} :
    c ∈ staying cg removeMain fs ↔ c ∈ callsOf cg removeMain fs ∧ c.callee ∈ fs := by
  simp [staying]

theorem caller_of_mem_leaving {fs : List String} {c : Call} (h : c ∈ leaving cg removeMain fs) :
    c.caller ∈ fs :=
  (mem_callsOf_iff.mp (mem_leaving_iff.mp h).1).1

theorem caller_of_mem_staying {fs : List String} {c : Call} (h : c ∈ staying cg removeMain fs) :
    c.caller ∈ fs :=
  (mem_callsOf_iff.mp (mem_staying_iff.mp h).1).1

theorem perm_staying_leaving (cg : CallGraph) (removeMain : Bool) (fs : List String) :
    (staying cg removeMain fs ++ leaving cg removeMain fs).Perm (callsOf cg removeMain fs) :=
  List.filter_append_perm _ _

/-- The progress once the calls that leave a cluster are placed. -/
def placeLeaving (cg : CallGraph) (removeMain : Bool) (p : Plan) (u : List String) : Progress :=
  (leaving cg removeMain u).foldl (placeOuter p) { batches := p.batches, used := 0 }

/-- The batches once a cluster is handled. -/
def batchesWith (cg : CallGraph) (removeMain : Bool) (p : Plan) (u : List String) : List Batch :=
  (placeLeaving cg removeMain p u).batches ++ (staying cg removeMain u).map alone

/-- The number of batches up to the last one with a call of a cluster. -/
def usedBy (cg : CallGraph) (removeMain : Bool) (p : Plan) (u : List String) : Nat :=
  if staying cg removeMain u = [] then (placeLeaving cg removeMain p u).used
  else (batchesWith cg removeMain p u).length

theorem addCluster_eq (p : Plan) (cluster : Cluster) :
    addCluster cg removeMain p cluster =
      { batches := batchesWith cg removeMain p cluster.functions
        ready := cluster.functions.map (·, usedBy cg removeMain p cluster.functions) ++ p.ready } := by
  obtain ⟨hbatches, hused⟩ := foldl_placeInner (staying cg removeMain cluster.functions)
    (placeLeaving cg removeMain p cluster.functions)
  unfold usedBy batchesWith
  rw [← hused, ← hbatches]
  rfl

theorem Grown.used_le_usedBy {p : Plan} {u : List String}
    (h : Grown p (leaving cg removeMain u) (placeLeaving cg removeMain p u)) :
    (placeLeaving cg removeMain p u).used ≤ usedBy cg removeMain p u := by
  have hle := h.used_le
  unfold usedBy batchesWith
  split
  · exact Nat.le_refl _
  · rw [List.length_append]
    omega

theorem Grown.usedBy_le {p : Plan} {u : List String}
    (h : Grown p (leaving cg removeMain u) (placeLeaving cg removeMain p u)) :
    usedBy cg removeMain p u ≤ (batchesWith cg removeMain p u).length := by
  have hle := h.used_le
  unfold usedBy
  split
  · unfold batchesWith
    rw [List.length_append]
    omega
  · exact Nat.le_refl _

/-- The last batch a cluster uses has one of its calls. -/
theorem Grown.exists_mem_usedBy {p : Plan} {u : List String}
    (h : Grown p (leaving cg removeMain u) (placeLeaving cg removeMain p u)) {k : Nat}
    (hk : usedBy cg removeMain p u = k + 1) :
    ∃ c ∈ callsAt (batchesWith cg removeMain p u) k, c.caller ∈ u := by
  unfold usedBy at hk
  split at hk
  · obtain ⟨c, hc, hat⟩ := h.attained hk
    exact ⟨c, mem_callsAt_append hat, caller_of_mem_leaving hc⟩
  · rename_i hne
    obtain ⟨c, hc, hat⟩ := exists_mem_callsAt_last hne hk
    exact ⟨c, hat, caller_of_mem_staying hc⟩

/-- The plan after a cluster: its batches, and the first batch that may call each function. -/
structure Added (cg : CallGraph) (removeMain : Bool) (u : List String) (p p' : Plan) : Prop where
  /-- A call of the new plan was there, leaves the cluster, or stays inside it. -/
  cases : ∀ {i c}, c ∈ callsAt p'.batches i →
    c ∈ callsAt p.batches i ∨
    (c ∈ callsOf cg removeMain u ∧ c.callee ∉ u ∧ p.readyAt c.callee ≤ i ∧
      ∀ k, p.readyAt c.callee ≤ k → k < i → closedAt p.batches k = true) ∨
    (c ∈ callsOf cg removeMain u ∧ c.callee ∈ u ∧ p'.batches[i]? = some (alone c) ∧
      p.batches.length ≤ i ∧
      ∀ {j d}, d ∈ callsAt p'.batches j → d.caller ∈ u → d.callee ∉ u →
        d ∉ callsAt p.batches j → j < i)
  length_le : p.batches.length ≤ p'.batches.length
  kept : ∀ {i c}, c ∈ callsAt p.batches i → c ∈ callsAt p'.batches i
  closed_kept : ∀ {i}, closedAt p.batches i = true → p'.batches[i]? = p.batches[i]?
  closed : ∀ {i}, closedAt p'.batches i = true → closedAt p.batches i = true ∨
    ∃ c ∈ callsAt p'.batches i, c.caller ∈ u ∧ c.callee ∈ u
  readyAt_old : ∀ {f}, f ∉ u → p'.readyAt f = p.readyAt f
  readyAt_new : ∀ {f g}, f ∈ u → g ∈ u → p'.readyAt f = p'.readyAt g
  readyAt_le : ∀ {f}, f ∈ u → p'.readyAt f ≤ p'.batches.length
  lt_readyAt : ∀ {i c}, c ∈ callsAt p'.batches i → c ∉ callsAt p.batches i →
    i < p'.readyAt c.caller
  attained : ∀ {f k}, f ∈ u → p'.readyAt f = k + 1 → ∃ c ∈ callsAt p'.batches k, c.caller ∈ u
  all : (p'.batches.flatMap (·.calls)).Perm
    (callsOf cg removeMain u ++ p.batches.flatMap (·.calls))

theorem readyAt_map_append {p : Plan} {u : List String} {n : Nat} {bs : List Batch} (f : String) :
    ({ batches := bs, ready := u.map (·, n) ++ p.ready } : Plan).readyAt f =
      if f ∈ u then n else p.readyAt f := by
  unfold readyAt
  induction u with
  | nil => simp
  | cons g u ih =>
    by_cases hfg : f = g
    · simp [hfg]
    · simpa [lookup_cons_of_ne hfg, hfg] using ih

theorem getElem?_eq_of_closedAt {bs bs' : List Batch} {i : Nat} (hcalls : callsAt bs' i = callsAt bs i)
    (hclosed : closedAt bs' i = closedAt bs i) (h : closedAt bs i = true) : bs'[i]? = bs[i]? := by
  unfold closedAt at hclosed h
  unfold callsAt at hcalls
  cases hb : bs[i]? with
  | none => simp [hb] at h
  | some b =>
    cases hb' : bs'[i]? with
    | none =>
      rw [hb', h] at hclosed
      cases hclosed
    | some b' =>
      simp only [hb, hb', Option.map_some, Option.getD_some] at hcalls hclosed
      cases b
      cases b'
      simp_all

theorem added {p : Plan} (hready : ∀ f, p.readyAt f ≤ p.batches.length) (cluster : Cluster) :
    Added cg removeMain cluster.functions p (addCluster cg removeMain p cluster) := by
  rw [addCluster_eq]
  generalize cluster.functions = u
  have hgrown : Grown p (leaving cg removeMain u) (placeLeaving cg removeMain p u) :=
    grown hready _
  refine
    { cases := ?_, length_le := ?_, kept := fun hc => mem_callsAt_append (hgrown.kept hc),
      closed_kept := ?_, closed := ?_, readyAt_old := ?_, readyAt_new := ?_, readyAt_le := ?_,
      lt_readyAt := ?_, attained := ?_, all := ?_ }
  · intro i c hc
    rcases hgrown.mem_append_alone hc with hold | ⟨hout, hfrom, hlt, hpassed⟩ | ⟨hle, hin, hget⟩
    · exact Or.inl hold
    · obtain ⟨hmem, hnot⟩ := mem_leaving_iff.mp hout
      exact Or.inr (Or.inl ⟨hmem, hnot, hfrom, hpassed⟩)
    · obtain ⟨hmem, hcallee⟩ := mem_staying_iff.mp hin
      refine Or.inr (Or.inr ⟨hmem, hcallee, hget, Nat.le_trans hgrown.length_le hle, ?_⟩)
      -- A new call that leaves the cluster was placed before the first batch of an inner call.
      intro j d hd _ hdcallee hdold
      rcases hgrown.mem_append_alone hd with hold | ⟨-, -, hlt, -⟩ | ⟨-, hdin, -⟩
      · exact absurd hold hdold
      · have := hgrown.used_le
        omega
      · exact absurd (mem_staying_iff.mp hdin).2 hdcallee
  · simp only [batchesWith, List.length_append]
    exact Nat.le_trans hgrown.length_le (Nat.le_add_right _ _)
  · intro i hi
    have hlt : i < (placeLeaving cg removeMain p u).batches.length :=
      lt_length_of_closedAt ((hgrown.closed i).trans hi)
    simp only [batchesWith, List.getElem?_append_left hlt]
    exact getElem?_eq_of_closedAt (hgrown.closed_kept hi) (hgrown.closed i) hi
  · intro i hi
    rcases closedAt_append_alone hi with hold | ⟨c, hc, hat⟩
    · exact Or.inl ((hgrown.closed i).symm.trans hold)
    · exact Or.inr ⟨c, hat, caller_of_mem_staying hc, (mem_staying_iff.mp hc).2⟩
  · intro f hf
    rw [readyAt_map_append, if_neg hf]
  · intro f g hf hg
    rw [readyAt_map_append, readyAt_map_append, if_pos hf, if_pos hg]
  · intro f hf
    rw [readyAt_map_append, if_pos hf]
    exact hgrown.usedBy_le
  · intro i c hc hnew
    rw [readyAt_map_append]
    rcases hgrown.mem_append_alone hc with hold | ⟨hout, -, hlt, -⟩ | ⟨-, hin, -⟩
    · exact absurd hold hnew
    · rw [if_pos (caller_of_mem_leaving hout)]
      exact Nat.lt_of_lt_of_le hlt hgrown.used_le_usedBy
    · rw [if_pos (caller_of_mem_staying hin), usedBy, if_neg (List.ne_nil_of_mem hin)]
      exact lt_length_of_mem_callsAt hc
  · intro f k hf hk
    rw [readyAt_map_append, if_pos hf] at hk
    exact hgrown.exists_mem_usedBy hk
  · simp only [batchesWith, List.flatMap_append, flatMap_alone]
    -- The calls inside come last here and first in the partition of the calls of the cluster.
    have hswap := List.perm_append_comm.trans (hgrown.all.append_left (staying cg removeMain u))
    rw [← List.append_assoc] at hswap
    exact hswap.trans ((perm_staying_leaving cg removeMain u).append_right _)

/-- Calls whose caller is not in the cluster were there before. -/
theorem Added.mem_of_caller_not_mem {u : List String} {p p' : Plan}
    (h : Added cg removeMain u p p') {i : Nat} {c : Call} (hc : c ∈ callsAt p'.batches i)
    (hcaller : c.caller ∉ u) : c ∈ callsAt p.batches i := by
  rcases h.cases hc with hold | ⟨hnew, -⟩ | ⟨hnew, -⟩
  · exact hold
  · exact absurd (mem_callsOf_iff.mp hnew).1 hcaller
  · exact absurd (mem_callsOf_iff.mp hnew).1 hcaller

/-! ## The plan of the groups handled so far -/

/-- What holds of a plan once some groups of a topology are handled. -/
structure Planned (cg : CallGraph) (removeMain : Bool) (done : List (List String)) (p : Plan) :
    Prop where
  readyAt_le : ∀ f, p.readyAt f ≤ p.batches.length
  lt_readyAt : ∀ {i c}, c ∈ callsAt p.batches i → i < p.readyAt c.caller
  readyAt_eq : ∀ {u f g}, u ∈ done → f ∈ u → g ∈ u → p.readyAt f = p.readyAt g
  /-- A call that leaves its group waits for its callee, and only closed batches delay it. -/
  outer : ∀ {u i c}, u ∈ done → c ∈ callsAt p.batches i → c.caller ∈ u → c.callee ∉ u →
    p.readyAt c.callee ≤ i ∧ ∀ k, p.readyAt c.callee ≤ k → k < i → closedAt p.batches k = true
  /-- A call inside its group is alone, after the calls that leave the group. -/
  inner : ∀ {u i c}, u ∈ done → c ∈ callsAt p.batches i → c.caller ∈ u → c.callee ∈ u →
    p.batches[i]? = some (alone c) ∧
      ∀ {j d}, d ∈ callsAt p.batches j → d.caller ∈ u → d.callee ∉ u → j < i
  closed : ∀ {i}, closedAt p.batches i = true →
    ∃ u ∈ done, ∃ c ∈ callsAt p.batches i, c.caller ∈ u ∧ c.callee ∈ u
  attained : ∀ {u f k}, u ∈ done → f ∈ u → p.readyAt f = k + 1 →
    ∃ c ∈ callsAt p.batches k, c.caller ∈ u
  all : (p.batches.flatMap (·.calls)).Perm (callsOf cg removeMain done.flatten)

theorem Planned.nil : Planned cg removeMain [] { batches := [], ready := [] } where
  readyAt_le := fun _ => Nat.le_refl _
  lt_readyAt := by simp
  readyAt_eq := by simp
  outer := by simp
  inner := by simp
  closed := by simp
  attained := by simp
  all := List.Perm.refl _

/-- The calls of a plan are calls of the graph whose caller is in a handled group. -/
theorem Planned.mem {done : List (List String)} {p : Plan} (h : Planned cg removeMain done p)
    {i : Nat} {c : Call} (hc : c ∈ callsAt p.batches i) :
    (∃ u ∈ done, c.caller ∈ u) ∧ c.callee ∈ cg.eligibleCallees removeMain c.caller := by
  have hmem := mem_callsOf_iff.mp (h.all.mem_iff.mp (mem_callsAt_iff.mp ⟨i, hc⟩))
  exact ⟨List.mem_flatten.mp hmem.1, hmem.2⟩

/-- A group of new functions that the functions of the groups before it do not call. -/
structure ComesLast (cg : CallGraph) (done : List (List String)) (u : List String) : Prop where
  fresh : ∀ w ∈ done, ∀ f ∈ w, f ∉ u
  not_called : ∀ w ∈ done, ∀ f ∈ w, ∀ g, Calls cg.nodes f g → g ∉ u

section

variable {done : List (List String)} {p p' : Plan} {u : List String}

/-- Neither end of a call of the old plan is in the new group. -/
theorem Planned.not_mem_of_comesLast (h : Planned cg removeMain done p)
    (hlast : ComesLast cg done u) {i : Nat} {c : Call} (hc : c ∈ callsAt p.batches i) :
    c.caller ∉ u ∧ c.callee ∉ u := by
  obtain ⟨⟨w, hw, hf⟩, hcallee⟩ := h.mem hc
  exact ⟨hlast.fresh w hw _ hf, hlast.not_called w hw _ hf _ (calls_of_mem_eligibleCallees hcallee)⟩

theorem Added.closedAt_kept (ha : Added cg removeMain u p p') {i : Nat}
    (hi : closedAt p.batches i = true) : closedAt p'.batches i = true := by
  rw [closedAt, ha.closed_kept hi]
  exact hi

theorem Planned.outer_snoc (h : Planned cg removeMain done p) (ha : Added cg removeMain u p p')
    (hlast : ComesLast cg done u) {w : List String} {i : Nat} {c : Call} (hw : w ∈ done ++ [u])
    (hc : c ∈ callsAt p'.batches i) (hf : c.caller ∈ w) (hg : c.callee ∉ w) :
    p'.readyAt c.callee ≤ i ∧
      ∀ k, p'.readyAt c.callee ≤ k → k < i → closedAt p'.batches k = true := by
  rcases List.mem_append.mp hw with hw | hw
  · -- A call of an old group is in the old plan, whose callees become ready when they did.
    have hc' := ha.mem_of_caller_not_mem hc (hlast.fresh _ hw _ hf)
    obtain ⟨hle, hpassed⟩ := h.outer hw hc' hf hg
    rw [ha.readyAt_old (h.not_mem_of_comesLast hlast hc').2]
    exact ⟨hle, fun k hk hlt => ha.closedAt_kept (hpassed k hk hlt)⟩
  · obtain rfl : w = u := by simpa using hw
    rw [ha.readyAt_old hg]
    rcases ha.cases hc with hc' | ⟨-, -, hle, hpassed⟩ | ⟨-, hg', -⟩
    · exact absurd hf (h.not_mem_of_comesLast hlast hc').1
    · exact ⟨hle, fun k hk hlt => ha.closedAt_kept (hpassed k hk hlt)⟩
    · exact absurd hg' hg

theorem Planned.inner_snoc (h : Planned cg removeMain done p) (ha : Added cg removeMain u p p')
    (hlast : ComesLast cg done u) {w : List String} {i : Nat} {c : Call} (hw : w ∈ done ++ [u])
    (hc : c ∈ callsAt p'.batches i) (hf : c.caller ∈ w) (hg : c.callee ∈ w) :
    p'.batches[i]? = some (alone c) ∧
      ∀ {j d}, d ∈ callsAt p'.batches j → d.caller ∈ w → d.callee ∉ w → j < i := by
  have hsame : ∀ {v j d}, v ∈ done → d ∈ callsAt p'.batches j → d.caller ∈ v →
      d ∈ callsAt p.batches j :=
    fun hv hd hdf => ha.mem_of_caller_not_mem hd (hlast.fresh _ hv _ hdf)
  rcases List.mem_append.mp hw with hw | hw
  · obtain ⟨hget, hbefore⟩ := h.inner hw (hsame hw hc hf) hf hg
    refine ⟨?_, fun hd hdf hdg => hbefore (hsame hw hd hdf) hdf hdg⟩
    -- Its batch is closed, and closed batches stay as they are.
    rw [ha.closed_kept, hget]
    simp [closedAt, hget, alone]
  · obtain rfl : w = u := by simpa using hw
    rcases ha.cases hc with hc' | ⟨-, hg', -⟩ | ⟨-, -, hget, -, hbefore⟩
    · exact absurd hf (h.not_mem_of_comesLast hlast hc').1
    · exact absurd hg hg'
    · exact ⟨hget, fun hd hdf hdg =>
        hbefore hd hdf hdg fun hd' => (h.not_mem_of_comesLast hlast hd').1 hdf⟩

theorem Planned.snoc (h : Planned cg removeMain done p) (ha : Added cg removeMain u p p')
    (hlast : ComesLast cg done u) : Planned cg removeMain (done ++ [u]) p' := by
  refine
    { readyAt_le := ?_, lt_readyAt := ?_, readyAt_eq := ?_
      outer := h.outer_snoc ha hlast, inner := h.inner_snoc ha hlast
      closed := ?_, attained := ?_, all := ?_ }
  · intro f
    by_cases hf : f ∈ u
    · exact ha.readyAt_le hf
    · rw [ha.readyAt_old hf]
      exact Nat.le_trans (h.readyAt_le f) ha.length_le
  · intro i c hc
    by_cases hc' : c ∈ callsAt p.batches i
    -- An earlier call does not concern the new group, an added one is placed in time for it.
    · rw [ha.readyAt_old (h.not_mem_of_comesLast hlast hc').1]
      exact h.lt_readyAt hc'
    · exact ha.lt_readyAt hc hc'
  · intro w f g hw hf hg
    rcases List.mem_append.mp hw with hw | hw
    · rw [ha.readyAt_old (hlast.fresh w hw f hf), ha.readyAt_old (hlast.fresh w hw g hg)]
      exact h.readyAt_eq hw hf hg
    · obtain rfl : w = u := by simpa using hw
      exact ha.readyAt_new hf hg
  · intro i hi
    rcases ha.closed hi with hi' | ⟨c, hc, hf, hg⟩
    · obtain ⟨w, hw, c, hc, hf, hg⟩ := h.closed hi'
      exact ⟨w, List.mem_append_left _ hw, c, ha.kept hc, hf, hg⟩
    · exact ⟨u, by simp, c, hc, hf, hg⟩
  · intro w f k hw hf hk
    rcases List.mem_append.mp hw with hw | hw
    · rw [ha.readyAt_old (hlast.fresh w hw f hf)] at hk
      obtain ⟨c, hc, hfc⟩ := h.attained hw hf hk
      exact ⟨c, ha.kept hc, hfc⟩
    · obtain rfl : w = u := by simpa using hw
      exact ha.attained hf hk
  · have hflat : callsOf cg removeMain (done ++ [u]).flatten =
        callsOf cg removeMain done.flatten ++ callsOf cg removeMain u := by
      simp [callsOf]
    rw [hflat]
    exact ha.all.trans ((h.all.append_left _).trans List.perm_append_comm)

end

/-- In groups that list every function once, the last one shares no function with those before. -/
theorem fresh_of_nodup {done : List (List String)} {u : List String}
    (h : (done ++ [u]).flatten.Nodup) : ∀ w ∈ done, ∀ f ∈ w, f ∉ u := by
  intro w hw f hf hfu
  rw [List.flatten_append, List.nodup_append] at h
  exact h.2.2 f (List.mem_flatten.mpr ⟨w, hw, hf⟩) f (by simpa using hfu) rfl

/-- Handling a topology group by group keeps the plan in order. -/
theorem planned_foldl (clusters : List Cluster)
    (hnodup : (clusters.map (·.functions)).flatten.Nodup)
    (hback : (clusters.map (·.functions)).Pairwise fun u v =>
      ∀ f ∈ u, ∀ g, Calls cg.nodes f g → g ∉ v) :
    Planned cg removeMain (clusters.map (·.functions))
      (clusters.foldl (addCluster cg removeMain) { batches := [], ready := [] }) := by
  -- From the end: each group comes last among those handled with it.
  induction clusters using List.reverseRecOn with
  | nil => exact Planned.nil
  | append_singleton clusters cluster ih =>
    rw [List.map_append, List.map_singleton] at hnodup hback ⊢
    have hfresh := fresh_of_nodup hnodup
    rw [List.flatten_append, List.nodup_append] at hnodup
    rw [List.pairwise_append] at hback
    have hplan := ih hnodup.1 hback.1
    rw [List.foldl_append]
    refine hplan.snoc (added hplan.readyAt_le cluster) { fresh := hfresh, not_called := ?_ }
    intro w hw
    exact hback.2.2 w hw _ (List.mem_singleton_self _)

end

end Plan

/-- The plan behind the batches of a graph. -/
def plan (cg : CallGraph) (removeMain : Bool) : Plan :=
  cg.topology.foldl (Plan.addCluster cg removeMain) { batches := [], ready := [] }

theorem planned {cg : CallGraph} (htop : IsTopology cg.nodes cg.groups) (removeMain : Bool) :
    Plan.Planned cg removeMain cg.groups (cg.plan removeMain) :=
  Plan.planned_foldl cg.topology htop.nodup htop.backward

theorem getElem?_batches (cg : CallGraph) (removeMain : Bool) (i : Nat) :
    (cg.batches removeMain)[i]? = (cg.plan removeMain).batches[i]?.map (·.calls) :=
  List.getElem?_map ..

/-- Whether a call is in the batch at a position. -/
def PlacedAt (cg : CallGraph) (removeMain : Bool) (i : Nat) (c : Call) : Prop :=
  ∃ batch, (cg.batches removeMain)[i]? = some batch ∧ c ∈ batch

theorem placedAt_iff {cg : CallGraph} {removeMain : Bool} {i : Nat} {c : Call} :
    PlacedAt cg removeMain i c ↔ c ∈ Plan.callsAt (cg.plan removeMain).batches i := by
  unfold PlacedAt Plan.callsAt
  rw [getElem?_batches]
  cases (cg.plan removeMain).batches[i]? with
  | none => simp
  | some b => simp

theorem known_of_mem_eligibleCallees {cg : CallGraph} {removeMain : Bool} {f g : String}
    (h : g ∈ cg.eligibleCallees removeMain f) : f ∈ cg.nodes.map (·.name) :=
  (Plan.calls_of_mem_eligibleCallees h).caller_known

/-- The placed calls are those that errors are propagated along. -/
theorem exists_placedAt_iff {cg : CallGraph} (htop : IsTopology cg.nodes cg.groups)
    {removeMain : Bool} {c : Call} :
    (∃ i, PlacedAt cg removeMain i c) ↔ c.callee ∈ cg.eligibleCallees removeMain c.caller := by
  have hplan := planned htop removeMain
  simp only [placedAt_iff, Plan.mem_callsAt_iff]
  rw [hplan.all.mem_iff, Plan.mem_callsOf_iff]
  constructor
  · exact And.right
  · intro h
    obtain ⟨u, hu, hf⟩ := htop.covers _ (known_of_mem_eligibleCallees h)
    exact ⟨List.mem_flatten.mpr ⟨u, hu, hf⟩, h⟩

/-! ## Order between components -/

/-- All calls that errors are propagated along are placed. Calls into another component come after
every batch in which that component acts as a caller. Calls between different functions of a
component are alone in their batch, after every batch with a call that leaves the component. -/
theorem batches_ofInfo_ordered (info : List (String × NodeInfo)) (removeMain : Bool) :
    (∀ f g, g ∈ (ofInfo info).eligibleCallees removeMain f →
      ∃ i, PlacedAt (ofInfo info) removeMain i ⟨f, g⟩) ∧
    (∀ f g i, PlacedAt (ofInfo info) removeMain i ⟨f, g⟩ →
      ¬ SameComponent (ofInfo info).nodes f g →
      ∀ c j, PlacedAt (ofInfo info) removeMain j c →
        SameComponent (ofInfo info).nodes c.caller g → j < i) ∧
    (∀ f g i, PlacedAt (ofInfo info) removeMain i ⟨f, g⟩ → f ≠ g →
      SameComponent (ofInfo info).nodes f g →
      ((ofInfo info).batches removeMain)[i]? = some [⟨f, g⟩] ∧
        ∀ c j, PlacedAt (ofInfo info) removeMain j c →
          SameComponent (ofInfo info).nodes c.caller f →
          ¬ SameComponent (ofInfo info).nodes c.callee f → j < i) := by
  have hplan := planned (isTopology_ofInfo info) removeMain
  refine ⟨?_, ?_, ?_⟩
  · intro f g hg
    exact (exists_placedAt_iff (isTopology_ofInfo info)).mpr hg
  · intro f g i hplaced hdiff c j hc hcg
    rw [placedAt_iff] at hplaced hc
    obtain ⟨⟨u, hu, hf⟩, -⟩ := hplan.mem hplaced
    obtain ⟨⟨v, hv, hcv⟩, -⟩ := hplan.mem hc
    -- The groups are the components, so a call into another component leaves its group.
    have hgu : g ∉ u := fun hg => hdiff ((sameComponent_iff_of_mem_groups hu hf g).mp hg)
    have hgv : g ∈ v := (sameComponent_iff_of_mem_groups hv hcv g).mpr hcg
    calc j < (plan (ofInfo info) removeMain).readyAt c.caller := hplan.lt_readyAt hc
      _ = (plan (ofInfo info) removeMain).readyAt g := hplan.readyAt_eq hv hcv hgv
      _ ≤ i := (hplan.outer hu hplaced hf hgu).1
  · intro f g i hplaced _ hsame
    rw [placedAt_iff] at hplaced
    obtain ⟨⟨u, hu, hf⟩, -⟩ := hplan.mem hplaced
    have hg : g ∈ u := (sameComponent_iff_of_mem_groups hu hf g).mpr hsame
    obtain ⟨hget, hlast⟩ := hplan.inner hu hplaced hf hg
    refine ⟨?_, ?_⟩
    · rw [getElem?_batches, hget]
      rfl
    · intro c j hc hcf hnot
      rw [placedAt_iff] at hc
      have hcaller : c.caller ∈ u := (sameComponent_iff_of_mem_groups hu hf _).mpr hcf.symm
      have hcallee : c.callee ∉ u := by
        intro hmem
        exact hnot ((sameComponent_iff_of_mem_groups hu hf _).mp hmem).symm
      exact hlast hc hcaller hcallee

end CallGraph
end FaultChain
