import Mathlib.Data.Finset.Max
import FaultChain.CallGraph.Topology
import FaultChain.Proofs.CallGraph.DepthFirst

/-!
# The listing of components

Components count down what they wait for while others are listed. What is ready at any time are the
components that are not listed while all that they wait for is.

* `CallGraph.Listing.Sound`: the counters, the ready components and the listed ones agree.
* `CallGraph.Listing.Lists`, `CallGraph.Listing.exists_lists`: what a step of the listing does.
* `CallGraph.Listing.sound_run`: they agree when nothing is ready any more.
* `CallGraph.LeastFirst`: groups in the order in which they are freed, the least first name first.
* `CallGraph.listComponents_spec`: all components are listed, and in this order, whatever the order
  in which the sets of components are gone through.
-/

namespace FaultChain
namespace CallGraph

variable {nodes : List Node} {groups : List (List String)}

/-! ## Positions -/

theorem index_eq_of_mem (hnodup : groups.flatten.Nodup) {i j : Nat} {u v : List String}
    (hu : groups[i]? = some u) (hv : groups[j]? = some v) {f : String} (hfu : f ∈ u)
    (hfv : f ∈ v) : i = j := by
  obtain ⟨hi, rfl⟩ := List.getElem?_eq_some_iff.mp hu
  obtain ⟨hj, rfl⟩ := List.getElem?_eq_some_iff.mp hv
  have hdisjoint := List.pairwise_iff_getElem.mp (List.nodup_flatten.mp hnodup).2
  rcases Nat.lt_trichotomy i j with hlt | heq | hgt
  · exact absurd hfv (hdisjoint i j hi hj hlt hfu)
  · exact heq
  · exact absurd hfu (hdisjoint j i hj hi hgt hfv)

/-- The position of a function that is listed once is that of its group. -/
theorem position_eq (hnodup : groups.flatten.Nodup) {i : Nat} {u : List String}
    (hu : groups[i]? = some u) {f : String} (hf : f ∈ u) : position groups f = i := by
  obtain ⟨hi, rfl⟩ := List.getElem?_eq_some_iff.mp hu
  unfold position
  apply (List.findIdx_eq hi).mpr
  refine ⟨by simpa using hf, ?_⟩
  intro j hj
  have hget : groups[j]? = some groups[j] := List.getElem?_eq_getElem (Nat.lt_trans hj hi)
  -- A hit further to the front would list the function twice.
  cases hcontains : groups[j].contains f with
  | false => rfl
  | true =>
    have hfj : f ∈ groups[j] := by simpa using hcontains
    have heq := index_eq_of_mem hnodup hget hu hfj hf
    exact absurd heq (Nat.ne_of_lt hj)

theorem exists_getElem?_of_mem_flatten {f : String} (hf : f ∈ groups.flatten) :
    ∃ (i : Nat) (u : List String), groups[i]? = some u ∧ f ∈ u := by
  obtain ⟨u, hu, hfu⟩ := List.mem_flatten.mp hf
  obtain ⟨i, hi⟩ := List.getElem?_of_mem hu
  exact ⟨i, u, hi, hfu⟩

/-! ## Releasing -/

namespace Listing

variable {waits : Nat → List Nat} {e : Enumeration} {comps : List (List String)}
  {waiting : List (List Nat)} {l : Listing}

theorem getD_release (l : Listing) (i k : Nat) (hi : i < l.pending.length) :
    (l.release i).pending.getD k 0 =
      if k = i then l.pending.getD i 0 - 1 else l.pending.getD k 0 := by
  unfold release
  by_cases h : k = i
  · subst h
    simp [hi]
  · rw [if_neg h]
    simp [List.getD, List.getElem?_set_ne (Ne.symm h)]

/-- Releasing different components: each waits for one other less, and those with none left become
ready. -/
theorem foldl_release (set : List Nat) (l : Listing) (hnodup : set.Nodup)
    (hlt : ∀ i ∈ set, i < l.pending.length) :
    (set.foldl release l).pending.length = l.pending.length ∧
      (∀ k, (set.foldl release l).pending.getD k 0 =
        if k ∈ set then l.pending.getD k 0 - 1 else l.pending.getD k 0) ∧
      (set.foldl release l).ready = l.ready ++ set.filter (fun i => l.pending.getD i 0 == 1) ∧
      (set.foldl release l).listed = l.listed := by
  induction set generalizing l with
  | nil => simp
  | cons i set ih =>
    obtain ⟨hi, hset⟩ := List.nodup_cons.mp hnodup
    have hlength : (l.release i).pending.length = l.pending.length := List.length_set
    obtain ⟨h₁, h₂, h₃, h₄⟩ := ih (l.release i) hset fun k hk =>
      hlength ▸ hlt k (List.mem_cons_of_mem _ hk)
    have hget := fun k => getD_release l i k (hlt i List.mem_cons_self)
    rw [List.foldl_cons]
    refine ⟨h₁.trans hlength, ?_, ?_, h₄⟩
    · intro k
      rw [h₂ k, hget k]
      by_cases hki : k = i
      · subst hki
        simp [hi]
      · simp [hki]
    · -- The others have their counters from before.
      have hsame : set.filter (fun k => (l.release i).pending.getD k 0 == 1) =
          set.filter fun k => l.pending.getD k 0 == 1 := by
        refine List.filter_congr fun k hk => ?_
        have hki : k ≠ i := fun h => hi (h ▸ hk)
        rw [hget k, if_neg hki]
      rw [h₃, hsame]
      have hzero : (l.pending.getD i 0 - 1 == 0) = (l.pending.getD i 0 == 1) := by
        rw [Bool.eq_iff_iff, beq_iff_eq, beq_iff_eq]
        omega
      unfold release
      rw [List.filter_cons]
      simp only [hzero]
      split <;> simp

/-! ## What holds while components are listed -/

/-- The counters count what is not listed yet, and ready are the components that wait only for
listed ones. -/
structure Sound (waits : Nat → List Nat) (n : Nat) (l : Listing) : Prop where
  length_pending : l.pending.length = n
  pending : ∀ i < n, l.pending.getD i 0 = ((waits i).countP (· ∉ l.listed) : Int)
  mem_ready : ∀ i, i ∈ l.ready ↔ i < n ∧ i ∉ l.listed ∧ ∀ j ∈ waits i, j ∈ l.listed
  ready_nodup : l.ready.Nodup
  listed_nodup : l.listed.Nodup
  listed_lt : ∀ i ∈ l.listed, i < n
  listed_waits : ∀ i ∈ l.listed, ∀ j ∈ waits i, j ∈ l.listed

/-- A component was listed when all that it waits for was, and no other one that was ready too comes
before it by its first name. -/
def Chosen (waits : Nat → List Nat) (comps : List (List String)) (listed : List Nat) : Prop :=
  ∀ before i after, listed = before ++ i :: after → (∀ j ∈ waits i, j ∈ before) ∧
    ∀ k < comps.length, k ∉ before → (∀ j ∈ waits k, j ∈ before) →
      firstName (comps.getD i []) ≤ firstName (comps.getD k [])

theorem perm_sortReady (comps : List (List String)) (ready : List Nat) :
    (sortReady comps ready).Perm ready :=
  List.mergeSort_perm _ _

/-- The first of the sorted components has the least first name. -/
theorem sortReady_head_le {ready rest : List Nat} {next : Nat}
    (h : sortReady comps ready = next :: rest) :
    ∀ k ∈ ready, firstName (comps.getD next []) ≤ firstName (comps.getD k []) := by
  have hsorted : (sortReady comps ready).Pairwise fun a b =>
      decide (firstName (comps.getD a []) ≤ firstName (comps.getD b [])) = true := by
    refine List.pairwise_mergeSort ?_ ?_ _
    · simpa using fun a b c => String.le_trans
    · simpa using fun a b => String.le_total _ _
  rw [h] at hsorted
  intro k hk
  rcases List.mem_cons.mp (h ▸ (perm_sortReady comps ready).mem_iff.mpr hk) with rfl | hk
  · exact String.le_refl _
  · simpa using (List.pairwise_cons.mp hsorted).1 k hk

/-- The table of those that wait for a component. -/
structure Table (waits : Nat → List Nat) (n : Nat) (waiting : List (List Nat)) : Prop where
  mem_iff : ∀ i j, i ∈ waiting.getD j [] ↔ i < n ∧ j ∈ waits i
  nodup : ∀ j, (waiting.getD j []).Nodup

/-- Counting what is not listed after another one was listed. -/
theorem countP_listed {set listed : List Nat} (hset : set.Nodup) {next : Nat}
    (hnext : next ∉ listed) :
    set.countP (· ∉ listed ++ [next]) + (if next ∈ set then 1 else 0) =
      set.countP (· ∉ listed) := by
  induction set with
  | nil => rfl
  | cons k set ih =>
    obtain ⟨hk, hset⟩ := List.nodup_cons.mp hset
    have ih := ih hset
    rw [List.countP_cons, List.countP_cons, ← ih]
    -- Only the component listed next is counted differently.
    by_cases hkn : k = next
    · subst hkn
      simp [hk, hnext]
    · have hlisted : k ∉ listed ++ [next] ↔ k ∉ listed := by simp [hkn]
      have hset : next ∈ k :: set ↔ next ∈ set := by simp [Ne.symm hkn]
      simp only [hlisted, hset]
      omega

/-- What is done by listing a component. -/
structure Lists (waits : Nat → List Nat) (comps : List (List String)) (l : Listing) (next : Nat)
    (l' : Listing) : Prop where
  next_ready : next ∈ l.ready
  least : ∀ k ∈ l.ready, firstName (comps.getD next []) ≤ firstName (comps.getD k [])
  listed : l'.listed = l.listed ++ [next]
  length_pending : l'.pending.length = l.pending.length
  pending : ∀ k < comps.length, l'.pending.getD k 0 =
    if next ∈ waits k then l.pending.getD k 0 - 1 else l.pending.getD k 0
  mem_ready : ∀ k, k ∈ l'.ready ↔ k ∈ l.ready ∧ k ≠ next ∨
    k < comps.length ∧ next ∈ waits k ∧ l.pending.getD k 0 = 1
  ready_nodup : l'.ready.Nodup

theorem exists_lists (htable : Table waits comps.length waiting) (h : Sound waits comps.length l)
    (hne : l.ready ≠ []) : ∃ next, Lists waits comps l next (l.step e comps waiting) := by
  unfold step
  split
  · rename_i hnil
    have hperm := perm_sortReady comps l.ready
    rw [hnil] at hperm
    exact absurd hperm.nil_eq.symm hne
  · rename_i next rest hsorted
    have hperm : (next :: rest).Perm l.ready := hsorted ▸ perm_sortReady comps l.ready
    have hnext : next ∈ l.ready := hperm.mem_iff.mp List.mem_cons_self
    obtain ⟨-, hnot, -⟩ := (h.mem_ready next).mp hnext
    obtain ⟨hnextRest, hrest⟩ := List.nodup_cons.mp (hperm.nodup_iff.mpr h.ready_nodup)
    have hset : ∀ k, k ∈ e.order next (waiting.getD next []) ↔ k < comps.length ∧ next ∈ waits k :=
      fun k => ((e.perm _ _).mem_iff).trans (htable.mem_iff k next)
    have hsetNodup : (e.order next (waiting.getD next [])).Nodup :=
      (e.perm _ _).nodup_iff.mpr (htable.nodup next)
    -- The order does not matter: what follows only asks which components are released, each once.
    generalize e.order next (waiting.getD next []) = set at hset hsetNodup
    obtain ⟨hlength, hpending, hready, hlisted⟩ :=
      foldl_release set { l with ready := rest, listed := l.listed ++ [next] } hsetNodup
        fun k hk => h.length_pending.symm ▸ ((hset k).mp hk).1
    refine ⟨next, hnext, sortReady_head_le hsorted, hlisted, hlength, ?_, ?_, ?_⟩
    · intro k hk
      rw [hpending k]
      simp only [hset k, hk, true_and]
    · intro k
      have hinRest : k ∈ rest ↔ k ∈ l.ready ∧ k ≠ next := by
        rw [← hperm.mem_iff, List.mem_cons]
        constructor
        · exact fun hk => ⟨Or.inr hk, fun heq => hnextRest (heq ▸ hk)⟩
        · exact fun ⟨hk, hkn⟩ => hk.resolve_left hkn
      rw [hready, List.mem_append, List.mem_filter, hset k, beq_iff_eq, hinRest, and_assoc]
    · rw [hready, List.nodup_append]
      refine ⟨hrest, hsetNodup.filter _, ?_⟩
      rintro k hk _ hk' rfl
      have hkReady := (h.mem_ready k).mp (hperm.mem_iff.mp (List.mem_cons_of_mem _ hk))
      exact hnot (hkReady.2.2 next ((hset k).mp (List.mem_of_mem_filter hk')).2)

theorem Sound.lists {next : Nat} {l' : Listing} (hwaits : ∀ i, (waits i).Nodup)
    (h : Sound waits comps.length l) (hl : Lists waits comps l next l') :
    Sound waits comps.length l' := by
  obtain ⟨hnextLt, hnextNot, hnextWaits⟩ := (h.mem_ready next).mp hl.next_ready
  -- The counters of those that wait for the listed one go down, as does what they are to count.
  have hpending : ∀ i < comps.length,
      l'.pending.getD i 0 = ((waits i).countP (· ∉ l'.listed) : Int) := by
    intro i hi
    have hcount := countP_listed (hwaits i) hnextNot
    rw [hl.pending i hi, h.pending i hi, hl.listed, ← hcount]
    split <;> simp
  have hmem : ∀ i, i ∈ l'.listed ↔ i ∈ l.listed ∨ i = next := by simp [hl.listed]
  refine ⟨hl.length_pending.trans h.length_pending, hpending, ?_, hl.ready_nodup, ?_, ?_, ?_⟩
  · intro i
    rw [hl.mem_ready i, h.mem_ready i, hmem i]
    by_cases hwaitsNext : next ∈ waits i
    · -- It was not ready before, and is now if this was the last one that it waited for.
      have hnotListed : i ∉ l.listed := fun hi => hnextNot (h.listed_waits i hi next hwaitsNext)
      have hne : i ≠ next := by
        rintro rfl
        exact hnextNot (hnextWaits _ hwaitsNext)
      have hlast : i < comps.length →
          (l.pending.getD i 0 = 1 ↔ ∀ j ∈ waits i, j ∈ l'.listed) := by
        intro hi
        have hleft := hpending i hi
        rw [hl.pending i hi, if_pos hwaitsNext] at hleft
        have hzero : (waits i).countP (· ∉ l'.listed) = 0 ↔ ∀ j ∈ waits i, j ∈ l'.listed := by
          simp [List.countP_eq_zero]
        rw [← hzero]
        omega
      constructor
      · rintro (⟨⟨-, -, hall⟩, -⟩ | ⟨hlt, -, hone⟩)
        · exact absurd (hall next hwaitsNext) hnextNot
        · exact ⟨hlt, not_or.mpr ⟨hnotListed, hne⟩, (hlast hlt).mp hone⟩
      · rintro ⟨hlt, -, hall⟩
        exact Or.inr ⟨hlt, hwaitsNext, (hlast hlt).mpr hall⟩
    · have hall : (∀ j ∈ waits i, j ∈ l'.listed) ↔ ∀ j ∈ waits i, j ∈ l.listed := by
        refine forall₂_congr fun j hj => ?_
        rw [hmem j, or_iff_left (fun heq : j = next => hwaitsNext (heq ▸ hj))]
      rw [hall]
      tauto
  · rw [hl.listed, List.nodup_append]
    refine ⟨h.listed_nodup, List.nodup_singleton _, ?_⟩
    rintro i hi j hj rfl
    exact hnextNot (List.mem_singleton.mp hj ▸ hi)
  · intro i hi
    rcases (hmem i).mp hi with hi | rfl
    · exact h.listed_lt i hi
    · exact hnextLt
  · intro i hi j hj
    refine (hmem j).mpr (Or.inl ?_)
    rcases (hmem i).mp hi with hi | rfl
    · exact h.listed_waits i hi j hj
    · exact hnextWaits j hj

theorem Chosen.lists {next : Nat} {l' : Listing} (hchosen : Chosen waits comps l.listed)
    (h : Sound waits comps.length l) (hl : Lists waits comps l next l') :
    Chosen waits comps l'.listed := by
  rw [hl.listed]
  intro before i after heq
  rcases List.eq_nil_or_concat after with rfl | ⟨after, last, rfl⟩
  · -- This is the component listed now.
    obtain ⟨rfl, hlast⟩ := List.append_inj' heq rfl
    cases hlast
    refine ⟨((h.mem_ready next).mp hl.next_ready).2.2, ?_⟩
    intro k hk hkNot hkWaits
    exact hl.least k ((h.mem_ready k).mpr ⟨hk, hkNot, hkWaits⟩)
  · refine hchosen before i after ?_
    rw [List.concat_eq_append, ← List.cons_append, ← List.append_assoc] at heq
    exact (List.append_inj' heq rfl).1

theorem sound_run (hwaits : ∀ i, (waits i).Nodup) (htable : Table waits comps.length waiting)
    (h : Sound waits comps.length l) (hchosen : Chosen waits comps l.listed) :
    Sound waits comps.length (l.run e comps waiting) ∧
      Chosen waits comps (l.run e comps waiting).listed ∧ (l.run e comps waiting).ready = [] := by
  fun_induction run e comps waiting l with
  | case1 l hready => exact ⟨h, hchosen, hready⟩
  | case2 l hready ih =>
    obtain ⟨next, hl⟩ := exists_lists htable h hready
    exact ih (h.lists hwaits hl) (hchosen.lists h hl)

end Listing

/-! ## Waiting for others -/

section

variable {e : Enumeration} {comps : List (List String)} {i j : Nat}

theorem nodup_waitsFor (nodes : List Node) (comps : List (List String)) (i : Nat) :
    (waitsFor nodes comps i).Nodup :=
  nodup_eraseDups _

theorem mem_waitsFor_iff {c : List String} (hi : comps[i]? = some c) :
    j ∈ waitsFor nodes comps i ↔ j ≠ i ∧ ∃ f ∈ c, ∃ g, Calls nodes f g ∧ position comps g = j := by
  have hget : comps.getD i [] = c := by simp [List.getD, hi]
  simp only [waitsFor, hget, List.mem_eraseDups, List.mem_filter, List.mem_map, List.mem_flatMap,
    bne_iff_ne, Calls]
  constructor
  · rintro ⟨⟨g, ⟨f, hf, hg⟩, hpos⟩, hne⟩
    exact ⟨hne, f, hf, g, hg, hpos⟩
  · rintro ⟨hne, f, hf, g, hg, hpos⟩
    exact ⟨⟨g, ⟨f, hf, hg⟩, hpos⟩, hne⟩

/-- Entering a component with each of those it waits for. -/
theorem foldl_modify_insert (set : List Nat) (table : List (List Nat)) (i : Nat)
    (hset : ∀ j ∈ set, j < table.length) :
    let entered := set.foldl (fun table j => table.modify j (·.insert i)) table
    entered.length = table.length ∧
      (∀ k j, k ∈ entered.getD j [] ↔ k ∈ table.getD j [] ∨ k = i ∧ j ∈ set) ∧
      ((∀ j, (table.getD j []).Nodup) → ∀ j, (entered.getD j []).Nodup) := by
  induction set generalizing table with
  | nil => simp
  | cons a set ih =>
    have ha : a < table.length := hset a List.mem_cons_self
    obtain ⟨h₁, h₂, h₃⟩ := ih (table.modify a (·.insert i)) fun j hj => by
      rw [List.length_modify]
      exact hset j (List.mem_cons_of_mem _ hj)
    -- Only the entry of the first component changes with the first step.
    have hget : ∀ j, (table.modify a (·.insert i)).getD j [] =
        if j = a then (table.getD j []).insert i else table.getD j [] := by
      intro j
      by_cases hja : j = a
      · subst hja
        simp [ha]
      · rw [if_neg hja]
        simp [List.getD, Ne.symm hja]
    rw [List.foldl_cons]
    refine ⟨h₁.trans (List.length_modify ..), ?_, ?_⟩
    · intro k j
      rw [h₂ k j, hget j]
      by_cases hja : j = a
      · simp [hja]
        tauto
      · simp [hja]
    · intro hnodup
      refine h₃ fun j => ?_
      rw [hget j]
      split
      · exact (hnodup j).insert
      · exact hnodup j

theorem table_dependents (hlt : ∀ i, ∀ j ∈ waitsFor nodes comps i, j < comps.length) :
    Listing.Table (waitsFor nodes comps) comps.length (dependents e nodes comps) := by
  -- After the first `n` components are entered, the table has these under what they wait for.
  have hfold : ∀ n, n ≤ comps.length →
      let table := (List.range n).foldl (fun table i =>
        (e.order i (waitsFor nodes comps i)).foldl (fun table j => table.modify j (·.insert i))
          table) (List.replicate comps.length [])
      table.length = comps.length ∧
        (∀ k j, k ∈ table.getD j [] ↔ k < n ∧ j ∈ waitsFor nodes comps k) ∧
        ∀ j, (table.getD j []).Nodup := by
    intro n
    induction n with
    | zero =>
      have hempty : ∀ j, (List.replicate comps.length ([] : List Nat)).getD j [] = [] := by
        intro j
        rw [List.getD, List.getElem?_replicate]
        split <;> rfl
      intro _
      simp only [List.range_zero, List.foldl_nil, hempty]
      simp
    | succ n ih =>
      intro hn
      obtain ⟨hlength, hmem, hnodup⟩ := ih (Nat.le_of_succ_le hn)
      simp only [List.range_succ, List.foldl_append, List.foldl_cons, List.foldl_nil]
      generalize (List.range n).foldl _ _ = table at hlength hmem hnodup ⊢
      obtain ⟨h₁, h₂, h₃⟩ := foldl_modify_insert (e.order n (waitsFor nodes comps n)) table n
        fun j hj => hlength ▸ hlt n j ((e.perm _ _).mem_iff.mp hj)
      refine ⟨h₁.trans hlength, ?_, h₃ hnodup⟩
      intro k j
      rw [h₂ k j, hmem k j, (e.perm _ _).mem_iff]
      constructor
      · rintro (⟨hk, hj⟩ | ⟨rfl, hj⟩)
        · exact ⟨Nat.lt_succ_of_lt hk, hj⟩
        · exact ⟨Nat.lt_succ_self _, hj⟩
      · rintro ⟨hk, hj⟩
        rcases Nat.lt_succ_iff_lt_or_eq.mp hk with hk | rfl
        · exact Or.inl ⟨hk, hj⟩
        · exact Or.inr ⟨rfl, hj⟩
  obtain ⟨-, hmem, hnodup⟩ := hfold comps.length (Nat.le_refl _)
  exact ⟨hmem, hnodup⟩

theorem sound_start (nodes : List Node) (comps : List (List String)) :
    Listing.Sound (waitsFor nodes comps) comps.length (Listing.start nodes comps) := by
  -- Nothing is listed yet, so every component waits for all that it ever does.
  have hpending : ∀ i < comps.length,
      (Listing.start nodes comps).pending.getD i 0 = ((waitsFor nodes comps i).length : Int) := by
    intro i hi
    simp [Listing.start, List.getD, hi]
  refine ⟨by simp [Listing.start], ?_, ?_, ?_, List.nodup_nil, ?_, ?_⟩
  · intro i hi
    rw [hpending i hi]
    simp [Listing.start]
  · intro i
    have hready : i ∈ (Listing.start nodes comps).ready ↔
        i < comps.length ∧ (Listing.start nodes comps).pending.getD i 0 = 0 := by
      simp [Listing.start]
    rw [hready]
    refine and_congr_right fun hi => ?_
    rw [hpending i hi, Int.natCast_eq_zero, List.length_eq_zero_iff, List.eq_nil_iff_forall_not_mem]
    simp [Listing.start]
  · exact List.nodup_range.filter _
  · exact fun i hi => absurd hi List.not_mem_nil
  · exact fun i hi => absurd hi List.not_mem_nil

end

/-! ## The next component -/

section

variable {e : Enumeration} {comps : List (List String)}

theorem firstName_mem_of_mem_components (hwf : WellFormed nodes) {c : List String}
    (hc : c ∈ components nodes) : firstName c ∈ c := by
  obtain ⟨k, hk, rfl⟩ := (mem_components_iff hwf).mp hc
  have hmem := (mem_componentOf_iff hwf hk).mpr (SameComponent.refl k)
  cases hc' : componentOf (reachTable nodes) k with
  | nil =>
    rw [hc'] at hmem
    cases hmem
  | cons f rest => simp [firstName]

theorem firstName_le_of_mem_components (hwf : WellFormed nodes) {c : List String}
    (hc : c ∈ components nodes) {f : String} (hf : f ∈ c) : firstName c ≤ f := by
  have hsorted := (pairwise_of_mem_components hwf hc).1
  cases c with
  | nil => cases hf
  | cons a rest =>
    rcases List.mem_cons.mp hf with rfl | hf
    · exact String.le_refl _
    · exact (List.pairwise_cons.mp hsorted).1 f hf

/-- Among remaining components there is one that calls into no other: one whose functions reach the
fewest functions. -/
theorem exists_calls_no_other (hwf : WellFormed nodes) {remaining : List (List String)}
    (hsub : ∀ c ∈ remaining, c ∈ components nodes) (hne : remaining ≠ []) :
    ∃ c ∈ remaining, ∀ f ∈ c, ∀ g, Calls nodes f g → ∀ d ∈ remaining, d ≠ c → g ∉ d := by
  let weight (c : List String) : Nat := (reach nodes (firstName c)).toFinset.card
  obtain ⟨c₀, hc₀⟩ := List.exists_mem_of_ne_nil remaining hne
  obtain ⟨c, hc, hmin⟩ := Finset.exists_min_image remaining.toFinset weight
    ⟨c₀, List.mem_toFinset.mpr hc₀⟩
  have hc' : c ∈ remaining := List.mem_toFinset.mp hc
  refine ⟨c, hc', ?_⟩
  intro f hf g hcall d hd hdc hg
  have hfirst := firstName_mem_of_mem_components hwf (hsub c hc')
  have hfirst' := firstName_mem_of_mem_components hwf (hsub d hd)
  have hk := known_of_mem_components hwf (hsub c hc') hfirst
  have hk' := known_of_mem_components hwf (hsub d hd) hfirst'
  -- The first function of `c` reaches that of `d`, but not the other way round.
  have hreach : Reaches nodes (firstName c) (firstName d) := by
    have h₁ := ((mem_iff_of_mem_components hwf (hsub c hc') hfirst f).mp hf).1
    have h₂ := ((mem_iff_of_mem_components hwf (hsub d hd) hg (firstName d)).mp hfirst').1
    exact Relation.ReflTransGen.trans h₁ (Relation.ReflTransGen.head hcall h₂)
  have hback : ¬ Reaches nodes (firstName d) (firstName c) := by
    intro hback
    have hmem : firstName d ∈ c :=
      (mem_iff_of_mem_components hwf (hsub c hc') hfirst _).mpr ⟨hreach, hback⟩
    exact hdc (eq_of_mem_components hwf (hsub d hd) (hsub c hc') hfirst' hmem)
  have hlt : weight d < weight c := by
    refine Finset.card_lt_card ⟨?_, ?_⟩
    · intro x hx
      rw [List.mem_toFinset, mem_reach_iff hwf hk'] at hx
      rw [List.mem_toFinset, mem_reach_iff hwf hk]
      exact Relation.ReflTransGen.trans hreach hx
    · intro hsup
      have hmem : firstName c ∈ (reach nodes (firstName d)).toFinset :=
        hsup (List.mem_toFinset.mpr ((mem_reach_iff hwf hk).mpr .refl))
      rw [List.mem_toFinset, mem_reach_iff hwf hk'] at hmem
      exact hback hmem
  exact absurd (hmin d (List.mem_toFinset.mpr hd)) (Nat.not_le.mpr hlt)

/-! ## The order -/

/-- All that a group calls is in the group itself or in one of those before it. -/
def Freed (nodes : List Node) (before : List (List String)) (c : List String) : Prop :=
  ∀ f ∈ c, ∀ g, Calls nodes f g → g ∈ c ∨ ∃ b ∈ before, g ∈ b

/-- Groups each of which is freed by those before it, and has a name before all names of the others
that are freed by them. -/
def LeastFirst (nodes : List Node) (groups : List (List String)) : Prop :=
  ∀ before c after, groups = before ++ c :: after →
    Freed nodes before c ∧ ∀ d ∈ after, Freed nodes before d → ∃ f ∈ c, ∀ g ∈ d, f < g

/-- Components listed in any order, of which every function is in exactly one. -/
theorem nodup_flatten_of_perm (hwf : WellFormed nodes)
    (hcomps : comps.Perm (stronglyConnected nodes)) : comps.flatten.Nodup :=
  hcomps.flatten.nodup_iff.mpr ((perm_flatten_stronglyConnected hwf).nodup_iff.mpr hwf.names_nodup)

theorem exists_position (hwf : WellFormed nodes) (hcomps : comps.Perm (stronglyConnected nodes))
    {f g : String} (hcall : Calls nodes f g) :
    ∃ c, comps[position comps g]? = some c ∧ g ∈ c := by
  have hmem : g ∈ comps.flatten := hcomps.flatten.mem_iff.mpr
    ((perm_flatten_stronglyConnected hwf).mem_iff.mpr (hcall.callee_known hwf))
  obtain ⟨i, c, hi, hg⟩ := exists_getElem?_of_mem_flatten hmem
  rw [position_eq (nodup_flatten_of_perm hwf hcomps) hi hg]
  exact ⟨c, hi, hg⟩

/-- A component is freed by those that it waits for. -/
theorem freed_iff (hwf : WellFormed nodes) (hcomps : comps.Perm (stronglyConnected nodes))
    {i : Nat} {c : List String} (hi : comps[i]? = some c) {listed : List Nat}
    (hlt : ∀ j ∈ listed, j < comps.length) :
    Freed nodes (listed.map fun j => comps.getD j []) c ↔
      ∀ j ∈ waitsFor nodes comps i, j ∈ listed := by
  have hnodup := nodup_flatten_of_perm hwf hcomps
  constructor
  · intro hfreed j hj
    obtain ⟨hne, f, hf, g, hcall, rfl⟩ := (mem_waitsFor_iff hi).mp hj
    rcases hfreed f hf g hcall with hg | ⟨b, hb, hg⟩
    · exact absurd (position_eq hnodup hi hg) hne
    · obtain ⟨k, hk, rfl⟩ := List.mem_map.mp hb
      have hget : comps[k]? = some (comps.getD k []) := by simp [List.getD, hlt k hk]
      rw [position_eq hnodup hget hg]
      exact hk
  · intro hwaits f hf g hcall
    -- The callee is in some component: in this one, or in one it waits for.
    obtain ⟨d, hd, hg⟩ := exists_position hwf hcomps hcall
    by_cases heq : position comps g = i
    · rw [heq, hi] at hd
      cases hd
      exact Or.inl hg
    · have hmem := hwaits _ ((mem_waitsFor_iff hi).mpr ⟨heq, f, hf, g, hcall, rfl⟩)
      refine Or.inr ⟨d, List.mem_map.mpr ⟨_, hmem, ?_⟩, hg⟩
      simp [List.getD, hd]

theorem getElem?_eq_getD {i : Nat} (hi : i < comps.length) :
    comps[i]? = some (comps.getD i []) := by
  simp [List.getD, hi]

theorem mem_components_of_getElem? (hwf : WellFormed nodes)
    (hcomps : comps.Perm (stronglyConnected nodes)) {i : Nat} {c : List String}
    (hi : comps[i]? = some c) : c ∈ components nodes :=
  (mem_stronglyConnected_iff hwf).mp (hcomps.mem_iff.mp (List.mem_of_getElem? hi))

theorem waitsFor_lt (hwf : WellFormed nodes) (hcomps : comps.Perm (stronglyConnected nodes))
    (i : Nat) : ∀ j ∈ waitsFor nodes comps i, j < comps.length := by
  intro j hj
  cases hi : comps[i]? with
  | none => simp [waitsFor, List.getD, hi] at hj
  | some c =>
    obtain ⟨-, f, -, g, hcall, rfl⟩ := (mem_waitsFor_iff hi).mp hj
    obtain ⟨d, hd, -⟩ := exists_position hwf hcomps hcall
    exact (List.getElem?_eq_some_iff.mp hd).1

/-- The listing does not stop early: if components were missing, one of them would call into no
other missing one, and would be ready. -/
theorem mem_listed_of_ready_nil (hwf : WellFormed nodes)
    (hcomps : comps.Perm (stronglyConnected nodes)) {l : Listing}
    (h : Listing.Sound (waitsFor nodes comps) comps.length l) (hready : l.ready = []) :
    ∀ i < comps.length, i ∈ l.listed := by
  by_contra hmissing
  push Not at hmissing
  obtain ⟨i₀, hi₀, hnot₀⟩ := hmissing
  let missing := (List.range comps.length).filter (· ∉ l.listed)
  have hmissing : ∀ i, i ∈ missing ↔ i < comps.length ∧ i ∉ l.listed := by simp [missing]
  have hsub : ∀ c ∈ missing.map fun i => comps.getD i [], c ∈ components nodes := by
    intro c hc
    obtain ⟨i, hi, rfl⟩ := List.mem_map.mp hc
    exact mem_components_of_getElem? hwf hcomps (getElem?_eq_getD ((hmissing i).mp hi).1)
  obtain ⟨c, hc, hnone⟩ := exists_calls_no_other hwf hsub
    (List.ne_nil_of_mem (List.mem_map_of_mem ((hmissing i₀).mpr ⟨hi₀, hnot₀⟩)))
  obtain ⟨i, hi, rfl⟩ := List.mem_map.mp hc
  obtain ⟨hlt, hnot⟩ := (hmissing i).mp hi
  have hget := getElem?_eq_getD hlt
  have hmem : i ∈ l.ready := by
    refine (h.mem_ready i).mpr ⟨hlt, hnot, ?_⟩
    intro j hj
    by_contra hjNot
    obtain ⟨hne, f, hf, g, hcall, rfl⟩ := (mem_waitsFor_iff hget).mp hj
    obtain ⟨d, hd, hg⟩ := exists_position hwf hcomps hcall
    have hmissed : d ∈ missing.map fun i => comps.getD i [] := by
      refine List.mem_map.mpr ⟨_, (hmissing _).mpr ⟨waitsFor_lt hwf hcomps i _ hj, hjNot⟩, ?_⟩
      simp [List.getD, hd]
    refine hnone f hf g hcall d hmissed ?_ hg
    -- It is not the component itself, in which no function is waited for.
    rintro rfl
    exact hne (position_eq (nodup_flatten_of_perm hwf hcomps) hget hg)
  rw [hready] at hmem
  cases hmem

/-- Components are listed in the order in which they are freed. -/
theorem leastFirst_listed (hwf : WellFormed nodes) (hcomps : comps.Perm (stronglyConnected nodes))
    {l : Listing} (h : Listing.Sound (waitsFor nodes comps) comps.length l)
    (hchosen : Listing.Chosen (waitsFor nodes comps) comps l.listed) :
    LeastFirst nodes (l.listed.map fun i => comps.getD i []) := by
  intro before c after hsplit
  obtain ⟨before, rest, hlisted, rfl, hrest⟩ := List.map_eq_append_iff.mp hsplit
  obtain ⟨i, after, rfl, rfl, rfl⟩ := List.map_eq_cons_iff.mp hrest
  have hlt : ∀ j ∈ before ++ i :: after, j < comps.length := hlisted ▸ h.listed_lt
  have hbefore : ∀ j ∈ before, j < comps.length := fun j hj => hlt j (List.mem_append_left _ hj)
  have hi := getElem?_eq_getD (hlt i (by simp))
  obtain ⟨hwaits, hleast⟩ := hchosen before i after hlisted
  refine ⟨(freed_iff hwf hcomps hi hbefore).mpr hwaits, ?_⟩
  intro d hd hfreed
  obtain ⟨k, hk, rfl⟩ := List.mem_map.mp hd
  have hkLt : k < comps.length := hlt k (by simp [hk])
  have hkGet := getElem?_eq_getD hkLt
  obtain ⟨-, hdistinct, hapart⟩ := List.nodup_append.mp (hlisted ▸ h.listed_nodup)
  have hkNot : k ∉ before := fun hb => hapart k hb k (List.mem_cons_of_mem _ hk) rfl
  -- First names of different components differ, so the least one is strictly less.
  have hle := hleast k hkLt hkNot ((freed_iff hwf hcomps hkGet hbefore).mp hfreed)
  have hfirst :=
    firstName_mem_of_mem_components hwf (mem_components_of_getElem? hwf hcomps hi)
  refine ⟨firstName (comps.getD i []), hfirst, ?_⟩
  intro g hg
  have hge :=
    firstName_le_of_mem_components hwf (mem_components_of_getElem? hwf hcomps hkGet) hg
  refine Std.lt_of_le_of_ne (String.le_trans hle hge) ?_
  rintro rfl
  have hik : i = k := index_eq_of_mem (nodup_flatten_of_perm hwf hcomps) hi hkGet hfirst hg
  exact (List.nodup_cons.mp hdistinct).1 (hik ▸ hk)

/-- Every component is listed once, in the order in which they are freed. -/
theorem listComponents_spec (e : Enumeration) (hwf : WellFormed nodes)
    (hcomps : comps.Perm (stronglyConnected nodes)) :
    (listComponents e nodes comps).Perm comps ∧
      LeastFirst nodes (listComponents e nodes comps) := by
  obtain ⟨hsound, hchosen, hready⟩ :=
    Listing.sound_run (e := e) (nodup_waitsFor nodes comps)
      (table_dependents (e := e) (waitsFor_lt hwf hcomps)) (sound_start nodes comps)
      (by simp [Listing.Chosen, Listing.start])
  have heq : listComponents e nodes comps =
      ((Listing.start nodes comps).run e comps (dependents e nodes comps)).listed.map fun i =>
        comps.getD i [] := rfl
  rw [heq]
  generalize (Listing.start nodes comps).run e comps (dependents e nodes comps) = done at *
  refine ⟨?_, leastFirst_listed hwf hcomps hsound hchosen⟩
  -- The list of numbers has no repetition, and nothing is left that could be missing from it.
  have hperm : done.listed.Perm (List.range comps.length) := by
    refine (List.perm_ext_iff_of_nodup hsound.listed_nodup List.nodup_range).mpr fun i => ?_
    rw [List.mem_range]
    exact ⟨hsound.listed_lt i, mem_listed_of_ready_nil hwf hcomps hsound hready i⟩
  have hrange : (List.range comps.length).map (fun i => comps.getD i []) = comps := by
    refine List.ext_getElem (by simp) fun i hi hi' => ?_
    simp [List.getD, hi']
  exact (hperm.map _).trans (.of_eq hrange)

end

end CallGraph
end FaultChain
