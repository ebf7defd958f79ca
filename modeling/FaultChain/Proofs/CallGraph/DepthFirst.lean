import Mathlib.Data.List.Pairwise
import FaultChain.CallGraph.DepthFirst
import FaultChain.Proofs.CallGraph.Components

/-!
# The search for components

The stack of a search falls into layers, one for each function under visit: the function itself, and
above it the functions that were left since and belong to its component. A function is left in one of
two ways. If its low link is its own number, nothing leads out of its layer but to complete
components, so the layer is a component. Otherwise it reaches a layer further down, and its layer
becomes part of that of its caller.

* `CallGraph.Layered`: the layers of a stack.
* `CallGraph.Search.Sound`: the invariant of a search, kept by `Search.step`.
* `CallGraph.isComponent_of_mem_stronglyConnected`, `CallGraph.perm_flatten_stronglyConnected`,
  `CallGraph.stronglyConnected_pairwise`: what a whole search finds.
-/

namespace FaultChain
namespace CallGraph

variable {nodes : List Node}

/-! ## Layers -/

/-- The function is in a complete component, or on the stack with a number that is not below the
low link. -/
def Settled (done : List String) (stack : List (String × Nat)) (low : Nat) (g : String) : Prop :=
  g ∈ done ∨ ∃ n, (g, n) ∈ stack ∧ low ≤ n

theorem Settled.mono {done done' : List String} {stack stack' : List (String × Nat)}
    {low low' : Nat} {g : String} (h : Settled done stack low g) (hdone : done ⊆ done')
    (hstack : stack ⊆ stack') (hlow : low' ≤ low) : Settled done' stack' low' g := by
  rcases h with h | ⟨n, hn, hle⟩
  · exact Or.inl (hdone h)
  · exact Or.inr ⟨n, hstack hn, Nat.le_trans hlow hle⟩

/-- A function under visit, with what is above it on the stack and the callee that is under visit
because of it. -/
structure Layer (nodes : List Node) (done : List String) (child : Option String) (v : Visit)
    (above stack : List (String × Nat)) : Prop where
  calls_left : ∀ g ∈ v.calls, Calls nodes v.name g
  calls_child : ∀ g ∈ child, Calls nodes v.name g
  same : ∀ u ∈ above, SameComponent nodes v.name u.1
  above_settled : ∀ u ∈ above, ∀ g, Calls nodes u.1 g → Settled done stack v.low g
  settled : ∀ g, Calls nodes v.name g → g ∈ v.calls ∨ g ∈ child ∨ Settled done stack v.low g
  low_le : v.low ≤ v.number
  low_reached : ∃ g, (g, v.low) ∈ stack ∧ Reaches nodes v.name g

/-- The layers of a stack, one for each function under visit. -/
inductive Layered (nodes : List Node) (done : List String) :
    Option String → List Visit → List (String × Nat) → Prop where
  | nil {child : Option String} : Layered nodes done child [] []
  | cons {child : Option String} {v : Visit} {outer : List Visit}
      {above below : List (String × Nat)} :
      Layered nodes done (some v.name) outer below →
      Layer nodes done child v above (above ++ (v.name, v.number) :: below) →
      Layered nodes done child (v :: outer) (above ++ (v.name, v.number) :: below)

/-- Completing components settles more. -/
theorem Layered.mono {done done' : List String} {child : Option String} {path : List Visit}
    {stack : List (String × Nat)} (h : Layered nodes done child path stack)
    (hdone : done ⊆ done') : Layered nodes done' child path stack := by
  induction h with
  | nil => exact .nil
  | cons _ hlayer ih =>
    refine .cons ih { hlayer with above_settled := ?_, settled := ?_ }
    · intro u hu g hg
      exact (hlayer.above_settled u hu g hg).mono hdone (List.Subset.refl _) (Nat.le_refl _)
    · intro g hg
      refine (hlayer.settled g hg).imp_right (Or.imp_right ?_)
      exact fun hs => hs.mono hdone (List.Subset.refl _) (Nat.le_refl _)

/-- A callee under visit that turns out to be in a complete component is settled. -/
theorem Layered.settle_child {done : List String} {c : String} {path : List Visit}
    {stack : List (String × Nat)} (h : Layered nodes done (some c) path stack) (hc : c ∈ done) :
    Layered nodes done none path stack := by
  cases h with
  | nil => exact .nil
  | cons hbelow hlayer =>
    refine .cons hbelow { hlayer with calls_child := ?_, settled := ?_ }
    · exact fun g hg => absurd hg (Option.not_mem_none _)
    · intro g hg
      rcases hlayer.settled g hg with hleft | hchild | hs
      · exact Or.inl hleft
      · cases hchild
        exact Or.inr (Or.inr (Or.inl hc))
      · exact Or.inr (Or.inr hs)

/-- The layer of a function that reaches further down becomes part of that of its caller. -/
theorem Layer.join {done : List String} {p v : Visit}
    {above above' lower stack : List (String × Nat)} (h : Layer nodes done none v above stack)
    (hcaller : Layer nodes done (some v.name) p above' lower) (hcalls : v.calls = [])
    (hsame : SameComponent nodes p.name v.name) (hself : (v.name, v.number) ∈ stack)
    (hsub : lower ⊆ stack) :
    Layer nodes done none (p.lower v.low) (above ++ (v.name, v.number) :: above') stack where
  calls_left := hcaller.calls_left
  calls_child := fun _ hg => absurd hg (Option.not_mem_none _)
  same := by
    intro u hu
    rcases List.mem_append.mp hu with hu | hu
    · exact hsame.trans (h.same u hu)
    · rcases List.mem_cons.mp hu with rfl | hu
      · exact hsame
      · exact hcaller.same u hu
  above_settled := by
    intro u hu g hg
    rcases List.mem_append.mp hu with hu | hu
    · exact (h.above_settled u hu g hg).mono (List.Subset.refl _) (List.Subset.refl _)
        (Nat.min_le_right _ _)
    · rcases List.mem_cons.mp hu with rfl | hu
      · -- All calls of the function itself were looked at.
        rcases h.settled g hg with hleft | hchild | hs
        · rw [hcalls] at hleft
          cases hleft
        · cases hchild
        · exact hs.mono (List.Subset.refl _) (List.Subset.refl _) (Nat.min_le_right _ _)
      · exact (hcaller.above_settled u hu g hg).mono (List.Subset.refl _) hsub
          (Nat.min_le_left _ _)
  settled := by
    intro g hg
    rcases hcaller.settled g hg with hleft | hchild | hs
    · exact Or.inl hleft
    · cases hchild
      exact Or.inr (Or.inr (Or.inr ⟨v.number, hself,
        Nat.le_trans (Nat.min_le_right _ _) h.low_le⟩))
    · exact Or.inr (Or.inr (hs.mono (List.Subset.refl _) hsub (Nat.min_le_left _ _)))
  low_le := Nat.le_trans (Nat.min_le_left _ _) hcaller.low_le
  low_reached := by
    rcases Nat.le_total p.low v.low with hle | hle
    · obtain ⟨k, hk, hpk⟩ := hcaller.low_reached
      exact ⟨k, by simpa [Visit.lower, Nat.min_eq_left hle] using hsub hk, hpk⟩
    · obtain ⟨k, hk, hvk⟩ := h.low_reached
      exact ⟨k, by simpa [Visit.lower, Nat.min_eq_right hle] using hk,
        Relation.ReflTransGen.trans hsame.1 hvk⟩

/-- Everything on the stack reaches the innermost function under visit. -/
theorem Layered.reaches {done : List String} {child : Option String} {v : Visit}
    {outer : List Visit} {stack : List (String × Nat)}
    (h : Layered nodes done child (v :: outer) stack) : ∀ a ∈ stack, Reaches nodes a.1 v.name := by
  induction outer generalizing child v stack with
  | nil =>
    cases h with
    | cons hbelow hlayer =>
      cases hbelow
      intro a ha
      rcases List.mem_append.mp ha with ha | ha
      · exact (hlayer.same a ha).2
      · rw [List.mem_singleton.mp ha]
        exact .refl
  | cons p outer ih =>
    cases h with
    | @cons _ _ _ above below hbelow hlayer =>
      intro a ha
      rcases List.mem_append.mp ha with ha | ha
      · exact (hlayer.same a ha).2
      · rcases List.mem_cons.mp ha with rfl | ha
        · exact .refl
        · -- What is further down reaches the caller of the function.
          have hcall : Calls nodes p.name v.name := by
            cases hbelow with
            | cons _ hcaller => exact hcaller.calls_child v.name rfl
          exact Relation.ReflTransGen.tail (ih hbelow a ha) hcall

/-! ## Components -/

/-- A component with its functions in increasing order. -/
structure IsComponent (nodes : List Node) (c : List String) : Prop where
  ne_nil : c ≠ []
  sorted : c.Pairwise (· ≤ ·)
  mem_iff : ∀ f ∈ c, ∀ g, g ∈ c ↔ SameComponent nodes f g

/-- Functions that reach each other, and nothing else but functions that do not lead back, are a
component. -/
theorem isComponent_of_closed {members done : List String} {root : String}
    (hroot : root ∈ members) (hsame : ∀ f ∈ members, SameComponent nodes root f)
    (hclosed : ∀ f ∈ members, ∀ g, Calls nodes f g → g ∈ members ∨ g ∈ done)
    (hdone : ∀ f ∈ done, ∀ g, Calls nodes f g → g ∈ done)
    (hdisjoint : ∀ f ∈ members, f ∉ done) :
    IsComponent nodes (members.mergeSort (· ≤ ·)) := by
  -- A path from a member stays among the members until it enters what is done.
  have hreach : ∀ f ∈ members, ∀ g, Reaches nodes f g → g ∈ members ∨ g ∈ done := by
    intro f hf g hg
    induction hg with
    | refl => exact Or.inl hf
    | tail _ hcall ih =>
      rcases ih with hin | hin
      · exact hclosed _ hin _ hcall
      · exact Or.inr (hdone _ hin _ hcall)
  -- From there it does not come out again.
  have hback : ∀ f ∈ done, ∀ g, Reaches nodes f g → g ∈ done := by
    intro f hf g hg
    induction hg with
    | refl => exact hf
    | tail _ hcall ih => exact hdone _ ih _ hcall
  refine ⟨?_, pairwise_mergeSort_names members, ?_⟩
  · exact List.ne_nil_of_mem (List.mem_mergeSort.mpr hroot)
  · intro f hf g
    rw [List.mem_mergeSort] at hf ⊢
    constructor
    · intro hg
      exact (hsame f hf).symm.trans (hsame g hg)
    · rintro ⟨hfg, hgf⟩
      rcases hreach f hf g hfg with hg | hg
      · exact hg
      · exact absurd (hback g hg f hgf) (hdisjoint f hf)

namespace Search

/-! ## The invariant -/

/-- What holds of a search; `child` is a callee that is about to be visited. -/
structure Sound (nodes : List Node) (child : Option String) (s : Search) : Prop where
  visited_perm : s.visited.Perm (s.stack.map (·.1) ++ s.found.flatten)
  visited_nodup : s.visited.Nodup
  visited_known : ∀ f ∈ s.visited, f ∈ nodes.map (·.name)
  stack_sorted : s.stack.Pairwise fun a b => b.2 < a.2
  stack_lt : ∀ a ∈ s.stack, a.2 < s.visited.length
  layered : Layered nodes s.found.flatten child s.path s.stack
  found_closed : ∀ f ∈ s.found.flatten, ∀ g, Calls nodes f g → g ∈ s.found.flatten
  found_components : ∀ c ∈ s.found, IsComponent nodes c
  found_pairwise : s.found.Pairwise fun c d => ∀ f ∈ c, ∀ g ∈ d, ¬ Reaches nodes f g

namespace Sound

variable {child : Option String} {s : Search} {v : Visit} {outer : List Visit}

theorem start (nodes : List Node) : Sound nodes child {} where
  visited_perm := List.Perm.refl _
  visited_nodup := List.nodup_nil
  visited_known := fun _ h => absurd h List.not_mem_nil
  stack_sorted := List.Pairwise.nil
  stack_lt := fun _ h => absurd h List.not_mem_nil
  layered := .nil
  found_closed := fun _ h => absurd h List.not_mem_nil
  found_components := fun _ h => absurd h List.not_mem_nil
  found_pairwise := List.Pairwise.nil

/-- Only the functions under visit matter to the layers. -/
theorem of_layered (h : Sound nodes child s) {child' : Option String} {path : List Visit}
    (hlayered : Layered nodes s.found.flatten child' path s.stack) :
    Sound nodes child' { s with path := path } :=
  { h with layered := hlayered }

theorem mem_visited_iff (h : Sound nodes child s) {f : String} :
    f ∈ s.visited ↔ (∃ n, (f, n) ∈ s.stack) ∨ f ∈ s.found.flatten := by
  rw [h.visited_perm.mem_iff, List.mem_append]
  simp

theorem names_nodup (h : Sound nodes child s) :
    (s.stack.map (·.1) ++ s.found.flatten).Nodup :=
  h.visited_perm.nodup_iff.mp h.visited_nodup

/-- Entering a new function puts a layer of its own onto the stack. -/
theorem enter {name : String} (h : Sound nodes (some name) s) (hnew : name ∉ s.visited)
    (hknown : name ∈ nodes.map (·.name)) : Sound nodes none (s.enter nodes name) where
  visited_perm := h.visited_perm.cons name
  visited_nodup := List.nodup_cons.mpr ⟨hnew, h.visited_nodup⟩
  visited_known := by
    intro f hf
    rcases List.mem_cons.mp hf with rfl | hf
    · exact hknown
    · exact h.visited_known f hf
  stack_sorted := List.pairwise_cons.mpr ⟨h.stack_lt, h.stack_sorted⟩
  stack_lt := by
    intro a ha
    rcases List.mem_cons.mp ha with rfl | ha
    · exact Nat.lt_succ_self _
    · exact Nat.lt_succ_of_lt (h.stack_lt a ha)
  layered := by
    -- The new layer is bare: no callee was looked at, nothing lies above the function.
    refine Layered.cons h.layered (?_ : Layer nodes _ none _ [] _)
    exact
      { calls_left := fun _ hg => hg
        calls_child := fun _ hg => absurd hg (Option.not_mem_none _)
        same := fun _ hu => absurd hu List.not_mem_nil
        above_settled := fun _ hu => absurd hu List.not_mem_nil
        settled := fun _ hg => Or.inl hg
        low_le := Nat.le_refl _
        low_reached := ⟨name, List.mem_cons_self, .refl⟩ }
  found_closed := h.found_closed
  found_components := h.found_components
  found_pairwise := h.found_pairwise

/-! ## Looking at a call -/

/-- A callee that is settled needs no visit. -/
theorem skip {callee : String} {calls : List String} {low : Nat}
    (h : Sound nodes none s) (hpath : s.path = v :: outer) (hcalls : v.calls = callee :: calls)
    (hlow : low ≤ v.low) (hsettled : Settled s.found.flatten s.stack low callee)
    (hreached : ∃ g, (g, low) ∈ s.stack ∧ Reaches nodes v.name g) :
    Sound nodes none { s with path := { v with calls := calls, low := low } :: outer } := by
  refine h.of_layered ?_
  have hlayered := h.layered
  rw [hpath] at hlayered
  generalize hstack : s.stack = stack at hlayered hsettled hreached ⊢
  cases hlayered with
  | cons hbelow hlayer =>
    refine Layered.cons (v := { v with calls := calls, low := low }) hbelow ?_
    exact
      { calls_left := fun g hg => hlayer.calls_left g (hcalls ▸ List.mem_cons_of_mem _ hg)
        calls_child := hlayer.calls_child
        same := hlayer.same
        above_settled := fun u hu g hg =>
          (hlayer.above_settled u hu g hg).mono (List.Subset.refl _) (List.Subset.refl _) hlow
        settled := by
          intro g hg
          rcases hlayer.settled g hg with hleft | hchild | hs
          · rw [hcalls] at hleft
            -- Of the callees that were left only this one is settled now.
            rcases List.mem_cons.mp hleft with rfl | hleft
            · exact Or.inr (Or.inr hsettled)
            · exact Or.inl hleft
          · exact Or.inr (Or.inl hchild)
          · exact Or.inr (Or.inr (hs.mono (List.Subset.refl _) (List.Subset.refl _) hlow))
        low_le := Nat.le_trans hlow hlayer.low_le
        low_reached := hreached }

/-- A new callee is the child of the function that calls it. -/
theorem descend {callee : String} {calls : List String} (h : Sound nodes none s)
    (hpath : s.path = v :: outer) (hcalls : v.calls = callee :: calls) :
    Sound nodes (some callee) { s with path := { v with calls := calls } :: outer } := by
  refine h.of_layered ?_
  have hlayered := h.layered
  rw [hpath] at hlayered
  generalize s.stack = stack at hlayered
  cases hlayered with
  | cons hbelow hlayer =>
    refine Layered.cons (v := { v with calls := calls }) hbelow ?_
    have hcall : Calls nodes v.name callee := hlayer.calls_left callee (hcalls ▸ List.mem_cons_self)
    refine { hlayer with calls_left := ?_, calls_child := ?_, settled := ?_ }
    · exact fun g hg => hlayer.calls_left g (hcalls ▸ List.mem_cons_of_mem _ hg)
    · intro g hg
      cases hg
      exact hcall
    · intro g hg
      rcases hlayer.settled g hg with hleft | hchild | hs
      · rw [hcalls] at hleft
        rcases List.mem_cons.mp hleft with rfl | hleft
        · exact Or.inr (Or.inl rfl)
        · exact Or.inl hleft
      -- No other child was under way, so there is none to be settled.
      · exact absurd hchild (Option.not_mem_none _)
      · exact Or.inr (Or.inr hs)

/-- The layer of the innermost function under visit. -/
theorem exists_layer (h : Sound nodes child s) (hpath : s.path = v :: outer) :
    ∃ above below, s.stack = above ++ (v.name, v.number) :: below ∧
      Layered nodes s.found.flatten (some v.name) outer below ∧
      Layer nodes s.found.flatten child v above s.stack := by
  have hlayered := h.layered
  rw [hpath] at hlayered
  generalize hstack : s.stack = stack at hlayered
  cases hlayered with
  | cons hbelow hlayer => exact ⟨_, _, rfl, hbelow, hlayer⟩

theorem look {callee : String} {calls : List String} (hwf : WellFormed nodes)
    (h : Sound nodes none s) (hpath : s.path = v :: outer) (hcalls : v.calls = callee :: calls) :
    Sound nodes none (s.look nodes { v with calls := calls } outer callee) := by
  obtain ⟨above, below, -, -, hlayer⟩ := h.exists_layer hpath
  have hcall : Calls nodes v.name callee := hlayer.calls_left callee (hcalls ▸ List.mem_cons_self)
  unfold Search.look
  split
  · rename_i hvisited
    split
    · -- The callee is on the stack, so what its number says is in reach.
      rename_i n hn
      have hmem : (callee, n) ∈ s.stack := by
        obtain ⟨l₁, l₂, hsplit, -⟩ := List.lookup_eq_some_iff.mp hn
        simp [hsplit]
      refine Sound.skip (v := v) h hpath hcalls (Nat.min_le_left _ _) ?_ ?_
      · exact Or.inr ⟨n, hmem, Nat.min_le_right _ _⟩
      · rcases Nat.le_total v.low n with hle | hle
        · rw [Nat.min_eq_left hle]
          exact hlayer.low_reached
        · rw [Nat.min_eq_right hle]
          exact ⟨callee, hmem, .single hcall⟩
    · rename_i hnone
      refine Sound.skip (v := v) h hpath hcalls (Nat.le_refl _) ?_ hlayer.low_reached
      rcases h.mem_visited_iff.mp (by simpa using hvisited) with ⟨n, hn⟩ | hfound
      · have hne := List.lookup_eq_none_iff.mp hnone (callee, n) hn
        simp at hne
      · exact Or.inl hfound
  · rename_i hnew
    have hknown := hcall.callee_known hwf
    split
    · exact (h.descend hpath hcalls).enter (by simpa using hnew) hknown
    · rename_i hnone
      exact absurd hknown (find?_eq_none_iff.mp hnone)

/-! ## Leaving a function -/

/-- The caller of a function that is left without completing a component takes over its layer. -/
theorem merge (h : Sound nodes none s) (hpath : s.path = v :: outer) (hcalls : v.calls = [])
    (hlow : v.low ≠ v.number) :
    Sound nodes none { s with path := outer.modifyHead (·.lower v.low) } := by
  refine h.of_layered ?_
  obtain ⟨above, below, hstack, hbelow, hlayer⟩ := h.exists_layer hpath
  have hlt : v.low < v.number := Nat.lt_of_le_of_ne hlayer.low_le hlow
  obtain ⟨g, hg, hreach⟩ := hlayer.low_reached
  -- A number below that of the function is further down on the stack.
  have hdown : (g, v.low) ∈ below := by
    have hsorted := h.stack_sorted
    rw [hstack, List.pairwise_append, List.pairwise_cons] at hsorted
    rw [hstack] at hg
    rcases List.mem_append.mp hg with hg | hg
    · have := hsorted.2.2 _ hg (v.name, v.number) List.mem_cons_self
      simp only at this
      omega
    · rcases List.mem_cons.mp hg with heq | hg
      · exact absurd (congrArg Prod.snd heq) hlow
      · exact hg
  cases hbelow with
  | nil => cases hdown
  | @cons _ p outer above' below' hbelow' hcaller =>
    have hsame : SameComponent nodes p.name v.name := by
      refine ⟨.single (hcaller.calls_child v.name rfl), Relation.ReflTransGen.trans hreach ?_⟩
      exact (Layered.cons hbelow' hcaller).reaches _ hdown
    have hsplit : s.stack =
        (above ++ (v.name, v.number) :: above') ++ (p.name, p.number) :: below' := by
      rw [hstack, List.append_assoc, List.cons_append]
    have hsub : above' ++ (p.name, p.number) :: below' ⊆ s.stack := by
      rw [hstack]
      exact fun a ha => List.mem_append_right _ (List.mem_cons_of_mem _ ha)
    have hself : (v.name, v.number) ∈ s.stack := by simp [hstack]
    have hjoin := hlayer.join hcaller hcalls hsame hself hsub
    rw [hsplit] at hjoin ⊢
    exact Layered.cons (v := p.lower v.low) hbelow' hjoin

/-- Popping the stack down to a function takes off what is above it, and the function itself. -/
theorem popped {above below : List (String × Nat)} (h : Sound nodes child s)
    (hstack : s.stack = above ++ (v.name, v.number) :: below) :
    s.stack.takeWhile (·.1 != v.name) = above ∧
      (s.stack.dropWhile (·.1 != v.name)).drop 1 = below := by
  have hne : ∀ a ∈ above, (a.1 != v.name) = true := by
    intro a ha
    have hnodup := (List.nodup_append.mp h.names_nodup).1
    rw [hstack, List.map_append, List.nodup_append] at hnodup
    simpa using hnodup.2.2 a.1 (List.mem_map_of_mem ha) v.name (by simp)
  rw [hstack, List.takeWhile_append_of_pos hne, List.dropWhile_append_of_pos hne]
  simp

/-- If the low link of a function is its own number, no call leads from it and what is above it to
anything further down. -/
theorem closed_above (h : Sound nodes none s) (hcalls : v.calls = []) (hlow : v.low = v.number)
    {above below : List (String × Nat)} (hstack : s.stack = above ++ (v.name, v.number) :: below)
    (hlayer : Layer nodes s.found.flatten none v above s.stack) :
    ∀ f ∈ above.map (·.1) ++ [v.name], ∀ g, Calls nodes f g →
      g ∈ above.map (·.1) ++ [v.name] ∨ g ∈ s.found.flatten := by
  have hsorted := h.stack_sorted
  rw [hstack, List.pairwise_append, List.pairwise_cons] at hsorted
  -- Only numbers below that of the function are further down.
  have hup : ∀ g, Settled s.found.flatten s.stack v.low g →
      g ∈ above.map (·.1) ++ [v.name] ∨ g ∈ s.found.flatten := by
    rintro g (hg | ⟨n, hn, hle⟩)
    · exact Or.inr hg
    · rw [hstack] at hn
      rcases List.mem_append.mp hn with hn | hn
      · exact Or.inl (List.mem_append_left _ (List.mem_map_of_mem hn))
      · rcases List.mem_cons.mp hn with heq | hn
        · cases heq
          exact Or.inl (by simp)
        · have := hsorted.2.1.1 _ hn
          simp only at this
          omega
  intro f hf g hg
  rcases List.mem_append.mp hf with hf | hf
  · obtain ⟨u, hu, rfl⟩ := List.mem_map.mp hf
    exact hup g (hlayer.above_settled u hu g hg)
  · rw [List.mem_singleton.mp hf] at hg
    rcases hlayer.settled g hg with hleft | hchild | hs
    · rw [hcalls] at hleft
      cases hleft
    · cases hchild
    · exact hup g hs

/-- What is left above a function that reaches nothing further down is its component. -/
theorem isComponent (h : Sound nodes none s) (hcalls : v.calls = []) (hlow : v.low = v.number)
    {above below : List (String × Nat)} (hstack : s.stack = above ++ (v.name, v.number) :: below)
    (hlayer : Layer nodes s.found.flatten none v above s.stack) :
    IsComponent nodes ((above.map (·.1) ++ [v.name]).mergeSort (· ≤ ·)) := by
  have hsame : ∀ f ∈ above.map (·.1) ++ [v.name], SameComponent nodes v.name f := by
    intro f hf
    rcases List.mem_append.mp hf with hf | hf
    · obtain ⟨u, hu, rfl⟩ := List.mem_map.mp hf
      exact hlayer.same u hu
    · rw [List.mem_singleton.mp hf]
      exact .refl _
  refine isComponent_of_closed (by simp) hsame (h.closed_above hcalls hlow hstack hlayer)
    h.found_closed ?_
  intro f hf hfound
  -- Names on the stack are not found yet.
  refine (List.nodup_append.mp h.names_nodup).2.2 f ?_ f hfound rfl
  rw [hstack, List.map_append, List.map_cons]
  rcases List.mem_append.mp hf with hf | hf
  · exact List.mem_append_left _ hf
  · rw [List.mem_singleton.mp hf]
    exact List.mem_append_right _ List.mem_cons_self

/-- Complete components are left by no path. -/
theorem found_reaches (h : Sound nodes child s) {f g : String} (hf : f ∈ s.found.flatten)
    (hreach : Reaches nodes f g) : g ∈ s.found.flatten := by
  induction hreach with
  | refl => exact hf
  | tail _ hcall ih => exact h.found_closed _ ih _ hcall

/-- A function that reaches nothing further down leaves its caller as it was. -/
theorem leave_eq (h : Sound nodes none s) (hlow : v.low = v.number)
    {above below : List (String × Nat)} (hstack : s.stack = above ++ (v.name, v.number) :: below)
    (hbelow : Layered nodes s.found.flatten (some v.name) outer below) :
    s.leave v outer =
      { s with
        stack := below
        path := outer
        found := s.found ++ [(above.map (·.1) ++ [v.name]).mergeSort (· ≤ ·)] } := by
  have hsorted := h.stack_sorted
  rw [hstack, List.pairwise_append, List.pairwise_cons] at hsorted
  -- The caller has a smaller number already, so it takes over nothing.
  have houter : outer.modifyHead (·.lower v.low) = outer := by
    cases hbelow with
    | nil => rfl
    | @cons _ p _ _ _ _ hcaller =>
      have hnumber := hsorted.2.1.1 (p.name, p.number) (by simp)
      have hle : p.low ≤ v.low := by
        have := hcaller.low_le
        simp only at hnumber
        omega
      simp [Visit.lower, Nat.min_eq_left hle]
  obtain ⟨htake, hdrop⟩ := h.popped hstack
  unfold Search.leave Search.complete
  simp only [hlow, if_true]
  rw [htake, hdrop, ← hlow, houter]

/-- What is taken off the stack is found. -/
theorem perm_complete {above below : List (String × Nat)}
    (hstack : s.stack = above ++ (v.name, v.number) :: below) :
    (s.stack.map (·.1) ++ s.found.flatten).Perm
      (below.map (·.1) ++
        (s.found ++ [(above.map (·.1) ++ [v.name]).mergeSort (· ≤ ·)]).flatten) := by
  generalize hmembers : above.map (·.1) ++ [v.name] = members
  calc s.stack.map (·.1) ++ s.found.flatten
      = members ++ (below.map (·.1) ++ s.found.flatten) := by simp [hstack, ← hmembers]
    _ |>.Perm ((below.map (·.1) ++ s.found.flatten) ++ members) := List.perm_append_comm
    _ |>.Perm ((below.map (·.1) ++ s.found.flatten) ++ members.mergeSort (· ≤ ·)) :=
      (List.mergeSort_perm _ _).symm.append_left _
    _ = below.map (·.1) ++ (s.found ++ [members.mergeSort (· ≤ ·)]).flatten := by simp

/-- A function that is left with its own number as low link completes its component. -/
theorem complete (h : Sound nodes none s) (hpath : s.path = v :: outer) (hcalls : v.calls = [])
    (hlow : v.low = v.number) : Sound nodes none (s.leave v outer) := by
  obtain ⟨above, below, hstack, hbelow, hlayer⟩ := h.exists_layer hpath
  have hcomponent := h.isComponent hcalls hlow hstack hlayer
  have habove := h.closed_above hcalls hlow hstack hlayer
  have hperm := perm_complete hstack
  have hsorted := h.stack_sorted
  rw [hstack, List.pairwise_append, List.pairwise_cons] at hsorted
  rw [h.leave_eq hlow hstack hbelow]
  generalize hmembers : above.map (·.1) ++ [v.name] = members at hcomponent habove hperm ⊢
  have hmem : ∀ f, f ∈ members.mergeSort (· ≤ ·) ↔ f ∈ members := fun f => List.mem_mergeSort
  have hflat : (s.found ++ [members.mergeSort (· ≤ ·)]).flatten =
      s.found.flatten ++ members.mergeSort (· ≤ ·) := by simp
  rw [hflat] at hperm
  -- Stack and components found are disjoint throughout.
  have hdisjoint : ∀ f ∈ members, f ∉ s.found.flatten := by
    intro f hf hfound
    have hnodup := hperm.nodup_iff.mp h.names_nodup
    rw [List.nodup_append] at hnodup
    exact (List.nodup_append.mp hnodup.2.1).2.2 f hfound f ((hmem f).mpr hf) rfl
  refine ⟨?_, h.visited_nodup, h.visited_known, hsorted.2.1.2, ?_, ?_, ?_, ?_, ?_⟩
  · rw [hflat]
    exact h.visited_perm.trans hperm
  · intro a ha
    exact h.stack_lt a (by simp [hstack, ha])
  · rw [hflat]
    refine (hbelow.mono (List.subset_append_left _ _)).settle_child ?_
    exact List.mem_append_right _ ((hmem _).mpr (by simp [← hmembers]))
  · rw [hflat]
    intro f hf g hg
    rcases List.mem_append.mp hf with hf | hf
    · exact List.mem_append_left _ (h.found_closed f hf g hg)
    · rcases habove f ((hmem f).mp hf) g hg with hg | hg
      · exact List.mem_append_right _ ((hmem g).mpr hg)
      · exact List.mem_append_left _ hg
  · intro c hc
    rcases List.mem_append.mp hc with hc | hc
    · exact h.found_components c hc
    · rw [List.mem_singleton.mp hc]
      exact hcomponent
  · rw [List.pairwise_append]
    refine ⟨h.found_pairwise, by simp, ?_⟩
    intro c hc d hd f hf g hg hreach
    rw [List.mem_singleton.mp hd, hmem] at hg
    -- Earlier components lead to earlier ones only, and the new one is none of them.
    exact hdisjoint g hg (h.found_reaches (List.mem_flatten_of_mem hc hf) hreach)

/-- A step keeps the invariant. -/
theorem step (hwf : WellFormed nodes) (h : Sound nodes none s) :
    Sound nodes none (s.step nodes) := by
  unfold Search.step
  split
  · exact h
  · rename_i v outer hpath
    split
    · rename_i hcalls
      by_cases hlow : v.low = v.number
      · exact h.complete hpath hcalls hlow
      · have hleave : s.leave v outer = { s with path := outer.modifyHead (·.lower v.low) } := by
          simp [Search.leave, hlow]
        rw [hleave]
        exact h.merge hpath hcalls hlow
    · rename_i callee calls hcalls
      exact h.look hwf hpath hcalls

/-! ## The whole search -/

theorem run (hwf : WellFormed nodes) (h : Sound nodes none s) :
    Sound nodes none (s.run nodes) ∧ (s.run nodes).path = [] := by
  fun_induction Search.run nodes s with
  | case1 s hpath => exact ⟨h, hpath⟩
  | case2 s _ ih => exact ih (h.step hwf)

theorem visit (hwf : WellFormed nodes) (h : Sound nodes none s) (hpath : s.path = [])
    {name : String} (hknown : name ∈ nodes.map (·.name)) :
    Sound nodes none (s.visit nodes name) ∧ (s.visit nodes name).path = [] := by
  unfold Search.visit
  split
  · exact ⟨h, hpath⟩
  · rename_i hnew
    -- Nothing is under visit, so there is no layer on the stack.
    have hlayered : Layered nodes s.found.flatten (some name) s.path s.stack := by
      have hnone := h.layered
      rw [hpath] at hnone ⊢
      generalize s.stack = stack at hnone ⊢
      cases hnone
      exact .nil
    have hchild : Sound nodes (some name) s := { h with layered := hlayered }
    exact (hchild.enter (by simpa using hnew) hknown).run hwf

end Sound

theorem visited_step (nodes : List Node) (s : Search) : s.visited ⊆ (s.step nodes).visited := by
  unfold step
  split
  · exact List.Subset.refl _
  · split
    · unfold leave
      split <;> exact List.Subset.refl _
    · unfold look
      split
      · split <;> exact List.Subset.refl _
      · split
        · exact List.subset_cons_self _ _
        · exact List.Subset.refl _

theorem visited_run (nodes : List Node) (s : Search) : s.visited ⊆ (s.run nodes).visited := by
  fun_induction run nodes s with
  | case1 s _ => exact List.Subset.refl _
  | case2 s _ ih => exact List.Subset.trans (visited_step nodes s) ih

theorem visited_visit (nodes : List Node) (s : Search) (name : String) :
    name :: s.visited ⊆ (s.visit nodes name).visited := by
  unfold visit
  split
  · rename_i hvisited
    exact List.cons_subset.mpr ⟨by simpa using hvisited, List.Subset.refl _⟩
  · exact visited_run nodes (s.enter nodes name)

/-- Visiting functions one after another leaves none under visit and forgets none. -/
theorem sound_foldl (hwf : WellFormed nodes) (ns : List Node) (hsub : ∀ n ∈ ns, n ∈ nodes)
    {s : Search} (h : Sound nodes none s) (hpath : s.path = []) :
    let s' := ns.foldl (fun s n => s.visit nodes n.name) s
    Sound nodes none s' ∧ s'.path = [] ∧ s.visited ⊆ s'.visited ∧
      ∀ n ∈ ns, n.name ∈ s'.visited := by
  induction ns generalizing s with
  | nil => exact ⟨h, hpath, List.Subset.refl _, fun _ hn => absurd hn List.not_mem_nil⟩
  | cons n ns ih =>
    have hknown : n.name ∈ nodes.map (·.name) := List.mem_map_of_mem (hsub n List.mem_cons_self)
    obtain ⟨hvisit, hleft⟩ := h.visit hwf hpath hknown
    obtain ⟨hsound, hend, hgrown, hall⟩ :=
      ih (fun m hm => hsub m (List.mem_cons_of_mem _ hm)) hvisit hleft
    -- A visit marks the function it starts from and forgets none.
    have hfirst := visited_visit nodes s n.name
    refine ⟨hsound, hend, ?_, ?_⟩
    · exact fun f hf => hgrown (hfirst (List.mem_cons_of_mem _ hf))
    · intro m hm
      rcases List.mem_cons.mp hm with rfl | hm
      · exact hgrown (hfirst List.mem_cons_self)
      · exact hall m hm

end Search

/-! ## All components -/

/-- The search ends with all functions visited and none left on the stack. -/
theorem exists_search (hwf : WellFormed nodes) :
    ∃ s : Search, s.Sound nodes none ∧ s.found = stronglyConnected nodes ∧
      (stronglyConnected nodes).flatten.Perm (nodes.map (·.name)) := by
  obtain ⟨hsound, hpath, -, hall⟩ :=
    Search.sound_foldl hwf nodes (fun _ hn => hn) (Search.Sound.start nodes) rfl
  -- With nobody under visit the layers leave nothing for the stack.
  have hstack : (nodes.foldl (fun s n => s.visit nodes n.name) ({} : Search)).stack = [] := by
    have hlayered := hsound.layered
    rw [hpath] at hlayered
    generalize Search.stack _ = stack at hlayered
    cases hlayered
    rfl
  refine ⟨_, hsound, rfl, ?_⟩
  have hperm := hsound.visited_perm
  rw [hstack] at hperm
  refine hperm.symm.trans ((List.perm_ext_iff_of_nodup hsound.visited_nodup hwf.names_nodup).mpr ?_)
  intro f
  constructor
  · exact hsound.visited_known f
  · intro hf
    obtain ⟨n, hn, rfl⟩ := List.mem_map.mp hf
    exact hall n hn

/-- The components found list every function exactly once. -/
theorem perm_flatten_stronglyConnected (hwf : WellFormed nodes) :
    (stronglyConnected nodes).flatten.Perm (nodes.map (·.name)) := by
  obtain ⟨-, -, -, hperm⟩ := exists_search hwf
  exact hperm

theorem isComponent_of_mem_stronglyConnected (hwf : WellFormed nodes) {c : List String}
    (hc : c ∈ stronglyConnected nodes) : IsComponent nodes c := by
  obtain ⟨s, hs, hfound, -⟩ := exists_search hwf
  exact hs.found_components c (hfound ▸ hc)

/-- A component is completed after all those it reaches. -/
theorem stronglyConnected_pairwise (hwf : WellFormed nodes) :
    (stronglyConnected nodes).Pairwise fun c d => ∀ f ∈ c, ∀ g ∈ d, ¬ Reaches nodes f g := by
  obtain ⟨s, hs, hfound, -⟩ := exists_search hwf
  exact hfound ▸ hs.found_pairwise

/-- The search finds the classes of functions that reach each other. -/
theorem mem_stronglyConnected_iff (hwf : WellFormed nodes) {c : List String} :
    c ∈ stronglyConnected nodes ↔ c ∈ components nodes := by
  have hperm := perm_flatten_stronglyConnected hwf
  have hnodup := (List.nodup_flatten.mp (hperm.nodup_iff.mpr hwf.names_nodup)).1
  have hsound : ∀ {c}, c ∈ stronglyConnected nodes → c ∈ components nodes := by
    intro c hc
    have hcomponent := isComponent_of_mem_stronglyConnected hwf hc
    obtain ⟨f, hf⟩ := List.exists_mem_of_ne_nil c hcomponent.ne_nil
    have hknown := hperm.mem_iff.mp (List.mem_flatten_of_mem hc hf)
    have hclass : componentOf (reachTable nodes) f ∈ components nodes :=
      (mem_components_iff hwf).mpr ⟨f, hknown, rfl⟩
    -- Both list the functions that `f` reaches and is reached by, in increasing order.
    obtain ⟨hsorted, hdistinct⟩ := pairwise_of_mem_components hwf hclass
    have heq : c = componentOf (reachTable nodes) f := by
      refine List.Perm.eq_of_pairwise (fun _ _ _ _ => String.le_antisymm) hcomponent.sorted
        hsorted ?_
      refine (List.perm_ext_iff_of_nodup (hnodup c hc) hdistinct).mpr ?_
      intro g
      rw [hcomponent.mem_iff f hf g, mem_componentOf_iff hwf hknown]
    rw [heq]
    exact hclass
  refine ⟨hsound, ?_⟩
  intro hc
  obtain ⟨f, hknown, rfl⟩ := (mem_components_iff hwf).mp hc
  obtain ⟨d, hd, hf⟩ := List.mem_flatten.mp (hperm.mem_iff.mpr hknown)
  have hself := (mem_componentOf_iff hwf hknown).mpr (SameComponent.refl f)
  rw [eq_of_mem_components hwf hc (hsound hd) hself hf]
  exact hd

end CallGraph
end FaultChain
