import FaultChain.Proofs.Registry.Seeds

/-!
# Chains that errors start

An error that no chain matches starts a chain of its own. Older errors that belong to the chain are
looked up in the buckets of the frames of its trace only, and each of them is tested against the
chain while that is being filled. Neither shows in the result: the chain finds the registered errors
whose frames properly begin its own, as a scan of all errors would, and stays as long as it was
started.

* `Fault.Begins`: the frames of an error begin the longer ones of another.
* `Registry.matches?_start_iff`: the registered errors that belong to a new chain.
* `Registry.pull_front`: what is pulled in if all that belong to the chain are in front.
* `Registry.serveAll_starts_chain`: the main statement.
-/

namespace FaultChain

open Trace (Comparable)

/-! ## Shorter errors -/

/-- The frames of an error begin the longer ones of another error. -/
def Fault.Begins (e e' : Fault) : Prop :=
  e.trace.frames <+: e'.trace.frames ∧ e.trace.frames ≠ e'.trace.frames

instance (e e' : Fault) : Decidable (e.Begins e') :=
  inferInstanceAs (Decidable (_ ∧ _))

theorem Fault.Begins.depth_lt {e e' : Fault} (h : e.Begins e') : e.depth < e'.depth := by
  refine Nat.lt_of_le_of_ne h.1.length_le ?_
  intro hlength
  exact h.2 (h.1.eq_of_length hlength)

namespace Chain

/-- A chain that an error started, once it has found some errors and has not become longer. -/
def startedWith (id : Nat) (e : Fault) (mode : Containment) (found : List Fault) : Chain :=
  { Chain.start id e mode with found := found }

/-- An error that begins the one that started the chain is found, and is no head. -/
theorem add_startedWith {id : Nat} {e e' : Fault} {mode : Containment} {found : List Fault}
    (h : e'.Begins e) :
    (startedWith id e mode found).add e' = startedWith id e mode (found ++ [e']) := by
  have hdepth : (startedWith id e mode found).depth = e.depth := rfl
  rcases add_cases (startedWith id e mode found) e' with ⟨heq, -⟩ | ⟨hlt, -⟩ | ⟨-, hadd⟩
  · have := h.depth_lt
    omega
  · have := h.depth_lt
    omega
  · exact hadd

end Chain

namespace Registry

variable {r : Registry} {e : Fault}

/-! ## What belongs to a new chain -/

/-- An older error that is as long as the new one, or longer, would be in a chain that matches. -/
theorem matches?_start_iff (h : r.ChainsSound) (hnone : ∀ c ∈ r.chains, c.matches? e = false)
    (id : Nat) {e' : Fault} (he' : e' ∈ r.order) :
    (Chain.start id e r.mode).matches? e' = true ↔ e'.Begins e := by
  constructor
  · intro hmatch
    have hcmp : Comparable e'.trace.frames e.trace.frames := Chain.comparable_of_matches hmatch
    by_contra hnot
    -- Whichever of the two begins the other, the frames of `e` begin those of `e'`.
    have hlonger : e.trace.frames <+: e'.trace.frames := by
      rcases hcmp with hle | hge
      · by_cases heq : e'.trace.frames = e.trace.frames
        · exact heq ▸ List.prefix_rfl
        · exact absurd ⟨hle, heq⟩ hnot
      · exact hge
    obtain ⟨c, hc, hfound⟩ := h.covered e' he'
    have hbelow : e'.trace.frames <+: c.trace.frames := (h.sound c hc).found_begins e' hfound
    -- The chain of `e'` is comparable with `e` and does not match it: it has the same frames.
    have hsame : e.trace.frames = c.trace.frames :=
      Chain.frames_eq_of_not_matches (hnone c hc) (Or.inl (hlonger.trans hbelow))
    have heq : e'.trace.frames = e.trace.frames :=
      (hsame ▸ hbelow).eq_of_length_le hlonger.length_le
    -- Only the strict mode does not match equal frames, but `e'` has matched.
    have hmode : r.mode ≠ .strict := fun hstrict => Chain.frames_ne_of_matches hstrict hmatch heq
    have hboth : e.trace.isContainedIn c.mode c.trace = true ∨
        c.trace.isContainedIn c.mode e.trace = true := by
      apply Trace.contained_of_comparable (Or.inl (hsame ▸ List.prefix_rfl))
      intro hstrict
      exact absurd ((h.modes c hc).symm.trans hstrict) hmode
    have hagain : c.matches? e = true := by simpa [Chain.matches?] using hboth
    rw [hnone c hc] at hagain
    cases hagain
  · intro hbegins
    have hcontained : e'.trace.isContainedIn r.mode e.trace = true :=
      Trace.isContainedIn_iff.mpr ⟨hbegins.1, fun _ => hbegins.2⟩
    simp [Chain.matches?, Chain.start, hcontained]

/-! ## Pulling in -/

theorem pull_append (acc : Chain × List String) (xs ys : List Fault) :
    pull acc (xs ++ ys) = pull (pull acc xs) ys :=
  List.foldl_append

/-- Looking into several buckets one after another is looking through all of their errors. -/
theorem foldl_pull (acc : Chain × List String) (frames : List Frame)
    (bucket : Frame → List Fault) :
    frames.foldl (fun acc frame => pull acc (bucket frame)) acc =
      pull acc (frames.flatMap bucket) :=
  List.foldl_flatMap.symm

/-- Errors that were looked at before or do not match leave the chain as it is. -/
theorem pull_nothing {acc : Chain × List String} {candidates : List Fault}
    (h : ∀ e' ∈ candidates, e'.report ∈ acc.2 ∨ acc.1.matches? e' = false) :
    (pull acc candidates).1 = acc.1 := by
  induction candidates generalizing acc with
  | nil => rfl
  | cons e' rest ih =>
    obtain ⟨hfirst, hrest⟩ := List.forall_mem_cons.mp h
    -- Looked at before or not, the candidate is passed over; the reports seen only grow.
    by_cases hseen : e'.report ∈ acc.2
    · have hstep : pull acc (e' :: rest) = pull acc rest := by simp [pull, hseen]
      rw [hstep]
      exact ih hrest
    · have hnot : acc.1.matches? e' = false := hfirst.resolve_left hseen
      have hstep : pull acc (e' :: rest) = pull (acc.1, e'.report :: acc.2) rest := by
        simp [pull, hseen, hnot]
      rw [hstep]
      apply ih
      intro x hx
      exact (hrest x hx).imp_left (List.mem_cons_of_mem _)

/-- Of errors that were not looked at before, a new chain finds those that begin it. -/
theorem pull_unseen {id : Nat} {mode : Containment} {found candidates : List Fault}
    {seen : List String} (hnodup : (candidates.map (·.report)).Nodup)
    (hunseen : ∀ e' ∈ candidates, e'.report ∉ seen)
    (hmatch : ∀ e' ∈ candidates, (Chain.start id e mode).matches? e' = true ↔ e'.Begins e) :
    pull (Chain.startedWith id e mode found, seen) candidates =
      (Chain.startedWith id e mode (found ++ candidates.filter (·.Begins e)),
        (candidates.map (·.report)).reverse ++ seen) := by
  induction candidates generalizing found seen with
  | nil => simp [pull]
  | cons e' rest ih =>
    rw [List.map_cons, List.nodup_cons] at hnodup
    obtain ⟨hfirst, hrest⟩ := List.forall_mem_cons.mp hunseen
    obtain ⟨hmatchFirst, hmatchRest⟩ := List.forall_mem_cons.mp hmatch
    have hsame : (Chain.startedWith id e mode found).matches? e' =
      (Chain.start id e mode).matches? e' := rfl
    -- Reports are distinct, so the candidate just looked at is none of the others.
    have hunseen' : ∀ x ∈ rest, x.report ∉ e'.report :: seen := by
      intro x hx hmem
      rcases List.mem_cons.mp hmem with heq | hmem
      · exact hnodup.1 (heq ▸ List.mem_map_of_mem hx)
      · exact hrest x hx hmem
    by_cases hbegins : e'.Begins e
    · have hstep : pull (Chain.startedWith id e mode found, seen) (e' :: rest) =
          pull (Chain.startedWith id e mode (found ++ [e']), e'.report :: seen) rest := by
        simp [pull, hfirst, hsame, hmatchFirst.mpr hbegins, Chain.add_startedWith hbegins]
      rw [hstep, ih hnodup.2 hunseen' hmatchRest]
      simp [hbegins]
    · have hnot : (Chain.start id e mode).matches? e' = false :=
        Bool.eq_false_iff.mpr fun hm => hbegins (hmatchFirst.mp hm)
      have hstep : pull (Chain.startedWith id e mode found, seen) (e' :: rest) =
          pull (Chain.startedWith id e mode found, e'.report :: seen) rest := by
        simp [pull, hfirst, hsame, hnot]
      rw [hstep, ih hnodup.2 hunseen' hmatchRest]
      simp [hbegins]

/-- If all errors that belong to a new chain are in front of what is looked through, in order of
registration, then the chain finds these. -/
theorem pull_front (hix : r.Indexed) (hnew : r.lookup e.report = none) {id : Nat}
    (hmatch : ∀ e' ∈ r.order, (Chain.start id e r.mode).matches? e' = true ↔ e'.Begins e)
    {front rest : List Fault} (hfront : front.Sublist r.order)
    (hall : ∀ e' ∈ r.order, e'.Begins e → e' ∈ front) (hrest : ∀ e' ∈ rest, e' ∈ r.order ∨ e' = e) :
    (pull (Chain.start id e r.mode, [e.report]) (front ++ rest)).1 =
      Chain.startedWith id e r.mode (e :: front.filter (·.Begins e)) := by
  have hstart : Chain.start id e r.mode = Chain.startedWith id e r.mode [e] := rfl
  have hnodup : (front.map (·.report)).Nodup := hix.reports_nodup.sublist (hfront.map _)
  have hunseen : ∀ e' ∈ front, e'.report ∉ [e.report] := by
    -- What comes behind begins the error and was seen in front, or does not match.
    intro e' he' hmem
    exact (hix.lookup_eq_none_iff _).mp hnew e' (hfront.subset he') (List.mem_singleton.mp hmem)
  have hpull : pull (Chain.startedWith id e r.mode [e], [e.report]) front = _ :=
    pull_unseen hnodup hunseen fun e' he' => hmatch e' (hfront.subset he')
  rw [pull_append, hstart, hpull, pull_nothing]
  · rfl
  · intro e' he'
    rcases hrest e' he' with hold | rfl
    · by_cases hbegins : e'.Begins e
      · have hseen : e'.report ∈ front.map (·.report) := List.mem_map_of_mem (hall e' hold hbegins)
        exact Or.inl (List.mem_append_left _ (List.mem_reverse.mpr hseen))
      · exact Or.inr (Bool.eq_false_iff.mpr fun hm => hbegins ((hmatch e' hold).mp hm))
    · exact Or.inl (by simp)

/-- A scan of all errors finds those that begin the new one. -/
theorem scan_eq (hix : r.Indexed) (hsound : r.ChainsSound) (hnew : r.lookup e.report = none)
    (hnone : ∀ c ∈ r.chains, c.matches? e = false) (id : Nat) :
    (pull (Chain.start id e r.mode, [e.report]) (r.order ++ [e])).1 =
      Chain.startedWith id e r.mode (e :: r.order.filter (·.Begins e)) := by
  refine pull_front hix hnew (fun e' he' => matches?_start_iff hsound hnone id he')
    (List.Sublist.refl _) (fun _ he' _ => he') ?_
  intro e' he'
  exact Or.inr (List.mem_singleton.mp he')

/-- All errors that begin the new one are in the bucket of its first frame. -/
theorem filter_bucket_begins (hix : r.Indexed) :
    (r.order.filter (·.trace.head? = e.trace.head?)).filter (·.Begins e) =
      r.order.filter (·.Begins e) := by
  rw [List.filter_filter]
  apply List.filter_congr
  intro e' he'
  by_cases h : e'.Begins e
  · simp [h, Trace.head?_eq_of_prefix h.1 (hix.frames_ne_nil e' he')]
  · simp [h]

/-- What the buckets of the frames have in them: first the bucket of the first frame, as it was
before the error got there, and behind it only the error and others registered before. -/
theorem exists_candidates (hix : r.Indexed) (hnew : r.lookup e.report = none)
    (hframes : e.trace.frames ≠ []) :
    ∃ rest, e.trace.frames.flatMap (r.index e).byHead.get =
        r.order.filter (·.trace.head? = e.trace.head?) ++ rest ∧
      ∀ e' ∈ rest, e' ∈ r.order ∨ e' = e := by
  have hbucket : ∀ frame, (r.index e).byHead.get frame =
      (r.order ++ [e]).filter (·.trace.head? = some frame) := (hix.index hnew hframes).byHead
  -- The first bucket already ends in the error, which is therefore the first of the rest.
  obtain ⟨first, others, hsplit⟩ := List.exists_cons_of_ne_nil hframes
  have hhead : e.trace.head? = some first := by simp [Trace.head?, hsplit]
  refine ⟨e :: others.flatMap (r.index e).byHead.get, ?_, ?_⟩
  · rw [hsplit, List.flatMap_cons, hbucket first]
    simp [hhead]
  · intro e' he'
    rcases List.mem_cons.mp he' with heq | hother
    · exact Or.inr heq
    · obtain ⟨frame, -, hmem⟩ := List.mem_flatMap.mp hother
      rw [hbucket frame] at hmem
      simpa using (List.mem_filter.mp hmem).1

/-- The search in the buckets of the frames finds the same errors. -/
theorem startChain_eq (hix : r.Indexed) (hsound : r.ChainsSound) (hnew : r.lookup e.report = none)
    (hframes : e.trace.frames ≠ []) (hnone : ∀ c ∈ r.chains, c.matches? e = false) :
    (r.index e).startChain e =
      Chain.startedWith r.chains.length e r.mode (e :: r.order.filter (·.Begins e)) := by
  obtain ⟨rest, hcandidates, hrest⟩ := exists_candidates hix hnew hframes
  -- Errors that begin this one share its first frame, so the first bucket has all of them.
  have hfront : ∀ e' ∈ r.order, e'.Begins e →
      e' ∈ r.order.filter (·.trace.head? = e.trace.head?) := by
    intro e' he' h
    have hmem : e' ∈ r.order.filter (·.Begins e) := List.mem_filter.mpr ⟨he', by simpa using h⟩
    rw [← filter_bucket_begins hix] at hmem
    exact (List.mem_filter.mp hmem).1
  calc (r.index e).startChain e
      = (pull (Chain.start r.chains.length e r.mode, [e.report])
          (e.trace.frames.flatMap (r.index e).byHead.get)).1 := by
        rw [← foldl_pull]
        rfl
    _ = Chain.startedWith r.chains.length e r.mode
          (e :: (r.order.filter (·.trace.head? = e.trace.head?)).filter (·.Begins e)) := by
        rw [hcandidates]
        exact pull_front hix hnew (fun e' he' => matches?_start_iff hsound hnone _ he')
          List.filter_sublist hfront hrest
    _ = Chain.startedWith r.chains.length e r.mode (e :: r.order.filter (·.Begins e)) := by
        rw [filter_bucket_begins hix]

/-- After any requests, a request that registers an error which no chain matches adds one chain. The
chain has the trace of the error, which is its only head. Behind the error it finds the errors
registered before whose frames properly begin those of the error, in the order they were registered,
just as a scan of all registered errors does. -/
theorem serveAll_starts_chain (mode : Containment) (functions : FunctionSet) (qs : List Request)
    (q : Request) (e : Fault) :
    let r := (Registry.empty mode functions).serveAll qs
    (r.serve q).order = r.order ++ [e] → (∀ c ∈ r.chains, c.matches? e = false) →
    ∃ c, (r.serve q).chains = r.chains ++ [c] ∧ c.trace = e.trace ∧ c.heads = [e] ∧
      c.found = e :: r.order.filter (fun e' =>
        e'.trace.frames <+: e.trace.frames ∧ e'.trace.frames ≠ e.trace.frames) ∧
      c = (pull (Chain.start r.chains.length e mode, [e.report]) (r.serve q).order).1 := by
  intro r horder hnone
  have hix : r.Indexed := indexed_serveAll mode functions qs
  have hsound : r.ChainsSound := chainsSound_serveAll mode functions qs
  have hmode : r.mode = mode := mode_serveAll _ qs
  rcases serve_cases r q with ⟨drops, hserve⟩ | ⟨given, new, haccept, hserve⟩
  · -- A request that only counts a dropped error registers none.
    rw [hserve] at horder
    exact absurd (congrArg List.length horder) (by simp)
  · rw [hserve, order_insert] at horder
    obtain rfl : new = e := by simpa using horder
    refine ⟨Chain.startedWith r.chains.length new r.mode (new :: r.order.filter (·.Begins new)), ?_,
      rfl, rfl, rfl, ?_⟩
    · rcases chains_insert_cases r new with ⟨older, c, newer, hold, hm, -⟩ | ⟨-, hchains⟩
      · rw [hnone c (by simp [hold])] at hm
        cases hm
      · rw [hserve, hchains, startChain_eq hix hsound haccept.lookup_eq_none haccept.frames_ne_nil
          hnone]
    · rw [hserve, order_insert, ← hmode]
      exact (scan_eq hix hsound haccept.lookup_eq_none hnone _).symm

/-- An error that leads to that of `f` from `h`. -/
def sideFault : Fault :=
  { leafFault with
    report := "4.macke.err", entry := "h", seed := "1.ptr.err"
    trace := ⟨[⟨"f", "f.c:0"⟩, ⟨"h", "h.c:3"⟩], "h"⟩ }

theorem serveAll_starts_chain_side :
    let r := (Registry.empty .strict ⟨[]⟩).serveAll [.register leafFault, .register callerFault]
    let e := inherit leafFault sideFault
    (r.serve (.register sideFault)).order = r.order ++ [e] ∧
      (∀ c ∈ r.chains, c.matches? e = false) ∧
      ∃ c, (r.serve (.register sideFault)).chains = r.chains ++ [c] ∧ c.trace = e.trace ∧
        c.heads = [e] ∧ c.found = [e, leafFault] := by
  intro r e
  have horder : (r.serve (.register sideFault)).order = r.order ++ [e] := by decide +kernel
  have hnone : ∀ c ∈ r.chains, c.matches? e = false := by decide +kernel
  obtain ⟨c, hchains, htrace, hheads, hfound, -⟩ := serveAll_starts_chain .strict ⟨[]⟩
    [.register leafFault, .register callerFault] (.register sideFault) e horder hnone
  exact ⟨horder, hnone, c, hchains, htrace, hheads, hfound.trans (by decide +kernel)⟩

end Registry
end FaultChain
