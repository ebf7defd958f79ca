import FaultChain.Proofs.Registry.Requests
import FaultChain.Proofs.Trace

/-!
# Chains of a registry

Every chain keeps its errors below its trace: their frames begin those of the trace, and the heads
are exactly the errors that reach its full depth.

* `Chain.Sound`: the invariant of one chain, kept by `Chain.add` and by pulling in older errors.
* `Registry.ChainsSound`: the invariant of all chains of a registry.
* `Registry.chainsSound_serveAll`: it holds after every sequence of requests.
* `Registry.serveAll_chains_sound`: the same in full, and no request shortens a trace.
-/

namespace FaultChain

open Trace (Comparable)

/-! ## One chain -/

namespace Chain

/-- What holds of a chain of registered errors. -/
structure Sound (registered : List Fault) (c : Chain) : Prop where
  reports_nodup : (c.found.map (·.report)).Nodup
  found_subset : ∀ e ∈ c.found, e ∈ registered
  found_begins : ∀ e ∈ c.found, e.trace.frames <+: c.trace.frames
  /-- The trace is that of an error found. -/
  trace_found : ∃ e ∈ c.found, e.trace = c.trace
  heads_eq : c.heads = c.found.filter fun e => e.depth = c.depth

theorem comparable_of_matches {c : Chain} {e : Fault} (h : c.matches? e = true) :
    Comparable e.trace.frames c.trace.frames := by
  have hboth : e.trace.isContainedIn c.mode c.trace = true ∨
      c.trace.isContainedIn c.mode e.trace = true := by
    simpa [matches?] using h
  exact Trace.comparable_of_contained hboth

/-- Equal frames do not match in the strict mode. -/
theorem frames_ne_of_matches {c : Chain} {e : Fault} (hmode : c.mode = .strict)
    (h : c.matches? e = true) : e.trace.frames ≠ c.trace.frames := by
  have hboth : e.trace.isContainedIn c.mode c.trace = true ∨
      c.trace.isContainedIn c.mode e.trace = true := by
    simpa [matches?] using h
  rcases hboth with h | h
  · exact (Trace.isContainedIn_iff.mp h).2 hmode
  · exact ((Trace.isContainedIn_iff.mp h).2 hmode).symm

/-- Comparable frames that do not match are equal. -/
theorem frames_eq_of_not_matches {c : Chain} {e : Fault} (h : c.matches? e = false)
    (hcmp : Comparable e.trace.frames c.trace.frames) : e.trace.frames = c.trace.frames := by
  by_contra hne
  have hmatch : c.matches? e = true := by
    have hboth : e.trace.isContainedIn c.mode c.trace = true ∨
        c.trace.isContainedIn c.mode e.trace = true :=
      Trace.contained_of_comparable hcmp fun _ => hne
    simpa [matches?] using hboth
  rw [h] at hmatch
  cases hmatch

/-- An error joins the heads, replaces them, or is only found. -/
theorem add_cases (c : Chain) (e : Fault) :
    (e.depth = c.depth ∧
        c.add e = { c with found := c.found ++ [e], heads := c.heads ++ [e] }) ∨
      (c.depth < e.depth ∧
        c.add e = { c with found := c.found ++ [e], trace := e.trace, heads := [e] }) ∨
      (e.depth < c.depth ∧ c.add e = { c with found := c.found ++ [e] }) := by
  unfold add
  split
  · rename_i heq
    exact Or.inl ⟨heq, rfl⟩
  · rename_i hne
    split
    · rename_i hlt
      exact Or.inr (Or.inl ⟨hlt, rfl⟩)
    · exact Or.inr (Or.inr ⟨by omega, rfl⟩)

@[simp] theorem found_add (c : Chain) (e : Fault) : (c.add e).found = c.found ++ [e] := by
  rcases add_cases c e with ⟨-, h⟩ | ⟨-, h⟩ | ⟨-, h⟩ <;> rw [h]

@[simp] theorem id_add (c : Chain) (e : Fault) : (c.add e).id = c.id := by
  rcases add_cases c e with ⟨-, h⟩ | ⟨-, h⟩ | ⟨-, h⟩ <;> rw [h]

@[simp] theorem mode_add (c : Chain) (e : Fault) : (c.add e).mode = c.mode := by
  rcases add_cases c e with ⟨-, h⟩ | ⟨-, h⟩ | ⟨-, h⟩ <;> rw [h]

/-- The longer one of two comparable traces takes over. -/
theorem trace_add {c : Chain} {e : Fault} (hcmp : Comparable e.trace.frames c.trace.frames) :
    (e.trace.frames <+: c.trace.frames ∧ (c.add e).trace = c.trace) ∨
      (c.trace.frames <+: e.trace.frames ∧ c.depth < e.depth ∧ (c.add e).trace = e.trace) := by
  -- Of two comparable traces the shorter one is the prefix.
  have hshort : e.depth ≤ c.depth → e.trace.frames <+: c.trace.frames := by
    intro hle
    rcases hcmp with h | h
    · exact h
    · have heq := h.eq_of_length (Nat.le_antisymm h.length_le hle)
      exact heq ▸ List.prefix_rfl
  rcases add_cases c e with ⟨heq, h⟩ | ⟨hlt, h⟩ | ⟨hlt, h⟩
  · exact Or.inl ⟨hshort (Nat.le_of_eq heq), by rw [h]⟩
  · have hlong : c.trace.frames <+: e.trace.frames := by
      rcases hcmp with h | h
      · exact absurd h.length_le (Nat.not_le.mpr hlt)
      · exact h
    exact Or.inr ⟨hlong, hlt, by rw [h]⟩
  · exact Or.inl ⟨hshort (Nat.le_of_lt hlt), by rw [h]⟩

theorem prefix_trace_add {c : Chain} {e : Fault}
    (hcmp : Comparable e.trace.frames c.trace.frames) :
    c.trace.frames <+: (c.add e).trace.frames := by
  rcases trace_add hcmp with ⟨-, heq⟩ | ⟨hpre, -, heq⟩
  · exact heq ▸ List.prefix_rfl
  · exact heq ▸ hpre

namespace Sound

variable {registered : List Fault} {c : Chain} {e : Fault}

theorem depth_le (h : c.Sound registered) {e : Fault} (he : e ∈ c.found) : e.depth ≤ c.depth :=
  (h.found_begins e he).length_le

theorem mono (h : c.Sound registered) {more : List Fault}
    (hsub : ∀ e ∈ registered, e ∈ more) : c.Sound more where
  reports_nodup := h.reports_nodup
  found_subset := fun e he => hsub e (h.found_subset e he)
  found_begins := h.found_begins
  trace_found := h.trace_found
  heads_eq := h.heads_eq

theorem start (id : Nat) (mode : Containment) (he : e ∈ registered) :
    (Chain.start id e mode).Sound registered where
  reports_nodup := by simp [Chain.start]
  found_subset := by
    intro e' he'
    rw [List.mem_singleton.mp he']
    exact he
  found_begins := by
    intro e' he'
    rw [List.mem_singleton.mp he']
    exact List.prefix_rfl
  trace_found := ⟨e, List.mem_singleton_self e, rfl⟩
  heads_eq := by simp [Chain.start, Chain.depth, Fault.depth]

/-- Heads after an error is added: it joins them, replaces them, or leaves them. -/
theorem heads_add (h : c.Sound registered) (e : Fault) :
    (c.add e).heads = (c.add e).found.filter fun e' => e'.depth = (c.add e).depth := by
  rcases add_cases c e with ⟨heq, hadd⟩ | ⟨hlt, hadd⟩ | ⟨hlt, hadd⟩
  · have hdepth : (c.add e).depth = c.depth := by rw [hadd]; rfl
    rw [hdepth, hadd]
    simp [List.filter_append, h.heads_eq, heq]
  · have hdepth : (c.add e).depth = e.depth := by rw [hadd]; rfl
    -- Everything found before is shorter than the new trace.
    have hnone : c.found.filter (fun e' => e'.depth = e.depth) = [] := by
      rw [List.filter_eq_nil_iff]
      intro e' he'
      have hle := h.depth_le he'
      have hne : e'.depth ≠ e.depth := by omega
      simpa using hne
    rw [hdepth, hadd]
    simp [List.filter_append, hnone]
  · have hdepth : (c.add e).depth = c.depth := by rw [hadd]; rfl
    have hne : e.depth ≠ c.depth := by omega
    rw [hdepth, hadd]
    simp [List.filter_append, h.heads_eq, hne]

/-- A matching error that is not found yet can be added. -/
theorem add (h : c.Sound registered) (he : e ∈ registered)
    (hnew : e.report ∉ c.found.map (·.report))
    (hcmp : Comparable e.trace.frames c.trace.frames) : (c.add e).Sound registered where
  reports_nodup := by
    rw [found_add, List.map_append, List.nodup_append]
    refine ⟨h.reports_nodup, by simp, ?_⟩
    intro x hx y hy hxy
    have hy' : y = e.report := by simpa using hy
    rw [hxy, hy'] at hx
    exact hnew hx
  found_subset := by
    intro e' he'
    rw [found_add] at he'
    rcases List.mem_append.mp he' with hold | hlast
    · exact h.found_subset e' hold
    · rw [List.mem_singleton.mp hlast]
      exact he
  found_begins := by
    intro e' he'
    rw [found_add] at he'
    rcases List.mem_append.mp he' with hold | hlast
    · exact (h.found_begins e' hold).trans (prefix_trace_add hcmp)
    · rw [List.mem_singleton.mp hlast]
      -- The new error begins the trace, or it has become the trace.
      rcases trace_add hcmp with ⟨hpre, heq⟩ | ⟨-, -, heq⟩
      · exact heq ▸ hpre
      · exact heq ▸ List.prefix_rfl
  trace_found := by
    rcases trace_add hcmp with ⟨-, heq⟩ | ⟨-, -, heq⟩
    · obtain ⟨e', he', htrace⟩ := h.trace_found
      exact ⟨e', by simp [he'], htrace.trans heq.symm⟩
    · exact ⟨e, by simp, heq.symm⟩
  heads_eq := h.heads_add e

theorem heads_ne_nil (h : c.Sound registered) : c.heads ≠ [] := by
  obtain ⟨e, he, htrace⟩ := h.trace_found
  have hmem : e ∈ c.heads := by
    rw [h.heads_eq]
    refine List.mem_filter.mpr ⟨he, ?_⟩
    simp [Fault.depth, Chain.depth, htrace]
  exact List.ne_nil_of_mem hmem

theorem frames_of_mem_heads (h : c.Sound registered) (he : e ∈ c.heads) :
    e.trace.frames = c.trace.frames := by
  rw [h.heads_eq] at he
  have hmem := (List.mem_filter.mp he).1
  have hdepth : e.depth = c.depth := by simpa using (List.mem_filter.mp he).2
  exact (h.found_begins e hmem).eq_of_length hdepth

theorem found_ne_nil (h : c.Sound registered) : c.found ≠ [] := by
  obtain ⟨e, he, -⟩ := h.trace_found
  exact List.ne_nil_of_mem he

end Sound
end Chain

namespace Registry

/-! ## Pulling in older errors -/

/-- A chain under construction is sound and has been told which reports it found. -/
structure Pulling (registered : List Fault) (acc : Chain × List String) : Prop where
  sound : acc.1.Sound registered
  found_seen : ∀ e ∈ acc.1.found, e.report ∈ acc.2

theorem Pulling.pull {registered : List Fault} {acc : Chain × List String}
    (h : Pulling registered acc) {candidates : List Fault}
    (hsub : ∀ e ∈ candidates, e ∈ registered) :
    Pulling registered (Registry.pull acc candidates) ∧
      (Registry.pull acc candidates).1.id = acc.1.id ∧
      (Registry.pull acc candidates).1.mode = acc.1.mode ∧
      (∀ e ∈ acc.1.found, e ∈ (Registry.pull acc candidates).1.found) := by
  unfold Registry.pull
  induction candidates generalizing acc with
  | nil => exact ⟨h, rfl, rfl, fun _ he => he⟩
  | cons e candidates ih =>
    have hrest : ∀ e' ∈ candidates, e' ∈ registered :=
      fun e' he' => hsub e' (List.mem_cons_of_mem _ he')
    rw [List.foldl_cons]
    -- Three kinds of candidates: looked at before, taken in, and looked at without a match.
    by_cases hseen : acc.2.contains e.report = true
    · simp only [hseen, if_true]
      exact ih h hrest
    · simp only [hseen, Bool.false_eq_true, if_false]
      have hunseen : e.report ∉ acc.2 := by simpa using hseen
      by_cases hm : acc.1.matches? e = true
      · simp only [hm, if_true]
        have hnew : e.report ∉ acc.1.found.map (·.report) := by
          intro hmem
          obtain ⟨e', he', hrep⟩ := List.mem_map.mp hmem
          exact hunseen (hrep ▸ h.found_seen e' he')
        have hstep : Pulling registered (acc.1.add e, e.report :: acc.2) := by
          refine ⟨h.sound.add (hsub e (by simp)) hnew (Chain.comparable_of_matches hm), ?_⟩
          intro e' he'
          rcases List.mem_append.mp (Chain.found_add acc.1 e ▸ he') with hold | hlast
          · exact List.mem_cons_of_mem _ (h.found_seen e' hold)
          · rw [List.mem_singleton.mp hlast]
            exact List.mem_cons_self
        obtain ⟨hpull, hid, hmode, hfound⟩ := ih hstep hrest
        refine ⟨hpull, hid.trans (Chain.id_add _ _), hmode.trans (Chain.mode_add _ _), ?_⟩
        intro e' he'
        exact hfound e' (by simp [he'])
      · simp only [hm, Bool.false_eq_true, if_false]
        have hstep : Pulling registered (acc.1, e.report :: acc.2) :=
          ⟨h.sound, fun e' he' => List.mem_cons_of_mem _ (h.found_seen e' he')⟩
        exact ih hstep hrest

/-- The chain that an error starts is sound and holds the error. -/
theorem startChain_spec {r : Registry} {registered : List Fault} {e : Fault}
    (he : e ∈ registered) (hhead : ∀ frame, ∀ e' ∈ r.byHead.get frame, e' ∈ registered) :
    (r.startChain e).Sound registered ∧ (r.startChain e).id = r.chains.length ∧
      (r.startChain e).mode = r.mode ∧ e ∈ (r.startChain e).found := by
  -- Over the buckets of the frames, with the chain that has only the error to begin with.
  suffices h : ∀ (frames : List Frame) (acc : Chain × List String), Pulling registered acc →
      let done := frames.foldl (fun acc frame => pull acc (r.byHead.get frame)) acc
      Pulling registered done ∧ done.1.id = acc.1.id ∧ done.1.mode = acc.1.mode ∧
        ∀ e ∈ acc.1.found, e ∈ done.1.found by
    have hstart : Pulling registered (Chain.start r.chains.length e r.mode, [e.report]) := by
      refine ⟨Chain.Sound.start _ _ he, ?_⟩
      intro e' he'
      rw [List.mem_singleton.mp he']
      exact List.mem_singleton_self _
    obtain ⟨hdone, hid, hmode, hfound⟩ := h e.trace.frames _ hstart
    exact ⟨hdone.sound, hid, hmode, hfound e (List.mem_singleton_self e)⟩
  intro frames
  induction frames with
  | nil => exact fun acc hacc => ⟨hacc, rfl, rfl, fun _ h => h⟩
  | cons frame frames ih =>
    intro acc hacc
    obtain ⟨hstep, hid, hmode, hfound⟩ := hacc.pull (hhead frame)
    obtain ⟨hdone, hid', hmode', hfound'⟩ := ih _ hstep
    exact ⟨hdone, hid'.trans hid, hmode'.trans hmode, fun e' he' => hfound' e' (hfound e' he')⟩

/-! ## Merging -/

theorem addToFirst_eq_none_iff {e : Fault} {cs : List Chain} :
    addToFirst e cs = none ↔ ∀ c ∈ cs, c.matches? e = false := by
  induction cs with
  | nil => simp [addToFirst]
  | cons c cs ih =>
    cases hm : c.matches? e with
    | true => simp [addToFirst, hm]
    | false => simp [addToFirst, hm, ih]

/-- An error is added to the oldest chain that matches. -/
theorem addToFirst_eq_some {e : Fault} {cs cs' : List Chain} (h : addToFirst e cs = some cs') :
    ∃ older c newer, cs = older ++ c :: newer ∧ c.matches? e = true ∧
      cs' = older ++ c.add e :: newer := by
  -- The chains passed over come in front, whether the tail was changed or not.
  induction cs generalizing cs' with
  | nil => simp [addToFirst] at h
  | cons c cs ih =>
    cases hm : c.matches? e with
    | true =>
      have heq : c.add e :: cs = cs' := by simpa [addToFirst, hm] using h
      exact ⟨[], c, cs, rfl, hm, heq.symm⟩
    | false =>
      obtain ⟨rest, hrest, rfl⟩ : ∃ rest, addToFirst e cs = some rest ∧ c :: rest = cs' := by
        simpa [addToFirst, hm] using h
      obtain ⟨older, c', newer, rfl, hm', rfl⟩ := ih hrest
      exact ⟨c :: older, c', newer, rfl, hm', rfl⟩

/-- What inserting an error does to the chains: the oldest matching one takes it in, or it starts
a chain of its own. -/
theorem chains_insert_cases (r : Registry) (e : Fault) :
    (∃ older c newer, r.chains = older ++ c :: newer ∧ c.matches? e = true ∧
        (r.insert e).chains = older ++ c.add e :: newer) ∨
      ((∀ c ∈ r.chains, c.matches? e = false) ∧
        (r.insert e).chains = r.chains ++ [(r.index e).startChain e]) := by
  have hmerged : (r.insert e).chains = (r.index e).mergedChains e := rfl
  have hsame : (r.index e).chains = r.chains := rfl
  unfold mergedChains at hmerged
  rw [hsame] at hmerged
  cases h : addToFirst e r.chains with
  | some chains =>
    rw [h] at hmerged
    obtain ⟨older, c, newer, hold, hm, hnew⟩ := addToFirst_eq_some h
    exact Or.inl ⟨older, c, newer, hold, hm, hmerged.trans hnew⟩
  | none =>
    rw [h] at hmerged
    exact Or.inr ⟨addToFirst_eq_none_iff.mp h, hmerged⟩

/-! ## All chains -/

/-- What holds of the chains of a registry. -/
structure ChainsSound (r : Registry) : Prop where
  sound : ∀ c ∈ r.chains, c.Sound r.order
  covered : ∀ e ∈ r.order, ∃ c ∈ r.chains, e ∈ c.found
  ids : r.chains.map (·.id) = List.range r.chains.length
  modes : ∀ c ∈ r.chains, c.mode = r.mode

/-- A new error is in no chain yet. -/
theorem ChainsSound.report_not_found {r : Registry} (h : r.ChainsSound) (hix : r.Indexed)
    {e : Fault} (hnew : r.lookup e.report = none) {c : Chain} (hc : c ∈ r.chains) :
    e.report ∉ c.found.map (·.report) := by
  intro hmem
  obtain ⟨e', he', hrep⟩ := List.mem_map.mp hmem
  exact (hix.lookup_eq_none_iff e.report).mp hnew e' ((h.sound c hc).found_subset e' he') hrep

theorem subset_order_insert {r : Registry} {e : Fault} :
    ∀ e' ∈ r.order, e' ∈ (r.insert e).order := by
  intro e' he'
  rw [order_insert]
  exact List.mem_append_left _ he'

theorem mem_order_insert_self (r : Registry) (e : Fault) : e ∈ (r.insert e).order := by
  simp [order_insert]

/-- The chains stay sound when one of them takes in a new error. -/
theorem ChainsSound.insert_of_matches {r : Registry} (h : r.ChainsSound) (hix : r.Indexed)
    {e : Fault} (hnew : r.lookup e.report = none) {older newer : List Chain} {c : Chain}
    (hold : r.chains = older ++ c :: newer) (hm : c.matches? e = true)
    (hchains : (r.insert e).chains = older ++ c.add e :: newer) : (r.insert e).ChainsSound := by
  have hc : c ∈ r.chains := by simp [hold]
  have hadd : (c.add e).Sound (r.insert e).order :=
    ((h.sound c hc).mono subset_order_insert).add (mem_order_insert_self r e)
      (h.report_not_found hix hnew hc) (Chain.comparable_of_matches hm)
  -- Every other chain stays as it was.
  have hmem : ∀ d ∈ (r.insert e).chains, d = c.add e ∨ d ∈ r.chains := by
    intro d hd
    rw [hchains] at hd
    rw [hold]
    rcases List.mem_append.mp hd with hd | hd
    · exact Or.inr (List.mem_append_left _ hd)
    · rcases List.mem_cons.mp hd with rfl | hd
      · exact Or.inl rfl
      · exact Or.inr (List.mem_append_right _ (List.mem_cons_of_mem _ hd))
  have hkept : ∀ d ∈ r.chains, d = c ∨ d ∈ (r.insert e).chains := by
    intro d hd
    rw [hold] at hd
    rw [hchains]
    rcases List.mem_append.mp hd with hd | hd
    · exact Or.inr (List.mem_append_left _ hd)
    · rcases List.mem_cons.mp hd with rfl | hd
      · exact Or.inl rfl
      · exact Or.inr (List.mem_append_right _ (List.mem_cons_of_mem _ hd))
  have hadded : c.add e ∈ (r.insert e).chains := by simp [hchains]
  refine { sound := ?_, covered := ?_, ids := ?_, modes := ?_ }
  · intro d hd
    rcases hmem d hd with rfl | hd
    · exact hadd
    · exact (h.sound d hd).mono subset_order_insert
  · intro e' he'
    rw [order_insert] at he'
    rcases List.mem_append.mp he' with hprev | hlast
    · obtain ⟨d, hd, hfound⟩ := h.covered e' hprev
      rcases hkept d hd with rfl | hd
      · exact ⟨d.add e, hadded, by simp [hfound]⟩
      · exact ⟨d, hd, hfound⟩
    · rw [List.mem_singleton.mp hlast]
      exact ⟨c.add e, hadded, by simp⟩
  · have hids := h.ids
    rw [hold] at hids
    rw [hchains]
    simpa using hids
  · intro d hd
    rcases hmem d hd with rfl | hd
    · rw [Chain.mode_add]
      exact h.modes c hc
    · exact h.modes d hd

/-- The chains stay sound when a new error starts one. -/
theorem ChainsSound.insert_of_started {r : Registry} (h : r.ChainsSound) (hix : r.Indexed)
    {e : Fault} (hnew : r.lookup e.report = none) (hframes : e.trace.frames ≠ [])
    (hchains : (r.insert e).chains = r.chains ++ [(r.index e).startChain e]) :
    (r.insert e).ChainsSound := by
  -- All candidates are registered, now that the error itself is in the index.
  have hhead : ∀ frame, ∀ e' ∈ (r.index e).byHead.get frame, e' ∈ (r.insert e).order := by
    intro frame e' he'
    exact ((hix.index hnew hframes).mem_get_byHead.mp he').1
  obtain ⟨hsound, hid, hmode, hfound⟩ :=
    startChain_spec (r := r.index e) (mem_order_insert_self r e) hhead
  have hmem : ∀ d ∈ (r.insert e).chains, d ∈ r.chains ∨ d = (r.index e).startChain e := by
    intro d hd
    rw [hchains] at hd
    simpa using hd
  refine { sound := ?_, covered := ?_, ids := ?_, modes := ?_ }
  · intro d hd
    rcases hmem d hd with hd | rfl
    · exact (h.sound d hd).mono subset_order_insert
    · exact hsound
  · intro e' he'
    rw [order_insert] at he'
    rcases List.mem_append.mp he' with hprev | hlast
    · obtain ⟨d, hd, hd'⟩ := h.covered e' hprev
      exact ⟨d, by simp [hchains, hd], hd'⟩
    · rw [List.mem_singleton.mp hlast]
      exact ⟨_, by simp [hchains], hfound⟩
  · have hid' : ((r.index e).startChain e).id = r.chains.length := hid
    rw [hchains]
    simp [h.ids, hid', List.range_succ]
  · intro d hd
    rcases hmem d hd with hd | rfl
    · exact h.modes d hd
    · exact hmode

theorem ChainsSound.insert {r : Registry} (h : r.ChainsSound) (hix : r.Indexed) {e : Fault}
    (hnew : r.lookup e.report = none) (hframes : e.trace.frames ≠ []) :
    (r.insert e).ChainsSound := by
  rcases chains_insert_cases r e with ⟨older, c, newer, hold, hm, hchains⟩ | ⟨-, hchains⟩
  · exact h.insert_of_matches hix hnew hold hm hchains
  · exact h.insert_of_started hix hnew hframes hchains

/-- The chains are sound after every sequence of requests. -/
theorem chainsSound_serveAll (mode : Containment) (functions : FunctionSet)
    (qs : List Request) : ((Registry.empty mode functions).serveAll qs).ChainsSound := by
  suffices h : ((Registry.empty mode functions).serveAll qs).Indexed ∧
      ((Registry.empty mode functions).serveAll qs).ChainsSound from h.2
  refine serveAll_induction (P := fun r => r.Indexed ∧ r.ChainsSound) ?_ ?_ ?_ qs
  · refine ⟨Indexed.empty mode functions, ?_, ?_, rfl, ?_⟩ <;>
      exact fun _ h => absurd h List.not_mem_nil
  · rintro r drops ⟨hix, h⟩
    exact ⟨hix.drop drops, ⟨h.sound, h.covered, h.ids, h.modes⟩⟩
  · rintro r given e ⟨hix, h⟩ he
    exact ⟨hix.insert he.lookup_eq_none he.frames_ne_nil,
      h.insert hix he.lookup_eq_none he.frames_ne_nil⟩

/-! ## Growth -/

/-- A request keeps every chain in its place, with a trace that the old frames begin. -/
theorem serve_extends_chains (r : Registry) (q : Request) {i : Nat} {c : Chain}
    (hc : r.chains[i]? = some c) :
    ∃ c', (r.serve q).chains[i]? = some c' ∧ c.trace.frames <+: c'.trace.frames := by
  rcases serve_cases r q with ⟨drops, hserve⟩ | ⟨given, e, -, hserve⟩
  · rw [hserve]
    exact ⟨c, hc, List.prefix_rfl⟩
  · rw [hserve]
    rcases chains_insert_cases r e with ⟨older, d, newer, hold, hm, hchains⟩ | ⟨-, hchains⟩
    · rw [hold] at hc
      rw [hchains]
      -- Only the chain behind the older ones changes.
      rcases Nat.lt_trichotomy i older.length with hlt | rfl | hgt
      · rw [List.getElem?_append_left hlt] at hc ⊢
        exact ⟨c, hc, List.prefix_rfl⟩
      · rw [List.getElem?_append_right (Nat.le_refl _)] at hc ⊢
        have hcd : d = c := by simpa using hc
        subst hcd
        exact ⟨d.add e, by simp, Chain.prefix_trace_add (Chain.comparable_of_matches hm)⟩
      · rw [List.getElem?_append_right (Nat.le_of_lt hgt)] at hc ⊢
        obtain ⟨k, hk⟩ : ∃ k, i - older.length = k + 1 := ⟨i - older.length - 1, by omega⟩
        rw [hk, List.getElem?_cons_succ] at hc ⊢
        exact ⟨c, hc, List.prefix_rfl⟩
    · have hlt : i < r.chains.length := (List.getElem?_eq_some_iff.mp hc).1
      rw [hchains, List.getElem?_append_left hlt]
      exact ⟨c, hc, List.prefix_rfl⟩

/-- After any requests every registered error is found by a chain, the chains are numbered in order,
and each keeps its errors below its trace, which no further request shortens. -/
theorem serveAll_chains_sound (mode : Containment) (functions : FunctionSet) (qs : List Request) :
    let r := (Registry.empty mode functions).serveAll qs
    (∀ e ∈ r.order, ∃ c ∈ r.chains, e ∈ c.found) ∧
    (∀ (i : Nat) (c : Chain), r.chains[i]? = some c → c.id = i) ∧
    (∀ c ∈ r.chains,
      c.found ≠ [] ∧ c.found.Nodup ∧ (∀ e ∈ c.found, e ∈ r.order) ∧
      (∀ e ∈ c.found, e.trace.frames <+: c.trace.frames) ∧
      (∃ e ∈ c.found, e.trace = c.trace) ∧
      c.heads = c.found.filter (fun e => e.depth = c.depth) ∧ c.heads ≠ [] ∧
      ∀ e ∈ c.heads, e.trace.frames = c.trace.frames) ∧
    (∀ (q : Request) (i : Nat) (c : Chain), r.chains[i]? = some c →
      ∃ c', (r.serve q).chains[i]? = some c' ∧ c.trace.frames <+: c'.trace.frames) := by
  intro r
  have h : r.ChainsSound := chainsSound_serveAll mode functions qs
  refine ⟨h.covered, ?_, ?_, fun q i c hc => serve_extends_chains r q hc⟩
  · intro i c hc
    -- The chains are numbered in the order they stand in.
    have hid : (r.chains.map (·.id))[i]? = some c.id := by simp [hc]
    rw [h.ids, List.getElem?_range (List.getElem?_eq_some_iff.mp hc).1] at hid
    exact (Option.some.inj hid).symm
  · intro c hc
    have hs := h.sound c hc
    exact ⟨hs.found_ne_nil, List.Nodup.of_map _ hs.reports_nodup, hs.found_subset,
      hs.found_begins, hs.trace_found, hs.heads_eq, hs.heads_ne_nil,
      fun e he => hs.frames_of_mem_heads he⟩

end Registry
end FaultChain
