import FaultChain.Proofs.Campaign.EdgeRuns

/-!
# Propagating errors

What handling a batch of calls adds to the registry, and what the whole phase comes to, in terms of
the traces of registered errors.

* `Campaign.carried`: the trace of an error once it has been offered to a caller.
* `Campaign.Settled`: a campaign between two batches.
* `Campaign.propagateBatch_spec`: what handling a batch does.
* `Campaign.propagateAll_induction`: what handling batches keeps holds at the end of the phase.
-/

namespace FaultChain
namespace Campaign

variable {c : Campaign} {site : Site} {cutoff : Host.Cutoff} {loc : Call → String}

/-! ## Carried errors -/

/-- The errors of a callee that are offered to a caller. -/
def offers (c : Campaign) (r : Registry) (call : Call) : List Fault :=
  (r.byEntry.get call.callee).filter fun e =>
    !(c.options.excludeKnown && r.knownTo call.caller e)

/-- The trace of an error once it has been offered to a caller. The frame of the caller is only
there if the error was one of the callee. -/
def carried (loc : Call → String) (call : Call) (t : Trace) : Trace :=
  { frames := t.frames ++ if t.entry = call.callee then [⟨call.caller, loc call⟩] else []
    entry := call.caller }

theorem after_pair (entry : String) (f g : Frame) :
    Trace.after entry [f, g] = if entry = f.function then [g] else [] := by
  by_cases hf : entry = f.function
  · subst hf
    simp [Trace.after]
  · have hf' : f.function ≠ entry := fun heq => hf heq.symm
    by_cases hg : g.function = entry
    · simp [Trace.after, hf, hf', hg]
    · simp [Trace.after, hf, hf', hg]

/-- A relayed report is registered with the carried trace of its seed. -/
theorem Relays.acceptable {r : Registry} (hix : r.Indexed) {fns : FunctionSet} {files : FileTree}
    {call : Call} (hname : '.' ∉ call.caller.toList) {seed : Fault} (hseed : seed ∈ r.order)
    {report : String} (h : Relays loc fns files call seed.report report) :
    ∃ e, Registry.Acceptable r.order fns files (report, call.caller) e ∧
      e.trace = carried loc call seed.trace := by
  rcases h.read with ⟨given, l, hread, hblack, hgiven, hframes⟩
  rcases Report.read_spec hread with ⟨-, hreport, -, hentry⟩
  have hpropagated : given.isPropagated = true := by
    unfold Fault.isPropagated
    rw [hreport]
    exact h.ending
  rw [Report.normalize_of_no_dot hname] at hentry
  -- The frames of the seed stay in front; the call that reached it comes behind.
  have htrace : (Registry.inherit seed given).trace = carried loc call seed.trace := by
    simp [Registry.inherit, Trace.prepend, carried, hframes, after_pair, hentry]
  refine ⟨Registry.inherit seed given, ⟨given, hread, hblack, ?_, ?_⟩, htrace⟩
  · rw [htrace]
    intro hnil
    exact hix.frames_ne_nil seed hseed (List.append_eq_nil_iff.mp hnil).1
  · exact Or.inr ⟨hpropagated, seed, hseed, hgiven.symm, rfl⟩

/-- The reports of a run are registered with the carried traces of the errors offered to it. -/
theorem Found.acceptable {r : Registry} (hix : r.Indexed) {fns : FunctionSet} {files : FileTree}
    {call : Call} (hname : '.' ∉ call.caller.toList) {seeds : List Fault}
    (hseeds : ∀ seed ∈ seeds, seed ∈ r.order) {offered : List String}
    (hoffered : offered.Perm (seeds.map (·.report))) {result : Result}
    (h : Found loc fns files call offered result) :
    ∃ new, List.Forall₂ (Registry.Acceptable r.order fns files)
        (result.errorFiles.map fun report => (report, call.caller)) new ∧
      (new.map (·.trace)).Perm (seeds.map fun seed => carried loc call seed.trace) := by
  rcases h.reports with ⟨reports, hperm, hrelays⟩
  -- The reports in the order of the errors they were seeded from.
  rcases List.perm_comp_forall₂ hoffered.symm hrelays with ⟨reports', hrelays', hperm'⟩
  have hlisted : ∃ new, List.Forall₂ (Registry.Acceptable r.order fns files)
      (reports'.map fun report => (report, call.caller)) new ∧
        new.map (·.trace) = seeds.map fun seed => carried loc call seed.trace := by
    clear hperm hperm' hrelays hoffered h
    induction seeds generalizing reports' with
    | nil =>
      cases hrelays'
      exact ⟨[], .nil, rfl⟩
    | cons seed seeds ih =>
      cases hrelays' with
      | cons hfirst hrest =>
        rcases hfirst.acceptable hix hname (hseeds seed List.mem_cons_self) with ⟨e, he, htrace⟩
        rcases ih (fun s hs => hseeds s (List.mem_cons_of_mem _ hs)) _ hrest with
          ⟨new, hnew, htraces⟩
        exact ⟨e :: new, .cons he hnew, by simp [htrace, htraces]⟩
  rcases hlisted with ⟨new, hnew, htraces⟩
  have hsame : (result.errorFiles.map fun report => (report, call.caller)).Perm
      (reports'.map fun report => (report, call.caller)) := (hperm.trans hperm'.symm).map _
  rcases List.perm_comp_forall₂ hsame hnew with ⟨new', hnew', hperm''⟩
  refine ⟨new', hnew', ?_⟩
  rw [← htraces]
  exact hperm''.map _

/-! ## The results of a batch -/

/-- The reports of the results of some calls, each with the caller it was found from. -/
def edgeReports (es : List Edge) (results : List Result) : List (String × String) :=
  (es.zip results).flatMap fun p => p.2.errorFiles.map fun report => (report, p.1.call.caller)

section

variable {r : Registry} {fns : FunctionSet} {files : FileTree} {es : List Edge}
  {results : List Result} {offered : Edge → List String}

theorem reportsOf_forEdge
    (h : List.Forall₂ (fun x result => Found loc fns files x.call (offered x) result) es results) :
    reportsOf ((es.zip results).map fun (x, result) => forEdge x result) =
      edgeReports es results := by
  induction h with
  | nil => rfl
  | @cons x result es results hfirst _ ih =>
    have hforEdge : (forEdge x result).errorFiles = result.errorFiles ∧
        (forEdge x result).function = x.call.caller := by
      unfold forEdge
      split
      · exact ⟨rfl, rfl⟩
      · exact ⟨rfl, hfirst.function⟩
    unfold reportsOf edgeReports at ih ⊢
    rw [List.zip_cons_cons, List.map_cons, List.flatMap_cons, List.flatMap_cons, ih]
    simp [hforEdge]

theorem map_fst_edgeReports (hlength : es.length = results.length) :
    (edgeReports es results).map (·.1) = results.flatMap (·.errorFiles) := by
  induction es generalizing results with
  | nil =>
    cases results with
    | nil => rfl
    | cons => cases hlength
  | cons x es ih =>
    cases results with
    | nil => cases hlength
    | cons result results =>
      have hrest : (edgeReports es results).map (·.1) = results.flatMap (·.errorFiles) :=
        ih (by simpa using hlength)
      simp only [edgeReports, List.zip_cons_cons, List.flatMap_cons, List.map_append,
        List.map_map] at hrest ⊢
      rw [hrest]
      simp [Function.comp_def]

theorem exists_result_of_mem_edgeReports (hlength : es.length = results.length)
    {q : String × String} (hq : q ∈ edgeReports es results) :
    ∃ result ∈ results, q.1 ∈ result.errorFiles := by
  have hfst : q.1 ∈ (edgeReports es results).map (·.1) := List.mem_map_of_mem hq
  rw [map_fst_edgeReports hlength] at hfst
  exact List.mem_flatMap.mp hfst

/-- No report of a batch is listed twice, as no two of its runs share one. -/
theorem nodup_edgeReports
    (h : List.Forall₂ (fun x result => Found loc fns files x.call (offered x) result) es results)
    (hapart : results.Pairwise fun r r' => List.Disjoint r.errorFiles r'.errorFiles) :
    ((edgeReports es results).map (·.1)).Nodup := by
  rw [map_fst_edgeReports h.length_eq, List.nodup_flatMap]
  refine ⟨?_, hapart⟩
  intro result hresult
  rcases exists_of_mem_forall₂ h hresult with ⟨x, -, hx⟩
  exact hx.nodup

/-- The reports of the errors that a batch registers are there. -/
theorem held_of_acceptable {order new : List Fault}
    (h : List.Forall₂ (fun x result => Found loc fns files x.call (offered x) result) es results)
    (haccept : List.Forall₂ (Registry.Acceptable order fns files) (edgeReports es results) new)
    {e : Fault} (he : e ∈ new) :
    Text.endsWith e.report ".err" = true ∧ ∃ text, files.Holds e.report text := by
  rcases exists_of_mem_forall₂ haccept he with ⟨q, hq, hacceptable⟩
  rcases exists_result_of_mem_edgeReports h.length_eq hq with ⟨result, hresult, hreport⟩
  rcases exists_of_mem_forall₂ h hresult with ⟨x, -, hx⟩
  rw [hacceptable.report_eq]
  exact hx.held hreport

/-- The reports of a batch are registered with the carried traces of what was offered. -/
theorem acceptable_edgeReports (hix : r.Indexed) {seeds : Edge → List Fault}
    (hnames : ∀ x ∈ es, '.' ∉ x.call.caller.toList)
    (hseeds : ∀ x ∈ es, ∀ e ∈ seeds x, e ∈ r.order)
    (hoffered : ∀ x ∈ es, (offered x).Perm ((seeds x).map (·.report)))
    (h : List.Forall₂ (fun x result => Found loc fns files x.call (offered x) result) es results) :
    ∃ new, List.Forall₂ (Registry.Acceptable r.order fns files) (edgeReports es results) new ∧
      (new.map (·.trace)).Perm
        (es.flatMap fun x => (seeds x).map fun e => carried loc x.call e.trace) := by
  induction h with
  | nil => exact ⟨[], .nil, .nil⟩
  | @cons x result es results hfirst _ ih =>
    -- The reports of the first call, and then those of the others.
    rcases hfirst.acceptable hix (hnames x List.mem_cons_self) (hseeds x List.mem_cons_self)
      (hoffered x List.mem_cons_self) with ⟨new, hnew, htraces⟩
    rcases ih (fun y hy => hnames y (List.mem_cons_of_mem _ hy))
      (fun y hy => hseeds y (List.mem_cons_of_mem _ hy))
      (fun y hy => hoffered y (List.mem_cons_of_mem _ hy)) with ⟨new', hnew', htraces'⟩
    refine ⟨new ++ new', ?_, ?_⟩
    · exact List.rel_append hnew hnew'
    · rw [List.map_append, List.flatMap_cons]
      exact htraces.append htraces'

end

/-! ## One batch -/

/-- A campaign between two batches: every registered error has the trace of its entry function and
a report that is still there. -/
structure Settled (site : Site) (s : State) : Prop where
  inOrder : s.world.InOrder site.dir
  indexed : s.registry.Indexed
  entries : ∀ e ∈ s.registry.order, e.trace.entry = e.entry
  held : ∀ e ∈ s.registry.order,
    Text.endsWith e.report ".err" = true ∧ ∃ text, s.world.host.files.Holds e.report text

/-- What handling a batch may rely on once its images are built. -/
def Backed (c : Campaign) (site : Site) (cutoff : Host.Cutoff) (loc : Call → String) (k : Nat)
    (batch : List Call) (s : State) : Prop :=
  let es := c.edges site s.registry batch
  es ≠ [] →
    Supported c site cutoff loc s.registry.functions k es (c.buildImages site k es s.world).2

/-- What handling a batch does: it adds the carried traces of all that was offered. What is offered
to a call are the reports of the one that has filled its image. -/
structure Handles (c : Campaign) (site : Site) (cutoff : Host.Cutoff) (loc : Call → String)
    (batch : List Call) (s s' : State) : Prop where
  settled : Settled site s'
  calm : cutoff.reached? s'.world.host = none
  functions : s'.registry.functions = s.registry.functions
  served : ∃ qs, s'.registry = s.registry.serveAll qs
  order : ∃ source new, Sources (c.edges site s.registry batch) source ∧
    s'.registry.order = s.registry.order ++ new ∧
    (new.map (·.trace)).Perm ((c.edges site s.registry batch).flatMap fun x =>
      (c.offers s.registry (source x.image).call).map fun e => carried loc x.call e.trace)

theorem mem_edges_iff {r : Registry} {batch : List Call} {x : Edge} :
    x ∈ c.edges site r batch ↔ ∃ call ∈ batch, c.offers r call ≠ [] ∧
      x = ⟨call, r.toPrepend call.caller call.callee c.options.excludeKnown,
        site.dir.edgeImage call.caller call.callee⟩ := by
  -- Sorting the reports does not make any of them up.
  have hempty : ∀ call : Call,
      r.toPrepend call.caller call.callee c.options.excludeKnown = [] ↔ c.offers r call = [] := by
    intro call
    unfold Registry.toPrepend Registry.sorted offers
    rw [← List.length_eq_zero_iff, List.length_mergeSort, List.length_map, List.length_eq_zero_iff]
  unfold edges
  rw [List.mem_filter, List.mem_map]
  constructor
  · rintro ⟨⟨call, hcall, rfl⟩, hsome⟩
    refine ⟨call, hcall, ?_, rfl⟩
    intro hnone
    simp [(hempty call).mpr hnone] at hsome
  · rintro ⟨call, hcall, hsome, rfl⟩
    refine ⟨⟨call, hcall, rfl⟩, ?_⟩
    have hreports : r.toPrepend call.caller call.callee c.options.excludeKnown ≠ [] :=
      fun hnil => hsome ((hempty call).mp hnil)
    simpa using hreports

/-- The reports of a call are those of the errors offered. -/
theorem perm_reports {r : Registry} {batch : List Call} {x : Edge}
    (hx : x ∈ c.edges site r batch) : x.reports.Perm ((c.offers r x.call).map (·.report)) := by
  rcases mem_edges_iff.mp hx with ⟨call, -, -, rfl⟩
  exact List.mergeSort_perm _ _

theorem mem_offers_iff {r : Registry} (hix : r.Indexed) {call : Call} {e : Fault} :
    e ∈ c.offers r call ↔ e ∈ r.order ∧ e.entry = call.callee ∧
      (c.options.excludeKnown && r.knownTo call.caller e) = false := by
  unfold offers
  rw [List.mem_filter, hix.mem_get_byEntry, and_assoc, Bool.not_eq_eq_eq_not, Bool.not_true]

/-- Running the calls of a batch whose images are built. -/
theorem runEdges_spec {s : State} (hs : Settled site s) {k : Nat} {es : List Edge}
    {offered : Edge → List Fault} (hnames : ∀ x ∈ es, '.' ∉ x.call.caller.toList)
    (hsub : ∀ x ∈ es, ∀ e ∈ offered x, e ∈ s.registry.order)
    (hoffered : ∀ x ∈ es, (CampaignScript.prepended s.world.journal x.image).Perm
      ((offered x).map (·.report)))
    (hsupported : Supported c site cutoff loc s.registry.functions k es s.world) :
    let s' := c.runEdges site cutoff k es s
    Settled site s' ∧ cutoff.reached? s'.world.host = none ∧
      s'.registry.functions = s.registry.functions ∧
      (∃ qs, s'.registry = s.registry.serveAll qs) ∧
      ∃ new, s'.registry.order = s.registry.order ++ new ∧
        (new.map (·.trace)).Perm
          (es.flatMap fun x => (offered x).map fun e => carried loc x.call e.trace) := by
  intro s'
  rcases hsupported.runBatch hs.inOrder with ⟨hin, hkeeps, hcalm, hfound, hapart, hnew⟩
  generalize hout : c.runBatch cutoff (k + 1) failedTask (es.map (c.edgeTask site)) s.world = out
    at hin hkeeps hcalm hfound hapart hnew
  rcases out with ⟨results, w⟩
  let s₁ : State := { s with
    world := w
    phaseTwo := s.phaseTwo ++ (es.zip results).map fun (x, r) => forEdge x r }
  have hs' : s' = register s₁ ((es.zip results).map fun (x, r) => forEdge x r) := by
    simp only [s', runEdges, hout, s₁]
  have hserves := serves_register s₁ ((es.zip results).map fun (x, r) => forEdge x r)
  rw [← hs', reportsOf_forEdge hfound] at hserves
  have hworld : s'.world = w := hserves.world
  have hregistry : s'.registry =
      s.registry.serveAll (requests w.host.files (edgeReports es results)) := hserves.registry
  rcases acceptable_edgeReports hs.indexed hnames hsub hoffered hfound with
    ⟨new, haccept, htraces⟩
  -- A report of the batch was not there before it.
  have hfresh : ∀ q ∈ edgeReports es results, ∀ e ∈ s.registry.order, e.report ≠ q.1 := by
    intro q hq e he heq
    rcases exists_result_of_mem_edgeReports hfound.length_eq hq with ⟨result, hresult, hreport⟩
    rcases (hs.held e he).2 with ⟨text, hheld⟩
    exact hnew result hresult q.1 hreport text (heq ▸ hheld)
  rcases Registry.order_serveAll_files hs.indexed haccept (nodup_edgeReports hfound hapart) hfresh
    with ⟨hix, hfns, -, horder⟩
  rw [← hregistry] at hix hfns horder
  refine ⟨{ inOrder := ?_, indexed := hix, entries := ?_, held := ?_ }, ?_, hfns, ⟨_, hregistry⟩,
    new, horder, htraces⟩
  · rw [hworld]
    exact hin
  · intro e he
    rw [horder] at he
    rcases List.mem_append.mp he with hold | hlast
    · exact hs.entries e hold
    · rcases exists_of_mem_forall₂ haccept hlast with ⟨q, -, hq⟩
      exact hq.entry_eq
  · intro e he
    rw [hworld]
    rw [horder] at he
    rcases List.mem_append.mp he with hold | hlast
    · rcases hs.held e hold with ⟨hending, text, hheld⟩
      exact ⟨hending, text, hkeeps.reports hending hheld⟩
    · exact held_of_acceptable hfound haccept hlast
  · rw [hworld]
    exact hcalm

theorem Settled.close {s : State} (h : Settled site s) (span : Span) : Settled site (s.close span) :=
  ⟨⟨h.inOrder.canceled, h.inOrder.abandoned, h.inOrder.index⟩, h.indexed, h.entries, h.held⟩

/-- Handling a batch succeeds, and adds the carried traces of all that was offered. -/
theorem propagateBatch_spec (ht : c.toolchain.Reliable site.dir) {k : Nat} {batch : List Call}
    {s : State} (hs : Settled site s) (hcalm : cutoff.reached? s.world.host = none)
    (hnames : ∀ call ∈ batch, '.' ∉ call.caller.toList)
    (hbacked : c.Backed site cutoff loc k batch s) :
    ∃ s', c.propagateBatch site cutoff k batch s = (.ok (), s') ∧
      Handles c site cutoff loc batch s s' := by
  by_cases hes : c.edges site s.registry batch = []
  · -- Nothing is offered, and only the span of the batch is left.
    let s₁ : State := { s with skippedCalls := s.skippedCalls + batch.length }
    have hbatch : c.propagateBatch site cutoff k batch s =
        (.ok (), s₁.close (batchSpan k batch.length batch.length)) := by
      simp only [propagateBatch, hes, List.isEmpty_nil, if_true]
      rfl
    have hs₁ : Settled site s₁ := ⟨hs.inOrder, hs.indexed, hs.entries, hs.held⟩
    have hnone : ∀ x ∈ ([] : List Edge), Filled [] s.world.journal x.image := nofun
    rcases exists_sources hnone with ⟨source, hsource, -⟩
    refine ⟨_, hbatch, hs₁.close _, hcalm, rfl, ⟨[], rfl⟩, source, [], hes ▸ hsource,
      (List.append_nil _).symm, ?_⟩
    rw [hes]
    exact .nil
  · have hsupported := hbacked hes
    rcases buildImages_spec ht k (c.edges site s.registry batch) hs.inOrder
      (Host.canceled_of_not_reached hsupported.calm_start) with
      ⟨w, himages, hw, hkeeps, hfilled⟩
    rw [himages] at hsupported
    rcases exists_sources hfilled with ⟨source, hsource, hprepended⟩
    generalize hskipped : s.skippedCalls + (batch.length - (c.edges site s.registry batch).length) =
      skipped
    let s₁ : State := { s with skippedCalls := skipped, world := w }
    have hs₁ : Settled site s₁ := by
      refine ⟨hw, hs.indexed, hs.entries, ?_⟩
      intro e he
      rcases hs.held e he with ⟨hending, text, hheld⟩
      exact ⟨hending, text, hkeeps.reports hending hheld⟩
    have hnames' : ∀ x ∈ c.edges site s.registry batch, '.' ∉ x.call.caller.toList := by
      intro x hx
      rcases mem_edges_iff.mp hx with ⟨call, hcall, -, rfl⟩
      exact hnames call hcall
    have hrun := runEdges_spec (s := s₁) (k := k) hs₁ hnames'
      (fun x _ e he => ((mem_offers_iff hs.indexed).mp he).1)
      (fun x hx => by
        rw [show s₁.world.journal = w.journal from rfl, hprepended x hx]
        exact perm_reports (hsource.mem x hx))
      hsupported
    rcases hrun with ⟨hsettled, hcalm', hfns, hserved, new, horder, htraces⟩
    let span := batchSpan k batch.length (batch.length - (c.edges site s.registry batch).length)
    have hne : (c.edges site s.registry batch).isEmpty = false := by simpa using hes
    have hbatch : c.propagateBatch site cutoff k batch s =
        (.ok (), (c.runEdges site cutoff k (c.edges site s.registry batch) s₁).close span) := by
      simp only [propagateBatch, hne, himages, hskipped, Bool.false_eq_true, if_false, s₁, span]
    exact ⟨_, hbatch, hsettled.close span, hcalm', hfns, hserved, source, new, hsource, horder,
      htraces⟩

/-! ## The phase -/

/-- What handling batches one after another may rely on. -/
def BackedAll (c : Campaign) (site : Site) (cutoff : Host.Cutoff) (loc : Call → String) :
    Nat → List (List Call) → State → Prop
  | _, [], _ => True
  | k, batch :: rest, s =>
    c.Backed site cutoff loc k batch s ∧
      BackedAll c site cutoff loc (k + 1) rest (c.propagateBatch site cutoff k batch s).2

/-- What holds before the first batch and is kept by handling each batch holds after the last. -/
theorem propagateAll_induction {P : Nat → State → Prop} (ht : c.toolchain.Reliable site.dir)
    (batches : List (List Call)) (k : Nat) (s : State) (hs : Settled site s)
    (hcalm : cutoff.reached? s.world.host = none)
    (hnames : ∀ batch ∈ batches, ∀ call ∈ batch, '.' ∉ call.caller.toList)
    (hbacked : BackedAll c site cutoff loc k batches s) (hP : P k s)
    (hstep : ∀ (i : Nat) batch s s', batches[i]? = some batch → Settled site s →
      Handles c site cutoff loc batch s s' → P (k + i) s → P (k + i + 1) s') :
    ∃ s', c.propagateAll site cutoff k batches s = (.ok (), s') ∧ P (k + batches.length) s' := by
  induction batches generalizing k s with
  | nil => exact ⟨s, rfl, hP⟩
  | cons batch rest ih =>
    rcases propagateBatch_spec ht hs hcalm (hnames batch List.mem_cons_self) hbacked.1 with
      ⟨s', hbatch, hhandles⟩
    have hrest := hbacked.2
    rw [hbatch] at hrest
    -- Seen from the second batch on, batches are counted one less.
    have hlater : ∀ (i : Nat) batch s s', rest[i]? = some batch → Settled site s →
        Handles c site cutoff loc batch s s' → P (k + 1 + i) s → P (k + 1 + i + 1) s' := by
      intro i b s₁ s₂ hi hs₁ hh
      have hnext := hstep (i + 1) b s₁ s₂ (by simpa using hi) hs₁ hh
      rwa [show k + (i + 1) = k + 1 + i by omega] at hnext
    rcases ih (k + 1) s' hhandles.settled hhandles.calm
      (fun b hb => hnames b (List.mem_cons_of_mem _ hb)) hrest
      (hstep 0 batch s s' rfl hs hhandles hP) hlater with ⟨s'', hall, hP'⟩
    refine ⟨s'', ?_, ?_⟩
    · simp only [propagateAll, hcalm, Option.isSome_none, Bool.false_eq_true, if_false, hbatch,
        hall]
    · have hlength : k + (batch :: rest).length = k + 1 + rest.length := by
        simp only [List.length_cons]
        omega
      rw [hlength]
      exact hP'

/-- A campaign that enters its second phase. -/
def entering (c : Campaign) (site : Site) (s : State) : State :=
  let batches := site.graph.batches c.options.removeMain
  { s with
    startTwo := some s.world.host.clock
    batches := batches.length
    suitableCalls := s.suitableCalls + (batches.map (·.length)).foldl (· + ·) 0
    totalCalls := s.totalCalls + callCount site.graph }

theorem registry_entering (c : Campaign) (site : Site) (s : State) :
    (c.entering site s).registry = s.registry := rfl

/-- The registry after the phase, if handling the batches succeeds. -/
theorem propagate_of_propagateAll {s s' : State}
    (h : c.propagateAll site (s.world.host.cutoff s.deadline) 0
      (site.graph.batches c.options.removeMain) (c.entering site s) = (.ok (), s')) :
    (c.propagate site s).1 = .ok () ∧ (c.propagate site s).2.registry = s'.registry := by
  unfold entering at h
  simp only [propagate, h]
  exact ⟨trivial, rfl⟩

end Campaign
end FaultChain
