import Mathlib
import FaultChain.Campaign.Isolation
import FaultChain.Campaign.Preparation
import FaultChain.Proofs.Campaign.CallPaths
import FaultChain.Proofs.Campaign.SingleRun

/-!
# Completeness of propagation

A campaign on a program without cycles whose first phase finds a single error: after the second
phase the registered errors are in one-to-one correspondence with the call paths to its function,
exactly if no two calls of a batch that have errors of different functions to offer share an image.

* `Campaign.Complete`: the correspondence.
* `Campaign.FindsOne`: what is asked of the first phase.
* `Campaign.propagate_complete_iff`: the main statement.
-/

namespace FaultChain
namespace Campaign

open CallGraph (CallPath Calls pathFrames pathTrace outermost Plain Acyclic)

variable {c : Campaign} {site : Site} {cutoff : Host.Cutoff} {loc : Call → String}
  {info : List (String × NodeInfo)} {b : String} {bug : Frame}

/-! ## Correspondence -/

/-- The registered errors are in one-to-one correspondence with the call paths to `b`: the error of
a path has the outermost caller as its entry, and one frame for each function on the path. -/
def Complete (nodes : List Node) (b : String) (bug : Frame) (loc : Call → String) (r : Registry) :
    Prop :=
  ∃ errorOf : List String → Fault,
    Set.BijOn errorOf {p | CallPath nodes b p} {e | e ∈ r.order} ∧
    ∀ p, CallPath nodes b p →
      (errorOf p).entry = outermost p ∧ (errorOf p).trace.frames = pathFrames bug loc p

/-- The registered traces are those along the paths of a list, each once. -/
structure Lists (nodes : List Node) (b : String) (bug : Frame) (loc : Call → String) (r : Registry)
    (ps : List (List String)) : Prop where
  nodup : ps.Nodup
  mem_iff : ∀ p, p ∈ ps ↔ CallPath nodes b p
  traces : (r.order.map (·.trace)).Perm (ps.map (pathTrace bug loc))

/-- After the last batch all paths are early. -/
theorem Follows.lists (hplain : Plain (CallGraph.ofInfo info) c.options.removeMain)
    (hacyclic : Acyclic (CallGraph.ofInfo info).nodes) {r : Registry}
    (h : Follows c (CallGraph.ofInfo info) b bug loc
      ((CallGraph.ofInfo info).batches c.options.removeMain).length r) :
    ∃ ps, Lists (CallGraph.ofInfo info).nodes b bug loc r ps := by
  rcases h with ⟨ps, hnodup, hps, hperm⟩
  refine ⟨ps, hnodup, ?_, hperm⟩
  intro p
  rw [hps p]
  refine ⟨fun h => h.1, fun hpath => ⟨hpath, ?_⟩⟩
  cases hpath with
  | start => trivial
  | caller hcall _ =>
    exact CallGraph.rank_lt_length hacyclic.onlyLoops
      ((hplain.mem_eligibleCallees_iff hacyclic).mpr hcall)

namespace Lists

variable {nodes : List Node} {r : Registry} {ps : List (List String)}

theorem traces_nodup (h : Lists nodes b bug loc r ps) (hbug : bug.function = b) :
    (r.order.map (·.trace.frames)).Nodup := by
  have hframes := h.traces.map (·.frames)
  rw [List.map_map, List.map_map] at hframes
  refine hframes.nodup_iff.mpr (List.Nodup.map_on ?_ h.nodup)
  intro p hp q hq heq
  exact ((h.mem_iff p).mp hp).eq_of_pathFrames ((h.mem_iff q).mp hq) hbug heq

theorem exists_path (h : Lists nodes b bug loc r ps) {e : Fault} (he : e ∈ r.order) :
    ∃ p, CallPath nodes b p ∧ e.trace = pathTrace bug loc p := by
  have hmem : e.trace ∈ ps.map (pathTrace bug loc) :=
    h.traces.mem_iff.mp (List.mem_map_of_mem he)
  rcases List.mem_map.mp hmem with ⟨p, hp, heq⟩
  exact ⟨p, (h.mem_iff p).mp hp, heq.symm⟩

theorem exists_error (h : Lists nodes b bug loc r ps) {p : List String}
    (hp : CallPath nodes b p) : ∃ e ∈ r.order, e.trace = pathTrace bug loc p := by
  have hmem : pathTrace bug loc p ∈ r.order.map (·.trace) :=
    h.traces.mem_iff.mpr (List.mem_map_of_mem ((h.mem_iff p).mpr hp))
  exact List.mem_map.mp hmem

theorem complete (h : Lists nodes b bug loc r ps) (hbug : bug.function = b)
    (hentries : ∀ e ∈ r.order, e.trace.entry = e.entry) : Complete nodes b bug loc r := by
  have hnodup := h.traces_nodup hbug
  have herror : ∀ p, ∃ e : Fault, CallPath nodes b p →
      e ∈ r.order ∧ e.trace = pathTrace bug loc p := by
    intro p
    by_cases hp : CallPath nodes b p
    · rcases h.exists_error hp with ⟨e, he, htrace⟩
      exact ⟨e, fun _ => ⟨he, htrace⟩⟩
    · exact ⟨⟨"", "", "", "", "", "", ⟨[], ""⟩, ""⟩, fun hpath => absurd hpath hp⟩
  choose errorOf herrorOf using herror
  refine ⟨errorOf, ⟨?_, ?_, ?_⟩, ?_⟩
  · intro p hp
    exact (herrorOf p hp).1
  · -- The frames of an error tell its path.
    intro p hp q hq heq
    have htrace : pathTrace bug loc p = pathTrace bug loc q := by
      rw [← (herrorOf p hp).2, ← (herrorOf q hq).2, heq]
    exact CallPath.eq_of_pathFrames hp hq hbug (congrArg Trace.frames htrace)
  · -- Two errors with the trace of a path are the same.
    intro e he
    rcases h.exists_path he with ⟨p, hp, htrace⟩
    refine ⟨p, hp, ?_⟩
    rcases herrorOf p hp with ⟨he', htrace'⟩
    exact List.inj_on_of_nodup_map hnodup he' he
      (congrArg Trace.frames (htrace'.trans htrace.symm))
  · intro p hp
    rcases herrorOf p hp with ⟨he, htrace⟩
    rw [← hentries _ he, htrace]
    exact ⟨rfl, rfl⟩

/-- The maximal traces are those of the paths that have no caller in front of them. -/
theorem isMaximal_iff (h : Lists nodes b bug loc r ps) (hbug : bug.function = b)
    (frames : List Frame) :
    r.IsMaximal frames ↔ ∃ p, CallPath nodes b p ∧ (∀ f, ¬ Calls nodes f (outermost p)) ∧
      frames = pathFrames bug loc p := by
  constructor
  · rintro ⟨⟨e, he, rfl⟩, hmax⟩
    rcases h.exists_path he with ⟨p, hp, htrace⟩
    have hframes : e.trace.frames = pathFrames bug loc p := congrArg Trace.frames htrace
    refine ⟨p, hp, ?_, hframes⟩
    intro f hcall
    rcases hp.cons_outermost with ⟨q, hq⟩
    have hlonger : CallPath nodes b (f :: p) := by
      rw [hq] at hp ⊢
      exact .caller hcall hp
    rcases h.exists_error hlonger with ⟨e', he', htrace'⟩
    have hframes' : e'.trace.frames = pathFrames bug loc (f :: p) := congrArg Trace.frames htrace'
    have hprefix : pathFrames bug loc p <+: pathFrames bug loc (f :: p) :=
      (hp.pathFrames_prefix_iff hlonger hbug).mpr (List.suffix_cons f p)
    rw [← hframes, ← hframes'] at hprefix
    have hsame := hmax e' he' hprefix
    rw [hframes, hframes'] at hsame
    have hlength := congrArg List.length (hlonger.eq_of_pathFrames hp hbug hsame)
    simp at hlength
  · rintro ⟨p, hp, hnone, rfl⟩
    rcases h.exists_error hp with ⟨e, he, htrace⟩
    refine ⟨⟨e, he, congrArg Trace.frames htrace⟩, ?_⟩
    intro e' he' hprefix
    rcases h.exists_path he' with ⟨q, hq, htrace'⟩
    have hframes' : e'.trace.frames = pathFrames bug loc q := congrArg Trace.frames htrace'
    rw [hframes'] at hprefix ⊢
    rcases (hp.pathFrames_prefix_iff hq hbug).mp hprefix with ⟨front, rfl⟩
    -- The function before the path would be a caller.
    cases front with
    | nil => rfl
    | cons f front =>
      rcases hp.cons_outermost with ⟨p', hp'⟩
      rw [hp'] at hq
      rcases hq.exists_caller (by simp) with ⟨f', hcall⟩
      exact absurd hcall (hnone f')

end Lists

/-- An error that is out of place belongs to no path. -/
theorem Misplaced.not_complete {nodes : List Node} {r : Registry} (h : Misplaced r)
    (hbug : bug.function = b) : ¬ Complete nodes b bug loc r := by
  rintro ⟨errorOf, hbij, hall⟩
  rcases h with ⟨e, he, hlast⟩
  rcases hbij.surjOn he with ⟨p, hp, rfl⟩
  rcases hall p hp with ⟨hentry, hframes⟩
  refine hlast ?_
  rw [hentry, hframes]
  exact CallPath.getLast?_pathFrames hp hbug

/-! ## The first phase -/

theorem serves_analyzeAll (c : Campaign) (site : Site) (cutoff : Host.Cutoff)
    (functions : List String) (s : State) :
    ∃ s', Serves s' (reportsOf (c.analyzeAll site cutoff functions s).phaseOne)
        (c.analyzeAll site cutoff functions s) ∧ s'.registry = s.registry := by
  unfold analyzeAll
  simp only
  generalize c.runBatch cutoff 0 _ _ s.world = out
  let s₁ : State := { s with world := out.2, phaseOne := out.1.flatten }
  have hserves := serves_register s₁ out.1.flatten
  refine ⟨s₁, ⟨hserves.world, hserves.phaseOne, ?_⟩, rfl⟩
  have hphase : (register s₁ out.1.flatten).phaseOne = out.1.flatten := hserves.phaseOne
  change (register s₁ out.1.flatten).registry =
    s₁.registry.serveAll (requests _ (reportsOf (register s₁ out.1.flatten).phaseOne))
  rw [hphase]
  exact hserves.registry

/-- A first phase that succeeds has analyzed the functions. -/
theorem exists_of_isolate_ok {s : State} (h : (c.isolate site s).1 = .ok ()) :
    ∃ w span, (c.isolate site s).2 =
      (c.analyzeAll site (s.world.host.cutoff s.deadline)
        (site.graph.encapsulable c.options.removeMain)
        { s with functions := site.graph.encapsulable c.options.removeMain, world := w }).close
          span := by
  unfold isolate at h ⊢
  -- The program was copied and the entry points were added, or the phase would have failed.
  cases hcopy : s.world.onFiles (RunDir.copyFile site.dir.program site.dir.symMains) with
  | mk copied w =>
    cases copied with
    | error f => simp [hcopy] at h
    | ok u =>
      cases hall : c.encapsulateAll site (s.world.host.cutoff s.deadline)
          (site.graph.encapsulable c.options.removeMain) w with
      | mk added w' =>
        cases added with
        | error f => simp [hcopy, hall] at h
        | ok u' => exact ⟨w', _, by simp only [hcopy, hall]; rfl⟩

/-- The registry after the first phase. -/
theorem registry_isolate {s : State} (h : (c.isolate site s).1 = .ok ()) :
    (c.isolate site s).2.registry = s.registry.serveAll
      (requests (c.isolate site s).2.world.host.files
        (reportsOf (c.isolate site s).2.phaseOne)) := by
  rcases exists_of_isolate_ok h with ⟨w, span, heq⟩
  rcases serves_analyzeAll c site (s.world.host.cutoff s.deadline)
    (site.graph.encapsulable c.options.removeMain)
    { s with functions := site.graph.encapsulable c.options.removeMain, world := w } with
    ⟨s', hserves, hregistry⟩
  rw [heq]
  have hfiles := hserves.registry
  rw [hregistry, ← hserves.world] at hfiles
  exact hfiles

/-- What is asked of the first phase: it succeeds in time, and all it finds is one report, of `b`,
whose stack is a single frame. -/
structure FindsOne (c : Campaign) (site : Site) (s : State) (b : String) (bug : Frame) : Prop where
  ok : (c.isolate site s).1 = .ok ()
  inOrder : (c.isolate site s).2.world.InOrder site.dir
  calm : ((c.isolate site s).2.world.host.cutoff (c.isolate site s).2.deadline).reached?
    (c.isolate site s).2.world.host = none
  report : ∃ report given, reportsOf (c.isolate site s).2.phaseOne = [(report, b)] ∧
    (∃ text, (c.isolate site s).2.world.host.files.Holds report text) ∧
    Report.read (c.isolate site s).2.world.host.files report b s.registry.functions = .ok given ∧
    given.isBlacklisted = false ∧ given.isPropagated = false ∧ given.trace.frames = [bug]

theorem eq_ok_of_toBool {r : Except Failure Unit} (h : r.toBool = true) : r = .ok () := by
  cases r with
  | error f => cases h
  | ok u => rfl

/-- What is asked of the first phase, in terms that can be evaluated on the state it ends in. -/
theorem findsOne_of {s s₁ : State} {report l : String}
    (hs₁ : (c.isolate site s).2 = s₁) (hok : (c.isolate site s).1.toBool = true)
    (hin : s₁.world.InOrder site.dir)
    (hcalm : ((s₁.world.host.cutoff s₁.deadline).reached? s₁.world.host).isNone = true)
    (hreports : reportsOf s₁.phaseOne = [(report, b)])
    (hheld : ∃ text, s₁.world.host.files.Holds report text)
    (hread : (Report.read s₁.world.host.files report b s.registry.functions).toOption.map
        (fun g => (g.isBlacklisted, g.isPropagated, g.trace.frames)) =
          some (false, false, [⟨b, l⟩])) :
    FindsOne c site s b ⟨b, l⟩ := by
  rcases Except.exists_of_toOption_map hread with ⟨given, hgiven, hdata⟩
  simp only [Prod.mk.injEq] at hdata
  rcases hdata with ⟨hblack, hpropagated, hframes⟩
  subst hs₁
  exact ⟨eq_ok_of_toBool hok, hin, Option.isNone_iff_eq_none.mp hcalm, report, given, hreports,
    hheld, hgiven, hblack, hpropagated, hframes⟩

/-- After the first phase the only registered error is that of the path of `b` alone. -/
theorem FindsOne.follows {s : State} (h : FindsOne c site s b bug) (hname : '.' ∉ b.toList)
    {mode : Containment} {functions : FunctionSet} (hs : s.registry = .empty mode functions)
    (g : CallGraph) (loc : Call → String) :
    Settled site (c.isolate site s).2 ∧
      Follows c g b bug loc 0 (c.isolate site s).2.registry := by
  rcases h.report with ⟨report, given, hreports, hheld, hread, hblack, hpropagated, hframes⟩
  rcases Report.read_spec hread with ⟨hending, hreport, hentry, htrace⟩
  rw [Report.normalize_of_no_dot hname] at hentry htrace
  have hregistry := registry_isolate h.ok
  rw [hreports] at hregistry
  -- The single report is accepted: it is neither propagated nor without frames.
  have haccept : List.Forall₂ (Registry.Acceptable s.registry.order s.registry.functions
      (c.isolate site s).2.world.host.files) [(report, b)] [given] := by
    refine .cons ⟨given, hread, hblack, ?_, Or.inl ⟨hpropagated, rfl⟩⟩ .nil
    simp [hframes]
  have hix : s.registry.Indexed := hs ▸ .empty mode functions
  rcases Registry.order_serveAll_files hix haccept (by simp) (by simp [hs, Registry.empty]) with
    ⟨hindexed, -, -, horder⟩
  rw [← hregistry] at hindexed horder
  have horder' : (c.isolate site s).2.registry.order = [given] := by
    rw [horder, hs]
    rfl
  have hgiven : given.trace = pathTrace bug loc [b] := by
    rcases htr : given.trace with ⟨frames, entry⟩
    rw [htr] at hframes htrace
    cases hframes
    cases htrace
    rfl
  refine ⟨⟨h.inOrder, hindexed, ?_, ?_⟩, [[b]], by simp, ?_, ?_⟩
  · intro e he
    rw [horder', List.mem_singleton] at he
    rw [he, htrace, hentry]
  · intro e he
    rw [horder', List.mem_singleton] at he
    rw [he, hreport]
    exact ⟨hending, hheld⟩
  · intro p
    constructor
    · intro hp
      rw [List.mem_singleton.mp hp]
      exact ⟨.start, trivial⟩
    · rintro ⟨hpath, hearly⟩
      cases hpath with
      | start => exact List.mem_singleton_self _
      | caller => exact absurd hearly (Nat.not_lt_zero _)
  · rw [horder']
    simp [hgiven]

/-! ## The whole campaign -/

/-- Where the second phase stands before batch `k`: as long as there was no clash, the registered
errors are along early paths; after the first clash there is an error out of place. -/
structure Progress (c : Campaign) (site : Site) (g : CallGraph) (b : String) (bug : Frame)
    (loc : Call → String) (k : Nat) (s : State) : Prop where
  settled : Settled site s
  served : ∃ mode functions qs, s.registry = (Registry.empty mode functions).serveAll qs
  course :
    ((∀ i < k, ∀ batch, (g.batches c.options.removeMain)[i]? = some batch →
        ¬ Clash site g b batch) ∧ Follows c g b bug loc k s.registry) ∨
      ((∃ batch ∈ g.batches c.options.removeMain, Clash site g b batch) ∧ Misplaced s.registry)

theorem Progress.handles (hplain : Plain (CallGraph.ofInfo info) c.options.removeMain)
    (hacyclic : Acyclic (CallGraph.ofInfo info).nodes) (hbug : bug.function = b) {k : Nat}
    {batch : List Call} {s s' : State}
    (h : Progress c site (CallGraph.ofInfo info) b bug loc k s)
    (hbatch : ((CallGraph.ofInfo info).batches c.options.removeMain)[k]? = some batch)
    (hhandles : Handles c site cutoff loc batch s s') :
    Progress c site (CallGraph.ofInfo info) b bug loc (k + 1) s' := by
  refine ⟨hhandles.settled, ?_, ?_⟩
  · rcases h.served with ⟨mode, functions, qs, hserved⟩
    rcases hhandles.served with ⟨qs', hserved'⟩
    refine ⟨mode, functions, qs ++ qs', ?_⟩
    rw [hserved', hserved]
    simp [Registry.serveAll]
  · rcases h.course with ⟨hnone, hfollows⟩ | ⟨hclash, hmisplaced⟩
    · by_cases hclash : Clash site (CallGraph.ofInfo info) b batch
      · have hmem := List.mem_of_getElem? hbatch
        exact Or.inr ⟨⟨batch, hmem, hclash⟩,
          hfollows.misplaced hplain hacyclic hbug h.settled hbatch hclash hhandles⟩
      · refine Or.inl ⟨?_, hfollows.handles hplain hacyclic hbug h.settled hbatch hclash hhandles⟩
        intro i hi batch' hbatch'
        by_cases hik : i = k
        · subst hik
          rw [hbatch] at hbatch'
          cases hbatch'
          exact hclash
        · exact hnone i (by omega) batch' hbatch'
    · exact Or.inr ⟨hclash, hmisplaced.handles hhandles⟩

/-- What the second phase has come to once all batches are handled. -/
theorem Progress.complete (hplain : Plain (CallGraph.ofInfo info) c.options.removeMain)
    (hacyclic : Acyclic (CallGraph.ofInfo info).nodes) (hbug : bug.function = b) {s : State}
    (h : Progress c site (CallGraph.ofInfo info) b bug loc
      ((CallGraph.ofInfo info).batches c.options.removeMain).length s) :
    let nodes := (CallGraph.ofInfo info).nodes
    let NoClash := ∀ batch ∈ (CallGraph.ofInfo info).batches c.options.removeMain,
      ¬ Clash site (CallGraph.ofInfo info) b batch
    (Complete nodes b bug loc s.registry ↔ NoClash) ∧
      (NoClash → ∀ frames, frames ∈ s.registry.chains.map (·.trace.frames) ↔
        ∃ p, CallPath nodes b p ∧ (∀ f, ¬ Calls nodes f (outermost p)) ∧
          frames = pathFrames bug loc p) := by
  intro nodes NoClash
  rcases h.course with ⟨hnone, hfollows⟩ | ⟨⟨batch, hmem, hclash⟩, hmisplaced⟩
  · rcases hfollows.lists hplain hacyclic with ⟨ps, hlists⟩
    have hno : NoClash := by
      intro batch hmem
      rcases List.mem_iff_getElem?.mp hmem with ⟨i, hi⟩
      exact hnone i (List.getElem?_eq_some_iff.mp hi).1 batch hi
    refine ⟨⟨fun _ => hno, fun _ => hlists.complete hbug h.settled.entries⟩, ?_⟩
    -- The traces are different, so the chains are those of the maximal ones.
    intro _ frames
    rcases h.served with ⟨mode, functions, qs, hserved⟩
    have htells : s.registry.TellsApart := fun _ => hlists.traces_nodup hbug
    rw [← hlists.isMaximal_iff hbug frames]
    rw [hserved] at htells ⊢
    exact Registry.mem_chain_frames_iff (Registry.chainsSound_serveAll mode functions qs)
      (Registry.separate_serveAll mode functions qs htells) frames
  · have hclashes : ¬ NoClash := fun hno => hno batch hmem hclash
    refine ⟨⟨fun hcomplete => ?_, fun hno => absurd hno hclashes⟩, fun hno => absurd hno hclashes⟩
    exact absurd hcomplete (hmisplaced.not_complete hbug)

/-- Errors are found along all call paths exactly if no two calls that have errors of different
functions to offer share an image. -/
theorem propagate_complete_iff (c : Campaign) (site : Site) (w : World) (deadline : Option Int)
    (info : List (String × NodeInfo)) (b l : String) (loc : Call → String)
    (hgraph : site.graph = (CallGraph.ofInfo info).withReported (CallGraph.ofInfo info).groups)
    (hacyclic : Acyclic (CallGraph.ofInfo info).nodes)
    (hplain : Plain (CallGraph.ofInfo info) c.options.removeMain)
    (hnames : ∀ f ∈ (CallGraph.ofInfo info).nodes.map (·.name), '.' ∉ f.toList)
    (hb : b ∈ (CallGraph.ofInfo info).nodes.map (·.name))
    (htools : c.toolchain.Reliable site.dir)
    (hfirst : FindsOne c site { c.begin site w with deadline := deadline } b ⟨b, l⟩)
    (hbacked :
      let s := (c.isolate site { c.begin site w with deadline := deadline }).2
      BackedAll c site (s.world.host.cutoff s.deadline) loc 0
        (site.graph.batches c.options.removeMain) (c.entering site s)) :
    let nodes := (CallGraph.ofInfo info).nodes
    let out := c.propagate site (c.isolate site { c.begin site w with deadline := deadline }).2
    out.1 = .ok () ∧
    (Complete nodes b ⟨b, l⟩ loc out.2.registry ↔
      ∀ batch ∈ site.graph.batches c.options.removeMain,
        ¬ Clash site (CallGraph.ofInfo info) b batch) ∧
    ((∀ batch ∈ site.graph.batches c.options.removeMain,
        ¬ Clash site (CallGraph.ofInfo info) b batch) →
      ∀ frames, frames ∈ out.2.registry.chains.map (·.trace.frames) ↔
        ∃ p, CallPath nodes b p ∧ (∀ f, ¬ Calls nodes f (outermost p)) ∧
          frames = pathFrames ⟨b, l⟩ loc p) := by
  have hbug : (⟨b, l⟩ : Frame).function = b := rfl
  have hsame : site.graph = CallGraph.ofInfo info :=
    hgraph.trans (CallGraph.withReported_groups info)
  rcases hfirst.follows (hnames b hb) rfl (CallGraph.ofInfo info) loc with ⟨hsettled, hfollows⟩
  have hcalm := hfirst.calm
  have hserved := registry_isolate hfirst.ok
  generalize (c.isolate site { c.begin site w with deadline := deadline }).2 = s₁ at *
  intro nodes out
  have hstart : Progress c site (CallGraph.ofInfo info) b ⟨b, l⟩ loc 0 (c.entering site s₁) := by
    refine ⟨⟨hsettled.inOrder, hsettled.indexed, hsettled.entries, hsettled.held⟩,
      ⟨_, _, _, hserved⟩, Or.inl ⟨?_, hfollows⟩⟩
    intro i hi
    exact absurd hi (Nat.not_lt_zero i)
  rw [hsame] at hbacked ⊢
  -- Every caller of a batch is a function of the graph.
  have hcallers : ∀ batch ∈ (CallGraph.ofInfo info).batches c.options.removeMain,
      ∀ call ∈ batch, '.' ∉ call.caller.toList := by
    intro batch hmem call hcall
    rcases List.mem_iff_getElem?.mp hmem with ⟨i, hi⟩
    have hplaced := (CallGraph.placedAt_iff_rank hacyclic).mp ⟨batch, hi, hcall⟩
    have hcalls := (hplain.mem_eligibleCallees_iff hacyclic).mp hplaced.1
    exact hnames _ hcalls.caller_known
  have hstep : ∀ (i : Nat) batch s s',
      ((CallGraph.ofInfo info).batches c.options.removeMain)[i]? = some batch → Settled site s →
        Handles c site (s₁.world.host.cutoff s₁.deadline) loc batch s s' →
          Progress c site (CallGraph.ofInfo info) b ⟨b, l⟩ loc (0 + i) s →
            Progress c site (CallGraph.ofInfo info) b ⟨b, l⟩ loc (0 + i + 1) s' := by
    intro i batch s s' hi _ hhandles hprogress
    rw [Nat.zero_add] at hprogress ⊢
    exact hprogress.handles hplain hacyclic hbug hi hhandles
  rcases propagateAll_induction htools _ 0 (c.entering site s₁) hstart.settled hcalm hcallers
    hbacked hstart hstep with ⟨s₂, hall, hprogress⟩
  rw [Nat.zero_add] at hprogress
  rw [← hsame] at hall
  rcases propagate_of_propagateAll hall with ⟨hok, hregistry⟩
  have hcomplete := hprogress.complete hplain hacyclic hbug
  rw [← hregistry] at hcomplete
  exact ⟨hok, hcomplete⟩

end Campaign

/-! ## A program of two functions -/

namespace Campaign.Sample

open CallGraph (Calls CallPath Plain Acyclic)

/-- What a run leaves: one report of `b` in isolation, and for a call what is prepended. -/
def output (journal : List Deed) (r : SymbolicRun) : List (String × String) :=
  if r.target == "" then
    if r.function == "b" then [("b.ptr.err", "Error: e\nStack:\n#0 in b () at p:b\nInfo:\n")] else []
  else
    (CampaignScript.prepended journal r.image).zipIdx.map fun (report, i) =>
      (Decimal.ofNat i ++ ".macke.err",
        "Error: ERROR FROM " ++ report ++ "\nStack:\n#0 in " ++ r.target ++ " () at p:" ++
          r.target ++ "\n#1 in " ++ r.function ++ " () at p:" ++ r.function ++ "\nInfo:\n")

def result (journal : List Deed) (r : SymbolicRun) : Result :=
  { Executor.blankResult r with
    errorFiles := (output journal r).map fun file => Path.join [r.outDir, file.1] }

def filesAfter (journal : List Deed) (r : SymbolicRun) (t : FileTree) : FileTree :=
  let reports := (output journal r).map fun file => (file.1, Entry.file file.2 false)
  { t with root := Entry.insert (.dir reports) (t.place r.outDir) t.root }

def campaign : Campaign :=
  { config := Config.default
    options := {}
    toolchain :=
      { extract := fun _ h => (.ok [], h)
        list := fun _ h => (.ok [], h)
        transform := fun _ h => (.ok (), h) }
    explore := fun journal r h =>
      (.returned (result journal r), { h with files := filesAfter journal r h.files })
    limit := 1 }

def info : List (String × NodeInfo) := [("a", { calls := ["b"] }), ("b", {})]

def graph : CallGraph :=
  { nodes := [⟨"a", ["b"], [], false, false⟩, ⟨"b", [], ["a"], false, false⟩]
    topology := [⟨["b"], false⟩, ⟨["a"], false⟩] }

def site : Site :=
  { dir := { parent := "/", root := "/r" }
    graph := graph
    start := 0
    fuzzer := campaign.fuzzer { parent := "/", root := "/r" } }

def world : World :=
  { host :=
      { files :=
          { root := .dir [("r", .dir
              [("bitcode", .dir [("program.bc", .file "BC" false)]), ("klee", .dir [])])]
            cwd := [] }
        programs := fun _ t _ => { files := t } }
    pool := GroupPool.ofConfig Config.default 1 }

def loc (call : Call) : String := "p:" ++ call.caller

-- The states of the campaign are kept folded, as they are only to be evaluated by the kernel.

@[irreducible] def isolated : State :=
  (campaign.isolate site { campaign.begin site world with deadline := none }).2

def report : String := "/r/klee/klee-out-1/b.ptr.err"

def edge : Edge := ⟨⟨"a", "b"⟩, [report], site.dir.edgeImage "a" "b"⟩

def relayed : String := "/r/klee/klee-out-3/0.macke.err"

@[irreducible] def built : World :=
  (campaign.buildImages site 0 [edge] (campaign.entering site isolated).world).2

@[irreducible] def reservation : String × World := built.reserve site.dir (edgeRecord edge)

@[irreducible] def laterFiles : FileTree :=
  filesAfter reservation.2.journal (campaign.edgeRun edge reservation.1) reservation.2.host.files

def cutoff : Host.Cutoff := isolated.world.host.cutoff isolated.deadline

set_option maxRecDepth 100000

theorem isolated_spec :
    (campaign.isolate site { campaign.begin site world with deadline := none }).1.toBool = true ∧
      isolated.world.InOrder site.dir ∧
      (cutoff.reached? isolated.world.host).isNone = true ∧
      reportsOf isolated.phaseOne = [(report, "b")] ∧
      (∃ text, isolated.world.host.files.Holds report text) ∧
      (Report.read isolated.world.host.files report "b"
          (campaign.begin site world).registry.functions).toOption.map
        (fun g => (g.isBlacklisted, g.isPropagated, g.trace.frames)) =
          some (false, false, [⟨"b", "p:b"⟩]) ∧
      (campaign.offers isolated.registry ⟨"a", "b"⟩).map (·.report) = [report] := by
  decide +kernel

theorem relayed_spec :
    (result reservation.2.journal (campaign.edgeRun edge reservation.1)).errorFiles = [relayed] ∧
      CampaignScript.prepended reservation.2.journal edge.image = [report] ∧
      (reservation.2.host.files.root.at?
        (reservation.2.host.files.place reservation.1)).isNone = true ∧
      (reservation.2.host.files.root.at?
        (reservation.2.host.files.place relayed)).isNone = true ∧
      laterFiles.Replaceable (site.dir.path "klee.json") ∧
      (∃ text, laterFiles.Holds relayed text) ∧
      (Report.read laterFiles relayed "a" isolated.registry.functions).toOption.map
        (fun g => (g.isBlacklisted, g.seed, g.trace.frames)) =
          some (false, report, [⟨"b", "p:b"⟩, ⟨"a", "p:a"⟩]) ∧
      (cutoff.reached? built.host).isNone = true ∧
      (cutoff.reached? reservation.2.host).isNone = true ∧
      (cutoff.reached? (reservation.2.host.becoming
        { reservation.2.host with files := laterFiles })).isNone = true := by
  decide +kernel

theorem isolate_snd :
    (campaign.isolate site { campaign.begin site world with deadline := none }).2 = isolated := by
  delta isolated
  exact rfl

theorem findsOne :
    FindsOne campaign site { campaign.begin site world with deadline := none } "b"
      ⟨"b", "p:b"⟩ := by
  rcases isolated_spec with ⟨hok, hin, hcalm, hreports, hheld, hread, -⟩
  exact findsOne_of isolate_snd hok hin hcalm hreports hheld hread

theorem edges_of {r : Registry}
    (hoffers : (campaign.offers r ⟨"a", "b"⟩).map (·.report) = [report]) :
    campaign.edges site r [⟨"a", "b"⟩] = [edge] := by
  have hprepend : r.toPrepend "a" "b" campaign.options.excludeKnown = [report] := by
    change Registry.sorted ((campaign.offers r ⟨"a", "b"⟩).map (·.report)) = _
    rw [hoffers]
    exact List.mergeSort_singleton report
  simp only [edges, List.map_cons, List.map_nil, hprepend]
  rfl

/-- The run of the call does what is asked of it where its directory is free. -/
theorem answers_of {w : World} {fns : FunctionSet} {outDir : String} {later : FileTree}
    (hlater : later = filesAfter w.journal (campaign.edgeRun edge outDir) w.host.files)
    (hfiles : (result w.journal (campaign.edgeRun edge outDir)).errorFiles = [relayed])
    (hprepended : CampaignScript.prepended w.journal edge.image = [report])
    (hfree : (w.host.files.root.at? (w.host.files.place outDir)).isNone = true)
    (hnew : (w.host.files.root.at? (w.host.files.place relayed)).isNone = true)
    (hindex : later.Replaceable (site.dir.path "klee.json"))
    (hheld : ∃ text, later.Holds relayed text)
    (hread : (Report.read later relayed "a" fns).toOption.map
        (fun g => (g.isBlacklisted, g.seed, g.trace.frames)) =
          some (false, report, [⟨"b", "p:b"⟩, ⟨"a", "p:a"⟩])) :
    Answers site loc fns w edge (result w.journal (campaign.edgeRun edge outDir))
      { w.host with files := later } := by
  rcases Except.exists_of_toOption_map hread with ⟨given, hgiven, hdata⟩
  simp only [Prod.mk.injEq] at hdata
  rcases hdata with ⟨hblack, hseed, hframes⟩
  have hrelays : Relays loc fns later ⟨"a", "b"⟩ report relayed :=
    ⟨hheld, by decide +kernel, given, "p:b", hgiven, hblack, hseed, hframes⟩
  refine ⟨⟨rfl, ?_, [relayed], ?_, ?_⟩, ?_, ?_, hindex⟩
  · rw [hfiles]
    exact List.nodup_singleton relayed
  · rw [hfiles]
  · rw [hprepended]
    exact .cons hrelays .nil
  · rw [hfiles]
    intro p hp
    rw [List.mem_singleton.mp hp]
    exact Option.isNone_iff_eq_none.mp hnew
  · rw [hlater]
    exact FileTree.keeps_insert (Option.isNone_iff_eq_none.mp hfree) _

theorem batches_eq : site.graph.batches campaign.options.removeMain = [[⟨"a", "b"⟩]] := by
  decide +kernel

/-- All that the second phase relies on is the run of the call. -/
theorem backedAll_of {s : State} {cutoff : Host.Cutoff} {w w₁ : World} {outDir : String}
    {later : FileTree} (hedges : campaign.edges site s.registry [⟨"a", "b"⟩] = [edge])
    (hw : (campaign.buildImages site 0 [edge] s.world).2 = w)
    (hreserve : w.reserve site.dir (edgeRecord edge) = (outDir, w₁))
    (hlater : later = filesAfter w₁.journal (campaign.edgeRun edge outDir) w₁.host.files)
    (hanswers : Answers site loc s.registry.functions w₁ edge
      (result w₁.journal (campaign.edgeRun edge outDir)) { w₁.host with files := later })
    (hcalm : (cutoff.reached? w.host).isNone = true)
    (hcalm₁ : (cutoff.reached? w₁.host).isNone = true)
    (hcalm₂ : (cutoff.reached? (w₁.host.becoming { w₁.host with files := later })).isNone = true) :
    BackedAll campaign site cutoff loc 0 [[⟨"a", "b"⟩]] s := by
  -- The run of the call is known, whatever leads to it.
  have hexplore : campaign.explore w₁.journal (campaign.edgeRun edge outDir) w₁.host =
      (.returned (result w₁.journal (campaign.edgeRun edge outDir)),
        { w₁.host with files := later }) := by
    rw [hlater]
    rfl
  refine ⟨?_, trivial⟩
  unfold Backed
  rw [hedges]
  intro es _
  change Supported campaign site cutoff loc s.registry.functions 0 [edge]
    (campaign.buildImages site 0 [edge] s.world).2
  rw [hw]
  exact supported_of_alone rfl hreserve hexplore hanswers (Option.isNone_iff_eq_none.mp hcalm)
    (Option.isNone_iff_eq_none.mp hcalm₁) (Option.isNone_iff_eq_none.mp hcalm₂)

theorem backedAll : BackedAll campaign site cutoff loc 0
    (site.graph.batches campaign.options.removeMain) (campaign.entering site isolated) := by
  rcases isolated_spec with ⟨-, -, -, -, -, -, hoffers⟩
  rcases relayed_spec with
    ⟨hfiles, hprepended, hfree, hnew, hindex, hheld, hread, hcalm, hcalm₁, hcalm₂⟩
  have hw : (campaign.buildImages site 0 [edge] (campaign.entering site isolated).world).2 = built := by
    delta built
    exact rfl
  have hreserve : built.reserve site.dir (edgeRecord edge) = reservation := by
    delta reservation
    exact rfl
  have hlater : laterFiles = filesAfter reservation.2.journal
      (campaign.edgeRun edge reservation.1) reservation.2.host.files := by
    delta laterFiles
    exact rfl
  rw [← registry_entering campaign site] at hoffers hread
  -- What the run answers is read off the files it leaves.
  have hanswers := answers_of hlater hfiles hprepended hfree hnew hindex hheld hread
  rw [batches_eq]
  exact backedAll_of (edges_of hoffers) hw (hreserve.trans Prod.mk.eta.symm) hlater hanswers hcalm
    hcalm₁ hcalm₂

theorem nodes_eq : (CallGraph.ofInfo info).nodes = graph.nodes := by
  cbv

theorem graph_eq : site.graph =
    (CallGraph.ofInfo info).withReported (CallGraph.ofInfo info).groups := by
  cbv

theorem calls_eq {f g : String} (hcall : Calls (CallGraph.ofInfo info).nodes f g) :
    f = "a" ∧ g = "b" := by
  rw [nodes_eq] at hcall
  have hf := hcall.caller_known
  simp only [graph, List.map_cons, List.map_nil, List.mem_cons, List.not_mem_nil, or_false] at hf
  rcases hf with rfl | rfl
  · exact ⟨rfl, List.mem_singleton.mp hcall⟩
  · cases hcall

theorem acyclic : Acyclic (CallGraph.ofInfo info).nodes := by
  intro f hloop
  rcases Relation.TransGen.head'_iff.mp hloop with ⟨g, hfirst, -⟩
  rcases Relation.TransGen.tail'_iff.mp hloop with ⟨g', -, hlast⟩
  have hsame := (calls_eq hfirst).1.symm.trans (calls_eq hlast).2
  exact absurd hsame (by decide)

theorem plain : Plain (CallGraph.ofInfo info) campaign.options.removeMain := by
  constructor <;> rw [nodes_eq] <;> decide

theorem reliable : campaign.toolchain.Reliable site.dir := by
  refine ⟨fun _ _ _ => rfl, ?_, fun _ h _ => .refl h.files, fun _ _ _ hindex => hindex⟩
  intro p h hstopped
  exact (Bool.or_eq_false_iff.mp hstopped).1

theorem not_clash {batch : List Call} (hmem : batch ∈ site.graph.batches campaign.options.removeMain) :
    ¬ Clash site (CallGraph.ofInfo info) "b" batch := by
  rw [batches_eq] at hmem
  rintro ⟨x, hx, y, hy, hne, -⟩
  rw [List.mem_singleton.mp hmem] at hx hy
  rw [List.mem_singleton.mp hx, List.mem_singleton.mp hy] at hne
  exact hne rfl

/-! ## Two calls that share an image -/

/-- Both `a` and `a-d` call a function that calls `b`. -/
def sharedInfo : List (String × NodeInfo) :=
  [("a", { calls := ["d-c"] }), ("a-d", { calls := ["c"] }), ("b", {}),
    ("c", { calls := ["b"] }), ("d-c", { calls := ["b"] })]

def shared : CallGraph :=
  { nodes := [⟨"a", ["d-c"], [], false, false⟩, ⟨"a-d", ["c"], [], false, false⟩,
      ⟨"b", [], ["c", "d-c"], false, false⟩, ⟨"c", ["b"], ["a-d"], false, false⟩,
      ⟨"d-c", ["b"], ["a"], false, false⟩]
    topology := [⟨["b"], false⟩, ⟨["c"], false⟩, ⟨["a-d"], false⟩, ⟨["d-c"], false⟩,
      ⟨["a"], false⟩] }

def sharedSite : Site := { site with graph := shared }

/-- The state of the campaign after both phases. -/
def sharedOutcome : Except Failure Unit × State :=
  campaign.propagate sharedSite
    (campaign.isolate sharedSite { campaign.begin sharedSite world with deadline := none }).2

theorem shared_nodes_eq : (CallGraph.ofInfo sharedInfo).nodes = shared.nodes := by
  cbv

theorem shared_eq :
    shared = (CallGraph.ofInfo sharedInfo).withReported (CallGraph.ofInfo sharedInfo).groups := by
  cbv

theorem shared_batches_eq : shared.batches campaign.options.removeMain =
    [[⟨"c", "b"⟩, ⟨"d-c", "b"⟩], [⟨"a-d", "c"⟩, ⟨"a", "d-c"⟩]] := by
  decide +kernel

theorem shared_clash :
    Clash sharedSite (CallGraph.ofInfo sharedInfo) "b" [⟨"a-d", "c"⟩, ⟨"a", "d-c"⟩] := by
  have hpath : ∀ f, "b" ∈ CallGraph.callsIn shared.nodes f →
      ∃ p, CallPath (CallGraph.ofInfo sharedInfo).nodes "b" (f :: p) := by
    intro f hcall
    rw [shared_nodes_eq]
    exact ⟨["b"], .caller hcall .start⟩
  exact ⟨⟨"a-d", "c"⟩, by decide, ⟨"a", "d-c"⟩, by decide, by decide, by decide +kernel,
    hpath "c" (by decide), hpath "d-c" (by decide)⟩

/-- The image is that of `d-c` when the errors of `c` are to be offered to `a-d`. -/
theorem shared_misplaced :
    sharedOutcome.1.toBool = true ∧ ∃ e ∈ sharedOutcome.2.registry.order,
      e.trace.frames.getLast?.map (·.function) ≠ some e.entry := by
  decide +kernel

theorem propagate_complete_iff_two :
    (let out := campaign.propagate site
      (campaign.isolate site { campaign.begin site world with deadline := none }).2
    out.1 = .ok () ∧
      Complete (CallGraph.ofInfo info).nodes "b" ⟨"b", "p:b"⟩ loc out.2.registry) ∧
    sharedSite.graph =
        (CallGraph.ofInfo sharedInfo).withReported (CallGraph.ofInfo sharedInfo).groups ∧
      sharedOutcome.1 = .ok () ∧
      (∃ batch ∈ sharedSite.graph.batches campaign.options.removeMain,
        Clash sharedSite (CallGraph.ofInfo sharedInfo) "b" batch) ∧
      ¬ Complete (CallGraph.ofInfo sharedInfo).nodes "b" ⟨"b", "p:b"⟩ loc
        sharedOutcome.2.registry := by
  have hnames : ∀ f ∈ (CallGraph.ofInfo info).nodes.map (·.name), '.' ∉ f.toList := by
    rw [nodes_eq]
    decide
  have hb : "b" ∈ (CallGraph.ofInfo info).nodes.map (·.name) := by
    rw [nodes_eq]
    decide
  have hall := propagate_complete_iff campaign site world none info "b" "p:b" loc graph_eq acyclic
    plain hnames hb reliable findsOne
  rw [isolate_snd] at hall ⊢
  rcases hall backedAll with ⟨hok, hiff, -⟩
  rcases shared_misplaced with ⟨hshared, hmisplaced⟩
  refine ⟨⟨hok, hiff.mpr fun _ hmem => not_clash hmem⟩, shared_eq, eq_ok_of_toBool hshared,
    ⟨_, ?_, shared_clash⟩, ?_⟩
  · exact shared_batches_eq ▸ by simp
  · exact Misplaced.not_complete hmisplaced rfl

end Campaign.Sample
end FaultChain
