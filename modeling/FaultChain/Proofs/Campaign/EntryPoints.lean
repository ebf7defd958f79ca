import FaultChain.Proofs.CallGraph.Isolable
import FaultChain.Proofs.Campaign.Quiet
import FaultChain.Proofs.Campaign.Registration

/-!
# Entry points

No function but `main` is run before its entry point was added. The entry points are added one after
another, and this may end early, as an order to stop or the deadline intervenes; then nothing is run
at all, neither in the first phase nor in the second.

* `Campaign.Enterable`: a function that can be run.
* `Campaign.encapsulateAll_enterable`: all entry points are added, or it is late.
* `Campaign.isolate_advances`, `Campaign.propagate_advances`: what the phases run.
* `Campaign.run_guarded`: the main statement.
-/

namespace FaultChain
namespace Campaign

variable {c : Campaign} {site : Site}

/-! ## Functions that can be run -/

/-- The deed of adding an entry point for a function. -/
def entryPoint (dir : RunDir) (f : String) : Deed :=
  .passed (.encapsulate dir.symMains f dir.symMains) true

/-- A function that can be run: `main`, or one whose entry point was added. -/
def Enterable (dir : RunDir) (journal : List Deed) (f : String) : Prop :=
  f = CallGraph.mainFunction ∨ entryPoint dir f ∈ journal

theorem Enterable.append {dir : RunDir} {journal : List Deed} {f : String}
    (h : Enterable dir journal f) (deeds : List Deed) : Enterable dir (journal ++ deeds) f :=
  h.imp id (List.mem_append_left _)

theorem Enterable.advances {dir : RunDir} {P : String → Prop} {w w' : World} {f : String}
    (h : Enterable dir w.journal f) (hadv : w.Advances P w') : Enterable dir w'.journal f := by
  rcases hadv.journal with ⟨deeds, hjournal, -⟩
  rw [hjournal]
  exact h.append deeds

/-- Each run of a journal is one of a function that could be run by then. -/
def Guarded (dir : RunDir) (journal : List Deed) : Prop :=
  ∀ before run after, journal = before ++ .explored run :: after →
    Enterable dir before run.function

/-- What is added to a journal stays guarded while only enterable functions are run. -/
theorem Guarded.advances {dir : RunDir} {w w' : World} (h : Guarded dir w.journal)
    (hadv : w.Advances (Enterable dir w.journal) w') : Guarded dir w'.journal := by
  rcases hadv.journal with ⟨deeds, hjournal, hdeeds⟩
  intro before run after heq
  rw [hjournal] at heq
  rcases List.append_eq_append_iff.mp heq with ⟨rest, rfl, hrest⟩ | ⟨rest, hold, hrest⟩
  · -- The run is one of those added.
    have hrun : Deed.explored run ∈ deeds := by
      rw [hrest]
      exact List.mem_append_right _ List.mem_cons_self
    exact (hdeeds run hrun).append rest
  · cases rest with
    | nil =>
      have hrun : Deed.explored run ∈ deeds := by
        rw [← List.nil_append deeds, ← hrest]
        exact List.mem_cons_self
      rw [List.append_nil] at hold
      exact hold ▸ hdeeds run hrun
    | cons d rest =>
      cases hrest
      exact h before run rest hold

/-- While nothing is run a journal stays guarded. -/
theorem Guarded.idle {dir : RunDir} {w w' : World} (h : Guarded dir w.journal)
    (hadv : w.Advances (fun _ => False) w') : Guarded dir w'.journal :=
  h.advances (hadv.mono fun _ => False.elim)

/-! ## Adding entry points -/

/-- Nothing is run while entry points are added. -/
theorem advances_encapsulateAll {cutoff : Host.Cutoff} {fs : List String} {w w' : World}
    {r : Except Failure Unit} (hout : c.encapsulateAll site cutoff fs w = (r, w')) :
    w.Advances (fun _ => False) w' :=
  Permits.of_eq ((permits_advances c _).encapsulateAll cutoff fs w) hout

/-- In the end all functions can be run, unless it is late. -/
theorem encapsulateAll_enterable {h₀ : Host} {deadline : Option Int} (fs : List String)
    {w w' : World} (hle : h₀.Precedes w.host)
    (hout : c.encapsulateAll site (h₀.cutoff deadline) fs w = (.ok (), w')) :
    w'.host.IsLate deadline ∨ ∀ f ∈ fs, Enterable site.dir w'.journal f := by
  induction fs generalizing w with
  | nil => exact Or.inr nofun
  | cons f fs ih =>
    unfold encapsulateAll at hout
    split at hout
    · rename_i hmain
      refine (ih hle hout).imp id fun hfs => ?_
      exact List.forall_mem_cons.mpr ⟨Or.inl (by simpa using hmain), hfs⟩
    · split at hout
      · rename_i hreached
        cases hout
        exact Or.inl ((Host.reached?_isSome_iff hle).mp hreached)
      · let p : Pass := .encapsulate site.dir.symMains f site.dir.symMains
        have hadv : w.Advances (fun _ => False) (w.pass p (c.toolchain.transform p)).2 :=
          w.advances_pass p _
        dsimp only at hout
        split at hout
        · rename_i w₁ hpass
          rw [hpass] at hadv
          refine (ih (hle.trans hadv.host) hout).imp id fun hfs => ?_
          -- The pass for the first function is in the journal.
          have hentry : Enterable site.dir w₁.journal f := by
            right
            have hjournal := congrArg (·.2.journal) hpass
            have hok : (c.toolchain.transform p w.host).1 = .ok () := congrArg (·.1) hpass
            simp only [World.pass, World.onHost, World.note, World.withHost] at hjournal
            rw [← hjournal, hok]
            exact List.mem_append_right _ List.mem_cons_self
          exact List.forall_mem_cons.mpr ⟨hentry.advances (advances_encapsulateAll hout), hfs⟩
        · rename_i why w₁ hpass
          split at hout
          · rename_i hcanceled
            cases hout
            exact Or.inl (Or.inl hcanceled)
          · cases hout

/-! ## The first phase -/

theorem analyzeAll_advances {h₀ : Host} {deadline : Option Int} {P : String → Prop}
    {fs : List String} {s : State} (hle : h₀.Precedes s.world.host)
    (hP : s.world.host.IsLate deadline ∨ ∀ f ∈ fs, P f) :
    s.world.Advances P (c.analyzeAll site (h₀.cutoff deadline) fs s).world := by
  unfold analyzeAll
  dsimp only
  rw [world_register]
  apply runBatch_advances hle
  refine hP.imp id ?_
  intro hfs t ht
  rcases List.mem_map.mp ht with ⟨f, hf, rfl⟩
  exact steps_analysis (hfs f hf)

/-- The first phase runs only functions that can be run since the entry points were added. If it
succeeds all functions can be run afterwards, unless it is late. -/
theorem isolate_advances {s s' : State} {r : Except Failure Unit}
    (hout : c.isolate site s = (r, s')) :
    (∃ w, s.world.Advances (fun _ => False) w ∧
      w.Advances (Enterable site.dir w.journal) s'.world) ∧
    (r = .ok () → s'.deadline = s.deadline ∧ (s'.world.host.IsLate s.deadline ∨
      ∀ f ∈ site.graph.encapsulable c.options.removeMain,
        Enterable site.dir s'.world.journal f)) := by
  unfold isolate at hout
  dsimp only at hout
  have hcopy := s.world.advances_onFiles (P := fun _ => False)
    (RunDir.copyFile site.dir.program site.dir.symMains)
  split at hout
  · rename_i f w hfiles
    cases hout
    exact ⟨⟨_, (Permits.of_eq hcopy hfiles).trans (w.advances_close _), .refl _⟩, nofun⟩
  · rename_i w hfiles
    replace hcopy := Permits.of_eq hcopy hfiles
    split at hout
    · rename_i f w₁ hadded
      have hadv := advances_encapsulateAll hadded
      cases hout
      exact ⟨⟨_, (hcopy.trans hadv).trans (w₁.advances_close _), .refl _⟩, nofun⟩
    · rename_i w₁ hadded
      have hadv := advances_encapsulateAll hadded
      have hall := encapsulateAll_enterable _ hcopy.host hadded
      let fs := site.graph.encapsulable c.options.removeMain
      let s₁ : State := { s with functions := fs, world := w₁ }
      let s₂ := c.analyzeAll site (s.world.host.cutoff s.deadline) fs s₁
      -- The analyses run after the entry points were added.
      have hrun : ∀ span, w₁.Advances (Enterable site.dir w₁.journal) (s₂.close span).world := by
        intro span
        refine World.Advances.trans ?_ (World.advances_close _ span)
        exact analyzeAll_advances (s := s₁) (hcopy.trans hadv).host hall
      cases hout
      refine ⟨⟨w₁, hcopy.trans hadv, hrun _⟩, fun _ => ⟨deadline_register _ _, ?_⟩⟩
      refine hall.imp (fun hlate => hlate.mono (hrun _).host) fun hfs f hf => ?_
      exact (hfs f hf).advances (hrun _)

/-! ## The second phase -/

/-- A call that is propagated along is one of the batch. -/
theorem call_mem_of_mem_edges {r : Registry} {batch : List Call} {e : Edge}
    (he : e ∈ c.edges site r batch) : e.call ∈ batch := by
  rcases List.mem_map.mp (List.mem_filter.mp he).1 with ⟨call, hcall, rfl⟩
  exact hcall

section

variable {h₀ : Host} {deadline : Option Int} {P : String → Prop} {s s' : State}
  {r : Except Failure Unit}

theorem propagateBatch_advances {k : Nat} {batch : List Call}
    (hout : c.propagateBatch site (h₀.cutoff deadline) k batch s = (r, s'))
    (hle : h₀.Precedes s.world.host) (hP : ∀ call ∈ batch, P call.caller) :
    s.world.Advances P s'.world := by
  unfold propagateBatch at hout
  dsimp only at hout
  split at hout
  · cases hout
    exact World.advances_close _ _
  -- Building the images runs no function.
  · have hbuilt : s.world.Advances P
        (c.buildImages site k (c.edges site s.registry batch) s.world).2 :=
      (permits_advances c P).buildImages _ _ _
    split at hout
    · rename_i f w heq
      cases hout
      exact (Permits.of_eq hbuilt heq).trans (w.advances_close _)
    · rename_i w heq
      replace hbuilt := Permits.of_eq hbuilt heq
      cases hout
      refine (hbuilt.trans ?_).trans (World.advances_close _ _)
      unfold runEdges
      dsimp only
      rw [world_register]
      apply runBatch_advances (hle.trans hbuilt.host)
      right
      intro t ht
      rcases List.mem_map.mp ht with ⟨e, he, rfl⟩
      exact steps_edgeTask (hP _ (call_mem_of_mem_edges he))

theorem propagateAll_advances {k : Nat} {batches : List (List Call)}
    (hout : c.propagateAll site (h₀.cutoff deadline) k batches s = (r, s'))
    (hle : h₀.Precedes s.world.host) (hP : s.world.host.IsLate deadline ∨
      ∀ batch ∈ batches, ∀ call ∈ batch, P call.caller) :
    s.world.Advances P s'.world := by
  induction batches generalizing k s with
  | nil =>
    cases hout
    exact .refl _
  | cons batch batches ih =>
    unfold propagateAll at hout
    split at hout
    · cases hout
      exact .refl _
    · rename_i hreached
      -- A batch is only handled while it is not late.
      have hcalls : ∀ batch' ∈ batch :: batches, ∀ call ∈ batch', P call.caller :=
        hP.resolve_left fun hlate => hreached ((Host.reached?_isSome_iff hle).mpr hlate)
      split at hout
      · rename_i f s₁ heq
        cases hout
        exact propagateBatch_advances heq hle (hcalls batch List.mem_cons_self)
      · rename_i u s₁ heq
        have hfirst := propagateBatch_advances heq hle (hcalls batch List.mem_cons_self)
        refine hfirst.trans (ih hout (hle.trans hfirst.host) (Or.inr ?_))
        intro batch' hbatch'
        exact hcalls batch' (List.mem_cons_of_mem _ hbatch')

end

/-- The second phase runs only functions that could be run before it. -/
theorem propagate_advances {s s' : State} {r : Except Failure Unit}
    (htop : CallGraph.IsTopology site.graph.nodes site.graph.groups)
    (hall : s.world.host.IsLate s.deadline ∨
      ∀ f ∈ site.graph.encapsulable c.options.removeMain,
        Enterable site.dir s.world.journal f)
    (hout : c.propagate site s = (r, s')) :
    s.world.Advances (Enterable site.dir s.world.journal) s'.world := by
  unfold propagate at hout
  dsimp only at hout
  generalize hrun : c.propagateAll site _ 0 _ _ = out at hout
  rcases out with ⟨r₁, s₁⟩
  cases hout
  -- Callers in batches can be encapsulated, so they have entry points, or the deadline is over.
  have hcalls : s.world.host.IsLate s.deadline ∨
      ∀ batch ∈ site.graph.batches c.options.removeMain, ∀ call ∈ batch,
        Enterable site.dir s.world.journal call.caller :=
    hall.imp_right fun hfs batch hbatch call hcall =>
      hfs _ (CallGraph.caller_mem_encapsulable htop hbatch hcall)
  have hadv := propagateAll_advances hrun (Host.Precedes.refl _) hcalls
  exact hadv.trans (World.advances_close _ _)

/-! ## The whole -/

/-- An extracted graph has a topology. -/
theorem isTopology_extractGraph {image : String} {w w' : World} {g : CallGraph}
    (hout : c.extractGraph image w = (.ok g, w')) : CallGraph.IsTopology g.nodes g.groups := by
  unfold extractGraph at hout
  split at hout
  · cases hout
  · split at hout
    · cases hout
    · rename_i info _ _ _ graph hgraph
      split at hout
      · cases hout
      · rename_i reported w₂ _
        unfold CallGraph.ofExtracted at hgraph
        split at hgraph
        · cases hgraph
        · cases hgraph
          cases hout
          exact CallGraph.isTopology_withReported info reported

/-- What is set up before the first run: the calls have a topology. -/
def SetUp (p : Prepared) : Prop :=
  ∀ site, p.outcome = .ok site → p.dir = some site.dir ∧
    CallGraph.IsTopology site.graph.nodes site.graph.groups

theorem setUp_prepareIn (d : RunDir) (w : World) : SetUp (c.prepareIn d w) := by
  unfold prepareIn
  dsimp only
  split
  · exact nofun
  · split
    · exact nofun
    · rename_i graph w₂ heq₂
      have htop := isTopology_extractGraph heq₂
      split
      · split
        · exact nofun
        · rintro site ⟨⟩
          exact ⟨rfl, htop⟩
      · rintro site ⟨⟩
        exact ⟨rfl, htop⟩

theorem setUp_prepare (c : Campaign) (h : Host) : SetUp (c.prepare h) := by
  unfold prepare
  dsimp only
  split
  · exact nofun
  · exact setUp_prepareIn _ _

/-- Nothing is run before the first phase. -/
theorem advances_prepare (c : Campaign) (h : Host) :
    World.Advances (fun _ => False) { host := h, pool := GroupPool.ofConfig c.config c.limit }
      (c.prepare h).world :=
  (permits_advances c _).prepare h

/-- A campaign at the beginning of its first phase. -/
def opened (c : Campaign) (p : Prepared) (site : Site) : State :=
  { c.begin site p.world with deadline := c.deadline p.world.host }

/-- A campaign ends with a failure of one of its phases, or comes to a summary. -/
theorem runPhases_cases (c : Campaign) (p : Prepared) (site : Site) :
    (∃ f s, c.isolate site (c.opened p site) = (.error f, s) ∧
      c.runPhases p site = { p.course s with failure := some f }) ∨
    ∃ s₁, c.isolate site (c.opened p site) = (.ok (), s₁) ∧
      ((∃ f s, c.propagate site s₁ = (.error f, s) ∧
        c.runPhases p site = { p.course s with failure := some f }) ∨
      ∃ s₂, c.propagate site s₁ = (.ok (), s₂) ∧
        c.runPhases p site = { p.course (finish site s₂).2.2 with
          summary := some (finish site s₂).1
          failure := (finish site s₂).2.1 }) := by
  have hopened : c.opened p site =
      { c.begin site p.world with deadline := c.deadline p.world.host } := rfl
  unfold runPhases
  dsimp only
  rw [← hopened]
  -- One case for each place at which a phase may fail.
  rcases c.isolate site (c.opened p site) with ⟨f | u, s₁⟩
  · exact Or.inl ⟨f, s₁, rfl, rfl⟩
  · refine Or.inr ⟨s₁, rfl, ?_⟩
    dsimp only
    rcases c.propagate site s₁ with ⟨f | u₂, s₂⟩
    · exact Or.inl ⟨f, s₂, rfl, rfl⟩
    · exact Or.inr ⟨s₂, rfl, rfl⟩

/-- What the phases of a campaign run, from the beginning of the first and from that of the
second. -/
theorem runPhases_advances {p : Prepared} {site : Site}
    (htop : CallGraph.IsTopology site.graph.nodes site.graph.groups) :
    let one := (c.isolate site (c.opened p site)).2.world
    (∃ w, p.world.Advances (fun _ => False) w ∧ w.Advances (Enterable site.dir w.journal) one) ∧
      one.Advances (Enterable site.dir one.journal) (c.runPhases p site).world := by
  intro one
  rcases runPhases_cases c p site with ⟨f, s, hisolate, hrun⟩ | ⟨s₁, hisolate, hsecond⟩
  · have hone : one = s.world := congrArg (·.2.world) hisolate
    rw [hrun, hone]
    exact ⟨(isolate_advances hisolate).1, .refl _⟩
  · have hone : one = s₁.world := congrArg (·.2.world) hisolate
    rcases isolate_advances hisolate with ⟨hfirst, hall⟩
    -- The second phase begins where the first one succeeded, under the same deadline.
    rcases hall rfl with ⟨hdeadline, hlate⟩
    rw [← hdeadline] at hlate
    rw [hone]
    refine ⟨hfirst, ?_⟩
    rcases hsecond with ⟨f, s₂, hpropagate, hrun⟩ | ⟨s₂, hpropagate, hrun⟩
    · rw [hrun]
      exact propagate_advances htop hlate hpropagate
    · rw [hrun]
      exact (propagate_advances htop hlate hpropagate).trans
        ((permits_advances c _).finish site s₂)

theorem dir_runPhases (c : Campaign) (p : Prepared) (site : Site) :
    (c.runPhases p site).dir = p.dir := by
  rcases runPhases_cases c p site with
    ⟨f, s, -, hrun⟩ | ⟨s₁, -, ⟨f, s, -, hrun⟩ | ⟨s, -, hrun⟩⟩
  · rw [hrun]
    rfl
  · rw [hrun]
    rfl
  · rw [hrun]
    rfl

/-- A campaign that is set up goes through its phases. -/
theorem run_of_prepared {h : Host} {site : Site} (hout : (c.prepare h).outcome = .ok site) :
    ∃ span, c.run h =
      { c.runPhases (c.prepare h) site with
        world := (c.runPhases (c.prepare h) site).world.close span } := by
  unfold Campaign.run
  dsimp only
  rw [hout]
  exact ⟨_, rfl⟩

theorem run_of_unprepared {h : Host} {f : Failure} (hout : (c.prepare h).outcome = .error f) :
    ∃ span, c.run h =
      { world := (c.prepare h).world.close span
        dir := (c.prepare h).dir
        graph := (c.prepare h).graph
        failure := some f } := by
  unfold Campaign.run
  dsimp only
  rw [hout]
  exact ⟨_, rfl⟩

/-- No function but `main` is ever run before its entry point was added, and what is run in the
second phase had its entry point before that phase began. -/
theorem run_guarded (c : Campaign) (h : Host) :
    (∀ before run after, (c.run h).world.journal = before ++ .explored run :: after →
      run.function ≠ CallGraph.mainFunction →
        ∃ dir, (c.run h).dir = some dir ∧
          .passed (.encapsulate dir.symMains run.function dir.symMains) true ∈ before) ∧
    ∀ site, (c.prepare h).outcome = .ok site →
      let one := (c.isolate site (c.opened (c.prepare h) site)).2.world
      ∃ deeds records, (c.run h).world.journal = one.journal ++ deeds ∧
        (c.run h).world.index.runs = one.index.runs ++ records ∧
        (∀ run, .explored run ∈ deeds → run.function ≠ CallGraph.mainFunction →
          .passed (.encapsulate site.dir.symMains run.function site.dir.symMains) true ∈
            one.journal) ∧
        ∀ r ∈ records, r.2.starter ≠ CallGraph.mainFunction →
          .passed (.encapsulate site.dir.symMains r.2.starter site.dir.symMains) true ∈
            one.journal := by
  have hset := advances_prepare c h
  cases hout : (c.prepare h).outcome with
  | error f =>
    refine ⟨?_, nofun⟩
    intro before run after heq
    -- Nothing was run while the campaign was set up.
    rcases run_of_unprepared hout with ⟨span, hrun⟩
    rcases hset.journal with ⟨deeds, hdeeds, hnone⟩
    have hjournal : (c.run h).world.journal = deeds :=
      (congrArg (·.world.journal) hrun).trans hdeeds
    have hmem : Deed.explored run ∈ deeds := by
      rw [← hjournal, heq]
      exact List.mem_append_right _ List.mem_cons_self
    exact (hnone run hmem).elim
  | ok site =>
    rcases setUp_prepare c h site hout with ⟨hdir, htop⟩
    rcases run_of_prepared hout with ⟨span, hrun⟩
    have hjournal : (c.run h).world.journal = (c.runPhases (c.prepare h) site).world.journal :=
      congrArg (·.world.journal) hrun
    have hindex : (c.run h).world.index = (c.runPhases (c.prepare h) site).world.index :=
      congrArg (·.world.index) hrun
    have hrunDir : (c.run h).dir = some site.dir :=
      (congrArg Course.dir hrun).trans ((dir_runPhases c _ site).trans hdir)
    rcases runPhases_advances (c := c) (p := c.prepare h) htop with ⟨⟨w, hidle, hone⟩, htwo⟩
    refine ⟨?_, ?_⟩
    · have hnil : Guarded site.dir [] := by
        intro before run after heq
        cases before <;> cases heq
      have hguarded : Guarded site.dir (c.run h).world.journal := by
        rw [hjournal]
        exact (((hnil.idle hset).idle hidle).advances hone).advances htwo
      intro before run after heq hmain
      exact ⟨site.dir, hrunDir, (hguarded before run after heq).resolve_left hmain⟩
    · rintro _ ⟨⟩
      intro one
      rcases htwo.journal with ⟨deeds, hdeeds, hruns⟩
      rcases htwo.index with ⟨records, hrecords, hstarters⟩
      refine ⟨deeds, records, hjournal.trans hdeeds, ?_, ?_, ?_⟩
      · rw [hindex]
        exact hrecords
      · intro run hrun hmain
        exact (hruns run hrun).resolve_left hmain
      · intro r hr hmain
        exact (hstarters r hr).resolve_left hmain

end Campaign
end FaultChain
