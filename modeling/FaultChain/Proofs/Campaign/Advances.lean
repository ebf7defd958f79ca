import FaultChain.Campaign.Isolation
import FaultChain.Campaign.Propagation
import FaultChain.Proofs.Work.Changes

/-!
# What the runs of a campaign change

All that happens in a campaign only adds to its journal and to the index of runs, and neither time
nor an order to stop is taken back. Both analyses of functions and runs of calls are seen in this
way step by step, whatever the backends do.

* `Host.Precedes`: a later moment of a host.
* `World.Advances`: a later moment of a campaign, with the functions that were run in between.
* `Campaign.steps_analysis`, `Campaign.steps_edgeTask`: the tasks of both phases.
* `Campaign.runBatch_advances`: a batch of such tasks.
-/

namespace FaultChain

/-! ## Later moments of a host -/

/-- A later moment of a host: it stays told to stop, and its time does not go back. -/
structure Host.Precedes (h h' : Host) : Prop where
  canceled : h.canceled = true → h'.canceled = true
  wall_le : h.wall ≤ h'.wall

/-- The host was told to stop, or a moment has passed. -/
def Host.IsLate (h : Host) (deadline : Option Int) : Prop :=
  h.canceled = true ∨ deadline.any (· ≤ h.wall) = true

namespace Host

variable {h h' h'' : Host} {deadline : Option Int}

theorem Precedes.refl (h : Host) : h.Precedes h := ⟨id, Int.le_refl _⟩

theorem Precedes.trans (hle : h.Precedes h') (hle' : h'.Precedes h'') : h.Precedes h'' :=
  ⟨fun hc => hle'.canceled (hle.canceled hc), Int.le_trans hle.wall_le hle'.wall_le⟩

theorem precedes_becoming (h later : Host) : h.Precedes (h.becoming later) := by
  constructor
  · intro hc
    simp [becoming, hc]
  · exact Int.le_max_left _ _

/-- What is late stays late. -/
theorem IsLate.mono (hlate : h.IsLate deadline) (hle : h.Precedes h') : h'.IsLate deadline := by
  rcases hlate with hc | hpassed
  · exact Or.inl (hle.canceled hc)
  · right
    cases deadline with
    | none => cases hpassed
    | some moment =>
      have hmoment : moment ≤ h.wall := of_decide_eq_true hpassed
      exact decide_eq_true (Int.le_trans hmoment hle.wall_le)

/-- A cutoff for a deadline is reached once it is late, whenever it was set before. -/
theorem reached?_isSome_iff {h₀ : Host} (hle : h₀.Precedes h) :
    ((h₀.cutoff deadline).reached? h).isSome = true ↔ h.IsLate deadline := by
  by_cases hlate₀ : h₀.IsLate deadline
  · -- The reason was found when the cutoff was set, and holds from then on.
    refine iff_of_true ?_ (hlate₀.mono hle)
    rcases hlate₀ with hc₀ | hd₀
    · simp [cutoff, Cutoff.reached?, hc₀]
    · by_cases hc₀ : h₀.canceled = true <;> simp [cutoff, Cutoff.reached?, hc₀, hd₀]
  · rcases not_or.mp hlate₀ with ⟨hc₀, hd₀⟩
    by_cases hc : h.canceled = true
    · simp [cutoff, Cutoff.reached?, IsLate, hc₀, hd₀, hc]
    · simp [cutoff, Cutoff.reached?, IsLate, hc₀, hd₀, hc]

/-- A host for which no cutoff is reached is not told to stop. -/
theorem canceled_of_not_reached {cutoff : Cutoff}
    (hcalm : cutoff.reached? h = none) : h.canceled = false := by
  unfold Cutoff.reached? at hcalm
  cases hc : h.canceled with
  | false => rfl
  | true =>
    rw [hc] at hcalm
    split at hcalm
    · cases hcalm
    · cases hcalm

end Host

/-! ## Later moments of a campaign -/

/-- The function that the run with a record starts from. -/
def RunRecord.starter (r : RunRecord) : String := if r.callee == "" then r.function else r.caller

/-- What becomes of a campaign: deeds and reserved directories are added, all of them for functions
of which `P` holds. -/
structure World.Advances (P : String → Prop) (w w' : World) : Prop where
  host : w.host.Precedes w'.host
  journal : ∃ deeds, w'.journal = w.journal ++ deeds ∧
    ∀ run, .explored run ∈ deeds → P run.function
  index : ∃ records, w'.index.runs = w.index.runs ++ records ∧ ∀ r ∈ records, P r.2.starter

namespace World

variable {P : String → Prop} {w w' w'' : World}

/-- Nothing is added. -/
theorem Advances.of_same (hhost : w.host.Precedes w'.host) (hjournal : w'.journal = w.journal)
    (hindex : w'.index = w.index) : w.Advances P w' := by
  refine ⟨hhost, ⟨[], ?_, nofun⟩, [], ?_, nofun⟩
  · rw [hjournal, List.append_nil]
  · rw [hindex, List.append_nil]

theorem Advances.refl (w : World) : w.Advances P w := .of_same (.refl _) rfl rfl

theorem Advances.trans ⦃w w' w'' : World⦄ (h : w.Advances P w') (h' : w'.Advances P w'') :
    w.Advances P w'' := by
  rcases h with ⟨hhost, ⟨deeds, hjournal, hdeeds⟩, records, hindex, hrecords⟩
  rcases h' with ⟨hhost', ⟨deeds', hjournal', hdeeds'⟩, records', hindex', hrecords'⟩
  refine ⟨hhost.trans hhost', ⟨deeds ++ deeds', ?_, ?_⟩, records ++ records', ?_, ?_⟩
  · rw [hjournal', hjournal, List.append_assoc]
  · intro run hrun
    rcases List.mem_append.mp hrun with hrun | hrun
    · exact hdeeds run hrun
    · exact hdeeds' run hrun
  · rw [hindex', hindex, List.append_assoc]
  · intro r hr
    rcases List.mem_append.mp hr with hr | hr
    · exact hrecords r hr
    · exact hrecords' r hr

theorem Advances.mono {P' : String → Prop} (h : w.Advances P w')
    (hP : ∀ f, P f → P' f) : w.Advances P' w' := by
  rcases h with ⟨hhost, ⟨deeds, hjournal, hdeeds⟩, records, hindex, hrecords⟩
  exact ⟨hhost, ⟨deeds, hjournal, fun run hrun => hP _ (hdeeds run hrun)⟩,
    records, hindex, fun r hr => hP _ (hrecords r hr)⟩

theorem advances_withFiles (w : World) (files : FileTree) : w.Advances P (w.withFiles files) :=
  .of_same ⟨id, Int.le_refl _⟩ rfl rfl

theorem advances_onFiles {α : Type} (w : World) (f : FileTree → α × FileTree) :
    w.Advances P (w.onFiles f).2 :=
  w.advances_withFiles _

theorem advances_onHost {α : Type} (w : World) (f : Host → α × Host) :
    w.Advances P (w.onHost f).2 :=
  .of_same (Host.precedes_becoming _ _) rfl rfl

theorem advances_close (w : World) (span : Span) : w.Advances P (w.close span) :=
  .of_same (.refl _) rfl rfl

theorem advances_pass {α : Type} (w : World) (p : Pass)
    (run : Host → Except Failure α × Host) : w.Advances P (w.pass p run).2 := by
  refine ⟨Host.precedes_becoming _ _, ⟨[.passed p _], rfl, ?_⟩, [], ?_, nofun⟩
  · -- A pass is no run.
    intro r hr
    cases List.mem_singleton.mp hr
  · exact (List.append_nil _).symm

theorem advances_explore {α : Type} {r : SymbolicRun} (hr : P r.function) (w : World)
    (run : List Deed → SymbolicRun → Host → α × Host) : w.Advances P (w.explore r run).2 := by
  refine ⟨Host.precedes_becoming _ _, ⟨[.explored r], rfl, ?_⟩, [], ?_, nofun⟩
  · intro r' hr'
    cases List.mem_singleton.mp hr'
    exact hr
  · exact (List.append_nil _).symm

theorem advances_reserve {r : RunRecord} (hr : P r.starter) (w : World) (dir : RunDir) :
    w.Advances P (w.reserve dir r).2 := by
  refine ⟨⟨id, Int.le_refl _⟩, ⟨[], (List.append_nil _).symm, nofun⟩, _, rfl, ?_⟩
  intro r' hr'
  cases List.mem_singleton.mp hr'
  exact hr

theorem advances_signal (signal : Signal) (w : World) : w.Advances P (signal.apply w) := by
  cases signal with
  | cancel => exact .of_same ⟨fun _ => rfl, Int.le_refl _⟩ rfl rfl
  | elapse nanos => exact .of_same ⟨id, Int.le_add_of_nonneg_right (Int.natCast_nonneg _)⟩ rfl rfl

end World

/-! ## Sessions -/

namespace Session

variable {σ : Type} {R : σ → σ → Prop} {s : Session} {h : SessionHost σ}

/-- The surroundings of a session change the state as permitted. -/
structure Within (R : σ → σ → Prop) (s : Session) (h : SessionHost σ) : Prop where
  refl : ∀ w, R w w
  reserve : ∀ kind w, R w (h.reserve kind w).2
  symbolic : ∀ r w, r.function = s.function → R w (h.symbolic r w).2
  fuzz : ∀ r w, R w (h.fuzz r w).2
  convert : ∀ fn outDir seedDir w, R w (h.convert fn outDir seedDir w).2.2

theorem steps_symbolicRun (hw : s.Within R h) (slice : Duration) (seedDir : String) :
    (s.symbolicRun h slice seedDir).Steps R := by
  apply Job.steps_bind (Job.steps_atomic (hw.reserve _))
  intro outDir
  apply Job.steps_atomic
  intro w
  exact hw.symbolic _ w rfl

theorem steps_fuzzRun (hw : s.Within R h) (inputDir : String) :
    (s.fuzzRun h inputDir).Steps R := by
  apply Job.steps_bind (Job.steps_atomic (hw.reserve _))
  intro outDir
  exact Job.steps_atomic (hw.fuzz _)

theorem steps_convertInputs (hw : s.Within R h) (st : State) (r : Result) :
    (s.convertInputs h st r).Steps R := by
  unfold convertInputs
  split
  · refine Job.steps_bind (Job.steps_atomic (hw.convert _ _ _)) ?_
    rintro ⟨n, why⟩
    exact Job.steps_pure _
  · exact Job.steps_pure _

theorem steps_perform (hw : s.Within R h) (deadline : Int) (st : State) :
    (s.perform h deadline st).Steps R := by
  have hlook : ∀ {α : Type} (f : σ → α), (Job.look f).Steps R := fun f => Job.steps_look hw.refl f
  -- A run without a result ends the session; otherwise the files are looked at.
  unfold perform
  split
  · refine Job.steps_bind (steps_symbolicRun hw _ _) fun e => ?_
    cases demand e with
    | error why => exact Job.steps_pure _
    | ok r => exact Job.steps_bind (hlook _) fun files => Job.steps_pure _
  · refine Job.steps_bind (steps_fuzzRun hw _) fun e => ?_
    cases demand e with
    | error why => exact Job.steps_pure _
    | ok r =>
      refine Job.steps_bind (hlook _) fun files => ?_
      exact Job.steps_bind (steps_convertInputs hw _ r) fun st => Job.steps_pure _
  · exact Job.steps_pure _
  · refine Job.steps_bind (hlook _) fun now => ?_
    dsimp only
    split
    · refine Job.steps_bind (steps_symbolicRun hw _ _) fun e => ?_
      cases demand e with
      | error why => exact Job.steps_pure _
      | ok r => exact Job.steps_bind (hlook _) fun files => Job.steps_pure _
    · exact Job.steps_pure _
  · exact Job.steps_pure _

theorem steps_proceed (hw : s.Within R h) (deadline : Int) (fuel : Nat) (st : State) :
    (s.proceed h deadline fuel st).Steps R := by
  have hlook : ∀ {α : Type} (f : σ → α), (Job.look f).Steps R := fun f => Job.steps_look hw.refl f
  induction fuel generalizing st with
  | zero => exact Job.steps_pure _
  | succ fuel ih =>
    unfold proceed
    split
    · exact Job.steps_pure _
    · refine Job.steps_bind (hlook _) fun canceled => ?_
      split
      · exact Job.steps_pure _
      · refine Job.steps_bind (hlook _) fun now => ?_
        refine Job.steps_bind (steps_perform hw deadline _) fun out => ?_
        cases out with
        | error why => exact Job.steps_pure _
        | ok st => exact ih st

/-- A session changes the state as its surroundings do. -/
theorem steps_job (hw : s.Within R h) (fuel : Nat) : (s.job h fuel).Steps R := by
  refine Job.steps_bind (Job.steps_look hw.refl _) fun start => ?_
  refine Job.steps_bind (steps_proceed hw _ fuel _) fun out => ?_
  cases out with
  | error why => exact Job.steps_pure _
  | ok st => exact Job.steps_pure _

end Session

/-! ## Tasks -/

namespace Campaign

variable {c : Campaign} {site : Site} {P : String → Prop}

theorem steps_close {α : Type} (a : α) (span : Span) :
    (Job.atomic fun w : World => (a, w.close span)).Steps (World.Advances P) :=
  Job.steps_atomic fun w => w.advances_close span

theorem steps_traced (name : String) {run : Job World (TaskEnd Result)}
    (hrun : run.Steps (World.Advances P)) : (traced name run).Steps (World.Advances P) := by
  refine Job.steps_bind hrun fun e => ?_
  cases e with
  | returned r => exact steps_close _ _
  | nothing => exact steps_close _ _
  | panicked why => exact steps_close _ _

theorem steps_symbolicJob {record : RunRecord} {run : SymbolicRun} (hrecord : P record.starter)
    (hrun : P run.function) :
    (c.symbolicJob site record run).Steps (World.Advances P) := by
  apply Job.steps_bind
  · apply Job.steps_atomic
    intro w
    refine World.advances_reserve ?_ w site.dir
    exact hrecord
  · intro outDir
    apply Job.steps_atomic
    intro w
    refine World.advances_explore ?_ w c.explore
    exact hrun

/-- A single result is handed on as a list. -/
theorem steps_single {run : Job World (TaskEnd Result)} (hrun : run.Steps (World.Advances P)) :
    (do
      match ← run with
      | .returned r => return .returned [r]
      | .nothing => return .nothing
      | .panicked why => return .panicked why : Job World (TaskEnd (List Result))).Steps
        (World.Advances P) := by
  refine Job.steps_bind hrun fun e => ?_
  cases e with
  | returned r => exact Job.steps_pure _
  | nothing => exact Job.steps_pure _
  | panicked why => exact Job.steps_pure _

variable {fn : String}

theorem steps_symbolicAnalysis (hfn : P fn) :
    (c.symbolicAnalysis site fn).Steps (World.Advances P) :=
  steps_single (steps_traced _ (steps_symbolicJob hfn hfn))

theorem steps_fuzzAnalysis (hfn : P fn) (group : MemoryGroup) :
    (c.fuzzAnalysis site fn group).Steps (World.Advances P) := by
  apply steps_single
  apply steps_traced
  apply Job.steps_bind
  · exact Job.steps_atomic fun w =>
      World.advances_reserve (r := functionRecord site fuzzKind fn) hfn w site.dir
  · intro outDir
    exact Job.steps_atomic fun w => w.advances_onHost (site.fuzzer.run _)

theorem within_session (hfn : P fn) (group : MemoryGroup) :
    (c.session site fn group).Within (World.Advances P) (c.sessionHost site fn) where
  refl := .refl
  reserve kind w := World.advances_reserve (r := functionRecord site kind fn) hfn w site.dir
  symbolic r w hr := World.advances_explore (by rw [hr]; exact hfn) w c.explore
  fuzz r w := w.advances_onHost (site.fuzzer.run r)
  convert _ _ _ _ := .of_same (Host.precedes_becoming _ _) rfl rfl

theorem steps_sessionAnalysis (hfn : P fn) (group : MemoryGroup) :
    (c.sessionAnalysis site fn group).Steps (World.Advances P) := by
  refine Job.steps_bind (Session.steps_job (within_session hfn group) _) fun out => ?_
  cases out with
  | error why => exact steps_close _ _
  | ok out => exact steps_close _ _

theorem advances_takeGroup (c : Campaign) (fn : String) (w : World) :
    w.Advances P (c.takeGroup fn w).2 := by
  unfold takeGroup
  split
  · exact .refl w
  · cases w.pool.acquire with
    | none => exact .refl w
    | some taken => exact .of_same (.refl _) rfl rfl

theorem steps_withGroup {job : MemoryGroup → Job World (TaskEnd (List Result))}
    (hjob : ∀ group, (job group).Steps (World.Advances P)) :
    (c.withGroup fn job).Steps (World.Advances P) := by
  refine Job.steps_bind (Job.steps_atomic (advances_takeGroup c fn)) fun taken => ?_
  cases taken with
  | none => exact Job.steps_pure _
  | some group =>
    refine Job.steps_bind (hjob group) fun result => Job.steps_atomic fun w => ?_
    exact .of_same (.refl _) rfl rfl

/-- The analysis of a function runs that function only. -/
theorem steps_analysis (hfn : P fn) : (c.analysis site fn).Steps (World.Advances P) := by
  unfold analysis
  split
  · exact steps_withGroup (steps_sessionAnalysis hfn)
  · split
    · exact steps_withGroup (steps_fuzzAnalysis hfn)
    · exact steps_symbolicAnalysis hfn

theorem starter_edgeRecord (e : Edge) : (edgeRecord e).starter = e.call.caller := by
  unfold RunRecord.starter edgeRecord
  by_cases hnamed : e.call.callee = "" <;> simp [hnamed]

/-- The run of a call starts from its caller. -/
theorem steps_edgeTask {e : Edge} (hcaller : P e.call.caller) :
    (c.edgeTask site e).body.Steps (World.Advances P) := by
  apply steps_traced
  apply steps_symbolicJob
  · exact (starter_edgeRecord e).symm ▸ hcaller
  · exact hcaller

/-! ## Batches -/

/-- A batch runs functions of its tasks, and none at all if it is late when the batch begins. -/
theorem runBatch_advances {α : Type} {h₀ : Host} {deadline : Option Int} {w : World}
    (hle : h₀.Precedes w.host) (k : Nat) (fallback : String → Failure → α)
    {tasks : List (Task World α)}
    (hbody : w.host.IsLate deadline ∨ ∀ t ∈ tasks, t.body.Steps (World.Advances P)) :
    w.Advances P (c.runBatch (h₀.cutoff deadline) k fallback tasks w).2 := by
  have hout : ∀ {P' : String → Prop} (change : World → World),
      .outside change ∈ (c.interleaving k).map (·.map Signal.apply) →
        ∀ w' : World, w'.Advances P' (change w') := by
    intro P' change hmem w'
    obtain ⟨signal, -, rfl⟩ := BatchEvent.exists_of_outside_mem_map hmem
    exact World.advances_signal signal w'
  rcases hbody with hlate | hbody
  · -- Nothing is ever started, so nothing is run.
    have hnone : w.Advances (fun _ => False)
        (c.runBatch (h₀.cutoff deadline) k fallback tasks w).2 := by
      refine Scheduler.runBatch_changes .refl World.Advances.trans _ fallback hout ?_
      intro t _ w' hadv hgo
      have hreached := (Host.reached?_isSome_iff (hle.trans hadv.host)).mpr (hlate.mono hadv.host)
      rw [hgo] at hreached
      cases hreached
    exact hnone.mono fun _ => False.elim
  · exact Scheduler.runBatch_changes .refl World.Advances.trans _ fallback hout
      fun t ht _ _ _ => hbody t ht

end Campaign
end FaultChain
