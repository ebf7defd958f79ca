import FaultChain.Proofs.Session.Turns

/-!
# What the runs of a session start from

Fuzzing runs leave inputs for the fuzzing runs that follow, and test cases converted from them for
the symbolic runs that follow. Whether there is a converter is found out by asking for a conversion.

* `Session.Turn.seed?`, `Session.Turn.queue?`: what a turn leaves.
* `Session.latestLeft`: what was left by the latest turn that left something.
* `Session.job_seeding`: what runs start from, and which conversions are asked for.
-/

namespace FaultChain
namespace Session

variable {σ : Type}

/-! ## What turns leave -/

namespace Turn

/-- The directory with the test cases of a turn: a fuzzing run progressed and did not fail, and some
of its inputs were converted. -/
def seed? : Turn σ → Option String
  | fuzz _ _ (some kept) (some (n, none)) =>
    if kept.result.progress && kept.result.failure.isNone && 0 < n then
      some (testsDir kept.result.outDir)
    else none
  | _ => none

/-- The directory with the inputs of a turn, of which there must be some. -/
def queue? : Turn σ → Option String
  | fuzz _ _ (some kept) _ =>
    if (OutputDir.inputs kept.found (queueDir kept.result.outDir)).isEmpty then none
    else some (queueDir kept.result.outDir)
  | _ => none

/-- Whether a conversion was asked for and there turned out to be no converter. -/
def findsNoConverter (t : Turn σ) : Bool :=
  match t.converted? with
  | some (_, some why) => lacksConverter why
  | _ => false

/-- A fuzzing run that progressed and did not fail. -/
def FuzzSucceeds (t : Turn σ) : Prop :=
  t.fuzzRun?.isSome = true ∧ ∃ r, t.result? = some r ∧ r.progress = true ∧ r.failure = none

end Turn

/-- What the latest turn that left something has left, empty if there is none. -/
def latestLeft (left : Turn σ → Option String) (turns : List (Turn σ)) : String :=
  (turns.filterMap left).getLast?.getD ""

theorem latestLeft_append (left : Turn σ → Option String) (turns : List (Turn σ)) (t : Turn σ) :
    latestLeft left (turns ++ [t]) = (left t).getD (latestLeft left turns) := by
  unfold latestLeft
  rw [List.filterMap_append]
  cases hleft : left t <;> simp [hleft]

/-! ## What a session remembers -/

variable {s : Session} {h : SessionHost σ} {deadline : Int} {st st' : State} {t : Turn σ}
  {before : List (Turn σ)} {ps : List (σ × σ)} {ended : Except String State}

/-- What runs start from is what was left latest, and conversions are asked for until one finds no
converter. -/
structure Remembers (turns : List (Turn σ)) (st : State) : Prop where
  seedDir : st.seedDir = latestLeft Turn.seed? turns
  fuzzInput : st.fuzzInput = latestLeft Turn.queue? turns
  canConvert : st.canConvert = true ↔ ∀ t ∈ turns, t.findsNoConverter = false

/-- What a turn starts from, and whether it asks for a conversion. -/
structure Uses (before : List (Turn σ)) (t : Turn σ) : Prop where
  seedDir : ∀ run, t.symbolicRun? = some run → run.seedDir = latestLeft Turn.seed? before
  inputDir : ∀ run, t.fuzzRun? = some run → run.inputDir = latestLeft Turn.queue? before
  converts : t.converted?.isSome = true ↔
    t.FuzzSucceeds ∧ ∀ t' ∈ before, t'.findsNoConverter = false

/-- A turn without a fuzzing run. -/
theorem Uses.of_no_fuzz (hnot : t.fuzzRun? = none) (hunasked : t.converted? = none)
    (hseed : ∀ run, t.symbolicRun? = some run → run.seedDir = latestLeft Turn.seed? before) :
    Uses before t where
  seedDir := hseed
  inputDir := by simp [hnot]
  converts := by simp [hunasked, Turn.FuzzSucceeds, hnot]

/-- A turn that leaves nothing. -/
theorem Remembers.append_of_none (hr : Remembers before st) (hseed : t.seed? = none)
    (hqueue : t.queue? = none) (hfinds : t.findsNoConverter = false)
    (hseedDir : st'.seedDir = st.seedDir) (hinput : st'.fuzzInput = st.fuzzInput)
    (hconvert : st'.canConvert = st.canConvert) : Remembers (before ++ [t]) st' where
  seedDir := by rw [latestLeft_append, hseed, hseedDir, hr.seedDir, Option.getD_none]
  fuzzInput := by rw [latestLeft_append, hqueue, hinput, hr.fuzzInput, Option.getD_none]
  canConvert := by simp [hconvert, hr.canConvert, hfinds, or_imp, forall_and]

/-- Conversions are asked for after runs that progressed and did not fail, as long as a converter
may be there. -/
theorem wantsConversion_iff {files : FileTree} {r : Result} (hr : Remembers before st) :
    wantsConversion (addFuzz st files r) r = true ↔
      ((keepFuzz st files r).result.progress = true ∧ r.failure = none) ∧
        ∀ t ∈ before, t.findsNoConverter = false := by
  have hcan : (addFuzz st files r).canConvert = st.canConvert := rfl
  have hprogress : (addFuzz st files r).fuzzProgress =
      some (keepFuzz st files r).result.progress := rfl
  simp only [wantsConversion, hcan, hprogress, Bool.and_eq_true, beq_iff_eq, Option.some.injEq,
    Option.isNone_iff_eq_none, hr.canConvert]
  tauto

/-- What a conversion changes: where seeds are, or whether there may be a converter. -/
theorem addConversion_fields (st : State) (dir : String) (n : Int) (why : Option Failure) :
    (addConversion st dir n why).fuzzInput = st.fuzzInput ∧
      (addConversion st dir n why).seedDir = (if why = none ∧ 0 < n then dir else st.seedDir) ∧
      ((addConversion st dir n why).canConvert = true ↔
        st.canConvert = true ∧ ∀ f, why = some f → lacksConverter f = false) := by
  unfold addConversion
  cases why with
  | some f =>
    by_cases hlacks : lacksConverter f = true
    · simp [hlacks]
    · simp [hlacks]
  | none =>
    by_cases hn : 0 < n
    · simp [hn]
    · simp [hn]

theorem Remembers.fuzz {run : FuzzRun} {w : σ} {files : FileTree} {r : Result}
    {converted : Option (Int × Option Failure)} (hr : Remembers before st)
    (hc : Converts s h (addFuzz st files r) r ps converted st') :
    Remembers (before ++ [.fuzz run w (some (keepFuzz st files r)) converted]) st' ∧
      (converted.isSome = true ↔ wantsConversion (addFuzz st files r) r = true) := by
  have hqueue : (addFuzz st files r).fuzzInput =
      latestLeft Turn.queue? (before ++ [.fuzz run w (some (keepFuzz st files r)) converted]) := by
    rw [latestLeft_append, ← hr.fuzzInput]
    simp only [Turn.queue?, addFuzz, keepFuzz, queueDir]
    by_cases hempty : (OutputDir.inputs files (Path.join [r.outDir, "queue"])).isEmpty = true
    · simp [hempty]
    · simp [hempty]
  cases hc with
  | left hnot =>
    refine ⟨⟨?_, hqueue, ?_⟩, by simp [hnot]⟩
    · rw [latestLeft_append]
      exact hr.seedDir
    · have hcan : (addFuzz st files r).canConvert = st.canConvert := rfl
      simp [hcan, hr.canConvert, Turn.findsNoConverter, Turn.converted?, or_imp, forall_and]
  | @asked _ _ n why hwants =>
    obtain ⟨⟨hprogress, hfailure⟩, -⟩ := (wantsConversion_iff hr).mp hwants
    obtain ⟨hinput, hseed, hcan⟩ :=
      addConversion_fields (addFuzz st files r) (testsDir r.outDir) n why
    refine ⟨⟨?_, hinput.trans hqueue, ?_⟩, by simp [hwants]⟩
    · -- Seeds are left if the conversion gave some, and stay where they were otherwise.
      have hold : (addFuzz st files r).seedDir = latestLeft Turn.seed? before := hr.seedDir
      rw [latestLeft_append, hseed, hold]
      cases why with
      | some why => rfl
      | none =>
        have hfailure' : (keepFuzz st files r).result.failure = none := hfailure
        have hdir : (keepFuzz st files r).result.outDir = r.outDir := rfl
        by_cases hn : 0 < n
        · simp [Turn.seed?, hprogress, hfailure', hdir, hn]
        · simp [Turn.seed?, hn]
    · -- Only the failure that there is no converter is remembered.
      have hold : (addFuzz st files r).canConvert = st.canConvert := rfl
      rw [hcan, hold, hr.canConvert]
      cases why <;>
        simp [Turn.findsNoConverter, Turn.converted?, or_imp, forall_and]

/-- What a turn uses, and what is remembered after it. -/
theorem Remembers.step {stage : Stage} (hr : Remembers before st)
    (hp : Performed s h deadline (st.entering stage) t ps ended) :
    Uses before t ∧ ∀ st', ended = .ok st' → Remembers (before ++ [t]) st' := by
  have hr' : Remembers before (st.entering stage) := ⟨hr.seedDir, hr.fuzzInput, hr.canConvert⟩
  -- What a run is started from is what is remembered.
  have hsymbolic : ∀ {slice ps run w}, RunsSymbolic s h slice (st.entering stage).seedDir ps run w →
      run.seedDir = latestLeft Turn.seed? before := by
    rintro slice ps run w ⟨w₀, rfl, -⟩
    exact hr.seedDir
  have hfuzz : ∀ {ps run w}, RunsFuzz s h (st.entering stage).fuzzInput ps run w →
      run.inputDir = latestLeft Turn.queue? before := by
    rintro ps run w ⟨w₀, rfl, -⟩
    exact hr.fuzzInput
  cases hp with
  | symbolic hstage hrun =>
    refine ⟨.of_no_fuzz rfl rfl ?_, ?_⟩
    · rintro run ⟨⟩
      exact hsymbolic hrun
    · rintro st' ⟨⟩
      exact hr.append_of_none rfl rfl rfl rfl rfl rfl
  | symbolicBroken hstage hrun =>
    refine ⟨.of_no_fuzz rfl rfl ?_, nofun⟩
    rintro run ⟨⟩
    exact hsymbolic hrun
  | fuzz hstage hrun hreturned hconverts =>
    obtain ⟨hafter, hasked⟩ := hr'.fuzz hconverts
    refine ⟨⟨nofun, ?_, ?_⟩, ?_⟩
    · rintro run ⟨⟩
      exact hfuzz hrun
    · refine hasked.trans ((wantsConversion_iff hr').trans (and_congr_left fun _ => ?_))
      simp [Turn.FuzzSucceeds, Turn.fuzzRun?, Turn.result?, Turn.kept?, keepFuzz]
    · rintro st' ⟨⟩
      exact ⟨hafter.seedDir, hafter.fuzzInput, hafter.canConvert⟩
  | fuzzBroken hstage hrun =>
    refine ⟨⟨nofun, ?_, ?_⟩, nofun⟩
    · rintro run ⟨⟩
      exact hfuzz hrun
    · -- The run did not return, so there is neither a result nor a conversion.
      simp [Turn.converted?, Turn.FuzzSucceeds, Turn.result?, Turn.kept?]
  | evaluation hstage =>
    refine ⟨.of_no_fuzz rfl rfl nofun, ?_⟩
    rintro st' ⟨⟩
    obtain ⟨next, converged, heq⟩ := evaluate_eq (st.entering stage)
    rw [heq]
    exact hr.append_of_none rfl rfl rfl rfl rfl rfl
  | lastSymbolic hstage htime hrun =>
    refine ⟨.of_no_fuzz rfl rfl ?_, ?_⟩
    · rintro run ⟨⟩
      exact hsymbolic hrun
    · rintro st' ⟨⟩
      exact hr.append_of_none rfl rfl rfl rfl rfl rfl
  | lastBroken hstage htime hrun =>
    refine ⟨.of_no_fuzz rfl rfl ?_, nofun⟩
    rintro run ⟨⟩
    exact hsymbolic hrun
  | noTime hstage =>
    refine ⟨.of_no_fuzz rfl rfl nofun, ?_⟩
    rintro st' ⟨⟩
    exact hr.append_of_none rfl rfl rfl rfl rfl rfl

/-- A conversion that fails for any other reason than that there is no converter changes nothing. -/
theorem latestLeft_of_failed {n : Int} {why : Failure} (hfailed : t.converted? = some (n, some why))
    (hother : lacksConverter why = false) :
    latestLeft Turn.seed? (before ++ [t]) = latestLeft Turn.seed? before ∧
      t.findsNoConverter = false := by
  rw [latestLeft_append]
  refine ⟨?_, by simp [Turn.findsNoConverter, hfailed, hother]⟩
  cases t with
  | fuzz run w kept converted =>
    obtain rfl : converted = some (n, some why) := hfailed
    cases kept <;> rfl
  | _ => rfl

/-! ## The whole session -/

/-- Every symbolic run starts from the test cases of the latest fuzzing run that left some, and
every fuzzing run from the inputs of the latest one that left some. Inputs are converted after the
fuzzing runs that progressed and did not fail, up to the first conversion that finds no converter;
any other failure of a conversion leaves everything as it is. -/
theorem job_seeding (s : Session) (h : SessionHost σ) {fuel : Nat} {ps : List (σ × σ)}
    {e : Except String Outcome} (htakes : (s.job h fuel).Takes ps e) :
    ∃ turns, Happened s h turns ps ∧
      (∀ out, e = .ok out → out.stages = turns.map Turn.stage ++ [.done] ∧
        out.results = turns.filterMap Turn.result?) ∧
      ∀ before t after, turns = before ++ t :: after →
        (∀ run, t.symbolicRun? = some run → run.seedDir = latestLeft Turn.seed? before) ∧
        (∀ run, t.fuzzRun? = some run → run.inputDir = latestLeft Turn.queue? before) ∧
        (t.converted?.isSome = true ↔
          t.FuzzSucceeds ∧ ∀ t' ∈ before, t'.findsNoConverter = false) ∧
        (∀ n why, t.converted? = some (n, some why) → lacksConverter why = false →
          latestLeft Turn.seed? (before ++ [t]) = latestLeft Turn.seed? before ∧
            t.findsNoConverter = false) := by
  rcases takes_job htakes with ⟨w, qs, turns, ended, rfl, -, -, hcourse, -, hout⟩
  have hstart : Remembers ([] : List (Turn σ)) {} := ⟨rfl, rfl, by simp⟩
  -- What the session remembers is what its turns so far left behind.
  obtain ⟨huses, -⟩ := Course.invariant (fun _ _ _ _ _ _ hr hp => hr.step hp) hstart hcourse
  refine ⟨turns, ⟨w, qs, _, rfl, hcourse⟩, hout, ?_⟩
  intro before t after heq
  have hu : Uses before t := huses before t after heq
  exact ⟨hu.seedDir, hu.inputDir, hu.converts, fun _ _ => latestLeft_of_failed⟩

theorem job_seeding_fuzzed :
    ∃ ps out turns, (idleSession.job fuzzedScript.host 12).Takes ps (.ok out) ∧
      Happened idleSession fuzzedScript.host turns ps ∧
      out.results = turns.filterMap Turn.result? ∧
      out.results.map (·.progress) = [false, true, false, false] ∧
      ∀ before t after, turns = before ++ t :: after →
        ∀ run, t.symbolicRun? = some run → run.seedDir = latestLeft Turn.seed? before := by
  obtain ⟨out, hout, hprogress⟩ := exists_fuzzed_outcome
  have htakes := (idleSession.job fuzzedScript.host 12).takes_run {}
  rw [hout] at htakes
  obtain ⟨turns, hhappened, hrecorded, huses⟩ := job_seeding idleSession _ htakes
  exact ⟨_, out, turns, htakes, hhappened, (hrecorded out rfl).2, hprogress,
    fun before t after heq => (huses before t after heq).1⟩

end Session
end FaultChain
