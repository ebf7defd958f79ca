import FaultChain.Proofs.Session.Turns

/-!
# The stages of a session

Whatever its runs do, whenever it is told to stop and whatever else happens between its steps, a
session goes through rounds of a symbolic and a fuzzing run with an evaluation after each.

* `Session.rounds`: full rounds.
* `Session.UnderWay`: what holds between two stages; `Session.UnderWay.step` is the step.
* `Session.Course.outcome`: how a session can end.
* `Session.job_stages`: the main statement.
-/

namespace FaultChain
namespace Session

/-- The backend that is run in every stage of this kind. -/
def Stage.kind? : Stage → Option String
  | .symbolic => some symbolicKind
  | .fuzz => some fuzzKind
  | _ => none

/-- The stages of full rounds. -/
def rounds (k : Nat) : List Stage :=
  (List.replicate k [.symbolic, .evaluate, .fuzz, .evaluate]).flatten

/-- The stages of a session that ends at an evaluation after at least one run of each kind. -/
def EndsEvaluated (ss : List Stage) : Prop :=
  ∃ k, 1 ≤ k ∧ (ss = rounds k ∨ ss = rounds k ++ [.symbolic, .evaluate])

/-- The stages of a session that ends with a last symbolic run. -/
def EndsSpent (ss : List Stage) : Prop := ∃ k, ss = rounds k ++ [.finalSymbolic]

/-- The stages of a session that is told to stop before it ends in one of these ways. -/
def IsCutShort (ss : List Stage) : Prop :=
  ∃ full, (EndsEvaluated full ∨ EndsSpent full) ∧ ss <+: full ∧ ss ≠ full

/-- How many runs the stages are sure to have made. -/
def runs (ss : List Stage) : Nat := (ss.filterMap Stage.kind?).length

/-- Runs of both backends. -/
def OneOfEach (a b : Result) : Prop :=
  a.kind = symbolicKind ∧ b.kind = fuzzKind ∨ a.kind = fuzzKind ∧ b.kind = symbolicKind

/-- One of the two latest of the first `n` runs progressed. -/
def Progressed (results : List Result) (n : Nat) : Prop :=
  ∃ earlier a b, results.take n = earlier ++ [a, b] ∧ (a.progress = true ∨ b.progress = true)

theorem rounds_succ (k : Nat) :
    rounds (k + 1) = rounds k ++ [.symbolic, .evaluate, .fuzz, .evaluate] := by
  simp [rounds, List.replicate_succ']

theorem runs_append (ss ss' : List Stage) : runs (ss ++ ss') = runs ss + runs ss' := by
  simp [runs]

/-! ## The latest run of a kind -/

/-- Whether the latest run of a kind progressed. -/
def latest (kind : String) (results : List Result) : Option Bool :=
  (results.filter (·.kind == kind)).getLast?.map (·.progress)

theorem latest_append_self (results : List Result) (r : Result) :
    latest r.kind (results ++ [r]) = some r.progress := by
  simp [latest]

theorem latest_append_of_ne {kind : String} (results : List Result) {r : Result}
    (h : r.kind ≠ kind) : latest kind (results ++ [r]) = latest kind results := by
  simp [latest, List.filter_append, h]

/-- After two runs of different kinds, these are the latest of their kinds. -/
theorem latest_append_pair (results : List Result) {a b : Result} (h : a.kind ≠ b.kind) :
    latest a.kind (results ++ [a, b]) = some a.progress ∧
      latest b.kind (results ++ [a, b]) = some b.progress := by
  have hsplit : results ++ [a, b] = (results ++ [a]) ++ [b] := by simp
  rw [hsplit]
  refine ⟨?_, latest_append_self _ _⟩
  rw [latest_append_of_ne _ h.symm]
  exact latest_append_self _ _

/-! ## Between two stages -/

/-- The stages entered so far, and the one the session goes for. -/
inductive Phase : List Stage → Stage → Prop where
  | symbolic (k : Nat) : Phase (rounds k) .symbolic
  | symbolicDone (k : Nat) : Phase (rounds k ++ [.symbolic]) .evaluate
  | fuzz (k : Nat) : Phase (rounds k ++ [.symbolic, .evaluate]) .fuzz
  | fuzzDone (k : Nat) : Phase (rounds k ++ [.symbolic, .evaluate, .fuzz]) .evaluate

/-- Every stage has made its runs, `extra` apart, and every evaluation but the last one of a session
that converged found progress. -/
structure Recorded (st : State) (extra : List String) : Prop where
  kinds : st.results.map (·.kind) = st.stages.filterMap Stage.kind? ++ extra
  judged : ∀ before after, st.stages = before ++ .evaluate :: after →
    (st.converged = true → after ≠ []) → 2 ≤ runs before → Progressed st.results (runs before)

/-- A session that has not ended, between two stages. -/
structure UnderWay (st : State) : Prop where
  phase : Phase st.stages st.stage
  not_converged : st.converged = false
  recorded : Recorded st []
  symbolic_eq : st.symbolicProgress = latest symbolicKind st.results
  fuzz_eq : st.fuzzProgress = latest fuzzKind st.results

/-- A session that ended as neither of its two latest runs progressed. -/
structure HasConverged (st : State) : Prop where
  stage_eq : st.stage = .done
  converged : st.converged = true
  recorded : Recorded st []
  ends : EndsEvaluated st.stages
  idle : ∃ earlier a b, st.results = earlier ++ [a, b] ∧ OneOfEach a b ∧
    a.progress = false ∧ b.progress = false

/-- A session that ended as its time was spent. -/
structure HasSpent (st : State) : Prop where
  stage_eq : st.stage = .done
  not_converged : st.converged = false
  recorded : Recorded st [] ∨ Recorded st [symbolicKind]
  ends : EndsSpent st.stages

theorem Recorded.length_results {st : State} (h : Recorded st []) :
    st.results.length = runs st.stages := by
  simpa [runs] using congrArg List.length h.kinds

theorem two_le_runs_of_mem {ss : List Stage} (hsymbolic : .symbolic ∈ ss) (hfuzz : .fuzz ∈ ss) :
    2 ≤ runs ss := by
  have hsymbolic' : symbolicKind ∈ ss.filterMap Stage.kind? :=
    List.mem_filterMap.mpr ⟨.symbolic, hsymbolic, rfl⟩
  have hfuzz' : fuzzKind ∈ ss.filterMap Stage.kind? := List.mem_filterMap.mpr ⟨.fuzz, hfuzz, rfl⟩
  have hdiffer : symbolicKind ≠ fuzzKind := by decide
  unfold runs
  match hkinds : ss.filterMap Stage.kind? with
  | [] => simp [hkinds] at hfuzz'
  | [k] =>
    rw [hkinds, List.mem_singleton] at hsymbolic' hfuzz'
    exact absurd (hsymbolic'.trans hfuzz'.symm) hdiffer
  | _ :: _ :: _ => simp

theorem Recorded.judged_of_mem {st : State} {extra : List String} (h : Recorded st extra)
    (before after : List Stage) (heq : st.stages = before ++ .evaluate :: after)
    (hearlier : st.converged = true → after ≠ []) (hsymbolic : .symbolic ∈ before)
    (hfuzz : .fuzz ∈ before) : Progressed st.results (runs before) :=
  h.judged before after heq hearlier (two_le_runs_of_mem hsymbolic hfuzz)

/-- An evaluation among stages is the last one, or comes before it. -/
theorem split_last {ss before after : List Stage} {stage : Stage}
    (h : ss ++ [stage] = before ++ .evaluate :: after) :
    (before = ss ∧ stage = .evaluate ∧ after = []) ∨ ∃ rest, ss = before ++ .evaluate :: rest := by
  rcases List.eq_nil_or_concat after with rfl | ⟨rest, last, rfl⟩
  · rcases List.append_inj' h rfl with ⟨rfl, hlast⟩
    exact Or.inl ⟨rfl, by simpa using hlast, rfl⟩
  · have h' : ss ++ [stage] = (before ++ .evaluate :: rest) ++ [last] := by simpa using h
    exact Or.inr ⟨rest, (List.append_inj' h' rfl).1⟩

/-- Evaluations keep their verdict when further runs are made. -/
theorem Recorded.progressed_append {st : State} (h : Recorded st []) (hconv : st.converged = false)
    {before rest : List Stage} (heq : st.stages = before ++ .evaluate :: rest)
    (htwo : 2 ≤ runs before) (new : List Result) :
    Progressed (st.results ++ new) (runs before) := by
  rcases h.judged before rest heq (by simp [hconv]) htwo with ⟨earlier, a, b, htake, hab⟩
  have hle : runs before ≤ st.results.length := by
    rw [h.length_results, heq, runs_append]
    omega
  exact ⟨earlier, a, b, (List.take_append_of_le_length hle).trans htake, hab⟩

/-- A stage that is no evaluation, with the runs made in it. -/
theorem Recorded.extend {st st' : State} {extra : List String} {stage : Stage} {new : List Result}
    (h : Recorded st []) (hconv : st.converged = false) (hstage : stage ≠ .evaluate)
    (hstages : st'.stages = st.stages ++ [stage]) (hresults : st'.results = st.results ++ new)
    (hnew : new.map (·.kind) = [stage].filterMap Stage.kind? ++ extra) : Recorded st' extra where
  kinds := by simp [hstages, hresults, h.kinds, hnew]
  judged := by
    intro before after heq _ htwo
    rw [hstages] at heq
    rw [hresults]
    rcases split_last heq with ⟨-, hlast, -⟩ | ⟨rest, hrest⟩
    · exact absurd hlast hstage
    · exact h.progressed_append hconv hrest htwo new

/-- An evaluation, which found progress unless the session has converged. -/
theorem Recorded.evaluated {st st' : State} (h : Recorded st []) (hconv : st.converged = false)
    (hstages : st'.stages = st.stages ++ [.evaluate]) (hresults : st'.results = st.results)
    (hfound : st'.converged = false → 2 ≤ runs st.stages →
      Progressed st.results (runs st.stages)) : Recorded st' [] where
  kinds := by simp [hstages, hresults, h.kinds, Stage.kind?]
  judged := by
    intro before after heq hearlier htwo
    rw [hstages] at heq
    rw [hresults]
    rcases split_last heq with ⟨rfl, -, rfl⟩ | ⟨rest, hrest⟩
    · refine hfound ?_ htwo
      cases hconv' : st'.converged with
      | false => rfl
      | true => exact absurd rfl (hearlier hconv')
    · simpa using h.progressed_append hconv hrest htwo []

/-! ## One stage -/

variable {σ : Type}

variable {s : Session} {h : SessionHost σ} {deadline : Int} {st st' : State} {t : Turn σ}
  {turns : List (Turn σ)} {ps : List (σ × σ)}

/-- A run is recorded, as the latest one of its kind. -/
structure Adds (st st' : State) (r : Result) : Prop where
  stages_eq : st'.stages = st.stages
  converged_eq : st'.converged = st.converged
  results_eq : st'.results = st.results ++ [r]
  symbolic_eq : st'.symbolicProgress =
    if r.kind = symbolicKind then some r.progress else st.symbolicProgress
  fuzz_eq : st'.fuzzProgress = if r.kind = fuzzKind then some r.progress else st.fuzzProgress

theorem adds_symbolic (st : State) (files : FileTree) {r : Result} (hkind : r.kind = symbolicKind)
    (stage : Stage) : ∃ r', r'.kind = symbolicKind ∧
      Adds st { addSymbolic st files r with stage := stage } r' := by
  refine ⟨{ r with progress := (st.reached.symbolic files r.outDir).1 }, hkind, rfl, rfl, rfl, ?_,
    ?_⟩
  · simp [addSymbolic, hkind]
  · simp [addSymbolic, hkind, symbolicKind, fuzzKind]

theorem adds_fuzz (st : State) (files : FileTree) {r : Result} (hkind : r.kind = fuzzKind) :
    ∃ r', r'.kind = fuzzKind ∧ Adds st (addFuzz st files r) r' := by
  refine ⟨{ r with progress := (st.reached.fuzz files r.outDir).1 }, hkind, rfl, rfl, rfl, ?_, ?_⟩
  · simp [addFuzz, hkind, symbolicKind, fuzzKind]
  · simp [addFuzz, hkind]

/-- Conversions leave the record of runs as it is. -/
theorem Adds.converts {st'' : State} {r r' : Result} {converted : Option (Int × Option Failure)}
    (hadds : Adds st st' r) (hc : Converts s h st' r' ps converted st'') : Adds st st'' r := by
  cases hc with
  | left => exact hadds
  | @asked _ _ n why =>
    obtain ⟨seedDir, canConvert, heq⟩ := addConversion_eq st' (testsDir r'.outDir) n why
    rw [heq]
    exact ⟨hadds.1, hadds.2, hadds.3, hadds.4, hadds.5⟩

/-! ## What a stage leads to -/

/-- A run of the backend that the stage is for. -/
theorem UnderWay.adds (hu : UnderWay st) {stage : Stage} {r : Result}
    (hadds : Adds (st.entering stage) st' r) (hkind : stage.kind? = some r.kind)
    (hphase : Phase (st.stages ++ [stage]) st'.stage) : UnderWay st' where
  phase := by
    rw [hadds.stages_eq]
    exact hphase
  not_converged := hadds.converged_eq.trans hu.not_converged
  recorded := by
    -- A stage with a run of a backend is no evaluation.
    have hstage : stage ≠ .evaluate := by
      rintro rfl
      cases hkind
    exact hu.recorded.extend hu.not_converged hstage hadds.stages_eq hadds.results_eq
      (by simp [hkind])
  symbolic_eq := by
    rw [hadds.symbolic_eq, hadds.results_eq]
    split
    · rename_i h
      exact h ▸ (latest_append_self st.results r).symm
    · rename_i h
      exact hu.symbolic_eq.trans (latest_append_of_ne st.results h).symm
  fuzz_eq := by
    rw [hadds.fuzz_eq, hadds.results_eq]
    split
    · rename_i h
      exact h ▸ (latest_append_self st.results r).symm
    · rename_i h
      exact hu.fuzz_eq.trans (latest_append_of_ne st.results h).symm

theorem symbolicLast_eq (st : State) :
    st.symbolicLast = ((st.results.map (·.kind)).getLast? == some symbolicKind) := by
  rw [State.symbolicLast, List.getLast?_map]
  cases st.results.getLast? with
  | none => rfl
  | some r => simp

theorem exists_of_kinds {results : List Result} {before : List String} {k k' : String}
    (h : results.map (·.kind) = before ++ [k, k']) :
    ∃ earlier a b, results = earlier ++ [a, b] ∧ a.kind = k ∧ b.kind = k' := by
  rcases List.map_eq_append_iff.mp h with ⟨earlier, last, hresults, -, hlast⟩
  rcases List.map_eq_cons_iff.mp hlast with ⟨a, tail, rfl, ha, htail⟩
  rcases List.map_eq_singleton_iff.mp htail with ⟨b, rfl, hb⟩
  exact ⟨earlier, a, b, hresults, ha, hb⟩

/-- At an evaluation after two runs, the two latest ones are of different kinds. -/
theorem UnderWay.latest_two (hu : UnderWay st) (hstage : st.stage = .evaluate)
    (htwo : 2 ≤ runs st.stages) :
    ∃ earlier a b, st.results = earlier ++ [a, b] ∧ OneOfEach a b := by
  have hphase := hu.phase
  have hkinds := hu.recorded.kinds
  rw [hstage] at hphase
  rw [List.append_nil] at hkinds
  generalize st.stages = ss at hphase hkinds htwo
  cases hphase with
  | symbolicDone k =>
    cases k with
    | zero => simp [runs, rounds, Stage.kind?] at htwo
    | succ k =>
      -- The run before is the fuzzing run of the previous round.
      have hlast : st.results.map (·.kind) =
          ((rounds k).filterMap Stage.kind? ++ [symbolicKind]) ++ [fuzzKind, symbolicKind] := by
        simp [hkinds, rounds_succ, List.filterMap_cons, Stage.kind?]
      rcases exists_of_kinds hlast with ⟨earlier, a, b, hresults, ha, hb⟩
      exact ⟨earlier, a, b, hresults, Or.inr ⟨ha, hb⟩⟩
  | fuzzDone k =>
    have hlast : st.results.map (·.kind) =
        (rounds k).filterMap Stage.kind? ++ [symbolicKind, fuzzKind] := by
      simp [hkinds, List.filterMap_cons, Stage.kind?]
    rcases exists_of_kinds hlast with ⟨earlier, a, b, hresults, ha, hb⟩
    exact ⟨earlier, a, b, hresults, Or.inl ⟨ha, hb⟩⟩

/-- What the latest runs of both kinds say about the two latest runs. -/
theorem UnderWay.progress_eq (hu : UnderWay st) {earlier : List Result} {a b : Result}
    (hresults : st.results = earlier ++ [a, b]) (hkinds : OneOfEach a b) :
    (st.symbolicProgress = some false ∧ st.fuzzProgress = some false) ↔
      (a.progress = false ∧ b.progress = false) := by
  have hne : a.kind ≠ b.kind := by
    rcases hkinds with ⟨ha, hb⟩ | ⟨ha, hb⟩ <;> rw [ha, hb] <;> decide
  have hlatest := latest_append_pair earlier hne
  rw [hu.symbolic_eq, hu.fuzz_eq, hresults]
  rcases hkinds with ⟨ha, hb⟩ | ⟨ha, hb⟩
  · rw [ha, hb] at hlatest
    simp [hlatest.1, hlatest.2]
  · rw [ha, hb] at hlatest
    simp [hlatest.1, hlatest.2, and_comm]

/-- Before the first fuzzing run nothing converges. -/
theorem UnderWay.two_le_runs (hu : UnderWay st) (hstage : st.stage = .evaluate)
    (hfuzz : st.fuzzProgress = some false) : 2 ≤ runs st.stages := by
  have hphase := hu.phase
  have hkinds := hu.recorded.kinds
  rw [hstage] at hphase
  generalize st.stages = ss at hphase hkinds
  cases hphase with
  | symbolicDone k =>
    cases k with
    | zero =>
      have hone : st.results.map (·.kind) = [symbolicKind] := hkinds
      -- With a single symbolic run there is no fuzzing run to have made no progress.
      rcases List.map_eq_singleton_iff.mp hone with ⟨r, hr, hkind⟩
      have hnone : latest fuzzKind st.results = none := by
        simp [latest, hr, hkind, symbolicKind, fuzzKind]
      rw [hu.fuzz_eq, hnone] at hfuzz
      cases hfuzz
    | succ k => simp [runs, rounds_succ, List.filterMap_cons, Stage.kind?]
  | fuzzDone k => simp [runs, List.filterMap_cons, Stage.kind?]

theorem UnderWay.endsEvaluated (hu : UnderWay st) (hstage : st.stage = .evaluate)
    (htwo : 2 ≤ runs st.stages) : EndsEvaluated (st.stages ++ [.evaluate]) := by
  have hphase := hu.phase
  rw [hstage] at hphase
  generalize st.stages = ss at hphase htwo
  cases hphase with
  | symbolicDone k =>
    refine ⟨k, ?_, Or.inr (by simp)⟩
    cases k with
    | zero => simp [runs, rounds, Stage.kind?] at htwo
    | succ k => omega
  | fuzzDone k => exact ⟨k + 1, by omega, Or.inl (by simp [rounds_succ])⟩

/-- The other backend is run after an evaluation. -/
theorem UnderWay.next_phase (hu : UnderWay st) (hstage : st.stage = .evaluate) :
    Phase (st.stages ++ [.evaluate]) (if st.symbolicLast then .fuzz else .symbolic) := by
  have hphase := hu.phase
  have hkinds := hu.recorded.kinds
  rw [hstage] at hphase
  rw [symbolicLast_eq, hkinds, List.append_nil]
  generalize st.stages = ss at hphase
  cases hphase with
  | symbolicDone k => simpa [List.filterMap_cons, Stage.kind?] using Phase.fuzz k
  | fuzzDone k =>
    simpa [List.filterMap_cons, Stage.kind?, rounds_succ, symbolicKind, fuzzKind]
      using Phase.symbolic (k + 1)

/-- How a session goes on after a stage. -/
inductive Continues (st : State) : Prop where
  | underWay (h : UnderWay st)
  | converged (h : HasConverged st)
  | spent (h : HasSpent st)

theorem UnderWay.evaluate (hu : UnderWay st) (hstage : st.stage = .evaluate) :
    Continues (Session.evaluate (st.entering .evaluate)) := by
  by_cases hidle : st.symbolicProgress = some false ∧ st.fuzzProgress = some false
  · -- The latest runs of both kinds are the two latest runs, so the session ends here.
    have htwo := hu.two_le_runs hstage hidle.2
    rcases hu.latest_two hstage htwo with ⟨earlier, a, b, hresults, hkinds⟩
    have hstop : Session.evaluate (st.entering .evaluate) =
        { st.entering .evaluate with converged := true, stage := .done } := by
      simp [Session.evaluate, State.entering, hidle]
    rw [hstop]
    refine .converged ⟨rfl, rfl, ?_, hu.endsEvaluated hstage htwo, earlier, a, b, hresults,
      hkinds, (hu.progress_eq hresults hkinds).mp hidle⟩
    refine hu.recorded.evaluated hu.not_converged rfl rfl fun hgoing => ?_
    cases hgoing
  · have hgo : Session.evaluate (st.entering .evaluate) =
        { st.entering .evaluate with stage := if st.symbolicLast then .fuzz else .symbolic } := by
      have hnot : (st.symbolicProgress == some false && st.fuzzProgress == some false) = false := by
        simpa using hidle
      cases hlast : st.symbolicLast <;>
        simp_all [Session.evaluate, State.entering, State.symbolicLast]
    -- The session goes on, so one of the two latest runs progressed, if there are two.
    have hfound : 2 ≤ runs st.stages → Progressed st.results (runs st.stages) := by
      intro htwo
      rcases hu.latest_two hstage htwo with ⟨earlier, a, b, hresults, hkinds⟩
      have hsome : ¬(a.progress = false ∧ b.progress = false) := fun hnone =>
        hidle ((hu.progress_eq hresults hkinds).mpr hnone)
      refine ⟨earlier, a, b, ?_, ?_⟩
      · rw [← hu.recorded.length_results, List.take_length, hresults]
      · cases ha : a.progress with
        | true => exact Or.inl rfl
        | false => exact Or.inr (by simpa [ha] using hsome)
    rw [hgo]
    exact .underWay
      { phase := hu.next_phase hstage
        not_converged := hu.not_converged
        recorded := hu.recorded.evaluated hu.not_converged rfl rfl fun _ => hfound
        symbolic_eq := hu.symbolic_eq
        fuzz_eq := hu.fuzz_eq }

/-- A last symbolic run, or no time left for it. -/
theorem UnderWay.final (hu : UnderWay st) (hstage : st.stage = .symbolic)
    (hdone : st' = { st.entering .finalSymbolic with stage := .done } ∨
      st'.stage = .done ∧ ∃ r, r.kind = symbolicKind ∧ Adds (st.entering .finalSymbolic) st' r) :
    HasSpent st' := by
  -- A session is at its symbolic stage after full rounds.
  have hends : EndsSpent (st.stages ++ [.finalSymbolic]) := by
    have hphase := hu.phase
    rw [hstage] at hphase
    generalize st.stages = ss at hphase
    cases hphase with
    | symbolic k => exact ⟨k, rfl⟩
  have hstage' : Stage.finalSymbolic ≠ .evaluate := nofun
  rcases hdone with rfl | ⟨hdone, r, hkind, hadds⟩
  · refine ⟨rfl, hu.not_converged, Or.inl ?_, hends⟩
    exact hu.recorded.extend hu.not_converged hstage' rfl (List.append_nil _).symm rfl
  · refine ⟨hdone, hadds.converged_eq.trans hu.not_converged, Or.inr ?_, ?_⟩
    · exact hu.recorded.extend hu.not_converged hstage' hadds.stages_eq hadds.results_eq
        (by simp [hkind, Stage.kind?])
    · rw [hadds.stages_eq]
      exact hends

/-- A stage other than the last one is entered as it was meant to. -/
theorem eq_of_nextStage {now : Int} {stage stage' : Stage}
    (hnext : s.nextStage deadline now stage = stage') (hnot : stage' ≠ .finalSymbolic) :
    stage = stage' := by
  rcases nextStage_cases s deadline now stage with ⟨heq, -⟩ | ⟨-, heq⟩
  · exact heq.symm.trans hnext
  · exact absurd (hnext.symm.trans heq) hnot

/-- The last stage is entered in place of another symbolic one. -/
theorem UnderWay.symbolic_of_final (hu : UnderWay st) {now : Int}
    (hnext : s.nextStage deadline now st.stage = .finalSymbolic) : st.stage = .symbolic := by
  rcases nextStage_cases s deadline now st.stage with ⟨heq, -⟩ | ⟨hstage, -⟩
  · have hphase := hu.phase
    rw [← heq, hnext] at hphase
    generalize st.stages = ss at hphase
    cases hphase
  · exact hstage

theorem Phase.after_symbolic {ss : List Stage} (h : Phase ss .symbolic) :
    Phase (ss ++ [.symbolic]) .evaluate := by
  cases h with
  | symbolic k => exact .symbolicDone k

theorem Phase.after_fuzz {ss : List Stage} (h : Phase ss .fuzz) :
    Phase (ss ++ [.fuzz]) .evaluate := by
  cases h with
  | fuzz k => simpa using Phase.fuzzDone k

/-- One stage of a session. -/
theorem UnderWay.step (hl : Labels h) (hu : UnderWay st) {now : Int}
    (hp : Performed s h deadline (st.entering (s.nextStage deadline now st.stage)) t ps
      (.ok st')) : Continues st' := by
  have hphase := hu.phase
  generalize hnext : s.nextStage deadline now st.stage = stage at hp
  cases hp with
  | symbolic hstage hrun hreturned =>
    obtain rfl : stage = .symbolic := hstage
    -- The stage entered is the one the session was at.
    rw [eq_of_nextStage hnext nofun] at hphase
    obtain ⟨r, hkind, hadds⟩ := adds_symbolic (st.entering .symbolic) _
      (hl.symbolic _ _ _ hreturned) .evaluate
    exact .underWay (hu.adds hadds (by rw [hkind]; rfl) hphase.after_symbolic)
  | @fuzz _ _ _ _ w' _ _ st'' hstage hrun hreturned hconverts =>
    obtain rfl : stage = .fuzz := hstage
    rw [eq_of_nextStage hnext nofun] at hphase
    obtain ⟨r, hkind, hadds⟩ := adds_fuzz (st.entering .fuzz) (h.files w')
      (hl.fuzz _ _ _ hreturned)
    have hadds' := hadds.converts hconverts
    have hevaluate : Adds (st.entering .fuzz) { st'' with stage := .evaluate } r :=
      ⟨hadds'.1, hadds'.2, hadds'.3, hadds'.4, hadds'.5⟩
    exact .underWay (hu.adds hevaluate (by rw [hkind]; rfl) hphase.after_fuzz)
  | evaluation hstage =>
    obtain rfl : stage = .evaluate := hstage
    exact hu.evaluate (eq_of_nextStage hnext nofun)
  | @lastSymbolic _ _ w' _ _ _ hstage htime hrun hreturned =>
    obtain rfl : stage = .finalSymbolic := hstage
    have hadds := adds_symbolic (st.entering .finalSymbolic) (h.files w')
      (hl.symbolic _ _ _ hreturned) .done
    exact .spent (hu.final (hu.symbolic_of_final hnext) (Or.inr ⟨rfl, hadds⟩))
  | noTime hstage =>
    obtain rfl : stage = .finalSymbolic := hstage
    exact .spent (hu.final (hu.symbolic_of_final hnext) (Or.inl rfl))

/-! ## The whole session -/

theorem Course.eq_of_done (hdone : st.stage = .done)
    (hcourse : Course s h deadline st turns ps (.ok st')) : st' = st := by
  cases hcourse with
  | stop => rfl
  | told => rfl
  | turn hgoing => exact absurd hdone hgoing

/-- How a session can end. -/
theorem Course.outcome (hl : Labels h) (hu : UnderWay st)
    (hcourse : Course s h deadline st turns ps (.ok st')) :
    HasConverged st' ∨ HasSpent st' ∨ UnderWay st' := by
  generalize hend : (.ok st' : Except String State) = ended at hcourse
  -- Turn by turn; once it has converged or spent its time, the session is done.
  induction hcourse with
  | stop =>
    cases hend
    exact Or.inr (Or.inr hu)
  | told =>
    cases hend
    exact Or.inr (Or.inr hu)
  | turn hgoing hfree hperformed hrest ih =>
    subst hend
    cases hu.step hl hperformed with
    | underWay hu' => exact ih hu' rfl
    | converged hconv => exact Or.inl (hrest.eq_of_done hconv.stage_eq ▸ hconv)
    | spent hspent => exact Or.inr (Or.inl (hrest.eq_of_done hspent.stage_eq ▸ hspent))
  | broken => cases hend

theorem UnderWay.stage_ne_done (hu : UnderWay st) : st.stage ≠ .done := by
  intro hdone
  have hphase := hu.phase
  rw [hdone] at hphase
  generalize st.stages = ss at hphase
  cases hphase

theorem underWay_start : UnderWay {} where
  phase := .symbolic 0
  not_converged := rfl
  recorded := ⟨rfl, by simp⟩
  symbolic_eq := rfl
  fuzz_eq := rfl

/-- The stages of a session that is under way go on to a full round. -/
theorem Phase.isCutShort {ss : List Stage} {stage : Stage} (hphase : Phase ss stage) :
    IsCutShort ss := by
  have hround : ∀ k tail, tail ≠ [] → ∀ ss, ss ++ tail = rounds (k + 1) → IsCutShort ss := by
    intro k tail htail ss heq
    refine ⟨rounds (k + 1), Or.inl ⟨k + 1, by omega, Or.inl rfl⟩, ⟨tail, heq⟩, ?_⟩
    intro hsame
    exact htail (by simpa [← hsame] using heq)
  cases hphase with
  | symbolic k =>
    exact hround k [.symbolic, .evaluate, .fuzz, .evaluate] nofun _ (rounds_succ k).symm
  | symbolicDone k => exact hround k [.evaluate, .fuzz, .evaluate] nofun _ (by simp [rounds_succ])
  | fuzz k => exact hround k [.fuzz, .evaluate] nofun _ (by simp [rounds_succ])
  | fuzzDone k => exact hround k [.evaluate] nofun _ (by simp [rounds_succ])

/-- Whatever its runs do, what the clock says and when it is told to stop, a session goes through
full rounds until neither of its two latest runs progressed, through full rounds and a last symbolic
run, or is told to stop on its way. Every symbolic and fuzzing stage has its run. At an evaluation
after a run of each kind, one of the two latest runs progressed unless the session ends with it; a
session that is neither told to stop nor cut off and has not converged ends with its last symbolic
run. It is cut off only after as many stages as it may enter. -/
theorem job_stages (s : Session) (h : SessionHost σ) (hl : Labels h) {fuel : Nat} {ws : List σ}
    {out : Outcome} (hends : (s.job h fuel).Ends ws (.ok out)) :
    ∃ ss extra, out.stages = ss ++ [.done] ∧
      (out.converged = true ∧ EndsEvaluated ss ∨ out.converged = false ∧ EndsSpent ss ∨
        out.converged = false ∧ IsCutShort ss) ∧
      out.results.map (·.kind) = ss.filterMap Stage.kind? ++ extra ∧
      (extra = [] ∨ extra = [symbolicKind] ∧ EndsSpent ss) ∧
      (out.converged = true → ∃ earlier a b, out.results = earlier ++ [a, b] ∧
        OneOfEach a b ∧ a.progress = false ∧ b.progress = false) ∧
      (∀ before after, ss = before ++ .evaluate :: after → (out.converged = true → after ≠ []) →
        .symbolic ∈ before → .fuzz ∈ before → Progressed out.results (runs before)) ∧
      (out.converged = false → (∀ w ∈ ws, h.canceled w = false) → out.unfinished = false →
        EndsSpent ss) ∧
      (out.unfinished = true → ss.length = fuel) := by
  obtain ⟨ps, htakes, rfl⟩ := hends.exists_takes
  obtain ⟨w, qs, turns, ended, rfl, -, hout, hcourse, hstops, -⟩ := takes_job htakes
  cases ended with
  | error why => cases hout
  | ok halt =>
    cases hout
    have hcut : halt.unfinished = true → halt.state.stages.length = fuel := by
      intro hcut
      rw [← (hstops halt rfl).spent hcut]
      simp [hcourse.recorded.1]
    -- The session has converged, has spent its time, or is still under way as it was told to stop.
    rcases hcourse.outcome hl underWay_start with hconv | hspent | hu
    · refine ⟨halt.state.stages, [], rfl, Or.inl ⟨hconv.converged, hconv.ends⟩, hconv.recorded.kinds,
        Or.inl rfl, fun _ => hconv.idle, hconv.recorded.judged_of_mem, ?_, hcut⟩
      intro hnot
      cases hconv.converged.symm.trans hnot
    · -- The last symbolic run may have been left out.
      rcases hspent.recorded with hrec | hrec
      · refine ⟨halt.state.stages, [], rfl, Or.inr (Or.inl ⟨hspent.not_converged, hspent.ends⟩),
          hrec.kinds, Or.inl rfl, ?_, hrec.judged_of_mem, fun _ _ _ => hspent.ends, hcut⟩
        intro hyes
        cases hyes.symm.trans hspent.not_converged
      · refine ⟨halt.state.stages, [symbolicKind], rfl,
          Or.inr (Or.inl ⟨hspent.not_converged, hspent.ends⟩), hrec.kinds,
          Or.inr ⟨rfl, hspent.ends⟩, ?_, hrec.judged_of_mem, fun _ _ _ => hspent.ends, hcut⟩
        intro hyes
        cases hyes.symm.trans hspent.not_converged
    · refine ⟨halt.state.stages, [], rfl, Or.inr (Or.inr ⟨hu.not_converged, hu.phase.isCutShort⟩),
        hu.recorded.kinds, Or.inl rfl, ?_, hu.recorded.judged_of_mem, ?_, hcut⟩
      · intro hyes
        cases hyes.symm.trans hu.not_converged
      · intro _ hfree hfinished
        rcases (hstops halt rfl).ended hfinished with hdone | ⟨p, hp, hcanceled⟩
        · exact absurd hdone hu.stage_ne_done
        · have hmem : p.1 ∈ ((w, w) :: qs).map (·.1) :=
            List.mem_map_of_mem (List.mem_cons_of_mem _ hp)
          cases (hfree p.1 hmem).symm.trans hcanceled

theorem job_stages_idle :
    ∃ ws out, (idleSession.job ({} : SessionScript).host 8).Ends ws (.ok out) ∧
      out.converged = true ∧ out.stages = rounds 1 ++ [.done] ∧
      ∃ earlier a b, out.results = earlier ++ [a, b] ∧ OneOfEach a b ∧
        a.progress = false ∧ b.progress = false := by
  have hrun : ∃ out, ((idleSession.job ({} : SessionScript).host 8).run {}).1 = .ok out ∧
      out.converged = true ∧ out.stages = rounds 1 ++ [.done] := ⟨_, rfl, rfl, rfl⟩
  rcases hrun with ⟨out, hout, hconverged, hstages⟩
  have hends := (idleSession.job ({} : SessionScript).host 8).ends_run {}
  rw [hout] at hends
  rcases job_stages idleSession _ (labels_host {}) hends with ⟨-, -, -, -, -, -, hidle, -⟩
  exact ⟨_, out, hends, hconverged, hstages, hidle hconverged⟩

end Session
end FaultChain
