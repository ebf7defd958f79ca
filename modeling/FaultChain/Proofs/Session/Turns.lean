import FaultChain.Proofs.Work.Job
import FaultChain.Rehearsal.Session

/-!
# The turns of a session

A session is looked at turn by turn: what it does in each stage that it enters, with the run that it
starts, the state that it starts it in, and what is kept of it. What happens between two steps of
the session is left open.

* `Session.Turn`: what is done in a stage.
* `Session.Performed`, `Session.takes_perform`: what a stage can do.
* `Session.Course`, `Session.takes_job`: a session as a sequence of turns.
* `Session.Course.invariant`: what each turn keeps holds along the session.
-/

namespace FaultChain
namespace Session

/-! ## Turns -/

/-- What is kept of a run that returned: its result as it is recorded, and the files found after
it. -/
structure Kept where
  result : Result
  found : FileTree

/-- What a session does in a stage. Nothing is kept of a run that did not return. -/
inductive Turn (σ : Type) where
  | symbolic (run : SymbolicRun) (started : σ) (kept : Option Kept)
  /-- A fuzzing run, and what the conversion of its inputs came to, if there was one. -/
  | fuzz (run : FuzzRun) (started : σ) (kept : Option Kept)
    (converted : Option (Int × Option Failure))
  | evaluation
  | lastSymbolic (run : SymbolicRun) (started : σ) (kept : Option Kept)
  /-- There is no time for a last symbolic run. -/
  | noTime

namespace Turn

variable {σ : Type}

/-- The stage that a turn is for. -/
def stage : Turn σ → Stage
  | symbolic .. => .symbolic
  | fuzz .. => .fuzz
  | evaluation => .evaluate
  | lastSymbolic .. | noTime => .finalSymbolic

/-- What is kept of the run of a turn. -/
def kept? : Turn σ → Option Kept
  | symbolic _ _ kept | fuzz _ _ kept _ | lastSymbolic _ _ kept => kept
  | evaluation | noTime => none

/-- The recorded result of a turn. -/
def result? (t : Turn σ) : Option Result := t.kept?.map (·.result)

/-- The symbolic run that is started in a turn, be it the last one or not. -/
def symbolicRun? : Turn σ → Option SymbolicRun
  | symbolic run .. | lastSymbolic run .. => some run
  | _ => none

/-- The fuzzing run that is started in a turn. -/
def fuzzRun? : Turn σ → Option FuzzRun
  | fuzz run .. => some run
  | _ => none

/-- What a conversion of inputs in a turn came to. -/
def converted? : Turn σ → Option (Int × Option Failure)
  | fuzz _ _ _ converted => converted
  | _ => none

end Turn

variable {σ : Type}

/-! ## Runs -/

/-- The symbolic run that a session asks for. -/
def symbolicCall (s : Session) (outDir : String) (slice : Duration) (seedDir : String) :
    SymbolicRun :=
  { image := s.image
    function := s.function
    outDir := outDir
    flags := s.flags ++ ["--max-time=" ++ Decimal.ofInt slice.wholeSeconds]
    posixFlags := s.posixFlags
    seedDir := seedDir
    timeout := slice }

/-- The fuzzing run that a session asks for. -/
def fuzzCall (s : Session) (outDir inputDir : String) : FuzzRun :=
  { function := s.function
    outDir := outDir
    inputDir := inputDir
    duration := s.fuzzSlice
    stopWhenDone := s.stopFuzzWhenDone
    group := s.group }

/-- The steps of a symbolic run: its output directory is reserved, and it is started in a state. -/
def RunsSymbolic (s : Session) (h : SessionHost σ) (slice : Duration) (seedDir : String)
    (ps : List (σ × σ)) (run : SymbolicRun) (w : σ) : Prop :=
  ∃ w₀, run = s.symbolicCall (h.reserve symbolicKind w₀).1 slice seedDir ∧
    ps = [(w₀, (h.reserve symbolicKind w₀).2), (w, (h.symbolic run w).2)]

/-- The steps of a fuzzing run. -/
def RunsFuzz (s : Session) (h : SessionHost σ) (inputDir : String) (ps : List (σ × σ))
    (run : FuzzRun) (w : σ) : Prop :=
  ∃ w₀, run = s.fuzzCall (h.reserve fuzzKind w₀).1 inputDir ∧
    ps = [(w₀, (h.reserve fuzzKind w₀).2), (w, (h.fuzz run w).2)]

/-- The backends say of what kind their runs are. -/
structure Labels (h : SessionHost σ) : Prop where
  symbolic : ∀ run w r, (h.symbolic run w).1 = .returned r → r.kind = symbolicKind
  fuzz : ∀ run w r, (h.fuzz run w).1 = .returned r → r.kind = fuzzKind

variable {s : Session} {h : SessionHost σ} {deadline : Int} {st st' : State} {t : Turn σ}
  {turns : List (Turn σ)} {ps : List (σ × σ)} {ended : Except String State}

theorem takes_symbolicRun {slice : Duration} {seedDir : String} {e : TaskEnd Result}
    (htakes : (s.symbolicRun h slice seedDir).Takes ps e) :
    ∃ run w, RunsSymbolic s h slice seedDir ps run w ∧ e = (h.symbolic run w).1 := by
  unfold symbolicRun at htakes
  rcases Job.takes_bind_iff.mp htakes with ⟨outDir, _, _, rfl, hreserve, hrun⟩
  rcases Job.takes_atomic_iff.mp hreserve with ⟨w₀, rfl, rfl⟩
  rcases Job.takes_atomic_iff.mp hrun with ⟨w, rfl, rfl⟩
  exact ⟨_, w, ⟨w₀, rfl, rfl⟩, rfl⟩

theorem takes_fuzzRun {inputDir : String} {e : TaskEnd Result}
    (htakes : (s.fuzzRun h inputDir).Takes ps e) :
    ∃ run w, RunsFuzz s h inputDir ps run w ∧ e = (h.fuzz run w).1 := by
  unfold fuzzRun at htakes
  rcases Job.takes_bind_iff.mp htakes with ⟨outDir, _, _, rfl, hreserve, hrun⟩
  rcases Job.takes_atomic_iff.mp hreserve with ⟨w₀, rfl, rfl⟩
  rcases Job.takes_atomic_iff.mp hrun with ⟨w, rfl, rfl⟩
  exact ⟨_, w, ⟨w₀, rfl, rfl⟩, rfl⟩

/-- A run that is waited for either returned, or ends the session. -/
theorem takes_demand {α β : Type} {run : Job σ (TaskEnd α)}
    {next : TaskEnd α → Job σ (Except String β)} {e : Except String β}
    (hnothing : next .nothing = pure (.error missingResult))
    (hpanicked : ∀ why, next (.panicked why) = pure (.error why))
    (htakes : (run >>= next).Takes ps e) :
    (∃ a ps₁ ps₂, ps = ps₁ ++ ps₂ ∧ run.Takes ps₁ (.returned a) ∧
      (next (.returned a)).Takes ps₂ e) ∨
    ∃ end? why, demand end? = .error why ∧ run.Takes ps end? ∧ e = .error why := by
  rcases Job.takes_bind_iff.mp htakes with ⟨end?, ps₁, ps₂, rfl, hrun, hnext⟩
  -- Only a run that returned is gone on with.
  cases end? with
  | returned a => exact Or.inl ⟨a, ps₁, ps₂, rfl, hrun, hnext⟩
  | nothing =>
    rw [hnothing] at hnext
    obtain ⟨rfl, rfl⟩ := Job.takes_pure_iff.mp hnext
    exact Or.inr ⟨.nothing, missingResult, rfl, by simpa using hrun, rfl⟩
  | panicked why =>
    rw [hpanicked] at hnext
    obtain ⟨rfl, rfl⟩ := Job.takes_pure_iff.mp hnext
    exact Or.inr ⟨.panicked why, why, rfl, by simpa using hrun, rfl⟩

/-! ## Conversions -/

/-- The directory that the inputs of a run are converted into. -/
def testsDir (outDir : String) : String := Path.join [outDir, "ktests"]

/-- The directory that a fuzzing run keeps its inputs in. -/
def queueDir (outDir : String) : String := Path.join [outDir, "queue"]

/-- Whether the inputs of a fuzzing run are to be converted. -/
def wantsConversion (st : State) (r : Result) : Bool :=
  st.fuzzProgress == some true && st.canConvert && r.failure.isNone

/-- The steps of a conversion, if there is one. -/
inductive Converts (s : Session) (h : SessionHost σ) (st : State) (r : Result) :
    List (σ × σ) → Option (Int × Option Failure) → State → Prop where
  | left (hnot : wantsConversion st r = false) : Converts s h st r [] none st
  | asked {w w' : σ} {n : Int} {why : Option Failure} (hwants : wantsConversion st r = true)
      (hanswer : h.convert s.function r.outDir (testsDir r.outDir) w = (n, why, w')) :
      Converts s h st r [(w, w')] (some (n, why)) (addConversion st (testsDir r.outDir) n why)

theorem takes_convertInputs {r : Result} (htakes : (s.convertInputs h st r).Takes ps st') :
    ∃ converted, Converts s h st r ps converted st' := by
  unfold convertInputs at htakes
  split at htakes
  · rename_i hwants
    rcases Job.takes_bind_iff.mp htakes with ⟨⟨n, why⟩, _, _, rfl, hconvert, hpure⟩
    rcases Job.takes_atomic_iff.mp hconvert with ⟨w, rfl, heq⟩
    obtain ⟨rfl, rfl⟩ := Job.takes_pure_iff.mp hpure
    cases heq
    exact ⟨_, .asked hwants rfl⟩
  · rename_i hnot
    obtain ⟨rfl, rfl⟩ := Job.takes_pure_iff.mp htakes
    exact ⟨none, .left (Bool.eq_false_iff.mpr hnot)⟩

/-! ## One stage -/

/-- What is kept of a symbolic run. -/
def keepSymbolic (st : State) (files : FileTree) (r : Result) : Kept :=
  { result := { r with progress := (st.reached.symbolic files r.outDir).1 }, found := files }

/-- What is kept of a fuzzing run. -/
def keepFuzz (st : State) (files : FileTree) (r : Result) : Kept :=
  { result := { r with progress := (st.reached.fuzz files r.outDir).1 }, found := files }

/-- What a stage can do: the turn, its steps, and the state it leads to. -/
inductive Performed (s : Session) (h : SessionHost σ) (deadline : Int) (st : State) :
    Turn σ → List (σ × σ) → Except String State → Prop where
  | symbolic {ps : List (σ × σ)} {run : SymbolicRun} {w w' : σ} {r : Result}
      (hstage : st.stage = .symbolic)
      (hrun : RunsSymbolic s h s.symbolicSlice st.seedDir ps run w)
      (hreturned : (h.symbolic run w).1 = .returned r) :
      Performed s h deadline st (.symbolic run w (some (keepSymbolic st (h.files w') r)))
        (ps ++ [(w', w')]) (.ok { addSymbolic st (h.files w') r with stage := .evaluate })
  | symbolicBroken {ps : List (σ × σ)} {run : SymbolicRun} {w : σ} {why : String}
      (hstage : st.stage = .symbolic)
      (hrun : RunsSymbolic s h s.symbolicSlice st.seedDir ps run w)
      (hbroken : demand (h.symbolic run w).1 = .error why) :
      Performed s h deadline st (.symbolic run w none) ps (.error why)
  | fuzz {ps qs : List (σ × σ)} {run : FuzzRun} {w w' : σ} {r : Result}
      {converted : Option (Int × Option Failure)} {st' : State}
      (hstage : st.stage = .fuzz)
      (hrun : RunsFuzz s h st.fuzzInput ps run w)
      (hreturned : (h.fuzz run w).1 = .returned r)
      (hconverts : Converts s h (addFuzz st (h.files w') r) r qs converted st') :
      Performed s h deadline st (.fuzz run w (some (keepFuzz st (h.files w') r)) converted)
        (ps ++ (w', w') :: qs) (.ok { st' with stage := .evaluate })
  | fuzzBroken {ps : List (σ × σ)} {run : FuzzRun} {w : σ} {why : String}
      (hstage : st.stage = .fuzz)
      (hrun : RunsFuzz s h st.fuzzInput ps run w)
      (hbroken : demand (h.fuzz run w).1 = .error why) :
      Performed s h deadline st (.fuzz run w none none) ps (.error why)
  | evaluation (hstage : st.stage = .evaluate) :
      Performed s h deadline st .evaluation [] (.ok (evaluate st))
  | lastSymbolic {w₀ w w' : σ} {ps : List (σ × σ)} {run : SymbolicRun} {r : Result}
      (hstage : st.stage = .finalSymbolic)
      (htime : Duration.zero < timeLeft deadline (h.now w₀))
      (hrun : RunsSymbolic s h (timeLeft deadline (h.now w₀)) st.seedDir ps run w)
      (hreturned : (h.symbolic run w).1 = .returned r) :
      Performed s h deadline st (.lastSymbolic run w (some (keepSymbolic st (h.files w') r)))
        ((w₀, w₀) :: ps ++ [(w', w')]) (.ok { addSymbolic st (h.files w') r with stage := .done })
  | lastBroken {w₀ w : σ} {ps : List (σ × σ)} {run : SymbolicRun} {why : String}
      (hstage : st.stage = .finalSymbolic)
      (htime : Duration.zero < timeLeft deadline (h.now w₀))
      (hrun : RunsSymbolic s h (timeLeft deadline (h.now w₀)) st.seedDir ps run w)
      (hbroken : demand (h.symbolic run w).1 = .error why) :
      Performed s h deadline st (.lastSymbolic run w none) ((w₀, w₀) :: ps) (.error why)
  | noTime {w₀ : σ} (hstage : st.stage = .finalSymbolic)
      (htime : ¬ Duration.zero < timeLeft deadline (h.now w₀)) :
      Performed s h deadline st .noTime [(w₀, w₀)] (.ok { st with stage := .done })

/-- A symbolic run that is waited for, with what follows it. -/
theorem takes_symbolic {slice : Duration} {after : Stage}
    {next : TaskEnd Result → Job σ (Except String State)}
    (hnothing : next .nothing = pure (.error missingResult))
    (hpanicked : ∀ why, next (.panicked why) = pure (.error why))
    (hreturned : ∀ r, next (.returned r) = (do
      let files ← .look h.files
      return .ok { addSymbolic st files r with stage := after }))
    (htakes : (s.symbolicRun h slice st.seedDir >>= next).Takes ps ended) :
    ∃ qs run w, RunsSymbolic s h slice st.seedDir qs run w ∧
      ((∃ r w', (h.symbolic run w).1 = .returned r ∧ ps = qs ++ [(w', w')] ∧
        ended = .ok { addSymbolic st (h.files w') r with stage := after }) ∨
      ∃ why, demand (h.symbolic run w).1 = .error why ∧ ps = qs ∧ ended = .error why) := by
  rcases takes_demand hnothing hpanicked htakes with
    ⟨r, qs, _, rfl, hrun, hnext⟩ | ⟨end?, why, hwhy, hrun, rfl⟩
  · rcases takes_symbolicRun hrun with ⟨run, w, hruns, hend⟩
    rw [hreturned] at hnext
    rcases Job.takes_bind_iff.mp hnext with ⟨files, _, _, rfl, hlook, hpure⟩
    rcases Job.takes_look_iff.mp hlook with ⟨w', rfl, rfl⟩
    obtain ⟨rfl, rfl⟩ := Job.takes_pure_iff.mp hpure
    exact ⟨qs, run, w, hruns, Or.inl ⟨r, w', hend.symm, rfl, rfl⟩⟩
  · rcases takes_symbolicRun hrun with ⟨run, w, hruns, rfl⟩
    exact ⟨ps, run, w, hruns, Or.inr ⟨why, hwhy, rfl, rfl⟩⟩

theorem takes_perform (hgoing : st.stage ≠ .done)
    (htakes : (s.perform h deadline st).Takes ps ended) :
    ∃ t, Performed s h deadline st t ps ended := by
  -- One case for each stage, as the session performs them.
  cases hstage : st.stage with
  | symbolic =>
    simp only [perform, hstage] at htakes
    rcases takes_symbolic rfl (fun _ => rfl) (fun _ => rfl) htakes with
      ⟨qs, run, w, hruns, ⟨r, w', hreturned, rfl, rfl⟩ | ⟨why, hbroken, rfl, rfl⟩⟩
    · exact ⟨_, .symbolic hstage hruns hreturned⟩
    · exact ⟨_, .symbolicBroken hstage hruns hbroken⟩
  | fuzz =>
    simp only [perform, hstage] at htakes
    rcases takes_demand rfl (fun _ => rfl) htakes with
      ⟨r, qs, _, rfl, hrun, hnext⟩ | ⟨end?, why, hbroken, hrun, rfl⟩
    · rcases takes_fuzzRun hrun with ⟨run, w, hruns, hend⟩
      rcases Job.takes_bind_iff.mp hnext with ⟨files, _, _, rfl, hlook, hrest⟩
      rcases Job.takes_look_iff.mp hlook with ⟨w', rfl, rfl⟩
      rcases Job.takes_bind_iff.mp hrest with ⟨st'', _, _, rfl, hconvert, hpure⟩
      obtain ⟨rfl, rfl⟩ := Job.takes_pure_iff.mp hpure
      rcases takes_convertInputs hconvert with ⟨converted, hconverts⟩
      rw [List.append_nil]
      exact ⟨_, .fuzz hstage hruns hend.symm hconverts⟩
    · rcases takes_fuzzRun hrun with ⟨run, w, hruns, rfl⟩
      exact ⟨_, .fuzzBroken hstage hruns hbroken⟩
  | evaluate =>
    simp only [perform, hstage] at htakes
    obtain ⟨rfl, rfl⟩ := Job.takes_pure_iff.mp htakes
    exact ⟨_, .evaluation hstage⟩
  | finalSymbolic =>
    simp only [perform, hstage] at htakes
    rcases Job.takes_bind_iff.mp htakes with ⟨now, _, _, rfl, hlook, hrest⟩
    rcases Job.takes_look_iff.mp hlook with ⟨w₀, rfl, rfl⟩
    split at hrest
    · rename_i htime
      rcases takes_symbolic rfl (fun _ => rfl) (fun _ => rfl) hrest with
        ⟨qs, run, w, hruns, ⟨r, w', hreturned, rfl, rfl⟩ | ⟨why, hbroken, rfl, rfl⟩⟩
      · exact ⟨_, .lastSymbolic hstage htime hruns hreturned⟩
      · exact ⟨_, .lastBroken hstage htime hruns hbroken⟩
    · rename_i htime
      obtain ⟨rfl, rfl⟩ := Job.takes_pure_iff.mp hrest
      exact ⟨_, .noTime hstage htime⟩
  | done => exact absurd hstage hgoing

/-! ## A whole session -/

/-- The state in which a stage is performed. -/
def State.entering (st : State) (stage : Stage) : State :=
  { st with stage := stage, stages := st.stages ++ [stage] }

/-- A stage is entered as it was meant to, unless there is no time for a full round. -/
theorem nextStage_cases (s : Session) (deadline now : Int) (stage : Stage) :
    (s.nextStage deadline now stage = stage ∧
      (stage = .symbolic → ¬ timeLeft deadline now < s.symbolicSlice + s.fuzzSlice)) ∨
    (stage = .symbolic ∧ s.nextStage deadline now stage = .finalSymbolic) := by
  unfold nextStage
  split
  · rename_i hlast
    rw [Bool.and_eq_true, beq_iff_eq] at hlast
    exact Or.inr ⟨hlast.1, rfl⟩
  · rename_i hgo
    refine Or.inl ⟨rfl, ?_⟩
    rintro rfl hlt
    exact hgo (by simpa using hlt)

/-- The turns of a session from a state on. Before each of them the session looks whether it is told
to stop, and what time it is. -/
inductive Course (s : Session) (h : SessionHost σ) (deadline : Int) :
    State → List (Turn σ) → List (σ × σ) → Except String State → Prop where
  | stop (st : State) : Course s h deadline st [] [] (.ok st)
  | told {st : State} {w : σ} (hcanceled : h.canceled w = true) :
      Course s h deadline st [] [(w, w)] (.ok st)
  | turn {st st' : State} {w₁ w₂ : σ} {t : Turn σ} {ps qs : List (σ × σ)} {turns : List (Turn σ)}
      {ended : Except String State} (hgoing : st.stage ≠ .done) (hfree : h.canceled w₁ = false)
      (hperformed : Performed s h deadline
        (st.entering (s.nextStage deadline (h.now w₂) st.stage)) t ps (.ok st'))
      (hrest : Course s h deadline st' turns qs ended) :
      Course s h deadline st (t :: turns) ((w₁, w₁) :: (w₂, w₂) :: (ps ++ qs)) ended
  | broken {st : State} {w₁ w₂ : σ} {t : Turn σ} {ps : List (σ × σ)} {why : String}
      (hgoing : st.stage ≠ .done) (hfree : h.canceled w₁ = false)
      (hperformed : Performed s h deadline
        (st.entering (s.nextStage deadline (h.now w₂) st.stage)) t ps (.error why)) :
      Course s h deadline st [t] ((w₁, w₁) :: (w₂, w₂) :: ps) (.error why)

theorem nextStage_ne_done (hgoing : st.stage ≠ .done) (now : Int) :
    s.nextStage deadline now st.stage ≠ .done := by
  unfold nextStage
  split
  · exact nofun
  · exact hgoing

/-- Why a session goes no further: it may enter no further stage, or else it is done or told to
stop. -/
structure Stops (h : SessionHost σ) (fuel : Nat) (turns : List (Turn σ)) (ps : List (σ × σ))
    (halt : Halt) : Prop where
  spent : halt.unfinished = true → turns.length = fuel
  ended : halt.unfinished = false →
    halt.state.stage = .done ∨ ∃ p ∈ ps, h.canceled p.1 = true

theorem takes_proceed {fuel : Nat} {out : Except String Halt}
    (htakes : (s.proceed h deadline fuel st).Takes ps out) :
    ∃ turns, Course s h deadline st turns ps (out.map Halt.state) ∧
      ∀ halt, out = .ok halt → Stops h fuel turns ps halt := by
  induction fuel generalizing st ps with
  | zero =>
    obtain ⟨rfl, rfl⟩ := Job.takes_pure_iff.mp htakes
    refine ⟨[], .stop st, ?_⟩
    rintro halt ⟨⟩
    exact ⟨fun _ => rfl, fun hdone => Or.inl (by simpa using hdone)⟩
  | succ fuel ih =>
    unfold proceed at htakes
    split at htakes
    · rename_i hdone
      obtain ⟨rfl, rfl⟩ := Job.takes_pure_iff.mp htakes
      refine ⟨[], .stop st, ?_⟩
      rintro halt ⟨⟩
      exact ⟨nofun, fun _ => Or.inl (by simpa using hdone)⟩
    · rename_i hnot
      have hgoing : st.stage ≠ .done := by simpa using hnot
      rcases Job.takes_bind_iff.mp htakes with ⟨stop, _, _, rfl, hlook, hrest⟩
      rcases Job.takes_look_iff.mp hlook with ⟨w₁, rfl, rfl⟩
      split at hrest
      · rename_i hcanceled
        obtain ⟨rfl, rfl⟩ := Job.takes_pure_iff.mp hrest
        refine ⟨[], .told hcanceled, ?_⟩
        rintro halt ⟨⟩
        exact ⟨nofun, fun _ => Or.inr ⟨(w₁, w₁), by simp, hcanceled⟩⟩
      · rename_i hfree
        have hfree : h.canceled w₁ = false := Bool.eq_false_iff.mpr hfree
        rcases Job.takes_bind_iff.mp hrest with ⟨now, _, _, rfl, hnow, hstage⟩
        rcases Job.takes_look_iff.mp hnow with ⟨w₂, rfl, rfl⟩
        rcases Job.takes_bind_iff.mp hstage with ⟨e, _, _, rfl, hperform, hnext⟩
        rcases takes_perform (nextStage_ne_done hgoing _) hperform with ⟨t, hperformed⟩
        cases e with
        | error why =>
          obtain ⟨rfl, rfl⟩ := Job.takes_pure_iff.mp hnext
          rw [List.append_nil]
          exact ⟨[t], .broken hgoing hfree hperformed, nofun⟩
        | ok st' =>
          rcases ih hnext with ⟨turns, hcourse, hstops⟩
          -- The rest of the session has one unit of fuel less, and its own turns.
          refine ⟨t :: turns, by simpa using Course.turn hgoing hfree hperformed hcourse, ?_⟩
          intro halt hend
          refine ⟨fun hspent => by simp [(hstops halt hend).spent hspent], fun hgoes => ?_⟩
          refine ((hstops halt hend).ended hgoes).imp id ?_
          rintro ⟨p, hp, hcanceled⟩
          exact ⟨p, by simp [hp], hcanceled⟩

/-- An invariant of the turns so far and the state they lead to, and what it says of each turn. -/
theorem Course.invariant {Inv : List (Turn σ) → State → Prop}
    {Shows : List (Turn σ) → Turn σ → Prop}
    (hstep : ∀ before st stage t ps ended, Inv before st →
      Performed s h deadline (st.entering stage) t ps ended →
      Shows before t ∧ ∀ st', ended = .ok st' → Inv (before ++ [t]) st')
    {before : List (Turn σ)} (hinv : Inv before st)
    (hcourse : Course s h deadline st turns ps ended) :
    (∀ between t after, turns = between ++ t :: after → Shows (before ++ between) t) ∧
      ∀ st', ended = .ok st' → Inv (before ++ turns) st' := by
  -- Along the course; the turns that are behind grow by one at a time.
  induction hcourse generalizing before with
  | stop st =>
    refine ⟨by simp, ?_⟩
    rintro st' ⟨⟩
    simpa using hinv
  | told hcanceled =>
    refine ⟨by simp, ?_⟩
    rintro st' ⟨⟩
    simpa using hinv
  | turn hgoing hfree hperformed hrest ih =>
    obtain ⟨hshown, hnext⟩ := hstep _ _ _ _ _ _ hinv hperformed
    obtain ⟨hlater, hend⟩ := ih (hnext _ rfl)
    refine ⟨?_, by simpa using hend⟩
    intro between t after heq
    cases between with
    | nil =>
      cases heq
      simpa using hshown
    | cons first between =>
      obtain ⟨rfl, hbehind⟩ := List.cons_eq_cons.mp heq
      simpa using hlater between t after hbehind
  | broken hgoing hfree hperformed =>
    obtain ⟨hshown, -⟩ := hstep _ _ _ _ _ _ hinv hperformed
    refine ⟨?_, nofun⟩
    intro between t after heq
    obtain ⟨rfl, rfl, rfl⟩ : between = [] ∧ _ = t ∧ after = [] := by
      cases between with
      | nil => simpa using heq
      | cons first between => simp at heq
    simpa using hshown

/-- A conversion changes only what further runs start from. -/
theorem addConversion_eq (st : State) (dir : String) (n : Int) (why : Option Failure) :
    ∃ seedDir canConvert, addConversion st dir n why =
      { st with seedDir := seedDir, canConvert := canConvert } := by
  unfold addConversion
  split
  · split
    · exact ⟨st.seedDir, false, rfl⟩
    · exact ⟨st.seedDir, st.canConvert, rfl⟩
  · split
    · exact ⟨dir, st.canConvert, rfl⟩
    · exact ⟨st.seedDir, st.canConvert, rfl⟩

theorem Converts.recorded {r : Result} {converted : Option (Int × Option Failure)}
    (hc : Converts s h st r ps converted st') :
    st'.stages = st.stages ∧ st'.results = st.results ∧ st'.reached = st.reached := by
  cases hc with
  | left => exact ⟨rfl, rfl, rfl⟩
  | @asked _ _ n why =>
    obtain ⟨seedDir, canConvert, heq⟩ := addConversion_eq st (testsDir r.outDir) n why
    rw [heq]
    exact ⟨rfl, rfl, rfl⟩

/-- An evaluation decides only how to go on. -/
theorem evaluate_eq (st : State) :
    ∃ stage converged, evaluate st = { st with stage := stage, converged := converged } := by
  unfold evaluate
  split
  · exact ⟨.done, true, rfl⟩
  · split
    · exact ⟨.fuzz, st.converged, rfl⟩
    · exact ⟨.symbolic, st.converged, rfl⟩

/-- What a stage records. -/
theorem Performed.recorded (hp : Performed s h deadline st t ps (.ok st')) :
    t.stage = st.stage ∧ st'.stages = st.stages ∧ st'.results = st.results ++ t.result?.toList := by
  cases hp with
  | symbolic hstage => exact ⟨hstage.symm, rfl, rfl⟩
  | fuzz hstage hrun hreturned hconverts =>
    obtain ⟨hstages, hresults, -⟩ := hconverts.recorded
    exact ⟨hstage.symm, hstages, hresults⟩
  | evaluation hstage =>
    obtain ⟨stage, converged, heq⟩ := evaluate_eq st
    rw [heq]
    exact ⟨hstage.symm, rfl, (List.append_nil _).symm⟩
  | lastSymbolic hstage => exact ⟨hstage.symm, rfl, rfl⟩
  | noTime hstage => exact ⟨hstage.symm, rfl, (List.append_nil _).symm⟩

/-- A session records the stages and results of its turns. -/
theorem Course.recorded (hcourse : Course s h deadline st turns ps (.ok st')) :
    st'.stages = st.stages ++ turns.map Turn.stage ∧
      st'.results = st.results ++ turns.filterMap Turn.result? := by
  generalize hend : (.ok st' : Except String State) = ended at hcourse
  induction hcourse with
  | stop =>
    cases hend
    simp
  | told =>
    cases hend
    simp
  | turn hgoing hfree hperformed hrest ih =>
    obtain ⟨hstages, hresults⟩ := ih hend
    -- Each turn adds its stage, and a result if it has one.
    obtain ⟨hstage, hstages', hresults'⟩ := hperformed.recorded
    rw [hstages, hresults, hstages', hresults', List.map_cons, List.filterMap_cons, hstage]
    refine ⟨by simp [State.entering], ?_⟩
    split <;> simp_all [State.entering]
  | broken => cases hend

/-- The turns and the steps of a session. -/
def Happened (s : Session) (h : SessionHost σ) (turns : List (Turn σ)) (ps : List (σ × σ)) : Prop :=
  ∃ w qs ended, ps = (w, w) :: qs ∧ Course s h (h.now w + s.budget.toInt) {} turns qs ended

/-- A session first looks at the clock. -/
theorem takes_job_iff {fuel : Nat} {e : Except String Outcome} :
    (s.job h fuel).Takes ps e ↔ ∃ w qs out, ps = (w, w) :: qs ∧
      (s.proceed h (h.now w + s.budget.toInt) fuel {}).Takes qs out ∧
      e = out.map Halt.outcome := by
  unfold job
  constructor
  · intro htakes
    rcases Job.takes_bind_iff.mp htakes with ⟨start, _, _, rfl, hlook, hrest⟩
    rcases Job.takes_look_iff.mp hlook with ⟨w, rfl, rfl⟩
    rcases Job.takes_bind_iff.mp hrest with ⟨out, qs, _, rfl, hproceed, hout⟩
    -- Whether the session ends well or not, nothing more is looked at.
    refine ⟨w, qs, out, ?_, hproceed, ?_⟩
    · cases out <;> simp [(Job.takes_pure_iff.mp hout).1]
    · cases out <;> exact (Job.takes_pure_iff.mp hout).2
  · rintro ⟨w, qs, out, rfl, hproceed, rfl⟩
    refine Job.takes_bind_iff.mpr
      ⟨h.now w, [(w, w)], qs, rfl, Job.takes_look_iff.mpr ⟨w, rfl, rfl⟩, ?_⟩
    refine Job.takes_bind_iff.mpr ⟨out, qs, [], (List.append_nil _).symm, hproceed, ?_⟩
    cases out <;> exact Job.takes_pure_iff.mpr ⟨rfl, rfl⟩

/-- A session goes through turns, and its outcome lists their stages and results. -/
theorem takes_job {fuel : Nat} {e : Except String Outcome} (htakes : (s.job h fuel).Takes ps e) :
    ∃ w qs turns out, ps = (w, w) :: qs ∧
      (s.proceed h (h.now w + s.budget.toInt) fuel {}).Takes qs out ∧
      e = out.map Halt.outcome ∧
      Course s h (h.now w + s.budget.toInt) {} turns qs (out.map Halt.state) ∧
      (∀ halt, out = .ok halt → Stops h fuel turns qs halt) ∧
      ∀ o, e = .ok o → o.stages = turns.map Turn.stage ++ [.done] ∧
        o.results = turns.filterMap Turn.result? := by
  obtain ⟨w, qs, out, rfl, hproceed, rfl⟩ := takes_job_iff.mp htakes
  obtain ⟨turns, hcourse, hstops⟩ := takes_proceed hproceed
  refine ⟨w, qs, turns, out, rfl, hproceed, rfl, hcourse, hstops, ?_⟩
  intro o ho
  cases out with
  | error why => cases ho
  | ok halt =>
    cases ho
    obtain ⟨hstages, hresults⟩ := hcourse.recorded
    exact ⟨by simp [Halt.outcome, hstages], by simp [Halt.outcome, hresults]⟩

theorem labels_host (script : SessionScript) : Labels script.host where
  symbolic := by
    intro run w r hr
    cases hr
    rfl
  fuzz := by
    intro run w r hr
    cases hr
    rfl

/-- A session whose runs leave nothing behind. -/
def idleSession : Session :=
  { function := "f"
    image := "f.bc"
    budget := Duration.ofNanos 100
    symbolicSlice := Duration.ofNanos 10
    fuzzSlice := Duration.ofNanos 10 }

/-- A fuzzing run finds paths and leaves an input; all other runs leave nothing. -/
def fuzzedScript : SessionScript :=
  { fuzz := [{ record := some "1, 0, 0, 5, 0, 0, 0.5%, 0, 0, 1, 1.0\n", queue := ["id:000000"] }] }

theorem exists_fuzzed_outcome :
    ∃ out, ((idleSession.job fuzzedScript.host 12).run {}).1 = .ok out ∧
      out.results.map (·.progress) = [false, true, false, false] := by
  have hprogress : ((idleSession.job fuzzedScript.host 12).run {}).1.toOption.map
      (fun out => out.results.map (·.progress)) = some [false, true, false, false] := by
    decide +kernel
  cases hout : ((idleSession.job fuzzedScript.host 12).run {}).1 with
  | error why =>
    rw [hout] at hprogress
    cases hprogress
  | ok out =>
    rw [hout] at hprogress
    exact ⟨out, rfl, Option.some.inj hprogress⟩

end Session
end FaultChain
