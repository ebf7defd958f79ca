import FaultChain.Proofs.Durations
import FaultChain.Proofs.Session.Turns

/-!
# The time of a session

The time left is looked at before symbolic runs only. A full round has to fit into it then, so the
fuzzing run of the round fits as well; otherwise one symbolic run gets the time that is left.

* `Session.Punctual`: only runs take time, and no more than they are given.
* `Session.Clocked`: the clock along steps between which it stands still.
* `Session.OnTime`, `Session.OnTime.step`: what is left of the time between two stages.
* `Session.job_within_budget`: no session takes longer than its budget.
-/

namespace FaultChain

namespace Session

variable {σ : Type}

/-- The time left, if it is not more than can be told. -/
theorem toInt_timeLeft {deadline now : Int} (hle : -(Word64.half : Int) ≤ deadline - now)
    (hlt : deadline - now < Word64.half) : (timeLeft deadline now).toInt = deadline - now := by
  simp only [timeLeft, if_neg (Int.not_lt.mpr hle), if_neg (Int.not_le.mpr hlt)]
  exact Int64.toInt_ofInt_of_le hle hlt

/-! ## The clock -/

/-- Only the runs of the backends take time: a symbolic run at most what it is given, a fuzzing run
at most the slice of the session. -/
structure Punctual (s : Session) (h : SessionHost σ) : Prop where
  reserve : ∀ kind w, h.now (h.reserve kind w).2 = h.now w
  convert : ∀ function outDir dir w, h.now (h.convert function outDir dir w).2.2 = h.now w
  symbolic : ∀ run w, 0 ≤ run.timeout.toInt → h.now w ≤ h.now (h.symbolic run w).2 ∧
    h.now (h.symbolic run w).2 ≤ h.now w + run.timeout.toInt
  fuzz : ∀ run w, run.duration = s.fuzzSlice → h.now w ≤ h.now (h.fuzz run w).2 ∧
    h.now (h.fuzz run w).2 ≤ h.now w + s.fuzzSlice.toInt

/-- The slices of a session and its budget are no negative times, and a round is not longer than can
be told. -/
structure Affordable (s : Session) : Prop where
  symbolicSlice : 0 ≤ s.symbolicSlice.toInt
  fuzzSlice : 0 ≤ s.fuzzSlice.toInt
  budget : 0 ≤ s.budget.toInt
  round : s.symbolicSlice.toInt + s.fuzzSlice.toInt < Word64.half

/-- The clock goes from one time to another along steps, and stands still between them. -/
inductive Clocked (h : SessionHost σ) : Int → List (σ × σ) → Int → Prop where
  | nil (c : Int) : Clocked h c [] c
  | cons {w w' : σ} {ps : List (σ × σ)} {c' : Int} (hrest : Clocked h (h.now w') ps c') :
      Clocked h (h.now w) ((w, w') :: ps) c'

variable {s : Session} {h : SessionHost σ} {start c c' : Int} {st st' : State} {t : Turn σ}
  {turns : List (Turn σ)} {ps qs : List (σ × σ)} {ended : Except String State}

theorem clocked_cons_iff {w w' : σ} :
    Clocked h c ((w, w') :: ps) c' ↔ h.now w = c ∧ Clocked h (h.now w') ps c' := by
  constructor
  · rintro ⟨⟩
    exact ⟨rfl, ‹_›⟩
  · rintro ⟨rfl, hrest⟩
    exact .cons hrest

theorem clocked_nil_iff : Clocked h c [] c' ↔ c' = c := by
  constructor
  · rintro ⟨⟩
    rfl
  · rintro rfl
    exact .nil c'

theorem clocked_append_iff :
    Clocked h c (ps ++ qs) c' ↔ ∃ d, Clocked h c ps d ∧ Clocked h d qs c' := by
  induction ps generalizing c with
  | nil => simp [clocked_nil_iff]
  | cons p ps ih =>
    obtain ⟨w, w'⟩ := p
    simp only [List.cons_append, clocked_cons_iff, ih]
    constructor
    · rintro ⟨hc, d, hps, hqs⟩
      exact ⟨d, ⟨hc, hps⟩, hqs⟩
    · rintro ⟨d, ⟨hc, hps⟩, hqs⟩
      exact ⟨hc, d, hps, hqs⟩

/-- The clock of steps between which it stands still. -/
theorem exists_clocked {w w' : σ}
    (hstill : ((w, w') :: ps).IsChain fun p q => h.now q.1 = h.now p.2) :
    ∃ c', Clocked h (h.now w) ((w, w') :: ps) c' := by
  induction ps generalizing w w' with
  | nil => exact ⟨_, .cons (.nil _)⟩
  | cons q ps ih =>
    obtain ⟨v, v'⟩ := q
    obtain ⟨hsame, hrest⟩ := List.isChain_cons_cons.mp hstill
    obtain ⟨c', hclock⟩ := ih hrest
    exact ⟨c', .cons (hsame ▸ hclock)⟩

/-! ## Runs -/

/-- The clock does not go beyond some time along steps. -/
def NotAfter (h : SessionHost σ) (latest : Int) (ps : List (σ × σ)) : Prop :=
  ∀ p ∈ ps, h.now p.2 ≤ latest

theorem NotAfter.mono {latest latest' : Int} (hw : NotAfter h latest ps) (hle : latest ≤ latest') :
    NotAfter h latest' ps :=
  fun p hp => Int.le_trans (hw p hp) hle

theorem notAfter_nil (latest : Int) : NotAfter h latest [] := by simp [NotAfter]

theorem notAfter_cons_iff {latest : Int} {w w' : σ} :
    NotAfter h latest ((w, w') :: ps) ↔ h.now w' ≤ latest ∧ NotAfter h latest ps :=
  List.forall_mem_cons

theorem notAfter_append_iff {latest : Int} :
    NotAfter h latest (ps ++ qs) ↔ NotAfter h latest ps ∧ NotAfter h latest qs :=
  List.forall_mem_append

theorem RunsSymbolic.clocked {slice : Duration} {seedDir : String} {run : SymbolicRun} {w : σ}
    (hpunctual : Punctual s h) (hrun : RunsSymbolic s h slice seedDir ps run w)
    (hslice : 0 ≤ slice.toInt) (hclock : Clocked h c ps c') :
    run.timeout = slice ∧ h.now w = c ∧ c ≤ c' ∧ c' ≤ c + slice.toInt ∧ NotAfter h c' ps := by
  obtain ⟨w₀, rfl, rfl⟩ := hrun
  simp only [clocked_cons_iff, clocked_nil_iff] at hclock
  obtain ⟨hw₀, hw, hc'⟩ := hclock
  have hreserve := hpunctual.reserve symbolicKind w₀
  obtain ⟨hlow, hhigh⟩ := hpunctual.symbolic
    (s.symbolicCall (h.reserve symbolicKind w₀).1 slice seedDir) w hslice
  have htimeout : (s.symbolicCall (h.reserve symbolicKind w₀).1 slice seedDir).timeout = slice :=
    rfl
  rw [htimeout] at hhigh
  refine ⟨rfl, by omega, by omega, by omega, ?_⟩
  exact notAfter_cons_iff.mpr ⟨by omega, notAfter_cons_iff.mpr ⟨by omega, notAfter_nil _⟩⟩

theorem RunsFuzz.clocked {inputDir : String} {run : FuzzRun} {w : σ} (hpunctual : Punctual s h)
    (hrun : RunsFuzz s h inputDir ps run w) (hclock : Clocked h c ps c') :
    run.duration = s.fuzzSlice ∧ h.now w = c ∧ c ≤ c' ∧ c' ≤ c + s.fuzzSlice.toInt ∧
      NotAfter h c' ps := by
  obtain ⟨w₀, rfl, rfl⟩ := hrun
  simp only [clocked_cons_iff, clocked_nil_iff] at hclock
  obtain ⟨hw₀, hw, hc'⟩ := hclock
  have hreserve := hpunctual.reserve fuzzKind w₀
  obtain ⟨hlow, hhigh⟩ := hpunctual.fuzz (s.fuzzCall (h.reserve fuzzKind w₀).1 inputDir) w rfl
  refine ⟨rfl, by omega, by omega, by omega, ?_⟩
  exact notAfter_cons_iff.mpr ⟨by omega, notAfter_cons_iff.mpr ⟨by omega, notAfter_nil _⟩⟩

theorem Converts.clocked {r : Result} {converted : Option (Int × Option Failure)}
    (hpunctual : Punctual s h) (hconverts : Converts s h st r ps converted st')
    (hclock : Clocked h c ps c') : c' = c ∧ NotAfter h c ps := by
  cases hconverts with
  | left => exact ⟨clocked_nil_iff.mp hclock, by simp [NotAfter]⟩
  | @asked w w' n why hwants hanswer =>
    simp only [clocked_cons_iff, clocked_nil_iff] at hclock
    have hstill := hpunctual.convert s.function r.outDir (testsDir r.outDir) w
    rw [hanswer] at hstill
    have hsame : h.now w' = h.now w := hstill
    exact ⟨by omega, notAfter_cons_iff.mpr ⟨by omega, notAfter_nil _⟩⟩

/-! ## Between two stages -/

/-- The time that is set aside for a fuzzing run that is about to come. -/
def setAside (s : Session) (st : State) : Int :=
  match st.stage with
  | .fuzz => s.fuzzSlice.toInt
  | .evaluate => if st.symbolicLast then s.fuzzSlice.toInt else 0
  | _ => 0

/-- The session has started, and what is set aside fits into the time left. -/
structure OnTime (s : Session) (start : Int) (st : State) (c : Int) : Prop where
  started : start ≤ c
  left : c + setAside s st ≤ start + s.budget.toInt

/-- The time that is left when the run of a turn is started. -/
def Turn.InTime (s : Session) (h : SessionHost σ) (deadline : Int) : Turn σ → Prop
  | .symbolic run w _ => run.timeout = s.symbolicSlice ∧
      h.now w + s.symbolicSlice.toInt + s.fuzzSlice.toInt ≤ deadline
  | .fuzz run w _ _ => run.duration = s.fuzzSlice ∧ h.now w + s.fuzzSlice.toInt ≤ deadline
  | .lastSymbolic run w _ => run.timeout.toInt = deadline - h.now w ∧ 0 < run.timeout.toInt
  | .evaluation | .noTime => True

theorem setAside_nonneg (ha : Affordable s) (st : State) : 0 ≤ setAside s st := by
  have hfuzz := ha.fuzzSlice
  unfold setAside
  split
  · exact hfuzz
  · split
    · exact hfuzz
    · exact Int.le_refl _
  · exact Int.le_refl _

theorem OnTime.le (ha : Affordable s) (hon : OnTime s start st c) :
    c ≤ start + s.budget.toInt := by
  have hleft := hon.left
  have hnonneg := setAside_nonneg ha st
  omega

/-- What is left of the time while the session has some of its budget. -/
theorem OnTime.timeLeft (ha : Affordable s) (hon : OnTime s start st c) :
    (timeLeft (start + s.budget.toInt) c).toInt = start + s.budget.toInt - c := by
  have hlt : s.budget.toInt < Word64.half := s.budget.nanos.toInt_lt
  have hstarted := hon.started
  have hleft := hon.left
  have hnonneg := setAside_nonneg ha st
  have hhalf : (0 : Int) ≤ Word64.half := Int.natCast_nonneg _
  exact toInt_timeLeft (by omega) (by omega)

theorem symbolicLast_append (st : State) (r : Result) (results : List Result)
    (h : st.results = results ++ [r]) : st.symbolicLast = (r.kind == symbolicKind) := by
  simp [State.symbolicLast, h]

/-- A full round fits into the time left when the session goes on with one. -/
theorem OnTime.round_fits (ha : Affordable s) (hon : OnTime s start st c)
    (hround : ¬ Session.timeLeft (start + s.budget.toInt) c < s.symbolicSlice + s.fuzzSlice) :
    c + s.symbolicSlice.toInt + s.fuzzSlice.toInt ≤ start + s.budget.toInt := by
  rw [Duration.lt_iff_toInt_lt, hon.timeLeft ha,
    Duration.toInt_add ha.symbolicSlice ha.fuzzSlice ha.round] at hround
  omega

/-- An evaluation sets aside no more than was set aside for what follows it. -/
theorem setAside_evaluate_le (ha : Affordable s) (hstage : st.stage = .evaluate) (stage : Stage) :
    setAside s (evaluate (st.entering stage)) ≤ setAside s st := by
  have hlast : (st.entering stage).symbolicLast = st.symbolicLast := rfl
  have hbefore : setAside s st = if st.symbolicLast then s.fuzzSlice.toInt else 0 := by
    simp only [setAside, hstage]
  unfold evaluate
  split
  · exact setAside_nonneg ha st
  · rw [hbefore, hlast]
    split
    · exact Int.le_refl _
    · exact Int.le_refl _

/-- A last symbolic run gets the time that is left, and takes no more. -/
theorem last_clocked {deadline : Int} {w₀ w : σ} {seedDir : String} {run : SymbolicRun}
    {kept : Option Kept} (hpunctual : Punctual s h)
    (htimeLeft : (Session.timeLeft deadline c).toInt = deadline - c) (hc : h.now w₀ = c)
    (htime : Duration.zero < Session.timeLeft deadline (h.now w₀))
    (hrun : RunsSymbolic s h (Session.timeLeft deadline (h.now w₀)) seedDir ps run w)
    (hturn : t = .lastSymbolic run w kept) (hclock : Clocked h (h.now w₀) ps c') :
    t.InTime s h deadline ∧ (c ≤ c' ∧ c' ≤ deadline) ∧ NotAfter h deadline ps := by
  subst hturn
  rw [hc] at htime hrun hclock
  rw [Duration.lt_iff_toInt_lt, htimeLeft] at htime
  have hzero : Duration.zero.toInt = 0 := rfl
  obtain ⟨htimeout, hw, hlow, hhigh, hwithin⟩ := hrun.clocked hpunctual (by omega) hclock
  have htimeout' : run.timeout.toInt = deadline - c := by rw [htimeout, htimeLeft]
  refine ⟨⟨by omega, by omega⟩, ⟨hlow, by omega⟩, hwithin.mono (by omega)⟩

/-- A symbolic run for which a full round fits is started in time and leaves the fuzzing slice. -/
theorem RunsSymbolic.leaves_slice {deadline : Int} {w : σ} {seedDir : String} {run : SymbolicRun}
    (hpunctual : Punctual s h) (ha : Affordable s)
    (hrun : RunsSymbolic s h s.symbolicSlice seedDir ps run w)
    (hfits : c + s.symbolicSlice.toInt + s.fuzzSlice.toInt ≤ deadline)
    (hclock : Clocked h c ps c') (kept : Option Kept) :
    (Turn.symbolic run w kept).InTime s h deadline ∧
      (c ≤ c' ∧ c' + s.fuzzSlice.toInt ≤ deadline) ∧ NotAfter h deadline ps := by
  have hfuzzSlice := ha.fuzzSlice
  obtain ⟨htimeout, hw, hlow, hhigh, hwithin⟩ := hrun.clocked hpunctual ha.symbolicSlice hclock
  exact ⟨⟨htimeout, by omega⟩, ⟨hlow, by omega⟩, hwithin.mono (by omega)⟩

/-- A fuzzing run whose slice fits is started in time and does not go beyond the deadline. -/
theorem RunsFuzz.within_slice {deadline : Int} {w : σ} {inputDir : String} {run : FuzzRun}
    (hpunctual : Punctual s h) (hrun : RunsFuzz s h inputDir ps run w)
    (hfits : c + s.fuzzSlice.toInt ≤ deadline) (hclock : Clocked h c ps c') (kept : Option Kept)
    (converted : Option (Int × Option Failure)) :
    (Turn.fuzz run w kept converted).InTime s h deadline ∧ (c ≤ c' ∧ c' ≤ deadline) ∧
      NotAfter h deadline ps := by
  obtain ⟨hduration, hw, hlow, hhigh, hwithin⟩ := hrun.clocked hpunctual hclock
  exact ⟨⟨hduration, by omega⟩, ⟨hlow, by omega⟩, hwithin.mono (by omega)⟩

/-- After a fuzzing run no other one follows, so nothing is set aside. -/
theorem setAside_of_fuzz_last {r : Result} {results : List Result}
    (hresults : st.results = results ++ [r]) (hkind : r.kind = fuzzKind) :
    setAside s { st with stage := .evaluate } = 0 := by
  have hlast : st.symbolicLast = false := by
    rw [symbolicLast_append st r results hresults, hkind]
    rfl
  have hlast' : State.symbolicLast { st with stage := .evaluate } = false := hlast
  simp [setAside, hlast']

/-- The stage that is entered finds the time that it needs: a full round for a symbolic stage, what
was set aside for a fuzzing stage. -/
theorem OnTime.fits (ha : Affordable s) (hon : OnTime s start st c) {stage : Stage}
    (hnext : s.nextStage (start + s.budget.toInt) c st.stage = stage) :
    (stage = .symbolic →
      c + s.symbolicSlice.toInt + s.fuzzSlice.toInt ≤ start + s.budget.toInt) ∧
    (stage = .fuzz → c + s.fuzzSlice.toInt ≤ start + s.budget.toInt) ∧
    (stage = .evaluate → st.stage = .evaluate) := by
  have hleft := hon.left
  have hcases := nextStage_cases s (start + s.budget.toInt) c st.stage
  rw [hnext] at hcases
  refine ⟨?_, ?_, ?_⟩
  · rintro rfl
    rcases hcases with ⟨heq, hgo⟩ | ⟨-, heq⟩
    -- The stage was not put off, so a round was found to fit.
    · exact hon.round_fits ha (hgo heq.symm)
    · cases heq
  · rintro rfl
    rcases hcases with ⟨heq, -⟩ | ⟨-, heq⟩
    · rwa [setAside, ← heq] at hleft
    · cases heq
  · rintro rfl
    rcases hcases with ⟨heq, -⟩ | ⟨-, heq⟩
    · exact heq.symm
    · cases heq

/-- One stage: its run is started in time, it does not go beyond the deadline, and neither does what
is set aside after it. -/
theorem OnTime.step (hl : Labels h) (hpunctual : Punctual s h) (ha : Affordable s)
    (hon : OnTime s start st c)
    (hp : Performed s h (start + s.budget.toInt)
      (st.entering (s.nextStage (start + s.budget.toInt) c st.stage)) t ps ended)
    (hclock : Clocked h c ps c') :
    t.InTime s h (start + s.budget.toInt) ∧ NotAfter h (start + s.budget.toInt) ps ∧
      ∀ st', ended = .ok st' → OnTime s start st' c' := by
  have hstarted := hon.started
  have hleft := hon.left
  have hfuzzSlice := ha.fuzzSlice
  have hnonneg := setAside_nonneg ha st
  have htimeLeft := hon.timeLeft ha
  obtain ⟨hround, hfuzz, hevaluate⟩ := hon.fits ha rfl
  generalize s.nextStage (start + s.budget.toInt) c st.stage = stage at hp hround hfuzz hevaluate
  generalize hdeadline : start + s.budget.toInt = deadline at *
  cases hp with
  | symbolic hstage hrun hreturned =>
    obtain ⟨d, hrunClock, hlook⟩ := clocked_append_iff.mp hclock
    simp only [clocked_cons_iff, clocked_nil_iff] at hlook
    obtain ⟨hinTime, hend, hwithin⟩ :=
      hrun.leaves_slice hpunctual ha (hround hstage) hrunClock (some _)
    refine ⟨hinTime, notAfter_append_iff.mpr ⟨hwithin,
      notAfter_cons_iff.mpr ⟨by omega, notAfter_nil _⟩⟩, ?_⟩
    rintro st' ⟨⟩
    -- Of the round that fitted, the fuzzing slice is left.
    refine ⟨by omega, ?_⟩
    simp only [setAside]
    split
    · omega
    · omega
  | symbolicBroken hstage hrun hbroken =>
    obtain ⟨hinTime, -, hwithin⟩ := hrun.leaves_slice hpunctual ha (hround hstage) hclock none
    refine ⟨hinTime, hwithin, ?_⟩
    rintro st' ⟨⟩
  | @fuzz _ _ run w w' r converted st'' hstage hrun hreturned hconverts =>
    obtain ⟨d, hrunClock, hlook⟩ := clocked_append_iff.mp hclock
    obtain ⟨hlook, hconvertClock⟩ := clocked_cons_iff.mp hlook
    obtain ⟨hinTime, hend, hwithin⟩ :=
      hrun.within_slice hpunctual (hfuzz hstage) hrunClock (some _) converted
    obtain ⟨hsame, hwithin'⟩ := hconverts.clocked hpunctual hconvertClock
    refine ⟨hinTime, notAfter_append_iff.mpr ⟨hwithin,
      notAfter_cons_iff.mpr ⟨by omega, hwithin'.mono (by omega)⟩⟩, ?_⟩
    rintro st' ⟨⟩
    have haside : setAside s { st'' with stage := .evaluate } = 0 :=
      setAside_of_fuzz_last hconverts.recorded.2.1 (hl.fuzz run w r hreturned)
    exact ⟨by omega, by omega⟩
  | fuzzBroken hstage hrun hbroken =>
    obtain ⟨hinTime, -, hwithin⟩ := hrun.within_slice hpunctual (hfuzz hstage) hclock none none
    refine ⟨hinTime, hwithin, ?_⟩
    rintro st' ⟨⟩
  | evaluation hstage =>
    refine ⟨trivial, notAfter_nil _, ?_⟩
    rintro st' ⟨⟩
    obtain rfl := clocked_nil_iff.mp hclock
    have hkept := setAside_evaluate_le ha (hevaluate hstage) stage
    exact ⟨by omega, by omega⟩
  | lastSymbolic hstage htime hrun hreturned =>
    obtain ⟨d, hrunClock, hlook⟩ := clocked_append_iff.mp hclock
    obtain ⟨hc, hrunClock⟩ := clocked_cons_iff.mp hrunClock
    simp only [clocked_cons_iff, clocked_nil_iff] at hlook
    obtain ⟨hinTime, hend, hwithin⟩ :=
      last_clocked (t := .lastSymbolic _ _ _) hpunctual htimeLeft hc htime hrun rfl hrunClock
    refine ⟨hinTime, notAfter_append_iff.mpr ⟨notAfter_cons_iff.mpr ⟨by omega, hwithin⟩,
      notAfter_cons_iff.mpr ⟨by omega, notAfter_nil _⟩⟩, ?_⟩
    rintro st' ⟨⟩
    exact ⟨by omega, by simp only [setAside]; omega⟩
  | lastBroken hstage htime hrun hbroken =>
    obtain ⟨hc, hrunClock⟩ := clocked_cons_iff.mp hclock
    obtain ⟨hinTime, hend, hwithin⟩ :=
      last_clocked (t := .lastSymbolic _ _ _) hpunctual htimeLeft hc htime hrun rfl hrunClock
    refine ⟨hinTime, notAfter_cons_iff.mpr ⟨by omega, hwithin⟩, ?_⟩
    rintro st' ⟨⟩
  | noTime hstage htime =>
    simp only [clocked_cons_iff, clocked_nil_iff] at hclock
    refine ⟨trivial, notAfter_cons_iff.mpr ⟨by omega, notAfter_nil _⟩, ?_⟩
    rintro st' ⟨⟩
    exact ⟨by omega, by simp only [setAside]; omega⟩

/-! ## The whole session -/

theorem Course.inTime (hl : Labels h) (hpunctual : Punctual s h) (ha : Affordable s)
    (hon : OnTime s start st c)
    (hcourse : Course s h (start + s.budget.toInt) st turns ps ended)
    (hclock : Clocked h c ps c') :
    (∀ t ∈ turns, t.InTime s h (start + s.budget.toInt)) ∧
      NotAfter h (start + s.budget.toInt) ps := by
  induction hcourse generalizing c with
  | stop => exact ⟨by simp, notAfter_nil _⟩
  | told =>
    obtain ⟨hc, -⟩ := clocked_cons_iff.mp hclock
    exact ⟨by simp, notAfter_cons_iff.mpr ⟨hc ▸ hon.le ha, notAfter_nil _⟩⟩
  | turn hgoing hfree hperformed hrest ih =>
    obtain ⟨hc, hclock⟩ := clocked_cons_iff.mp hclock
    obtain ⟨hc', hclock⟩ := clocked_cons_iff.mp hclock
    -- The clock is looked at twice before the stage, which starts at the time found then.
    obtain ⟨d, hstageClock, hrestClock⟩ := clocked_append_iff.mp hclock
    rw [hc'.trans hc] at hperformed hstageClock
    obtain ⟨hturn, hwithin, hnext⟩ := hon.step hl hpunctual ha hperformed hstageClock
    obtain ⟨hturns, hwithin'⟩ := ih (hnext _ rfl) hrestClock
    have hle := hon.le ha
    refine ⟨List.forall_mem_cons.mpr ⟨hturn, hturns⟩, ?_⟩
    exact notAfter_cons_iff.mpr ⟨by omega, notAfter_cons_iff.mpr ⟨by omega,
      notAfter_append_iff.mpr ⟨hwithin, hwithin'⟩⟩⟩
  | broken hgoing hfree hperformed =>
    obtain ⟨hc, hclock⟩ := clocked_cons_iff.mp hclock
    obtain ⟨hc', hclock⟩ := clocked_cons_iff.mp hclock
    rw [hc'.trans hc] at hperformed hclock
    obtain ⟨hturn, hwithin, -⟩ := hon.step hl hpunctual ha hperformed hclock
    have hle := hon.le ha
    refine ⟨by simpa using hturn, ?_⟩
    exact notAfter_cons_iff.mpr ⟨by omega, notAfter_cons_iff.mpr ⟨by omega, hwithin⟩⟩

/-- If only runs take time, and no more than they are given, a session ends within its budget. A
full round fits into the time left when one of its symbolic runs is started, and a fuzzing slice
when a fuzzing run is; a last symbolic run gets just the time that is left, and there is some. -/
theorem job_within_budget (s : Session) (h : SessionHost σ) (hl : Labels h)
    (hpunctual : Punctual s h) (ha : Affordable s) {fuel : Nat} {ps : List (σ × σ)}
    {e : Except String Outcome} (htakes : (s.job h fuel).Takes ps e)
    (hstill : ps.IsChain fun p q => h.now q.1 = h.now p.2) :
    ∃ w qs turns, ps = (w, w) :: qs ∧ Happened s h turns ps ∧
      (∀ out, e = .ok out → out.stages = turns.map Turn.stage ++ [.done] ∧
        out.results = turns.filterMap Turn.result?) ∧
      (∀ p ∈ ps, h.now p.2 ≤ h.now w + s.budget.toInt) ∧
      ∀ t ∈ turns, t.InTime s h (h.now w + s.budget.toInt) := by
  rcases takes_job htakes with ⟨w, qs, turns, ended, rfl, -, -, hcourse, -, hout⟩
  obtain ⟨c', hclock⟩ := exists_clocked hstill
  obtain ⟨-, hclock⟩ := clocked_cons_iff.mp hclock
  have hbudget := ha.budget
  have hon : OnTime s (h.now w) {} (h.now w) := ⟨Int.le_refl _, by simp only [setAside]; omega⟩
  obtain ⟨hturns, hwithin⟩ := hcourse.inTime hl hpunctual ha hon hclock
  exact ⟨w, qs, turns, rfl, ⟨w, qs, _, rfl, hcourse⟩, hout,
    notAfter_cons_iff.mpr ⟨by omega, hwithin⟩, hturns⟩

/-- Rehearsed runs that take as long as they may. -/
theorem punctual_host {script : SessionScript} (hslice : 0 ≤ s.fuzzSlice.toInt)
    (hsymbolic : ∀ r ∈ script.symbolic, r.takes = none)
    (hfuzz : ∀ r ∈ script.fuzz, r.takes = none) : Punctual s script.host := by
  -- A run without a time of its own takes all the time it is given.
  have htakes : ∀ {rs : List RunScript}, (∀ r ∈ rs, r.takes = none) → ∀ n : Nat,
      ((rs[n]?).getD {}).takes = none := by
    intro rs hrs n
    cases hn : rs[n]? with
    | none => rfl
    | some r => exact hrs r (List.mem_of_getElem? hn)
  refine ⟨fun _ _ => rfl, fun _ _ _ _ => rfl, ?_, ?_⟩
  · intro run w hnonneg
    have hclock : script.host.now (script.host.symbolic run w).2 =
        w.clock + (((script.symbolic[w.symbolic.length]?).getD {}).takes.getD
          run.timeout).toInt := rfl
    rw [htakes hsymbolic] at hclock
    have hnow : script.host.now w = w.clock := rfl
    rw [hclock, hnow]
    simp only [Option.getD_none]
    omega
  · intro run w hduration
    have hclock : script.host.now (script.host.fuzz run w).2 =
        w.clock + (((script.fuzz[w.fuzz.length]?).getD {}).takes.getD
          run.duration).toInt := rfl
    rw [htakes hfuzz, Option.getD_none, hduration] at hclock
    have hnow : script.host.now w = w.clock := rfl
    rw [hclock, hnow]
    omega

/-- A session with time for one full round. -/
def roundSession : Session := { idleSession with budget := Duration.ofNanos 35 }

theorem job_within_budget_round :
    ∃ ps out, (roundSession.job fuzzedScript.host 12).Takes ps (.ok out) ∧
      out.stages = [.symbolic, .evaluate, .fuzz, .evaluate, .finalSymbolic, .done] ∧
      ∀ p ∈ ps, p.2.clock ≤ 35 := by
  have hstages : ((roundSession.job fuzzedScript.host 12).run {}).1.toOption.map (·.stages) =
      some [.symbolic, .evaluate, .fuzz, .evaluate, .finalSymbolic, .done] := by
    decide +kernel
  have htakes := (roundSession.job fuzzedScript.host 12).takes_run {}
  have hchain := (roundSession.job fuzzedScript.host 12).isChain_steps {}
  cases hout : ((roundSession.job fuzzedScript.host 12).run {}).1 with
  | error why =>
    rw [hout] at hstages
    cases hstages
  | ok out =>
    rw [hout] at hstages htakes
    obtain ⟨w, qs, turns, hps, -, -, hwithin, -⟩ := job_within_budget roundSession fuzzedScript.host
      (labels_host _) (punctual_host (by decide) (by decide) (by decide))
      ⟨by decide, by decide, by decide, by decide⟩ htakes
      (hchain.imp fun p q hsame => congrArg SessionStage.clock hsame)
    have hstart : ((roundSession.job fuzzedScript.host 12).steps {}).head? = some ({}, {}) := rfl
    rw [hps] at hstart
    obtain rfl : w = {} := (Prod.mk.inj (Option.some.inj hstart)).1
    exact ⟨_, out, htakes, Option.some.inj hstages, hwithin⟩

end Session
end FaultChain
