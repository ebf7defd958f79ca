import FaultChain.Proofs.Session.Progress
import FaultChain.Proofs.Session.Stages

/-!
# Progress and the length of a session

A session goes on only while one of its two latest runs progressed, and a run progresses only if it
gets beyond all earlier ones. So the number of runs is bounded by what there is to be reached,
whatever the clock says.

* `Session.Tallies`: what is reached is what the turns so far reached.
* `Session.Spread`: every run but the last one is followed by an evaluation.
* `Session.takes_proceed_more`: a session that ended does not depend on how many stages it may
  enter.
* `Session.job_growth`: which runs progress, and how many runs there are.
-/

namespace FaultChain
namespace Session

variable {σ : Type}

/-! ## What turns reach -/

namespace Turn

/-- Whether the run of a turn is recorded as one that progressed. -/
def progresses (t : Turn σ) : Bool := t.result?.any (·.progress)

/-- The readable coverage of the symbolic run of a turn. -/
def coverage? (t : Turn σ) : Option Coverage :=
  t.symbolicRun?.bind fun _ => t.kept?.bind fun kept =>
    Progress.coverage? kept.found kept.result.outDir

/-- The number of paths that the fuzzing run of a turn ends with. -/
def totalPaths? (t : Turn σ) : Option Int :=
  t.fuzzRun?.bind fun _ => t.kept?.bind fun kept =>
    Progress.totalPaths? kept.found kept.result.outDir

/-- A line is covered that no earlier turn covers. -/
def CoversNew (before : List (Turn σ)) (t : Turn σ) : Prop :=
  ∃ c, t.coverage? = some c ∧ ∃ x ∈ Progress.covered c,
    ∀ t' ∈ before, ∀ c', t'.coverage? = some c' → x ∉ Progress.covered c'

/-- There are paths, and more than after any earlier turn that progressed. -/
def FindsMore (before : List (Turn σ)) (t : Turn σ) : Prop :=
  ∃ n, t.totalPaths? = some n ∧ 0 < n ∧
    ∀ t' ∈ before, t'.progresses = true → ∀ m, t'.totalPaths? = some m → m < n

end Turn

variable {s : Session} {h : SessionHost σ} {deadline : Int} {st st' : State} {t : Turn σ}
  {turns before : List (Turn σ)} {ps : List (σ × σ)} {ended : Except String State}

/-- The symbolic runs that progressed. -/
def symbolicGains (turns : List (Turn σ)) : Nat :=
  turns.countP fun t => t.symbolicRun?.isSome && t.progresses

/-- The fuzzing runs that progressed. -/
def fuzzGains (turns : List (Turn σ)) : Nat :=
  turns.countP fun t => t.fuzzRun?.isSome && t.progresses

/-- What is reached is what the turns so far reached, and each of them that progressed counts. -/
structure Tallies (turns : List (Turn σ)) (p : Progress) : Prop where
  tidy : Progress.Tidy p.lines
  lines : ∀ x, x ∈ Progress.points p.lines ↔
    ∃ t ∈ turns, ∃ c, t.coverage? = some c ∧ x ∈ Progress.covered c
  paths_le : ∀ t ∈ turns, t.progresses = true → ∀ n, t.totalPaths? = some n → n ≤ p.paths
  paths_found : p.paths = 0 ∨
    ∃ t ∈ turns, t.progresses = true ∧ t.totalPaths? = some p.paths
  symbolicGains_le : symbolicGains turns ≤ Progress.count p.lines
  fuzzGains_le : (fuzzGains turns : Int) ≤ p.paths

/-- Which runs progress. -/
structure Gains (before : List (Turn σ)) (t : Turn σ) : Prop where
  symbolic : t.symbolicRun?.isSome = true → (t.progresses = true ↔ t.CoversNew before)
  fuzz : t.fuzzRun?.isSome = true → (t.progresses = true ↔ t.FindsMore before)

theorem tallies_start : Tallies ([] : List (Turn σ)) {} where
  tidy := ⟨List.nodup_nil, by simp⟩
  lines := by simp [Progress.points]
  paths_le := by simp
  paths_found := Or.inl rfl
  symbolicGains_le := Nat.le_refl _
  fuzzGains_le := Int.le_refl _

/-- A turn that neither progresses nor covers anything adds nothing to what was reached. -/
theorem Tallies.append_idle {p : Progress} (hc : Tallies before p)
    (hprogresses : t.progresses = false) (hcoverage : t.coverage? = none) :
    Tallies (before ++ [t]) p where
  tidy := hc.tidy
  lines := by simpa [hcoverage] using hc.lines
  paths_le := by simpa [hprogresses, or_imp, forall_and] using hc.paths_le
  paths_found := by simpa [hprogresses] using hc.paths_found
  symbolicGains_le := by simpa [symbolicGains, hprogresses] using hc.symbolicGains_le
  fuzzGains_le := by simpa [fuzzGains, hprogresses] using hc.fuzzGains_le

/-- A turn without a run that returned. -/
theorem Tallies.append_of_none {p : Progress} (hc : Tallies before p) (hnone : t.kept? = none) :
    Gains before t ∧ Tallies (before ++ [t]) p := by
  have hprogresses : t.progresses = false := by simp [Turn.progresses, Turn.result?, hnone]
  have hcoverage : t.coverage? = none := by simp [Turn.coverage?, hnone]
  have htotal : t.totalPaths? = none := by simp [Turn.totalPaths?, hnone]
  refine ⟨{ symbolic := fun _ => ?_, fuzz := fun _ => ?_ }, hc.append_idle hprogresses hcoverage⟩
  · simp [hprogresses, Turn.CoversNew, hcoverage]
  · simp [hprogresses, Turn.FindsMore, htotal]

/-- A symbolic run that returned. -/
theorem Tallies.symbolic {files : FileTree} {r : Result} (hc : Tallies before st.reached)
    (hkept : t.kept? = some (keepSymbolic st files r)) (hrun : t.symbolicRun?.isSome = true)
    (hnot : t.fuzzRun? = none) :
    Gains before t ∧ Tallies (before ++ [t]) (addSymbolic st files r).reached := by
  obtain ⟨run, hrun'⟩ := Option.isSome_iff_exists.mp hrun
  obtain ⟨htidy, hpaths, hlines, hcount, hnew⟩ := Progress.symbolic_spec hc.tidy files r.outDir
  have hreached : (addSymbolic st files r).reached = (st.reached.symbolic files r.outDir).2 := rfl
  have hprogresses : t.progresses = (st.reached.symbolic files r.outDir).1 := by
    simp [Turn.progresses, Turn.result?, hkept, keepSymbolic]
  have hcoverage : t.coverage? = Progress.coverage? files r.outDir := by
    simp [Turn.coverage?, hrun', hkept, keepSymbolic]
  have htotal : t.totalPaths? = none := by simp [Turn.totalPaths?, hnot]
  rw [hreached]
  rw [← hprogresses, ← hcoverage] at hnew
  rw [← hcoverage] at hlines
  rw [← hprogresses] at hcount
  -- From here on only what is known of the new progress matters, not how it came about.
  generalize (st.reached.symbolic files r.outDir).2 = p at *
  refine ⟨⟨fun _ => ?_, by simp [hnot]⟩, ⟨htidy, ?_, ?_, ?_, ?_, ?_⟩⟩
  · rw [hnew]
    simp only [Turn.CoversNew, hc.lines, not_exists, not_and]
  · intro x
    rw [hlines x, hc.lines x]
    simp only [List.mem_append, List.mem_singleton, or_and_right, exists_or, exists_eq_left]
  · rw [hpaths]
    simpa [htotal, or_imp, forall_and] using hc.paths_le
  · rw [hpaths]
    simpa [htotal] using hc.paths_found
  · have hle := hc.symbolicGains_le
    have hone : symbolicGains (before ++ [t]) = symbolicGains before + t.progresses.toNat := by
      cases hp : t.progresses <;> simp [symbolicGains, hrun, hp]
    omega
  · rw [hpaths]
    simpa [fuzzGains, hnot] using hc.fuzzGains_le

/-- More paths than were counted are more than after any earlier run that progressed: the count is
that of one of those runs, or none was found. -/
theorem Tallies.lt_iff_findsMore {p : Progress} (hc : Tallies before p) :
    (∃ n, t.totalPaths? = some n ∧ p.paths < n) ↔ t.FindsMore before := by
  refine exists_congr fun n => and_congr_right fun _ => ?_
  constructor
  · intro hlt
    have hpos : 0 ≤ p.paths := Int.le_trans (Int.natCast_nonneg _) hc.fuzzGains_le
    refine ⟨by omega, ?_⟩
    intro t' ht' hprogresses m hm
    have hle := hc.paths_le t' ht' hprogresses m hm
    omega
  · rintro ⟨hpos, hall⟩
    rcases hc.paths_found with hzero | ⟨t', ht', hprogresses, hm⟩
    · omega
    · exact hall t' ht' hprogresses _ hm

/-- A fuzzing run that progressed raises the number of paths. -/
theorem Tallies.append_fuzz {p p' : Progress} (hc : Tallies before p)
    (hprogresses : t.progresses = true) (hrun : t.fuzzRun?.isSome = true)
    (hnot : t.symbolicRun? = none) (hlines : p'.lines = p.lines)
    (hfound : t.totalPaths? = some p'.paths) (hlt : p.paths < p'.paths) :
    Tallies (before ++ [t]) p' where
  tidy := hlines ▸ hc.tidy
  lines := by
    rw [hlines]
    simpa [Turn.coverage?, hnot] using hc.lines
  paths_le := by
    intro t' ht' hp' n hn
    rcases List.mem_append.mp ht' with ht' | ht'
    -- Earlier runs found fewer paths than this one.
    · have hle := hc.paths_le t' ht' hp' n hn
      omega
    · rw [List.mem_singleton.mp ht', hfound] at hn
      exact Int.le_of_eq (Option.some.inj hn).symm
  paths_found := Or.inr ⟨t, by simp, hprogresses, hfound⟩
  symbolicGains_le := by
    rw [hlines]
    simpa [symbolicGains, hnot] using hc.symbolicGains_le
  fuzzGains_le := by
    have hone : fuzzGains (before ++ [t]) = fuzzGains before + 1 := by
      simp [fuzzGains, hrun, hprogresses]
    have hle := hc.fuzzGains_le
    omega

/-- A fuzzing run that returned. -/
theorem Tallies.fuzz {files : FileTree} {r : Result} (hc : Tallies before st.reached)
    (hkept : t.kept? = some (keepFuzz st files r)) (hrun : t.fuzzRun?.isSome = true)
    (hnot : t.symbolicRun? = none) :
    Gains before t ∧ Tallies (before ++ [t]) (addFuzz st files r).reached := by
  obtain ⟨run, hrun'⟩ := Option.isSome_iff_exists.mp hrun
  obtain ⟨hlines, hgrown, hsame, hmore⟩ := Progress.fuzz_spec st.reached files r.outDir
  have hreached : (addFuzz st files r).reached = (st.reached.fuzz files r.outDir).2 := rfl
  have hprogresses : t.progresses = (st.reached.fuzz files r.outDir).1 := by
    simp [Turn.progresses, Turn.result?, hkept, keepFuzz]
  have htotal : t.totalPaths? = Progress.totalPaths? files r.outDir := by
    simp [Turn.totalPaths?, hrun', hkept, keepFuzz]
  have hcoverage : t.coverage? = none := by simp [Turn.coverage?, hnot]
  rw [hreached]
  rw [← hprogresses, ← htotal] at hmore hgrown
  rw [← hprogresses] at hsame
  generalize (st.reached.fuzz files r.outDir).2 = p at *
  refine ⟨{ symbolic := by simp [hnot], fuzz := fun _ => hmore.trans hc.lt_iff_findsMore }, ?_⟩
  -- A run that did not progress leaves the tallies alone.
  cases hp : t.progresses with
  | false =>
    rw [hsame hp]
    exact hc.append_idle hp hcoverage
  | true =>
    obtain ⟨hfound, hlt⟩ := hgrown hp
    exact hc.append_fuzz hp hrun hnot hlines hfound hlt

/-- Which runs progress, and what is reached after a stage. -/
theorem Tallies.step {stage : Stage} (hc : Tallies before st.reached)
    (hp : Performed s h deadline (st.entering stage) t ps ended) :
    Gains before t ∧ ∀ st', ended = .ok st' → Tallies (before ++ [t]) st'.reached := by
  have hc' : Tallies before (st.entering stage).reached := hc
  -- Only the two kinds of runs change what is reached.
  cases hp with
  | symbolic hstage =>
    obtain ⟨hgains, hafter⟩ := hc'.symbolic (t := .symbolic _ _ _) rfl rfl rfl
    refine ⟨hgains, ?_⟩
    rintro st' ⟨⟩
    exact hafter
  | fuzz hstage hrun hreturned hconverts =>
    obtain ⟨hgains, hafter⟩ := hc'.fuzz (t := .fuzz _ _ _ _) rfl rfl rfl
    obtain ⟨-, -, hreached⟩ := hconverts.recorded
    refine ⟨hgains, ?_⟩
    rintro st' ⟨⟩
    exact hreached ▸ hafter
  | lastSymbolic hstage =>
    obtain ⟨hgains, hafter⟩ := hc'.symbolic (t := .lastSymbolic _ _ _) rfl rfl rfl
    refine ⟨hgains, ?_⟩
    rintro st' ⟨⟩
    exact hafter
  | evaluation hstage =>
    obtain ⟨hgains, hafter⟩ := hc'.append_of_none (t := .evaluation) rfl
    refine ⟨hgains, ?_⟩
    rintro st' ⟨⟩
    obtain ⟨next, converged, heq⟩ := evaluate_eq (st.entering stage)
    rw [heq]
    exact hafter
  | noTime hstage =>
    obtain ⟨hgains, hafter⟩ := hc'.append_of_none (t := .noTime) rfl
    refine ⟨hgains, ?_⟩
    rintro st' ⟨⟩
    exact hafter
  | symbolicBroken | fuzzBroken | lastBroken =>
    refine ⟨(hc'.append_of_none rfl).1, ?_⟩
    rintro st' ⟨⟩

/-! ## The number of runs -/

/-- If of any two runs in a row, the last one left out, one progressed, at least about half of the
runs did. -/
theorem length_le_of_progressed {results : List Result}
    (h : ∀ n, 2 ≤ n → n < results.length → Progressed results n) :
    results.length ≤ 2 * results.countP (·.progress) + 2 := by
  -- Of the first `k` pairs of runs, each has one that progressed.
  have hpairs : ∀ k, 2 * k < results.length → k ≤ (results.take (2 * k)).countP (·.progress) := by
    intro k
    induction k with
    | zero => exact fun _ => Nat.zero_le _
    | succ k ih =>
      intro hlt
      obtain ⟨earlier, a, b, htake, hab⟩ := h (2 * (k + 1)) (by omega) hlt
      have hlength : earlier.length = 2 * k := by
        have hboth := congrArg List.length htake
        simp at hboth
        omega
      have hearlier : results.take (2 * k) = earlier := by
        have hprefix : (results.take (2 * (k + 1))).take (2 * k) = results.take (2 * k) := by
          rw [List.take_take, Nat.min_eq_left (by omega)]
        rw [← hprefix, htake, ← hlength, List.take_left]
      have hcount := ih (by omega)
      rw [hearlier] at hcount
      rw [htake, List.countP_append]
      have hone : 1 ≤ [a, b].countP (·.progress) := by
        refine List.countP_pos_iff.mpr ?_
        rcases hab with ha | hb
        · exact ⟨a, by simp, ha⟩
        · exact ⟨b, by simp, hb⟩
      omega
  rcases Nat.eq_zero_or_pos results.length with hzero | hpos
  · omega
  · have hhalf := hpairs ((results.length - 1) / 2) (by omega)
    have hsub := (List.take_sublist (2 * ((results.length - 1) / 2)) results).countP_le
      (p := (·.progress))
    omega

/-- Stages in which `count` runs are made, all but the last one followed by an evaluation that is
not the last stage. -/
structure Spread (ss : List Stage) (count : Nat) : Prop where
  evaluated : ∀ n, 1 ≤ n → n < count →
    ∃ before after, ss = before ++ .evaluate :: after ∧ runs before = n ∧ after ≠ []
  length_le : ss.length ≤ 2 * count + 1

theorem runs_rounds (k : Nat) : runs (rounds k) = 2 * k := by
  induction k with
  | zero => rfl
  | succ k ih =>
    rw [rounds_succ, runs_append, ih]
    rfl

theorem length_rounds (k : Nat) : (rounds k).length = 4 * k := by
  induction k with
  | zero => rfl
  | succ k ih =>
    rw [rounds_succ, List.length_append, ih]
    rfl

theorem exists_evaluate_rounds {k n : Nat} (hpos : 1 ≤ n) (hle : n ≤ 2 * k) :
    ∃ before after, rounds k = before ++ .evaluate :: after ∧ runs before = n ∧
      (n < 2 * k → after ≠ []) := by
  induction k with
  | zero => omega
  | succ k ih =>
    rw [rounds_succ]
    -- The evaluation after a run of the last round, or one of an earlier round.
    by_cases hearlier : n ≤ 2 * k
    · obtain ⟨before, after, heq, hruns, -⟩ := ih hearlier
      exact ⟨before, after ++ [.symbolic, .evaluate, .fuzz, .evaluate], by simp [heq], hruns,
        by simp⟩
    · rcases Nat.lt_or_ge n (2 * k + 2) with hodd | heven
      · refine ⟨rounds k ++ [.symbolic], [.fuzz, .evaluate], by simp, ?_, by simp⟩
        rw [runs_append, runs_rounds]
        change 2 * k + 1 = n
        omega
      · refine ⟨rounds k ++ [.symbolic, .evaluate, .fuzz], [], by simp, ?_, by omega⟩
        rw [runs_append, runs_rounds]
        change 2 * k + 2 = n
        omega

theorem spread_append {k count : Nat} {tail : List Stage} (htail : tail ≠ [] ∨ count ≤ 2 * k)
    (hcount : count ≤ 2 * k + 1) (hlength : 4 * k + tail.length ≤ 2 * count + 1) :
    Spread (rounds k ++ tail) count where
  evaluated := by
    intro n hpos hlt
    obtain ⟨before, after, heq, hruns, hmore⟩ := exists_evaluate_rounds (k := k) hpos (by omega)
    refine ⟨before, after ++ tail, by simp [heq], hruns, ?_⟩
    rcases htail with htail | hle
    · exact List.append_ne_nil_of_right_ne_nil _ htail
    · exact List.append_ne_nil_of_left_ne_nil (hmore (by omega)) _
  length_le := by rwa [List.length_append, length_rounds]

theorem Phase.spread {ss : List Stage} {stage : Stage} (hphase : Phase ss stage) :
    Spread ss (runs ss) := by
  have hruns : ∀ k tail, runs (rounds k ++ tail) = 2 * k + runs tail := fun k tail => by
    rw [runs_append, runs_rounds]
  cases hphase with
  | symbolic k =>
    rw [runs_rounds]
    have hspread := @spread_append k (2 * k) [] (Or.inr (Nat.le_refl _)) (by omega) (by simp; omega)
    rwa [List.append_nil] at hspread
  | symbolicDone k =>
    rw [hruns]
    exact spread_append (Or.inl (List.cons_ne_nil _ _)) (Nat.le_refl _)
      (by simp [runs, Stage.kind?]; omega)
  | fuzz k =>
    rw [hruns]
    exact spread_append (Or.inl (List.cons_ne_nil _ _)) (Nat.le_refl _)
      (by simp [runs, Stage.kind?]; omega)
  | fuzzDone k =>
    rw [hruns]
    refine ⟨?_, by simp [length_rounds, runs, Stage.kind?]; omega⟩
    intro n hpos hlt
    change n < 2 * k + 2 at hlt
    by_cases hearlier : n ≤ 2 * k
    · obtain ⟨before, after, heq, hbefore, -⟩ := exists_evaluate_rounds hpos hearlier
      exact ⟨before, after ++ [.symbolic, .evaluate, .fuzz], by simp [heq], hbefore, by simp⟩
    · refine ⟨rounds k ++ [.symbolic], [.fuzz], by simp, ?_, List.cons_ne_nil _ _⟩
      rw [hruns]
      change 2 * k + 1 = n
      omega

theorem EndsEvaluated.spread {ss : List Stage} (hends : EndsEvaluated ss) :
    Spread ss (runs ss) := by
  rcases hends with ⟨k, -, rfl | rfl⟩
  · exact (Phase.symbolic k).spread
  · exact (Phase.fuzz k).spread

theorem EndsSpent.spread {ss : List Stage} (hends : EndsSpent ss) :
    Spread ss (runs ss) ∧ Spread ss (runs ss + 1) := by
  rcases hends with ⟨k, rfl⟩
  have hruns : runs (rounds k ++ [.finalSymbolic]) = 2 * k := by
    rw [runs_append, runs_rounds]
    rfl
  rw [hruns]
  have htail : [Stage.finalSymbolic] ≠ [] := List.cons_ne_nil _ _
  exact ⟨spread_append (Or.inl htail) (by omega) (by simp; omega),
    spread_append (Or.inl htail) (Nat.le_refl _) (by simp; omega)⟩

/-- At most half of the runs did not progress, and there are at most as many evaluations as runs. -/
theorem Recorded.bounded {extra : List String} (hr : Recorded st extra)
    (hs : Spread st.stages (runs st.stages + extra.length)) :
    st.results.length ≤ 2 * st.results.countP (·.progress) + 2 ∧
      st.stages.length ≤ 2 * st.results.length + 1 := by
  have hlength : st.results.length = runs st.stages + extra.length := by
    simpa [runs] using congrArg List.length hr.kinds
  rw [← hlength] at hs
  refine ⟨length_le_of_progressed ?_, hs.length_le⟩
  intro n htwo hlt
  obtain ⟨before, after, heq, hruns, hafter⟩ := hs.evaluated n (by omega) hlt
  exact hruns ▸ hr.judged before after heq (fun _ => hafter) (hruns ▸ htwo)

theorem Course.bounded (hl : Labels h) (hcourse : Course s h deadline {} turns ps (.ok st')) :
    st'.results.length ≤ 2 * st'.results.countP (·.progress) + 2 ∧
      st'.stages.length ≤ 2 * st'.results.length + 1 := by
  rcases hcourse.outcome hl underWay_start with hconv | hspent | hu
  · exact hconv.recorded.bounded hconv.ends.spread
  · obtain ⟨hspread, hspread'⟩ := hspent.ends.spread
    rcases hspent.recorded with hr | hr
    · exact hr.bounded hspread
    · exact hr.bounded hspread'
  · exact hu.recorded.bounded hu.phase.spread

/-! ## The end of a session -/

/-- A session that is not cut off does the same if it may enter more stages. -/
theorem takes_proceed_more {fuel : Nat} {halt : Halt}
    (htakes : (s.proceed h deadline fuel st).Takes ps (.ok halt))
    (hfinished : halt.unfinished = false) (more : Nat) :
    (s.proceed h deadline (fuel + more) st).Takes ps (.ok halt) := by
  induction fuel generalizing st ps with
  | zero =>
    obtain ⟨rfl, heq⟩ := Job.takes_pure_iff.mp htakes
    cases heq
    -- Without fuel only a session that is done is not cut off.
    have hdone : st.stage = .done := by simpa using hfinished
    cases more with
    | zero => exact htakes
    | succ more => simpa [proceed, hdone] using htakes
  | succ fuel ih =>
    rw [Nat.succ_add]
    unfold proceed at htakes ⊢
    split
    · rename_i hdone
      rwa [if_pos hdone] at htakes
    · rename_i hnot
      rw [if_neg hnot] at htakes
      obtain ⟨stop, ps₁, ps₂, rfl, hlook, hrest⟩ := Job.takes_bind_iff.mp htakes
      refine Job.takes_bind_iff.mpr ⟨stop, ps₁, ps₂, rfl, hlook, ?_⟩
      split
      · rename_i hstop
        rwa [if_pos hstop] at hrest
      · rename_i hgo
        rw [if_neg hgo] at hrest
        obtain ⟨now, ps₃, ps₄, rfl, hnow, hstage⟩ := Job.takes_bind_iff.mp hrest
        refine Job.takes_bind_iff.mpr ⟨now, ps₃, ps₄, rfl, hnow, ?_⟩
        obtain ⟨e, ps₅, ps₆, rfl, hperform, hnext⟩ := Job.takes_bind_iff.mp hstage
        refine Job.takes_bind_iff.mpr ⟨e, ps₅, ps₆, rfl, hperform, ?_⟩
        cases e with
        | error why => cases (Job.takes_pure_iff.mp hnext).2
        | ok st'' => exact ih hnext

/-! ## The whole session -/

theorem countP_progresses_le (turns : List (Turn σ)) :
    turns.countP Turn.progresses ≤ symbolicGains turns + fuzzGains turns := by
  induction turns with
  | nil => exact Nat.le_refl _
  | cons t turns ih =>
    have hone : t.progresses.toNat ≤ (t.symbolicRun?.isSome && t.progresses).toNat +
        (t.fuzzRun?.isSome && t.progresses).toNat := by
      cases t with
      | symbolic | fuzz | lastSymbolic => simp [Turn.symbolicRun?, Turn.fuzzRun?]
      | evaluation | noTime => exact Nat.le_refl _
    have hcons : ∀ p : Turn σ → Bool, (t :: turns).countP p = turns.countP p + (p t).toNat := by
      intro p
      rw [List.countP_cons]
      cases p t <;> rfl
    unfold symbolicGains fuzzGains at ih ⊢
    rw [hcons, hcons, hcons]
    omega

/-- As many runs progress at most as there are lines to cover and paths to find. -/
theorem Tallies.progressing_le {p : Progress} (hc : Tallies turns p) {lines : Finset (String × Int)}
    {paths : Nat}
    (hlines : ∀ t ∈ turns, ∀ c, t.coverage? = some c → ∀ x ∈ Progress.covered c, x ∈ lines)
    (hpaths : ∀ t ∈ turns, ∀ n, t.totalPaths? = some n → n ≤ paths) :
    turns.countP Turn.progresses ≤ lines.card + paths := by
  -- The lines counted are all covered by some run.
  have hcount : Progress.count p.lines ≤ lines.card := by
    rw [Progress.count_eq_card hc.tidy]
    refine Finset.card_le_card fun x hx => ?_
    obtain ⟨t, ht, c, hcov, hx⟩ := (hc.lines x).mp (List.mem_toFinset.mp hx)
    exact hlines t ht c hcov x hx
  have hfound : p.paths ≤ paths := by
    rcases hc.paths_found with hzero | ⟨t, ht, -, hfound⟩
    · omega
    · exact hpaths t ht _ hfound
  have hsplit := countP_progresses_le turns
  have hsymbolic := hc.symbolicGains_le
  have hfuzz := hc.fuzzGains_le
  omega

/-- A symbolic run progresses exactly if its coverage can be read and has a line that no readable
coverage of an earlier one has, and a fuzzing run exactly if its records can be read and end with
more paths than those of all earlier ones that progressed, and with some. There are at most two runs
more than twice as many as progress. If there are only so many lines to be covered and paths to be
found, this bounds the session, which then ends for another reason than the number of stages it may
enter. -/
theorem job_growth (s : Session) (h : SessionHost σ) {fuel : Nat} {ps : List (σ × σ)}
    {e : Except String Outcome} (htakes : (s.job h fuel).Takes ps e) :
    ∃ turns, Happened s h turns ps ∧
      (∀ before t after, turns = before ++ t :: after →
        (t.symbolicRun?.isSome = true → (t.progresses = true ↔ t.CoversNew before)) ∧
        (t.fuzzRun?.isSome = true → (t.progresses = true ↔ t.FindsMore before))) ∧
      (Labels h → ∀ out, e = .ok out →
        out.results = turns.filterMap Turn.result? ∧
        out.results.length ≤ 2 * out.results.countP (·.progress) + 2 ∧
        ∀ (lines : Finset (String × Int)) (paths : Nat),
          (∀ t ∈ turns, ∀ c, t.coverage? = some c → ∀ x ∈ Progress.covered c, x ∈ lines) →
          (∀ t ∈ turns, ∀ n, t.totalPaths? = some n → n ≤ paths) →
          out.results.length ≤ 2 * (lines.card + paths) + 2 ∧
          (4 * (lines.card + paths) + 6 ≤ fuel → out.unfinished = false ∧
            ∀ more, (s.job h (fuel + more)).Takes ps (.ok out))) := by
  rcases takes_job htakes with ⟨w, qs, turns, ended, rfl, hproceed, rfl, hcourse, hstops, hout⟩
  have hstep : ∀ (before : List (Turn σ)) (st : State) stage t ps ended,
      Tallies before st.reached →
      Performed s h (h.now w + s.budget.toInt) (st.entering stage) t ps ended →
      Gains before t ∧ ∀ st', ended = .ok st' → Tallies (before ++ [t]) st'.reached :=
    fun _ _ _ _ _ _ hc hp => hc.step hp
  obtain ⟨hgains, htallies⟩ := Course.invariant hstep tallies_start hcourse
  refine ⟨turns, ⟨w, qs, _, rfl, hcourse⟩, ?_, ?_⟩
  · intro before t after heq
    have hg : Gains before t := hgains before t after heq
    exact ⟨hg.symbolic, hg.fuzz⟩
  · intro hl out heq
    cases ended with
    | error why => cases heq
    | ok halt =>
      cases heq
      obtain ⟨-, hresults⟩ := hout _ rfl
      obtain ⟨hruns, hstages⟩ := hcourse.bounded hl
      refine ⟨hresults, hruns, ?_⟩
      intro lines paths hlines hpaths
      have htallied : Tallies turns halt.state.reached := htallies _ rfl
      have hprogressing := htallied.progressing_le hlines hpaths
      have hcount : halt.state.results.countP (·.progress) = turns.countP Turn.progresses := by
        rw [show halt.state.results = turns.filterMap Turn.result? from hresults,
          List.countP_filterMap]
        refine List.countP_congr fun t _ => ?_
        unfold Turn.progresses
        cases t.result? <;> rfl
      have hbound : halt.state.results.length ≤ 2 * (lines.card + paths) + 2 := by omega
      refine ⟨hbound, ?_⟩
      intro hfuel
      -- The session entered fewer stages than it may, so it did not end for want of them.
      have hentered : halt.state.stages.length = turns.length := by
        simp [hcourse.recorded.1]
      have hfinished : halt.unfinished = false := by
        refine Bool.eq_false_iff.mpr fun hcut => ?_
        have hspent := (hstops halt rfl).spent hcut
        omega
      exact ⟨hfinished, fun more => takes_job_iff.mpr
        ⟨w, qs, .ok halt, rfl, takes_proceed_more hproceed hfinished more, rfl⟩⟩

/-- Four runs of which one progresses, as many as there can be. -/
theorem job_growth_fuzzed :
    ∃ ps out, ∃ turns : List (Turn SessionStage),
      (idleSession.job fuzzedScript.host 12).Takes ps (.ok out) ∧ out.results.length = 4 ∧
      out.results.countP (·.progress) = 1 ∧ turns.filterMap Turn.result? = out.results ∧
      (∀ before t after, turns = before ++ t :: after →
        t.fuzzRun?.isSome = true → (t.progresses = true ↔ t.FindsMore before)) ∧
      out.results.length ≤ 2 * out.results.countP (·.progress) + 2 := by
  obtain ⟨out, hout, hprogress⟩ := exists_fuzzed_outcome
  have htakes := (idleSession.job fuzzedScript.host 12).takes_run {}
  rw [hout] at htakes
  obtain ⟨turns, -, hgains, hbound⟩ := job_growth idleSession _ htakes
  obtain ⟨hresults, hruns, -⟩ := hbound (labels_host fuzzedScript) out rfl
  have hlength : out.results.length = 4 := by
    simpa using congrArg List.length hprogress
  have hcount : out.results.countP (·.progress) = 1 := by
    have hsame : out.results.countP (·.progress) = (out.results.map (·.progress)).countP id := by
      rw [List.countP_map]
      rfl
    rw [hsame, hprogress]
    rfl
  exact ⟨_, out, turns, htakes, hlength, hcount, hresults.symm,
    fun before t after heq => (hgains before t after heq).2, hruns⟩

end Session
end FaultChain
