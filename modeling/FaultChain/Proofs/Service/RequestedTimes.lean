import FaultChain.Proofs.Durations
import FaultChain.Service.Basic

/-!
# The times of a requested analysis

A request gives its times in seconds, an analysis runs with nanoseconds in 64 bits. Neither the step
from the ones to the others nor the sum of a round is checked for overflow: the checks look at the
times that come out.

* `AnalysisRequest.Times`, `AnalysisRequest.InRange`: the times of options, and requests whose times
  fit.
* `Options.RoundFits`: a round of a session fits into its time.
* `Options.validate_eq_ok_iff`: the options that are accepted.
* `Service.submit_exact_iff`: the main statement.
-/

namespace FaultChain

/-! ## Accepted options -/

theorem Check.rules_eq_nil_iff {path field : String} {rs : List (String × Bool)} :
    Check.rules path field rs = [] ↔ ∀ rule ∈ rs, rule.2 = true := by
  unfold Check.rules
  cases hfind : rs.find? (!·.2) with
  | none => simpa using List.find?_eq_none.mp hfind
  | some rule =>
    have hmem := List.mem_of_find?_eq_some hfind
    have hbroken : rule.2 = false := by simpa using List.find?_some hfind
    simp only [List.cons_ne_nil, false_iff]
    intro hall
    simp [hall rule hmem] at hbroken

namespace Options

variable {o : Options}

theorem validate_eq_ok_iff :
    o.validate = .ok () ↔
      o.violations = [] ∧ ¬ (o.fuzzing = true ∧ o.fuzzTime ≤ Duration.zero) ∧
        ¬ (o.useFlipper = true ∧ o.flipperTime < o.roundTime) := by
  unfold validate
  cases o.violations with
  | cons v vs => simp
  | nil => by_cases hfuzz : o.fuzzing = true ∧ o.fuzzTime ≤ Duration.zero <;> simp [hfuzz]

theorem maxTime_pos (h : o.violations = []) : 0 < o.maxTime.toInt := by
  simp only [violations, List.append_eq_nil_iff, Check.rules_eq_nil_iff, and_assoc] at h
  obtain ⟨-, -, hmaxTime, -⟩ := h
  exact Duration.lt_iff_toInt_lt.mp (by simpa using hmaxTime)

/-- A round of a session, one run of each backend, fits into the time of the session. -/
def RoundFits (o : Options) : Prop :=
  o.useFlipper = true → o.maxTime.toInt + o.fuzzTime.toInt ≤ o.flipperTime.toInt

/-- A round of accepted options fits exactly if its time fits into 64 bits. -/
theorem roundFits_iff (h : o.validate = .ok ()) :
    o.RoundFits ↔
      (o.useFlipper = true → o.maxTime.toInt + o.fuzzTime.toInt < Word64.half) := by
  obtain ⟨hviolations, hfuzz, hround⟩ := validate_eq_ok_iff.mp h
  refine forall_congr' fun hflipper => ?_
  have hfuzzTime : 0 ≤ o.fuzzTime.toInt := by
    have hlt : ¬ o.fuzzTime.toInt ≤ 0 := fun hle =>
      hfuzz ⟨by simp [fuzzing, hflipper], Duration.le_iff_toInt_le.mpr hle⟩
    omega
  have hle : o.roundTime ≤ o.flipperTime :=
    Int64.not_lt.mp fun hlt => hround ⟨hflipper, hlt⟩
  exact Duration.add_le_iff (Int.le_of_lt (maxTime_pos hviolations)) hfuzzTime hle

end Options

/-! ## Requested times -/

namespace AnalysisRequest

/-- The nanoseconds that a requested number of seconds stands for. -/
def nanos (requested : Int) (default : Duration) : Int :=
  if 0 < requested then requested * 1000000000 else default.toInt

/-- Options that have the requested times, each changed by `f`. -/
structure Times (f : Int → Int) (r : AnalysisRequest) (o : Options) : Prop where
  maxTime : o.maxTime.toInt = f (nanos r.maxTime Options.default.maxTime)
  maxInstructionTime :
    o.maxInstructionTime.toInt = f (nanos r.maxInstructionTime Options.default.maxInstructionTime)
  fuzzTime : o.fuzzTime.toInt = f (nanos r.fuzzTime Options.default.fuzzTime)
  runTimeout : o.runTimeout.toInt = f (nanos r.timeout Options.default.runTimeout)

/-- Requests with times of which each fits into a duration. -/
structure InRange (r : AnalysisRequest) : Prop where
  maxTime : r.maxTime ≤ Duration.mostSeconds
  maxInstructionTime : r.maxInstructionTime ≤ Duration.mostSeconds
  fuzzTime : r.fuzzTime ≤ Duration.mostSeconds
  timeout : r.timeout ≤ Duration.mostSeconds

/-- The time of a round that is asked for. -/
def roundNanos (r : AnalysisRequest) : Int :=
  nanos r.maxTime Options.default.maxTime + nanos r.fuzzTime Options.default.fuzzTime

theorem toInt_seconds (requested : Int) (default : Duration) :
    (seconds requested default).toInt = (nanos requested default).bmod Word64.count := by
  unfold seconds nanos
  split
  · exact Duration.toInt_ofSeconds requested
  · have hbounds := Duration.toInt_bounds default
    simp only [Word64.half] at hbounds
    refine (Int.bmod_eq_of_le ?_ ?_).symm <;> simp only [Word64.count] <;> omega

theorem toInt_seconds_eq_iff {requested : Int} {default : Duration} :
    (seconds requested default).toInt = nanos requested default ↔
      requested ≤ Duration.mostSeconds := by
  unfold seconds nanos
  split
  · rename_i hpos
    exact Duration.toInt_ofSeconds_eq_iff hpos
  · simp only [Duration.mostSeconds, true_iff]
    omega

variable {r : AnalysisRequest} {workDir : String} {id : Uuid}

/-- The times an analysis runs with are those requested, as far as they fit into 64 bits. -/
theorem times_options : Times (·.bmod Word64.count) r (r.options workDir id) where
  maxTime := toInt_seconds _ _
  maxInstructionTime := toInt_seconds _ _
  fuzzTime := toInt_seconds _ _
  runTimeout := toInt_seconds _ _

theorem exact_options_iff : Times (·) r (r.options workDir id) ↔ r.InRange := by
  constructor
  · intro h
    exact ⟨toInt_seconds_eq_iff.mp h.maxTime, toInt_seconds_eq_iff.mp h.maxInstructionTime,
      toInt_seconds_eq_iff.mp h.fuzzTime, toInt_seconds_eq_iff.mp h.runTimeout⟩
  · intro h
    exact ⟨toInt_seconds_eq_iff.mpr h.maxTime, toInt_seconds_eq_iff.mpr h.maxInstructionTime,
      toInt_seconds_eq_iff.mpr h.fuzzTime, toInt_seconds_eq_iff.mpr h.timeout⟩

end AnalysisRequest

/-! ## Accepted requests -/

namespace Service

open AnalysisRequest

variable {s s' : Service} {files : FileTree} {id : Uuid} {now : Int} {r : AnalysisRequest}

theorem of_submit_eq_ok (h : s.submit files id now r = .ok s') :
    (r.options s.workDir id).validate = .ok () ∧
      s' = { s with analyses := s.analyses ++
        [{ id := id, request := r, options := r.options s.workDir id, created := now }] } := by
  unfold submit refusal? at h
  cases hvalid : (r.options s.workDir id).validate with
  | error why => simp [hvalid] at h
  | ok u =>
    cases hstat : files.stat (r.options s.workDir id).bitcode with
    | error why => simp [hvalid, hstat] at h
    | ok e =>
      simp only [hvalid, hstat, Except.ok.injEq] at h
      exact ⟨rfl, h.symm⟩

/-- An accepted analysis runs with the requested times modulo `2 ^ 64`. They are exact if and only if
none is longer than a duration, and a round fits if and only if its time does not overflow. -/
theorem submit_exact_iff (h : s.submit files id now r = .ok s') :
    ∃ a : Analysis, s'.analyses = s.analyses ++ [a] ∧ a.id = id ∧ a.request = r ∧
      Times (·.bmod Word64.count) r a.options ∧
      (Times (·) r a.options ↔ r.InRange) ∧
      (a.options.RoundFits ↔ (r.useFlipper = true →
        a.options.maxTime.toInt + a.options.fuzzTime.toInt < Word64.half)) ∧
      (Times (·) r a.options ∧ a.options.RoundFits ↔
        r.InRange ∧ (r.useFlipper = true → r.roundNanos < Word64.half)) := by
  obtain ⟨hvalid, rfl⟩ := of_submit_eq_ok h
  have hround := Options.roundFits_iff hvalid
  refine ⟨_, rfl, rfl, rfl, times_options, exact_options_iff, hround, ?_⟩
  rw [hround, exact_options_iff]
  refine and_congr_right fun hrange => forall_congr' fun _ => ?_
  have hexact : Times (·) r (r.options s.workDir id) := exact_options_iff.mpr hrange
  rw [hexact.maxTime, hexact.fuzzTime, roundNanos]

/-- A request for a session whose round takes 292 years and ten minutes, and for an end of the
analysis after 584 years. -/
def endless : AnalysisRequest :=
  { bitcode := "prog.bc", useFlipper := true, maxTime := 9223372036, timeout := 18446744074 }

/-- It is accepted: no round fits into the half hour of its sessions, and it is stopped after less
than a second. -/
theorem submit_exact_iff_endless :
    ∃ s' a, (ofSlots "runs" 1 0).submit
        { root := .dir [("prog.bc", .file "" false)], cwd := [] } ⟨1⟩ 5 endless = .ok s' ∧
      s'.analyses = [a] ∧ a.options.runTimeout.toInt = 290448384 ∧
      ¬ Times (·) endless a.options ∧ ¬ a.options.RoundFits := by
  have hok : ((ofSlots "runs" 1 0).submit
      { root := .dir [("prog.bc", .file "" false)], cwd := [] } ⟨1⟩ 5 endless).toOption.isSome =
        true := by
    decide +kernel
  cases hsubmit : (ofSlots "runs" 1 0).submit
      { root := .dir [("prog.bc", .file "" false)], cwd := [] } ⟨1⟩ 5 endless with
  | error why => rw [hsubmit] at hok; cases hok
  | ok s' =>
    obtain ⟨a, hs', -, -, hwrapped, hexact, hround, -⟩ := submit_exact_iff hsubmit
    refine ⟨s', a, rfl, hs', ?_, ?_, ?_⟩
    · rw [hwrapped.runTimeout]
      decide
    · intro htimes
      exact absurd (hexact.mp htimes).timeout (by decide)
    · intro hfits
      have hlt := hround.mp hfits rfl
      rw [hwrapped.maxTime, hwrapped.fuzzTime] at hlt
      exact absurd hlt (by decide)

end Service
end FaultChain
