import Mathlib
import FaultChain.Fuzz.Saturation
import FaultChain.Number.Word

/-!
# What the score of a fuzzer counts

The score is what was gained since paths were last pending: rows with pending paths forget all that
was counted, but their number of cycles is still what the next row is compared with. In 64 bits the
score is exact as long as it fits.

* `Saturation.after`: the detector after rows.
* `Saturation.tally`: what the rows since the last one with pending paths add up to.
* `Saturation.toInt_score_after`: the score is the tally modulo `2 ^ 64`.
* `Saturation.saturated_since_pending`: the main statement.
-/

namespace FaultChain
namespace Saturation

variable {rule : SaturationRule}

/-! ## Tally -/

/-- Whether a row has pending paths. -/
def hasPending (row : PlotRow) : Bool := 0 < row.pendingTotal

/-- Rows, each with the number of cycles in the row before it; `previous` stands before them all. -/
def withPrevious (previous : Int) : List PlotRow → List (Int × PlotRow)
  | [] => []
  | row :: rows => (previous, row) :: withPrevious row.cyclesDone rows

/-- What a row adds: more for a cycle that was finished since the row before. -/
def gain (rule : SaturationRule) (row : Int × PlotRow) : Int :=
  if row.1 < row.2.cyclesDone then rule.cycleDone.toInt else rule.incomplete.toInt

/-- What the rows after the last one with pending paths add up to, all rows if there is none. -/
def tally (rule : SaturationRule) (rows : List PlotRow) : Int :=
  (((withPrevious 0 rows).rtakeWhile fun row => !hasPending row.2).map (gain rule)).sum

/-- The number of cycles in the last row. -/
def latestCycles (previous : Int) (rows : List PlotRow) : Int :=
  (rows.map (·.cyclesDone)).getLastD previous

theorem withPrevious_snoc (previous : Int) (rows : List PlotRow) (row : PlotRow) :
    withPrevious previous (rows ++ [row]) =
      withPrevious previous rows ++ [(latestCycles previous rows, row)] := by
  induction rows generalizing previous with
  | nil => rfl
  | cons first rows ih =>
    have hlatest : latestCycles previous (first :: rows) = latestCycles first.cyclesDone rows :=
      List.getLastD_cons
    rw [List.cons_append, withPrevious, withPrevious, ih, hlatest, List.cons_append]

theorem tally_snoc_pending (rows : List PlotRow) {row : PlotRow} (h : hasPending row = true) :
    tally rule (rows ++ [row]) = 0 := by
  simp [tally, withPrevious_snoc, h]

theorem tally_snoc (rows : List PlotRow) {row : PlotRow} (h : hasPending row = false) :
    tally rule (rows ++ [row]) = tally rule rows + gain rule (latestCycles 0 rows, row) := by
  simp [tally, withPrevious_snoc, h]

theorem gain_nonneg (hcycle : 0 ≤ rule.cycleDone) (hincomplete : 0 ≤ rule.incomplete)
    (row : Int × PlotRow) : 0 ≤ gain rule row := by
  unfold gain
  split
  · exact Int64.le_iff_toInt_le.mp hcycle
  · exact Int64.le_iff_toInt_le.mp hincomplete

theorem tally_nonneg (hcycle : 0 ≤ rule.cycleDone) (hincomplete : 0 ≤ rule.incomplete)
    (rows : List PlotRow) : 0 ≤ tally rule rows := by
  refine List.sum_nonneg ?_
  intro n hn
  obtain ⟨row, -, rfl⟩ := List.mem_map.mp hn
  exact gain_nonneg hcycle hincomplete row

/-- Without pending paths the tally only grows. -/
theorem tally_le_append (hcycle : 0 ≤ rule.cycleDone) (hincomplete : 0 ≤ rule.incomplete)
    (rows : List PlotRow) {more : List PlotRow} (h : ∀ row ∈ more, hasPending row = false) :
    tally rule rows ≤ tally rule (rows ++ more) := by
  -- One row at a time from the end: the gain of a row without pending paths is not negative.
  induction more using List.reverseRecOn with
  | nil => rw [List.append_nil]
  | append_singleton more row ih =>
    have hmore : tally rule rows ≤ tally rule (rows ++ more) :=
      ih fun other hother => h other (List.mem_append_left _ hother)
    have hrow : hasPending row = false := h row (by simp)
    calc tally rule rows
        ≤ tally rule (rows ++ more) := hmore
      _ ≤ tally rule (rows ++ more) + gain rule (latestCycles 0 (rows ++ more), row) :=
          Int.le_add_of_nonneg_right (gain_nonneg hcycle hincomplete _)
      _ = tally rule (rows ++ (more ++ [row])) := by
          rw [← tally_snoc _ hrow, List.append_assoc]

/-! ## The score -/

/-- The detector after rows. -/
def after (rule : SaturationRule) (rows : List PlotRow) : Saturation :=
  rows.foldl observe (start rule)

theorem after_snoc (rows : List PlotRow) (row : PlotRow) :
    after rule (rows ++ [row]) = (after rule rows).observe row := by
  simp [after]

/-- One row forgets the score or adds to it. -/
theorem toInt_score_observe (s : Saturation) (row : PlotRow) :
    (s.observe row).score.toInt =
      if hasPending row then 0
      else (s.score.toInt + gain s.rule (s.lastCycles, row)).bmod Word64.count := by
  unfold observe
  by_cases hpending : 0 < row.pendingTotal
  · simp [hasPending, hpending]
  · by_cases hcycles : s.lastCycles < row.cyclesDone
    · simp only [hasPending, hpending, hcycles, gain, if_false, if_true, decide_false,
        Bool.false_eq_true]
      exact Int64.toInt_add s.score s.rule.cycleDone
    · simp only [hasPending, hpending, hcycles, gain, if_false, decide_false, Bool.false_eq_true]
      exact Int64.toInt_add s.score s.rule.incomplete

theorem rule_after (rule : SaturationRule) (rows : List PlotRow) : (after rule rows).rule = rule := by
  induction rows using List.reverseRecOn with
  | nil => rfl
  | append_singleton rows row ih =>
    rw [after_snoc]
    exact ih

theorem lastCycles_after (rule : SaturationRule) (rows : List PlotRow) :
    (after rule rows).lastCycles = latestCycles 0 rows := by
  induction rows using List.reverseRecOn with
  | nil => rfl
  | append_singleton rows row ih =>
    rw [after_snoc]
    simp [observe, latestCycles]

/-- The score is the tally, as far as 64 bits hold it. -/
theorem toInt_score_after (rule : SaturationRule) (rows : List PlotRow) :
    (after rule rows).score.toInt = (tally rule rows).bmod Word64.count := by
  induction rows using List.reverseRecOn with
  | nil => rfl
  | append_singleton rows row ih =>
    rw [after_snoc, toInt_score_observe, rule_after, lastCycles_after]
    cases hrow : hasPending row with
    | true =>
      rw [tally_snoc_pending rows hrow]
      rfl
    | false =>
      rw [tally_snoc rows hrow, ih, Int.bmod_add_bmod]
      rfl

/-- A score that does not overflow is the tally. -/
theorem toInt_score_of_fits (hcycle : 0 ≤ rule.cycleDone) (hincomplete : 0 ≤ rule.incomplete)
    {rows : List PlotRow} (hfits : tally rule rows < Word64.half) :
    (after rule rows).score.toInt = tally rule rows := by
  have hnonneg := tally_nonneg hcycle hincomplete rows
  simp only [Word64.half] at hfits
  rw [toInt_score_after]
  exact Int.bmod_eq_of_le (by simp only [Word64.count]; omega) (by simp only [Word64.count]; omega)

theorem isSaturated_after_iff (rule : SaturationRule) (rows : List PlotRow) :
    (after rule rows).isSaturated = true ↔
      rule.threshold.toInt < (after rule rows).score.toInt := by
  simp [isSaturated, rule_after, Int64.lt_iff_toInt_lt]

/-! ## Saturation -/

/-- As long as nothing overflows, the score after every row is the tally of the rows since the last
one with pending paths, and the fuzzer is saturated exactly if the tally exceeds the threshold. Once
it is saturated it stays so while no row has pending paths, and a row that has ends it. -/
theorem saturated_since_pending (rule : SaturationRule) (hcycle : 0 ≤ rule.cycleDone)
    (hincomplete : 0 ≤ rule.incomplete) (hthreshold : 0 ≤ rule.threshold) (rows : List PlotRow)
    (hfits : ∀ seen, seen <+: rows → tally rule seen < Word64.half) :
    (∀ seen, seen <+: rows →
      (after rule seen).score.toInt = tally rule seen ∧
      ((after rule seen).isSaturated = true ↔ rule.threshold.toInt < tally rule seen)) ∧
    (∀ seen more, seen ++ more <+: rows → (after rule seen).isSaturated = true →
      (∀ row ∈ more, ¬ 0 < row.pendingTotal) → (after rule (seen ++ more)).isSaturated = true) ∧
    ∀ seen row, seen ++ [row] <+: rows → 0 < row.pendingTotal →
      (after rule (seen ++ [row])).isSaturated = false := by
  -- While nothing overflows, score and tally agree on every prefix.
  have hscore : ∀ seen, seen <+: rows → (after rule seen).score.toInt = tally rule seen :=
    fun seen hseen => toInt_score_of_fits hcycle hincomplete (hfits seen hseen)
  have hsaturated : ∀ seen, seen <+: rows →
      ((after rule seen).isSaturated = true ↔ rule.threshold.toInt < tally rule seen) := by
    intro seen hseen
    rw [isSaturated_after_iff, hscore seen hseen]
  refine ⟨fun seen hseen => ⟨hscore seen hseen, hsaturated seen hseen⟩, ?_, ?_⟩
  · intro seen more hpre hsat hmore
    have hseen : seen <+: rows := (List.prefix_append seen more).trans hpre
    have hquiet : ∀ row ∈ more, hasPending row = false := by
      intro row hrow
      simpa [hasPending] using hmore row hrow
    have hgrown := tally_le_append hcycle hincomplete seen hquiet
    exact (hsaturated _ hpre).mpr (Int.lt_of_lt_of_le ((hsaturated seen hseen).mp hsat) hgrown)
  -- A row with pending paths sets the tally back to zero, and no threshold is below that.
  · intro seen row hpre hpending
    have hzero : tally rule (seen ++ [row]) = 0 :=
      tally_snoc_pending seen (by simpa [hasPending] using hpending)
    have hnot : ¬ (after rule (seen ++ [row])).isSaturated = true := by
      rw [hsaturated _ hpre, hzero]
      exact Int.not_lt.mpr (Int64.le_iff_toInt_le.mp hthreshold)
    simpa using hnot

/-- A rule under which two looks without a finished cycle do not saturate the fuzzer, and three do. -/
def sampleRule : SaturationRule := { cycleDone := 2, incomplete := 1, threshold := 2 }

/-- A cycle is finished, then paths become pending again. -/
def sampleRows : List PlotRow :=
  [{ cyclesDone := 0 }, { cyclesDone := 1 }, { cyclesDone := 1, pendingTotal := 4 },
    { cyclesDone := 1 }, { cyclesDone := 1 }, { cyclesDone := 1 }]

/-- The finished cycle saturates the fuzzer, and so do three looks after the pending paths. -/
theorem saturated_since_pending_sample :
    let fits := ∀ seen, seen <+: sampleRows → tally sampleRule seen < Word64.half
    fits ∧ (after sampleRule (sampleRows.take 2)).isSaturated = true ∧
      (after sampleRule (sampleRows.take 3)).isSaturated = false ∧
      (after sampleRule sampleRows).isSaturated = true := by
  intro fits
  have hfits : fits := by
    intro seen hseen
    have hall : ∀ seen ∈ sampleRows.inits, tally sampleRule seen < Word64.half := by decide
    exact hall seen ((List.mem_inits seen sampleRows).mpr hseen)
  obtain ⟨hexact, -, hreset⟩ := saturated_since_pending sampleRule (by decide) (by decide)
    (by decide) sampleRows hfits
  refine ⟨hfits, ?_, ?_, ?_⟩
  · exact (hexact _ (List.take_prefix 2 _)).2.mpr (by decide)
  · exact hreset (sampleRows.take 2) { cyclesDone := 1, pendingTotal := 4 }
      (List.take_prefix 3 sampleRows) (by decide)
  · exact (hexact _ List.prefix_rfl).2.mpr (by decide)

end Saturation
end FaultChain
