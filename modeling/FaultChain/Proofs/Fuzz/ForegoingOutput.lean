import FaultChain.Fuzz.Sanitizer
import FaultChain.Proofs.Text.Basic

/-!
# Output before a report

A program prints lines before the sanitizer reports its error, and both are in one output. The
description is looked for in the line that opens a report, so that of the report is found. The stack
is looked for in all lines, so a printed line that reads like a first frame is taken for the stack.

* `SanitizerReport.OpensStack`: a line that reads like a first frame.
* `SanitizerReport.parse_printed`: what is read where lines were printed before a report.
* `SanitizerReport.framesFrom_append`: frames end at a line that is none.
* `SanitizerReport.parse_printed_iff`: the main statement.
-/

namespace FaultChain
namespace SanitizerReport

/-- A line that reads like the first frame of a stack. -/
def OpensStack (line : String) : Prop := Text.startsWith (Text.trim line) "#0 " = true

/-- An output whose first line opens a report. -/
def BeginsReport (output : String) : Prop :=
  ∃ line ∈ (Text.split '\n' output).head?, Text.contains line errorMark = true

/-- A line that a program may print without opening a report. -/
structure Foreign (line : String) : Prop where
  no_end : '\n' ∉ line.toList
  no_mark : Text.contains line errorMark = false

/-! ## What is read -/

theorem describe?_foreign {line : String} (h : Foreign line) : describe? line = none := by
  simp [describe?, h.no_mark]

/-- The description of a report is found behind whatever lines, and the stack is the first one in
all of the output. -/
theorem parse_printed {printed : List String} {output : String}
    (hprinted : ∀ line ∈ printed, Foreign line) (hreport : BeginsReport output) :
    parse (Text.printed printed ++ output) =
      some {
        description := ((Text.split '\n' output).findSome? describe?).getD "unknown-crash"
        frames := framesFrom 0 (stackLines (printed ++ Text.split '\n' output)) } := by
  obtain ⟨first, hfirst, hmark⟩ := hreport
  -- The mark of the report is still in the output: its first line is a line of the whole.
  have hcontains : Text.contains (Text.printed printed ++ output) errorMark = true := by
    unfold Text.contains at hmark ⊢
    rw [Text.containsChars_iff] at hmark ⊢
    rw [String.toList_append]
    exact (hmark.trans (Text.prefix_of_split hfirst).isInfix).trans
      (List.suffix_append _ _).isInfix
  -- No line in front of the report gives a description.
  have hnone : printed.findSome? describe? = none :=
    List.findSome?_eq_none_iff.mpr fun line hline => describe?_foreign (hprinted line hline)
  have hlines := Text.split_printed (fun line hline => (hprinted line hline).no_end) output
  simp only [parse, hcontains, if_true, hlines, List.findSome?_append, hnone, Option.none_or]

theorem parse_of_beginsReport {output : String} (hreport : BeginsReport output) :
    parse output =
      some {
        description := ((Text.split '\n' output).findSome? describe?).getD "unknown-crash"
        frames := framesFrom 0 (stackLines (Text.split '\n' output)) } := by
  have hnone : ∀ line ∈ ([] : List String), Foreign line := by simp
  simpa [Text.printed] using parse_printed hnone hreport

/-! ## Stacks -/

theorem stackLines_append_of_none {printed lines : List String}
    (h : ∀ line ∈ printed, ¬ OpensStack line) : stackLines (printed ++ lines) = stackLines lines := by
  unfold stackLines
  refine List.dropWhile_append_of_pos fun line hline => ?_
  simpa [OpensStack] using h line hline

theorem stackLines_append_of_some {printed lines : List String}
    (h : ∃ line ∈ printed, OpensStack line) :
    stackLines (printed ++ lines) = stackLines printed ++ lines := by
  obtain ⟨line, hline, hopens⟩ := h
  unfold stackLines
  rw [List.dropWhile_append, if_neg]
  intro hempty
  have hall := List.dropWhile_eq_nil_iff.mp (List.isEmpty_iff.mp hempty) line hline
  rw [hopens] at hall
  cases hall

/-- Frames end at a line that is none, whatever follows. -/
theorem framesFrom_append {line : String} (hline : (Text.fields line).length < 4)
    (front rest : List String) (n : Nat) :
    framesFrom n (front ++ line :: rest) = framesFrom n front := by
  induction front generalizing n with
  -- The line after the frames has too few fields to be one, which ends the recursion.
  | nil =>
    rw [List.nil_append]
    unfold framesFrom
    split
    · rename_i hfields
      rw [hfields] at hline
      simp only [List.length_cons] at hline
      omega
    · rfl
  | cons first front ih =>
    rw [List.cons_append]
    unfold framesFrom
    simp only [ih]

/-! ## Harmless lines -/

/-- A report without a stack, and one with a single frame. -/
def bareReport : String := "==ERROR:"

/-- The bare report with a frame. -/
def framedReport : String := "==ERROR:\n#0 0x1 in f f.c"

theorem lines_bareReport : Text.split '\n' bareReport = ["==ERROR:"] := by decide +kernel

theorem lines_framedReport :
    Text.split '\n' framedReport = ["==ERROR:", "#0 0x1 in f f.c"] := by decide +kernel

/-- What a program prints before a report never changes the description that is read. It leaves the
stack as it is in front of every report exactly if no printed line reads like a first frame. -/
theorem parse_printed_iff {printed : List String} (hprinted : ∀ line ∈ printed, Foreign line) :
    (∀ output, BeginsReport output → ∃ r r', parse output = some r ∧
      parse (Text.printed printed ++ output) = some r' ∧ r'.description = r.description) ∧
    ((∀ output, BeginsReport output → parse (Text.printed printed ++ output) = parse output) ↔
      ∀ line ∈ printed, ¬ OpensStack line) := by
  refine ⟨fun output hreport =>
    ⟨_, _, parse_of_beginsReport hreport, parse_printed hprinted hreport, rfl⟩, ?_, ?_⟩
  · -- The stack that is printed cannot be the one of either of two reports that differ in theirs.
    intro hall
    by_contra hopens
    have hopens : ∃ line ∈ printed, OpensStack line := by simpa using hopens
    have hbare : BeginsReport bareReport :=
      ⟨"==ERROR:", by rw [lines_bareReport]; rfl, by decide +kernel⟩
    have hframed : BeginsReport framedReport :=
      ⟨"==ERROR:", by rw [lines_framedReport]; rfl, by decide +kernel⟩
    have hframes : ∀ {output rest}, BeginsReport output →
        Text.split '\n' output = "==ERROR:" :: rest →
        framesFrom 0 (stackLines printed) =
          framesFrom 0 (stackLines (Text.split '\n' output)) := by
      intro output rest hreport hlines
      have hsame := hall output hreport
      rw [parse_printed hprinted hreport, parse_of_beginsReport hreport,
        stackLines_append_of_some hopens] at hsame
      simp only [Option.some.injEq, SanitizerReport.mk.injEq, true_and] at hsame
      rw [← hsame, hlines, framesFrom_append (by decide +kernel)]
    have hboth := (hframes hbare lines_bareReport).symm.trans (hframes hframed lines_framedReport)
    rw [lines_bareReport, lines_framedReport] at hboth
    revert hboth
    decide +kernel
  · intro hnone output hreport
    rw [parse_printed hprinted hreport, parse_of_beginsReport hreport,
      stackLines_append_of_none hnone]

/-- A line that a program may print to have an error of its own choice reported. -/
def forgedFrame : String := "#0 0x1 in checked /src/checked.c:1"

/-- With the forged line in front of it the bare report gets a stack. -/
theorem parse_printed_iff_forged :
    (∀ line ∈ [forgedFrame], Foreign line) ∧
    (∃ output, BeginsReport output ∧
      parse (Text.printed [forgedFrame] ++ output) ≠ parse output) ∧
    parse (Text.printed [forgedFrame] ++ bareReport) =
      some { description := "unknown-crash", frames := [⟨"checked", "/src/checked.c:1"⟩] } := by
  have hforeign : ∀ line ∈ [forgedFrame], Foreign line := by
    intro line hline
    obtain rfl : line = forgedFrame := by simpa using hline
    exact ⟨by decide +kernel, by decide +kernel⟩
  refine ⟨hforeign, ?_, by decide +kernel⟩
  -- If the line did no harm to any report, the characterization would say that it opens no stack.
  by_contra hnone
  have hharmless : ∀ output, BeginsReport output →
      parse (Text.printed [forgedFrame] ++ output) = parse output := by
    simpa using hnone
  have hopens : OpensStack forgedFrame := by unfold OpensStack; decide +kernel
  exact (parse_printed_iff hforeign).2.mp hharmless forgedFrame (by simp) hopens

end SanitizerReport
end FaultChain
