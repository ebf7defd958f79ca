import Mathlib.Logic.Relation
import FaultChain.Proofs.Coverage.Reading
import FaultChain.Proofs.Lists
import FaultChain.Proofs.Report

/-!
# Executed lines

A line is covered if any row of its source file says that it was executed, and uncovered if there
are rows of it and none says so. Where these rows stand makes no difference: nothing changes when
lines change places within a block, when blocks change places, or when a block is split.

* `Coverage.Block`: the opening of a source file and the lines behind it.
* `Coverage.Regrouped`: one change of the order of rows and blocks.
* `Coverage.SameData`: what two texts have to agree on to be read alike; regrouping keeps it.
* `Coverage.Describes`: what coverage says of lines.
* `Coverage.lines_of_read`: the main statement.
-/

namespace FaultChain
namespace Coverage

/-! ## Regrouping -/

/-- The block of a source file: its opening and lines that open no other one. -/
inductive Block (file : String) : List (List Char) → Prop
  | mk {start : List Char} {body : List (List Char)} (hstart : opened? start = some file)
    (hbody : ∀ line ∈ body, opened? line = none) : Block file (start :: body)

/-- Lines in another order: the lines of a block change places, whole blocks change places, or a
block is split by opening the same source file again. -/
inductive Regrouped : List (List Char) → List (List Char) → Prop
  /-- Lines behind an opening change places. -/
  | rows {file : String} {front body body' back : List (List Char)} {start : List Char}
    (hblock : Block file (start :: body)) (hperm : body.Perm body') :
    Regrouped (front ++ start :: (body ++ back)) (front ++ start :: (body' ++ back))
  /-- Blocks at the end change places. All that follows the first opening is made of blocks. -/
  | blocks {front : List (List Char)} {bs bs' : List (List (List Char))}
    (hblocks : ∀ b ∈ bs, ∃ file, Block file b) (hperm : bs.Perm bs') :
    Regrouped (front ++ bs.flatten) (front ++ bs'.flatten)
  /-- A block goes on behind another opening of the same source file. -/
  | split {file : String} {front body back : List (List Char)} {start again : List Char}
    (hblock : Block file (start :: body)) (hagain : opened? again = some file) :
    Regrouped (front ++ start :: (body ++ back)) (front ++ start :: (body ++ again :: back))

/-- What two texts have to agree on to be read alike. -/
structure SameData (xs ys : List (List Char)) : Prop where
  accepted : Accepted xs ↔ Accepted ys
  openings : ∀ file, (∃ line ∈ xs, opened? line = some file) ↔ ∃ line ∈ ys, opened? line = some file
  recorded : ∀ file l n, Recorded xs file l n ↔ Recorded ys file l n

section

variable {xs ys front back back' : List (List Char)} {start start' : List Char} {file : String}

/-- A block is tagged with its source file, whatever stands before it. -/
theorem tagged_block (tag : Option String) {start : List Char} {body : List (List Char)}
    (h : Block file (start :: body)) (back : List (List Char)) :
    tagged tag (start :: (body ++ back)) =
      (start :: body).map (some file, ·) ++ tagged (some file) back := by
  cases h with
  | mk hstart hbody => rw [tagged, blockOf_opening hstart, tagged_others hbody]; rfl

/-- Openings end the header. -/
theorem isHead_opening (hstart : opened? start = some file) : isHead start = false := by
  rw [isHead, Bool.or_eq_false_iff, Option.isSome_eq_false_iff, Option.isNone_iff_eq_none]
  constructor
  · obtain ⟨rest, rfl, -⟩ := opened?_eq_some_iff.mp hstart
    rfl
  · refine Option.eq_none_iff_forall_ne_some.mpr fun entry hentry => ?_
    simp [not_opened_of_headerLine? hentry] at hstart

/-- Behind an opening, lines are accepted exactly if each of them can be read. -/
theorem accepted_iff (hstart : opened? start = some file) :
    Accepted (front ++ start :: back) ↔ goodHeader (headerOf front) = true ∧
      (∀ line ∈ front.dropWhile isHead, Readable line) ∧ ∀ line ∈ start :: back, Readable line := by
  have hnot : isHead start = false := isHead_opening hstart
  -- The opening is no line of a header, so the header ends in front of it at the latest.
  have htake : (front ++ start :: back).takeWhile isHead = front.takeWhile isHead := by
    rw [List.takeWhile_append, List.takeWhile_cons_of_neg (by simp [hnot]), List.append_nil]
    split
    · rename_i hall
      exact ((List.takeWhile_prefix isHead).eq_of_length hall).symm
    · rfl
  have hdrop : (front ++ start :: back).dropWhile isHead =
      front.dropWhile isHead ++ start :: back := by
    rw [List.dropWhile_append, List.dropWhile_cons_of_neg (by simp [hnot])]
    split
    · rename_i hempty
      rw [List.isEmpty_iff.mp hempty, List.nil_append]
    · rfl
  have hheader : headerOf (front ++ start :: back) = headerOf front := by
    rw [headerOf, htake, headerOf]
  rw [← List.forall_mem_append, ← hdrop, ← hheader]
  exact ⟨fun h => ⟨h.header, h.readable⟩, fun h => ⟨h.1, by simp [hdrop], h.2⟩⟩

/-- Behind the same lines, two openings with the same lines behind them in another order. -/
theorem sameData_of_tagged {file' : String} (hstart : opened? start = some file)
    (hstart' : opened? start' = some file') (hlines : (start :: back).Perm (start' :: back'))
    (htagged : ∀ tag, (tagged tag (start :: back)).Perm (tagged tag (start' :: back'))) :
    SameData (front ++ start :: back) (front ++ start' :: back') where
  accepted := by
    rw [accepted_iff hstart, accepted_iff hstart']
    simp only [hlines.mem_iff]
  openings file := by simp only [(hlines.append_left front).mem_iff]
  recorded file l n := by
    have hperm := (htagged (front.foldl blockOf none)).append_left (tagged none front)
    rw [← tagged_append, ← tagged_append] at hperm
    simp only [recorded_iff, hperm.mem_iff]

/-- Whole blocks carry their tags with them. -/
theorem tagged_blocks {bs : List (List (List Char))} (hbs : ∀ b ∈ bs, ∃ file, Block file b)
    (tag : Option String) : tagged tag bs.flatten = bs.flatMap (tagged none) := by
  induction bs generalizing tag with
  | nil => rfl
  | cons b bs ih =>
    obtain ⟨⟨file, hb⟩, hrest⟩ := List.forall_mem_cons.mp hbs
    rw [List.flatten_cons, List.flatMap_cons, ← ih hrest (some file)]
    cases hb with
    | @mk start body hstart hbody =>
      have hblock := tagged_block none (.mk hstart hbody) []
      rw [List.append_nil, tagged, List.append_nil] at hblock
      rw [List.cons_append, tagged_block _ (.mk hstart hbody), hblock]

theorem SameData.refl (xs : List (List Char)) : SameData xs xs :=
  ⟨Iff.rfl, fun _ => Iff.rfl, fun _ _ _ => Iff.rfl⟩

theorem sameData_rows {body body' : List (List Char)} (hblock : Block file (start :: body))
    (hperm : body.Perm body') :
    SameData (front ++ start :: (body ++ back)) (front ++ start :: (body' ++ back)) := by
  cases hblock with
  | mk hstart hbody =>
    have hbody' : ∀ line ∈ body', opened? line = none := fun line hline =>
      hbody line (hperm.mem_iff.mpr hline)
    refine sameData_of_tagged hstart hstart ((hperm.append_right back).cons start) fun tag => ?_
    rw [tagged_block _ (.mk hstart hbody), tagged_block _ (.mk hstart hbody')]
    exact ((hperm.cons start).map _).append_right _

theorem sameData_blocks {bs bs' : List (List (List Char))} (hblocks : ∀ b ∈ bs, ∃ file, Block file b)
    (hperm : bs.Perm bs') : SameData (front ++ bs.flatten) (front ++ bs'.flatten) := by
  have hblocks' : ∀ b ∈ bs', ∃ file, Block file b := fun b hb => hblocks b (hperm.mem_iff.mpr hb)
  have htagged : ∀ tag, (tagged tag bs.flatten).Perm (tagged tag bs'.flatten) := fun tag => by
    rw [tagged_blocks hblocks, tagged_blocks hblocks']
    exact hperm.flatMap_right _
  cases bs with
  | nil =>
    -- Without blocks there is no opening that would end the header, but nothing moves either.
    rw [List.nil_perm.mp hperm]
    exact .refl _
  | cons b bs =>
    cases bs' with
    | nil => exact absurd hperm.length_eq (by simp)
    | cons b' bs' =>
      obtain ⟨file, hb⟩ := hblocks b List.mem_cons_self
      obtain ⟨file', hb'⟩ := hblocks' b' List.mem_cons_self
      cases hb with
      | mk hstart hbody =>
        cases hb' with
        | mk hstart' hbody' => exact sameData_of_tagged hstart hstart' hperm.flatten htagged

theorem sameData_split {body : List (List Char)} {again : List Char}
    (hblock : Block file (start :: body)) (hagain : opened? again = some file) :
    SameData (front ++ start :: (body ++ back)) (front ++ start :: (body ++ again :: back)) := by
  cases hblock with
  | mk hstart hbody =>
    refine ⟨?_, fun other => ?_, fun other l n => ?_⟩
    · rw [accepted_iff hstart, accepted_iff hstart]
      have hreadable : Readable again := .opening hagain
      simp only [List.mem_cons, List.mem_append, or_imp, forall_and, forall_eq, hreadable, true_and]
    · -- The file of the new opening is opened at the beginning of the block anyway.
      simp only [List.mem_append, List.mem_cons, or_and_right, exists_or, exists_eq_left, hagain,
        hstart, Option.some.injEq]
      by_cases hother : file = other <;> simp [hother]
    · -- The tags behind the new opening are those of the block, and it is no row itself.
      rw [recorded_iff, recorded_iff, tagged_append, tagged_append,
        tagged_block _ (.mk hstart hbody), tagged_block _ (.mk hstart hbody), tagged,
        blockOf_opening hagain]
      refine and_congr_right fun _ => exists_congr fun row => and_congr_left fun hrow => ?_
      have hnot : row ≠ again := by
        rintro rfl
        simp [hrow.not_opened] at hagain
      simp [hnot]

/-- Every regrouping keeps the data. -/
theorem Regrouped.sameData (h : Regrouped xs ys) : SameData xs ys := by
  cases h with
  | rows hblock hperm => exact sameData_rows hblock hperm
  | blocks hblocks hperm => exact sameData_blocks hblocks hperm
  | split hblock hagain => exact sameData_split hblock hagain

theorem sameData_of_eqvGen (h : Relation.EqvGen Regrouped xs ys) : SameData xs ys := by
  induction h with
  | rel _ _ hstep => exact hstep.sameData
  | refl xs => exact .refl xs
  | symm _ _ _ ih =>
    exact ⟨ih.accepted.symm, fun f => (ih.openings f).symm, fun f l n => (ih.recorded f l n).symm⟩
  | trans _ _ _ _ _ ih ih' =>
    exact ⟨ih.accepted.trans ih'.accepted, fun f => (ih.openings f).trans (ih'.openings f),
      fun f l n => (ih.recorded f l n).trans (ih'.recorded f l n)⟩

end

/-! ## Covered and uncovered lines -/

section

variable {rows rows' : List Row} {file : String} {l : Int}

theorem mem_sortedSet {ns : List Int} : l ∈ sortedSet ns ↔ l ∈ ns := by
  rw [sortedSet, List.mem_mergeSort, List.mem_eraseDups]

theorem pairwise_sortedSet (ns : List Int) : (sortedSet ns).Pairwise (· < ·) :=
  pairwise_lt_mergeSort (nodup_eraseDups ns)

/-- A line is covered exactly if a row says that it was executed. -/
theorem mem_covered_iff :
    l ∈ (ofRows rows file).covered ↔ ∃ n, n ≠ 0 ∧ (⟨file, l, n⟩ : Row) ∈ rows := by
  simp only [ofRows, mem_sortedSet, List.mem_map, List.mem_filter, bne_iff_ne, beq_iff_eq]
  constructor
  · rintro ⟨row, ⟨⟨hrow, rfl⟩, hn⟩, rfl⟩
    exact ⟨row.count, hn, hrow⟩
  · rintro ⟨n, hn, hrow⟩
    exact ⟨_, ⟨⟨hrow, rfl⟩, hn⟩, rfl⟩

/-- A line is uncovered exactly if there are rows of it and none says that it was executed. -/
theorem mem_uncovered_iff :
    l ∈ (ofRows rows file).uncovered ↔
      (∃ n, (⟨file, l, n⟩ : Row) ∈ rows) ∧ ∀ n, (⟨file, l, n⟩ : Row) ∈ rows → n = 0 := by
  have hlisted : l ∈ sortedSet ((rows.filter (·.file == file)).map (·.line)) ↔
      ∃ n, (⟨file, l, n⟩ : Row) ∈ rows := by
    simp only [mem_sortedSet, List.mem_map, List.mem_filter, beq_iff_eq]
    constructor
    · rintro ⟨row, ⟨hrow, rfl⟩, rfl⟩
      exact ⟨row.count, hrow⟩
    · rintro ⟨n, hrow⟩
      exact ⟨_, ⟨hrow, rfl⟩, rfl⟩
  -- Not covered means that every row of the line, if there are any, says zero.
  have hcovered : l ∉ (ofRows rows file).covered ↔ ∀ n, (⟨file, l, n⟩ : Row) ∈ rows → n = 0 := by
    simp only [mem_covered_iff, not_exists, not_and]
    exact forall_congr' fun n => not_imp_not
  rw [← hlisted, ← hcovered]
  simp [ofRows]

theorem ofRows_congr (h : ∀ row, row ∈ rows ↔ row ∈ rows') : ofRows rows file = ofRows rows' file := by
  have hcovered : (ofRows rows file).covered = (ofRows rows' file).covered :=
    mergeSort_eraseDups_congr fun l => by simp [h]
  have hlisted : sortedSet ((rows.filter (·.file == file)).map (·.line)) =
      sortedSet ((rows'.filter (·.file == file)).map (·.line)) :=
    mergeSort_eraseDups_congr fun l => by simp [h]
  simp only [ofRows] at hcovered ⊢
  rw [hcovered, hlisted]

end

/-- What coverage says of lines that were read. -/
structure Describes (lines : List (List Char)) (c : Coverage) : Prop where
  ordered : (c.files.map (·.file)).Pairwise (· < ·)
  files : ∀ file, file ∈ c.files.map (·.file) ↔ file ≠ "" ∧
    (∃ line ∈ lines, opened? line = some file) ∧
      ∀ part ∈ runtimeSources, ¬ part.toList <:+: file.toList
  covered : ∀ fc ∈ c.files, ∀ l, l ∈ fc.covered ↔ ∃ n, n ≠ 0 ∧ Recorded lines fc.file l n
  uncovered : ∀ fc ∈ c.files, ∀ l, l ∈ fc.uncovered ↔
    (∃ n, Recorded lines fc.file l n) ∧ ∀ n, Recorded lines fc.file l n → n = 0
  disjoint : ∀ fc ∈ c.files, fc.covered.Disjoint fc.uncovered
  increasing : ∀ fc ∈ c.files, fc.covered.Pairwise (· < ·) ∧ fc.uncovered.Pairwise (· < ·)

section

variable {files : FileTree} {path text : String} {c : Coverage} {st st' : Reading}
  {xs ys lines : List (List Char)}

theorem Holds.describes (h : Holds lines st) : Describes lines (ofReading st) := by
  have hnames : (ofReading st).files.map (·.file) =
      (st.files.eraseDups.mergeSort (· ≤ ·)).filter (!isRuntime ·) := by
    simp [ofReading, ofRows, Function.comp_def]
  have hname : ∀ file ∈ (ofReading st).files.map (·.file), file ≠ "" := by
    intro file hfile
    rw [hnames, List.mem_filter, List.mem_mergeSort, List.mem_eraseDups, h.files] at hfile
    exact hfile.1.1
  -- The rows of a listed source file are all that is recorded of it.
  have hrow : ∀ fc ∈ (ofReading st).files, fc = ofRows st.rows.reverse fc.file ∧
      ∀ l n, (⟨fc.file, l, n⟩ : Row) ∈ st.rows.reverse ↔ Recorded lines fc.file l n := by
    intro fc hfc
    have hne := hname fc.file (List.mem_map_of_mem hfc)
    obtain ⟨file, -, rfl⟩ := List.mem_map.mp hfc
    refine ⟨rfl, fun l n => ?_⟩
    rw [List.mem_reverse, h.rows]
    exact and_iff_right hne
  have hcovered : ∀ fc ∈ (ofReading st).files, ∀ l,
      l ∈ fc.covered ↔ ∃ n, n ≠ 0 ∧ Recorded lines fc.file l n := by
    intro fc hfc l
    obtain ⟨heq, hrows⟩ := hrow fc hfc
    rw [heq, mem_covered_iff]
    exact exists_congr fun n => and_congr_right fun _ => hrows l n
  have huncovered : ∀ fc ∈ (ofReading st).files, ∀ l, l ∈ fc.uncovered ↔
      (∃ n, Recorded lines fc.file l n) ∧ ∀ n, Recorded lines fc.file l n → n = 0 := by
    intro fc hfc l
    obtain ⟨heq, hrows⟩ := hrow fc hfc
    rw [heq, mem_uncovered_iff]
    exact and_congr (exists_congr (hrows l)) (forall_congr' fun n => imp_congr_left (hrows l n))
  refine ⟨?_, fun file => ?_, hcovered, huncovered, fun fc hfc l hl hl' => ?_, fun fc hfc => ?_⟩
  · rw [hnames]
    exact (pairwise_lt_mergeSort (nodup_eraseDups _)).filter _
  · rw [hnames, List.mem_filter, List.mem_mergeSort, List.mem_eraseDups, h.files, and_assoc]
    simp [isRuntime, Text.contains, Text.containsChars_iff]
  · obtain ⟨n, hn, hrecorded⟩ := (hcovered fc hfc l).mp hl
    exact hn (((huncovered fc hfc l).mp hl').2 n hrecorded)
  · rw [(hrow fc hfc).1]
    exact ⟨pairwise_sortedSet _, (pairwise_sortedSet _).filter _⟩

/-- Readings of the same data give the same coverage. -/
theorem ofReading_congr (h : Holds xs st) (h' : Holds ys st') (hsame : SameData xs ys) :
    ofReading st = ofReading st' := by
  have hfiles : ∀ file, file ∈ st.files ↔ file ∈ st'.files := fun file => by
    rw [h.files, h'.files, hsame.openings]
  have hrows : ofRows st.rows.reverse = ofRows st'.rows.reverse := by
    refine funext fun file => ofRows_congr fun ⟨file, l, n⟩ => ?_
    rw [List.mem_reverse, List.mem_reverse, h.rows, h'.rows, hsame.recorded]
  rw [ofReading, ofReading, hrows, mergeSort_eraseDups_congr hfiles]

theorem ofText_eq_ok_iff :
    ofText path text = .ok c ↔ (Text.readLines Text.longLine text).tooLong = false ∧
      ∃ st, takeLines path 1 {} (Text.readLines Text.longLine text).lines = .ok st ∧
        st.inHeader = false ∧ ofReading st = c := by
  cases htake : takeLines path 1 {} (Text.readLines Text.longLine text).lines with
  | error f => simp [ofText, htake]
  | ok st =>
    cases hlong : (Text.readLines Text.longLine text).tooLong <;> cases hin : st.inHeader <;>
      simp [ofText, htake, hlong, hin]

theorem read_eq (hfile : files.read path = .ok text) : read files path = ofText path text := by
  simp only [read, hfile]

/-- Coverage that is read lists the source files with a name that are opened and belong to no
library. A line is covered exactly if some row of the file says that it was executed, and uncovered
if there are rows but none says so. Regrouped lines are read as the same coverage. -/
theorem lines_of_read (hfile : files.read path = .ok text) (hread : read files path = .ok c) :
    (Text.readLines Text.longLine text).tooLong = false ∧
    Describes (Text.readLines Text.longLine text).lines c ∧
    ∀ (files' : FileTree) (path' text' : String), files'.read path' = .ok text' →
      (Text.readLines Text.longLine text').tooLong = false →
      Relation.EqvGen Regrouped (Text.readLines Text.longLine text).lines
        (Text.readLines Text.longLine text').lines →
      read files' path' = .ok c := by
  rw [read_eq hfile, ofText_eq_ok_iff] at hread
  obtain ⟨hshort, st, htake, hin, rfl⟩ := hread
  have hholds := holds_of_takeLines htake
  refine ⟨hshort, hholds.describes, fun files' path' text' hfile' hshort' hregrouped => ?_⟩
  -- Regrouping keeps what is accepted and the rows of each file, which is all that the coverage
  -- depends on.
  have hsame := sameData_of_eqvGen hregrouped
  have haccepted := hsame.accepted.mp (exists_reading_iff.mp ⟨st, htake, hin⟩)
  obtain ⟨st', htake', hin'⟩ := exists_reading_iff.mpr haccepted
  rw [read_eq hfile', ofText_eq_ok_iff]
  exact ⟨hshort', st', htake', hin', ofReading_congr (holds_of_takeLines htake') hholds
    (sameData_of_eqvGen hregrouped.symm)⟩

end

/-! ## A sample -/

/-- The header of coverage data, and a line that belongs to no source file. -/
def sampleHeader : List String :=
  ["version: 1", "creator: klee", "positions: instr line", "ob=symmains.bc"]

/-- Lines behind the opening of a source file. -/
def sampleBody : List String := ["fn=f", "1 3 1 0", "2 3 0 0", "3 4 0 0", "4 0 1 0"]

/-- The block of a library. -/
def sampleLibrary : List String := ["fl=/klee-uclibc/strlen.c", "6 10 1 0"]

/-- Coverage of a source file and of a library. -/
def sampleLines : List String := sampleHeader ++ "fl=/src/a.c" :: (sampleBody ++ sampleLibrary)

/-- The same with the library in front, and with the source file opened twice. -/
def regroupedLines : List String :=
  sampleHeader ++ sampleLibrary ++ "fl=/src/a.c" :: sampleBody.reverse.take 2 ++
    "fl= /src/a.c" :: sampleBody.reverse.drop 2

/-- Both of them as files. -/
def sampleFiles : FileTree :=
  { root := .dir [("again.istats", .file (Text.printed regroupedLines) false),
      ("run.istats", .file (Text.printed sampleLines) false)]
    cwd := [] }

theorem readLines_sample (lines : List String) (h : lines ⊆ "fl= /src/a.c" :: sampleLines) :
    Text.readLines Text.longLine (Text.printed lines) =
      { lines := lines.map String.toList, tooLong := false } := by
  have hkept : ∀ line ∈ "fl= /src/a.c" :: sampleLines, '\n' ∉ line.toList ∧
      ∀ c ∈ line.toList.getLast?, Text.isBlank c = false := by
    simp [sampleLines, sampleHeader, sampleBody, sampleLibrary, Text.isBlank]
  have hshort : ∀ line ∈ "fl= /src/a.c" :: sampleLines,
      Text.byteLength line.toList < Text.longLine := by
    decide +kernel
  exact Text.readLines_printed (fun line hline => ⟨(hkept line (h hline)).1, (hkept line (h hline)).2⟩)
    fun line hline => hshort line (h hline)

/-- The lines of the block change places, then it is split, then the library moves to the front. -/
theorem eqvGen_sample :
    Relation.EqvGen Regrouped (sampleLines.map String.toList)
      (regroupedLines.map String.toList) := by
  have hstart : opened? "fl=/src/a.c".toList = some "/src/a.c" := by decide +kernel
  have hagain : opened? "fl= /src/a.c".toList = some "/src/a.c" := by decide +kernel
  have hfirst : Block "/src/a.c"
      ("fl=/src/a.c".toList :: (sampleBody.reverse.take 2).map String.toList) :=
    .mk hstart (by decide +kernel)
  have hsecond : Block "/src/a.c"
      ("fl= /src/a.c".toList :: (sampleBody.reverse.drop 2).map String.toList) :=
    .mk hagain (by decide +kernel)
  have hlibrary : Block "/klee-uclibc/strlen.c" (sampleLibrary.map String.toList) :=
    .mk (by decide +kernel) (by decide +kernel)
  -- The single steps are given in full, as their parts cannot be found from the lines.
  have hrows := @Regrouped.rows "/src/a.c" (sampleHeader.map String.toList)
    (sampleBody.map String.toList) _ (sampleLibrary.map String.toList) _
    (.mk hstart (by decide +kernel)) (List.reverse_perm _).symm
  have hsplit := @Regrouped.split "/src/a.c" (sampleHeader.map String.toList) _
    ((sampleBody.reverse.drop 2 ++ sampleLibrary).map String.toList) _ _ hfirst hagain
  have hblocks := @Regrouped.blocks (sampleHeader.map String.toList) [_, _, _] [_, _, _]
    (by simpa using ⟨⟨_, hfirst⟩, ⟨_, hsecond⟩, ⟨_, hlibrary⟩⟩)
    (@List.perm_append_comm _ [_, _] [_])
  exact ((Relation.EqvGen.rel _ _ hrows).trans _ _ _ (.rel _ _ hsplit)).trans _ _ _
    (.rel _ _ hblocks)

/-- The coverage of the sample and of its regrouped form: the library is left out, and a line with
an executed row is covered, whatever its other rows say. -/
theorem lines_of_read_sample :
    sampleFiles.read "run.istats" = .ok (Text.printed sampleLines) ∧
    ∃ c, read sampleFiles "run.istats" = .ok c ∧ read sampleFiles "again.istats" = .ok c ∧
      "/src/a.c" ∈ c.files.map (·.file) ∧ "/klee-uclibc/strlen.c" ∉ c.files.map (·.file) ∧
      ∀ fc ∈ c.files, fc.file = "/src/a.c" → 3 ∈ fc.covered ∧ 3 ∉ fc.uncovered := by
  have hfile : sampleFiles.read "run.istats" = .ok (Text.printed sampleLines) := by rfl
  have hlines := readLines_sample sampleLines (List.subset_cons_self "fl= /src/a.c" sampleLines)
  have hlines' := readLines_sample regroupedLines (by decide +kernel)
  have htake : (takeLines "run.istats" 1 {} (sampleLines.map String.toList)).toOption.map
      (·.inHeader) = some false := by decide +kernel
  obtain ⟨st, htake, hin⟩ := Except.exists_of_toOption_map htake
  have hread : read sampleFiles "run.istats" = .ok (ofReading st) := by
    rw [read_eq hfile, ofText_eq_ok_iff, hlines]
    exact ⟨rfl, st, htake, hin, rfl⟩
  obtain ⟨-, hdescribes, hregrouped⟩ := lines_of_read hfile hread
  rw [hlines] at hdescribes hregrouped
  have hagain : read sampleFiles "again.istats" = .ok (ofReading st) :=
    hregrouped sampleFiles "again.istats" (Text.printed regroupedLines) rfl (by rw [hlines'])
      (by rw [hlines']; exact eqvGen_sample)
  refine ⟨hfile, _, hread, hagain, ?_, ?_, fun fc hfc hname => ?_⟩
  · rw [hdescribes.files]
    decide +kernel
  · rw [hdescribes.files]
    decide +kernel
  -- One row of line 3 says that it was executed, another one that it was not.
  · have hrecorded : Recorded (sampleLines.map String.toList) fc.file 3 1 := by
      rw [hname, recorded_iff]
      refine ⟨by decide, "1 3 1 0".toList, by decide +kernel, ⟨'1', rfl, rfl⟩, ?_⟩
      exact ⟨"1".toList, "3".toList, "1".toList, ["0".toList], by decide +kernel,
        Decimal.parseChars_eq_ok_iff.mp rfl, Decimal.parseChars_eq_ok_iff.mp rfl⟩
    have hcovered : 3 ∈ fc.covered := (hdescribes.covered fc hfc 3).mpr ⟨1, by decide, hrecorded⟩
    exact ⟨hcovered, hdescribes.disjoint fc hfc hcovered⟩

end Coverage
end FaultChain
