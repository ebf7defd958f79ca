import FaultChain.Fuzz.Fuzzer
import FaultChain.Proofs.Files
import FaultChain.Proofs.Report
import FaultChain.Proofs.Text.Decimals

/-!
# Crash reports read back

The fuzzer writes the report of a sanitizer in the form of an error report. Whatever the output of
the sanitizer holds, its description, functions and locations are words without white space, so the
registry reads the same description, frames and location that were written.

* `SanitizerReport.tidy_of_parse`: a report is made of words.
* `SanitizerReport.writtenLines`: the lines of a crash report, as phrases.
* `Report.parse_phrases`: what the registry reads from such lines.
* `Fuzzer.read_crashFile`: a crash report is read back.
-/

namespace FaultChain

namespace SanitizerReport

/-! ## Reports are made of words -/

/-- The description, the functions and the locations of a report are words. -/
structure Tidy (r : SanitizerReport) : Prop where
  description : Text.Word r.description.toList
  functions : ∀ f ∈ r.frames, Text.Word f.function.toList
  locations : ∀ f ∈ r.frames, Text.Word f.location.toList

theorem word_of_mem_fields {s field : String} (h : field ∈ Text.fields s) :
    Text.Word field.toList := by
  obtain ⟨w, hw, rfl⟩ := List.mem_map.mp h
  rw [String.toList_ofList]
  exact Text.word_of_mem_fieldsChars hw

theorem word_of_describe? {line description : String} (h : describe? line = some description) :
    Text.Word description.toList := by
  unfold describe? at h
  split at h
  · split at h
    · exact word_of_mem_fields (s := String.ofList _)
        (by simpa [Text.fields] using List.mem_of_mem_head? h)
    · cases h
  · cases h

theorem join_concat {pieces : List String} (h : pieces ≠ []) (sep last : String) :
    Text.join sep (pieces ++ [last]) = Text.join sep pieces ++ sep ++ last := by
  rw [Text.join, String.intercalate_append_of_ne_nil h (by simp), String.intercalate_singleton]
  rfl

/-- Leaving out the column leaves a word. -/
theorem word_stripColumn {location : String} (h : Text.Word location.toList) :
    Text.Word (stripColumn location).toList := by
  unfold stripColumn
  split
  · rename_i column line file rest hpieces
    split
    · have hall : Text.split ':' location = rest.reverse ++ [file] ++ [line] ++ [column] := by
        simpa using congrArg List.reverse hpieces
      have hfront : Text.join ":" (line :: file :: rest).reverse =
          Text.join ":" (rest.reverse ++ [file]) ++ ":" ++ line := by
        rw [List.reverse_cons, List.reverse_cons, join_concat (by simp)]
      have hlocation : location =
          Text.join ":" (line :: file :: rest).reverse ++ ":" ++ column := by
        calc location = Text.join ":" (Text.split ':' location) := by
              apply String.toList_injective
              simp [Text.join, Text.split, List.intercalate_splitOn]
          _ = _ := by
              rw [hall, join_concat (by simp), List.reverse_cons, List.reverse_cons]
      -- File and line have a colon between them, and the location goes on behind them.
      refine h.of_subset (by rw [hfront]; simp) ?_
      rw [congrArg String.toList hlocation, String.toList_append, String.toList_append,
        List.append_assoc]
      exact List.subset_append_left _ _
    · exact h
  · exact h

theorem tidy_framesFrom (lines : List String) (n : Nat) :
    ∀ f ∈ framesFrom n lines, Text.Word f.function.toList ∧ Text.Word f.location.toList := by
  induction lines generalizing n with
  | nil => simp [framesFrom]
  | cons line lines ih =>
    unfold framesFrom
    split
    · rename_i number a b function more hfields
      -- A line is cut into words, so all its fields are words.
      have hword : ∀ field ∈ number :: a :: b :: function :: more, Text.Word field.toList := by
        rw [← hfields]
        exact fun field => word_of_mem_fields
      split
      · split
        -- A frame without a usable place is counted but left out.
        · exact ih (n + 1)
        · refine List.forall_mem_cons.mpr ⟨⟨hword function (by simp), ?_⟩, ih (n + 1)⟩
          exact word_stripColumn (hword _ (List.getLast_mem _))
      · simp
    · simp

theorem tidy_of_parse {output : String} {r : SanitizerReport} (h : parse output = some r) :
    r.Tidy := by
  unfold parse at h
  split at h
  · cases h
    have hframes := tidy_framesFrom (stackLines (Text.split '\n' output)) 0
    refine ⟨?_, fun f hf => (hframes f hf).1, fun f hf => (hframes f hf).2⟩
    cases hdescribed : (Text.split '\n' output).findSome? describe? with
    | none => exact ⟨by simp, by simp; decide⟩
    | some description =>
      obtain ⟨line, -, hline⟩ := List.exists_of_findSome?_eq_some hdescribed
      exact word_of_describe? hline
  · cases h

/-! ## Written lines -/

/-- File and line of the innermost frame, if it has them. -/
def place? (r : SanitizerReport) : Option (String × Int) :=
  r.frames.head?.bind (splitLocation ·.location)

/-- The words of the line of a frame. -/
def frameWords (f : SanitizerFrame) (n : Nat) : List (List Char) :=
  ["#".toList ++ (Decimal.pad 9 n).toList, "in".toList, f.function.toList, "()".toList, "at".toList,
    f.location.toList]

/-- The phrases of the lines with the location. -/
def placePhrases (r : SanitizerReport) : List (List (List Char)) :=
  match r.place? with
  | some (file, line) =>
    [["File:".toList, file.toList], ["line:".toList, (Decimal.ofInt line).toList]]
  | none => []

/-- The first line of a crash report. -/
def firstLine (r : SanitizerReport) : List Char :=
  Text.phrase ["Error:".toList, r.description.toList]

/-- The lines that follow, up to the end of the stack. -/
def bodyLines (r : SanitizerReport) : List (List Char) :=
  r.placePhrases.map Text.phrase ++ Text.phrase ["Stack:".toList] ::
    (r.frames.zipIdx.map fun p => '\t' :: Text.phrase (frameWords p.1 p.2)) ++
    [Text.phrase ["Info:".toList]]

/-- The same lines without the tabulators of the frames. -/
def bodyPhrases (r : SanitizerReport) : List (List Char) :=
  r.placePhrases.map Text.phrase ++ Text.phrase ["Stack:".toList] ::
    ((r.frames.zipIdx.map fun p => Text.phrase (frameWords p.1 p.2)) ++
      [Text.phrase ["Info:".toList]])

theorem toList_frameLine (n : Nat) (f : SanitizerFrame) :
    (frameLine n f).toList = '\t' :: Text.phrase (frameWords f n) ++ ['\n'] := by
  simp [frameLine, frameWords]

theorem toList_locationLines (r : SanitizerReport) :
    r.locationLines.toList = (r.placePhrases.map Text.phrase).flatMap (· ++ ['\n']) := by
  unfold locationLines placePhrases place?
  cases r.frames with
  | nil => simp
  | cons f rest =>
    cases hsplit : splitLocation f.location with
    | none => simp [hsplit]
    | some place => simp [hsplit]

/-- A crash report is written line by line. -/
theorem toList_frameLines (r : SanitizerReport) :
    (String.join (r.frames.zipIdx.map fun (f, n) => frameLine n f)).toList =
      (r.frames.zipIdx.map fun p => '\t' :: Text.phrase (frameWords p.1 p.2)).flatMap
        (· ++ ['\n']) := by
  rw [String.toList_join, List.flatMap_map, List.flatMap_map]
  exact List.flatMap_congr fun p _ => toList_frameLine p.2 p.1

theorem toList_text (r : SanitizerReport) (input : String) :
    ∃ rest, (r.text input).toList =
      (r.firstLine :: r.bodyLines).flatMap (· ++ ['\n']) ++ rest := by
  refine ⟨(if input == "" then "" else "\tfuzzer input: " ++ input ++ "\n").toList, ?_⟩
  unfold text firstLine bodyLines
  simp only [String.toList_append, toList_locationLines, toList_frameLines, List.flatMap_append,
    List.flatMap_cons, List.flatMap_nil]
  simp

/-! ## The lines of a crash report -/

theorem word_of_splitLocation {location file : String} {line : Int}
    (hword : Text.Word location.toList) (h : splitLocation location = some (file, line)) :
    Text.Word file.toList ∧ Decimal.parse (Decimal.ofInt line) = .ok line := by
  unfold splitLocation at h
  split at h
  · rename_i front digits hcut
    by_cases hempty : (front == "") = true
    · simp [hempty] at h
    · cases hparse : Decimal.parse digits with
      | error why => simp [hempty, hparse] at h
      | ok n =>
        simp only [hempty, hparse] at h
        cases h
        -- A number that was read is in range, so it is read back as it is written.
        obtain ⟨hlow, hhigh⟩ := Decimal.parse_bounds hparse
        refine ⟨hword.of_subset (by simpa using hempty) ?_, Decimal.parse_ofInt hlow hhigh⟩
        rw [Text.toList_of_cutLast hcut]
        exact List.subset_append_left _ _
  · cases h

namespace Tidy

variable {r : SanitizerReport}

theorem frameWords (h : r.Tidy) {f : SanitizerFrame} (hf : f ∈ r.frames) (n : Nat) :
    ∀ w ∈ frameWords f n, Text.Word w := by
  have hhash : Text.Word "#".toList := .of_check (by decide)
  have hnumber : Text.Word ("#".toList ++ (Decimal.pad 9 n).toList) :=
    ⟨by simp, List.forall_mem_append.mpr ⟨hhash.no_blank, (Decimal.word_pad 9 n).no_blank⟩⟩
  simp only [SanitizerReport.frameWords, List.forall_mem_cons]
  exact ⟨hnumber, .of_check (by decide), h.functions f hf, .of_check (by decide),
    .of_check (by decide), h.locations f hf, by simp⟩

theorem place (h : r.Tidy) {file : String} {line : Int} (hplace : r.place? = some (file, line)) :
    Text.Word file.toList ∧ Decimal.parse (Decimal.ofInt line) = .ok line := by
  obtain ⟨f, hf, hsplit⟩ := Option.bind_eq_some_iff.mp hplace
  exact word_of_splitLocation (h.locations f (List.mem_of_mem_head? hf)) hsplit

theorem placePhrases (h : r.Tidy) : ∀ ws ∈ r.placePhrases, ∀ w ∈ ws, Text.Word w := by
  unfold SanitizerReport.placePhrases
  cases hplace : r.place? with
  | none => simp
  | some place =>
    obtain ⟨file, line⟩ := place
    have hfile : Text.Word "File:".toList := .of_check (by decide)
    have hline : Text.Word "line:".toList := .of_check (by decide)
    simpa using ⟨⟨hfile, (h.place hplace).1⟩, hline, Decimal.word_ofInt line⟩

/-- The lines of a crash report are handed out as they were written. -/
theorem kept (h : r.Tidy) : ∀ line ∈ r.firstLine :: r.bodyLines, Text.Kept line := by
  have herror : Text.Word "Error:".toList := .of_check (by decide)
  have hstack : ∀ w ∈ ["Stack:".toList], Text.Word w :=
    List.forall_mem_singleton.mpr (.of_check (by decide))
  have hinfo : ∀ w ∈ ["Info:".toList], Text.Word w :=
    List.forall_mem_singleton.mpr (.of_check (by decide))
  have hframes : ∀ line ∈ r.frames.zipIdx.map fun p =>
      '\t' :: Text.phrase (SanitizerReport.frameWords p.1 p.2), Text.Kept line := by
    intro line hline
    obtain ⟨p, hp, rfl⟩ := List.mem_map.mp hline
    exact Text.kept_tab_phrase (h.frameWords (List.fst_mem_of_mem_zipIdx hp) p.2)
      (by simp [SanitizerReport.frameWords])
  -- Every line consists of words with single blanks between them, which reading leaves alone.
  have hplace : ∀ line ∈ r.placePhrases.map Text.phrase, Text.Kept line := by
    intro line hline
    obtain ⟨ws, hws, rfl⟩ := List.mem_map.mp hline
    exact Text.kept_phrase (h.placePhrases ws hws)
  unfold firstLine bodyLines
  simp only [List.forall_mem_cons, List.forall_mem_append]
  exact ⟨Text.kept_phrase (by simpa using ⟨herror, h.description⟩),
    ⟨hplace, Text.kept_phrase hstack, hframes⟩, Text.kept_phrase hinfo,
    fun _ h => absurd h List.not_mem_nil⟩

theorem map_trim_bodyLines (h : r.Tidy) : r.bodyLines.map Text.trimChars = r.bodyPhrases := by
  have hstack : ∀ w ∈ ["Stack:".toList], Text.Word w :=
    List.forall_mem_singleton.mpr (.of_check (by decide))
  have hinfo : ∀ w ∈ ["Info:".toList], Text.Word w :=
    List.forall_mem_singleton.mpr (.of_check (by decide))
  have hplace : (r.placePhrases.map Text.phrase).map Text.trimChars =
      r.placePhrases.map Text.phrase := by
    rw [List.map_map]
    exact List.map_congr_left fun ws hws => Text.trimChars_phrase (h.placePhrases ws hws)
  -- Only the lines of the stack are indented, and they lose their indentation.
  have hframes : (r.frames.zipIdx.map fun p =>
      '\t' :: Text.phrase (SanitizerReport.frameWords p.1 p.2)).map Text.trimChars =
      r.frames.zipIdx.map fun p => Text.phrase (SanitizerReport.frameWords p.1 p.2) := by
    rw [List.map_map]
    apply List.map_congr_left
    intro p hp
    rw [Function.comp_apply,
      Text.trimChars_tab_phrase (h.frameWords (List.fst_mem_of_mem_zipIdx hp) p.2)]
  unfold bodyLines bodyPhrases
  rw [List.map_append, List.map_append, List.map_cons, hplace, hframes,
    Text.trimChars_phrase hstack, List.map_singleton, Text.trimChars_phrase hinfo,
    List.append_assoc, List.cons_append]

end Tidy

/-- The faulting location as the registry has it. -/
def location (r : SanitizerReport) : String :=
  match r.place? with
  | some (file, line) => file ++ ":" ++ Decimal.ofInt line
  | none => ""

/-- The frames as the registry has them. -/
def stack (r : SanitizerReport) : List Frame := r.frames.map fun f => ⟨f.function, f.location⟩

end SanitizerReport

/-! ## Reading phrases -/

namespace Report

variable {r : SanitizerReport} {ls : List Line} {rest : List (List Char)}

theorem location_phrases (hr : r.Tidy)
    (h : ls.map (·.text) =
      r.placePhrases.map Text.phrase ++ Text.phrase ["Stack:".toList] :: rest) :
    ∃ more, location ls = .ok (r.location, more) ∧
      more.map (·.text) = Text.phrase ["Stack:".toList] :: rest := by
  unfold SanitizerReport.placePhrases at h
  unfold SanitizerReport.location
  cases hplace : r.place? with
  | none =>
    rw [hplace] at h
    obtain ⟨l, more, rfl, hl, hmore⟩ := List.map_eq_cons_iff.mp h
    have hstarts : l.starts "File: " = false := by simp [Line.starts, hl, List.isPrefixOf]
    refine ⟨l :: more, ?_, h⟩
    simp [location, hstarts]
  | some place =>
    obtain ⟨file, line⟩ := place
    obtain ⟨hfile, hread⟩ := hr.place hplace
    rw [hplace] at h
    obtain ⟨l, ls', rfl, hl, h⟩ := List.map_eq_cons_iff.mp h
    obtain ⟨next, more, rfl, hnext, hmore⟩ := List.map_eq_cons_iff.mp h
    refine ⟨more, ?_, hmore⟩
    have hstarts : l.starts "File: " = true := by simp [Line.starts, hl]
    have hafter : String.ofList (l.after "File: ") = file := by simp [Line.after, hl]
    -- The line number was read from the output of the program, so it is in range.
    have hline : lineNumber next = .ok line := by
      have hstarts : next.starts "line: " = true := by simp [Line.starts, hnext]
      have hafter : next.after "line: " = (Decimal.ofInt line).toList := by
        simp [Line.after, hnext]
      have htrim := Text.trimChars_phrase
        (List.forall_mem_singleton.mpr (Decimal.word_ofInt line))
      rw [Text.phrase_singleton] at htrim
      have hchars : Decimal.parseChars (Decimal.ofInt line).toList = .ok line := hread
      simp [lineNumber, hstarts, hafter, htrim, hchars]
    simp only [location, hstarts, if_true, hline, hafter]
    rfl

theorem stackLines_phrases
    (h : ls.map (·.text) = Text.phrase ["Stack:".toList] :: rest) :
    (stackLines ls).map (·.text) = rest := by
  obtain ⟨l, more, rfl, hl, hmore⟩ := List.map_eq_cons_iff.mp h
  have hstarts : l.starts "Stack:" = true := by simp [Line.starts, hl]
  simpa [stackLines, hstarts] using hmore

theorem frameOf_phrase {l : Line} {f : SanitizerFrame} {n : Nat}
    (hwords : ∀ w ∈ SanitizerReport.frameWords f n, Text.Word w)
    (hl : l.text = Text.phrase (SanitizerReport.frameWords f n))
    (hhelper : Text.startsWith f.function helperStart = false) :
    frameOf l = .ok (some ⟨f.function, f.location⟩) := by
  have hfields : Text.fieldsChars l.text = SanitizerReport.frameWords f n := by
    rw [hl, Text.fieldsChars_phrase hwords]
  unfold frameOf
  rw [hfields]
  simp [SanitizerReport.frameWords, hhelper]

theorem frames_phrases (path : String) (acc : List Frame) {fs : List SanitizerFrame} (k : Nat)
    (hwords : ∀ f ∈ fs, ∀ n, ∀ w ∈ SanitizerReport.frameWords f n, Text.Word w)
    (hhelper : ∀ f ∈ fs, Text.startsWith f.function helperStart = false)
    (h : ls.map (·.text) =
      (fs.zipIdx k).map (fun p => Text.phrase (SanitizerReport.frameWords p.1 p.2)) ++
        Text.phrase ["Info:".toList] :: rest) :
    frames path acc ls = .ok (acc.reverse ++ fs.map fun f => ⟨f.function, f.location⟩, true) := by
  induction fs generalizing ls acc k with
  | nil =>
    obtain ⟨l, more, rfl, hl, -⟩ := List.map_eq_cons_iff.mp h
    have hstarts : l.starts "Info:" = true := by simp [Line.starts, hl]
    simp [frames, hstarts]
  | cons f fs ih =>
    rw [List.zipIdx_cons, List.map_cons, List.cons_append] at h
    obtain ⟨l, more, rfl, hl, hmore⟩ := List.map_eq_cons_iff.mp h
    obtain ⟨hfirst, hrest⟩ := List.forall_mem_cons.mp hwords
    obtain ⟨hf, hfs⟩ := List.forall_mem_cons.mp hhelper
    -- The line begins with the number sign of the frame.
    have hstarts : l.starts "Info:" = false := by
      simp [Line.starts, hl, SanitizerReport.frameWords, List.isPrefixOf]
    have hne : l.text.isEmpty = false := by
      simp [hl, SanitizerReport.frameWords]
    have hframe : frameOf l = .ok (some ⟨f.function, f.location⟩) :=
      frameOf_phrase (hfirst k) hl hf
    have hnext := ih (⟨f.function, f.location⟩ :: acc) (k + 1) hrest hfs hmore
    simp only [frames, hstarts, hne, hframe, Bool.false_eq_true, if_false, hnext]
    simp

/-- What the registry reads from the lines of a crash report. -/
theorem parse_phrases {path : String} (ktest entry : String) (fns : FunctionSet)
    {text : Text.Lines} (hr : r.Tidy)
    (hhelper : ∀ f ∈ r.frames, Text.startsWith f.function helperStart = false)
    (hpath : Text.endsWith path Fault.propagatedEnding = false)
    (hlines : text.lines = r.firstLine :: r.bodyLines ++ rest) (hshort : text.tooLong = false) :
    ∃ fault, parse path ktest entry fns text = .ok fault ∧
      fault.reason = r.description ∧ fault.trace = Trace.ofFrames r.stack (normalize entry) ∧
      fault.location = r.location ∧ fault.entry = normalize entry ∧ fault.seed = "" := by
  have hstart : reasonStart.toList.isPrefixOf r.firstLine = true := by
    simp [reasonStart, SanitizerReport.firstLine]
  have hreason : String.ofList (Text.trimChars (r.firstLine.drop reasonStart.toList.length)) =
      r.description := by
    have htrim := Text.trimChars_phrase (List.forall_mem_singleton.mpr hr.description)
    rw [Text.phrase_singleton] at htrim
    simp [reasonStart, SanitizerReport.firstLine, htrim]
  -- Numbering and trimming the lines gives back the phrases they were written from.
  have htexts : (numbered (r.bodyLines ++ rest)).map (·.text) =
      r.placePhrases.map Text.phrase ++ Text.phrase ["Stack:".toList] ::
        ((r.frames.zipIdx.map fun p => Text.phrase (SanitizerReport.frameWords p.1 p.2)) ++
          Text.phrase ["Info:".toList] :: rest.map Text.trimChars) := by
    rw [map_text_numbered, List.map_append, hr.map_trim_bodyLines, SanitizerReport.bodyPhrases]
    simp
  obtain ⟨more, hlocation, hmore⟩ := location_phrases hr htexts
  have hstack : frames path [] (stackLines more) = .ok (r.stack, true) :=
    frames_phrases path [] 0 (fun f hf n => hr.frameWords hf n) hhelper (stackLines_phrases hmore)
  have hseed : seedOf path r.description = .ok "" := by simp [seedOf, hpath]
  let trace := Trace.ofFrames r.stack (normalize entry)
  -- The report names no other report that it would be propagated from.
  refine ⟨⟨path, ktest, normalize entry, r.description, r.location, innermost fns trace, trace, ""⟩,
    ?_, rfl, rfl, rfl, rfl, rfl⟩
  unfold parse
  rw [hlines]
  simp [hstart, hreason, hlocation, hstack, hseed, hshort, trace, Except.mapError, bind,
    Except.bind]

end Report

/-! ## Crash reports -/

namespace Fuzzer

theorem digit_of_mem_pad {width n : Nat} {c : Char} (hc : c ∈ (Decimal.pad width n).toList) :
    c.isDigit = true := by
  simp only [Decimal.pad, String.toList_ofList] at hc
  rcases List.mem_append.mp hc with hc | hc
  · rw [List.eq_of_mem_replicate hc]
    decide
  · exact Nat.isDigit_of_mem_toDigits (by decide) (by decide) hc

/-- The name of a crash report has a kind and an ending. -/
theorem crashFile_eq (dir : String) (i : Nat) :
    ∃ stem, crashFile dir i = stem ++ "." ++ "fuzz" ++ ".err" := by
  let name := "crash" ++ Decimal.pad 6 i ++ ".fuzz.err"
  -- The name of the file has no slash, so joining it to the directory keeps it whole.
  have hslash : '/' ∉ name.toList := by
    have hpad : '/' ∉ (Decimal.pad 6 i).toList := fun hmem =>
      absurd (digit_of_mem_pad hmem) (by decide)
    simpa [name] using hpad
  have hname : name ≠ "" ∧ name ≠ "." ∧ name ≠ ".." := by
    refine ⟨?_, ?_, ?_⟩ <;> intro heq <;> simpa [name] using congrArg String.toList heq
  have hends := Path.join_endsWith dir hslash hname
  obtain ⟨front, hfront⟩ := List.isSuffixOf_iff_suffix.mp hends
  refine ⟨String.ofList front ++ "crash" ++ Decimal.pad 6 i, ?_⟩
  apply String.toList_injective
  change (Path.join [dir, name]).toList = _
  rw [← hfront]
  simp [name]

/-- The report that the fuzzer writes for a crash is read back: whatever the output of the
sanitizer, the reason is its description, the trace holds its frames up to the function the run
started from, and the location is that of its first frame, if it has one. -/
theorem read_crashFile {output input : String} {r : SanitizerReport} {files : FileTree}
    (dir entry : String) (fns : FunctionSet) (i : Nat)
    (hparse : SanitizerReport.parse output = some r)
    (hhelper : ∀ f ∈ r.frames, Text.startsWith f.function Report.helperStart = false)
    (hshort : ∀ line ∈ Text.split '\n' (r.text input),
      Text.byteLength line.toList < Text.longLine)
    (hfile : files.openFile (crashFile dir i) = .ok (some (r.text input))) :
    ∃ fault, Report.read files (crashFile dir i) entry fns = .ok fault ∧
      fault.reason = r.description ∧
      fault.trace = Trace.ofFrames r.stack (Report.normalize entry) ∧
      fault.location = r.location ∧ fault.entry = Report.normalize entry ∧ fault.seed = "" := by
  have htidy := SanitizerReport.tidy_of_parse hparse
  obtain ⟨rest, htext⟩ := r.toList_text input
  obtain ⟨more, hlines⟩ := Text.readLines_lines htidy.kept htext hshort
  obtain ⟨stem, hpath⟩ := crashFile_eq dir i
  have hktest : Report.ktestOf (crashFile dir i) = .ok (stem ++ ".ktest") := by
    rw [hpath]
    exact Report.ktestOf_eq stem ⟨by decide, by decide⟩
  have hending : Text.endsWith (crashFile dir i) Fault.propagatedEnding = false := by
    rw [Bool.eq_false_iff, Text.endsWith, ne_eq, List.isSuffixOf_iff_suffix]
    intro hpropagated
    have hfuzz : ".fuzz.err".toList <:+ (crashFile dir i).toList := by
      rw [hpath]
      exact ⟨stem.toList, by simp⟩
    -- Of two endings of one path the shorter would end the longer.
    exact absurd (List.suffix_of_suffix_length_le hfuzz hpropagated (by decide)) (by decide)
  obtain ⟨fault, hfault, hrest⟩ := Report.parse_phrases (stem ++ ".ktest") entry fns htidy hhelper
    hending (congrArg Text.Lines.lines hlines) (congrArg Text.Lines.tooLong hlines)
  refine ⟨fault, ?_, hrest⟩
  rw [← hfault]
  simp [Report.read, hktest, hfile, Except.mapError, bind, Except.bind]

/-! ## One crash -/

/-- The output of a sanitizer, with a frame of its own and a column. -/
def sampleOutput : String :=
  "==1==ERROR: ASanitizer: leak\n#0 0x1 in __asan_free a.c:1\n#1 0x2 in g b c:14:9\n"

/-- Its report. -/
def sampleReport : SanitizerReport := { description := "leak", frames := [⟨"g", "c:14"⟩] }

/-- The report as it is written for an input whose name has a line end. -/
def sampleFiles : FileTree :=
  { root := .dir [("out", .dir [("crash000007.fuzz.err",
      .file (sampleReport.text "id\nStack:") false)])]
    cwd := [] }

/-- The report of the sample is read back. -/
theorem read_crashFile_sample :
    SanitizerReport.parse sampleOutput = some sampleReport ∧
    (∀ f ∈ sampleReport.frames, Text.startsWith f.function Report.helperStart = false) ∧
    (∀ line ∈ Text.split '\n' (sampleReport.text "id\nStack:"),
      Text.byteLength line.toList < Text.longLine) ∧
    sampleFiles.openFile (crashFile "out" 7) = .ok (some (sampleReport.text "id\nStack:")) ∧
    ∃ fault, Report.read sampleFiles (crashFile "out" 7) "g.17" ⟨[]⟩ = .ok fault ∧
      fault.reason = "leak" ∧ fault.location = "c:14" ∧ fault.trace = ⟨[⟨"g", "c:14"⟩], "g"⟩ := by
  have hparse : SanitizerReport.parse sampleOutput = some sampleReport := by decide +kernel
  have hhelper : ∀ f ∈ sampleReport.frames,
      Text.startsWith f.function Report.helperStart = false := by decide +kernel
  have hshort : ∀ line ∈ Text.split '\n' (sampleReport.text "id\nStack:"),
      Text.byteLength line.toList < Text.longLine := by decide +kernel
  have hopened : (sampleFiles.openFile (crashFile "out" 7)).toOption.map id =
      some (some (sampleReport.text "id\nStack:")) := by decide +kernel
  obtain ⟨text, hfile, rfl⟩ := Except.exists_of_toOption_map hopened
  -- Behind the report, the name of the input looks like another stack, which is not read.
  obtain ⟨fault, hread, hreason, htrace, hlocation, -⟩ :=
    read_crashFile "out" "g.17" ⟨[]⟩ 7 hparse hhelper hshort hfile
  refine ⟨hparse, hhelper, hshort, hfile, fault, hread, hreason, ?_, ?_⟩
  · rw [hlocation]
    decide +kernel
  · rw [htrace]
    decide +kernel

end Fuzzer
end FaultChain
