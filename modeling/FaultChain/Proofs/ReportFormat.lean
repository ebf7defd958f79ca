import FaultChain.Proofs.Paths
import FaultChain.Proofs.Report
import FaultChain.Proofs.Text.Decimals

/-!
# The format of error reports

A backend can be stopped at any time, so a report may end anywhere or hold the lines of two errors.
Which reports are read, and as what, is told here by their lines alone, without a reader that walks
through them.

* `Report.WellFormed`: the reports that are read.
* `Report.Describes`: the fault that a report describes.
* `Report.lineNumber_eq_ok_iff`, `Report.location_eq_ok_iff`, `Report.frames_eq_ok_iff`,
  `Report.seedOf_eq_ok_iff`: what the parts of the reader accept.
* `Report.read_iff_wellFormed`: a report is read if it is well-formed, as the fault it describes.
-/

namespace FaultChain
namespace Report

/-! ## The lines of a report -/

/-- The lines of a text, without the carriage returns at their ends. -/
def linesOf (content : String) : List (List Char) :=
  (Text.pieces content.toList).map Text.dropReturn

/-- A text that is written line by line has these lines. -/
theorem linesOf_printed {lines : List String} (h : ∀ line ∈ lines, Text.Kept line.toList) :
    linesOf (Text.printed lines) = lines.map String.toList := by
  rw [linesOf, Text.pieces_printed h, Text.map_dropReturn (by simpa using h)]

/-- The lines after the first one, trimmed. -/
def bodyOf (lines : List (List Char)) : List (List Char) := lines.tail.map Text.trimChars

/-- Whether a line begins with a word. -/
def begins (word : String) (line : List Char) : Bool := word.toList.isPrefixOf line

@[simp] theorem begins_text (word : String) (l : Line) : begins word l.text = l.starts word := rfl

/-- What the first line says behind the words in front. -/
def reasonOf (lines : List (List Char)) : String :=
  String.ofList (Text.trimChars ((lines.head?.getD []).drop "Error: ".toList.length))

/-! ## The location -/

/-- Whether the first line of a body names a file. -/
def namesFile (body : List (List Char)) : Bool := body.head?.any (begins "File: ")

/-- A line with a number: white space may stand in front of the integer. -/
def IsLineNumber (line : List Char) (n : Int) : Prop :=
  ∃ blanks digits, line = "line: ".toList ++ blanks ++ digits ∧
    (∀ c ∈ blanks, Text.isBlank c = true) ∧ Decimal.Denotes digits n

/-- The location that a body begins with, if any. -/
inductive Located : List (List Char) → String → Prop
  | absent {body : List (List Char)} (h : namesFile body = false) : Located body ""
  | given {file line : List Char} {rest : List (List Char)} {n : Int} (h : IsLineNumber line n) :
    Located (("File: ".toList ++ file) :: line :: rest)
      (String.ofList file ++ ":" ++ Decimal.ofInt n)

/-- The lines behind the location. -/
def afterLocation (body : List (List Char)) : List (List Char) :=
  if namesFile body then body.drop 2 else body

/-! ## The stack -/

/-- The lines behind the first one that opens a stack, up to the next one that opens the section of
further information. -/
def stackSection (body : List (List Char)) : List (List Char) :=
  (((afterLocation body).dropWhile (!begins "Stack:" ·)).drop 1).takeWhile (!begins "Info:" ·)

/-- The third and the last field of a stack line. -/
def frame? (line : List Char) : Option Frame := do
  let function ← (Text.fieldsChars line)[2]?
  let location ← (Text.fieldsChars line).getLast?
  return ⟨String.ofList function, String.ofList location⟩

/-- The frames of stack lines, without those of helpers. -/
def framesOf (lines : List (List Char)) : List Frame :=
  lines.filterMap fun line => (frame? line).filter (!Text.startsWith ·.function helperStart)

/-! ## Well-formed reports -/

/-- The reports that are read. -/
structure WellFormed (path : String) (lines : List (List Char)) : Prop where
  ending : Text.endsWith path ".err" = true
  kind : '.' ∈ (Text.dropEnding (Path.base path) ".err").toList
  reason : ∃ first ∈ lines.head?, begins "Error: " first = true
  location : namesFile (bodyOf lines) = true →
    ∃ line ∈ (bodyOf lines)[1]?, ∃ n, IsLineNumber line n
  stack : ∀ line ∈ stackSection (bodyOf lines), line ≠ [] → 3 ≤ (Text.fieldsChars line).length
  seed : Text.endsWith path ".macke.err" = true →
    Text.startsWith (reasonOf lines) "ERROR FROM " = true

/-- What a fault has from the lines of its report. -/
structure Describes (path entry : String) (fns : FunctionSet) (lines : List (List Char))
    (f : Fault) : Prop where
  report_eq : f.report = path
  ktest_eq : ∃ stem kind, IsReportPath path stem kind ∧ f.ktest = stem ++ ".ktest"
  entry_eq : f.entry = normalize entry
  reason_eq : f.reason = reasonOf lines
  location : Located (bodyOf lines) f.location
  trace_eq : f.trace = Trace.ofFrames (framesOf (stackSection (bodyOf lines))) (normalize entry)
  function_eq : f.function = (f.trace.functions.find? fns.contains).getD ""
  seed_eq : f.seed =
    if Text.endsWith path ".macke.err" then Text.trim (Text.dropStart f.reason "ERROR FROM ")
    else ""

/-! ## Paths of reports -/

/-- What the last component of a path is without the ending of reports. -/
theorem dropEnding_base {front name : String} (hname : '/' ∉ name.toList)
    (hfront : front = name ∨ ∃ dir, front = dir ++ "/" ++ name) :
    Text.dropEnding (Path.base (front ++ ".err")) ".err" = name := by
  have hslash : '/' ∉ (name ++ ".err").toList := by simpa using hname
  have hne : name ++ ".err" ≠ "" := by simp
  rcases hfront with rfl | ⟨dir, rfl⟩
  · rw [Path.base_of_no_slash hslash hne, Text.dropEnding_append]
  · have hpath : dir ++ "/" ++ name ++ ".err" = dir ++ "/" ++ (name ++ ".err") :=
      String.append_assoc
    rw [hpath, Path.base_slash dir hslash hne, Text.dropEnding_append]

/-- The error type stands in the last component of the path. -/
theorem exists_isReportPath_iff {path : String} :
    (∃ stem kind, IsReportPath path stem kind) ↔
      Text.endsWith path ".err" = true ∧
        '.' ∈ (Text.dropEnding (Path.base path) ".err").toList := by
  constructor
  · rintro ⟨stem, kind, rfl, -, hslash⟩
    refine ⟨Text.endsWith_iff.mpr ⟨_, rfl⟩, ?_⟩
    -- The last component is made of the error type and what is behind the last slash of the stem.
    rcases Path.name_or_slash stem with hstem | ⟨dir, name, hname, rfl⟩
    · have hfree : '/' ∉ (stem ++ "." ++ kind).toList := by simp [hstem, hslash]
      rw [dropEnding_base hfree (.inl rfl)]
      simp
    · have hfree : '/' ∉ (name ++ "." ++ kind).toList := by simp [hname, hslash]
      rw [dropEnding_base hfree (.inr ⟨dir, by simp only [String.append_assoc]⟩)]
      simp
  · rintro ⟨hends, hdot⟩
    obtain ⟨front, rfl⟩ := Text.endsWith_iff.mp hends
    obtain ⟨name, hname, hfront⟩ : ∃ name : String, '/' ∉ name.toList ∧
        (front = name ∨ ∃ dir, front = dir ++ "/" ++ name) := by
      rcases Path.name_or_slash front with hfront | ⟨dir, name, hname, hfront⟩
      · exact ⟨front, hfront, .inl rfl⟩
      · exact ⟨name, hname, .inr ⟨dir, hfront⟩⟩
    rw [dropEnding_base hname hfront] at hdot
    obtain ⟨stem, kind, hchars, hkind⟩ := Text.exists_last_of_mem hdot
    obtain rfl : name = stem ++ "." ++ kind := String.toList_injective (by simp [hchars])
    have hslash : '/' ∉ kind.toList := fun hmem => hname (by simp [hmem])
    rcases hfront with rfl | ⟨dir, rfl⟩
    · exact ⟨stem, kind, rfl, hkind, hslash⟩
    · exact ⟨dir ++ "/" ++ stem, kind, by simp only [String.append_assoc], hkind, hslash⟩

/-! ## Reading the location -/

theorem namesFile_iff {body : List (List Char)} :
    namesFile body = true ↔ ∃ file rest, body = ("File: ".toList ++ file) :: rest := by
  constructor
  · intro h
    cases body with
    | nil => cases h
    | cons line rest =>
      obtain ⟨file, rfl⟩ := List.isPrefixOf_iff_prefix.mp h
      exact ⟨file, rest, rfl⟩
  · rintro ⟨file, rest, rfl⟩
    exact List.isPrefixOf_iff_prefix.mpr (List.prefix_append _ _)

theorem located_iff_of_not_namesFile {body : List (List Char)} {loc : String}
    (h : namesFile body = false) : Located body loc ↔ loc = "" := by
  constructor
  · intro hlocated
    cases hlocated with
    | absent _ => rfl
    | given _ =>
      rw [namesFile_iff.mpr ⟨_, _, rfl⟩] at h
      cases h
  · rintro rfl
    exact .absent h

theorem located_file_iff {file : List Char} {rest : List (List Char)} {loc : String} :
    Located (("File: ".toList ++ file) :: rest) loc ↔
      ∃ line ∈ rest.head?, ∃ n, IsLineNumber line n ∧
        loc = String.ofList file ++ ":" ++ Decimal.ofInt n := by
  constructor
  · generalize hbody : ("File: ".toList ++ file) :: rest = body
    intro hlocated
    -- A report that names a file cannot be one without a location.
    cases hlocated with
    | absent h =>
      rw [namesFile_iff.mpr ⟨file, rest, hbody.symm⟩] at h
      cases h
    | @given file' line more n h =>
      obtain ⟨hfile, rfl⟩ := List.cons.inj hbody
      obtain rfl := List.append_cancel_left hfile
      exact ⟨line, rfl, n, h, rfl⟩
  · rintro ⟨line, hline, n, hnumber, rfl⟩
    obtain ⟨more, rfl⟩ := List.head?_eq_some_iff.mp hline
    exact .given hnumber

section

variable {ls : List Line}

theorem lineNumber_eq_ok_iff {l : Line} (htrim : ∀ c ∈ l.text.getLast?, Text.isBlank c = false)
    (n : Int) :
    lineNumber l = .ok n ↔ IsLineNumber l.text n := by
  unfold lineNumber
  by_cases hstarts : l.starts "line: " = true
  · obtain ⟨number, hnumber⟩ := List.isPrefixOf_iff_prefix.mp hstarts
    have hafter : l.after "line: " = number := by rw [Line.after, ← hnumber, List.drop_left]
    -- A trimmed line does not end in white space, so what it says can only have some in front.
    have hlast : ∀ c ∈ number.getLast?, Text.isBlank c = false := by
      intro c hc
      apply htrim c
      rw [← hnumber, List.getLast?_append, Option.mem_def.mp hc]
      rfl
    have hread : (∃ m, Decimal.parseChars (Text.trimChars number) = .ok m ∧ m = n) ↔
        IsLineNumber l.text n := by
      constructor
      · rintro ⟨m, hm, rfl⟩
        rw [Text.trimChars_eq_dropWhile hlast] at hm
        refine ⟨number.takeWhile Text.isBlank, _, ?_, fun c hc => ?_,
          Decimal.parseChars_eq_ok_iff.mp hm⟩
        · rw [List.append_assoc, List.takeWhile_append_dropWhile, hnumber]
        · exact List.mem_takeWhile_imp hc
      · rintro ⟨blanks, digits, hline, hblanks, hdenotes⟩
        rw [← hnumber, List.append_assoc] at hline
        obtain rfl := List.append_cancel_left hline
        rw [Text.trimChars_blanks_append hblanks hdenotes.word]
        exact ⟨n, Decimal.parseChars_eq_ok_iff.mpr hdenotes, rfl⟩
    rw [← hread]
    simp only [hstarts, Bool.not_true, Bool.false_eq_true, if_false, hafter]
    cases Decimal.parseChars (Text.trimChars number) with
    | error why => simp
    | ok m => simp
  · simp only [hstarts, Bool.not_false, if_true]
    constructor
    · intro h
      cases h
    · rintro ⟨blanks, digits, hline, -⟩
      refine absurd (List.isPrefixOf_iff_prefix.mpr ?_) hstarts
      rw [hline, List.append_assoc]
      exact List.prefix_append _ _

/-- What is read as the location, and where the reader goes on. -/
theorem location_eq_ok_iff {loc : String} {rest : List Line}
    (htrim : ∀ l ∈ ls, ∀ c ∈ l.text.getLast?, Text.isBlank c = false) :
    location ls = .ok (loc, rest) ↔
      Located (ls.map (·.text)) loc ∧
        rest = if namesFile (ls.map (·.text)) then ls.drop 2 else ls := by
  -- The reader looks at the first line only to decide, as the format does.
  by_cases hfile : namesFile (ls.map (·.text)) = true
  · rw [if_pos hfile]
    obtain ⟨file, texts, htexts⟩ := namesFile_iff.mp hfile
    obtain ⟨l, ls, rfl, hl, rfl⟩ := List.map_eq_cons_iff.mp htexts
    have hstarts : l.starts "File: " = true := by simp [Line.starts, hl]
    have hafter : l.after "File: " = file := by rw [Line.after, hl, List.drop_left]
    rw [htexts, located_file_iff]
    simp only [location, hstarts, if_true, hafter]
    cases ls with
    | nil => simp
    | cons next more =>
      have hnext := lineNumber_eq_ok_iff (htrim next (by simp))
      constructor
      · intro h
        obtain ⟨n, hn, h⟩ := Except.exists_of_bind_eq_ok h
        cases h
        exact ⟨⟨next.text, rfl, n, (hnext n).mp hn, rfl⟩, rfl⟩
      · rintro ⟨⟨line, hline, n, hnumber, rfl⟩, rfl⟩
        obtain rfl : next.text = line := by simpa using hline
        simp only [(hnext n).mpr hnumber]
        rfl
  · rw [if_neg hfile, located_iff_of_not_namesFile (by simpa using hfile)]
    cases ls with
    | nil => simp [location, eq_comm]
    | cons l ls =>
      have hstarts : l.starts "File: " = false := by simpa [namesFile] using hfile
      simp [location, hstarts, eq_comm]

end

/-! ## Reading the stack -/

/-- A stack line is read if it has three fields. -/
theorem frameOf_eq_ok_iff {l : Line} {frame : Option Frame} :
    frameOf l = .ok frame ↔
      3 ≤ (Text.fieldsChars l.text).length ∧
        frame = (frame? l.text).filter (!Text.startsWith ·.function helperStart) := by
  unfold frameOf frame?
  -- Up to two fields there is nothing to read the function from.
  rcases Text.fieldsChars l.text with _ | ⟨a, _ | ⟨b, _ | ⟨function, rest⟩⟩⟩
  · simp
  · simp
  · simp
  · have hlast : ((a :: b :: function :: rest).map String.ofList).getLast (by simp) =
        String.ofList ((a :: b :: function :: rest).getLast (by simp)) :=
      List.getLast_map (f := String.ofList) (by simp)
    simp only [List.map_cons] at hlast ⊢
    by_cases hhelper : Text.startsWith (String.ofList function) helperStart = true
    · simp [hhelper, List.getLast?_eq_some_getLast, Option.filter_some, eq_comm]
    · simp [hhelper, hlast, List.getLast?_eq_some_getLast, Option.filter_some, eq_comm]

theorem framesOf_cons (line : List Char) (lines : List (List Char)) :
    framesOf (line :: lines) =
      ((frame? line).filter (!Text.startsWith ·.function helperStart)).toList ++
        framesOf lines := by
  unfold framesOf
  rw [List.filterMap_cons]
  cases (frame? line).filter (!Text.startsWith ·.function helperStart) <;> rfl

/-- What the stack lines of a report are read as. -/
theorem frames_eq_ok_iff {fs : List Frame} {ls : List Line} (path : String) (acc : List Frame) :
    (∃ closed, frames path acc ls = .ok (fs, closed)) ↔
      (∀ line ∈ (ls.map (·.text)).takeWhile (!begins "Info:" ·),
        line ≠ [] → 3 ≤ (Text.fieldsChars line).length) ∧
      fs = acc.reverse ++ framesOf ((ls.map (·.text)).takeWhile (!begins "Info:" ·)) := by
  induction ls generalizing acc with
  | nil => simp [frames, framesOf, eq_comm]
  | cons l ls ih =>
    unfold frames
    by_cases hinfo : l.starts "Info:" = true
    · simp [hinfo, framesOf, eq_comm]
    · have hsection : ((l :: ls).map (·.text)).takeWhile (!begins "Info:" ·) =
          l.text :: (ls.map (·.text)).takeWhile (!begins "Info:" ·) := by simp [hinfo]
      rw [hsection, List.forall_mem_cons, framesOf_cons]
      simp only [hinfo, Bool.false_eq_true, if_false]
      -- A line of the section is passed over if it is blank; otherwise its frame has to be read.
      by_cases hblank : l.text = []
      · have hnone : frame? [] = none := by decide
        simp [hblank, hnone, ih]
      · have hne : l.text.isEmpty = false := by simpa using hblank
        simp only [hne, Bool.false_eq_true, if_false]
        cases hframe : frameOf l with
        | error why =>
          have hshort : ¬ 3 ≤ (Text.fieldsChars l.text).length := fun hlong => by
            have := frameOf_eq_ok_iff.mpr ⟨hlong, rfl⟩
            rw [hframe] at this
            cases this
          simp [hblank, hshort]
        | ok frame =>
          obtain ⟨hlong, hfilter⟩ := frameOf_eq_ok_iff.mp hframe
          cases frame with
          | none => simp [hlong, ← hfilter, ih]
          | some f => simp [hlong, ← hfilter, ih]

theorem map_text_stackLines (ls : List Line) :
    (stackLines ls).map (·.text) =
      ((ls.map (·.text)).dropWhile (!begins "Stack:" ·)).drop 1 := by
  rw [stackLines, List.map_drop, List.dropWhile_map]
  rfl

/-! ## Reading a report -/

/-- The seed is read from the reason of a propagated error. -/
theorem seedOf_eq_ok_iff {path reason seed : String} :
    seedOf path reason = .ok seed ↔
      (Text.endsWith path ".macke.err" = true → Text.startsWith reason "ERROR FROM " = true) ∧
      seed =
        if Text.endsWith path ".macke.err" then Text.trim (Text.dropStart reason "ERROR FROM ")
        else "" := by
  unfold seedOf Fault.propagatedEnding seedStart
  have hsame : ∀ {a : String}, (.ok a : Except Failure String) = .ok seed ↔ seed = a := by
    intro a
    rw [Except.ok.injEq, eq_comm]
  by_cases hpropagated : Text.endsWith path ".macke.err" = true
  · by_cases hseed : Text.startsWith reason "ERROR FROM " = true
    · simp [hpropagated, hseed, hsame]
    · simp [hpropagated, hseed]
  · simp [hpropagated, hsame]

theorem innermost_eq (fns : FunctionSet) (t : Trace) :
    innermost fns t = (t.functions.find? fns.contains).getD "" := by
  unfold innermost Trace.functions
  rw [List.find?_map]
  change _ = ((t.frames.find? (fns.contains ·.function)).map _).getD ""
  cases t.frames.find? (fns.contains ·.function) <;> rfl

theorem exists_located_iff {body : List (List Char)} :
    (∃ loc, Located body loc) ↔
      (namesFile body = true → ∃ line ∈ body[1]?, ∃ n, IsLineNumber line n) := by
  by_cases hfile : namesFile body = true
  · obtain ⟨file, rest, rfl⟩ := namesFile_iff.mp hfile
    simp only [located_file_iff, hfile, forall_const, List.getElem?_cons_succ, List.head?_eq_getElem?]
    constructor
    · rintro ⟨loc, line, hline, n, hnumber, -⟩
      exact ⟨line, hline, n, hnumber⟩
    · rintro ⟨line, hline, n, hnumber⟩
      exact ⟨_, line, hline, n, hnumber, rfl⟩
  · have hnot : namesFile body = false := by simpa using hfile
    simp [located_iff_of_not_namesFile hnot, hnot]

/-- The trimmed lines do not end in white space. -/
theorem trimmed_numbered (lines : List (List Char)) :
    ∀ l ∈ numbered lines, ∀ c ∈ l.text.getLast?, Text.isBlank c = false := by
  intro l hl
  have htext : l.text ∈ lines.map Text.trimChars := by
    rw [← map_text_numbered]
    exact List.mem_map_of_mem hl
  obtain ⟨line, -, hline⟩ := List.mem_map.mp htext
  rw [← hline]
  exact Text.getLast?_trimChars line

/-- The stack lines behind a location. -/
theorem takeWhile_stackLines {ls rest : List Line}
    (hrest : rest = if namesFile (ls.map (·.text)) then ls.drop 2 else ls) :
    ((stackLines rest).map (·.text)).takeWhile (!begins "Info:" ·) =
      stackSection (ls.map (·.text)) := by
  have hafter : rest.map (·.text) = afterLocation (ls.map (·.text)) := by
    rw [hrest, afterLocation]
    split
    · exact List.map_drop
    · rfl
  rw [map_text_stackLines, hafter, stackSection]

section

variable {path ktest entry : String} {fns : FunctionSet} {lines : List (List Char)} {f : Fault}

/-- A report from which a fault is read is well-formed, and describes the fault. -/
theorem describes_of_parse (hktest : ktestOf path = .ok ktest)
    (h : parse path ktest entry fns { lines := lines, tooLong := false } = .ok f) :
    WellFormed path lines ∧ Describes path entry fns lines f := by
  obtain ⟨stem, kind, hpath, rfl⟩ := ktestOf_eq_ok_iff.mp hktest
  obtain ⟨hends, hkind⟩ := exists_isReportPath_iff.mp ⟨stem, kind, hpath⟩
  obtain ⟨first, rest, loc, body, stack, closed, seed, hlines, hfirst, hlocation, hframes, -, hseed,
    rfl⟩ := parse_eq_ok_iff.mp h
  obtain rfl : lines = first :: rest := hlines
  -- Each part of the reader accepts exactly what the format asks for at its place.
  obtain ⟨hlocated, hbody⟩ := (location_eq_ok_iff (trimmed_numbered rest)).mp hlocation
  obtain ⟨hstack, rfl⟩ := (frames_eq_ok_iff path []).mp ⟨closed, hframes⟩
  obtain ⟨hpropagated, hseed⟩ := seedOf_eq_ok_iff.mp hseed
  rw [takeWhile_stackLines hbody] at hstack ⊢
  rw [map_text_numbered] at hlocated hstack ⊢
  refine ⟨?_, ?_⟩
  · exact {
      ending := hends
      kind := hkind
      reason := ⟨first, rfl, hfirst⟩
      location := exists_located_iff.mp ⟨loc, hlocated⟩
      stack := hstack
      seed := hpropagated }
  · exact {
      report_eq := rfl
      ktest_eq := ⟨stem, kind, hpath, rfl⟩
      entry_eq := rfl
      reason_eq := rfl
      location := hlocated
      trace_eq := rfl
      function_eq := innermost_eq fns _
      seed_eq := hseed }

/-- From a well-formed report a fault is read. -/
theorem exists_parse (h : WellFormed path lines) (ktest entry : String) (fns : FunctionSet) :
    ∃ f, parse path ktest entry fns { lines := lines, tooLong := false } = .ok f := by
  obtain ⟨first, hfirst, hbegins⟩ := h.reason
  obtain ⟨rest, rfl⟩ := List.head?_eq_some_iff.mp hfirst
  have hbody : bodyOf (first :: rest) = (numbered rest).map (·.text) :=
    (map_text_numbered rest).symm
  obtain ⟨loc, hlocated⟩ := exists_located_iff.mpr h.location
  rw [hbody] at hlocated
  have hlocation := (location_eq_ok_iff (trimmed_numbered rest)).mpr ⟨hlocated, rfl⟩
  have hstack := h.stack
  rw [hbody, ← takeWhile_stackLines rfl] at hstack
  obtain ⟨closed, hframes⟩ := (frames_eq_ok_iff path []).mpr ⟨hstack, rfl⟩
  have hseed := seedOf_eq_ok_iff.mpr ⟨h.seed, rfl⟩
  exact ⟨_, parse_eq_ok_iff.mpr ⟨first, rest, loc, _, _, closed, _, rfl, hbegins, hlocation, hframes,
    rfl, hseed, rfl⟩⟩

end

/-- Which reports are read, and as what: a report without lines of excessive length is read if and
only if it is well-formed, and then as the fault that it describes. -/
theorem read_iff_wellFormed {files : FileTree} {path content : String} (entry : String)
    (fns : FunctionSet) (hfile : files.openFile path = .ok (some content))
    (hshort : ∀ line ∈ Text.split '\n' content, Text.byteLength line.toList < Text.longLine) :
    ((∃ f, read files path entry fns = .ok f) ↔ WellFormed path (linesOf content)) ∧
      ∀ f, read files path entry fns = .ok f → Describes path entry fns (linesOf content) f := by
  -- Without excessively long lines, the reader sees the lines that are in the file.
  have hread : ∀ f, read files path entry fns = .ok f ↔ ∃ ktest, ktestOf path = .ok ktest ∧
      parse path ktest entry fns { lines := linesOf content, tooLong := false } = .ok f := by
    intro f
    have hlines : Text.readLines Text.longLine content =
        { lines := linesOf content, tooLong := false } := Text.readLines_of_short hshort
    unfold read
    rw [hfile]
    constructor
    · intro h
      obtain ⟨ktest, hktest, h⟩ := Except.exists_of_bind_eq_ok h
      exact ⟨ktest, hktest, hlines ▸ h⟩
    · rintro ⟨ktest, hktest, h⟩
      rw [hktest, ← h, ← hlines]
      rfl
  refine ⟨⟨?_, ?_⟩, ?_⟩
  · rintro ⟨f, hf⟩
    obtain ⟨ktest, hktest, hparse⟩ := (hread f).mp hf
    exact (describes_of_parse hktest hparse).1
  · intro h
    obtain ⟨stem, kind, hpath⟩ := exists_isReportPath_iff.mpr ⟨h.ending, h.kind⟩
    have hktest := ktestOf_eq_ok_iff.mpr ⟨stem, kind, hpath, rfl⟩
    obtain ⟨f, hf⟩ := exists_parse h (stem ++ ".ktest") entry fns
    exact ⟨f, (hread f).mpr ⟨_, hktest, hf⟩⟩
  · intro f hf
    obtain ⟨ktest, hktest, hparse⟩ := (hread f).mp hf
    exact (describes_of_parse hktest hparse).2

/-! ## Two reports -/

/-- The path of a report of a propagated error. -/
def samplePath : String := "out/test000001.macke.err"

/-- The lines of a report with a location, the frame of a helper, and a blank line. -/
def sampleLines : List String :=
  ["Error: ERROR FROM in/test000002.ptr.err", "File: names.c", "line: 14", "Stack:",
    "\t#0 1 __macke_error_copy () at m.c:1", "", "\t#1 2 memcpy () at lib.c:2",
    "#2 3 copy () at names.c:14", "#3 4 main () at names.c:30", "Info:", "cut"]

/-- The report in its directory. -/
def sampleReports : FileTree :=
  { root := .dir [("out", .dir [("test000001.macke.err", .file (Text.printed sampleLines) false)])]
    cwd := [] }

/-- The sample is well-formed, and the fault it describes is read. -/
theorem read_iff_wellFormed_sample :
    sampleReports.openFile samplePath = .ok (some (Text.printed sampleLines)) ∧
    (∀ line ∈ Text.split '\n' (Text.printed sampleLines),
      Text.byteLength line.toList < Text.longLine) ∧
    ∃ f, read sampleReports samplePath "copy.7" ⟨["copy", "main"]⟩ = .ok f ∧
      f.trace = ⟨[⟨"memcpy", "lib.c:2"⟩, ⟨"copy", "names.c:14"⟩], "copy"⟩ ∧
      f.function = "copy" ∧ f.seed = "in/test000002.ptr.err" := by
  have hfile : sampleReports.openFile samplePath = .ok (some (Text.printed sampleLines)) := by rfl
  -- No line of the sample ends in a blank, so printing and reading gives its lines back.
  have hkept : ∀ line ∈ sampleLines, '\n' ∉ line.toList ∧
      ∀ c ∈ line.toList.getLast?, Text.isBlank c = false := by
    simp [sampleLines, Text.isBlank]
  have hlines : linesOf (Text.printed sampleLines) = sampleLines.map String.toList :=
    linesOf_printed fun line hline => ⟨(hkept line hline).1, (hkept line hline).2⟩
  have hsplit : Text.split '\n' (Text.printed sampleLines) = sampleLines ++ [""] := by
    simpa [Text.split] using Text.split_printed (fun line hline => (hkept line hline).1) ""
  have hshort : ∀ line ∈ Text.split '\n' (Text.printed sampleLines),
      Text.byteLength line.toList < Text.longLine := by
    rw [hsplit]
    decide +kernel
  have hread := read_iff_wellFormed "copy.7" ⟨["copy", "main"]⟩ hfile hshort
  rw [hlines] at hread
  have hwellFormed : WellFormed samplePath (sampleLines.map String.toList) := {
    ending := by decide +kernel
    kind := by decide +kernel
    reason := ⟨"Error: ERROR FROM in/test000002.ptr.err".toList, by simp [sampleLines],
      by simp [begins]⟩
    location := fun _ => ⟨"line: 14".toList, by decide +kernel, 14, [], "14".toList, by decide,
      by simp, Decimal.parseChars_eq_ok_iff.mp rfl⟩
    stack := by decide +kernel
    seed := by decide +kernel }
  obtain ⟨f, hf⟩ := hread.1.mpr hwellFormed
  have hdescribes := hread.2 f hf
  refine ⟨hfile, hshort, f, hf, ?_, ?_, ?_⟩
  · rw [hdescribes.trace_eq]
    decide +kernel
  · rw [hdescribes.function_eq, hdescribes.trace_eq]
    decide +kernel
  · rw [hdescribes.seed_eq, hdescribes.reason_eq]
    decide +kernel

/-- A report with a second blank in front of the line number. -/
def spacedReport : String := "Error: overflow\nFile: a.c\nline:  7\n"

/-- The report in its directory. -/
def spacedReports : FileTree :=
  { root := .dir [("o", .dir [("test000001.ptr.err", .file spacedReport false)])], cwd := [] }

/-- Behind `line: ` there may be white space, so what follows is not always an integer. -/
theorem read_spaced :
    spacedReports.openFile "o/test000001.ptr.err" = .ok (some spacedReport) ∧
    (∀ line ∈ Text.split '\n' spacedReport, Text.byteLength line.toList < Text.longLine) ∧
    (∃ f, read spacedReports "o/test000001.ptr.err" "f" ⟨[]⟩ = .ok f ∧ f.location = "a.c:7") ∧
    namesFile (bodyOf (linesOf spacedReport)) = true ∧
    ¬ ∃ digits n, (bodyOf (linesOf spacedReport))[1]? = some ("line: ".toList ++ digits) ∧
      Decimal.Denotes digits n := by
  have hopened : (spacedReports.openFile "o/test000001.ptr.err").toOption.map id =
      some (some spacedReport) := by decide +kernel
  have hlocation : (read spacedReports "o/test000001.ptr.err" "f" ⟨[]⟩).toOption.map (·.location) =
      some "a.c:7" := by decide +kernel
  have hthird : (bodyOf (linesOf spacedReport))[1]? = some ("line: ".toList ++ " 7".toList) := by
    decide +kernel
  obtain ⟨text, hfile, rfl⟩ := Except.exists_of_toOption_map hopened
  refine ⟨hfile, by decide +kernel, Except.exists_of_toOption_map hlocation, by decide +kernel, ?_⟩
  rintro ⟨digits, n, hline, hdenotes⟩
  -- Only the blank and the digit can follow, and no integer begins with a blank.
  have hdigits : " 7".toList = digits :=
    List.append_cancel_left (Option.some.inj (hthird.symm.trans hline))
  exact hdenotes.word.not_mem (c := ' ') (by decide) (by simp [← hdigits])

end Report
end FaultChain
