import FaultChain.Report
import FaultChain.Proofs.Text.Basic

/-!
# Reading reports

* `Report.normalize_eq_self_iff`: the function names that are kept as they are.
* `Report.ktestOf_eq_ok_iff`: the reports with a test case.
* `Report.parse_eq_ok_iff`: the parts of the reader, put together.
* `Report.read_spec`: what a report says about its entry function.
-/

namespace FaultChain

theorem Except.exists_of_bind_eq_ok {ε α β : Type} {x : Except ε α} {f : α → Except ε β} {b : β}
    (h : x >>= f = .ok b) : ∃ a, x = .ok a ∧ f a = .ok b := by
  cases x with
  | error why => cases h
  | ok a => exact ⟨a, rfl, h⟩

theorem Except.eq_ok_of_mapError {ε ε' α : Type} {x : Except ε α} {f : ε → ε'} {a : α}
    (h : x.mapError f = .ok a) : x = .ok a := by
  cases x with
  | error why => cases h
  | ok a' =>
    cases h
    rfl

theorem Except.exists_of_toOption_map {α β : Type} {x : Except Failure α} {f : α → β} {b : β}
    (h : x.toOption.map f = some b) : ∃ a, x = .ok a ∧ f a = b := by
  cases x with
  | error why => cases h
  | ok a => exact ⟨a, rfl, Option.some.inj h⟩

namespace Report

/-! ## Names -/

/-- The names that stay as they are have no dot. -/
theorem normalize_eq_self_iff {name : String} : normalize name = name ↔ '.' ∉ name.toList := by
  unfold normalize
  rw [← String.toList_inj, String.toList_ofList, List.takeWhile_eq_self_iff]
  constructor
  · intro hall hdot
    simpa using hall _ hdot
  · intro h c hc
    have hne : c ≠ '.' := fun heq => h (heq ▸ hc)
    simpa using hne

/-- A name without a dot is a function name. -/
theorem normalize_of_no_dot {name : String} (h : '.' ∉ name.toList) : normalize name = name :=
  normalize_eq_self_iff.mpr h

/-- A path of a report: its name has an error type between the last dot and the ending. -/
structure IsReportPath (path stem kind : String) : Prop where
  path_eq : path = stem ++ "." ++ kind ++ ".err"
  no_dot : '.' ∉ kind.toList
  no_slash : '/' ∉ kind.toList

/-- The reports with a test case, which is beside them. -/
theorem ktestOf_eq_ok_iff {path ktest : String} :
    ktestOf path = .ok ktest ↔
      ∃ stem kind, IsReportPath path stem kind ∧ ktest = stem ++ ".ktest" := by
  unfold ktestOf
  -- A path is a stem, a dot, a kind and the ending, in which the kind begins behind the last other
  -- dot.
  by_cases hends : Text.endsWith path ".err" = true
  · obtain ⟨front, rfl⟩ := Text.endsWith_iff.mp hends
    simp only [hends, Bool.not_true, Bool.false_eq_true, if_false, Text.dropEnding_append]
    constructor
    · intro h
      split at h
      · rename_i stem kind hcut
        obtain ⟨hfront, hdot⟩ := Text.cutLast_eq_some_iff.mp hcut
        split at h
        · cases h
        · rename_i hslash
          cases h
          refine ⟨stem, kind, ⟨String.toList_injective ?_, hdot, by simpa using hslash⟩, rfl⟩
          simp [hfront]
      · cases h
    · rintro ⟨stem, kind, ⟨hpath, hdot, hslash⟩, rfl⟩
      have hfront : front = stem ++ "." ++ kind := by
        have hdropped := congrArg (Text.dropEnding · ".err") hpath
        simpa only [Text.dropEnding_append] using hdropped
      have hcut : Text.cutLast '.' front = some (stem, kind) :=
        Text.cutLast_eq (by simp [hfront]) hdot
      simp [hcut, hslash]
  · simp only [hends, Bool.not_false, if_true]
    constructor
    · intro h
      cases h
    · rintro ⟨stem, kind, hpath, -⟩
      exact absurd (Text.endsWith_iff.mpr ⟨_, hpath.path_eq⟩) hends

/-- The test case of a report is beside it. -/
theorem ktestOf_eq (stem : String) {kind : String} (hkind : '.' ∉ kind.toList ∧ '/' ∉ kind.toList) :
    ktestOf (stem ++ "." ++ kind ++ ".err") = .ok (stem ++ ".ktest") :=
  ktestOf_eq_ok_iff.mpr ⟨stem, kind, ⟨rfl, hkind.1, hkind.2⟩, rfl⟩

/-! ## Lines -/

theorem map_text_numbered (lines : List (List Char)) :
    (numbered lines).map (·.text) = lines.map Text.trimChars := by
  unfold numbered
  rw [List.map_map]
  conv_rhs => rw [← List.zipIdx_map_fst 2 lines, List.map_map]
  rfl

/-! ## What a report says -/

/-- The parts that a fault is made of, in the order in which they are read. -/
theorem parse_eq_ok_iff {path ktest entry : String} {fns : FunctionSet} {text : Text.Lines}
    {g : Fault} :
    parse path ktest entry fns text = .ok g ↔
      ∃ first rest loc body stack closed seed,
        text.lines = first :: rest ∧ reasonStart.toList.isPrefixOf first = true ∧
        location (numbered rest) = .ok (loc, body) ∧
        frames path [] (stackLines body) = .ok (stack, closed) ∧
        (text.tooLong && !closed) = false ∧
        seedOf path (String.ofList (Text.trimChars (first.drop reasonStart.toList.length))) =
          .ok seed ∧
        g = {
          report := path
          ktest := ktest
          entry := normalize entry
          reason := String.ofList (Text.trimChars (first.drop reasonStart.toList.length))
          location := loc
          function := innermost fns (Trace.ofFrames stack (normalize entry))
          trace := Trace.ofFrames stack (normalize entry)
          seed := seed } := by
  constructor
  -- Each part that is read has to be there, in the order in which they are looked at.
  · intro h
    unfold parse at h
    split at h
    · cases h
    · rename_i first rest hlines
      split at h
      · cases h
      · rename_i hfirst
        obtain ⟨⟨loc, body⟩, hlocation, h⟩ := Except.exists_of_bind_eq_ok h
        obtain ⟨⟨stack, closed⟩, hframes, h⟩ := Except.exists_of_bind_eq_ok h
        simp only at h
        split at h
        · cases h
        · rename_i hshort
          obtain ⟨seed, hseed, h⟩ := Except.exists_of_bind_eq_ok h
          cases h
          exact ⟨first, rest, loc, body, stack, closed, seed, hlines,
            by simpa only [Bool.not_eq_true', Bool.not_eq_false] using hfirst,
            Except.eq_ok_of_mapError hlocation, hframes, by simpa only [Bool.not_eq_true] using hshort,
            hseed, rfl⟩
  · rintro ⟨first, rest, loc, body, stack, closed, seed, hlines, hfirst, hlocation, hframes, hshort,
      hseed, rfl⟩
    unfold parse
    simp only [hlines, hfirst, hlocation, hframes, hshort, hseed, Except.mapError, bind, Except.bind]
    rfl

theorem parse_spec {path ktest entry : String} {fns : FunctionSet} {text : Text.Lines} {g : Fault}
    (h : parse path ktest entry fns text = .ok g) :
    g.report = path ∧ g.entry = normalize entry ∧ g.trace.entry = normalize entry := by
  obtain ⟨first, rest, loc, body, stack, closed, seed, -, -, -, -, -, -, rfl⟩ :=
    parse_eq_ok_iff.mp h
  exact ⟨rfl, rfl, rfl⟩

theorem endsWith_of_ktestOf {report ktest : String} (h : ktestOf report = .ok ktest) :
    Text.endsWith report ".err" = true := by
  obtain ⟨stem, kind, hpath, -⟩ := ktestOf_eq_ok_iff.mp h
  exact Text.endsWith_iff.mpr ⟨_, hpath.path_eq⟩

/-- What a report says about its entry function. -/
theorem read_spec {files : FileTree} {path entry : String} {fns : FunctionSet} {g : Fault}
    (h : read files path entry fns = .ok g) :
    Text.endsWith path ".err" = true ∧ g.report = path ∧ g.entry = normalize entry ∧
      g.trace.entry = normalize entry := by
  unfold read at h
  obtain ⟨ktest, hktest, h⟩ := Except.exists_of_bind_eq_ok h
  obtain ⟨content, -, h⟩ := Except.exists_of_bind_eq_ok h
  exact ⟨endsWith_of_ktestOf hktest, parse_spec h⟩

theorem read_congr {files files' : FileTree} {path : String}
    (h : files'.openFile path = files.openFile path) (entry : String) (fns : FunctionSet) :
    read files' path entry fns = read files path entry fns := by
  unfold read
  rw [h]

end Report

end FaultChain
