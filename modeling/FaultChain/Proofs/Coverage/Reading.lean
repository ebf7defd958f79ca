import FaultChain.Proofs.Text.Basic
import FaultChain.Proofs.Text.Decimals
import FaultChain.Symbolic.Coverage

/-!
# Reading coverage data

Rows are taken in one after the other, but what a row says of a line depends only on the source file
whose block it is in.

* `Coverage.Recorded`: a row in a block of a source file says how often a line was executed.
* `Coverage.tagged`: lines with the blocks they are in.
* `Coverage.Adds`: what taking in one line does, and `Coverage.Holds`, what a whole reading holds.
* `Coverage.exists_reading_iff`: which lines are read without an error.
-/

namespace FaultChain
namespace Coverage

/-! ## Rows and blocks -/

/-- The source file whose block a line opens; its name may be blank. -/
def opened? (line : List Char) : Option String :=
  if "fl=".toList.isPrefixOf line then some (String.ofList (Text.trimChars (line.drop 3))) else none

/-- A row says that an instruction of line `l` was executed `n` times. -/
structure Records (row : List Char) (l n : Int) : Prop where
  digit : ∃ d ∈ row.head?, d.isDigit = true
  columns : ∃ instr loc count rest, Text.fieldsChars row = instr :: loc :: count :: rest ∧
    Decimal.Denotes loc l ∧ Decimal.Denotes count n

/-- A line is in a block of a source file: behind its opening, without another opening between. -/
def InBlock (lines : List (List Char)) (file : String) (line : List Char) : Prop :=
  ∃ before start between after, lines = before ++ start :: (between ++ line :: after) ∧
    opened? start = some file ∧ ∀ x ∈ between, opened? x = none

/-- A row in a block of a source file says that line `l` was executed `n` times. Rows of line 0
say nothing. -/
def Recorded (lines : List (List Char)) (file : String) (l n : Int) : Prop :=
  l ≠ 0 ∧ ∃ row, InBlock lines file row ∧ Records row l n

section

variable {line row : List Char} {lines : List (List Char)} {file : String} {l n : Int}

theorem opened?_eq_some_iff :
    opened? line = some file ↔
      ∃ rest, line = "fl=".toList ++ rest ∧ file = String.ofList (Text.trimChars rest) := by
  unfold opened?
  constructor
  · intro h
    split at h
    · rename_i hprefix
      obtain ⟨rest, rfl⟩ := List.isPrefixOf_iff_prefix.mp hprefix
      exact ⟨rest, rfl, (Option.some.inj h).symm⟩
    · cases h
  · rintro ⟨rest, rfl, rfl⟩
    rw [if_pos (List.isPrefixOf_iff_prefix.mpr (List.prefix_append _ _))]
    rfl

/-- Rows open no blocks. -/
theorem Records.not_opened (h : Records row l n) : opened? row = none := by
  refine Option.eq_none_iff_forall_ne_some.mpr fun file hopened => ?_
  obtain ⟨rest, rfl, -⟩ := opened?_eq_some_iff.mp hopened
  obtain ⟨d, hd, hdigit⟩ := h.digit
  obtain rfl : 'f' = d := by simpa using hd
  exact absurd hdigit (by decide)

/-- The numbers of a row are read from its second and third column. -/
theorem records_iff {d : Char} {instr loc count : List Char} {rest : List (List Char)}
    (hhead : row.head? = some d) (hdigit : d.isDigit = true)
    (hcolumns : Text.fieldsChars row = instr :: loc :: count :: rest) :
    Records row l n ↔ Decimal.parseChars loc = .ok l ∧ Decimal.parseChars count = .ok n := by
  rw [Decimal.parseChars_eq_ok_iff, Decimal.parseChars_eq_ok_iff]
  constructor
  · rintro ⟨-, instr', loc', count', rest', hcolumns', hl, hn⟩
    rw [hcolumns] at hcolumns'
    cases hcolumns'
    exact ⟨hl, hn⟩
  · rintro ⟨hl, hn⟩
    exact ⟨⟨d, hhead, hdigit⟩, instr, loc, count, rest, hcolumns, hl, hn⟩

/-! ## Lines with their blocks -/

/-- The block a line is in, behind a line of block `tag`; an opening is in its own block. -/
def blockOf (tag : Option String) (line : List Char) : Option String := (opened? line).or tag

/-- Lines with the blocks they are in, behind a line of block `tag`. -/
def tagged : Option String → List (List Char) → List (Option String × List Char)
  | _, [] => []
  | tag, line :: rest => (blockOf tag line, line) :: tagged (blockOf tag line) rest

theorem blockOf_opening {tag : Option String} (h : opened? line = some file) :
    blockOf tag line = some file := by
  rw [blockOf, h, Option.some_or]

theorem blockOf_other {tag : Option String} (h : opened? line = none) :
    blockOf tag line = tag := by
  rw [blockOf, h, Option.none_or]

theorem tagged_append (tag : Option String) (xs ys : List (List Char)) :
    tagged tag (xs ++ ys) = tagged tag xs ++ tagged (xs.foldl blockOf tag) ys := by
  induction xs generalizing tag with
  | nil => rfl
  | cons x xs ih => rw [List.cons_append, tagged, tagged, ih, List.foldl_cons, List.cons_append]

/-- Lines that open no block stay in the block before them. -/
theorem tagged_others {tag : Option String} {body : List (List Char)}
    (h : ∀ line ∈ body, opened? line = none) (back : List (List Char)) :
    tagged tag (body ++ back) = body.map (tag, ·) ++ tagged tag back := by
  induction body with
  | nil => rfl
  | cons line body ih =>
    obtain ⟨hline, hbody⟩ := List.forall_mem_cons.mp h
    rw [List.cons_append, tagged, blockOf_other hline, ih hbody, List.map_cons, List.cons_append]

/-- A line comes before any opening. -/
def Unopened (lines : List (List Char)) (line : List Char) : Prop :=
  ∃ between after, lines = between ++ line :: after ∧ ∀ x ∈ between, opened? x = none

theorem unopened_cons_iff {first : List Char} {rest : List (List Char)} :
    Unopened (first :: rest) line ↔ line = first ∨ opened? first = none ∧ Unopened rest line := by
  constructor
  · rintro ⟨between, after, hlines, hbetween⟩
    cases between with
    | nil => exact Or.inl (List.cons.inj hlines).1.symm
    | cons x between =>
      obtain ⟨rfl, rfl⟩ := List.cons.inj hlines
      obtain ⟨hfirst, hbetween⟩ := List.forall_mem_cons.mp hbetween
      exact Or.inr ⟨hfirst, between, after, rfl, hbetween⟩
  · rintro (rfl | ⟨hfirst, between, after, rfl, hbetween⟩)
    · exact ⟨[], rest, rfl, by simp⟩
    · exact ⟨first :: between, after, rfl, List.forall_mem_cons.mpr ⟨hfirst, hbetween⟩⟩

theorem inBlock_cons_iff {first : List Char} {rest : List (List Char)} :
    InBlock (first :: rest) file line ↔
      opened? first = some file ∧ Unopened rest line ∨ InBlock rest file line := by
  constructor
  · rintro ⟨before, start, between, after, hlines, hstart, hbetween⟩
    -- The block is opened either by the first line or by one behind it.
    cases before with
    | nil =>
      obtain ⟨rfl, rfl⟩ := List.cons.inj hlines
      exact Or.inl ⟨hstart, between, after, rfl, hbetween⟩
    | cons x before =>
      obtain ⟨rfl, rfl⟩ := List.cons.inj hlines
      exact Or.inr ⟨before, start, between, after, rfl, hstart, hbetween⟩
  · rintro (⟨hfirst, between, after, rfl, hbetween⟩ |
      ⟨before, start, between, after, rfl, hstart, hbetween⟩)
    · exact ⟨[], first, between, after, rfl, hfirst, hbetween⟩
    · exact ⟨first :: before, start, between, after, rfl, hstart, hbetween⟩

theorem mem_tagged_iff_or (hline : opened? line = none) (tag : Option String) :
    (some file, line) ∈ tagged tag lines ↔
      InBlock lines file line ∨ tag = some file ∧ Unopened lines line := by
  induction lines generalizing tag with
  | nil => simp [tagged, InBlock, Unopened]
  | cons first rest ih =>
    rw [tagged, List.mem_cons, Prod.mk.injEq, ih, inBlock_cons_iff, unopened_cons_iff]
    cases hfirst : opened? first with
    | none =>
      simp only [blockOf_other hfirst, true_and, false_and, reduceCtorEq, false_or]
      rw [eq_comm (a := some file), and_or_left, or_left_comm]
    | some file' =>
      -- The first line is an opening, so it is another line than this one.
      have hne : line ≠ first := by
        rintro rfl
        rw [hline] at hfirst
        cases hfirst
      simp only [blockOf_opening hfirst, hne, and_false, false_or, reduceCtorEq, false_and,
        or_false]
      rw [or_comm]

/-- A line that opens no block is tagged with a source file exactly if it is in a block of it. -/
theorem mem_tagged_iff (hline : opened? line = none) :
    (some file, line) ∈ tagged none lines ↔ InBlock lines file line := by
  simp [mem_tagged_iff_or hline none]

theorem recorded_iff :
    Recorded lines file l n ↔ l ≠ 0 ∧ ∃ row, (some file, row) ∈ tagged none lines ∧ Records row l n := by
  constructor <;> rintro ⟨hl, row, hrow, hrecords⟩
  · exact ⟨hl, row, (mem_tagged_iff hrecords.not_opened).mpr hrow, hrecords⟩
  · exact ⟨hl, row, (mem_tagged_iff hrecords.not_opened).mp hrow, hrecords⟩

end

/-! ## Reading lines -/

section

variable {path : String} {k : Nat} {tag : Option String} {st st' : Reading} {line : List Char}
  {lines : List (List Char)}

/-- What taking in a line behind a line of block `tag` does: it opens a block, or it adds what it
says of the source file of its block. -/
structure Adds (tag : Option String) (line : List Char) (st st' : Reading) : Prop where
  header : st'.inHeader = true → st'.current = none
  current : st'.current = (blockOf tag line).filter (· ≠ "")
  files : ∀ file, file ∈ st'.files ↔ file ∈ st.files ∨ file ≠ "" ∧ opened? line = some file
  rows : ∀ file l n, ⟨file, l, n⟩ ∈ st'.rows ↔ ⟨file, l, n⟩ ∈ st.rows ∨
    file ≠ "" ∧ l ≠ 0 ∧ blockOf tag line = some file ∧ Records line l n

/-- A line that opens no block and says nothing about a source file. -/
theorem adds_nothing (hopened : opened? line = none)
    (hrecords : ∀ l n, Records line l n → l ≠ 0 → st.current = none)
    (htag : st.current = tag.filter (· ≠ "")) (hcurrent : st'.current = st.current)
    (hheader : st'.inHeader = true → st.current = none)
    (hfiles : st'.files = st.files) (hrows : st'.rows = st.rows) : Adds tag line st st' where
  header := by rwa [hcurrent]
  current := by rw [blockOf_other hopened, hcurrent, htag]
  files := by simp [hfiles, hopened]
  rows := by
    intro file l n
    rw [hrows, blockOf_other hopened, iff_self_or]
    rintro ⟨hfile, hl, rfl, hline⟩
    have hnone := hrecords l n hline hl
    simp [htag, hfile] at hnone

/-- A line without a digit in front says nothing about a source file. -/
theorem not_records (h : (line.head?.map Char.isDigit).getD false = false) {l n : Int} :
    ¬ Records line l n := by
  rintro ⟨⟨d, hd, hdigit⟩, -⟩
  simp [Option.mem_def.mp hd, hdigit] at h

/-- A header line opens no block. -/
theorem not_opened_of_headerLine? {entry : String × String} (h : headerLine? line = some entry) :
    opened? line = none := by
  refine Option.eq_none_iff_forall_ne_some.mpr fun file hopened => ?_
  obtain ⟨rest, rfl, -⟩ := opened?_eq_some_iff.mp hopened
  unfold headerLine? at h
  split at h
  · rename_i name value hcut
    -- The name reaches to the first colon, so it has the equality sign in it.
    obtain ⟨colon, hline, hcolon, -⟩ := Text.cutChars_eq_some_iff.mp hcut
    obtain rfl : colon = ':' := by simpa using hcolon
    have hsign : '=' ∈ name := by
      rcases List.append_eq_append_iff.mp hline with ⟨more, rfl, -⟩ | ⟨more, hfront, hmore⟩
      · exact List.mem_append_left _ (by decide)
      · cases more with
        | nil =>
          rw [List.append_nil] at hfront
          rw [← hfront]
          decide
        | cons c more =>
          obtain rfl : ':' = c := (List.cons.inj hmore).1
          have hcolon : ':' ∈ "fl=".toList := by rw [hfront]; simp
          exact absurd hcolon (by decide)
    rw [if_pos (by simpa using hsign)] at h
    cases h
  · cases h

theorem adds_takeRow (hdata : st.inHeader = false) (htag : st.current = tag.filter (· ≠ ""))
    {d : Char} (hhead : line.head? = some d) (hdigit : d.isDigit = true)
    (h : takeRow path k st line = .ok st') : Adds tag line st st' := by
  unfold takeRow at h
  split at h
  · rename_i instr loc count rest hcolumns
    split at h
    · rename_i l n hl hn
      have hline : Records line l n := (records_iff hhead hdigit hcolumns).mpr ⟨hl, hn⟩
      have hunique : ∀ {l' n'}, Records line l' n' → l' = l ∧ n' = n := by
        intro l' n' hline'
        obtain ⟨hl', hn'⟩ := (records_iff hhead hdigit hcolumns).mp hline'
        exact ⟨Except.ok.inj (hl'.symm.trans hl), Except.ok.inj (hn'.symm.trans hn)⟩
      split at h
      · -- The row is in the block of a source file with a name.
        rename_i file hcurrent
        have hfile : tag = some file ∧ file ≠ "" := by
          rw [hcurrent] at htag
          simpa [Option.filter_eq_some_iff] using htag.symm
        split at h
        · rename_i hzero
          cases h
          refine adds_nothing hline.not_opened (fun l' n' hline' hne => ?_) htag rfl
            (by simp [hdata]) rfl rfl
          exact absurd ((hunique hline').1.trans (by simpa using hzero)) hne
        · rename_i hne
          cases h
          refine ⟨by simp [hdata], ?_, ?_, ?_⟩
          · rw [blockOf_other hline.not_opened, ← htag]
          · simp [hline.not_opened]
          · intro file' l' n'
            rw [blockOf_other hline.not_opened, hfile.1, List.mem_cons, or_comm]
            refine or_congr_right ⟨fun hrow => ?_, ?_⟩
            · cases hrow
              exact ⟨hfile.2, by simpa using hne, rfl, hline⟩
            · rintro ⟨-, -, heq, hline'⟩
              obtain ⟨rfl, rfl⟩ := hunique hline'
              rw [Option.some.inj heq]
      · rename_i hnone
        cases h
        exact adds_nothing hline.not_opened (fun _ _ _ _ => hnone) htag rfl (by simp [hdata]) rfl
          rfl
    · cases h
  · cases h

theorem adds_openFile {name : String} (hopened : opened? line = some name)
    (hdata : st.inHeader = false) : Adds tag line st (openFile st name) := by
  have hrecords : ∀ {l n}, ¬ Records line l n := fun hline => by
    simp [hline.not_opened] at hopened
  unfold openFile
  split
  · -- A blank name opens a block all of whose rows are left out.
    rename_i hblank
    obtain rfl : name = "" := by simpa using hblank
    refine ⟨by simp [hdata], by simp [blockOf_opening hopened, Option.filter], fun file => ?_, ?_⟩
    · rw [hopened, iff_self_or]
      rintro ⟨hfile, heq⟩
      exact absurd (Option.some.inj heq).symm hfile
    · simp [hrecords]
  · rename_i hblank
    have hname : name ≠ "" := by simpa using hblank
    refine ⟨by simp [hdata], by simp [blockOf_opening hopened, hname, Option.filter],
      fun file => ?_, ?_⟩
    · rw [hopened, List.mem_cons, or_comm]
      refine or_congr_right ⟨?_, ?_⟩
      · rintro rfl
        exact ⟨hname, rfl⟩
      · rintro ⟨-, heq⟩
        exact (Option.some.inj heq).symm
    · simp [hrecords]

theorem adds_takeData (hdata : st.inHeader = false) (htag : st.current = tag.filter (· ≠ ""))
    (h : takeData path k st line = .ok st') : Adds tag line st st' := by
  unfold takeData at h
  split at h
  · rename_i hdigit
    -- A row is told by its first character alone, so the line is not empty.
    obtain ⟨d, hd, hdigit⟩ : ∃ d, line.head? = some d ∧ d.isDigit = true := by
      cases hhead : line.head? with
      | none => simp [hhead] at hdigit
      | some d => exact ⟨d, rfl, by simpa [hhead] using hdigit⟩
    exact adds_takeRow hdata htag hd hdigit h
  · rename_i hdigit
    split at h
    · rename_i hprefix
      cases h
      exact adds_openFile (by rw [opened?, if_pos hprefix]) hdata
    · rename_i hprefix
      split at h
      · cases h
        exact adds_nothing (by rw [opened?, if_neg hprefix])
          (fun _ _ hline _ => absurd hline (not_records (by simpa using hdigit))) htag rfl
          (by simp [hdata]) rfl rfl
      · cases h

/-- What taking in any line does. -/
theorem adds_takeLine (hheader : st.inHeader = true → st.current = none)
    (htag : st.current = tag.filter (· ≠ "")) (h : takeLine path k st line = .ok st') :
    Adds tag line st st' := by
  unfold takeLine at h
  split at h
  · rename_i hempty
    cases h
    obtain rfl : line = [] := by simpa using hempty
    exact adds_nothing (by decide) (fun _ _ hline _ => absurd hline (not_records rfl)) htag rfl
      hheader rfl rfl
  · split at h
    · -- No source file is open yet, so whatever a header line looks like, it adds nothing.
      rename_i hin
      split at h
      · rename_i hentry
        cases h
        exact adds_nothing (not_opened_of_headerLine? hentry) (fun _ _ _ _ => hheader hin) htag rfl
          hheader rfl rfl
      · split at h
        · have hadds : Adds tag line { st with inHeader := false } st' := adds_takeData rfl htag h
          exact ⟨hadds.header, hadds.current, hadds.files, hadds.rows⟩
        · cases h
    · rename_i hin
      exact adds_takeData (by simpa using hin) htag h

/-- What taking in lines does, from what taking in each of them does. -/
theorem mem_of_takeLines (tag : Option String) (hheader : st.inHeader = true → st.current = none)
    (htag : st.current = tag.filter (· ≠ "")) (h : takeLines path k st lines = .ok st') :
    (∀ file, file ∈ st'.files ↔
      file ∈ st.files ∨ file ≠ "" ∧ ∃ line ∈ lines, opened? line = some file) ∧
    ∀ file l n, ⟨file, l, n⟩ ∈ st'.rows ↔ ⟨file, l, n⟩ ∈ st.rows ∨
      file ≠ "" ∧ l ≠ 0 ∧ ∃ row, (some file, row) ∈ tagged tag lines ∧ Records row l n := by
  induction lines generalizing k st tag with
  | nil =>
    cases h
    simp [tagged]
  | cons line rest ih =>
    rw [takeLines] at h
    split at h
    · cases h
    · rename_i mid hmid
      -- What one line adds comes first; the tag of the lines behind it is the block it leaves open.
      have hadds := adds_takeLine hheader htag hmid
      obtain ⟨hfiles, hrows⟩ := ih _ hadds.header hadds.current h
      constructor
      · intro file
        rw [hfiles, hadds.files, or_assoc, ← and_or_left]
        simp
      · intro file l n
        rw [hrows, hadds.rows, or_assoc, ← and_or_left, ← and_or_left]
        refine or_congr_right (and_congr_right fun _ => and_congr_right fun _ => ?_)
        rw [tagged]
        simp only [List.mem_cons, Prod.mk.injEq]
        constructor
        -- The row is the one just taken in, or one of those behind it.
        · rintro (⟨hblock, hline⟩ | ⟨row, hrow, hrecords⟩)
          · exact ⟨line, Or.inl ⟨hblock.symm, rfl⟩, hline⟩
          · exact ⟨row, Or.inr hrow, hrecords⟩
        · rintro ⟨row, ⟨hblock, rfl⟩ | hrow, hrecords⟩
          · exact Or.inl ⟨hblock.symm, hrecords⟩
          · exact Or.inr ⟨row, hrow, hrecords⟩

/-- A reading holds the names and the rows of the lines it has taken in. -/
structure Holds (lines : List (List Char)) (st : Reading) : Prop where
  files : ∀ file, file ∈ st.files ↔ file ≠ "" ∧ ∃ line ∈ lines, opened? line = some file
  rows : ∀ file l n, ⟨file, l, n⟩ ∈ st.rows ↔ file ≠ "" ∧ Recorded lines file l n

theorem holds_of_takeLines (h : takeLines path k {} lines = .ok st) : Holds lines st := by
  obtain ⟨hfiles, hrows⟩ := mem_of_takeLines none (fun _ => rfl) rfl h
  refine ⟨by simpa using hfiles, fun file l n => ?_⟩
  rw [hrows, recorded_iff]
  simp

end

/-! ## Accepted lines -/

/-- Whether a line belongs to the header as long as no other line has been read. -/
def isHead (line : List Char) : Bool := line.isEmpty || (headerLine? line).isSome

/-- The header in front of the data, the latest line first. -/
def headerOf (lines : List (List Char)) : List (String × String) :=
  ((lines.takeWhile isHead).filterMap headerLine?).reverse

/-- Lines behind the header that are read without an error. -/
inductive Readable (line : List Char) : Prop
  | blank (h : line = [])
  | row {l n : Int} (h : Records line l n)
  | opening {file : String} (h : opened? line = some file)
  | other {start : String} (hstart : start ∈ ignoredStarts) (h : start.toList <+: line)

/-- Lines that are read without an error: a good header, and data behind it. -/
structure Accepted (lines : List (List Char)) : Prop where
  header : goodHeader (headerOf lines) = true
  data : lines.dropWhile isHead ≠ []
  readable : ∀ line ∈ lines.dropWhile isHead, Readable line

section

variable {path : String} {k : Nat} {st st' : Reading} {line : List Char} {lines : List (List Char)}

theorem exists_takeRow_iff {d : Char} (hhead : line.head? = some d) (hdigit : d.isDigit = true) :
    (∃ st', takeRow path k st line = .ok st') ↔ ∃ l n, Records line l n := by
  constructor
  · rintro ⟨st', h⟩
    unfold takeRow at h
    split at h
    · rename_i hcolumns
      split at h
      · rename_i l n hl hn
        exact ⟨l, n, (records_iff hhead hdigit hcolumns).mpr ⟨hl, hn⟩⟩
      · cases h
    · cases h
  · rintro ⟨l, n, -, instr, loc, count, rest, hcolumns, hl, hn⟩
    simp only [takeRow, hcolumns, Decimal.parseChars_eq_ok_iff.mpr hl,
      Decimal.parseChars_eq_ok_iff.mpr hn]
    split
    -- Whether the row is kept makes no difference to its being read.
    · split <;> exact ⟨_, rfl⟩
    · exact ⟨_, rfl⟩

/-- Lines without data do not begin with a digit. -/
theorem not_digit_of_ignored {start : String} (hstart : start ∈ ignoredStarts)
    (h : start.toList <+: line) : (line.head?.map Char.isDigit).getD false = false := by
  have hall : ∀ start ∈ ignoredStarts, ∃ c rest, start.toList = c :: rest ∧ c.isDigit = false := by
    simp [ignoredStarts]
  obtain ⟨c, more, hchars, hc⟩ := hall start hstart
  obtain ⟨rest, rfl⟩ := h
  simp [hchars, hc]

theorem exists_takeData_iff (path : String) (k : Nat) (st : Reading) (hne : line ≠ []) :
    (∃ st', takeData path k st line = .ok st') ↔ Readable line := by
  unfold takeData
  split
  · rename_i hdigit
    obtain ⟨d, hd, hdigit'⟩ : ∃ d, line.head? = some d ∧ d.isDigit = true := by
      cases hhead : line.head? with
      | none => simp [hhead] at hdigit
      | some d => exact ⟨d, rfl, by simpa [hhead] using hdigit⟩
    rw [exists_takeRow_iff hd hdigit']
    constructor
    -- Among readable lines only rows begin with a digit.
    · rintro ⟨l, n, hline⟩
      exact .row hline
    · intro hline
      cases hline with
      | blank h => exact absurd h hne
      | row h => exact ⟨_, _, h⟩
      | opening h =>
        obtain ⟨rest, rfl, -⟩ := opened?_eq_some_iff.mp h
        obtain rfl : 'f' = d := by simpa using hd
        exact absurd hdigit' (by decide)
      | other hstart h =>
        rw [not_digit_of_ignored hstart h] at hdigit
        cases hdigit
  · rename_i hdigit
    split
    · rename_i hprefix
      exact iff_of_true ⟨_, rfl⟩ (.opening (if_pos hprefix))
    · rename_i hprefix
      split
      · rename_i hignored
        obtain ⟨start, hstart, h⟩ := List.any_eq_true.mp hignored
        exact iff_of_true ⟨_, rfl⟩ (.other hstart (List.isPrefixOf_iff_prefix.mp h))
      · rename_i hignored
        -- None of the ways in which a line can be read is left.
        refine iff_of_false (by simp) fun hline => ?_
        cases hline with
        | blank h => exact hne h
        | row h => exact not_records (by simpa using hdigit) h
        | opening h =>
          rw [opened?, if_neg hprefix] at h
          cases h
        | other hstart h =>
          exact hignored (List.any_eq_true.mpr ⟨_, hstart, List.isPrefixOf_iff_prefix.mpr h⟩)

theorem inHeader_takeData (h : takeData path k st line = .ok st') : st'.inHeader = st.inHeader := by
  unfold takeData takeRow openFile at h
  -- Rows, openings and ignored lines all leave the header as it is.
  split at h
  · split at h
    · split at h
      · split at h
        · split at h <;> cases h <;> rfl
        · cases h
          rfl
      · cases h
    · cases h
  · split at h
    · cases h
      split <;> rfl
    · split at h <;> cases h
      rfl

theorem takeLine_data (hdata : st.inHeader = false) :
    takeLine path k st line = if line = [] then .ok st else takeData path k st line := by
  simp [takeLine, hdata]

/-- Behind the header, lines are read without an error exactly if each of them is. -/
theorem exists_takeLines_iff (hdata : st.inHeader = false) :
    (∃ st', takeLines path k st lines = .ok st' ∧ st'.inHeader = false) ↔
      ∀ line ∈ lines, Readable line := by
  induction lines generalizing k st with
  | nil => simpa [takeLines] using hdata
  | cons line rest ih =>
    rw [List.forall_mem_cons, takeLines, takeLine_data hdata]
    by_cases hblank : line = []
    · rw [if_pos hblank]
      exact (ih hdata).trans (iff_and_self.mpr fun _ => .blank hblank)
    · rw [if_neg hblank, ← exists_takeData_iff path k st hblank]
      cases htake : takeData path k st line with
      | error f => simp
      | ok mid => simpa using ih ((inHeader_takeData htake).trans hdata)

theorem headerLine?_nil : headerLine? [] = none := rfl

/-- Taking in the lines of the header. -/
theorem takeLines_header (path : String) (k : Nat) (st : Reading) {heads : List (List Char)}
    (hheads : ∀ line ∈ heads, isHead line = true)
    (hin : st.inHeader = true) (rest : List (List Char)) :
    takeLines path k st (heads ++ rest) = takeLines path (k + heads.length)
      { st with header := (heads.filterMap headerLine?).reverse ++ st.header } rest := by
  induction heads generalizing k st with
  | nil => rfl
  | cons line heads ih =>
    obtain ⟨hline, hrest⟩ := List.forall_mem_cons.mp hheads
    rw [List.cons_append, takeLines, List.length_cons, Nat.add_comm heads.length, ← Nat.add_assoc]
    -- An empty line is no entry of the header but counts as a line.
    by_cases hempty : line = []
    · subst hempty
      simp only [takeLine, List.isEmpty_nil, if_true, List.filterMap_cons, headerLine?_nil]
      exact ih (k + 1) st hrest hin
    · obtain ⟨entry, hentry⟩ : ∃ entry, headerLine? line = some entry := by
        simpa [isHead, hempty, Option.isSome_iff_exists] using hline
      have htake : takeLine path k st line = .ok { st with header := entry :: st.header } := by
        simp [takeLine, hempty, hin, hentry]
      simp only [htake, List.filterMap_cons, hentry, List.reverse_cons, List.append_assoc,
        List.singleton_append]
      exact ih (k + 1) { st with header := entry :: st.header } hrest hin

/-- The first line behind the header. -/
theorem takeLine_first (hin : st.inHeader = true) (hline : isHead line = false) :
    takeLine path k st line = if goodHeader st.header = true then
      takeLine path k { st with inHeader := false } line
    else .error (bad path "unexpected istats header") := by
  simp only [isHead, Bool.or_eq_false_iff, Option.isSome_eq_false_iff, Option.isNone_iff_eq_none]
    at hline
  simp [takeLine, hin, hline.1, hline.2]

/-- Which lines are read without an error, and with data in them. -/
theorem exists_reading_iff :
    (∃ st, takeLines path k {} lines = .ok st ∧ st.inHeader = false) ↔ Accepted lines := by
  have hheads : ∀ line ∈ lines.takeWhile isHead, isHead line = true :=
    fun line hline => List.mem_takeWhile_imp hline
  have hlines : takeLines path k {} lines = takeLines path (k + (lines.takeWhile isHead).length)
      { header := headerOf lines } (lines.dropWhile isHead) := by
    have hall := takeLines_header path k {} hheads rfl
      (lines.dropWhile isHead)
    rwa [List.takeWhile_append_dropWhile, List.append_nil] at hall
  rw [hlines]
  have hstop := List.head?_dropWhile_not isHead lines
  cases hdata : lines.dropWhile isHead with
  | nil =>
    refine iff_of_false ?_ fun h => h.data hdata
    simp [takeLines]
  | cons line rest =>
    rw [hdata] at hstop
    by_cases hgood : goodHeader (headerOf lines) = true
    · -- The first line behind the header is taken in as every other one after it.
      have hfirst : ∀ k, takeLines path k { header := headerOf lines } (line :: rest) =
          takeLines path k { header := headerOf lines, inHeader := false } (line :: rest) := by
        intro k
        rw [takeLines, takeLines, takeLine_first rfl hstop, if_pos hgood]
      rw [hfirst, exists_takeLines_iff rfl]
      exact ⟨fun h => ⟨hgood, by simp [hdata], by rwa [hdata]⟩, fun h => by rw [← hdata]; exact h.readable⟩
    · refine iff_of_false ?_ fun h => hgood h.header
      rw [takeLines, takeLine_first rfl hstop, if_neg hgood]
      simp

end

end Coverage
end FaultChain
