import Mathlib.Data.List.DropRight
import FaultChain.Text.Basic
import FaultChain.Text.Lines

/-!
# Text taken apart

A line is written as words with one blank between them. Reading it gives these words back, whatever
they are made of.

* `Text.Word`: a run of characters without white space; the fields of a text are words.
* `Text.phrase`: words in one line. Its fields are the words, and trimming leaves it as it is.
* `Text.pieces_lines`: the lines of a text that is written line by line.
* `Text.readLines_lines`, `Text.readLines_printed`: a reader hands out such lines as they were
  written.
* `Text.split_printed`: the lines of a text behind lines that were printed.
* `Text.dropEnding_append`: text without its ending.
* `Text.cut_eq_some_iff`, `Text.cutLast_eq_some_iff`: text cut at the first and at the last occurrence
  of a character.
* `Text.infix_of_mem_split`, `Text.containsChars_iff`: text that occurs within another one.
-/

namespace FaultChain
namespace Text

/-! ## Words -/

/-- A run of characters without white space. -/
structure Word (w : List Char) : Prop where
  ne_nil : w ≠ []
  no_blank : ∀ c ∈ w, isBlank c = false

namespace Word

variable {w : List Char}

theorem not_mem (h : Word w) {c : Char} (hc : isBlank c = true) : c ∉ w := by
  intro hmem
  simp [h.no_blank c hmem] at hc

/-- A word that is written out. -/
theorem of_check (h : (!w.isEmpty && w.all (!isBlank ·)) = true) : Word w := by
  simp only [Bool.and_eq_true, Bool.not_eq_true', List.all_eq_true] at h
  exact ⟨List.isEmpty_eq_false_iff.mp h.1, h.2⟩

theorem of_subset (h : Word w) {v : List Char} (hne : v ≠ []) (hsub : v ⊆ w) : Word v where
  ne_nil := hne
  no_blank := fun c hc => h.no_blank c (hsub hc)

end Word

theorem not_of_mem_splitOnP {p : Char → Bool} {cs w : List Char} (hw : w ∈ cs.splitOnP p) :
    ∀ c ∈ w, p c = false := by
  induction cs generalizing w with
  | nil =>
    rw [List.splitOnP_nil, List.mem_singleton] at hw
    simp [hw]
  | cons c cs ih =>
    rw [List.splitOnP_cons_eq_if_modifyHead] at hw
    by_cases hc : p c = true
    · rw [if_pos hc] at hw
      rcases List.mem_cons.mp hw with rfl | hw
      · simp
      · exact ih hw
    · rw [if_neg hc] at hw
      -- The character joins the first piece of the rest.
      obtain ⟨first, rest, hsplit⟩ := List.exists_cons_of_ne_nil (List.splitOnP_ne_nil p cs)
      rw [hsplit] at hw ih
      rcases List.mem_cons.mp hw with rfl | hw
      · intro c' hc'
        rcases List.mem_cons.mp hc' with rfl | hc'
        · simpa using hc
        · exact ih List.mem_cons_self c' hc'
      · exact ih (List.mem_cons_of_mem _ hw)

/-- The fields of a text are words. -/
theorem word_of_mem_fieldsChars {cs w : List Char} (h : w ∈ fieldsChars cs) : Word w := by
  obtain ⟨hsplit, hne⟩ := List.mem_filter.mp h
  exact ⟨by simpa using hne, not_of_mem_splitOnP hsplit⟩

theorem fieldsChars_word {w : List Char} (h : Word w) : fieldsChars w = [w] := by
  unfold fieldsChars
  rw [List.splitOnP_eq_singleton h.no_blank]
  simp [h.ne_nil]

theorem fieldsChars_word_append {w : List Char} (h : Word w) (rest : List Char) :
    fieldsChars (w ++ ' ' :: rest) = w :: fieldsChars rest := by
  unfold fieldsChars
  rw [List.splitOnP_append_cons w rest (by decide), List.splitOnP_eq_singleton h.no_blank]
  simp [h.ne_nil]

/-! ## Trimming -/

theorem trimChars_cons_blank {b : Char} (hb : isBlank b = true) (cs : List Char) :
    trimChars (b :: cs) = trimChars cs := by
  unfold trimChars
  rw [List.dropWhile_cons_of_pos hb]

/-- A text with no white space at its ends. -/
theorem trimChars_eq_self {cs : List Char} (hhead : ∀ c ∈ cs.head?, isBlank c = false)
    (hlast : ∀ c ∈ cs.getLast?, isBlank c = false) : trimChars cs = cs := by
  have hstop : ∀ xs : List Char, (∀ c ∈ xs.head?, isBlank c = false) →
      xs.dropWhile isBlank = xs := by
    intro xs hxs
    cases xs with
    | nil => rfl
    | cons x xs => exact List.dropWhile_cons_of_neg (by simpa using hxs x rfl)
  unfold trimChars
  rw [hstop cs hhead, hstop cs.reverse (by rwa [List.head?_reverse]), List.reverse_reverse]

theorem getLast?_trimChars (cs : List Char) : ∀ c ∈ (trimChars cs).getLast?, isBlank c = false := by
  intro c hc
  have hstop := List.head?_dropWhile_not isBlank (cs.dropWhile isBlank).reverse
  rw [trimChars, List.getLast?_reverse] at hc
  rw [Option.mem_def.mp hc] at hstop
  simpa using hstop

/-- Without white space at its end, a text only loses what it has in front. -/
theorem trimChars_eq_dropWhile {cs : List Char} (hlast : ∀ c ∈ cs.getLast?, isBlank c = false) :
    trimChars cs = cs.dropWhile isBlank := by
  have hagain : trimChars cs = trimChars (cs.dropWhile isBlank) := by
    rw [trimChars, trimChars, List.dropWhile_idempotent isBlank]
  rw [hagain]
  apply trimChars_eq_self
  · intro c hc
    have hstop := List.head?_dropWhile_not isBlank cs
    rw [Option.mem_def.mp hc] at hstop
    simpa using hstop
  · obtain ⟨front, hfront⟩ := List.dropWhile_suffix isBlank (l := cs)
    intro c hc
    apply hlast c
    rw [← hfront, List.getLast?_append, Option.mem_def.mp hc]
    rfl

/-- Behind white space a text that does not end in white space is left as it is. -/
theorem trimChars_blanks_append {blanks cs : List Char} (hblanks : ∀ c ∈ blanks, isBlank c = true)
    (hcs : Word cs) : trimChars (blanks ++ cs) = cs := by
  induction blanks with
  | nil =>
    exact trimChars_eq_self (fun c hc => hcs.no_blank c (List.mem_of_mem_head? hc))
      fun c hc => hcs.no_blank c (List.mem_of_mem_getLast? hc)
  | cons b blanks ih =>
    obtain ⟨hb, hrest⟩ := List.forall_mem_cons.mp hblanks
    rw [List.cons_append, trimChars_cons_blank hb, ih hrest]

/-! ## Phrases -/

/-- Words with one blank between them. -/
def phrase (ws : List (List Char)) : List Char := [' '].intercalate ws

@[simp] theorem phrase_singleton (w : List Char) : phrase [w] = w := by
  simp [phrase]

@[simp] theorem phrase_cons_cons (w v : List Char) (ws : List (List Char)) :
    phrase (w :: v :: ws) = w ++ ' ' :: phrase (v :: ws) := by
  simp [phrase]

section

variable {ws : List (List Char)}

/-- The words of a phrase can be read back. -/
theorem fieldsChars_phrase (h : ∀ w ∈ ws, Word w) : fieldsChars (phrase ws) = ws := by
  induction ws with
  | nil => rfl
  | cons w ws ih =>
    obtain ⟨hw, hws⟩ := List.forall_mem_cons.mp h
    cases ws with
    | nil => rw [phrase_singleton, fieldsChars_word hw]
    | cons v ws => rw [phrase_cons_cons, fieldsChars_word_append hw, ih hws]

theorem head?_phrase (h : ∀ w ∈ ws, Word w) : ∀ c ∈ (phrase ws).head?, isBlank c = false := by
  cases ws with
  | nil => simp [phrase]
  | cons w ws =>
    obtain ⟨hw, -⟩ := List.forall_mem_cons.mp h
    obtain ⟨c, rest, rfl⟩ := List.exists_cons_of_ne_nil hw.ne_nil
    have hc : isBlank c = false := hw.no_blank c List.mem_cons_self
    cases ws with
    | nil => simpa using hc
    | cons v ws => simpa using hc

theorem phrase_ne_nil (h : ∀ w ∈ ws, Word w) (hne : ws ≠ []) : phrase ws ≠ [] := by
  obtain ⟨w, rest, rfl⟩ := List.exists_cons_of_ne_nil hne
  have hw := (h w List.mem_cons_self).ne_nil
  cases rest <;> simp [hw]

theorem getLast?_phrase (h : ∀ w ∈ ws, Word w) :
    ∀ c ∈ (phrase ws).getLast?, isBlank c = false := by
  induction ws with
  | nil => simp [phrase]
  | cons w ws ih =>
    obtain ⟨hw, hws⟩ := List.forall_mem_cons.mp h
    -- The last character is that of the last word, so every word in front of another is passed
    -- over.
    cases ws with
    | nil =>
      rw [phrase_singleton]
      exact fun c hc => hw.no_blank c (List.mem_of_mem_getLast? hc)
    | cons v ws =>
      have hne : phrase (v :: ws) ≠ [] := phrase_ne_nil hws (by simp)
      intro c hc
      apply ih hws c
      rw [phrase_cons_cons] at hc
      simpa [List.getLast?_append, List.getLast?_cons,
        List.getLast?_eq_some_getLast hne] using hc

theorem trimChars_phrase (h : ∀ w ∈ ws, Word w) : trimChars (phrase ws) = phrase ws :=
  trimChars_eq_self (head?_phrase h) (getLast?_phrase h)

theorem trimChars_tab_phrase (h : ∀ w ∈ ws, Word w) :
    trimChars ('\t' :: phrase ws) = phrase ws := by
  rw [trimChars_cons_blank (by decide), trimChars_phrase h]

theorem not_mem_phrase (h : ∀ w ∈ ws, Word w) : '\n' ∉ phrase ws := by
  induction ws with
  | nil => simp [phrase]
  | cons w ws ih =>
    obtain ⟨hw, hws⟩ := List.forall_mem_cons.mp h
    have hfirst : '\n' ∉ w := hw.not_mem (by decide)
    cases ws with
    | nil => simpa using hfirst
    | cons v ws => simpa [hfirst] using ih hws

end

/-! ## Lines -/

/-- A line that a reader hands out as it was written. -/
structure Kept (line : List Char) : Prop where
  no_end : '\n' ∉ line
  last : ∀ c ∈ line.getLast?, isBlank c = false

theorem kept_phrase {ws : List (List Char)} (h : ∀ w ∈ ws, Word w) : Kept (phrase ws) :=
  ⟨not_mem_phrase h, getLast?_phrase h⟩

theorem kept_tab_phrase {ws : List (List Char)} (h : ∀ w ∈ ws, Word w) (hne : ws ≠ []) :
    Kept ('\t' :: phrase ws) where
  no_end := by simpa using not_mem_phrase h
  last := by
    have hlast := getLast?_phrase h
    simpa [List.getLast?_cons, List.getLast?_eq_some_getLast (phrase_ne_nil h hne)] using hlast

theorem pieces_cons {line : List Char} (h : '\n' ∉ line) (rest : List Char) :
    pieces (line ++ '\n' :: rest) = line :: pieces rest := by
  obtain ⟨first, more, hsplit⟩ := List.exists_cons_of_ne_nil (List.splitOn_ne_nil '\n' rest)
  unfold pieces
  rw [List.splitOn_append_cons_self, List.splitOn_eq_singleton h, hsplit]
  simp only [List.singleton_append, List.getLast?_cons_cons, List.dropLast_cons_cons]
  split <;> rfl

/-- The lines of a text that is written line by line. -/
theorem pieces_lines {lines : List (List Char)} (h : ∀ line ∈ lines, Kept line)
    (rest : List Char) :
    pieces (lines.flatMap (· ++ ['\n']) ++ rest) = lines ++ pieces rest := by
  induction lines with
  | nil => rfl
  | cons line lines ih =>
    obtain ⟨hline, hlines⟩ := List.forall_mem_cons.mp h
    have hassoc : (line :: lines).flatMap (· ++ ['\n']) ++ rest =
        line ++ '\n' :: (lines.flatMap (· ++ ['\n']) ++ rest) := by simp
    rw [hassoc, pieces_cons hline.no_end, ih hlines, List.cons_append]

theorem Kept.dropReturn {line : List Char} (h : Kept line) : dropReturn line = line := by
  unfold Text.dropReturn
  split
  · rename_i hreturn
    have hlast : line.getLast? = some '\r' := by simpa using hreturn
    exact absurd (h.last '\r' hlast) (by decide)
  · rfl

theorem map_dropReturn {lines : List (List Char)} (h : ∀ line ∈ lines, Kept line) :
    lines.map Text.dropReturn = lines := by
  rw [List.map_congr_left fun line hline => (h line hline).dropReturn, List.map_id']

/-- A reader hands out all lines exactly if none is too long. -/
theorem tooLong_readLines_iff {limit : Nat} {text : String} :
    (readLines limit text).tooLong = false ↔
      ∀ line ∈ pieces text.toList, byteLength line < limit := by
  have hprefix := List.takeWhile_prefix (byteLength · < limit) (l := pieces text.toList)
  simp only [readLines, decide_eq_false_iff_not, Nat.not_lt]
  constructor
  · intro hle line hline
    rw [← hprefix.eq_of_length_le hle] at hline
    simpa using List.mem_takeWhile_imp hline
  · intro hall
    rw [List.takeWhile_eq_self_iff.mpr (by simpa using hall)]

theorem lines_readLines {limit : Nat} {text : String}
    (h : ∀ line ∈ pieces text.toList, byteLength line < limit) :
    (readLines limit text).lines = (pieces text.toList).map dropReturn := by
  rw [readLines, List.takeWhile_eq_self_iff.mpr (by simpa using h)]

theorem readLines_of_short {limit : Nat} {text : String}
    (h : ∀ line ∈ split '\n' text, byteLength line.toList < limit) :
    readLines limit text =
      { lines := (pieces text.toList).map dropReturn, tooLong := false } := by
  have hsub : pieces text.toList ⊆ text.toList.splitOn '\n' := by
    simp only [pieces]
    split
    · exact List.dropLast_subset _
    · exact List.Subset.refl _
  have hshort : ∀ line ∈ pieces text.toList, byteLength line < limit := by
    intro line hline
    simpa using h (String.ofList line) (List.mem_map_of_mem (hsub hline))
  rw [← lines_readLines hshort, ← tooLong_readLines_iff.mpr hshort]

/-- A text that is written line by line is read line by line. -/
theorem readLines_lines {limit : Nat} {text : String} {lines : List (List Char)} {rest : List Char}
    (hlines : ∀ line ∈ lines, Kept line)
    (htext : text.toList = lines.flatMap (· ++ ['\n']) ++ rest)
    (hshort : ∀ line ∈ split '\n' text, byteLength line.toList < limit) :
    ∃ more, readLines limit text = { lines := lines ++ more, tooLong := false } := by
  refine ⟨(pieces rest).map Text.dropReturn, ?_⟩
  rw [readLines_of_short hshort, htext, pieces_lines hlines, List.map_append,
    map_dropReturn hlines]

/-- Lines as they are printed, each with its end. -/
def printed (lines : List String) : String := String.join (lines.map (· ++ "\n"))

theorem pieces_printed {lines : List String} (h : ∀ line ∈ lines, Kept line.toList) :
    pieces (printed lines).toList = lines.map String.toList := by
  have hchars : (printed lines).toList =
      (lines.map String.toList).flatMap (· ++ ['\n']) ++ [] := by
    rw [printed, String.toList_join, List.flatMap_map, List.flatMap_map, List.append_nil]
    exact List.flatMap_congr fun line _ => by simp
  have hnil : pieces [] = [] := by decide
  rw [hchars, pieces_lines (by simpa using h), hnil, List.append_nil]

/-- Printed lines are read as they are. -/
theorem readLines_printed {limit : Nat} {lines : List String}
    (h : ∀ line ∈ lines, Kept line.toList)
    (hshort : ∀ line ∈ lines, byteLength line.toList < limit) :
    readLines limit (printed lines) = { lines := lines.map String.toList, tooLong := false } := by
  have hpieces : ∀ line ∈ pieces (printed lines).toList, byteLength line < limit := by
    rw [pieces_printed h]
    simpa using hshort
  have hlines := lines_readLines hpieces
  rw [pieces_printed h, map_dropReturn (by simpa using h)] at hlines
  rw [← hlines, ← tooLong_readLines_iff.mpr hpieces]

/-- Printed lines are the first lines of the text they stand in front of. -/
theorem split_printed {lines : List String} (h : ∀ line ∈ lines, '\n' ∉ line.toList)
    (s : String) : split '\n' (printed lines ++ s) = lines ++ split '\n' s := by
  induction lines with
  | nil => simp [printed]
  | cons line lines ih =>
    obtain ⟨hline, hlines⟩ := List.forall_mem_cons.mp h
    have hchars : (printed (line :: lines) ++ s).toList =
        line.toList ++ '\n' :: (printed lines ++ s).toList := by
      simp [printed, String.join_cons]
    rw [split, hchars, List.splitOn_append_cons_self, List.splitOn_eq_singleton hline,
      List.map_append, List.cons_append, ← ih hlines, split]
    simp

/-- The first line is the beginning of a text. -/
theorem prefix_of_split {sep : Char} {s line : String} (h : line ∈ (split sep s).head?) :
    line.toList <+: s.toList := by
  obtain ⟨first, rest, hsplit⟩ := List.exists_cons_of_ne_nil (List.splitOn_ne_nil sep s.toList)
  have hs : [sep].intercalate (s.toList.splitOn sep) = s.toList := List.intercalate_splitOn sep
  rw [split, hsplit] at h
  rw [hsplit] at hs
  obtain rfl : String.ofList first = line := by simpa using h
  rw [String.toList_ofList, ← hs]
  cases rest with
  | nil => simp
  | cons next more =>
    rw [List.intercalate_cons_cons, List.append_assoc]
    exact List.prefix_append _ _

theorem intercalate_split (sep : Char) (s : String) :
    [sep].intercalate ((split sep s).map String.toList) = s.toList := by
  simp [split, Function.comp_def]

/-! ## Endings -/

theorem endsWith_iff {s ending : String} :
    endsWith s ending = true ↔ ∃ front, s = front ++ ending := by
  rw [endsWith, List.isSuffixOf_iff_suffix]
  constructor
  · rintro ⟨front, hfront⟩
    refine ⟨String.ofList front, String.toList_injective ?_⟩
    rw [← hfront, String.toList_append, String.toList_ofList]
  · rintro ⟨front, rfl⟩
    rw [String.toList_append]
    exact List.suffix_append _ _

/-- What stands in front of an ending remains without it. -/
theorem dropEnding_append (front ending : String) : dropEnding (front ++ ending) ending = front := by
  apply String.toList_injective
  rw [dropEnding, if_pos (endsWith_iff.mpr ⟨front, rfl⟩), String.toList_append,
    String.toList_ofList, List.length_append, Nat.add_sub_cancel, List.take_left]

/-! ## Cutting -/

theorem cutChars_eq_some_iff {p : Char → Bool} {cs front back : List Char} :
    cutChars p cs = some (front, back) ↔
      ∃ c, cs = front ++ c :: back ∧ p c = true ∧ ∀ x ∈ front, p x = false := by
  constructor
  · intro h
    unfold cutChars at h
    split at h
    · cases h
    · rename_i c rest hrest
      cases h
      -- What is left begins with the first character that stops the search.
      have hstop := List.head?_dropWhile_not (fun x => !p x) cs
      rw [hrest] at hstop
      refine ⟨c, ?_, by simpa using hstop, fun x hx => by simpa using List.mem_takeWhile_imp hx⟩
      rw [← hrest, List.takeWhile_append_dropWhile]
  · rintro ⟨c, rfl, hc, hfront⟩
    have hbefore : ∀ x ∈ front, (!p x) = true := fun x hx => by simp [hfront x hx]
    rw [cutChars, List.dropWhile_append_of_pos hbefore, List.takeWhile_append_of_pos hbefore,
      List.dropWhile_cons_of_neg (by simp [hc]), List.takeWhile_cons_of_neg (by simp [hc]),
      List.append_nil]

/-- Text is cut at the first occurrence of a character. -/
theorem cut_eq_some_iff {sep : Char} {s front back : String} :
    cut sep s = some (front, back) ↔
      s.toList = front.toList ++ sep :: back.toList ∧ sep ∉ front.toList := by
  -- Texts and their characters are cut alike.
  have hchars : cut sep s = some (front, back) ↔
      cutChars (· == sep) s.toList = some (front.toList, back.toList) := by
    rw [cut, Option.map_eq_some_iff]
    constructor
    · rintro ⟨⟨a, b⟩, hcut, hends⟩
      obtain ⟨rfl, rfl⟩ := Prod.mk.inj hends
      simpa using hcut
    · intro hcut
      exact ⟨_, hcut, by simp⟩
  rw [hchars, cutChars_eq_some_iff]
  constructor
  · rintro ⟨c, hs, hc, hfront⟩
    obtain rfl : c = sep := by simpa using hc
    exact ⟨hs, fun hmem => by simpa using hfront c hmem⟩
  · rintro ⟨hs, hfront⟩
    refine ⟨sep, hs, by simp, fun x hx => ?_⟩
    have hne : x ≠ sep := by
      rintro rfl
      exact hfront hx
    simpa using hne

/-- Text is cut at a character that does not occur behind it. -/
theorem cutLast_eq {sep : Char} {s front back : String}
    (hs : s.toList = front.toList ++ sep :: back.toList) (hback : sep ∉ back.toList) :
    cutLast sep s = some (front, back) := by
  have hbefore : ∀ x ∈ back.toList.reverse, (!(x == sep)) = true := by
    intro x hx
    have hne : x ≠ sep := by
      rintro rfl
      exact hback (List.mem_reverse.mp hx)
    simpa using hne
  have hchars : s.toList.reverse = back.toList.reverse ++ sep :: front.toList.reverse := by
    simp [hs]
  rw [cutLast, cutChars, hchars, List.dropWhile_append_of_pos hbefore,
    List.takeWhile_append_of_pos hbefore]
  simp

/-- A text with a character in it has a last occurrence of it. -/
theorem exists_last_of_mem {sep : Char} {s : String} (h : sep ∈ s.toList) :
    ∃ front back : String, s.toList = front.toList ++ sep :: back.toList ∧ sep ∉ back.toList := by
  obtain ⟨back, front, hsplit, hback⟩ := List.eq_append_cons_of_mem (List.mem_reverse.mpr h)
  refine ⟨String.ofList front.reverse, String.ofList back.reverse, ?_, by simpa using hback⟩
  simpa using congrArg List.reverse hsplit

theorem cutLast_eq_none {sep : Char} {s : String} (h : sep ∉ s.toList) : cutLast sep s = none := by
  have hnone : s.toList.reverse.dropWhile (!· == sep) = [] := by
    refine List.dropWhile_eq_nil_iff.mpr fun x hx => ?_
    have hne : x ≠ sep := by
      rintro rfl
      exact h (List.mem_reverse.mp hx)
    simpa using hne
  simp [cutLast, cutChars, hnone]

theorem cutLast_eq_some_iff {sep : Char} {s front back : String} :
    cutLast sep s = some (front, back) ↔
      s.toList = front.toList ++ sep :: back.toList ∧ sep ∉ back.toList := by
  refine ⟨fun h => ?_, fun h => cutLast_eq h.1 h.2⟩
  by_cases hmem : sep ∈ s.toList
  · obtain ⟨front', back', hs, hback⟩ := exists_last_of_mem hmem
    rw [cutLast_eq hs hback] at h
    cases h
    exact ⟨hs, hback⟩
  · rw [cutLast_eq_none hmem] at h
    cases h

theorem toList_of_cutLast {sep : Char} {s front back : String}
    (h : cutLast sep s = some (front, back)) : s.toList = front.toList ++ sep :: back.toList :=
  (cutLast_eq_some_iff.mp h).1

/-! ## Occurrences -/

theorem infix_intercalate {sep : Char} {w : List Char} {ws : List (List Char)} (h : w ∈ ws) :
    w <:+: [sep].intercalate ws := by
  induction ws with
  | nil => cases h
  | cons v ws ih =>
    cases ws with
    | nil =>
      obtain rfl : w = v := by simpa using h
      simp
    | cons u ws =>
      rw [List.intercalate_cons_cons]
      rcases List.mem_cons.mp h with rfl | h
      · exact List.infix_append_left.trans List.infix_append_left
      · exact (ih h).trans List.infix_append_right

/-- The pieces of a text occur in it. -/
theorem infix_of_mem_split {sep : Char} {s part : String} (h : part ∈ split sep s) :
    part.toList <:+: s.toList := by
  obtain ⟨cs, hcs, rfl⟩ := List.mem_map.mp h
  have hinfix : cs <:+: [sep].intercalate (s.toList.splitOn sep) := infix_intercalate hcs
  rwa [List.intercalate_splitOn sep, ← String.toList_ofList (l := cs)] at hinfix

/-- What is left without white space at the ends occurs in a text. -/
theorem trimChars_infix (cs : List Char) : trimChars cs <:+: cs := by
  have hfront := (List.dropWhile_suffix isBlank (l := cs)).isInfix
  have hback := (List.dropWhile_suffix isBlank (l := (cs.dropWhile isBlank).reverse)).isInfix
  rw [← List.reverse_infix, List.reverse_reverse] at hback
  exact hback.trans hfront

theorem containsChars_iff {needle cs : List Char} :
    containsChars needle cs = true ↔ needle <:+: cs := by
  induction cs with
  | nil => simp [containsChars]
  | cons c cs ih =>
    rw [containsChars, Bool.or_eq_true, ih, List.isPrefixOf_iff_prefix, List.infix_cons_iff]

end Text
end FaultChain
