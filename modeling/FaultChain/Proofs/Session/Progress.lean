import Mathlib.Data.Finset.Card
import FaultChain.Session.Progress

/-!
# Progress as growing sets

The covered lines of a session are counted file by file. The count grows exactly if a line of some
file is covered that was not covered before.

* `Progress.covered`, `Progress.points`: lines with their source files.
* `Progress.symbolic_spec`, `Progress.fuzz_spec`: when runs progress, and what is reached then.
-/

namespace FaultChain
namespace Progress

variable {lines : List (String × List Int)} {x : String × Int} {p : Progress}

/-- The covered lines of a report on coverage, each with its source file. -/
def covered (c : Coverage) : List (String × Int) :=
  c.files.flatMap fun f => f.covered.map (f.file, ·)

/-- The lines of all source files, each with its file. -/
def points (lines : List (String × List Int)) : List (String × Int) :=
  lines.flatMap fun entry => entry.2.map (entry.1, ·)

/-- Every source file is there once, and has every line once. -/
structure Tidy (lines : List (String × List Int)) : Prop where
  files_nodup : (lines.map (·.1)).Nodup
  lines_nodup : ∀ entry ∈ lines, entry.2.Nodup

/-! ## Merging -/

theorem mem_mergeLines_iff {seen new : List Int} {l : Int} :
    l ∈ mergeLines seen new ↔ l ∈ seen ∨ l ∈ new := by
  unfold mergeLines
  induction new generalizing seen with
  | nil => simp
  | cons k new ih =>
    rw [List.foldl_cons, ih, List.mem_insert_iff, List.mem_cons]
    tauto

theorem nodup_mergeLines {seen new : List Int} (h : seen.Nodup) : (mergeLines seen new).Nodup := by
  unfold mergeLines
  induction new generalizing seen with
  | nil => exact h
  | cons k new ih => exact ih h.insert

theorem mem_points_cons {entry : String × List Int} :
    x ∈ points (entry :: lines) ↔ x.1 = entry.1 ∧ x.2 ∈ entry.2 ∨ x ∈ points lines := by
  obtain ⟨file, ls⟩ := entry
  obtain ⟨name, l⟩ := x
  simp only [points, List.flatMap_cons, List.mem_append, List.mem_map, Prod.mk.injEq]
  refine or_congr_left ⟨?_, ?_⟩
  · rintro ⟨l', hl', rfl, rfl⟩
    exact ⟨rfl, hl'⟩
  · rintro ⟨rfl, hl⟩
    exact ⟨l, hl, rfl, rfl⟩

theorem map_fst_mergeFile (lines : List (String × List Int)) (f : FileCoverage) :
    (mergeFile lines f).map (·.1) = (lines.map (·.1)) ++
      if f.file ∈ lines.map (·.1) then [] else [f.file] := by
  induction lines with
  | nil => rfl
  | cons entry lines ih =>
    unfold mergeFile
    by_cases h : entry.1 = f.file
    · simp [h]
    · have hmem : f.file ∈ (entry :: lines).map (·.1) ↔ f.file ∈ lines.map (·.1) := by
        simp [Ne.symm h]
      rw [if_neg h, List.map_cons, ih, if_congr hmem rfl rfl, List.map_cons, List.cons_append]

theorem mem_points_mergeFile (f : FileCoverage) :
    x ∈ points (mergeFile lines f) ↔ x ∈ points lines ∨ x.1 = f.file ∧ x.2 ∈ f.covered := by
  induction lines with
  | nil =>
    rw [mergeFile, mem_points_cons, mem_mergeLines_iff]
    simp [points]
  | cons entry lines ih =>
    unfold mergeFile
    split
    · rename_i h
      rw [mem_points_cons, mem_points_cons, mem_mergeLines_iff, h]
      tauto
    · rw [mem_points_cons, ih, mem_points_cons, or_assoc]

theorem tidy_mergeFile (h : Tidy lines) (f : FileCoverage) : Tidy (mergeFile lines f) := by
  refine ⟨?_, ?_⟩
  · rw [map_fst_mergeFile]
    split
    · simpa using h.files_nodup
    · rename_i hnew
      refine List.nodup_append.mpr ⟨h.files_nodup, List.nodup_singleton _, ?_⟩
      rintro file hfile _ hmem rfl
      exact hnew (List.mem_singleton.mp hmem ▸ hfile)
  · have hlines := h.lines_nodup
    -- Without the rest of the invariant, so that the induction is on the lines alone.
    clear h
    induction lines with
    | nil => simp [mergeFile, nodup_mergeLines]
    | cons entry lines ih =>
      obtain ⟨hentry, hrest⟩ := List.forall_mem_cons.mp hlines
      unfold mergeFile
      split
      · exact List.forall_mem_cons.mpr ⟨nodup_mergeLines hentry, hrest⟩
      · exact List.forall_mem_cons.mpr ⟨hentry, ih hrest⟩

theorem mem_points_merge (c : Coverage) :
    x ∈ points (merge lines c) ↔ x ∈ points lines ∨ x ∈ covered c := by
  obtain ⟨fs⟩ := c
  unfold merge covered
  induction fs generalizing lines with
  | nil => simp
  | cons f fs ih =>
    rw [List.foldl_cons, ih, mem_points_mergeFile, List.flatMap_cons, List.mem_append, or_assoc]
    refine or_congr_right (or_congr_left ?_)
    obtain ⟨name, l⟩ := x
    simp only [List.mem_map, Prod.mk.injEq]
    exact ⟨fun ⟨hname, hl⟩ => ⟨l, hl, hname.symm, rfl⟩,
      fun ⟨_, hl, hname, heq⟩ => ⟨hname.symm, heq ▸ hl⟩⟩

theorem tidy_merge (h : Tidy lines) (c : Coverage) : Tidy (merge lines c) := by
  obtain ⟨fs⟩ := c
  unfold merge
  induction fs generalizing lines with
  | nil => exact h
  | cons f fs ih => exact ih (tidy_mergeFile h f)

/-! ## Counting -/

theorem nodup_points (h : Tidy lines) : (points lines).Nodup := by
  refine List.nodup_flatMap.mpr ⟨?_, ?_⟩
  · intro entry hentry
    exact (h.lines_nodup entry hentry).map fun l l' heq => (Prod.mk.inj heq).2
  · refine (List.pairwise_map.mp h.files_nodup).imp ?_
    intro entry entry' hne y hy hy'
    obtain ⟨l, -, rfl⟩ := List.mem_map.mp hy
    obtain ⟨l', -, heq⟩ := List.mem_map.mp hy'
    exact hne (Prod.mk.inj heq).1.symm

theorem count_eq_length (lines : List (String × List Int)) :
    count lines = (points lines).length := by
  have hfold : ∀ (ls : List (String × List Int)) (n : Nat),
      ls.foldl (fun n entry => n + entry.2.length) n = n + (points ls).length := by
    intro ls
    induction ls with
    | nil => exact fun _ => rfl
    | cons entry ls ih =>
      intro n
      rw [List.foldl_cons, ih]
      simp [points, Nat.add_assoc]
  exact (hfold lines 0).trans (Nat.zero_add _)

theorem count_eq_card (h : Tidy lines) : count lines = (points lines).toFinset.card := by
  rw [count_eq_length, List.toFinset_card_of_nodup (nodup_points h)]

theorem points_subset_merge (lines : List (String × List Int)) (c : Coverage) :
    (points lines).toFinset ⊆ (points (merge lines c)).toFinset := by
  intro x hx
  rw [List.mem_toFinset] at hx ⊢
  exact (mem_points_merge c).mpr (Or.inl hx)

theorem count_le_merge (h : Tidy lines) (c : Coverage) : count lines ≤ count (merge lines c) := by
  rw [count_eq_card h, count_eq_card (tidy_merge h c)]
  exact Finset.card_le_card (points_subset_merge lines c)

/-- There are more covered lines after merging exactly if a new one is covered. -/
theorem count_lt_iff (h : Tidy lines) (c : Coverage) :
    count lines < count (merge lines c) ↔ ∃ x ∈ covered c, x ∉ points lines := by
  rw [count_eq_card h, count_eq_card (tidy_merge h c)]
  constructor
  · intro hlt
    obtain ⟨x, hx, hnot⟩ := Finset.exists_mem_notMem_of_card_lt_card hlt
    rw [List.mem_toFinset] at hx hnot
    exact ⟨x, ((mem_points_merge c).mp hx).resolve_left hnot, hnot⟩
  · rintro ⟨x, hx, hnot⟩
    have hsub := points_subset_merge lines c
    refine Finset.card_lt_card ((Finset.ssubset_iff_of_subset hsub).mpr ⟨x, ?_, ?_⟩)
    · exact List.mem_toFinset.mpr ((mem_points_merge c).mpr (Or.inr hx))
    · rwa [List.mem_toFinset]

/-! ## Runs -/

/-- The coverage of a symbolic run, if it can be read. -/
def coverage? (files : FileTree) (outDir : String) : Option Coverage :=
  (Coverage.read files (Path.join [outDir, "run.istats"])).toOption

/-- The number of paths that a fuzzing run ends with, if its records can be read and are not
empty. -/
def totalPaths? (files : FileTree) (outDir : String) : Option Int :=
  let d := PlotData.read files (Path.join [outDir, "plot_data"])
  if d.failure.isNone then d.rows.getLast?.map (·.pathsTotal) else none

/-- A symbolic run progresses if it covers a line that was not covered before. -/
theorem symbolic_spec (h : Tidy p.lines) (files : FileTree) (outDir : String) :
    Tidy (p.symbolic files outDir).2.lines ∧ (p.symbolic files outDir).2.paths = p.paths ∧
      (∀ x, x ∈ points (p.symbolic files outDir).2.lines ↔
        x ∈ points p.lines ∨ ∃ c, coverage? files outDir = some c ∧ x ∈ covered c) ∧
      count p.lines + (p.symbolic files outDir).1.toNat ≤
        count (p.symbolic files outDir).2.lines ∧
      ((p.symbolic files outDir).1 = true ↔
        ∃ c, coverage? files outDir = some c ∧ ∃ x ∈ covered c, x ∉ points p.lines) := by
  unfold symbolic coverage?
  -- A report that cannot be read adds nothing.
  cases Coverage.read files (Path.join [outDir, "run.istats"]) with
  | error why => simp [h, Except.toOption]
  | ok c =>
    refine ⟨tidy_merge h c, rfl, ?_, ?_, ?_⟩
    · intro x
      simpa [Except.toOption] using mem_points_merge c
    · have hle := count_le_merge h c
      change count p.lines + (decide (count p.lines < count (merge p.lines c))).toNat ≤
        count (merge p.lines c)
      by_cases hlt : count p.lines < count (merge p.lines c)
      · rw [decide_eq_true hlt]
        exact Nat.succ_le_of_lt hlt
      · rw [decide_eq_false hlt]
        exact hle
    · simpa [Except.toOption] using count_lt_iff h c

/-- A fuzzing run progresses if it ends with more paths than were found before. -/
theorem fuzz_spec (p : Progress) (files : FileTree) (outDir : String) :
    (p.fuzz files outDir).2.lines = p.lines ∧
      ((p.fuzz files outDir).1 = true →
        totalPaths? files outDir = some (p.fuzz files outDir).2.paths ∧
          p.paths < (p.fuzz files outDir).2.paths) ∧
      ((p.fuzz files outDir).1 = false → (p.fuzz files outDir).2 = p) ∧
      ((p.fuzz files outDir).1 = true ↔
        ∃ n, totalPaths? files outDir = some n ∧ p.paths < n) := by
  unfold fuzz totalPaths?
  generalize PlotData.read files (Path.join [outDir, "plot_data"]) = d
  -- Plot data that is broken or empty finds no paths.
  cases hfailure : d.failure with
  | some why => simp [hfailure]
  | none =>
    cases hlast : d.rows.getLast? with
    | none => simp [hfailure, hlast]
    | some row =>
      by_cases hle : row.pathsTotal ≤ p.paths
      · simp [hfailure, hlast, hle]
      · simp [hfailure, hlast, hle, Int.not_le.mp hle]

end Progress
end FaultChain
