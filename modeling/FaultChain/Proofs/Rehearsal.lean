import FaultChain.Proofs.Campaign.Ownership
import FaultChain.Rehearsal.Campaign
import FaultChain.Rehearsal.Script

/-!
# Rehearsed campaigns are orderly

Scripted programs leave files tidy, and scripted runs list the reports in their own directories. A
rehearsed campaign may thus stand for a real one, also where a script lets runs die.

* `Script.tidy_host`: scripted programs.
* `CampaignScript.orderly`: scripted passes and runs.
-/

namespace FaultChain

/-- Files that are planted one after another. -/
theorem FileTree.Tidy.plantAll {t : FileTree} (ht : t.Tidy) {α : Type} (place : α → String)
    (text : α → String) (runnable : Bool) (xs : List α) :
    (xs.foldl (fun t x => t.plant (place x) (text x) runnable) t).Tidy := by
  induction xs generalizing t with
  | nil => exact ht
  | cons x xs ih => exact ih (ht.plant _ _ _)

namespace Script

theorem tidy_obey (r : Rule) {files : FileTree} (ht : files.Tidy) (l : Launch) :
    (obey r files l).files.Tidy := by
  unfold obey
  dsimp only
  have hplanted := ht.plantAll
    (fun f : String × String =>
      if outputDir l r == "" then f.1 else Path.join [outputDir l r, f.1]) (·.2) false r.files
  split
  · exact hplanted.getD fun _ h => hplanted.writeAs h
  · exact hplanted

theorem tidy_react (s : Script) (calls : List (List String)) {files : FileTree} (ht : files.Tidy)
    (l : Launch) : (s.react calls files l).files.Tidy := by
  unfold react
  dsimp only
  split
  · exact tidy_obey _ ht l
  · exact ht

theorem tidy_programs (s : Script) (calls : List (List String)) {files : FileTree}
    (ht : files.Tidy) (l : Launch) : (s.programs calls files l).files.Tidy := by
  unfold programs
  split
  · split
    · exact ht
    · exact s.tidy_react _ ht _
  · exact s.tidy_react calls ht l

theorem tidy_host (s : Script) {files : FileTree} (ht : files.Tidy) : (s.host files).Tidy where
  files := ht.plantAll (fun rules : String × List Rule => Path.join [Config.searchDir, rules.1])
    (fun _ => "") true s
  programs calls _ l ht := s.tidy_programs calls ht l

end Script

namespace CampaignScript

theorem tidy_pass {α : Type} (s : CampaignScript) (p : Pass) (answer : α) {h : Host}
    (hh : h.Tidy) : (s.pass p answer h).2.Tidy := by
  unfold pass
  dsimp only
  split
  · exact ⟨hh.files, hh.programs⟩
  · exact ⟨hh.files, hh.programs⟩

/-- Scripted passes and runs are orderly. -/
theorem orderly (s : CampaignScript) {c : Campaign} (htoolchain : c.toolchain = s.toolchain)
    (hexplore : c.explore = s.explore) : c.Orderly where
  toolchain := by
    rw [htoolchain]
    exact ⟨fun _ _ hh => s.tidy_pass _ _ hh, fun _ _ hh => s.tidy_pass _ _ hh,
      fun _ _ hh => s.tidy_pass _ _ hh⟩
  explore journal run h hh := by
    rw [hexplore]
    unfold explore
    dsimp only
    -- All that a scripted run leaves is put into its directory.
    have hplanted := (OutputDir.tidy_ensure hh.files run.outDir).plantAll
      (fun f : String × String => Path.join [run.outDir, f.1]) (·.2) false
      (output ((((s.runs.lookup (key run)).getD [])[earlier journal (key run)]?).getD {}) journal
        run)
    split
    · exact ⟨⟨hplanted, hh.programs⟩, nofun⟩
    · split
      · exact ⟨⟨hplanted, hh.programs⟩, nofun⟩
      · refine ⟨⟨hplanted, hh.programs⟩, ?_⟩
        rintro r ⟨⟩
        rcases OutputDir.toOption_errorFiles hplanted run.outDir with ⟨hnodup, hinside⟩
        exact ⟨rfl, rfl, hnodup, hinside⟩

end CampaignScript
end FaultChain
