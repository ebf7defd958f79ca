import FaultChain.Fuzz.Fuzzer
import FaultChain.Proofs.Report
import FaultChain.Proofs.Tidy
import FaultChain.Symbolic.Executor

/-!
# Tools on a tidy host

As long as the programs of a host leave its files tidy, so does every tool of an analysis, and what
a backend lists in its result are different reports directly in its output directory.

* `Host.Tidy`: tidy files, and programs that leave them so.
* `Command.tidy_runWatched`: running a program.
* `Result.LiesIn`: a result whose reports are in a directory.
* `Executor.liesIn_run`, `Fuzzer.liesIn_run`: the results of the backends.
-/

namespace FaultChain

/-! ## Programs -/

/-- The files of a host are tidy, and its programs leave tidy files so. -/
structure Host.Tidy (h : Host) : Prop where
  files : h.files.Tidy
  programs : ∀ calls files launch, files.Tidy → (h.programs calls files launch).files.Tidy

variable {h : Host}

theorem Host.Tidy.withFiles (hh : h.Tidy) {files : FileTree} (hfiles : files.Tidy) :
    Host.Tidy { h with files := files } :=
  ⟨hfiles, hh.programs⟩

theorem Host.Tidy.becoming (h : Host) {later : Host} (hlater : later.Tidy) :
    (h.becoming later).Tidy :=
  ⟨hlater.files, hlater.programs⟩

/-- The host that something leaves behind, together with what it gives. -/
theorem Host.Tidy.of_eq {α : Type} {out : α × Host} {a : α} {h' : Host} (hout : out.2.Tidy)
    (heq : out = (a, h')) : h'.Tidy := by
  rw [heq] at hout
  exact hout

namespace Command

/-- Whether a file can be run is only looked up. -/
theorem tidy_runnable {files placed : FileTree} (ht : files.Tidy) {file : String}
    (hout : (match files.entry? file with
      | .error why => .error why
      | .ok (.file _ true) => .ok files
      | .ok _ => .error .notPermitted : Except Refusal FileTree) = .ok placed) : placed.Tidy := by
  split at hout
  · cases hout
  · cases hout
    exact ht
  · cases hout

theorem tidy_launchRefusal {files placed : FileTree} (ht : files.Tidy) {dir file : String}
    (hout : launchRefusal files dir file = .ok placed) : placed.Tidy := by
  unfold launchRefusal at hout
  dsimp only at hout
  split at hout
  · exact tidy_runnable ht hout
  · split at hout
    · cases hout
    · rename_i path _ hlocate
      have hthere : FileTree.Tidy { files with cwd := path } :=
        ⟨ht.root, (ht.locate hlocate).names⟩
      exact tidy_runnable hthere hout
    · cases hout
    · cases hout

theorem tidy_place {c : Command} {files placed : FileTree} (ht : files.Tidy)
    (hout : c.place files = .ok placed) : placed.Tidy := by
  rcases Except.exists_of_bind_eq_ok (Except.eq_ok_of_mapError hout) with ⟨⟨file, name⟩, -, hout⟩
  dsimp only at hout
  split at hout
  · cases hout
  · split at hout
    · cases hout
    · exact tidy_launchRefusal ht (Except.eq_ok_of_mapError hout)

/-- Running a program leaves the host tidy. -/
theorem tidy_runWatched (hh : h.Tidy) (c : Command) (stops : FileTree → Bool) :
    (c.runWatched stops h).2.Tidy := by
  unfold runWatched
  split
  · exact hh
  · rename_i placed hplaced
    split
    · exact hh
    · dsimp only
      have hleft := hh.programs h.calls placed
        { program := Path.base (c.argv.headD "")
          args := c.argv.drop 1
          settings := h.env.settings ++ c.settings
          input := c.input } (tidy_place hh.files hplaced)
      -- The working directory is that of the host again.
      split
      · exact ⟨⟨hleft.root, hh.files.cwd⟩, hh.programs⟩
      · exact ⟨⟨hleft.root, hh.files.cwd⟩, hh.programs⟩
      · exact ⟨⟨hleft.root, hh.files.cwd⟩, hh.programs⟩

theorem tidy_run (hh : h.Tidy) (c : Command) : (c.run h).2.Tidy := tidy_runWatched hh c _

end Command

/-! ## The compiler -/

namespace Compiler

theorem tidy_run (hh : h.Tidy) (t : Compiler) (args : List String) : (t.run args h).2.Tidy := by
  unfold run
  dsimp only
  split
  · rename_i heq
    exact (Command.tidy_run hh _).of_eq heq
  · rename_i heq
    exact (Command.tidy_run hh _).of_eq heq

theorem tidy_runReading {α : Type} (hh : h.Tidy) (t : Compiler) (args : List String)
    (decode : String → Option α) : (t.runReading args decode h).2.Tidy := by
  have hrun := t.tidy_run hh args
  unfold runReading
  split
  · rename_i heq
    exact hrun.of_eq heq
  · rename_i text h' heq
    have hh' := hrun.of_eq heq
    split
    · exact hh'
    · exact hh'

theorem tidy_list (hh : h.Tidy) (t : Compiler) (image : String) : (t.list image h).2.Tidy := by
  have hread := t.tidy_runReading hh (Pass.list image).args items?
  unfold list
  split
  · rename_i heq
    exact hread.of_eq heq
  · rename_i items h' heq
    have hh' := hread.of_eq heq
    split
    · exact hh'
    · exact hh'

theorem tidy_transform (hh : h.Tidy) (t : Compiler) (pass : Pass) :
    (t.transform pass h).2.Tidy := by
  have hrun := t.tidy_run hh pass.args
  unfold transform
  split
  · rename_i heq
    exact hrun.of_eq heq
  · rename_i heq
    exact hrun.of_eq heq

end Compiler

/-- Tools that leave the host tidy. -/
structure Toolchain.Tidy (t : Toolchain) : Prop where
  extract : ∀ image h, h.Tidy → (t.extract image h).2.Tidy
  list : ∀ image h, h.Tidy → (t.list image h).2.Tidy
  transform : ∀ pass h, h.Tidy → (t.transform pass h).2.Tidy

theorem Compiler.tidy_toolchain (t : Compiler) : t.toolchain.Tidy where
  extract _ _ hh := t.tidy_runReading hh _ _
  list image _ hh := t.tidy_list hh image
  transform pass _ hh := t.tidy_transform hh pass

/-! ## Fuzz targets -/

namespace FuzzTarget

variable (t : FuzzTarget)

theorem tidy_runSteps (hh : h.Tidy) (steps : List (String × List String)) :
    (t.runSteps steps h).2.Tidy := by
  induction steps generalizing h with
  | nil => exact hh
  | cons step steps ih =>
    have hstep : (t.runStep step.1 step.2 h).2.Tidy := by
      unfold runStep
      dsimp only
      -- A step that fails is the last one, with what it has left.
      split
      · rename_i heq
        exact (Command.tidy_run hh _).of_eq heq
      · rename_i heq
        exact (Command.tidy_run hh _).of_eq heq
    unfold runSteps
    split
    · rename_i heq
      exact hstep.of_eq heq
    · rename_i h' heq
      exact ih (hstep.of_eq heq)

theorem tidy_makeDir {files files' : FileTree} (ht : files.Tidy) {dir : String}
    (hout : makeDir files dir = .ok files') : files'.Tidy :=
  ht.makeDirs (Except.eq_ok_of_mapError hout)

theorem tidy_prepare (hh : h.Tidy) (image : String) : (t.prepare image h).2.Tidy := by
  unfold prepare
  split
  · exact hh
  · rename_i files hbuild
    have hbuilt := hh.withFiles (tidy_makeDir hh.files hbuild)
    dsimp only
    split
    · exact hbuilt
    · rename_i files' hinput
      exact t.tidy_runSteps (hbuilt.withFiles (tidy_makeDir hbuilt.files hinput)) _

theorem tidy_seed {files files' : FileTree} (ht : files.Tidy) (hout : t.seed files = .ok files') :
    files'.Tidy := by
  unfold seed at hout
  rcases Except.exists_of_bind_eq_ok hout with ⟨files₁, hmade, hout⟩
  have ht₁ := ht.makeDirs hmade
  rcases Except.exists_of_bind_eq_ok hout with ⟨entries, -, hout⟩
  split at hout
  · cases hout
    exact ht₁
  · rcases Except.exists_of_bind_eq_ok hout with ⟨files₂, hdummy, hout⟩
    have ht₂ := ht₁.write hdummy
    split at hout
    · exact ht₂.write hout
    · cases hout
      exact ht₂

theorem tidy_fillInputs (hh : h.Tidy) : (t.fillInputs h).2.Tidy := by
  unfold fillInputs
  split
  · rename_i files hseed
    exact hh.withFiles (t.tidy_seed hh.files hseed)
  · exact hh.withFiles (hh.files.getD fun _ hmade => hh.files.makeDirs hmade)

theorem tidy_drivers (hh : h.Tidy) : (t.drivers h).2.Tidy := by
  unfold drivers
  dsimp only
  split
  · rename_i heq
    exact (Command.tidy_run hh _).of_eq heq
  · rename_i heq
    have hh' := (Command.tidy_run hh _).of_eq heq
    split
    · exact hh'
    · exact hh'

end FuzzTarget

/-! ## Results -/

/-- A result of a run for a function in a directory: its reports are different files directly in
that directory. -/
structure Result.LiesIn (function dir : String) (r : Result) : Prop where
  function_eq : r.function = function
  outDir_eq : r.outDir = dir
  nodup : r.errorFiles.Nodup
  inside : ∀ p ∈ r.errorFiles, Path.Inside dir p

/-- The reports that are listed in a directory, as far as it can be read. -/
theorem OutputDir.toOption_errorFiles {files : FileTree} (ht : files.Tidy) (dir : String) :
    ((errorFiles files dir).toOption.getD []).Nodup ∧
      ∀ p ∈ (errorFiles files dir).toOption.getD [], Path.Inside dir p := by
  cases hlisted : errorFiles files dir with
  | error f => exact ⟨List.nodup_nil, nofun⟩
  | ok reports => exact listed_errorFiles ht hlisted

/-! ## The symbolic executor -/

theorem Executor.liesIn_run (hh : h.Tidy) (e : Executor) (r : SymbolicRun) :
    (e.run r h).2.Tidy ∧ (e.run r h).1.LiesIn r.function r.outDir := by
  unfold run
  split
  · rename_i f h' heq
    have hh' := (Command.tidy_run hh _).of_eq heq
    exact ⟨hh'.withFiles (OutputDir.tidy_ensure hh'.files _), rfl, rfl, List.nodup_nil, nofun⟩
  · rename_i o h' heq
    have hh' := (Command.tidy_run hh _).of_eq heq
    have hfiles :
        (OutputDir.keepOutput (OutputDir.ensure h'.files r.outDir) r.outDir o.text).Tidy :=
      OutputDir.tidy_keepOutput (OutputDir.tidy_ensure hh'.files _) _ _
    rcases OutputDir.toOption_errorFiles hfiles r.outDir with ⟨hnodup, hinside⟩
    exact ⟨hh'.withFiles hfiles, rfl, rfl, hnodup, hinside⟩

theorem Executor.kind_run (e : Executor) (r : SymbolicRun) (h : Host) :
    (e.run r h).1.kind = symbolicKind := by
  unfold run
  split
  · rfl
  · rfl

/-! ## The fuzzer -/

namespace Fuzzer

variable (f : Fuzzer)

theorem kind_run (r : FuzzRun) (h : Host) : (f.run r h).1.kind = fuzzKind := by
  unfold run
  split
  · rfl
  · dsimp only
    split
    · rfl
    · rfl

theorem tidy_convertInput (hh : h.Tidy) (function input ktest : String) :
    (f.convertInput function input ktest h).2.Tidy := by
  unfold convertInput
  split
  · exact hh
  · dsimp only
    split
    · rename_i heq
      exact (Command.tidy_run hh _).of_eq heq
    · rename_i heq
      have hh' := (Command.tidy_run hh _).of_eq heq
      split
      · exact hh'
      · exact hh'

theorem tidy_replay (hh : h.Tidy) (function input : String) :
    (f.replay function input h).2.Tidy := by
  unfold replay
  split
  · exact hh
  · dsimp only
    split
    · rename_i heq
      exact (Command.tidy_run hh _).of_eq heq
    · rename_i heq
      exact (Command.tidy_run hh _).of_eq heq

theorem tidy_reproduce (hh : h.Tidy) (r : FuzzRun) (i : Nat) (crash : String) :
    (f.reproduce r i crash h).Tidy := by
  -- Without a report of the crash nothing is written; with one, a test case is converted as well.
  have hreplay := f.tidy_replay hh r.function crash
  unfold reproduce
  split
  · rename_i heq
    exact hreplay.of_eq heq
  · rename_i report h' heq
    have hh' := hreplay.of_eq heq
    dsimp only
    split
    · exact hh'
    · rename_i files hwritten
      have hh'' := hh'.withFiles (hh'.files.write hwritten)
      split
      · exact hh''
      · exact f.tidy_convertInput hh'' _ _ _

theorem tidy_reproduceAll (hh : h.Tidy) (r : FuzzRun) (crashes : List String) :
    (f.reproduceAll r crashes h).Tidy := by
  unfold reproduceAll
  generalize crashes.zipIdx = numbered
  induction numbered generalizing h with
  | nil => exact hh
  | cons c cs ih => exact ih (f.tidy_reproduce hh r c.2 c.1)

theorem liesIn_run (hh : h.Tidy) (r : FuzzRun) :
    (f.run r h).2.Tidy ∧ (f.run r h).1.LiesIn r.function r.outDir := by
  have hwatched := Command.tidy_runWatched hh (f.command r) (f.stops r)
  unfold run
  split
  · rename_i why h' heq
    have hh' := hwatched.of_eq heq
    exact ⟨hh'.withFiles (OutputDir.tidy_ensure hh'.files _), rfl, rfl, List.nodup_nil, nofun⟩
  · rename_i o h' heq
    have hh' := hwatched.of_eq heq
    have hkept := hh'.withFiles
      (OutputDir.tidy_keepOutput (OutputDir.tidy_ensure hh'.files r.outDir) r.outDir o.text)
    dsimp only
    split
    · exact ⟨hkept, rfl, rfl, List.nodup_nil, nofun⟩
    -- Reports are listed after all crashes were replayed.
    · have hall := f.tidy_reproduceAll hkept r
        (OutputDir.inputs
          (OutputDir.keepOutput (OutputDir.ensure h'.files r.outDir) r.outDir o.text)
          (Path.join [r.outDir, "crashes"]))
      rcases OutputDir.toOption_errorFiles hall.files r.outDir with ⟨hnodup, hinside⟩
      exact ⟨hall, rfl, rfl, hnodup, hinside⟩

theorem tidy_convertInputs (hh : h.Tidy) (function seedDir : String) (n : Nat)
    (inputs : List String) : (f.convertInputs function seedDir n inputs h).2.2.Tidy := by
  induction inputs generalizing h n with
  | nil => exact hh
  | cons input inputs ih =>
    unfold convertInputs
    split
    · exact hh
    · dsimp only
      -- Only inputs that were converted are counted.
      have hone := f.tidy_convertInput hh function input
        (Path.join [seedDir, "test" ++ Decimal.pad 6 (n + 1) ++ ".ktest"])
      split
      · rename_i heq
        exact ih (hone.of_eq heq) (n + 1)
      · rename_i heq
        exact ih (hone.of_eq heq) n

theorem tidy_convertQueue (hh : h.Tidy) (function outDir seedDir : String) :
    (f.convertQueue function outDir seedDir h).2.2.Tidy := by
  unfold convertQueue
  split
  · exact hh
  · split
    · exact hh
    · rename_i files hmade
      exact f.tidy_convertInputs (hh.withFiles (hh.files.makeDirs hmade)) _ _ _ _

end Fuzzer
end FaultChain
