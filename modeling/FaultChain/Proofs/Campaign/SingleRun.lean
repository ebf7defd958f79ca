import FaultChain.Proofs.Campaign.EdgeRuns

/-!
# Batches of one call

The course of a batch of one call with nothing from outside is known step by step, so that all such
a batch relies on is what its only run does.

* `Campaign.Alone`: the states of such a batch.
* `Campaign.supported_of_alone`: what it relies on.
-/

namespace FaultChain
namespace Campaign

variable {c : Campaign} {site : Site}

/-! ## The states -/

theorem journal_of_exploring {x : Edge} {outDir : String} {act : World → World}
    {next : World → Job World (TaskEnd Result)} (h : .step act next = c.exploring x outDir)
    (w : World) : (act w).journal = w.journal ++ [.explored (c.edgeRun x outDir)] := by
  rcases exploring_step c x outDir with ⟨next', hstep, -⟩
  rw [hstep] at h
  cases h
  rfl

/-- The course of a batch of one call with nothing from outside, where its run returns `r`. -/
inductive Alone (c : Campaign) (site : Site) (x : Edge) (w : World) (r : Result) :
    TaskState World Result → World → Prop where
  | waiting : Alone c site x w r .waiting w
  | cleared : Alone c site x w r .cleared w
  | admitted : Alone c site x w r .admitted w
  | reserving : Alone c site x w r (.running (c.edgeTask site x).body) w
  | exploring {w₁ : World} {outDir : String}
      (heq : w.reserve site.dir (edgeRecord x) = (outDir, w₁)) :
      Alone c site x w r (.running (c.exploring x outDir)) w₁
  | closing {w₁ : World} {outDir : String}
      (heq : w.reserve site.dir (edgeRecord x) = (outDir, w₁)) :
      Alone c site x w r (.running (closing r)) (w₁.explore (c.edgeRun x outDir) c.explore).2
  | returning {w₁ : World} {outDir : String}
      (heq : w.reserve site.dir (edgeRecord x) = (outDir, w₁)) :
      Alone c site x w r (.running (.done (.returned r)))
        ((w₁.explore (c.edgeRun x outDir) c.explore).2.close (edgeSpan r))
  | finished {w₁ : World} {outDir : String}
      (heq : w.reserve site.dir (edgeRecord x) = (outDir, w₁)) :
      Alone c site x w r (.finished r)
        ((w₁.explore (c.edgeRun x outDir) c.explore).2.close (edgeSpan r))

section

variable {cutoff : Host.Cutoff} {loc : Call → String} {fns : FunctionSet} {k : Nat} {x : Edge}
  {w w₁ : World} {outDir : String} {r : Result} {later : Host} {b b' : Batch World Result}

/-! ## The steps -/

theorem Alone.advanced (hreserve : w.reserve site.dir (edgeRecord x) = (outDir, w₁))
    (hexplore : c.explore w₁.journal (c.edgeRun x outDir) w₁.host = (.returned r, later))
    {act : World → World} {next : World → Job World (TaskEnd Result)} {w' : World}
    (h : Alone c site x w r (.running (.step act next)) w') :
    Alone c site x w r (.running (next w')) (act w') := by
  -- The states of the task follow each other, so what it does next tells which one it is in.
  generalize hjob : Job.step act next = job at h
  generalize hst : TaskState.running job = st at h
  cases h with
  | waiting => cases hst
  | cleared => cases hst
  | admitted => cases hst
  | reserving =>
    cases hst
    rw [edgeTask_body] at hjob
    cases hjob
    exact .exploring rfl
  | exploring heq =>
    cases hst
    rw [hreserve] at heq
    cases heq
    rcases exploring_step c x outDir with ⟨next', hstep, hnext⟩
    rw [hstep] at hjob
    cases hjob
    have hreturned : (w₁.explore (c.edgeRun x outDir) c.explore).1 = .returned r := by
      rw [explore_eq hexplore]
    rw [hnext _ r hreturned]
    exact .closing hreserve
  | closing heq =>
    cases hst
    cases hjob
    exact .returning heq
  | returning heq =>
    cases hst
    cases hjob
  | finished heq => cases hst

theorem Alone.done {e : TaskEnd Result} {w' : World}
    (h : Alone c site x w r (.running (.done e)) w') :
    e = .returned r ∧ Alone c site x w r (.finished r) w' := by
  generalize hst : TaskState.running (Job.done e) = st at h
  cases h with
  | waiting => cases hst
  | cleared => cases hst
  | admitted => cases hst
  | reserving =>
    rw [edgeTask_body] at hst
    cases hst
  | @exploring _ outDir' =>
    rcases exploring_step c x outDir' with ⟨next, hstep, -⟩
    rw [hstep] at hst
    cases hst
  | closing => cases hst
  | returning heq =>
    cases hst
    exact ⟨rfl, .finished heq⟩
  | finished => cases hst

/-- Only one step is the run of the call. -/
theorem Alone.of_exploring (hreserve : w.reserve site.dir (edgeRecord x) = (outDir, w₁))
    {outDir' : String} {w' : World}
    (h : Alone c site x w r (.running (c.exploring x outDir')) w') :
    outDir' = outDir ∧ w' = w₁ := by
  rcases exploring_step c x outDir' with ⟨next, hstep, -⟩
  generalize hst : TaskState.running (c.exploring x outDir') = st at h
  cases h with
  | waiting => cases hst
  | cleared => cases hst
  | admitted => cases hst
  | reserving =>
    -- Reserving a directory leaves the journal alone, and a run does not.
    have hjournal := journal_of_exploring (TaskState.running.inj hst).symm w
    have hlength := congrArg List.length hjournal
    simp [World.reserve, World.onFiles, World.withFiles] at hlength
  | exploring heq =>
    rw [hreserve] at heq
    cases heq
    have hjob := TaskState.running.inj hst
    rw [hstep] at hjob
    have hjournal := journal_of_exploring hjob w
    have hrun := List.append_cancel_left hjournal
    cases hrun
    exact ⟨rfl, rfl⟩
  | closing =>
    have hjournal := journal_of_exploring (TaskState.running.inj hst).symm w
    have hlength := congrArg List.length hjournal
    simp [World.close] at hlength
  | returning =>
    rw [hstep] at hst
    cases hst
  | finished => cases hst

/-- A task of the batch is the one there is. -/
theorem getElem?_singleton_eq {t t' : Task World Result} {st st' : TaskState World Result}
    {i : Nat} (h : [(t, st)][i]? = some (t', st')) : i = 0 ∧ t' = t ∧ st' = st := by
  cases i with
  | zero =>
    cases h
    exact ⟨rfl, rfl, rfl⟩
  | succ i => cases h

theorem Alone.moves (hreserve : w.reserve site.dir (edgeRecord x) = (outDir, w₁))
    (hexplore : c.explore w₁.journal (c.edgeRun x outDir) w₁.host = (.returned r, later))
    (hcalm : cutoff.reached? b.world.host = none)
    (hmove : Batch.Moves (c.edgeDispatch cutoff) b b')
    (h : ∃ st, b.tasks = [(c.edgeTask site x, st)] ∧ Alone c site x w r st b.world) :
    ∃ st, b'.tasks = [(c.edgeTask site x, st)] ∧ Alone c site x w r st b'.world := by
  rcases h with ⟨st, htasks, h⟩
  -- There is no other task, so a move is one of this task.
  have hput : ∀ st', (b.put 0 st').tasks = [(c.edgeTask site x, st')] := by
    intro st'
    simp [Batch.put, htasks]
  cases hmove with
  | idle => exact ⟨st, htasks, h⟩
  | refused _ _ hstop =>
    have hgo := hcalm.symm.trans hstop
    cases hgo
  | turned _ hstop =>
    have hgo := hcalm.symm.trans hstop
    cases hgo
  | cleared hat =>
    rw [htasks] at hat
    rcases getElem?_singleton_eq hat with ⟨rfl, rfl, rfl⟩
    cases h
    exact ⟨_, hput _, .cleared⟩
  | admitted hat =>
    rw [htasks] at hat
    rcases getElem?_singleton_eq hat with ⟨rfl, rfl, rfl⟩
    cases h
    exact ⟨_, hput _, .admitted⟩
  | started hat =>
    rw [htasks] at hat
    rcases getElem?_singleton_eq hat with ⟨rfl, rfl, rfl⟩
    cases h
    exact ⟨_, hput _, .reserving⟩
  | finished hat =>
    rw [htasks] at hat
    rcases getElem?_singleton_eq hat with ⟨rfl, rfl, rfl⟩
    rcases h.done with ⟨rfl, hfinished⟩
    exact ⟨_, hput _, hfinished⟩
  | advanced hat =>
    rw [htasks] at hat
    rcases getElem?_singleton_eq hat with ⟨rfl, rfl, rfl⟩
    exact ⟨_, hput _, h.advanced hreserve hexplore⟩

/-- A batch of one call may rely on its run. -/
theorem supported_of_alone (hevents : c.interleaving (k + 1) = [])
    (hreserve : w.reserve site.dir (edgeRecord x) = (outDir, w₁))
    (hexplore : c.explore w₁.journal (c.edgeRun x outDir) w₁.host = (.returned r, later))
    (hanswers : Answers site loc fns w₁ x r later)
    (hcalm : cutoff.reached? w.host = none) (hcalm₁ : cutoff.reached? w₁.host = none)
    (hcalm₂ : cutoff.reached? (w₁.host.becoming later) = none) :
    Supported c site cutoff loc fns k [x] w := by
  -- From waiting to finished the host is one of three, and all of them are calm.
  have hcalms : ∀ st w', Alone c site x w r st w' → cutoff.reached? w'.host = none := by
    intro st w' h
    cases h with
    | waiting => exact hcalm
    | cleared => exact hcalm
    | admitted => exact hcalm
    | reserving => exact hcalm
    | exploring heq =>
      rw [hreserve] at heq
      cases heq
      exact hcalm₁
    | closing heq =>
      rw [hreserve] at heq
      cases heq
      rw [explore_eq hexplore]
      exact hcalm₂
    | returning heq =>
      rw [hreserve] at heq
      cases heq
      rw [explore_eq hexplore]
      exact hcalm₂
    | finished heq =>
      rw [hreserve] at heq
      cases heq
      rw [explore_eq hexplore]
      exact hcalm₂
  -- At every moment the task is in one of the states of running alone.
  have hall : ∀ b, Batch.Moment (c.edgeDispatch cutoff) (c.edgeEvents k)
      (c.edgeBatch site [x] w) b →
        ∃ st, b.tasks = [(c.edgeTask site x, st)] ∧ Alone c site x w r st b.world := by
    intro b hb
    refine hb.induction (P := fun b => ∃ st, b.tasks = [(c.edgeTask site x, st)] ∧
      Alone c site x w r st b.world) ?_ ?_ ?_
    · exact ⟨.waiting, rfl, .waiting⟩
    · rintro b b' _ _ hmove ⟨st, htasks, h⟩
      exact Alone.moves hreserve hexplore (hcalms st _ h) hmove ⟨st, htasks, h⟩
    · intro b change hmem
      simp [edgeEvents, hevents] at hmem
  constructor
  · intro b hb
    rcases hall b hb with ⟨st, -, h⟩
    exact hcalms st _ h
  · intro b hb i y t outDir' hy hat
    rcases hall b hb with ⟨st, htasks, h⟩
    rw [htasks] at hat
    rcases getElem?_singleton_eq hat with ⟨rfl, rfl, rfl⟩
    cases hy
    rcases h.of_exploring hreserve with ⟨rfl, hw⟩
    rw [hw]
    exact ⟨r, later, hexplore, hanswers⟩

end

end Campaign
end FaultChain
