import FaultChain.Proofs.Session.Turns
import FaultChain.Proofs.Work.Sharing

/-!
# Sessions that share a state

A session plays by the rules if its runs and conversions do. At its end it has what each of its runs
has left, or the last one has not returned.

* `Session.Supported`: what a session asks of its surroundings.
* `Session.shares_perform`: one stage.
* `Session.shares_job`: a whole session.
-/

namespace FaultChain

namespace Session

variable {σ : Type} {x : Sharing σ} {s : Session} {h : SessionHost σ}
  {Has : Hand → List Result → σ → Prop} {Lost : Hand → σ → Prop} {g : Hand} {w : σ}

/-! ## Results -/

theorem results_addConversion (st : State) (dir : String) (n : Int) (why : Option Failure) :
    (addConversion st dir n why).results = st.results := by
  obtain ⟨seedDir, canConvert, heq⟩ := addConversion_eq st dir n why
  rw [heq]

theorem results_evaluate (st : State) : (evaluate st).results = st.results := by
  obtain ⟨stage, converged, heq⟩ := evaluate_eq st
  rw [heq]

/-- A run has one more result, however it is marked, or none. -/
def Grows (Has : Hand → List Result → σ → Prop) (Lost : Hand → σ → Prop) (rs : List Result)
    (g : Hand) (e : TaskEnd Result) (w : σ) : Prop :=
  match demand e with
  | .ok r => ∀ grown, Has g (rs ++ [{ r with progress := grown }]) w
  | .error _ => Lost g w

/-- What a session asks of its surroundings: `Has` is kept while it has results, and each run adds
its own or leads to `Lost`. -/
structure Supported (x : Sharing σ) (s : Session) (h : SessionHost σ)
    (Has : Hand → List Result → σ → Prop) (Lost : Hand → σ → Prop) : Prop where
  lawful : x.Lawful
  groups_le : ∀ {g rs w}, Has g rs w → g.groups ≤ 1
  rely : ∀ {g rs w w'}, Has g rs w → x.rely w w' → Has g rs w'
  symbolic : ∀ {g rs w} slice seedDir, Has g rs w →
    (s.symbolicRun h slice seedDir).Shares x (Grows Has Lost rs) g w
  fuzz : ∀ {g rs w} inputDir, Has g rs w →
    (s.fuzzRun h inputDir).Shares x (Grows Has Lost rs) g w
  convert : ∀ {g rs w} outDir seedDir, Has g rs w →
    (Job.atomic fun w : σ =>
      let (n, why, w) := h.convert s.function outDir seedDir w
      ((n, why), w)).Shares x (fun g' _ w' => Has g' rs w') g w

/-- What a part of a session comes to. -/
def GoesOn (Has : Hand → List Result → σ → Prop) (Lost : Hand → σ → Prop) (g : Hand)
    (out : Except String State) (w : σ) : Prop :=
  match out with
  | .ok st => Has g st.results w
  | .error _ => Lost g w

/-! ## Stages -/

/-- A symbolic run that is recorded. -/
theorem shares_addSymbolic (hs : Supported x s h Has Lost) {st : State} (hst : Has g st.results w)
    (slice : Duration) (seedDir : String) (stage : Stage) :
    (do
      match demand (← s.symbolicRun h slice seedDir) with
      | .error why => return .error why
      | .ok r =>
        let files ← .look h.files
        return .ok { addSymbolic st files r with stage := stage } :
      Job σ (Except String State)).Shares x (GoesOn Has Lost) g w := by
  refine Job.shares_bind hs.lawful (hs.symbolic slice seedDir hst) ?_
  intro g' e w' _ hgrown
  unfold Grows at hgrown
  cases hend : demand e with
  | error why =>
    rw [hend] at hgrown
    exact Job.shares_pure hgrown
  | ok r =>
    rw [hend] at hgrown
    refine Job.shares_bind hs.lawful
      (Job.shares_look hs.lawful (hs.groups_le (hgrown true)) _) ?_
    rintro g'' files w'' hrely ⟨rfl, -⟩
    exact Job.shares_pure (hs.rely (hgrown _) hrely)

/-- A conversion adds no result. -/
theorem shares_convertInputs (hs : Supported x s h Has Lost) {st : State}
    (hst : Has g st.results w) (r : Result) :
    (s.convertInputs h st r).Shares x (fun g' st' w' => Has g' st'.results w') g w := by
  unfold convertInputs
  split
  · refine Job.shares_bind hs.lawful (hs.convert _ _ hst) ?_
    rintro g' ⟨n, why⟩ w' - hkept
    apply Job.shares_pure
    rw [results_addConversion]
    exact hkept
  · exact Job.shares_pure hst

theorem shares_perform (hs : Supported x s h Has Lost) (deadline : Int) (st : State)
    (hst : Has g st.results w) :
    (s.perform h deadline st).Shares x (GoesOn Has Lost) g w := by
  unfold perform
  -- Stages that run a backend pass on what it left; all others keep what they have.
  cases st.stage with
  | symbolic => exact shares_addSymbolic hs hst _ _ _
  | fuzz =>
    refine Job.shares_bind hs.lawful (hs.fuzz _ hst) ?_
    intro g' e w' _ hgrown
    unfold Grows at hgrown
    cases hend : demand e with
    | error why =>
      rw [hend] at hgrown
      exact Job.shares_pure hgrown
    | ok r =>
      rw [hend] at hgrown
      refine Job.shares_bind hs.lawful
        (Job.shares_look hs.lawful (hs.groups_le (hgrown true)) _) ?_
      rintro g'' files w'' hrely ⟨rfl, -⟩
      have hadded : Has g'' (addFuzz st files r).results w'' := hs.rely (hgrown _) hrely
      refine Job.shares_bind hs.lawful (shares_convertInputs hs hadded r) ?_
      intro g₂ st' w₂ _ hkept
      exact Job.shares_pure hkept
  | evaluate =>
    apply Job.shares_pure
    change Has g (evaluate st).results w
    rw [results_evaluate]
    exact hst
  | finalSymbolic =>
    refine Job.shares_bind hs.lawful (Job.shares_look hs.lawful (hs.groups_le hst) _) ?_
    rintro g' now w' hrely ⟨rfl, -⟩
    have hnow := hs.rely hst hrely
    dsimp only
    split
    · exact shares_addSymbolic hs hnow _ _ _
    · exact Job.shares_pure hnow
  | done => exact Job.shares_pure hst

theorem shares_proceed (hs : Supported x s h Has Lost) (deadline : Int) (fuel : Nat) (st : State)
    (hst : Has g st.results w) :
    (s.proceed h deadline fuel st).Shares x
      (fun g' out w' => GoesOn Has Lost g' (out.map Halt.state) w') g w := by
  -- Before every stage the world is looked at twice, and others may act in between.
  induction fuel generalizing st g w with
  | zero => exact Job.shares_pure hst
  | succ fuel ih =>
    have hlook : ∀ {α : Type} (f : σ → α) (w' : σ), x.rely w w' →
        (Job.look f).Shares x (fun g' a s => g' = g ∧ a = f s) g w' :=
      fun f _ _ => Job.shares_look hs.lawful (hs.groups_le hst) f
    unfold proceed
    split
    · exact Job.shares_pure hst
    · refine Job.shares_bind hs.lawful (hlook _ w (hs.lawful.refl w)) ?_
      rintro g' canceled w' hrely ⟨rfl, -⟩
      have hthen := hs.rely hst hrely
      split
      · exact Job.shares_pure hthen
      · refine Job.shares_bind hs.lawful (hlook _ w' hrely) ?_
        rintro g'' now w'' hrely' ⟨rfl, -⟩
        refine Job.shares_bind hs.lawful (shares_perform hs deadline _ (hs.rely hthen hrely')) ?_
        intro g₁ out w₁ _ hcame
        cases out with
        | error why => exact Job.shares_pure hcame
        | ok st' => exact ih st' hcame

/-- What a session comes to: all results, or its last run has none. -/
theorem shares_job (hs : Supported x s h Has Lost) (fuel : Nat)
    (hnone : Has g [] w) :
    (s.job h fuel).Shares x
      (fun g' out w' => match out with
        | .ok o => Has g' o.results w'
        | .error _ => Lost g' w') g w := by
  refine Job.shares_bind hs.lawful (Job.shares_look hs.lawful (hs.groups_le hnone) _) ?_
  rintro g' now w' hrely ⟨rfl, -⟩
  refine Job.shares_bind hs.lawful (shares_proceed hs _ fuel {} (hs.rely hnone hrely)) ?_
  intro g' out w'' _ hcame
  cases out with
  | error why => exact Job.shares_pure hcame
  | ok st => exact Job.shares_pure hcame

end Session
end FaultChain
