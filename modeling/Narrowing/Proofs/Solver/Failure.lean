import Narrowing.Proofs.Solver.Uninformative

/-!
What a failed run leaves. A run fails at the first equation, in name order, that cannot be evaluated
on the store its cycle found, or whose value is refused. In the first case the store is the one that
the cycle found. In the second the values of the equations before it are taken, those of the
equations after it are not, and at most the variable that would have been updated is new.
-/
namespace Narrowing
variable {σ : Type}

theorem Variable.new_refuses {name unit : String} {provenance : Provenance} {proposed : Value}
    {cause : VariableError} (storable : proposed.Storable)
    (refused : (Variable.new name provenance unit).meet proposed = .error cause) :
    cause = .unconstrained name := by
  rcases meet_error_cases storable refused with
    ⟨_, _, _, rfl⟩ | ⟨range, _, apart, _⟩ | ⟨x, _, exactly, _⟩
  · rfl
  · have inside := Interval.contains_of_unbounded Interval.unbounded_isUnbounded range.lo_number
    exact absurd ⟨inside, range.contains_lo⟩ (apart range.lo)
  · simp [Variable.new, Value.unconstrained] at exactly

/-- The store that is left when a value for `target` is refused for a cause: the store it was
    offered to, to which a missing target has been added. -/
def Refusal (offered : Store) (target : String) (cause : VariableError) (final : Store) : Prop :=
  if offered.contains target then final = offered
  else cause = .unconstrained target ∧ offered.add (.new target .derived "unknown") = .ok final

theorem Proposal.step_refusal {q : Proposal} {store : Store} {error : SolveError}
    (storable : q.value.Storable) (refused : (q.step store).outcome = .error error) :
    ∃ cause, error = .update q.equation q.target cause ∧
      Refusal store q.target cause (q.step store).store := by
  obtain ⟨⟨cause, met, rfl⟩, left⟩ := step_refused refused
  refine ⟨cause, rfl, ?_⟩
  rw [left]
  unfold Refusal extended
  cases present : store.contains q.target with
  | true => simp
  | false =>
    rw [Store.subject_of_missing ((Store.missing_iff store q.target).mp present)] at met
    refine ⟨Variable.new_refuses storable met, ?_⟩
    unfold Store.add
    exact if_neg (by simpa [Variable.new] using present)

inductive Failure (found final : Store) (viable : List Equation) : SolveError → Prop
  | evaluation {before after : List Equation} {e : Equation} {error : EquationError}
      (split : viable = before ++ e :: after)
      (earlier : ∀ d ∈ before, ∃ evaluation, d.evaluate found = .ok evaluation)
      (failed : e.evaluate found = .error error) (left : final = found) :
      Failure found final viable (.equation error)
  | update {before after : List Equation} {e : Equation} {taken : List Proposal} {q : Proposal}
      {updates : List Update} {cause : VariableError}
      (split : viable = before ++ e :: after)
      (evaluated : ∀ d ∈ viable, ∃ evaluation, d.evaluate found = .ok evaluation)
      (earlier : List.Forall₂ (Equation.Proposes found) before taken)
      (own : e.Proposes found q)
      (accepted : (applyAll found taken).outcome = .ok updates)
      (refused : (applyAll found (taken ++ [q])).outcome = .error (.update e.name q.target cause))
      (left : Refusal (applyAll found taken).store q.target cause final) :
      Failure found final viable (.update e.name q.target cause)

theorem evaluated_of_proposed {store : Store} {equations : List Equation}
    {proposals : List Proposal}
    (proposed : equations.mapM (Equation.propose store) = .ok proposals) :
    ∀ d ∈ equations, ∃ evaluation, d.evaluate store = .ok evaluation := by
  intro d member
  obtain ⟨q, _, proposal⟩ := (mapM_ok_mem proposed).2 d member
  exact ⟨q.evaluation, ((d.propose_ok_iff store q).mp proposal).2⟩

theorem failure_of_misevaluated {store : Store} {viable : List Equation} {error : EquationError}
    (failed : viable.mapM (Equation.propose store) = .error error) :
    Failure store store viable (.equation error) := by
  obtain ⟨before, e, after, _, split, proposed, failed⟩ := mapM_error failed
  exact .evaluation split (evaluated_of_proposed proposed)
    ((e.propose_error_iff store error).mp failed) rfl

theorem failure_of_refused {catalog : Catalog} {p : Progress} {proposals : List Proposal}
    (proposed : (p.viable catalog).mapM (Equation.propose p.store) = .ok proposals)
    {error : SolveError} (failed : (applyAll p.store proposals).outcome = .error error) :
    Failure p.store (applyAll p.store proposals).store (p.viable catalog) error := by
  have admissible := proposals_admissible (fun _ member => member) proposed
  have evaluated := evaluated_of_proposed proposed
  rw [applyAll_eq_steps admissible] at failed ⊢
  obtain ⟨taken, q, skipped, updates, rfl, accepted, refused, left⟩ := Application.steps_error failed
  obtain ⟨before, e, after, split, earlier, own⟩ := mapM_ok_split proposed
  have own := (e.propose_ok_iff p.store q).mp own
  have storable := admissible.values_storable q (by simp)
  obtain ⟨cause, rfl, refusal⟩ := Proposal.step_refusal storable refused
  -- Up to the refused proposal nothing depends on those that follow it.
  have sofar : applyAll p.store taken = Application.steps p.store taken :=
    applyAll_eq_steps (admissible.among fun r member => by simp [member])
  have cut : applyAll p.store (taken ++ [q]) = Application.steps p.store (taken ++ [q]) := by
    refine applyAll_eq_steps (admissible.among fun r member => ?_)
    simp only [List.mem_append, List.mem_cons, List.not_mem_nil, or_false] at member ⊢
    tauto
  rw [← sofar] at refusal
  have refused := Application.steps_refused accepted refused []
  rw [← cut, own.1] at refused
  rw [← sofar] at accepted
  rw [left, own.1, ← sofar]
  exact .update split evaluated ((proposed_iff _ _ _).mp earlier) own accepted refused refusal

/-- A run fails in a cycle it enters, and leaves the store of that cycle's first failure. -/
theorem solve_failure {catalog : Catalog} {limit : Limit} {observer : Observer σ} {state : σ}
    {store : Store} {error : SolveError}
    (failed : (solve catalog limit observer state store).result = .error error) :
    ∃ k p s, k < limit.maxCycles ∧ Entered catalog observer ⟨store, .empty, 0⟩ state k p s ∧
      (runCycle catalog observer (k + 1) p s).verdict = .fails error ∧
      (p.viable catalog).Pairwise (fun d e => d.name < e.name) ∧
      Failure p.store (solve catalog limit observer state store).store (p.viable catalog) error := by
  obtain ⟨k, p, s, below, entered, verdict, left⟩ :=
    (solve_ending catalog limit observer state store).failure failed
  refine ⟨k, p, s, below, entered, verdict, viable_ascending p catalog, ?_⟩
  have course := runCycle_course catalog observer (k + 1) p s
  rw [left]
  rw [verdict] at course
  generalize (runCycle catalog observer (k + 1) p s).progress = reached at course ⊢
  cases course with
  | misevaluated stuck => exact failure_of_misevaluated stuck
  | refused proposed stuck => exact failure_of_refused proposed stuck
  | applied proposed taken passed => exact absurd rfl (passed error)

def copyAndRatio : Catalog :=
  ⟨.ofList [.ratio, .ofFormulas "copy" ["c", "a"] [("c", .input "a"), ("a", .input "c")]],
    by decide +kernel⟩

def aroundZero : Store :=
  ⟨.ofList [⟨"a", .given, "", .interval ⟨⟨-2.0, 3.0⟩, by decide +kernel⟩, trivial⟩,
    ⟨"b", .given, "", .interval ⟨⟨0.0, 5.0⟩, by decide +kernel⟩, trivial⟩]⟩

theorem solve_failure_around_zero :
    (solve copyAndRatio .standard .silent () aroundZero).result =
        .error (.update "ratio" "z" (.unconstrained "z")) ∧
      (solve copyAndRatio .standard .silent () aroundZero).store.toList.map Variable.name =
        ["a", "b", "c", "z"] ∧
      ∃ k p s, k < Limit.standard.maxCycles ∧
        Entered copyAndRatio .silent ⟨aroundZero, .empty, 0⟩ () k p s ∧
        (runCycle copyAndRatio .silent (k + 1) p s).verdict =
          .fails (.update "ratio" "z" (.unconstrained "z")) ∧
        (p.viable copyAndRatio).Pairwise (fun d e => d.name < e.name) ∧
        Failure p.store (solve copyAndRatio .standard .silent () aroundZero).store
          (p.viable copyAndRatio) (.update "ratio" "z" (.unconstrained "z")) :=
  ⟨rfl, rfl, solve_failure rfl⟩

end Narrowing
