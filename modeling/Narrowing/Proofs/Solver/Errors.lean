import Narrowing.Proofs.Solver.Run

/-!
The errors of a run. A run fails at an equation that is viable in the cycle it fails in, and at the
target that this equation chooses on the store as it stands when the cycle starts. Of all errors
five kinds are left; `Breakdown` says what is behind each of them.
-/
namespace Narrowing
variable {σ : Type}

/-- How a cycle breaks down at an equation and the form it chose, on the store the cycle started
    with. `earlier` are the equations before it, and `final` is the store that the run leaves. -/
inductive Breakdown (store final : Store) (earlier : List Equation) (e : Equation) (f : Form) :
    SolveError → Prop
  | unbound {cause : UnboundInput}
      (failed : e.evaluate store = .error ⟨e.name, .unbound f.target cause⟩) :
      Breakdown store final earlier e f (.equation ⟨e.name, .unbound f.target cause⟩)
  | nonFinite (failed : e.evaluate store = .error ⟨e.name, .nonFinite f.target⟩) :
      Breakdown store final earlier e f (.equation ⟨e.name, .nonFinite f.target⟩)
  | unconstrained {evaluation : Evaluation} {range : Interval}
      (evaluated : e.evaluate store = .ok evaluation) (value : evaluation.value = .interval range)
      (whole : range.isUnbounded = true) :
      Breakdown store final earlier e f (.update e.name f.target (.unconstrained f.target))
  | disjoint {evaluation : Evaluation} {range : Interval} {v : Variable}
      (evaluated : e.evaluate store = .ok evaluation) (value : evaluation.value = .interval range)
      (held : final.find? f.target = some v)
      (apart : ∀ x, ¬ (v.value.bounds.Contains x ∧ range.Contains x)) :
      Breakdown store final earlier e f
        (.update e.name f.target (.disjoint f.target v.value.bounds range.toBounds))
  | contradicted {d : Equation} {first second : Evaluation} {v : Variable} {x y : Float}
      (before : d ∈ earlier) (settled : d.evaluate store = .ok first)
      (same : first.target = f.target) (number : first.value = .scalar x)
      (held : final.find? f.target = some v) (kept : v.value = .scalar x)
      (evaluated : e.evaluate store = .ok second) (value : second.value = .scalar y)
      (distinct : (x == y) = false) :
      Breakdown store final earlier e f (.update e.name f.target (.alreadyFinite f.target))

theorem evaluation_breakdown {catalog : Catalog} {p : Progress} (final : Store)
    (earlier : List Equation) {e : Equation} (viable : e ∈ p.viable catalog) {error : EquationError}
    (failed : e.propose p.store = .error error) :
    ∃ f, e.chooseForm p.store = .ok f ∧ Breakdown p.store final earlier e f (.equation error) := by
  have failed := (e.propose_error_iff p.store error).mp failed
  obtain ⟨_, valid, applies⟩ := viable_sound viable
  obtain ⟨f, chosen, _, _, fails⟩ := Equation.evaluate_of_applies valid applies
  obtain ⟨named, fault⟩ := fails error failed
  obtain ⟨name, fault'⟩ := error
  subst named
  refine ⟨f, chosen, ?_⟩
  rcases fault with ⟨cause, unbound⟩ | nonFinite
  · subst unbound
    exact .unbound failed
  · subst nonFinite
    exact .nonFinite failed

theorem application_breakdown {catalog : Catalog} {p : Progress} {proposals : List Proposal}
    (proposed : (p.viable catalog).mapM (Equation.propose p.store) = .ok proposals)
    {error : SolveError} (failed : (applyAll p.store proposals).outcome = .error error) :
    ∃ before e after f, p.viable catalog = before ++ e :: after ∧ e.chooseForm p.store = .ok f ∧
      Breakdown p.store (applyAll p.store proposals).store before e f error := by
  have admissible := proposals_admissible (fun _ member => member) proposed
  rw [applyAll_eq_steps admissible] at failed ⊢
  obtain ⟨taken, q, skipped, updates, rfl, accepted, refused, left⟩ := Application.steps_error failed
  obtain ⟨⟨cause, met, rfl⟩, store⟩ := Proposal.step_refused refused
  obtain ⟨before, e, after, viable, earlier, proposal⟩ := mapM_ok_split proposed
  obtain ⟨named, evaluated⟩ := (e.propose_ok_iff p.store q).mp proposal
  obtain ⟨_, valid, applies⟩ := viable_sound (viable_of_split viable)
  obtain ⟨f, chosen, opened, value, _⟩ := Equation.evaluate_of_applies valid applies
  obtain ⟨target, storable⟩ := value q.evaluation evaluated
  have target : q.target = f.target := target
  refine ⟨before, e, after, f, viable, chosen, ?_⟩
  have held : (Application.steps p.store (taken ++ q :: skipped)).store.find? f.target =
      some ((Application.steps p.store taken).store.subject f.target) := by
    rw [left, store, Proposal.extended_find, if_pos target]
  rw [named, target]
  rw [target] at met
  have label := Store.subject_name (Application.steps p.store taken).store f.target
  rcases Variable.meet_error_cases storable met with
    ⟨range, ranged, whole, rfl⟩ | ⟨range, ranged, apart, rfl⟩ | ⟨x, y, kept, number, distinct, rfl⟩
  · rw [label]
    exact .unconstrained evaluated ranged whole
  · rw [label]
    exact .disjoint evaluated ranged held apart
  · rw [label]
    -- The target was open when the cycle started, so a number among the earlier ones settled it.
    obtain ⟨current, known⟩ := (open_iff_subject p.store f.target).mp opened
    obtain ⟨r, member, same, settled⟩ := Application.steps_settled accepted known kept
    obtain ⟨d, hd, proposal'⟩ := (mapM_ok_mem earlier).1 r member
    obtain ⟨_, evaluated'⟩ := (d.propose_ok_iff p.store r).mp proposal'
    exact .contradicted hd evaluated' same settled held kept evaluated number distinct

theorem solve_error_origin {catalog : Catalog} {limit : Limit} {observer : Observer σ} {state : σ}
    {store : Store} {error : SolveError}
    (failed : (solve catalog limit observer state store).result = .error error) :
    ∃ k p s before e after f, k < limit.maxCycles ∧
      Entered catalog observer ⟨store, .empty, 0⟩ state k p s ∧
      (runCycle catalog observer (k + 1) p s).verdict = .fails error ∧
      p.viable catalog = before ++ e :: after ∧ e.chooseForm p.store = .ok f ∧
      Breakdown p.store (solve catalog limit observer state store).store before e f error := by
  obtain ⟨k, p, s, below, entered, verdict, left⟩ :=
    (solve_ending catalog limit observer state store).failure failed
  have course := runCycle_course catalog observer (k + 1) p s
  rw [left]
  rw [verdict] at course
  generalize (runCycle catalog observer (k + 1) p s).progress = reached at course ⊢
  cases course with
  | misevaluated stuck =>
    obtain ⟨before, e, after, _, viable, _, stuck⟩ := mapM_error stuck
    obtain ⟨f, chosen, breakdown⟩ :=
      evaluation_breakdown p.store before (viable_of_split viable) stuck
    exact ⟨k, p, s, before, e, after, f, below, entered, verdict, viable, chosen, breakdown⟩
  | refused proposed stuck =>
    obtain ⟨before, e, after, f, viable, chosen, breakdown⟩ := application_breakdown proposed stuck
    exact ⟨k, p, s, before, e, after, f, below, entered, verdict, viable, chosen, breakdown⟩
  | applied proposed taken passed => exact absurd rfl (passed error)

def twoSources : Catalog :=
  ⟨.ofList [.ofFormulas "first" ["z", "a"] [("z", .input "a"), ("a", .input "z")],
      .ofFormulas "second" ["z", "b"] [("z", .input "b"), ("b", .input "z")]],
    by decide +kernel⟩

def differing : Store :=
  ⟨.ofList [⟨"a", .given, "m", .scalar 1.0, (by decide +kernel : Float.isFinite 1.0 = true)⟩,
    ⟨"b", .given, "m", .scalar 2.0, (by decide +kernel : Float.isFinite 2.0 = true)⟩]⟩

theorem solve_error_origin_contradicted :
    (solve twoSources .standard .silent () differing).result =
        .error (.update "second" "z" (.alreadyFinite "z")) ∧
      ∃ k p s before e after f, k < Limit.standard.maxCycles ∧
        Entered twoSources .silent ⟨differing, .empty, 0⟩ () k p s ∧
        (runCycle twoSources .silent (k + 1) p s).verdict =
          .fails (.update "second" "z" (.alreadyFinite "z")) ∧
        p.viable twoSources = before ++ e :: after ∧ e.chooseForm p.store = .ok f ∧
        Breakdown p.store (solve twoSources .standard .silent () differing).store before e f
          (.update "second" "z" (.alreadyFinite "z")) :=
  ⟨rfl, solve_error_origin rfl⟩

end Narrowing
