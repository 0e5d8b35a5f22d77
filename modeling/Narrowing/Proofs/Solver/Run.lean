import Narrowing.Solver.Run
import Narrowing.Proofs.Equation.Corner
import Narrowing.Proofs.Solver.Application

/-!
The course of a run. `Entered` says with what progress and what observer state a run comes to each
of its cycles, `Course` what a cycle can do to the progress. A run ends between two cycles at its
limit, or in the last cycle it enters.
-/
namespace Narrowing
variable {σ : Type}

def Equation.propose (store : Store) (e : Equation) : Except EquationError Proposal :=
  (e.evaluate store).map (⟨e.name, ·⟩)

theorem Equation.propose_ok_iff (store : Store) (e : Equation) (p : Proposal) :
    e.propose store = .ok p ↔ p.equation = e.name ∧ e.evaluate store = .ok p.evaluation := by
  obtain ⟨name, evaluation⟩ := p
  unfold propose
  cases e.evaluate store with
  | error error => simp [Except.map]
  | ok found =>
    simp only [Except.map, Except.ok.injEq, Proposal.mk.injEq]
    rw [eq_comm (a := e.name)]

theorem Equation.propose_error_iff (store : Store) (e : Equation) (error : EquationError) :
    e.propose store = .error error ↔ e.evaluate store = .error error := by
  unfold propose
  cases e.evaluate store with
  | error cause => simp [Except.map]
  | ok found => simp [Except.map]

def Equation.Proposes (store : Store) (e : Equation) (q : Proposal) : Prop :=
  q.equation = e.name ∧ e.evaluate store = .ok q.evaluation

theorem proposed_iff (store : Store) (equations : List Equation) (proposals : List Proposal) :
    equations.mapM (Equation.propose store) = .ok proposals ↔
      List.Forall₂ (Equation.Proposes store) equations proposals := by
  induction equations generalizing proposals with
  | nil => simp [pure, Except.pure, eq_comm]
  | cons e rest ih =>
    rw [mapM_cons_ok_iff, List.forall₂_cons_left_iff]
    simp only [ih, Equation.propose_ok_iff, Equation.Proposes]

/-- A sweep that the observer does not stop collects the proposals, or meets the first failure. -/
theorem sweep_outcome (observer : Observer σ) (cycle : Nat) (store : Store) (state : σ)
    (equations : List Equation) :
    match (sweep observer cycle store state equations).outcome with
    | .complete proposals => equations.mapM (Equation.propose store) = .ok proposals
    | .failed error => equations.mapM (Equation.propose store) = .error error
    | .stopped => True := by
  induction equations generalizing state with
  | nil => rfl
  | cons e rest ih =>
    unfold sweep
    cases evaluated : e.evaluate store with
    | error error =>
      have first := (e.propose_error_iff store error).mpr evaluated
      simp [List.mapM_cons, first, bind, Except.bind]
    | ok evaluation =>
      have first : e.propose store = .ok ⟨e.name, evaluation⟩ :=
        (e.propose_ok_iff store _).mpr ⟨rfl, evaluated⟩
      rcases reaction : observer.react state (.evaluated cycle e.name evaluation) with
        ⟨action, next⟩
      cases action with
      | stop => simp [reaction]
      | proceed =>
        simp only [reaction]
        have later := ih next
        cases outcome : (sweep observer cycle store next rest).outcome with
        | complete remaining =>
          rw [outcome] at later
          exact (mapM_cons_ok_iff e rest _).mpr ⟨_, remaining, first, later, rfl⟩
        | stopped => trivial
        | failed error =>
          rw [outcome] at later
          simp only [SweepOutcome.withFirst, List.mapM_cons, first, bind, Except.bind, later]

/-- What a cycle can come to: the run ends and nothing was applied, an equation could not be
    evaluated, a proposal was refused, or all were applied. -/
inductive Course (catalog : Catalog) (p : Progress) : Verdict → Progress → Prop
  | idle (status : Status) : Course catalog p (.ends status) p
  | misevaluated {error : EquationError}
      (failed : (p.viable catalog).mapM (Equation.propose p.store) = .error error) :
      Course catalog p (.fails (.equation error)) p
  | refused {proposals : List Proposal} {error : SolveError}
      (proposed : (p.viable catalog).mapM (Equation.propose p.store) = .ok proposals)
      (failed : (applyAll p.store proposals).outcome = .error error) :
      Course catalog p (.fails error) { p with store := (applyAll p.store proposals).store }
  | applied {proposals : List Proposal} {updates : List Update} {verdict : Verdict}
      (proposed : (p.viable catalog).mapM (Equation.propose p.store) = .ok proposals)
      (taken : (applyAll p.store proposals).outcome = .ok updates)
      (passed : ∀ error, verdict ≠ .fails error) :
      Course catalog p verdict (p.advance (applyAll p.store proposals).store updates)

theorem closeCycle_course {catalog : Catalog} (observer : Observer σ) (cycle : Nat) {p : Progress}
    (state : σ) {proposals : List Proposal}
    (proposed : (p.viable catalog).mapM (Equation.propose p.store) = .ok proposals) :
    Course catalog p (closeCycle observer cycle p state proposals).verdict
      (closeCycle observer cycle p state proposals).progress := by
  unfold closeCycle
  simp only
  split
  · rename_i error failed
    exact .refused proposed failed
  · rename_i updates taken
    split
    · exact .applied proposed taken (by simp)
    · refine .applied proposed taken ?_
      intro error
      split <;> simp

theorem runCycle_course (catalog : Catalog) (observer : Observer σ) (cycle : Nat) (p : Progress)
    (state : σ) :
    Course catalog p (runCycle catalog observer cycle p state).verdict
      (runCycle catalog observer cycle p state).progress := by
  unfold runCycle
  simp only
  split
  · exact .idle .convergedEmpty
  · split
    · exact .idle .stoppedByObserver
    · rename_i next _
      have swept := sweep_outcome observer cycle p.store next (p.viable catalog)
      split
      · rename_i error failed
        rw [failed] at swept
        exact .misevaluated swept
      · exact .idle .stoppedByObserver
      · rename_i proposals complete
        rw [complete] at swept
        exact closeCycle_course observer cycle _ swept

inductive Entered (catalog : Catalog) (observer : Observer σ) (start : Progress) (state : σ) :
    Nat → Progress → σ → Prop
  | first : Entered catalog observer start state 0 start state
  | next {k : Nat} {p : Progress} {s : σ} (entered : Entered catalog observer start state k p s)
      (continues : (runCycle catalog observer (k + 1) p s).verdict = .continues) :
      Entered catalog observer start state (k + 1)
        (runCycle catalog observer (k + 1) p s).progress
        (runCycle catalog observer (k + 1) p s).state

inductive Ending (catalog : Catalog) (observer : Observer σ) (start : Progress) (state : σ)
    (limit : Nat) : Run σ → Prop
  | atLimit {p : Progress} {s : σ} {run : Run σ}
      (entered : Entered catalog observer start state limit p s)
      (result : ∃ solution, run.result = .ok solution) (store : run.store = p.store) :
      Ending catalog observer start state limit run
  | decided {k : Nat} {p : Progress} {s : σ} {run : Run σ} {status : Status}
      (below : k < limit) (entered : Entered catalog observer start state k p s)
      (verdict : (runCycle catalog observer (k + 1) p s).verdict = .ends status)
      (result : ∃ solution, run.result = .ok solution)
      (store : run.store = (runCycle catalog observer (k + 1) p s).progress.store) :
      Ending catalog observer start state limit run
  | failed {k : Nat} {p : Progress} {s : σ} {run : Run σ} {error : SolveError}
      (below : k < limit) (entered : Entered catalog observer start state k p s)
      (verdict : (runCycle catalog observer (k + 1) p s).verdict = .fails error)
      (result : run.result = .error error)
      (store : run.store = (runCycle catalog observer (k + 1) p s).progress.store) :
      Ending catalog observer start state limit run

section
variable {catalog : Catalog} {observer : Observer σ} {start : Progress} {state : σ} {limit : Nat}

theorem cycles_ending {remaining entered : Nat} {p : Progress} {s : σ}
    (here : Entered catalog observer start state entered p s)
    (left : entered + remaining = limit) :
    Ending catalog observer start state limit
      (Run.cycles catalog observer remaining entered p s) := by
  induction remaining generalizing entered p s with
  | zero =>
    obtain rfl : entered = limit := by omega
    exact .atLimit here ⟨_, rfl⟩ rfl
  | succ remaining ih =>
    have below : entered < limit := by omega
    cases verdict : (runCycle catalog observer (entered + 1) p s).verdict with
    | ends status =>
      refine .decided below here verdict ?_ ?_
      · simp only [Run.cycles, verdict]
        exact ⟨_, rfl⟩
      · simp only [Run.cycles, verdict]
        rfl
    | fails error =>
      refine .failed below here verdict ?_ ?_
      · simp only [Run.cycles, verdict]
        rfl
      · simp only [Run.cycles, verdict]
        rfl
    | continues =>
      have later := ih (.next here verdict) (by omega)
      simp only [Run.cycles, verdict]
      cases later with
      | atLimit entered result store => exact .atLimit entered result store
      | decided below entered verdict result store =>
        exact .decided below entered verdict result store
      | failed below entered verdict result store => exact .failed below entered verdict result store

theorem solve_ending (catalog : Catalog) (limit : Limit) (observer : Observer σ) (state : σ)
    (store : Store) :
    Ending catalog observer ⟨store, .empty, 0⟩ state limit.maxCycles
      (solve catalog limit observer state store) :=
  cycles_ending .first (by omega)

theorem Ending.failure {run : Run σ} (ending : Ending catalog observer start state limit run)
    {error : SolveError} (failed : run.result = .error error) :
    ∃ k p s, k < limit ∧ Entered catalog observer start state k p s ∧
      (runCycle catalog observer (k + 1) p s).verdict = .fails error ∧
      run.store = (runCycle catalog observer (k + 1) p s).progress.store := by
  cases ending with
  | atLimit entered result store =>
    obtain ⟨solution, result⟩ := result
    simp [result] at failed
  | decided below entered verdict result store =>
    obtain ⟨solution, result⟩ := result
    simp [result] at failed
  | failed below entered verdict result store =>
    obtain rfl := Except.error.inj (result.symm.trans failed)
    exact ⟨_, _, _, below, entered, verdict, store⟩

/-- A run that comes to a cycle has the result of the run that begins there. -/
theorem cycles_of_entered {k : Nat} {p : Progress} {s : σ}
    (entered : Entered catalog observer start state k p s) (remaining : Nat) :
    (Run.cycles catalog observer (k + remaining) 0 start state).result =
      (Run.cycles catalog observer remaining k p s).result := by
  induction entered generalizing remaining with
  | first => rw [Nat.zero_add]
  | @next k p s entered continues ih =>
    have here := ih (remaining + 1)
    rw [← Nat.add_assoc, Nat.add_right_comm] at here
    rw [here]
    simp only [Run.cycles, continues, Run.after]

theorem solve_error_iff (catalog : Catalog) (limit : Limit) (observer : Observer σ) (state : σ)
    (store : Store) (error : SolveError) :
    (solve catalog limit observer state store).result = .error error ↔
      ∃ k p s, k < limit.maxCycles ∧ Entered catalog observer ⟨store, .empty, 0⟩ state k p s ∧
        (runCycle catalog observer (k + 1) p s).verdict = .fails error := by
  constructor
  · intro failed
    obtain ⟨k, p, s, below, entered, verdict, _⟩ :=
      (solve_ending catalog limit observer state store).failure failed
    exact ⟨k, p, s, below, entered, verdict⟩
  · rintro ⟨k, p, s, below, entered, verdict⟩
    obtain ⟨spare, enough⟩ : ∃ spare, limit.maxCycles = k + (spare + 1) :=
      ⟨limit.maxCycles - (k + 1), by omega⟩
    unfold solve
    rw [enough, cycles_of_entered entered]
    simp only [Run.cycles, verdict, Run.after, Run.abort]

theorem Entered.invariant {holds : Store → Prop} (first : holds start.store)
    (step : ∀ k p s, k < limit → Entered catalog observer start state k p s → holds p.store →
      holds (runCycle catalog observer (k + 1) p s).progress.store)
    {k : Nat} {p : Progress} {s : σ} (entered : Entered catalog observer start state k p s)
    (within : k ≤ limit) : holds p.store := by
  induction entered with
  | first => exact first
  | next entered continues ih =>
    have before := ih (by omega)
    exact step _ _ _ (by omega) entered before

/-- What every entered cycle preserves is true at the end. -/
theorem Ending.invariant {holds : Store → Prop} {run : Run σ}
    (ending : Ending catalog observer start state limit run) (first : holds start.store)
    (step : ∀ k p s, k < limit → Entered catalog observer start state k p s → holds p.store →
      holds (runCycle catalog observer (k + 1) p s).progress.store) : holds run.store := by
  cases ending with
  | atLimit entered result store =>
    rw [store]
    exact entered.invariant first step (Nat.le_refl limit)
  | decided below entered verdict result store =>
    rw [store]
    exact step _ _ _ below entered (entered.invariant first step (Nat.le_of_lt below))
  | failed below entered verdict result store =>
    rw [store]
    exact step _ _ _ below entered (entered.invariant first step (Nat.le_of_lt below))

end

theorem viable_sound {catalog : Catalog} {p : Progress} {e : Equation}
    (viable : e ∈ p.viable catalog) :
    e ∈ catalog.toList ∧ e.fault? = none ∧ e.applies p.store = true := by
  obtain ⟨listed, fit⟩ := List.mem_filter.mp viable
  exact ⟨listed, catalog.sound e listed, (Bool.and_eq_true_iff.mp fit).2⟩

theorem viable_ascending (p : Progress) (catalog : Catalog) :
    (p.viable catalog).Pairwise fun d e => d.name < e.name :=
  catalog.equations.ascending.filter _

theorem viable_of_split {catalog : Catalog} {p : Progress} {before after : List Equation}
    {e : Equation} (split : p.viable catalog = before ++ e :: after) : e ∈ p.viable catalog := by
  rw [split]
  simp

theorem proposals_admissible {catalog : Catalog} {p : Progress} {equations : List Equation}
    {proposals : List Proposal} (viable : ∀ e ∈ equations, e ∈ p.viable catalog)
    (proposed : equations.mapM (Equation.propose p.store) = .ok proposals) :
    Admissible p.store proposals := by
  have each : ∀ q ∈ proposals, Equation.isOpen p.store q.target = true ∧ q.value.Storable := by
    intro q member
    obtain ⟨e, he, proposal⟩ := (mapM_ok_mem proposed).1 q member
    obtain ⟨_, evaluated⟩ := (e.propose_ok_iff p.store q).mp proposal
    obtain ⟨_, valid, applies⟩ := viable_sound (viable e he)
    obtain ⟨f, _, opened, value, _⟩ := Equation.evaluate_of_applies valid applies
    obtain ⟨target, storable⟩ := value q.evaluation evaluated
    refine ⟨?_, storable⟩
    unfold Proposal.target
    rw [target]
    exact opened
  exact ⟨fun q member => (each q member).1, fun q member => (each q member).2⟩

end Narrowing
