import Narrowing.Proofs.Solver.Observation

/-!
The events of a run as a chronicle. `CycleStory` says what a cycle tells that finds a store and a
set of excluded equations: which equations are viable, what each of them says of that one store,
and which updates follow. `Chronicle` strings the cycles of a run together, each of them beginning
where the one before it ended. An observer that never stops is told the chronicle of the run.
-/
namespace Narrowing
variable {σ : Type}

structure ViableOn (catalog : Catalog) (store : Store) (excluded : Names)
    (viable : List Equation) : Prop where
  ascending : viable.Pairwise fun d e => d.name < e.name
  exactly : ∀ e, e ∈ viable ↔
    e ∈ catalog.toList ∧ excluded.contains e.name = false ∧ e.applies store = true

def Update.Reports (q : Proposal) (u : Update) : Prop :=
  u.equation = q.equation ∧ u.target = q.target ∧ u.value = q.value

namespace Trace

def opening (cycle : Nat) (viable : List Equation) (read : List Proposal) : List Event :=
  .cycleStarted cycle (viable.map Equation.name) :: read.map (Proposal.reading cycle)

def lastStore (store : Store) (events : List Event) : Store :=
  events.foldl (fun found event => event.leaves found) store

theorem lastStore_opening (store : Store) (cycle : Nat) (viable : List Equation)
    (read : List Proposal) : lastStore store (opening cycle viable read) = store := by
  unfold opening lastStore
  rw [List.foldl_cons]
  induction read with
  | nil => rfl
  | cons q rest ih => exact ih

theorem lastStore_append (store : Store) (before after : List Event) :
    lastStore store (before ++ after) = lastStore (lastStore store before) after :=
  List.foldl_append

end Trace

/-- What a cycle tells that finds this store and these excluded equations, and what store and
    excluded equations it leaves. Every viable equation is evaluated on the store that was found. -/
inductive CycleStory (catalog : Catalog) (cycle : Nat) (store : Store) (excluded : Names) :
    List Event → Verdict → Store → Names → Prop
  | idle (none : ViableOn catalog store excluded []) :
      CycleStory catalog cycle store excluded [] (.ends .convergedEmpty) store excluded
  | misevaluated {viable before after : List Equation} {e : Equation} {read : List Proposal}
      {error : EquationError} (listed : ViableOn catalog store excluded viable)
      (split : viable = before ++ e :: after)
      (evaluated : List.Forall₂ (Equation.Proposes store) before read)
      (failed : e.evaluate store = .error error) :
      CycleStory catalog cycle store excluded (Trace.opening cycle viable read)
        (.fails (.equation error)) store excluded
  | refused {viable : List Equation} {read : List Proposal} {error : SolveError}
      (listed : ViableOn catalog store excluded viable) (some : viable ≠ [])
      (evaluated : List.Forall₂ (Equation.Proposes store) viable read)
      (failed : (applyAll store read).outcome = .error error) :
      CycleStory catalog cycle store excluded (Trace.opening cycle viable read) (.fails error)
        (applyAll store read).store excluded
  | completed {viable : List Equation} {read : List Proposal} {updates : List Update}
      {excluded' : Names} {verdict : Verdict} (listed : ViableOn catalog store excluded viable)
      (some : viable ≠ []) (evaluated : List.Forall₂ (Equation.Proposes store) viable read)
      (taken : (applyAll store read).outcome = .ok updates)
      (aligned : List.Forall₂ Update.Reports read updates)
      (excluding : ∀ name, excluded'.contains name = true ↔
        excluded.contains name = true ∨ ∃ u ∈ updates, u.changed = false ∧ u.equation = name)
      (decided : verdict =
        if updates.countP (·.changed) = 0 then .ends .convergedStable else .continues) :
      CycleStory catalog cycle store excluded
        (Trace.opening cycle viable read ++
          [.cycleCompleted cycle updates excluded' (applyAll store read).store])
        verdict (applyAll store read).store excluded'

/-- The events of a run from cycle `k + 1` on, which finds this store and these excluded equations,
    with the result of the run and the store it leaves. -/
inductive Chronicle (catalog : Catalog) (limit : Nat) :
    Nat → Store → Names → List Event → Except SolveError Solution → Store → Prop
  | capped {store : Store} {excluded : Names} {changes : Nat} :
      Chronicle catalog limit limit store excluded []
        (.ok ⟨.capReached, limit, changes, excluded⟩) store
  | ended {k changes : Nat} {store final : Store} {excluded excluded' : Names}
      {events : List Event} {status : Status} (below : k < limit)
      (story : CycleStory catalog (k + 1) store excluded events (.ends status) final excluded') :
      Chronicle catalog limit k store excluded events
        (.ok ⟨status, k + 1, changes, excluded'⟩) final
  | failed {k : Nat} {store final : Store} {excluded excluded' : Names} {events : List Event}
      {error : SolveError} (below : k < limit)
      (story : CycleStory catalog (k + 1) store excluded events (.fails error) final excluded') :
      Chronicle catalog limit k store excluded events (.error error) final
  | onward {k : Nat} {store next final : Store} {excluded excluded' : Names}
      {events later : List Event} {result : Except SolveError Solution} (below : k < limit)
      (story : CycleStory catalog (k + 1) store excluded events .continues next excluded')
      (rest : Chronicle catalog limit (k + 1) next excluded' later result final) :
      Chronicle catalog limit k store excluded (events ++ later) result final

theorem viable_viableOn (p : Progress) (catalog : Catalog) :
    ViableOn catalog p.store p.excluded (p.viable catalog) :=
  ⟨viable_ascending p catalog, p.mem_viable_iff catalog⟩

theorem Applied.reports {store final : Store} {proposals : List Proposal} {updates : List Update}
    (applied : Applied store proposals updates final) :
    List.Forall₂ Update.Reports proposals updates := by
  induction applied with
  | done store => exact .nil
  | taken now next ih => exact .cons ⟨rfl, rfl, rfl⟩ ih

theorem sweep_silent (cycle : Nat) (store : Store) (equations : List Equation) :
    (∃ read, List.Forall₂ (Equation.Proposes store) equations read ∧
      (sweep .silent cycle store () equations).outcome = .complete read ∧
      (sweep .silent cycle store () equations).events = read.map (Proposal.reading cycle)) ∨
    ∃ before e after read error, equations = before ++ e :: after ∧
      List.Forall₂ (Equation.Proposes store) before read ∧ e.evaluate store = .error error ∧
      (sweep .silent cycle store () equations).outcome = .failed error ∧
      (sweep .silent cycle store () equations).events = read.map (Proposal.reading cycle) := by
  induction equations with
  | nil => exact Or.inl ⟨[], .nil, rfl, rfl⟩
  | cons e rest ih =>
    unfold sweep
    cases evaluated : e.evaluate store with
    | error error => exact Or.inr ⟨[], e, rest, [], error, rfl, .nil, evaluated, rfl, rfl⟩
    | ok evaluation =>
      have first : e.Proposes store ⟨e.name, evaluation⟩ := ⟨rfl, evaluated⟩
      simp only [Observer.silent_react]
      rcases ih with ⟨read, later, outcome, events⟩ |
        ⟨before, d, after, read, error, rfl, later, failed, outcome, events⟩
      · exact Or.inl ⟨_ :: read, .cons first later, by rw [outcome]; rfl, by rw [events]; rfl⟩
      · exact Or.inr ⟨e :: before, d, after, _ :: read, error, rfl, .cons first later, failed,
          by rw [outcome]; rfl, by rw [events]; rfl⟩

theorem closeCycle_story {catalog : Catalog} {cycle : Nat} {p : Progress} {read : List Proposal}
    (some : p.viable catalog ≠ [])
    (evaluated : List.Forall₂ (Equation.Proposes p.store) (p.viable catalog) read) :
    CycleStory catalog cycle p.store p.excluded
      (Trace.opening cycle (p.viable catalog) read ++ (closeCycle .silent cycle p () read).events)
      (closeCycle .silent cycle p () read).verdict
      (closeCycle .silent cycle p () read).progress.store
      (closeCycle .silent cycle p () read).progress.excluded := by
  have listed := viable_viableOn p catalog
  have proposed := (proposed_iff _ _ _).mpr evaluated
  have admissible := proposals_admissible (fun _ member => member) proposed
  unfold closeCycle
  simp only [Observer.silent_react]
  cases outcome : (applyAll p.store read).outcome with
  | error error =>
    simp only [List.append_nil]
    exact .refused listed some evaluated outcome
  | ok updates =>
    exact .completed listed some evaluated outcome (applyAll_applied admissible outcome).reports
      (p.excluded_advance _ updates) rfl

theorem runCycle_story (catalog : Catalog) (cycle : Nat) (p : Progress) :
    CycleStory catalog cycle p.store p.excluded (runCycle catalog .silent cycle p ()).events
      (runCycle catalog .silent cycle p ()).verdict
      (runCycle catalog .silent cycle p ()).progress.store
      (runCycle catalog .silent cycle p ()).progress.excluded := by
  have listed := viable_viableOn p catalog
  by_cases none : p.viable catalog = []
  · rw [runCycle_idle none]
    rw [none] at listed
    exact .idle listed
  · rw [runCycle_started none (Observer.silent_react () _)]
    simp only
    rcases sweep_silent cycle p.store (p.viable catalog) with
      ⟨read, evaluated, outcome, events⟩ |
      ⟨before, e, after, read, error, split, evaluated, failed, outcome, events⟩
    · unfold afterSweep
      rw [outcome, events]
      exact closeCycle_story none evaluated
    · unfold afterSweep
      rw [outcome, events]
      exact .misevaluated listed split evaluated failed

theorem cycles_chronicle (catalog : Catalog) {limit remaining k : Nat}
    (left : k + remaining = limit) (p : Progress) :
    Chronicle catalog limit k p.store p.excluded
      (Run.cycles catalog .silent remaining k p ()).events
      (Run.cycles catalog .silent remaining k p ()).result
      (Run.cycles catalog .silent remaining k p ()).store := by
  induction remaining generalizing k p with
  | zero =>
    obtain rfl : k = limit := left
    exact .capped
  | succ remaining ih =>
    have below : k < limit := by omega
    have story := runCycle_story catalog (k + 1) p
    simp only [Run.cycles, Run.after]
    cases verdict : (runCycle catalog .silent (k + 1) p ()).verdict with
    | ends status =>
      rw [verdict] at story
      simp only [Run.finish, List.append_nil]
      exact .ended below story
    | fails error =>
      rw [verdict] at story
      simp only [Run.abort, List.append_nil]
      exact .failed below story
    | continues =>
      rw [verdict] at story
      exact .onward below story (ih (by omega) _)

/-- Where a cycle does not fail, the last completed cycle carries the store it leaves. -/
theorem CycleStory.lastStore {catalog : Catalog} {cycle : Nat} {store next : Store}
    {excluded excluded' : Names} {events : List Event} {verdict : Verdict}
    (story : CycleStory catalog cycle store excluded events verdict next excluded')
    (unfailing : ∀ error, verdict ≠ .fails error) : next = Trace.lastStore store events := by
  cases story with
  | idle none => rfl
  | misevaluated listed split evaluated failed => exact absurd rfl (unfailing _)
  | refused listed some evaluated failed => exact absurd rfl (unfailing _)
  | completed listed some evaluated taken aligned excluding decided =>
    rw [Trace.lastStore_append, Trace.lastStore_opening]
    rfl

theorem Chronicle.lastStore {catalog : Catalog} {limit k : Nat} {store final : Store}
    {excluded : Names} {events : List Event} {result : Except SolveError Solution}
    (chronicle : Chronicle catalog limit k store excluded events result final)
    {solution : Solution} (solved : result = .ok solution) :
    final = Trace.lastStore store events := by
  induction chronicle with
  | capped => rfl
  | ended below story => exact story.lastStore (by simp)
  | failed below story => simp at solved
  | onward below story rest ih =>
    rw [Trace.lastStore_append, ← story.lastStore (by simp)]
    exact ih solved

theorem Observer.hear_unstopped {observer : Observer σ} (quiet : ¬ observer.Stops) (s : σ)
    (events : List Event) : (observer.hear s events).stopped = false := by
  induction events generalizing s with
  | nil => rfl
  | cons event rest ih =>
    rcases reaction : observer.react s event with ⟨action, next⟩
    cases action with
    | stop => exact absurd ⟨s, event, by rw [reaction]⟩ quiet
    | proceed =>
      rw [hear_proceed _ reaction]
      exact ih next

/-- An observer that never stops a run is told its chronicle, from the first cycle on. -/
theorem solve_chronicle {catalog : Catalog} {limit : Limit} {observer : Observer σ} {state : σ}
    {store : Store} (quiet : ¬ observer.Stops) :
    Chronicle catalog limit.maxCycles 0 store .empty
        (solve catalog limit observer state store).events
        (solve catalog limit observer state store).result
        (solve catalog limit observer state store).store ∧
      ∀ solution, (solve catalog limit observer state store).result = .ok solution →
        (solve catalog limit observer state store).store =
          Trace.lastStore store (solve catalog limit observer state store).events := by
  have chronicle := cycles_chronicle catalog (Nat.zero_add limit.maxCycles) ⟨store, .empty, 0⟩
  have follows := cycles_follows catalog observer limit.maxCycles 0 ⟨store, .empty, 0⟩ state
  have proceeding := observer.hear_unstopped quiet state
    (Run.cycles catalog .silent limit.maxCycles 0 ⟨store, .empty, 0⟩ ()).events
  obtain ⟨result, left⟩ := follows.proceeded proceeding
  have events := follows.heard.symm.trans (observer.heard_proceeding proceeding)
  rw [← events, ← result, ← left] at chronicle
  exact ⟨chronicle, fun solution solved => chronicle.lastStore solved⟩

def Observer.recording : Observer (List Event) := ⟨fun seen event => (.proceed, seen ++ [event])⟩

theorem solve_chronicle_square :
    ¬ Observer.recording.Stops ∧
      (solve squares .standard .recording [] someSquare).events.length = 6 ∧
      Chronicle squares Limit.standard.maxCycles 0 someSquare .empty
        (solve squares .standard .recording [] someSquare).events
        (solve squares .standard .recording [] someSquare).result
        (solve squares .standard .recording [] someSquare).store := by
  have quiet : ¬ Observer.recording.Stops := by
    intro stops
    obtain ⟨seen, event, stop⟩ := stops
    simp [Observer.recording] at stop
  exact ⟨quiet, rfl, (solve_chronicle quiet).1⟩

end Narrowing
