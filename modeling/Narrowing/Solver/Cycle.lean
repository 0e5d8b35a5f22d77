import Narrowing.Catalog
import Narrowing.Solver.Application
import Narrowing.Solver.Log

/-!
One cycle of a run. All viable equations are evaluated on the store as it stands at the start of
the cycle; only then are the values applied, in name order. An equation whose value did not narrow
its target is excluded from later cycles.
-/
namespace Narrowing
variable {σ : Type}

structure Progress where
  store : Store
  excluded : Names
  changes : Nat

def Progress.viable (p : Progress) (catalog : Catalog) : List Equation :=
  catalog.toList.filter fun e => !p.excluded.contains e.name && e.applies p.store

def Progress.advance (p : Progress) (store : Store) (updates : List Update) : Progress :=
  { store := store
    excluded := (updates.filter fun u => !u.changed).foldl (fun r u => r.put u.equation) p.excluded
    changes := p.changes + updates.countP (·.changed) }

inductive SweepOutcome where
  | complete (proposals : List Proposal)
  | stopped
  | failed (error : EquationError)

def SweepOutcome.withFirst (p : Proposal) : SweepOutcome → SweepOutcome
  | .complete proposals => .complete (p :: proposals)
  | .stopped => .stopped
  | .failed error => .failed error

structure Sweep (σ : Type) where
  outcome : SweepOutcome
  state : σ
  events : List Event
  log : List LogEntry

/-- Evaluates equations one after the other on one store, until one fails or the observer stops. -/
def sweep (observer : Observer σ) (cycle : Nat) (store : Store) (state : σ) :
    List Equation → Sweep σ
  | [] => ⟨.complete [], state, [], []⟩
  | e :: rest =>
    match e.evaluate store with
    | .error error => ⟨.failed error, state, [], []⟩
    | .ok evaluation =>
      let event := Event.evaluated cycle e.name evaluation
      let entry := LogEntry.evaluated cycle e.name evaluation
      match observer.react state event with
      | (.stop, state) => ⟨.stopped, state, [event], [entry]⟩
      | (.proceed, state) =>
        let later := sweep observer cycle store state rest
        ⟨later.outcome.withFirst ⟨e.name, evaluation⟩, later.state, event :: later.events,
          entry :: later.log⟩

inductive Verdict where
  | ends (status : Status)
  | fails (error : SolveError)
  | continues

structure CycleRun (σ : Type) where
  verdict : Verdict
  progress : Progress
  state : σ
  events : List Event
  log : List LogEntry

def closeCycle (observer : Observer σ) (cycle : Nat) (p : Progress) (state : σ)
    (proposals : List Proposal) : CycleRun σ :=
  let application := applyAll p.store proposals
  let created := application.created.map fun c => LogEntry.derivedVariable c.1 c.2
  match application.outcome with
  | .error error => ⟨.fails error, { p with store := application.store }, state, [], created⟩
  | .ok updates =>
    let next := p.advance application.store updates
    let changed := updates.countP (·.changed)
    let event := Event.cycleCompleted cycle updates next.excluded next.store
    let log := created ++ [.cycleComplete cycle changed next.excluded.size]
    match observer.react state event with
    | (.stop, state) => ⟨.ends .stoppedByObserver, next, state, [event], log⟩
    | (.proceed, state) =>
      ⟨if changed = 0 then .ends .convergedStable else .continues, next, state, [event], log⟩

/-- Runs one cycle. A cycle without viable equations reports no event. -/
def runCycle (catalog : Catalog) (observer : Observer σ) (cycle : Nat) (p : Progress) (state : σ) :
    CycleRun σ :=
  let viable := p.viable catalog
  let names := viable.map Equation.name
  let start := LogEntry.cycleStart cycle names
  if viable.isEmpty then ⟨.ends .convergedEmpty, p, state, [], [start]⟩
  else
    let event := Event.cycleStarted cycle names
    match observer.react state event with
    | (.stop, state) => ⟨.ends .stoppedByObserver, p, state, [event], [start]⟩
    | (.proceed, state) =>
      let evaluated := sweep observer cycle p.store state viable
      let events := event :: evaluated.events
      let log := start :: evaluated.log
      match evaluated.outcome with
      | .failed error => ⟨.fails (.equation error), p, evaluated.state, events, log⟩
      | .stopped => ⟨.ends .stoppedByObserver, p, evaluated.state, events, log⟩
      | .complete proposals =>
        let closed := closeCycle observer cycle p evaluated.state proposals
        { closed with events := events ++ closed.events, log := log ++ closed.log }

end Narrowing
