import Narrowing.Solver.Cycle
import Narrowing.Solver.Limit

/-!
A run of the solver: cycles until nothing is viable, a cycle changes nothing, the observer stops
it, an error occurs, or the limit is reached.
-/
namespace Narrowing
variable {σ : Type}

/-- Everything a run leaves behind. The store is the state reached, after an error too. -/
structure Run (σ : Type) where
  result : Except SolveError Solution
  store : Store
  state : σ
  events : List Event
  log : List LogEntry

namespace Run

def finish (status : Status) (cycles : Nat) (p : Progress) (state : σ) : Run σ :=
  let solution : Solution := ⟨status, cycles, p.changes, p.excluded⟩
  ⟨.ok solution, p.store, state, [], [.solveComplete solution]⟩

def abort (error : SolveError) (p : Progress) (state : σ) : Run σ :=
  ⟨.error error, p.store, state, [], []⟩

def after (c : CycleRun σ) (rest : Run σ) : Run σ :=
  { rest with events := c.events ++ rest.events, log := c.log ++ rest.log }

def cycles (catalog : Catalog) (observer : Observer σ) :
    (remaining entered : Nat) → Progress → σ → Run σ
  | 0, entered, p, state => finish .capReached entered p state
  | remaining + 1, entered, p, state =>
    let c := runCycle catalog observer (entered + 1) p state
    after c <|
      match c.verdict with
      | .ends status => finish status (entered + 1) c.progress c.state
      | .fails error => abort error c.progress c.state
      | .continues => cycles catalog observer remaining (entered + 1) c.progress c.state

end Run

def solve (catalog : Catalog) (limit : Limit) (observer : Observer σ) (state : σ) (store : Store) :
    Run σ :=
  Run.cycles catalog observer limit.maxCycles 0 ⟨store, .empty, 0⟩ state

def solveUnobserved (catalog : Catalog) (limit : Limit) (store : Store) : Run Unit :=
  solve catalog limit .silent () store

end Narrowing
