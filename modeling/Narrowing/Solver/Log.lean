import Narrowing.Solver.Event

/-!
The log of a run. Entries are data; level, message and the text of their fields are read off them.
-/
namespace Narrowing
open Text Decimal

inductive LogLevel where
  | trace
  | debug
  | info
  deriving DecidableEq, Repr

inductive LogEntry where
  | cycleStart (cycle : Nat) (viable : List String)
  | evaluated (cycle : Nat) (equation : String) (evaluation : Evaluation)
  | derivedVariable (equation target : String)
  | cycleComplete (cycle changed excluded : Nat)
  | solveComplete (solution : Solution)

namespace LogEntry

def level : LogEntry → LogLevel
  | .evaluated .. => .trace
  | .solveComplete _ => .info
  | _ => .debug

def message : LogEntry → String
  | .cycleStart .. => "cycle_start"
  | .evaluated .. => "evaluated"
  | .derivedVariable .. => "derived_variable"
  | .cycleComplete .. => "cycle_complete"
  | .solveComplete _ => "solve_complete"

/-- The fields of an entry as text. Names of equations are quoted; the name of the variable is
    quoted only where it is created. -/
def fields : LogEntry → List (String × String)
  | .cycleStart cycle viable => [("cycle", natText cycle), ("viable", quotedList viable)]
  | .evaluated cycle equation evaluation =>
    [("cycle", natText cycle), ("equation", quoted equation), ("variable", evaluation.target),
      ("value", evaluation.value.text), ("candidates", natText evaluation.candidates)]
  | .derivedVariable equation target =>
    [("equation", quoted equation), ("variable", quoted target)]
  | .cycleComplete cycle changed excluded =>
    [("cycle", natText cycle), ("changed", natText changed), ("excluded", natText excluded)]
  | .solveComplete solution =>
    [("status", solution.status.text), ("cycles", natText solution.cycles),
      ("changes", natText solution.changes), ("excluded", natText solution.excluded.size)]

end LogEntry

end Narrowing
