import Narrowing.Equation.Choice

/-!
Corner evaluation. The known members other than the target span a box; a form is evaluated at
every corner of it, and the result is the exact number all corners agree on or the interval from
the least to the greatest output.
-/
namespace Narrowing

structure Evaluation where
  target : String
  value : Value
  candidates : Nat
  deriving DecidableEq

namespace Corner

/-- Adds one member to every corner. An exact member keeps their number; a range doubles it, all
    corners at its lower end coming before those at its upper end. -/
def extend (store : Store) (corners : List (Inputs Float)) (member : String) :
    Except EquationFault (List (Inputs Float)) :=
  match store.get member with
  | .error cause => .error (.store cause)
  | .ok v =>
    match v.value with
    | .scalar x => .ok (corners.map (·.bind member x))
    | .interval range =>
      if range.isUnbounded then .error (.unconstrainedInput member)
      else
        .ok (corners.map (·.bind member range.lo) ++ corners.map (·.bind member range.hi))

def ofMembers (store : Store) (members : List String) :
    Except EquationFault (List (Inputs Float)) :=
  members.foldlM (extend store) [.empty]

def output (f : Form) (corner : Inputs Float) : Except EquationFault Float :=
  match f.rule corner with
  | .error cause => .error (.unbound f.target cause)
  | .ok x => if x.isNaN then .error (.nonFinite f.target) else .ok x

/-- The outputs as one value. An output at infinity on all corners is no value. -/
def collapse (target : String) (outputs : List Float) : Except EquationFault Value :=
  let lo := outputs.foldl min infinity
  let hi := outputs.foldl max (-infinity)
  if lo == hi then
    if lo.isFinite then .ok (.scalar lo) else .error (.nonFinite target)
  else
    match Interval.ofEnds lo hi with
    | .ok range => .ok (.interval range)
    | .error _ => .error (.nonFinite target)

def evaluate (members : List String) (f : Form) (store : Store) :
    Except EquationFault Evaluation := do
  let corners ← ofMembers store (members.filter (· ≠ f.target))
  let outputs ← corners.mapM (output f)
  let value ← collapse f.target outputs
  return ⟨f.target, value, corners.length⟩

end Corner

namespace Equation

def compute (e : Equation) (f : Form) (store : Store) : Except EquationError Evaluation :=
  (Corner.evaluate e.members f store).mapError (⟨e.name, ·⟩)

def evaluate (e : Equation) (store : Store) : Except EquationError Evaluation :=
  match e.chooseForm store with
  | .error error => .error error
  | .ok f => e.compute f store

end Equation

end Narrowing
