import Narrowing.Equation.Basic

/-!
The choice of a target. An equation applies when at most one member is unknown and some member is
not finite; it then solves for the unknown member, or else for the member it knows least about.
-/
namespace Narrowing

/-- Widths in order, a NaN width after every other. -/
def narrower (a b : Float) : Bool := a < b || (!a.isNaN && b.isNaN)

def Variable.ranksBefore (a b : Variable) : Bool :=
  a.precision.rank < b.precision.rank
    || (a.precision == b.precision && narrower a.value.width b.value.width)

namespace Equation

def isUnknown (store : Store) (member : String) : Bool :=
  match store.find? member with
  | none => true
  | some v => v.precision == .unconstrained

def isOpen (store : Store) (member : String) : Bool :=
  match store.find? member with
  | none => true
  | some v => v.precision != .finite

def unknowns (e : Equation) (store : Store) : List String := e.members.filter (isUnknown store)

def applies (e : Equation) (store : Store) : Bool :=
  e.members.any (isOpen store) && (e.unknowns store).length ≤ 1

def leastKnown? : List Variable → Option Variable
  | [] => none
  | v :: rest => some (rest.foldl (fun best w => if w.ranksBefore best then w else best) v)

def leastKnownMember (e : Equation) (store : Store) : Except EquationError String :=
  match e.members.mapM store.get with
  | .error cause => .error ⟨e.name, .store cause⟩
  | .ok known =>
    match leastKnown? known with
    | none => .error ⟨e.name, .noMembers⟩
    | some v =>
      if v.precision = .finite then .error ⟨e.name, .targetFinite v.name⟩ else .ok v.name

def target (e : Equation) (store : Store) : Except EquationError String :=
  match e.unknowns store with
  | [] => e.leastKnownMember store
  | [unknown] => .ok unknown
  | unknowns => .error ⟨e.name, .tooManyUnknown unknowns⟩

def chooseForm (e : Equation) (store : Store) : Except EquationError Form :=
  match e.target store with
  | .error error => .error error
  | .ok member => e.form member

end Equation

end Narrowing
