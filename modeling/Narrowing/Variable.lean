import Narrowing.Value

/-!
Variables: named quantities that start unconstrained and change only through `Variable.update`.
-/
namespace Narrowing

/-- Where a variable's value came from. It is carried along and never affects solving. -/
inductive Provenance where
  | given
  | derived
  | assumed
  | declaredUnknown
  deriving DecidableEq, Repr

inductive VariableError where
  | alreadyFinite (name : String)
  | unconstrained (name : String)
  | nonFinite (name : String) (value : Float)
  | disjoint (name : String) (current proposed : Bounds)
  deriving DecidableEq, Repr

def VariableError.message : VariableError → String
  | .alreadyFinite name => "variable `" ++ name ++ "` is already finite and cannot be updated"
  | .unconstrained name =>
    "variable `" ++ name ++ "` cannot be updated with an unconstrained value"
  | .nonFinite name value =>
    "variable `" ++ name ++ "` cannot take the non-finite value " ++ numberText value
  | .disjoint name current proposed =>
    "variable `" ++ name ++ "` has range " ++ current.text ++ " which does not overlap "
      ++ proposed.text

structure Variable where
  name : String
  provenance : Provenance
  unit : String
  value : Value
  storable : value.Storable

namespace Variable

def new (name : String) (provenance : Provenance) (unit : String) : Variable :=
  ⟨name, provenance, unit, .unconstrained, trivial⟩

def precision (v : Variable) : Precision := v.value.precision

def withValue (v : Variable) (value : Value) (storable : value.Storable) : Variable :=
  ⟨v.name, v.provenance, v.unit, value, storable⟩

/-- Narrows a variable and says whether it changed. A finite variable takes nothing. An interval
    is intersected with what is known, and counts as a change when an end moved. A finite number
    replaces whatever interval was known, and always counts as a change. -/
def update (v : Variable) (proposed : Value) : Except VariableError (Variable × Bool) :=
  match v.value, proposed with
  | .scalar _, _ => .error (.alreadyFinite v.name)
  | .interval current, .interval range =>
    if range.isUnbounded then .error (.unconstrained v.name)
    else
      match current.intersect? range with
      | none => .error (.disjoint v.name current.toBounds range.toBounds)
      | some narrowed => .ok (v.withValue (.interval narrowed) trivial, narrowed != current)
  | .interval _, .scalar x =>
    if finite : x.isFinite = true then .ok (v.withValue (.scalar x) finite, true)
    else .error (.nonFinite v.name x)

end Variable

end Narrowing
