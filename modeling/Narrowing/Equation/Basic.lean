import Narrowing.Formula
import Narrowing.Store
import Narrowing.Text.Quoted

/-!
Equations: a name, the members it relates, and forms that compute one member from the others.
`Equation.fault?` tells whether every member has exactly one form and every form a member.
-/
namespace Narrowing
open Text

/-- A function that computes its target from the other members. It is taken as a pure
    function of its inputs: a rule that keeps state between its calls, and so may answer otherwise
    the next time, is not covered. -/
structure Form where
  target : String
  rule : Inputs Float → Except UnboundInput Float

def Form.text (f : Form) : String := "Form \x7b target: " ++ quoted f.target ++ ", .. \x7d"

inductive EquationFault where
  | noMembers
  | duplicateMember (member : String)
  | missingForm (member : String)
  | strayForm (member : String)
  | tooManyUnknown (unknowns : List String)
  | targetFinite (member : String)
  | unconstrainedInput (member : String)
  | unbound (target : String) (cause : UnboundInput)
  | nonFinite (target : String)
  | store (cause : StoreError)
  deriving DecidableEq, Repr

structure EquationError where
  equation : String
  fault : EquationFault
  deriving DecidableEq, Repr

namespace EquationFault

def predicate : EquationFault → String
  | .noMembers => "has no members"
  | .duplicateMember member => "lists member `" ++ member ++ "` more than once"
  | .missingForm member => "has no form for member `" ++ member ++ "`"
  | .strayForm member => "has a form for `" ++ member ++ "`, which is not a member"
  | .tooManyUnknown unknowns => "has more than one unknown member: " ++ quotedList unknowns
  | .targetFinite member => "selected `" ++ member ++ "` as its target, but it is already finite"
  | .unconstrainedInput member => "cannot evaluate with unconstrained input `" ++ member ++ "`"
  | .unbound target _ => "failed to evaluate its form for `" ++ target ++ "`"
  | .nonFinite target => "produced a non-finite value for `" ++ target ++ "`"
  | .store _ => "failed to read the store"

def causes : EquationFault → List String
  | .unbound _ cause => [cause.message]
  | .store cause => cause.message :: cause.causes
  | _ => []

end EquationFault

namespace EquationError

def message (e : EquationError) : String := "equation `" ++ e.equation ++ "` " ++ e.fault.predicate

def causes (e : EquationError) : List String := e.fault.causes

end EquationError

structure Equation where
  name : String
  members : List String
  forms : Roster Form Form.target

namespace Equation

def new (name : String) (members : List String) : Equation := ⟨name, members, .empty⟩

def withForm (e : Equation) (member : String) (rule : Inputs Float → Except UnboundInput Float) :
    Equation :=
  { e with forms := e.forms.put ⟨member, rule⟩ }

def ofFormulas (name : String) (members : List String) (forms : List (String × Formula Float)) :
    Equation :=
  forms.foldl (fun e f => e.withForm f.1 fun inputs => f.2.eval inputs) (.new name members)

def text (e : Equation) : String :=
  "Equation \x7b name: " ++ quoted e.name ++ ", members: " ++ quotedList e.members
    ++ ", forms: " ++ quotedList e.forms.keys ++ " \x7d"

def memberFault? (e : Equation) (seen : List String) : List String → Option EquationFault
  | [] => none
  | member :: rest =>
    if member ∈ seen then some (.duplicateMember member)
    else if !e.forms.contains member then some (.missingForm member)
    else e.memberFault? (member :: seen) rest

/-- The defect of an equation, if it has one: no members at all, then the first faulty member,
    then the least form that belongs to no member. -/
def fault? (e : Equation) : Option EquationFault :=
  if e.members = [] then some .noMembers
  else
    match e.memberFault? [] e.members with
    | some fault => some fault
    | none => (e.forms.keys.find? fun member => member ∉ e.members).map .strayForm

def validate (e : Equation) : Except EquationError Unit :=
  match e.fault? with
  | none => .ok ()
  | some fault => .error ⟨e.name, fault⟩

def form (e : Equation) (member : String) : Except EquationError Form :=
  match e.forms.find? member with
  | some f => .ok f
  | none => .error ⟨e.name, .missingForm member⟩

end Equation

end Narrowing
