import Narrowing.Solver.Event

/-!
Applying the evaluations of one cycle to the store, in the order given. The first scalar proposed
for a target settles it for the rest of the cycle; a later proposal for it must agree. The store
reached so far is kept when an update fails.
-/
namespace Narrowing

inductive SolveError where
  | equation (error : EquationError)
  | update (equation target : String) (cause : VariableError)
  | store (equation target : String) (cause : StoreError)
  deriving DecidableEq, Repr

namespace SolveError

def message : SolveError → String
  | .equation error => error.message
  | .update name target _ => "equation `" ++ name ++ "` failed to update `" ++ target ++ "`"
  | .store name target _ => "equation `" ++ name ++ "` failed to create `" ++ target ++ "`"

def causes : SolveError → List String
  | .equation error => error.causes
  | .update _ _ cause => [cause.message]
  | .store _ _ cause => cause.message :: cause.causes

end SolveError

structure Proposal where
  equation : String
  evaluation : Evaluation
  deriving DecidableEq

namespace Proposal

def target (p : Proposal) : String := p.evaluation.target

def value (p : Proposal) : Value := p.evaluation.value

def toUpdate (p : Proposal) (changed : Bool) : Update := ⟨p.equation, p.target, p.value, changed⟩

def derivedUnit : String := "unknown"

def ensureTarget (p : Proposal) (store : Store) : Except SolveError (Store × Bool) :=
  if store.contains p.target then .ok (store, false)
  else
    match store.add (.new p.target .derived derivedUnit) with
    | .ok extended => .ok (extended, true)
    | .error cause => .error (.store p.equation p.target cause)

/-- Checks a proposal for a settled target: its bounds have to hold the number it was settled at. -/
def confirm (p : Proposal) (store : Store) : Except SolveError Unit :=
  match store.get p.target with
  | .error cause => .error (.store p.equation p.target cause)
  | .ok v =>
    let current := v.value.bounds
    if p.value.bounds.Contains current.lo then .ok ()
    else
      .error (.update p.equation p.target
        (match p.value with
        | .scalar _ => .alreadyFinite p.target
        | .interval range => .disjoint p.target current range.toBounds))

end Proposal

structure Application (α : Type) where
  store : Store
  created : List (String × String)
  outcome : Except SolveError α

namespace Application

def one (store : Store) (p : Proposal) : Application Bool :=
  match p.ensureTarget store with
  | .error error => ⟨store, [], .error error⟩
  | .ok (extended, isNew) =>
    let created := if isNew then [(p.equation, p.target)] else []
    match extended.narrow p.target p.value with
    | .error (.access cause) => ⟨extended, created, .error (.store p.equation p.target cause)⟩
    | .error (.refusal cause) => ⟨extended, created, .error (.update p.equation p.target cause)⟩
    | .ok (narrowed, changed) => ⟨narrowed, created, .ok changed⟩

/-- Applies proposals in order, `settled` being the targets that already have a scalar. -/
def all (settled : List String) (store : Store) : List Proposal → Application (List Update)
  | [] => ⟨store, [], .ok []⟩
  | p :: rest =>
    if p.target ∈ settled then
      match p.confirm store with
      | .error error => ⟨store, [], .error error⟩
      | .ok () =>
        let later := all settled store rest
        ⟨later.store, later.created, later.outcome.map (p.toUpdate false :: ·)⟩
    else
      let now := one store p
      match now.outcome with
      | .error error => ⟨now.store, now.created, .error error⟩
      | .ok changed =>
        let settled' := if p.value.precision = .finite then p.target :: settled else settled
        let later := all settled' now.store rest
        ⟨later.store, now.created ++ later.created,
          later.outcome.map (p.toUpdate changed :: ·)⟩

end Application

def applyAll (store : Store) (proposals : List Proposal) : Application (List Update) :=
  Application.all [] store proposals

end Narrowing
