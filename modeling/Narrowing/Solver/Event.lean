import Narrowing.Equation.Corner

/-!
What a run reports: its events, the observer that receives them, and the solution at the end.
-/
namespace Narrowing

/-- One applied evaluation. The value is the one proposed, before it was narrowed. -/
structure Update where
  equation : String
  target : String
  value : Value
  changed : Bool
  deriving DecidableEq

/-- What happens in a cycle, in order: it starts, each viable equation is evaluated on the store
    as it stood then, and it completes once every update has been applied. -/
inductive Event where
  | cycleStarted (cycle : Nat) (viable : List String)
  | evaluated (cycle : Nat) (equation : String) (evaluation : Evaluation)
  | cycleCompleted (cycle : Nat) (updates : List Update) (excluded : Names) (store : Store)

def Event.cycle : Event → Nat
  | .cycleStarted cycle _ => cycle
  | .evaluated cycle _ _ => cycle
  | .cycleCompleted cycle _ _ _ => cycle

inductive Action where
  | proceed
  | stop
  deriving DecidableEq, Repr

structure Observer (σ : Type) where
  react : σ → Event → Action × σ

def Observer.silent : Observer Unit := ⟨fun _ _ => (.proceed, ())⟩

inductive Status where
  | convergedEmpty
  | convergedStable
  | capReached
  | stoppedByObserver
  deriving DecidableEq, Repr

def Status.text : Status → String
  | .convergedEmpty => "ConvergedEmpty"
  | .convergedStable => "ConvergedStable"
  | .capReached => "CapReached"
  | .stoppedByObserver => "StoppedByObserver"

structure Solution where
  status : Status
  cycles : Nat
  changes : Nat
  excluded : Names

end Narrowing
