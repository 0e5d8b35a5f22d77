/-!
The limit of a run: how many cycles it may enter, at least one.
-/
namespace Narrowing

structure Limit where
  maxCycles : Nat
  positive : 0 < maxCycles
  deriving DecidableEq

inductive LimitError where
  | zeroCycles
  deriving DecidableEq, Repr

def LimitError.message : LimitError → String
  | .zeroCycles => "max_cycles must be at least 1"

namespace Limit

def ofNat (maxCycles : Nat) : Except LimitError Limit :=
  if positive : 0 < maxCycles then .ok ⟨maxCycles, positive⟩ else .error .zeroCycles

def standard : Limit := ⟨10, by decide⟩

end Limit

end Narrowing
