import Narrowing.Interval

/-!
Values: what is known of a quantity, an exact number or an interval it lies in.
-/
namespace Narrowing

inductive Precision where
  | unconstrained
  | constrainedRange
  | finite
  deriving DecidableEq, Repr

def Precision.rank : Precision → Nat
  | .unconstrained => 0
  | .constrainedRange => 1
  | .finite => 2

inductive Value where
  | scalar (x : Float)
  | interval (range : Interval)
  deriving DecidableEq

namespace Value

def unconstrained : Value := .interval .unbounded

/-- Equality as numbers; a scalar never equals an interval, not even a single point. -/
instance : BEq Value where
  beq
    | .scalar x, .scalar y => x == y
    | .interval a, .interval b => a == b
    | _, _ => false

def ofEnds (lo hi : Float) : Except BoundsError Value := (Interval.ofEnds lo hi).map .interval

/-- Every scalar is finite in this sense, a NaN or an infinity too. -/
def precision : Value → Precision
  | .scalar _ => .finite
  | .interval range => if range.isUnbounded then .unconstrained else .constrainedRange

def width : Value → Float
  | .scalar _ => 0.0
  | .interval range => range.width

def bounds : Value → Bounds
  | .scalar x => ⟨x, x⟩
  | .interval range => range.toBounds

def scalar? : Value → Option Float
  | .scalar x => some x
  | .interval _ => none

def text : Value → String
  | .scalar x => numberText x
  | .interval range => range.text

/-- What a variable may hold: a scalar has to be a finite number. -/
def Storable : Value → Prop
  | .scalar x => x.isFinite = true
  | .interval _ => True

end Value

end Narrowing
