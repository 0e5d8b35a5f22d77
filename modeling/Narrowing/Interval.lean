import Narrowing.Decimal.Shortest

/-!
Closed intervals of doubles. `Bounds` is a bare pair of ends; an `Interval` carries the fact
`lo ≤ hi`, which also rules out a NaN end. Either end may be infinite.
-/
namespace Narrowing

structure Bounds where
  lo : Float
  hi : Float
  deriving DecidableEq, Repr

namespace Bounds

def Contains (b : Bounds) (x : Float) : Prop := b.lo ≤ x ∧ x ≤ b.hi

instance (b : Bounds) (x : Float) : Decidable (b.Contains x) :=
  inferInstanceAs (Decidable (b.lo ≤ x ∧ x ≤ b.hi))

/-- Equality of the ends as numbers: the two zeros are equal and a NaN equals nothing. -/
instance : BEq Bounds := ⟨fun a b => a.lo == b.lo && a.hi == b.hi⟩

def text (b : Bounds) : String := "[" ++ numberText b.lo ++ ", " ++ numberText b.hi ++ "]"

end Bounds

structure Interval extends Bounds where
  lo_le_hi : lo ≤ hi
  deriving DecidableEq

inductive BoundsError where
  | nanBound
  | inverted (lo hi : Float)
  deriving DecidableEq, Repr

def BoundsError.message : BoundsError → String
  | .nanBound => "interval bound is NaN"
  | .inverted lo hi =>
    "interval is inverted: lo = " ++ numberText lo ++ " > hi = " ++ numberText hi

namespace Interval

instance : BEq Interval := ⟨fun a b => a.toBounds == b.toBounds⟩

/-- The interval between two ends. A NaN end is reported before an inverted order. -/
def ofEnds (lo hi : Float) : Except BoundsError Interval :=
  if lo.isNaN || hi.isNaN then .error .nanBound
  else if h : lo ≤ hi then .ok ⟨⟨lo, hi⟩, h⟩
  else .error (.inverted lo hi)

def unbounded : Interval := ⟨⟨-infinity, infinity⟩, by decide +kernel⟩

def isUnbounded (a : Interval) : Bool := a.lo == -infinity && a.hi == infinity

/-- The distance between the ends: infinite for a half line, NaN for a single infinity. -/
def width (a : Interval) : Float := (a.hi - a.lo).abs

def intersect? (a b : Interval) : Option Interval :=
  if h : max a.lo b.lo ≤ min a.hi b.hi then some ⟨⟨max a.lo b.lo, min a.hi b.hi⟩, h⟩ else none

end Interval

end Narrowing
