import Narrowing.Inputs
import Narrowing.Number.CubeRoot

/-!
Formulas: closed expressions over named inputs. They are written over any `Arithmetic`, so the
same formula is evaluated on doubles and read over an exact number field.
-/
namespace Narrowing

class Arithmetic (κ : Type) where
  ofNat : Nat → κ
  pi : κ
  neg : κ → κ
  abs : κ → κ
  squareRoot : κ → κ
  cubeRoot : κ → κ
  add : κ → κ → κ
  sub : κ → κ → κ
  mul : κ → κ → κ
  div : κ → κ → κ
  less : κ → κ → Bool

/-- Double arithmetic, each operation rounded to nearest on its own. -/
instance : Arithmetic Float where
  ofNat := Float.ofNat
  pi := 3.141592653589793
  neg := Float.neg
  abs := Float.abs
  squareRoot := Float.sqrt
  cubeRoot := cubeRoot
  add := Float.add
  sub := Float.sub
  mul := Float.mul
  div := Float.div
  less a b := decide (a < b)

inductive Formula (κ : Type) where
  | const (x : κ)
  | input (name : String)
  | neg (a : Formula κ)
  | abs (a : Formula κ)
  | squareRoot (a : Formula κ)
  | cubeRoot (a : Formula κ)
  | add (a b : Formula κ)
  | sub (a b : Formula κ)
  | mul (a b : Formula κ)
  | div (a b : Formula κ)
  | ifLess (a b below otherwise : Formula κ)

namespace Formula
variable {κ : Type}

instance : Add (Formula κ) := ⟨.add⟩
instance : Sub (Formula κ) := ⟨.sub⟩
instance : Mul (Formula κ) := ⟨.mul⟩
instance : Div (Formula κ) := ⟨.div⟩
instance : Neg (Formula κ) := ⟨.neg⟩

/-- A natural number as a formula, so that numerals can be written as they are. -/
instance [Arithmetic κ] (n : Nat) : OfNat (Formula κ) n := ⟨.const (Arithmetic.ofNat n)⟩

/-- Evaluates from left to right; the first unbound name read is the error. Of a conditional
    only the chosen branch is evaluated. -/
def eval [Arithmetic κ] (inputs : Inputs κ) : Formula κ → Except UnboundInput κ
  | .const x => .ok x
  | .input name => inputs.get name
  | .neg a => do return Arithmetic.neg (← a.eval inputs)
  | .abs a => do return Arithmetic.abs (← a.eval inputs)
  | .squareRoot a => do return Arithmetic.squareRoot (← a.eval inputs)
  | .cubeRoot a => do return Arithmetic.cubeRoot (← a.eval inputs)
  | .add a b => do return Arithmetic.add (← a.eval inputs) (← b.eval inputs)
  | .sub a b => do return Arithmetic.sub (← a.eval inputs) (← b.eval inputs)
  | .mul a b => do return Arithmetic.mul (← a.eval inputs) (← b.eval inputs)
  | .div a b => do return Arithmetic.div (← a.eval inputs) (← b.eval inputs)
  | .ifLess a b below otherwise => do
    let x ← a.eval inputs
    let y ← b.eval inputs
    if Arithmetic.less x y then below.eval inputs else otherwise.eval inputs

end Formula

end Narrowing
