import Narrowing.Catalog
import Narrowing.SeedFile

/-!
Bulk properties of a spherical body. Two equations relate its radius, mass, mean density and
surface gravity, the last in multiples of standard gravity; all else is in base units, but a seed
file may give the radius in kilometres.
-/
namespace Narrowing.Planet
variable {κ : Type}

structure Constants (κ : Type) where
  gravitational : κ
  standardGravity : κ

def Constants.standard : Constants Float := ⟨6.67408e-11, 9.80665⟩

def square (a : Formula κ) : Formula κ := a * a

def cube (a : Formula κ) : Formula κ := a * (a * a)

def radius : Formula κ := .input "radius"

def mass : Formula κ := .input "mass"

def density : Formula κ := .input "density"

def gravity : Formula κ := .input "acc_g"

/- Every formula below is evaluated as it is bracketed; another bracketing may round otherwise. -/
section Formulas
variable [Arithmetic κ]

def pi : Formula κ := .const Arithmetic.pi

def densityOfSphere : Formula κ := mass / (4 / 3 * pi * cube radius)

def radiusOfSphere : Formula κ := .cubeRoot (mass / density * 3 / 4 / pi)

def massOfSphere : Formula κ := density * 4 / 3 * pi * cube radius

def gravityAtSurface (c : Constants κ) : Formula κ :=
  .const c.gravitational * mass / square radius / .const c.standardGravity

def massFromGravity (c : Constants κ) : Formula κ :=
  .const c.standardGravity * gravity * square radius / .const c.gravitational

def radiusFromGravity (c : Constants κ) : Formula κ :=
  .squareRoot (.const c.gravitational * mass / (gravity * .const c.standardGravity))

end Formulas

def sphericalDensity : Equation :=
  .ofFormulas "sphericalDensity" ["radius", "mass", "density"]
    [("density", densityOfSphere), ("radius", radiusOfSphere), ("mass", massOfSphere)]

def surfaceGravity (c : Constants Float) : Equation :=
  .ofFormulas "accelerationGsAtSurface" ["acc_g", "mass", "radius"]
    [("acc_g", gravityAtSurface c), ("mass", massFromGravity c), ("radius", radiusFromGravity c)]

def catalog (c : Constants Float) : Except CatalogError Catalog :=
  Catalog.ofList [sphericalDensity, surfaceGravity c]

def kilometre : Float := 1000.0

/-- A radius in kilometres becomes one in metres; every other seed stays as it is. -/
def toBaseUnits (seed : Seed) : Except LoadError Seed :=
  if seed.name = "radius" ∧ seed.unit = "km" then seed.rescale kilometre "m" else .ok seed

def load (text : String) : Except LoadError (List Seed) :=
  match SeedFile.load text with
  | .error error => .error error
  | .ok seeds => seeds.mapM toBaseUnits

end Narrowing.Planet
