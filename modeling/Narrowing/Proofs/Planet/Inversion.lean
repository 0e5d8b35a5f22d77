import Narrowing.Planet
import Narrowing.Proofs.Formula.Exact
import Narrowing.Proofs.Formula.Scheme

/-!
The forms of the planetary equations. Read over the real numbers, the three forms of spherical
density solve one law, that mass is density times volume, and the three forms of surface gravity
solve another, the balance of the body's pull and gravity at its surface.
-/
namespace Narrowing.Planet
variable {κ : Type} [Arithmetic κ]

def sphere : Scheme κ where
  name := "sphericalDensity"
  members := ["radius", "mass", "density"]
  forms := [("density", densityOfSphere), ("radius", radiusOfSphere), ("mass", massOfSphere)]

def surface (c : Constants κ) : Scheme κ where
  name := "accelerationGsAtSurface"
  members := ["acc_g", "mass", "radius"]
  forms := [("acc_g", gravityAtSurface c), ("mass", massFromGravity c),
    ("radius", radiusFromGravity c)]

theorem sphericalDensity_eq : sphericalDensity = sphere.equation := rfl

theorem surfaceGravity_eq (c : Constants Float) : surfaceGravity c = (surface c).equation := rfl

def SphereLaw (pi : ℝ) (p : String → ℝ) : Prop :=
  p "mass" = p "density" * (4 / 3 * pi * p "radius" ^ 3)

/-- At the surface, gravity times the square of the radius is the pull of the mass. -/
def SurfaceLaw (c : Constants ℝ) (p : String → ℝ) : Prop :=
  p "acc_g" * c.standardGravity * p "radius" ^ 2 = c.gravitational * p "mass"

noncomputable def spherePowers {pi : ℝ} (circle : 0 < pi) : PowerLaw where
  members := ["radius", "mass", "density"]
  power m := if m = "radius" then 3 else if m = "mass" then -1 else 1
  constant := 3 / (4 * pi)
  distinct := by decide
  effective := by simp
  positive := by positivity

noncomputable def surfacePowers {c : Constants ℝ} (gravitational : 0 < c.gravitational)
    (standard : 0 < c.standardGravity) : PowerLaw where
  members := ["acc_g", "mass", "radius"]
  power m := if m = "radius" then 2 else if m = "mass" then -1 else 1
  constant := c.gravitational / c.standardGravity
  distinct := by decide
  effective := by simp
  positive := by positivity

theorem spherePowers_holds_iff {pi : ℝ} (circle : 0 < pi) {p : String → ℝ}
    (positive : p ∈ positivePoints ["radius", "mass", "density"]) :
    (spherePowers circle).Holds p ↔ SphereLaw pi p := by
  have mass : 0 < p "mass" := positive _ (by simp)
  have product : (spherePowers circle).product ["radius", "mass", "density"] p =
      p "radius" ^ 3 * p "density" / p "mass" := by
    change p "radius" ^ (3 : ℝ) * (p "mass" ^ (-1 : ℝ) * (p "density" ^ (1 : ℝ) * 1)) = _
    rw [Real.rpow_ofNat, Real.rpow_neg_one, Real.rpow_one]
    ring
  change (spherePowers circle).product ["radius", "mass", "density"] p = 3 / (4 * pi) ↔ _
  rw [product, SphereLaw]
  field_simp
  exact eq_comm

theorem surfacePowers_holds_iff {c : Constants ℝ} (gravitational : 0 < c.gravitational)
    (standard : 0 < c.standardGravity) {p : String → ℝ}
    (positive : p ∈ positivePoints ["acc_g", "mass", "radius"]) :
    (surfacePowers gravitational standard).Holds p ↔ SurfaceLaw c p := by
  have mass : 0 < p "mass" := positive _ (by simp)
  have product : (surfacePowers gravitational standard).product ["acc_g", "mass", "radius"] p =
      p "acc_g" * p "radius" ^ 2 / p "mass" := by
    change p "acc_g" ^ (1 : ℝ) * (p "mass" ^ (-1 : ℝ) * (p "radius" ^ (2 : ℝ) * 1)) = _
    rw [Real.rpow_ofNat, Real.rpow_neg_one, Real.rpow_one]
    ring
  change (surfacePowers gravitational standard).product ["acc_g", "mass", "radius"] p =
    c.gravitational / c.standardGravity ↔ _
  rw [product, SurfaceLaw]
  field_simp

section
variable {pi : ℝ} (circle : 0 < pi)
include circle

theorem densityOfSphere_fulfils : letI := exactArithmetic pi
    sphere.Fulfils ("density", densityOfSphere) (SphereLaw pi) := by
  intro p positive
  have radius : 0 < p "radius" := positive _ (by simp [Scheme.inputs, sphere])
  have mass : 0 < p "mass" := positive _ (by simp [Scheme.inputs, sphere])
  refine ⟨p "mass" / (4 / 3 * pi * p "radius" ^ 3), ?_, by positivity, ?_⟩
  · change Except.ok (p "mass" /
      ((4 : ℕ) / (3 : ℕ) * pi * (p "radius" * (p "radius" * p "radius")))) = _
    push_cast
    ring_nf
  · change p "mass" = p "mass" / (4 / 3 * pi * p "radius" ^ 3) * (4 / 3 * pi * p "radius" ^ 3)
    field_simp

theorem radiusOfSphere_fulfils : letI := exactArithmetic pi
    sphere.Fulfils ("radius", radiusOfSphere) (SphereLaw pi) := by
  intro p positive
  have density : 0 < p "density" := positive _ (by simp [Scheme.inputs, sphere])
  have mass : 0 < p "mass" := positive _ (by simp [Scheme.inputs, sphere])
  have cube : 0 < p "mass" / p "density" * 3 / 4 / pi := by positivity
  refine ⟨exactCubeRoot (p "mass" / p "density" * 3 / 4 / pi), ?_, exactCubeRoot_pos cube, ?_⟩
  · change Except.ok (exactCubeRoot (p "mass" / p "density" * (3 : ℕ) / (4 : ℕ) / pi)) = _
    push_cast
    rfl
  · change p "mass" = p "density" *
      (4 / 3 * pi * exactCubeRoot (p "mass" / p "density" * 3 / 4 / pi) ^ 3)
    rw [exactCubeRoot_cubed]
    field_simp

theorem massOfSphere_fulfils : letI := exactArithmetic pi
    sphere.Fulfils ("mass", massOfSphere) (SphereLaw pi) := by
  intro p positive
  have radius : 0 < p "radius" := positive _ (by simp [Scheme.inputs, sphere])
  have density : 0 < p "density" := positive _ (by simp [Scheme.inputs, sphere])
  refine ⟨p "density" * (4 / 3 * pi * p "radius" ^ 3), ?_, by positivity, rfl⟩
  change Except.ok (p "density" * (4 : ℕ) / (3 : ℕ) * pi *
    (p "radius" * (p "radius" * p "radius"))) = _
  push_cast
  ring_nf

end

section
variable {c : Constants ℝ} (gravitational : 0 < c.gravitational) (standard : 0 < c.standardGravity)
  (pi : ℝ)
include gravitational standard

theorem gravityAtSurface_fulfils : letI := exactArithmetic pi
    (surface c).Fulfils ("acc_g", gravityAtSurface c) (SurfaceLaw c) := by
  intro p positive
  have radius : 0 < p "radius" := positive _ (by simp [Scheme.inputs, surface])
  have mass : 0 < p "mass" := positive _ (by simp [Scheme.inputs, surface])
  refine ⟨c.gravitational * p "mass" / p "radius" ^ 2 / c.standardGravity, ?_, by positivity, ?_⟩
  · change Except.ok (c.gravitational * p "mass" / (p "radius" * p "radius") /
      c.standardGravity) = _
    ring_nf
  · change c.gravitational * p "mass" / p "radius" ^ 2 / c.standardGravity * c.standardGravity *
      p "radius" ^ 2 = c.gravitational * p "mass"
    field_simp

theorem massFromGravity_fulfils : letI := exactArithmetic pi
    (surface c).Fulfils ("mass", massFromGravity c) (SurfaceLaw c) := by
  intro p positive
  have radius : 0 < p "radius" := positive _ (by simp [Scheme.inputs, surface])
  have gravity : 0 < p "acc_g" := positive _ (by simp [Scheme.inputs, surface])
  refine ⟨c.standardGravity * p "acc_g" * p "radius" ^ 2 / c.gravitational, ?_, by positivity, ?_⟩
  · change Except.ok (c.standardGravity * p "acc_g" * (p "radius" * p "radius") /
      c.gravitational) = _
    ring_nf
  · change p "acc_g" * c.standardGravity * p "radius" ^ 2 = c.gravitational *
      (c.standardGravity * p "acc_g" * p "radius" ^ 2 / c.gravitational)
    field_simp

theorem radiusFromGravity_fulfils : letI := exactArithmetic pi
    (surface c).Fulfils ("radius", radiusFromGravity c) (SurfaceLaw c) := by
  intro p positive
  have gravity : 0 < p "acc_g" := positive _ (by simp [Scheme.inputs, surface])
  have mass : 0 < p "mass" := positive _ (by simp [Scheme.inputs, surface])
  have square : 0 < c.gravitational * p "mass" / (p "acc_g" * c.standardGravity) := by positivity
  refine ⟨√(c.gravitational * p "mass" / (p "acc_g" * c.standardGravity)), rfl,
    Real.sqrt_pos.mpr square, ?_⟩
  change p "acc_g" * c.standardGravity *
    √(c.gravitational * p "mass" / (p "acc_g" * c.standardGravity)) ^ 2 =
      c.gravitational * p "mass"
  rw [Real.sq_sqrt square.le]
  field_simp

end

theorem sphere_inverts {pi : ℝ} (circle : 0 < pi) : letI := exactArithmetic pi
    sphere.Inverts (SphereLaw pi) := by
  refine @Scheme.inverts_of_fulfils (exactArithmetic pi) _ (spherePowers circle) _ rfl
    (fun p => spherePowers_holds_iff circle) ?_ ?_
  · change ["density", "radius", "mass"].Perm ["radius", "mass", "density"]
    decide
  · intro form listed
    rcases List.mem_cons.mp listed with rfl | listed
    · exact densityOfSphere_fulfils circle
    rcases List.mem_cons.mp listed with rfl | listed
    · exact radiusOfSphere_fulfils circle
    obtain rfl := List.mem_singleton.mp listed
    exact massOfSphere_fulfils circle

theorem surface_inverts (pi : ℝ) {c : Constants ℝ} (gravitational : 0 < c.gravitational)
    (standard : 0 < c.standardGravity) : letI := exactArithmetic pi
    (surface c).Inverts (SurfaceLaw c) := by
  refine @Scheme.inverts_of_fulfils (exactArithmetic pi) _ (surfacePowers gravitational standard) _
    rfl (fun p => surfacePowers_holds_iff gravitational standard) ?_ ?_
  · change ["acc_g", "mass", "radius"].Perm ["acc_g", "mass", "radius"]
    rfl
  · intro form listed
    rcases List.mem_cons.mp listed with rfl | listed
    · exact gravityAtSurface_fulfils gravitational standard pi
    rcases List.mem_cons.mp listed with rfl | listed
    · exact massFromGravity_fulfils gravitational standard pi
    obtain rfl := List.mem_singleton.mp listed
    exact radiusFromGravity_fulfils gravitational standard pi

/-- The forms of spherical density invert its law, and those of surface gravity invert theirs,
    whatever the constants are and whatever number stands for pi. -/
theorem forms_invert_laws (pi : ℝ) (circle : 0 < pi) (c : Constants ℝ)
    (gravitational : 0 < c.gravitational) (standard : 0 < c.standardGravity) :
    letI := exactArithmetic pi
    (sphericalDensity = sphere.equation ∧ sphere.Inverts (SphereLaw pi)) ∧
    (∀ constants, surfaceGravity constants = (surface constants).equation) ∧
    (surface c).Inverts (SurfaceLaw c) :=
  ⟨⟨sphericalDensity_eq, sphere_inverts circle⟩, surfaceGravity_eq,
    surface_inverts pi gravitational standard⟩

noncomputable def Constants.exact : Constants ℝ := ⟨6.67408e-11, 9.80665⟩

noncomputable def smallSphere (member : String) : ℝ :=
  if member = "radius" then 2 else if member = "density" then 3 else 32 * Real.pi

theorem smallSphere_inverted :
    letI := exactArithmetic Real.pi
    0 < Real.pi ∧ 0 < Constants.exact.gravitational ∧ 0 < Constants.exact.standardGravity ∧
    (∀ form ∈ sphere.forms, sphere.Solves form smallSphere) ∧
    (∃ outputs lo hi,
      sphere.ExactOn ("density", densityOfSphere) (fun _ => [1, 2]) outputs lo hi) ∧
    ∃ outputs lo hi, (surface Constants.exact).ExactOn
      ("radius", radiusFromGravity Constants.exact) (fun _ => [1, 2]) outputs lo hi := by
  let arithmetic := exactArithmetic Real.pi
  have gravitational : 0 < Constants.exact.gravitational := by norm_num [Constants.exact]
  have standard : 0 < Constants.exact.standardGravity := by norm_num [Constants.exact]
  obtain ⟨⟨_, density⟩, _, pull⟩ :=
    forms_invert_laws Real.pi Real.pi_pos Constants.exact gravitational standard
  have positive : smallSphere ∈ positivePoints ["radius", "mass", "density"] := by
    intro m _
    unfold smallSphere
    split_ifs
    · norm_num
    · norm_num
    · exact mul_pos (by norm_num) Real.pi_pos
  have law : SphereLaw Real.pi smallSphere := by
    have volume : 32 * Real.pi = 3 * (4 / 3 * Real.pi * 2 ^ 3) := by ring
    simpa [SphereLaw, smallSphere] using volume
  refine ⟨Real.pi_pos, gravitational, standard, fun form listed => ?_, ?_, ?_⟩
  · have statements := density.equivalent smallSphere positive
    exact (statements _ List.mem_cons_self _
      (List.mem_cons_of_mem _ (List.mem_map_of_mem listed))).mp law
  · exact density.exact _ List.mem_cons_self _ (by simp)
  · exact pull.exact _ (by simp [surface]) _ (by simp)

end Narrowing.Planet
