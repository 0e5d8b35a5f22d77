import Narrowing.Planet
import Narrowing.Proofs.Equation.Choice
import Narrowing.Proofs.SeedFile.Rescaling

/-!
Seeds of a planet. Taking the radii from kilometres to metres never fails, whatever the file says of
them, so a file is refused only if it is no seed file.
-/
namespace Narrowing.Planet

def InKilometres (seed : Seed) : Prop := seed.name = "radius" ∧ seed.unit = "km"

structure Converted (seed loaded : Seed) : Prop where
  name : loaded.name = seed.name
  provenance : loaded.provenance = seed.provenance
  radius : InKilometres seed → loaded.unit = "m" ∧ Scaled 1000.0 seed.value loaded.value
  other : ¬ InKilometres seed → loaded = seed

theorem kilometre_spoils_nothing (seed : Seed) : ¬ seed.Spoiled kilometre := by
  have nonzero : (kilometre == 0.0) = false := by decide +kernel
  have bounded : kilometre.isInf = false := by decide +kernel
  rintro ⟨range, _, spoiled⟩
  simp [Spoiled, nonzero, bounded] at spoiled

theorem toBaseUnits_converts (seed : Seed) :
    ∃ loaded, toBaseUnits seed = .ok loaded ∧ Converted seed loaded := by
  by_cases radius : InKilometres seed
  · have nonnegative : (0.0 : Float) ≤ kilometre := by decide +kernel
    obtain ⟨loaded, ok, name, provenance, unit, scaled⟩ :=
      (seed.rescale_exactly "m" nonnegative).2 (kilometre_spoils_nothing seed)
    exact ⟨loaded, (if_pos radius).trans ok, name, provenance, fun _ => ⟨unit, scaled⟩,
      fun other => absurd radius other⟩
  · exact ⟨seed, if_neg radius, rfl, rfl, fun other => absurd other radius, fun _ => rfl⟩

theorem mapM_toBaseUnits (seeds : List Seed) :
    ∃ loaded, seeds.mapM toBaseUnits = .ok loaded ∧ List.Forall₂ Converted seeds loaded := by
  induction seeds with
  | nil => exact ⟨[], rfl, .nil⟩
  | cons seed rest ih =>
    obtain ⟨first, ok, converted⟩ := toBaseUnits_converts seed
    obtain ⟨later, collected, matched⟩ := ih
    exact ⟨first :: later, (mapM_cons_ok_iff seed rest _).mpr ⟨first, later, ok, collected, rfl⟩,
      .cons converted matched⟩

theorem seedFile_error {text : String} {error : LoadError}
    (failed : SeedFile.load text = .error error) : error = .parse := by
  unfold SeedFile.load at failed
  split at failed
  · cases failed
  · cases failed
    rfl

/-- A file fails to load exactly if it is no seed file, and every seed of one that loads is
    converted in its place. -/
theorem load_converts (text : String) :
    (∀ error, load text = .error error ↔ SeedFile.load text = .error error ∧ error = .parse) ∧
    (∀ seeds, SeedFile.load text = .ok seeds →
      ∃ loaded, load text = .ok loaded ∧ List.Forall₂ Converted seeds loaded) := by
  unfold load
  cases file : SeedFile.load text with
  | error cause =>
    obtain rfl := seedFile_error file
    constructor
    · intro error
      simp [eq_comm]
    · intro seeds ok
      cases ok
  | ok seeds =>
    obtain ⟨loaded, collected, matched⟩ := mapM_toBaseUnits seeds
    constructor
    · intro error
      simp [collected]
    · intro same ok
      cases ok
      exact ⟨loaded, collected, matched⟩

end Narrowing.Planet
