import Narrowing.Proofs.Store.Seeding

/-!
Which lists of seeds give a store. They are those of distinct names whose numbers are finite; the
store then has one variable for each seed, and no other order of the seeds would give another. A
list that gives none is faulty from some seed on, and the error is that of the first such seed.
-/
namespace Narrowing

namespace Seed

def Takable (seed : Seed) : Prop := ∀ x, seed.value = some (.scalar x) → x.isFinite = true

/-- A variable that stands as its seed says. A seed without a value says as much as one whose value
    is the whole line. -/
structure Describes (seed : Seed) (v : Variable) : Prop where
  name : v.name = seed.name
  provenance : v.provenance = seed.provenance
  unit : v.unit = seed.unit
  value : v.value = seed.value.getD .unconstrained

inductive Fault (before : List Seed) (seed : Seed) : StoreError → Prop
  | number {x : Float} (value : seed.value = some (.scalar x)) (infinite : x.isFinite = false) :
      Fault before seed (.seed (.nonFinite seed.name x))
  | name (takable : seed.Takable) (taken : seed.name ∈ before.map Seed.name) :
      Fault before seed (.duplicate seed.name)

theorem takable_or_infinite (seed : Seed) :
    seed.Takable ∨ ∃ x, seed.value = some (.scalar x) ∧ x.isFinite = false := by
  by_cases takable : seed.Takable
  · exact Or.inl takable
  · right
    simpa [Takable] using takable

theorem Takable.storable {seed : Seed} {value : Value} (takable : seed.Takable)
    (said : seed.value = some value) : value.Storable := by
  cases value with
  | scalar x => exact takable x said
  | interval range => trivial

theorem toVariable_of_takable {seed : Seed} (takable : seed.Takable) :
    ∃ v, seed.toVariable = .ok v ∧ seed.Describes v := by
  cases said : seed.value with
  | none =>
    refine ⟨Variable.new seed.name seed.provenance seed.unit, ?_, rfl, rfl, rfl, ?_⟩
    · rw [toVariable, said]
    · rw [said]
      rfl
  | some value =>
    let v : Variable :=
      ⟨seed.name, seed.provenance, seed.unit, value, takable.storable said⟩
    have same : seed = v.toSeed := by
      rw [Variable.toSeed, ← said]
    refine ⟨v, ?_, rfl, rfl, rfl, ?_⟩
    · rw [same]
      exact v.toSeed_toVariable
    · rw [said]
      rfl

theorem exists_variables {seeds : List Seed} (takable : ∀ seed ∈ seeds, seed.Takable) :
    ∃ vs, List.Forall₂ (fun seed v => seed.toVariable = .ok v ∧ seed.Describes v) seeds vs := by
  induction seeds with
  | nil => exact ⟨[], .nil⟩
  | cons seed rest ih =>
    obtain ⟨first, later⟩ := List.forall_mem_cons.mp takable
    obtain ⟨v, stands⟩ := toVariable_of_takable first
    obtain ⟨vs, stand⟩ := ih later
    exact ⟨v :: vs, .cons stands stand⟩

theorem describes_names {seeds : List Seed} {vs : List Variable}
    (each : List.Forall₂ Describes seeds vs) : vs.map Variable.name = seeds.map Seed.name := by
  induction each with
  | nil => rfl
  | cons describes _ ih => rw [List.map_cons, List.map_cons, describes.name, ih]

theorem toVariable_of_infinite {seed : Seed} {x : Float} (value : seed.value = some (.scalar x))
    (infinite : x.isFinite = false) :
    seed.toVariable = .error (.nonFinite seed.name x) := by
  have refused : (Variable.new seed.name seed.provenance seed.unit).update (.scalar x) =
      .error (.nonFinite seed.name x) :=
    dif_neg (by rw [infinite]; decide)
  rw [toVariable, value]
  change ((Variable.new seed.name seed.provenance seed.unit).update (.scalar x)).map Prod.fst = _
  rw [refused]
  rfl

end Seed

structure Plantable (seeds : List Seed) : Prop where
  distinct : (seeds.map Seed.name).Nodup
  takable : ∀ seed ∈ seeds, seed.Takable

theorem Plantable.snoc {before : List Seed} {seed : Seed} (plantable : Plantable before)
    (takable : seed.Takable) (fresh : seed.name ∉ before.map Seed.name) :
    Plantable (before ++ [seed]) := by
  refine ⟨?_, ?_⟩
  · rw [List.map_append]
    refine plantable.distinct.append (List.nodup_singleton _) ?_
    exact List.disjoint_singleton.mpr fresh
  · intro s member
    rcases List.mem_append.mp member with old | new
    · exact plantable.takable s old
    · obtain rfl := List.mem_singleton.mp new
      exact takable

/-- Seeds can all be planted, or there is a first one that cannot. -/
theorem plantable_or_fault (seeds : List Seed) :
    Plantable seeds ∨ ∃ before seed after error, seeds = before ++ seed :: after ∧
      Plantable before ∧ seed.Fault before error := by
  induction seeds using List.reverseRecOn with
  | nil => exact Or.inl ⟨List.nodup_nil, by simp⟩
  | append_singleton earlier last ih =>
    rcases ih with plantable | ⟨before, seed, after, error, rfl, plantable, fault⟩
    · rcases last.takable_or_infinite with takable | ⟨x, value, infinite⟩
      · by_cases taken : last.name ∈ earlier.map Seed.name
        · exact Or.inr ⟨earlier, last, [], _, rfl, plantable, .name takable taken⟩
        · exact Or.inl (plantable.snoc takable taken)
      · exact Or.inr ⟨earlier, last, [], _, rfl, plantable, .number value infinite⟩
    · exact Or.inr ⟨before, seed, after ++ [last], error, by simp, plantable, fault⟩

namespace Store

/-- Seeds that can all be planted give a store of one variable for each, in whatever order. -/
theorem seeded_of_plantable {seeds : List Seed} (plantable : Plantable seeds) :
    ∃ s, seeded seeds = .ok s ∧
      (∃ vs, List.Forall₂ Seed.Describes seeds vs ∧ vs.Perm s.toList) ∧
      ∀ order : List Seed, order.Perm seeds → seeded order = .ok s := by
  obtain ⟨vs, each⟩ := Seed.exists_variables plantable.takable
  have stand := each.imp fun _ _ both => both.1
  have describe := each.imp fun _ _ both => both.2
  have distinct : (vs.map Variable.name).Nodup :=
    Seed.describes_names describe ▸ plantable.distinct
  obtain ⟨s, planted, held⟩ := plant_all (s := .empty) stand distinct fun _ _ => rfl
  have exactly : vs.Perm s.toList := by
    refine (List.perm_ext_iff_of_nodup distinct.of_map s.names_nodup.of_map).mpr fun v => ?_
    rw [held]
    simp [Store.empty, Roster.empty, toList]
  refine ⟨s, planted, ⟨vs, describe, exactly⟩, fun order perm => ?_⟩
  obtain ⟨ws, stand', perm'⟩ := List.perm_comp_forall₂ perm stand
  exact seeded_of_perm stand' (perm'.trans exactly)

theorem plant_fault {s : Store} {before : List Seed} {seed : Seed} {error : StoreError}
    (names : ∀ name ∈ before.map Seed.name, s.contains name = true)
    (fault : seed.Fault before error) : s.plant seed = .error error := by
  unfold plant
  cases fault with
  | number value infinite => rw [Seed.toVariable_of_infinite value infinite]
  | name takable taken =>
    obtain ⟨v, stands, describes⟩ := Seed.toVariable_of_takable takable
    rw [stands]
    simp only [add]
    rw [describes.name, names seed.name taken]
    rfl

theorem seeded_of_fault {before after : List Seed} {seed : Seed} {error : StoreError}
    (plantable : Plantable before) (fault : seed.Fault before error) :
    seeded (before ++ seed :: after) = .error error := by
  obtain ⟨s, planted, ⟨vs, describe, exactly⟩, _⟩ := seeded_of_plantable plantable
  have names : ∀ name ∈ before.map Seed.name, s.contains name = true := by
    intro name member
    rw [← Seed.describes_names describe] at member
    obtain ⟨v, described, rfl⟩ := List.mem_map.mp member
    exact (s.contains_iff v.name).mpr ⟨v, (s.mem_iff_find v).mp (exactly.mem_iff.mp described)⟩
  unfold seeded at planted ⊢
  rw [List.foldlM_append, planted]
  change (seed :: after).foldlM plant s = _
  rw [List.foldlM_cons, plant_fault names fault]
  rfl

theorem seeded_ok_iff (seeds : List Seed) : (∃ s, seeded seeds = .ok s) ↔ Plantable seeds := by
  constructor
  · rintro ⟨s, planted⟩
    rcases plantable_or_fault seeds with plantable | ⟨before, seed, after, error, rfl, sound, fault⟩
    · exact plantable
    · simp [seeded_of_fault sound fault] at planted
  · intro plantable
    obtain ⟨s, planted, _⟩ := seeded_of_plantable plantable
    exact ⟨s, planted⟩

theorem seeded_error_iff (seeds : List Seed) (error : StoreError) :
    seeded seeds = .error error ↔ ∃ before seed after, seeds = before ++ seed :: after ∧
      Plantable before ∧ seed.Fault before error := by
  constructor
  · intro failed
    rcases plantable_or_fault seeds with plantable | ⟨before, seed, after, e, rfl, sound, fault⟩
    · obtain ⟨s, planted, _⟩ := seeded_of_plantable plantable
      simp [planted] at failed
    · rw [seeded_of_fault sound fault] at failed
      obtain rfl := Except.error.inj failed
      exact ⟨before, seed, after, rfl, sound, fault⟩
  · rintro ⟨before, seed, after, rfl, sound, fault⟩
    exact seeded_of_fault sound fault

/-- Seeding succeeds exactly on seeds of distinct names and finite numbers. It then gives one
    variable for each seed, in whatever order the seeds come. Otherwise its error is that of the
    first seed at fault. -/
theorem seeded_exactly (seeds : List Seed) :
    ((∃ s, seeded seeds = .ok s) ↔ Plantable seeds) ∧
    (∀ s, seeded seeds = .ok s →
      (∃ vs, List.Forall₂ Seed.Describes seeds vs ∧ vs.Perm s.toList) ∧
      ∀ order : List Seed, order.Perm seeds → seeded order = .ok s) ∧
    ∀ error, seeded seeds = .error error ↔ ∃ before seed after, seeds = before ++ seed :: after ∧
      Plantable before ∧ seed.Fault before error := by
  refine ⟨seeded_ok_iff seeds, ?_, seeded_error_iff seeds⟩
  intro s reached
  obtain ⟨t, planted, exactly⟩ := seeded_of_plantable ((seeded_ok_iff seeds).mp ⟨s, reached⟩)
  obtain rfl := Except.ok.inj (planted.symm.trans reached)
  exact exactly

def circuitSeeds : List Seed :=
  [⟨"voltage", .declaredUnknown, "V", none⟩, ⟨"current", .assumed, "A", some .unconstrained⟩,
    ⟨"resistance", .given, "ohm", some (.scalar 470.0)⟩]

theorem circuit_seeded_exactly :
    (∃ s, seeded circuitSeeds = .ok s ∧ seeded circuitSeeds.reverse = .ok s) ∧
      seeded (circuitSeeds ++ [⟨"current", .given, "A", some (.scalar infinity)⟩]) =
        .error (.seed (.nonFinite "current" infinity)) := by
  have plantable : Plantable circuitSeeds := by
    refine ⟨by decide +kernel, fun seed member x said => ?_⟩
    simp only [circuitSeeds, List.mem_cons, List.not_mem_nil, or_false] at member
    rcases member with rfl | rfl | rfl
    · simp at said
    · simp [Value.unconstrained] at said
    · obtain rfl := Value.scalar.inj (Option.some.inj said)
      decide +kernel
  obtain ⟨s, planted⟩ := (seeded_exactly circuitSeeds).1.mpr plantable
  refine ⟨⟨s, planted, ?_⟩, ?_⟩
  · exact ((seeded_exactly circuitSeeds).2.1 s planted).2 _ (List.reverse_perm _)
  · exact ((seeded_exactly _).2.2 _).mpr ⟨circuitSeeds, _, [], rfl, plantable,
      .number rfl (by decide +kernel)⟩

end Store

end Narrowing
