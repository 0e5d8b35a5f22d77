import Narrowing.Proofs.Number.Infinities
import Narrowing.Proofs.Store.Lookup
import Narrowing.Proofs.Variable.History
import Narrowing.SeedFile

/-!
Seeding. A store is known by the variables it holds. Seeds that stand for variables of distinct
names give the store of exactly these variables, in whatever order they come, and the seed that is
made from a variable stands for that variable.
-/
namespace Narrowing

namespace Store

theorem eq_of_mem_iff {s t : Store} (same : ∀ v, v ∈ s.toList ↔ v ∈ t.toList) : s = t := by
  rcases s with ⟨r⟩
  rcases t with ⟨r'⟩
  obtain rfl : r = r' := Roster.eq_of_mem_iff same
  rfl

theorem mem_put_iff {s : Store} {v : Variable} (missing : s.find? v.name = none) (w : Variable) :
    w ∈ Store.toList ⟨s.roster.put v⟩ ↔ w ∈ s.toList ∨ w = v :=
  Roster.mem_put_iff missing w

theorem add_of_missing {s : Store} {v : Variable} (missing : s.find? v.name = none) :
    s.add v = .ok ⟨s.roster.put v⟩ := by
  unfold add
  rw [(s.missing_iff v.name).mpr missing]
  rfl

theorem plant_all {seeds : List Seed} {vs : List Variable}
    (each : List.Forall₂ (fun seed v => seed.toVariable = .ok v) seeds vs)
    (distinct : (vs.map Variable.name).Nodup) {s : Store}
    (fresh : ∀ v ∈ vs, s.find? v.name = none) :
    ∃ t, seeds.foldlM plant s = .ok t ∧ ∀ w, w ∈ t.toList ↔ w ∈ s.toList ∨ w ∈ vs := by
  induction each generalizing s with
  | nil => exact ⟨s, rfl, by simp⟩
  | @cons seed v seeds vs stands _ ih =>
    obtain ⟨first, later⟩ := List.forall_mem_cons.mp fresh
    obtain ⟨unlike, distinct⟩ := List.nodup_cons.mp distinct
    have stillFresh : ∀ w ∈ vs, Store.find? ⟨s.roster.put v⟩ w.name = none := by
      intro w member
      have other : v.name ≠ w.name := by
        intro same
        exact unlike (same ▸ List.mem_map_of_mem member)
      rw [find_put, if_neg other]
      exact later w member
    obtain ⟨t, planted, held⟩ := ih distinct stillFresh
    have now : s.plant seed = .ok ⟨s.roster.put v⟩ := by
      unfold plant
      rw [stands]
      exact add_of_missing first
    refine ⟨t, ?_, fun w => ?_⟩
    · rw [List.foldlM_cons, now]
      exact planted
    · rw [held, mem_put_iff first, List.mem_cons, or_assoc]

/-- A store is seeded by seeds that stand for its variables, in any order. -/
theorem seeded_of_perm {s : Store} {seeds : List Seed} {vs : List Variable}
    (each : List.Forall₂ (fun seed v => seed.toVariable = .ok v) seeds vs)
    (order : vs.Perm s.toList) : seeded seeds = .ok s := by
  have distinct := (order.map Variable.name).nodup_iff.mpr s.names_nodup
  obtain ⟨t, planted, held⟩ := plant_all (s := .empty) each distinct fun _ _ => rfl
  have same : t = s := by
    refine eq_of_mem_iff fun w => (held w).trans ?_
    simp [Store.empty, Roster.empty, toList, order.mem_iff]
  rw [← same]
  exact planted

end Store

namespace Interval

theorem unbounded_of_isUnbounded {range : Interval} (whole : range.isUnbounded = true) :
    range = unbounded := by
  obtain ⟨lower, upper⟩ := Bool.and_eq_true_iff.mp whole
  rcases range with ⟨⟨lo, hi⟩, order⟩
  obtain rfl : lo = -infinity := eq_neg_infinity_of_le ((number_beq_iff _ _).mp lower).1
  obtain rfl : hi = infinity := eq_infinity_of_le ((number_beq_iff _ _).mp upper).2
  rfl

/-- The whole line takes nothing from an interval, not even the sign of a zero. -/
theorem unbounded_intersect (range : Interval) : unbounded.intersect? range = some range := by
  have lower : max (-infinity) range.lo = range.lo := by
    rw [max_number_eq, if_pos (neg_infinity_le_number range.lo_number)]
  have upper : min infinity range.hi = range.hi := by
    rw [min_number_eq]
    split
    · rename_i top
      exact (eq_infinity_of_le top).symm
    · rfl
  rcases range with ⟨⟨lo, hi⟩, order⟩
  simp only at lower upper
  simp [intersect?, unbounded, lower, upper, order]

end Interval

theorem Variable.toSeed_toVariable (v : Variable) : v.toSeed.toVariable = .ok v := by
  rcases v with ⟨name, provenance, unit, value, storable⟩
  have blank : (Variable.new name provenance unit).value = .interval .unbounded := rfl
  cases value with
  | scalar x =>
    have taken := update_scalar blank storable
    have informative : (Value.scalar x == .unconstrained) = false := rfl
    simp only [toSeed, Seed.toVariable, informative, taken, Bool.false_eq_true, ↓reduceIte]
    rfl
  | interval range =>
    have same : (Value.interval range == .unconstrained) = range.isUnbounded := rfl
    cases whole : range.isUnbounded with
    | true =>
      obtain rfl := Interval.unbounded_of_isUnbounded whole
      simp only [toSeed, Seed.toVariable, same, whole, ↓reduceIte]
      rfl
    | false =>
      have taken := update_range blank whole (Interval.unbounded_intersect range)
      simp only [toSeed, Seed.toVariable, same, whole, taken, Bool.false_eq_true, ↓reduceIte]
      rfl

theorem Store.seeded_toSeed {s : Store} {seeds : List Seed}
    (order : seeds.Perm (s.toList.map Variable.toSeed)) : Store.seeded seeds = .ok s := by
  have each : List.Forall₂ (fun seed v => seed.toVariable = .ok v)
      (s.toList.map Variable.toSeed) s.toList :=
    List.forall₂_map_left_iff.mpr (List.forall₂_same.mpr fun v _ => v.toSeed_toVariable)
  obtain ⟨vs, each, order⟩ := List.perm_comp_forall₂ order each
  exact seeded_of_perm each order

end Narrowing
