import Narrowing.Proofs.Equation.Corner

/-!
Regular forms. A form that rises or falls in each ranged member has a corner with an output at most,
and one with an output at least, as great as its output at any point of the box. So the value that
is collapsed from the corners holds the outputs at all points, and no evaluation fails.
-/
namespace Narrowing
open Corner

def Corner.Within (store : Store) (members : List String) (point : String → Float) : Prop :=
  ∀ m ∈ members, ∃ v, store.find? m = some v ∧ v.value.bounds.Contains (point m)

namespace Form

def ReadsOnly (f : Form) (names : List String) : Prop :=
  ∀ inputs cause, f.rule inputs = .error cause →
    cause.name ∈ names ∧ inputs.find? cause.name = none

def AnswersOn (f : Form) (store : Store) (members : List String) : Prop :=
  ∀ point, Within store members point → ∃ y, f.rule (.on members point) = .ok y

def Rises (f : Form) (members : List String) (member : String) (range : Interval)
    (point : String → Float) : Prop :=
  ∀ a b y z, range.Contains a → range.Contains b → a ≤ b →
    f.rule (.on members (moved point member a)) = .ok y →
    f.rule (.on members (moved point member b)) = .ok z → y ≤ z

def Falls (f : Form) (members : List String) (member : String) (range : Interval)
    (point : String → Float) : Prop :=
  ∀ a b y z, range.Contains a → range.Contains b → a ≤ b →
    f.rule (.on members (moved point member a)) = .ok y →
    f.rule (.on members (moved point member b)) = .ok z → z ≤ y

/-- What a form has to be like on a box for its corners to decide. The direction may differ from
    member to member and from point to point. -/
structure RegularOn (f : Form) (store : Store) (members : List String) : Prop where
  number : ∀ point y, Within store members point → f.rule (.on members point) = .ok y →
    y.isNaN = false
  congruent : ∀ p q y z, Within store members p → Within store members q →
    (∀ m ∈ members, (p m == q m) = true) →
    f.rule (.on members p) = .ok y → f.rule (.on members q) = .ok z → (y == z) = true
  monotone : ∀ m ∈ members, ∀ v range, store.find? m = some v → v.value = .interval range →
    ∀ point, Within store members point →
      f.Rises members m range point ∨ f.Falls members m range point

theorem ReadsOnly.answersOn {f : Form} {names : List String} (reads : f.ReadsOnly names)
    (store : Store) : f.AnswersOn store names := by
  intro point _
  cases answer : f.rule (.on names point) with
  | ok y => exact ⟨y, rfl⟩
  | error cause =>
    obtain ⟨member, missing⟩ := reads _ cause answer
    rw [Inputs.find_on, if_pos member] at missing
    simp at missing

end Form

namespace Corner

theorem moved_self (point : String → Float) (m : String) : moved point m (point m) = point := by
  funext n
  unfold moved
  split
  · rename_i same
    rw [same]
  · rfl

theorem Within.moved {store : Store} {members : List String} {point : String → Float}
    (within : Within store members point) {m : String} {v : Variable}
    (found : store.find? m = some v) {x : Float} (inside : v.value.bounds.Contains x) :
    Within store members (moved point m x) := by
  intro n member
  by_cases same : n = m
  · subst n
    exact ⟨v, found, by simpa [Corner.moved] using inside⟩
  · obtain ⟨w, found', inside'⟩ := within n member
    exact ⟨w, found', by simpa [Corner.moved, same] using inside'⟩

theorem Picks.within {store : Store} {members : List String} {pick : String → Float}
    (picks : Picks store members pick) : Within store members pick := by
  intro m member
  obtain ⟨v, found, ending⟩ := picks m member
  exact ⟨v, found, v.storable.contains_end ending⟩

section
variable {f : Form} {store : Store} {members : List String}

theorem moved_to_end (answers : f.AnswersOn store members) (regular : f.RegularOn store members)
    {point : String → Float} (within : Within store members point) {y : Float}
    (answer : f.rule (.on members point) = .ok y) {m : String} (member : m ∈ members) {v : Variable}
    (found : store.find? m = some v) :
    (∃ x ∈ v.value.ends, ∃ z, f.rule (.on members (moved point m x)) = .ok z ∧ z ≤ y) ∧
    (∃ x ∈ v.value.ends, ∃ z, f.rule (.on members (moved point m x)) = .ok z ∧ y ≤ z) := by
  obtain ⟨w, found', inside⟩ := within m member
  obtain rfl := Option.some.inj (found.symm.trans found')
  have here : f.rule (.on members (moved point m (point m))) = .ok y := by
    rw [moved_self]
    exact answer
  have reached : ∀ x ∈ v.value.ends, Within store members (moved point m x) := by
    intro x ending
    exact within.moved found (v.storable.contains_end ending)
  cases value : v.value with
  | scalar x =>
    -- The only end is the same number, though maybe the other zero.
    have within' := reached x (by simp [value, Value.ends])
    obtain ⟨z, answer'⟩ := answers _ within'
    rw [value, Value.scalar_contains_iff] at inside
    have alike : ∀ n ∈ members, (moved point m x n == point n) = true := by
      intro n hn
      unfold moved
      split
      · rename_i same
        rw [same]
        exact inside
      · obtain ⟨u, _, here⟩ := within n hn
        exact number_beq_refl (Bounds.number_of_contains here)
    have equal := regular.congruent _ _ z y within' within alike answer' answer
    obtain ⟨below, above⟩ := (number_beq_iff z y).mp equal
    exact ⟨⟨x, by simp [Value.ends], z, answer', below⟩, ⟨x, by simp [Value.ends], z, answer', above⟩⟩
  | interval range =>
    rw [value] at inside
    obtain ⟨low, atLo⟩ := answers _ (reached range.lo (by simp [value, Value.ends]))
    obtain ⟨high, atHi⟩ := answers _ (reached range.hi (by simp [value, Value.ends]))
    have lo : range.lo ∈ (Value.interval range).ends := by simp [Value.ends]
    have hi : range.hi ∈ (Value.interval range).ends := by simp [Value.ends]
    rcases regular.monotone m member v range found value point within with rises | falls
    · have below := rises range.lo (point m) low y range.contains_lo inside inside.1 atLo here
      have above := rises (point m) range.hi y high inside range.contains_hi inside.2 here atHi
      exact ⟨⟨range.lo, lo, low, atLo, below⟩, ⟨range.hi, hi, high, atHi, above⟩⟩
    · have above := falls range.lo (point m) low y range.contains_lo inside inside.1 atLo here
      have below := falls (point m) range.hi y high inside range.contains_hi inside.2 here atHi
      exact ⟨⟨range.hi, hi, high, atHi, below⟩, ⟨range.lo, lo, low, atLo, above⟩⟩

/- Member after member is moved to an end. `R` compares the new output with the old one. -/
theorem exists_pick {R : Float → Float → Prop} (trans : ∀ {x y z}, R x y → R y z → R x z)
    (one : ∀ {point y}, Within store members point → f.rule (.on members point) = .ok y →
      ∀ {m}, m ∈ members → ∀ {v}, store.find? m = some v →
      ∃ x ∈ v.value.ends, ∃ z, f.rule (.on members (moved point m x)) = .ok z ∧ R z y)
    {point : String → Float} (within : Within store members point) {y : Float}
    (answer : f.rule (.on members point) = .ok y) (reflexive : R y y) (done : List String)
    (listed : ∀ m ∈ done, m ∈ members) :
    ∃ pick z, Within store members pick ∧ Picks store done pick ∧
      f.rule (.on members pick) = .ok z ∧ R z y := by
  induction done with
  | nil => exact ⟨point, y, within, by simp [Picks], answer, reflexive⟩
  | cons m rest ih =>
    obtain ⟨member, listed⟩ := List.forall_mem_cons.mp listed
    obtain ⟨pick, z, within, picks, answer, order⟩ := ih listed
    obtain ⟨v, found, _⟩ := within m member
    obtain ⟨x, ending, z', answer', order'⟩ := one within answer member found
    refine ⟨moved pick m x, z', ?_, ?_, answer', trans order' order⟩
    · exact within.moved found (v.storable.contains_end ending)
    · intro n hn
      by_cases same : n = m
      · subst n
        exact ⟨v, found, by simpa [moved] using ending⟩
      · obtain ⟨w, found', ending'⟩ := picks n (by simpa [same] using hn)
        exact ⟨w, found', by simpa [moved, same] using ending'⟩

/-- The outputs at the corners lie on both sides of the output at any point of the box. -/
theorem corners_enclose (answers : f.AnswersOn store members) (regular : f.RegularOn store members)
    {point : String → Float} (within : Within store members point) {y : Float}
    (answer : f.rule (.on members point) = .ok y) :
    (∃ pick z, Picks store members pick ∧ f.rule (.on members pick) = .ok z ∧ z ≤ y) ∧
    (∃ pick z, Picks store members pick ∧ f.rule (.on members pick) = .ok z ∧ y ≤ z) := by
  have number := regular.number point y within answer
  constructor
  · obtain ⟨pick, z, _, picks, answer, below⟩ := exists_pick (R := fun z y => z ≤ y)
      number_le_trans (fun within answer _ member _ found =>
        (moved_to_end answers regular within answer member found).1)
      within answer (number_le_refl number) members (fun _ member => member)
    exact ⟨pick, z, picks, answer, below⟩
  · obtain ⟨pick, z, _, picks, answer, above⟩ := exists_pick (R := fun z y => y ≤ z)
      (fun lower upper => number_le_trans upper lower) (fun within answer _ member _ found =>
        (moved_to_end answers regular within answer member found).2)
      within answer (number_le_refl number) members (fun _ member => member)
    exact ⟨pick, z, picks, answer, above⟩

theorem outputs_collected (answers : f.AnswersOn store members) (regular : f.RegularOn store members)
    {corners : List (Inputs Float)}
    (corner : ∀ c, c ∈ corners ↔ ∃ pick, Picks store members pick ∧ c = .on members pick) :
    ∃ outputs, corners.mapM (output f) = .ok outputs ∧ (∀ z ∈ outputs, z.isNaN = false) ∧
      ∀ z, z ∈ outputs ↔ ∃ pick, Picks store members pick ∧ f.rule (.on members pick) = .ok z := by
  have answered : ∀ pick z, Picks store members pick → f.rule (.on members pick) = .ok z →
      output f (.on members pick) = .ok z ∧ z.isNaN = false := by
    intro pick z picks answer
    have number := regular.number pick z picks.within answer
    exact ⟨output_ok answer number, number⟩
  have each : ∀ c ∈ corners, ∃ z pick, output f c = .ok z ∧ z.isNaN = false ∧
      Picks store members pick ∧ f.rule (.on members pick) = .ok z := by
    intro c member
    obtain ⟨pick, picks, rfl⟩ := (corner c).mp member
    obtain ⟨z, answer⟩ := answers pick picks.within
    obtain ⟨result, number⟩ := answered pick z picks answer
    exact ⟨z, pick, result, number, picks, answer⟩
  obtain ⟨outputs, collected⟩ := mapM_ok_of_forall fun c member =>
    (each c member).imp fun _ ⟨_, result, _⟩ => result
  obtain ⟨origin, image⟩ := mapM_ok_mem collected
  have source : ∀ z ∈ outputs, z.isNaN = false ∧
      ∃ pick, Picks store members pick ∧ f.rule (.on members pick) = .ok z := by
    intro z member
    obtain ⟨c, hc, result⟩ := origin z member
    obtain ⟨z', pick, result', number, picks, answer⟩ := each c hc
    obtain rfl := Except.ok.inj (result.symm.trans result')
    exact ⟨number, pick, picks, answer⟩
  refine ⟨outputs, collected, fun z member => (source z member).1, fun z => ?_⟩
  constructor
  · intro member
    exact (source z member).2
  · rintro ⟨pick, picks, answer⟩
    obtain ⟨z', member, result⟩ := image _ ((corner _).mpr ⟨pick, picks, rfl⟩)
    obtain rfl := Except.ok.inj ((answered pick z picks answer).1.symm.trans result)
    exact member

end

/-- The value of a regular form holds its output at every point of the box, if that is finite. -/
theorem evaluate_encloses {f : Form} {store : Store} {members : List String}
    (known : ∀ m ∈ members, m ≠ f.target → Equation.isUnknown store m = false)
    (reads : f.ReadsOnly (f.others members)) (regular : f.RegularOn store (f.others members))
    {point : String → Float} (within : Within store (f.others members) point) {y : Float}
    (answer : f.rule (.on (f.others members) point) = .ok y) (finite : y.isFinite = true) :
    ∃ evaluation, evaluate members f store = .ok evaluation ∧ evaluation.target = f.target ∧
      evaluation.value.bounds.Contains y := by
  obtain ⟨corners, listed, corner⟩ := ofMembers_known (f.others_known known)
  have answers := reads.answersOn store
  obtain ⟨outputs, collected, numbers, output⟩ := outputs_collected answers regular corner
  obtain ⟨⟨low, l, picksLow, atLow, below⟩, ⟨high, h, picksHigh, atHigh, above⟩⟩ :=
    corners_enclose answers regular within answer
  obtain ⟨value, collapsed, holds⟩ := collapse_encloses numbers finite
    ⟨l, (output l).mpr ⟨low, picksLow, atLow⟩, below⟩
    ⟨h, (output h).mpr ⟨high, picksHigh, atHigh⟩, above⟩
  refine ⟨⟨f.target, value, corners.length⟩, ?_, rfl, holds⟩
  rw [evaluate_of_outputs listed collected, collapsed]
  rfl

end Corner

end Narrowing
