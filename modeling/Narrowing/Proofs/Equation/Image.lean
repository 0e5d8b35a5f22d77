import Narrowing.Proofs.Equation.Corner

/-!
Boxes over the real numbers. A continuous function that rises or falls strictly in each member takes
on a box exactly the numbers from its least to its greatest value at the corners.
-/
namespace Narrowing

def positivePoints (members : List String) : Set (String → ℝ) := {p | ∀ m ∈ members, 0 < p m}

namespace Corner

def box (ends : String → List ℝ) (members : List String) : Set (String → ℝ) :=
  {p | ∀ m ∈ members, (∃ a ∈ ends m, a ≤ p m) ∧ ∃ b ∈ ends m, p m ≤ b}

/-- The function rises as one member does, all others staying where they are. -/
def RisesOn (s : Set (String → ℝ)) (f : (String → ℝ) → ℝ) (member : String) : Prop :=
  ∀ p ∈ s, ∀ q ∈ s, (∀ n, n ≠ member → p n = q n) → p member < q member → f p < f q

def FallsOn (s : Set (String → ℝ)) (f : (String → ℝ) → ℝ) (member : String) : Prop :=
  ∀ p ∈ s, ∀ q ∈ s, (∀ n, n ≠ member → p n = q n) → p member < q member → f q < f p

variable {ends : String → List ℝ} {members : List String} {f : (String → ℝ) → ℝ}

theorem box_positive (positive : ∀ m ∈ members, ∀ x ∈ ends m, 0 < x) :
    box ends members ⊆ positivePoints members := by
  intro p inside m member
  obtain ⟨⟨a, lower, below⟩, _⟩ := inside m member
  exact (positive m member a lower).trans_le below

theorem mem_box_of_picks {pick : String → ℝ} (picks : ∀ m ∈ members, pick m ∈ ends m) :
    pick ∈ box ends members :=
  fun m member => ⟨⟨pick m, picks m member, le_rfl⟩, ⟨pick m, picks m member, le_rfl⟩⟩

theorem update_mem_box {p : String → ℝ} (inside : p ∈ box ends members) {m : String} {x : ℝ}
    (ending : x ∈ ends m) : Function.update p m x ∈ box ends members := by
  intro n member
  by_cases same : n = m
  · subst n
    simp only [Function.update_self]
    exact ⟨⟨x, ending, le_rfl⟩, ⟨x, ending, le_rfl⟩⟩
  · rw [Function.update_of_ne same]
    exact inside n member

theorem moved_below {p : String → ℝ} (inside : p ∈ box ends members) {m : String}
    (member : m ∈ members)
    (monotone : RisesOn (box ends members) f m ∨ FallsOn (box ends members) f m) :
    ∃ x ∈ ends m, f (Function.update p m x) ≤ f p := by
  obtain ⟨⟨a, lower, below⟩, ⟨b, upper, above⟩⟩ := inside m member
  have alike : ∀ x n, n ≠ m → Function.update p m x n = p n :=
    fun x n other => Function.update_of_ne other x p
  rcases monotone with rises | falls
  · refine ⟨a, lower, ?_⟩
    rcases below.lt_or_eq with less | rfl
    · refine (rises _ (update_mem_box inside lower) p inside (alike a) ?_).le
      rwa [Function.update_self]
    · rw [Function.update_eq_self]
  · refine ⟨b, upper, ?_⟩
    rcases above.lt_or_eq with less | rfl
    · refine (falls p inside _ (update_mem_box inside upper) (fun n other => (alike b n other).symm)
        ?_).le
      rwa [Function.update_self]
    · rw [Function.update_eq_self]

/-- Member after member is moved to an end, so a corner is reached that lies at most as high. -/
theorem exists_corner_le
    (monotone : ∀ m ∈ members, RisesOn (box ends members) f m ∨ FallsOn (box ends members) f m)
    {p : String → ℝ} (inside : p ∈ box ends members) (done : List String)
    (listed : ∀ m ∈ done, m ∈ members) :
    ∃ pick ∈ box ends members, (∀ m ∈ done, pick m ∈ ends m) ∧ f pick ≤ f p := by
  induction done with
  | nil => exact ⟨p, inside, by simp, le_rfl⟩
  | cons m rest ih =>
    obtain ⟨member, listed⟩ := List.forall_mem_cons.mp listed
    obtain ⟨pick, within, picks, below⟩ := ih listed
    obtain ⟨x, ending, lower⟩ := moved_below within member (monotone m member)
    refine ⟨Function.update pick m x, update_mem_box within ending, ?_, lower.trans below⟩
    intro n found
    by_cases same : n = m
    · subst n
      rwa [Function.update_self]
    · rw [Function.update_of_ne same]
      exact picks n ((List.mem_cons.mp found).resolve_left same)

theorem exists_corner_ge
    (monotone : ∀ m ∈ members, RisesOn (box ends members) f m ∨ FallsOn (box ends members) f m)
    {p : String → ℝ} (inside : p ∈ box ends members) :
    ∃ pick, (∀ m ∈ members, pick m ∈ ends m) ∧ f p ≤ f pick := by
  -- Where the function falls its negative rises, and the other way round.
  have mirrored : ∀ m ∈ members, RisesOn (box ends members) (fun p => -f p) m ∨
      FallsOn (box ends members) (fun p => -f p) m := by
    intro m member
    rcases monotone m member with rises | falls
    · exact .inr fun p hp q hq alike less => neg_lt_neg (rises p hp q hq alike less)
    · exact .inl fun p hp q hq alike less => neg_lt_neg (falls p hp q hq alike less)
  obtain ⟨pick, _, picks, below⟩ := exists_corner_le mirrored inside members fun _ member => member
  exact ⟨pick, picks, neg_le_neg_iff.mp below⟩

theorem box_convex (ends : String → List ℝ) (members : List String) :
    Convex ℝ (box ends members) := by
  change Convex ℝ (Set.pi {m | m ∈ members}
    fun m => {x | (∃ a ∈ ends m, a ≤ x) ∧ ∃ b ∈ ends m, x ≤ b})
  refine convex_pi fun m _ => Set.OrdConnected.convex ⟨fun x hx y hy z between => ?_⟩
  obtain ⟨⟨a, lower, below⟩, _⟩ := hx
  obtain ⟨_, b, upper, above⟩ := hy
  exact ⟨⟨a, lower, below.trans between.1⟩, ⟨b, upper, between.2.trans above⟩⟩

/-- The outputs at the corners are the least and the greatest on the box, and all numbers between
    them are outputs. -/
theorem image_box {outputs : List ℝ}
    (output : ∀ y, y ∈ outputs ↔ ∃ pick, (∀ m ∈ members, pick m ∈ ends m) ∧ f pick = y)
    (nonempty : ∀ m ∈ members, ends m ≠ [])
    (monotone : ∀ m ∈ members, RisesOn (box ends members) f m ∨ FallsOn (box ends members) f m)
    (continuous : ContinuousOn f (box ends members)) :
    ∃ lo hi, IsLeast {y | y ∈ outputs} lo ∧ IsGreatest {y | y ∈ outputs} hi ∧
      f '' box ends members = Set.Icc lo hi := by
  have some : outputs.toFinset.Nonempty := by
    have first : ∀ m ∈ members, (ends m).headD 0 ∈ ends m := by
      intro m member
      obtain ⟨x, rest, listed⟩ := List.exists_cons_of_ne_nil (nonempty m member)
      simp [listed]
    exact ⟨_, List.mem_toFinset.mpr ((output _).mpr ⟨_, first, rfl⟩)⟩
  have least := outputs.toFinset.isLeast_min' some
  have greatest := outputs.toFinset.isGreatest_max' some
  rw [List.coe_toFinset] at least greatest
  refine ⟨_, _, least, greatest, Set.Subset.antisymm ?_ ?_⟩
  · rintro _ ⟨p, inside, rfl⟩
    obtain ⟨low, _, picksLow, below⟩ :=
      exists_corner_le monotone inside members fun _ member => member
    obtain ⟨high, picksHigh, above⟩ := exists_corner_ge monotone inside
    exact ⟨(least.2 ((output _).mpr ⟨low, picksLow, rfl⟩)).trans below,
      above.trans (greatest.2 ((output _).mpr ⟨high, picksHigh, rfl⟩))⟩
  · obtain ⟨low, picksLow, atLow⟩ := (output _).mp least.1
    obtain ⟨high, picksHigh, atHigh⟩ := (output _).mp greatest.1
    have connected := (box_convex ends members).isPreconnected.image f continuous
    exact connected.Icc_subset ⟨low, mem_box_of_picks picksLow, atLow⟩
      ⟨high, mem_box_of_picks picksHigh, atHigh⟩

end Corner

end Narrowing
