import Narrowing.Proofs.Equation.Image

/-!
Power laws. A power law fixes the product of powers of its positive members. Each member is
determined by the others: it is their solution, which is positive, continuous, and rises or falls
strictly in each of them.
-/
namespace Narrowing

structure PowerLaw where
  members : List String
  power : String → ℝ
  constant : ℝ
  distinct : members.Nodup
  effective : ∀ m ∈ members, power m ≠ 0
  positive : 0 < constant

namespace PowerLaw
variable (law : PowerLaw) {members : List String} {p q : String → ℝ} {t m : String}

noncomputable def product (members : List String) (p : String → ℝ) : ℝ :=
  (members.map fun m => p m ^ law.power m).prod

def Holds (p : String → ℝ) : Prop := law.product law.members p = law.constant

def others (t : String) : List String := law.members.filter (· ≠ t)

/-- What a member has to be for the law to hold, given the others. -/
noncomputable def solution (t : String) (p : String → ℝ) : ℝ :=
  (law.constant / law.product (law.others t) p) ^ (law.power t)⁻¹

theorem mem_others : m ∈ law.others t ↔ m ∈ law.members ∧ m ≠ t := by
  simp [others]

theorem others_positive (positive : p ∈ positivePoints law.members) :
    p ∈ positivePoints (law.others t) :=
  fun m member => positive m (law.mem_others.mp member).1

theorem product_pos (positive : p ∈ positivePoints members) : 0 < law.product members p := by
  refine List.prod_pos fun factor listed => ?_
  obtain ⟨m, member, rfl⟩ := List.mem_map.mp listed
  exact Real.rpow_pos_of_pos (positive m member) _

theorem product_congr (alike : ∀ m ∈ members, p m = q m) :
    law.product members p = law.product members q := by
  unfold product
  congr 1
  refine List.map_congr_left fun m member => ?_
  rw [alike m member]

theorem product_split (distinct : members.Nodup) (member : m ∈ members) (p : String → ℝ) :
    law.product members p =
      p m ^ law.power m * law.product (members.filter (· ≠ m)) p := by
  have apart : members.Perm (m :: members.filter (· ≠ m)) := by
    have moved := List.perm_cons_erase member
    rw [distinct.erase_eq_filter] at moved
    simpa [bne_iff_ne, Bool.beq_eq_decide_eq, bne] using moved
  exact (apart.map _).prod_eq.trans List.prod_cons

theorem solution_congr (alike : ∀ m ∈ law.others t, p m = q m) :
    law.solution t p = law.solution t q := by
  rw [solution, solution, law.product_congr alike]

theorem ratio_pos (positive : p ∈ positivePoints (law.others t)) :
    0 < law.constant / law.product (law.others t) p :=
  div_pos law.positive (law.product_pos positive)

theorem solution_pos (positive : p ∈ positivePoints (law.others t)) : 0 < law.solution t p :=
  Real.rpow_pos_of_pos (law.ratio_pos positive) _

theorem holds_iff_solution (positive : p ∈ positivePoints law.members) (member : t ∈ law.members) :
    law.Holds p ↔ p t = law.solution t p := by
  have rest := law.others_positive (t := t) positive
  have known := law.product_pos rest
  rw [solution, Real.eq_rpow_inv (positive t member).le (law.ratio_pos rest).le
    (law.effective t member), eq_div_iff known.ne']
  unfold Holds
  rw [law.product_split law.distinct member]
  rfl

/-- A positive number for which the law would hold is the solution. -/
theorem solution_eq (positive : p ∈ positivePoints (law.others t)) (member : t ∈ law.members)
    {y : ℝ} (above : 0 < y) (holds : law.Holds (Function.update p t y)) :
    law.solution t p = y := by
  have alike : ∀ m ∈ law.others t, Function.update p t y m = p m :=
    fun m other => Function.update_of_ne (law.mem_others.mp other).2 y p
  have moved : Function.update p t y ∈ positivePoints law.members := by
    intro m listed
    by_cases same : m = t
    · subst m
      rwa [Function.update_self]
    · have other := law.mem_others.mpr ⟨listed, same⟩
      rw [alike m other]
      exact positive m other
  have solved := (law.holds_iff_solution moved member).mp holds
  rw [Function.update_self, law.solution_congr alike] at solved
  exact solved.symm

/-- The share that one member has in a solution is a power of it. -/
theorem solution_split (positive : p ∈ positivePoints (law.others t)) (other : m ∈ law.others t) :
    law.solution t p =
      (law.constant / law.product ((law.others t).filter (· ≠ m)) p) ^ (law.power t)⁻¹ *
        p m ^ (-(law.power m / law.power t)) := by
  have distinct : (law.others t).Nodup := law.distinct.filter _
  have base : 0 < p m ^ law.power m := Real.rpow_pos_of_pos (positive m other) _
  have rest : 0 < law.product ((law.others t).filter (· ≠ m)) p :=
    law.product_pos fun n member => positive n (List.mem_filter.mp member).1
  have ratio := div_pos law.positive rest
  have exponent : -(law.power m / law.power t) = law.power m * -(law.power t)⁻¹ := by ring
  rw [solution, law.product_split distinct other, mul_comm, ← div_div,
    Real.div_rpow ratio.le base.le, exponent, Real.rpow_mul (positive m other).le,
    Real.rpow_neg base.le, div_eq_mul_inv]

theorem solution_lt_iff (hp : p ∈ positivePoints (law.others t))
    (hq : q ∈ positivePoints (law.others t)) (other : m ∈ law.others t)
    (alike : ∀ n, n ≠ m → p n = q n) : law.solution t p < law.solution t q ↔
      p m ^ (-(law.power m / law.power t)) < q m ^ (-(law.power m / law.power t)) := by
  have rest : q ∈ positivePoints ((law.others t).filter (· ≠ m)) :=
    fun n member => hq n (List.mem_filter.mp member).1
  have same : law.product ((law.others t).filter (· ≠ m)) p =
      law.product ((law.others t).filter (· ≠ m)) q :=
    law.product_congr fun n member => alike n (by simpa using (List.mem_filter.mp member).2)
  rw [law.solution_split hp other, law.solution_split hq other, same]
  have factor := div_pos law.positive (law.product_pos rest)
  exact mul_lt_mul_iff_of_pos_left (Real.rpow_pos_of_pos factor _)

/-- A solution rises in a member of the opposite sign of power, and falls in one of the same. -/
theorem solution_monotone (member : t ∈ law.members) (other : m ∈ law.others t) :
    Corner.RisesOn (positivePoints (law.others t)) (law.solution t) m ∨
      Corner.FallsOn (positivePoints (law.others t)) (law.solution t) m := by
  have ratio : law.power m / law.power t ≠ 0 :=
    div_ne_zero (law.effective m (law.mem_others.mp other).1) (law.effective t member)
  rcases lt_or_gt_of_ne ratio with opposite | same
  · left
    intro p hp q hq alike less
    rw [law.solution_lt_iff hp hq other alike]
    exact Real.rpow_lt_rpow (hp m other).le less (neg_pos.mpr opposite)
  · right
    intro p hp q hq alike less
    rw [law.solution_lt_iff hq hp other fun n distinct => (alike n distinct).symm]
    exact Real.rpow_lt_rpow_of_neg (hp m other) less (neg_neg_iff_pos.mpr same)

theorem solution_continuous (t : String) :
    ContinuousOn (law.solution t) (positivePoints (law.others t)) := by
  have factors : ContinuousOn (law.product (law.others t)) (positivePoints (law.others t)) := by
    refine continuousOn_list_prod _ fun m member => ?_
    exact (continuous_apply m).continuousOn.rpow_const fun p positive =>
      Or.inl (positive m member).ne'
  refine (continuousOn_const.div factors fun p positive => ?_).rpow_const fun p positive => ?_
  · exact (law.product_pos positive).ne'
  · exact Or.inl (law.ratio_pos positive).ne'

end PowerLaw

end Narrowing
