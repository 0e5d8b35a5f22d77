import Narrowing.Equation.Basic
import Narrowing.Proofs.Formula.PowerLaw

/-!
Schemes: equations given by formulas, which may be read in any arithmetic. Over the real numbers, a
scheme whose forms are the solutions of a power law inverts that law: its forms all hold at the same
points, each is positive and strictly monotone in every input, and its outputs at the corners of a
box bound exactly what it takes on there.
-/
namespace Narrowing

structure Scheme (κ : Type) where
  name : String
  members : List String
  forms : List (String × Formula κ)

namespace Scheme

def equation (s : Scheme Float) : Equation := .ofFormulas s.name s.members s.forms

def inputs {κ : Type} (s : Scheme κ) (form : String × Formula κ) : List String :=
  s.members.filter (· ≠ form.1)

section
variable {κ : Type} [Arithmetic κ] (s : Scheme κ) (form : String × Formula κ)

def output (point : String → κ) : Except UnboundInput κ := form.2.eval (.on (s.inputs form) point)

/-- Computed from the others, the target of a form comes out as it is at the point. -/
def Solves (point : String → κ) : Prop := s.output form point = .ok (point form.1)

end

section
variable [Arithmetic ℝ] (s : Scheme ℝ) (form : String × Formula ℝ)

structure Regular (f : (String → ℝ) → ℝ) : Prop where
  answers : ∀ p ∈ positivePoints (s.inputs form), s.output form p = .ok (f p)
  positive : ∀ p ∈ positivePoints (s.inputs form), 0 < f p
  monotone : ∀ m ∈ s.inputs form, Corner.RisesOn (positivePoints (s.inputs form)) f m ∨
    Corner.FallsOn (positivePoints (s.inputs form)) f m

structure ExactOn (ends : String → List ℝ) (outputs : List ℝ) (lo hi : ℝ) : Prop where
  evaluated : (Corner.spanned ends (s.inputs form)).mapM (fun c => form.2.eval c) = .ok outputs
  least : IsLeast {y | y ∈ outputs} lo
  greatest : IsGreatest {y | y ∈ outputs} hi
  range : {y | ∃ p ∈ Corner.box ends (s.inputs form), s.output form p = .ok y} = Set.Icc lo hi

def Fulfils (law : (String → ℝ) → Prop) : Prop :=
  ∀ p ∈ positivePoints (s.inputs form), ∃ y, s.output form p = .ok y ∧ 0 < y ∧
    law (Function.update p form.1 y)

/-- The forms of a scheme are the ways to solve one law for one of its members. -/
structure Inverts (law : (String → ℝ) → Prop) : Prop where
  targets : (s.forms.map Prod.fst).Perm s.members
  equivalent : ∀ p ∈ positivePoints s.members,
    List.TFAE (law p :: s.forms.map fun form => s.Solves form p)
  regular : ∀ form ∈ s.forms, ∃ f, s.Regular form f
  exact : ∀ form ∈ s.forms, ∀ ends : String → List ℝ,
    (∀ m ∈ s.inputs form, ends m ≠ [] ∧ ∀ x ∈ ends m, 0 < x) →
      ∃ outputs lo hi, s.ExactOn form ends outputs lo hi

end

variable [Arithmetic ℝ] {s : Scheme ℝ} {form : String × Formula ℝ} {f : (String → ℝ) → ℝ}

theorem Regular.outputs (regular : s.Regular form f) {ends : String → List ℝ}
    (positive : ∀ m ∈ s.inputs form, ∀ x ∈ ends m, 0 < x) :
    ∃ outputs, (Corner.spanned ends (s.inputs form)).mapM (fun c => form.2.eval c) = .ok outputs ∧
      ∀ y, y ∈ outputs ↔ ∃ pick, (∀ m ∈ s.inputs form, pick m ∈ ends m) ∧ f pick = y := by
  have answered : ∀ pick : String → ℝ, (∀ m ∈ s.inputs form, pick m ∈ ends m) →
      form.2.eval (.on (s.inputs form) pick) = .ok (f pick) :=
    fun pick picks => regular.answers pick fun m member => positive m member _ (picks m member)
  have each : ∀ c ∈ Corner.spanned ends (s.inputs form), ∃ y, form.2.eval c = .ok y := by
    intro c member
    obtain ⟨pick, picks, rfl⟩ := (Corner.mem_spanned c).mp member
    exact ⟨_, answered pick picks⟩
  obtain ⟨outputs, collected⟩ := mapM_ok_of_forall each
  obtain ⟨origin, image⟩ := mapM_ok_mem collected
  refine ⟨outputs, collected, fun y => ⟨fun member => ?_, ?_⟩⟩
  · obtain ⟨c, corner, result⟩ := origin y member
    obtain ⟨pick, picks, rfl⟩ := (Corner.mem_spanned c).mp corner
    exact ⟨pick, picks, Except.ok.inj ((answered pick picks).symm.trans result)⟩
  · rintro ⟨pick, picks, rfl⟩
    obtain ⟨y, member, result⟩ := image _ ((Corner.mem_spanned _).mpr ⟨pick, picks, rfl⟩)
    obtain rfl := Except.ok.inj ((answered pick picks).symm.trans result)
    exact member

theorem Regular.exactOn (regular : s.Regular form f)
    (continuous : ContinuousOn f (positivePoints (s.inputs form))) {ends : String → List ℝ}
    (spans : ∀ m ∈ s.inputs form, ends m ≠ [] ∧ ∀ x ∈ ends m, 0 < x) :
    ∃ outputs lo hi, s.ExactOn form ends outputs lo hi := by
  have positive : ∀ m ∈ s.inputs form, ∀ x ∈ ends m, 0 < x := fun m member => (spans m member).2
  have inside := Corner.box_positive positive
  obtain ⟨outputs, collected, output⟩ := regular.outputs positive
  have monotone : ∀ m ∈ s.inputs form, Corner.RisesOn (Corner.box ends (s.inputs form)) f m ∨
      Corner.FallsOn (Corner.box ends (s.inputs form)) f m := by
    intro m member
    rcases regular.monotone m member with rises | falls
    · exact .inl fun p hp q hq => rises p (inside hp) q (inside hq)
    · exact .inr fun p hp q hq => falls p (inside hp) q (inside hq)
  obtain ⟨lo, hi, least, greatest, image⟩ := Corner.image_box output
    (fun m member => (spans m member).1) monotone (continuous.mono inside)
  refine ⟨outputs, lo, hi, collected, least, greatest, ?_⟩
  rw [← image]
  ext y
  refine exists_congr fun p => and_congr_right fun within => ?_
  rw [regular.answers p (inside within), Except.ok.injEq]

section
variable {power : PowerLaw} {law : (String → ℝ) → Prop} (members : power.members = s.members)
  (states : ∀ p ∈ positivePoints s.members, power.Holds p ↔ law p)
include members states

theorem Fulfils.output (fulfils : s.Fulfils form law) (target : form.1 ∈ s.members)
    {p : String → ℝ} (positive : p ∈ positivePoints (s.inputs form)) :
    s.output form p = .ok (power.solution form.1 p) := by
  obtain ⟨y, output, above, holds⟩ := fulfils p positive
  have moved : Function.update p form.1 y ∈ positivePoints s.members := by
    intro m listed
    by_cases same : m = form.1
    · rwa [same, Function.update_self]
    · rw [Function.update_of_ne same]
      exact positive m (by simp [inputs, listed, same])
  rw [inputs, ← members] at positive
  rw [← members] at target
  rw [output, power.solution_eq positive target above ((states _ moved).mpr holds)]

theorem Fulfils.regular (fulfils : s.Fulfils form law) (target : form.1 ∈ s.members) :
    s.Regular form (power.solution form.1) where
  answers := fun _ positive => fulfils.output members states target positive
  positive := by
    rw [inputs, ← members]
    exact fun p positive => power.solution_pos positive
  monotone := by
    rw [← members] at target
    rw [inputs, ← members]
    exact fun m other => power.solution_monotone target other

/-- A scheme inverts a power law if all its forms fulfil it. -/
theorem inverts_of_fulfils (targets : (s.forms.map Prod.fst).Perm s.members)
    (fulfil : ∀ form ∈ s.forms, s.Fulfils form law) : s.Inverts law := by
  have target : ∀ form ∈ s.forms, form.1 ∈ s.members :=
    fun form listed => targets.mem_iff.mp (List.mem_map_of_mem listed)
  have regular : ∀ form ∈ s.forms, s.Regular form (power.solution form.1) :=
    fun form listed => (fulfil form listed).regular members states (target form listed)
  refine ⟨targets, fun p positive => ?_, fun form listed => ⟨_, regular form listed⟩, ?_⟩
  · refine List.tfae_of_forall (law p) _ fun statement listed => ?_
    rcases List.mem_cons.mp listed with rfl | listed
    · rfl
    obtain ⟨form, offered, rfl⟩ := List.mem_map.mp listed
    have known : p ∈ positivePoints (s.inputs form) :=
      fun m member => positive m (List.mem_filter.mp member).1
    have solved := target form offered
    rw [← states p positive]
    rw [← members] at positive solved
    rw [Solves, (regular form offered).answers p known, Except.ok.injEq, eq_comm,
      power.holds_iff_solution positive solved]
  · intro form listed ends spans
    refine (regular form listed).exactOn ?_ spans
    rw [inputs, ← members]
    exact power.solution_continuous form.1

end

end Scheme

end Narrowing
