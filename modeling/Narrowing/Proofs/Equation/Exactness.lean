import Narrowing.Proofs.Equation.Enclosure
import Narrowing.Proofs.Equation.Sampling

/-!
Exact bounds. The value of a regular form has the least bounds that hold all its outputs on the box,
as both ends are outputs themselves. There is no value only if all outputs are the same infinity.
-/
namespace Narrowing
open Corner

namespace Form
variable {f : Form} {store : Store} {members : List String}

def BoundedBy (f : Form) (store : Store) (members : List String) (b : Bounds) : Prop :=
  ∀ point y, Within store members point → f.rule (.on members point) = .ok y → b.Contains y

structure Tight (f : Form) (store : Store) (members : List String) (b : Bounds) : Prop where
  bounded : f.BoundedBy store members b
  least : ∀ other, f.BoundedBy store members other → other.lo ≤ b.lo ∧ b.hi ≤ other.hi

/-- The output is one of the infinities, the same at every point of a box. -/
def InfiniteOn (f : Form) (store : Store) (members : List String) : Prop :=
  ∃ bound, (bound = infinity ∨ bound = -infinity) ∧
    ∀ point, Within store members point → f.rule (.on members point) = .ok bound

end Form

namespace Corner
variable {f : Form} {store : Store} {members : List String}

theorem exists_picks (known : ∀ m ∈ members, Equation.isUnknown store m = false) :
    ∃ pick, Picks store members pick := by
  refine ⟨fun m => ((store.find? m).map (·.value.bounds.lo)).getD 0, fun m member => ?_⟩
  obtain ⟨v, found, _⟩ := Equation.find_of_known (known m member)
  refine ⟨v, found, ?_⟩
  cases value : v.value with
  | scalar x => simp [found, value, Value.bounds, Value.ends]
  | interval range => simp [found, value, Value.bounds, Value.ends]

structure Outputs (f : Form) (store : Store) (members : List String) (outputs : List Float) :
    Prop where
  number : ∀ y ∈ outputs, y.isNaN = false
  reached : ∀ y ∈ outputs, ∃ point, Within store members point ∧
    f.rule (.on members point) = .ok y
  below : ∀ point y, Within store members point → f.rule (.on members point) = .ok y →
    ∃ z ∈ outputs, z ≤ y
  above : ∀ point y, Within store members point → f.rule (.on members point) = .ok y →
    ∃ z ∈ outputs, y ≤ z

theorem outputs_of_regular (known : ∀ m ∈ members, Equation.isUnknown store m = false)
    (answers : f.AnswersOn store members) (regular : f.RegularOn store members) :
    ∃ corners outputs, ofMembers store members = .ok corners ∧
      corners.mapM (output f) = .ok outputs ∧ outputs ≠ [] ∧ Outputs f store members outputs := by
  obtain ⟨corners, listed, corner⟩ := ofMembers_known known
  obtain ⟨outputs, collected, numbers, output⟩ := outputs_collected answers regular corner
  obtain ⟨pick, picks⟩ := exists_picks known
  obtain ⟨x, answer⟩ := answers pick picks.within
  refine ⟨corners, outputs, listed, collected,
    List.ne_nil_of_mem ((output x).mpr ⟨pick, picks, answer⟩), numbers, ?_, ?_, ?_⟩
  · intro y member
    obtain ⟨pick, picks, answer⟩ := (output y).mp member
    exact ⟨pick, picks.within, answer⟩
  · intro point y within answer
    obtain ⟨pick, z, picks, atCorner, order⟩ := (corners_enclose answers regular within answer).1
    exact ⟨z, (output z).mpr ⟨pick, picks, atCorner⟩, order⟩
  · intro point y within answer
    obtain ⟨pick, z, picks, atCorner, order⟩ := (corners_enclose answers regular within answer).2
    exact ⟨z, (output z).mpr ⟨pick, picks, atCorner⟩, order⟩

theorem Outputs.tight {outputs : List Float} (sampled : Outputs f store members outputs)
    {b : Bounds} (lo : b.lo ∈ outputs) (hi : b.hi ∈ outputs)
    (between : ∀ z ∈ outputs, b.Contains z) : f.Tight store members b where
  bounded := by
    intro point y within answer
    obtain ⟨z, member, below⟩ := sampled.below point y within answer
    obtain ⟨z', member', above⟩ := sampled.above point y within answer
    exact ⟨number_le_trans (between z member).1 below, number_le_trans above (between z' member').2⟩
  least := by
    intro other bounded
    obtain ⟨p, withinP, atLo⟩ := sampled.reached _ lo
    obtain ⟨q, withinQ, atHi⟩ := sampled.reached _ hi
    exact ⟨(bounded p _ withinP atLo).1, (bounded q _ withinQ atHi).2⟩

theorem Outputs.infiniteOn {outputs : List Float} (sampled : Outputs f store members outputs)
    (answers : f.AnswersOn store members) {x : Float} (member : x ∈ outputs)
    (equal : ∀ y ∈ outputs, (y == x) = true) (infinite : x.isFinite = false) :
    f.InfiniteOn store members := by
  have side := eq_infinity_of_infinite (sampled.number x member) infinite
  refine ⟨x, side, fun point within => ?_⟩
  obtain ⟨y, answer⟩ := answers point within
  obtain ⟨z, hz, below⟩ := sampled.below point y within answer
  obtain ⟨z', hz', above⟩ := sampled.above point y within answer
  have lower := number_le_trans ((number_beq_iff _ _).mp (equal z hz)).2 below
  have upper := number_le_trans above ((number_beq_iff _ _).mp (equal z' hz')).1
  rw [answer]
  rcases side with rfl | rfl
  · rw [eq_infinity_of_le lower]
  · rw [eq_neg_infinity_of_le upper]

theorem Outputs.eq_of_infiniteOn {outputs : List Float}
    (sampled : Outputs f store members outputs) (infinite : f.InfiniteOn store members) :
    ∃ bound, (bound = infinity ∨ bound = -infinity) ∧ ∀ y ∈ outputs, y = bound := by
  obtain ⟨bound, side, constant⟩ := infinite
  refine ⟨bound, side, fun y member => ?_⟩
  obtain ⟨point, within, answer⟩ := sampled.reached y member
  exact Except.ok.inj (answer.symm.trans (constant point within))

/-- What the outputs at the corners collapse to has tight bounds, unless the form is infinite. -/
theorem Outputs.collapse_exact {outputs : List Float} (sampled : Outputs f store members outputs)
    (answers : f.AnswersOn store members) (nonempty : outputs ≠ []) :
    (∃ value, collapse f.target outputs = .ok value ∧ f.Tight store members value.bounds ∧
      ¬ f.InfiniteOn store members) ∨
    (collapse f.target outputs = .error (.nonFinite f.target) ∧ f.InfiniteOn store members) := by
  have collapsed := collapse_collapsed f.target sampled.number nonempty
  generalize collapse f.target outputs = result at collapsed
  cases collapsed with
  | @agreed x member equal finite =>
    refine Or.inl ⟨.scalar x, rfl, sampled.tight member member fun z hz => ?_, fun infinite => ?_⟩
    · rw [Value.scalar_contains_iff, number_beq_comm]
      exact equal z hz
    · obtain ⟨bound, side, same⟩ := sampled.eq_of_infiniteOn infinite
      rw [same x member] at finite
      rcases side with rfl | rfl
      · exact absurd finite (by decide +kernel)
      · exact absurd finite (by decide +kernel)
  | infinite member equal infinite =>
    exact Or.inr ⟨rfl, sampled.infiniteOn answers member equal infinite⟩
  | @spread range least greatest between apart =>
    refine Or.inl ⟨.interval range, rfl, sampled.tight least greatest between, fun infinite => ?_⟩
    obtain ⟨bound, _, same⟩ := sampled.eq_of_infiniteOn infinite
    have equal := number_beq_refl (sampled.number _ greatest)
    rw [same _ least, ← same _ greatest] at apart
    simp [equal] at apart

end Corner

/-- A regular form is computed exactly: its value has the least bounds that hold its outputs, and
    there is a value unless the form is infinite. -/
theorem compute_exact {e : Equation} {f : Form} {store : Store}
    (known : ∀ m ∈ e.members, m ≠ f.target → Equation.isUnknown store m = false)
    (answers : f.AnswersOn store (f.others e.members))
    (regular : f.RegularOn store (f.others e.members)) :
    (∀ evaluation, e.compute f store = .ok evaluation →
      f.Tight store (f.others e.members) evaluation.value.bounds) ∧
    (∀ error, e.compute f store = .error error ↔
      error = ⟨e.name, .nonFinite f.target⟩ ∧ f.InfiniteOn store (f.others e.members)) := by
  obtain ⟨corners, outputs, listed, collected, nonempty, sampled⟩ :=
    outputs_of_regular (f.others_known known) answers regular
  unfold Equation.compute
  rw [evaluate_of_outputs listed collected]
  rcases sampled.collapse_exact answers nonempty with ⟨value, collapsed, tight, finite⟩ | failed
  · rw [collapsed]
    constructor
    · intro evaluation done
      obtain rfl := Except.ok.inj done
      exact tight
    · simp [Except.map, Except.mapError, finite]
  · obtain ⟨collapsed, infinite⟩ := failed
    rw [collapsed]
    constructor
    · simp [Except.map, Except.mapError]
    · simp [Except.map, Except.mapError, infinite, eq_comm]

def Form.greater (target a b : String) : Form :=
  ⟨target, fun inputs => do return max (← inputs.get a) (← inputs.get b)⟩

theorem Form.greater_answers (target a b : String) (point : String → Float) :
    (greater target a b).rule (.on [a, b] point) = .ok (max (point a) (point b)) := by
  have first : (Inputs.on [a, b] point).get a = .ok (point a) := by
    unfold Inputs.get
    rw [Inputs.find_on, if_pos (by simp)]
  have second : (Inputs.on [a, b] point).get b = .ok (point b) := by
    unfold Inputs.get
    rw [Inputs.find_on, if_pos (by simp)]
  simp [greater, first, second, bind, Except.bind, pure, Except.pure]

theorem Form.greater_regularOn (target a b : String) (store : Store) :
    (greater target a b).RegularOn store [a, b] := by
  have number : ∀ {point}, Within store [a, b] point → ∀ m ∈ [a, b], (point m).isNaN = false := by
    intro point within m member
    obtain ⟨v, _, inside⟩ := within m member
    exact Bounds.number_of_contains inside
  refine ⟨?_, ?_, ?_⟩
  · intro point y within answer
    rw [greater_answers] at answer
    obtain rfl := Except.ok.inj answer
    rcases max_number_chooses (point a) (point b) with same | same
    · rw [same]
      exact number within a (by simp)
    · rw [same]
      exact number within b (by simp)
  · intro p q y z _ _ alike answer answer'
    rw [greater_answers] at answer answer'
    obtain rfl := Except.ok.inj answer
    obtain rfl := Except.ok.inj answer'
    obtain ⟨below, above⟩ := (number_beq_iff _ _).mp (alike a (by simp))
    obtain ⟨below', above'⟩ := (number_beq_iff _ _).mp (alike b (by simp))
    exact (number_beq_iff _ _).mpr ⟨max_number_le_max below below', max_number_le_max above above'⟩
  · intro m member v range _ _ point within
    left
    intro x x' y z _ _ order answer answer'
    rw [greater_answers] at answer answer'
    obtain rfl := Except.ok.inj answer
    obtain rfl := Except.ok.inj answer'
    have each : ∀ n ∈ [a, b], moved point m x n ≤ moved point m x' n := by
      intro n listed
      unfold moved
      split
      · exact order
      · exact number_le_refl (number within n listed)
    exact max_number_le_max (each a (by simp)) (each b (by simp))

def Equation.longestSide : Equation :=
  (Equation.new "longest side" ["longest", "width", "depth"]).withForm "longest"
    (Form.greater "longest" "width" "depth").rule

theorem longestSide_exact :
    ∃ evaluation, Equation.longestSide.compute (.greater "longest" "width" "depth") roughSides =
        .ok evaluation ∧
      evaluation.value.bounds = ⟨3, 4⟩ ∧
      (Form.greater "longest" "width" "depth").Tight roughSides ["width", "depth"] ⟨3, 4⟩ := by
  have others : (Form.greater "longest" "width" "depth").others Equation.longestSide.members =
      ["width", "depth"] := by decide
  have computed : Equation.longestSide.compute (.greater "longest" "width" "depth") roughSides =
      .ok ⟨"longest", .interval ⟨⟨3, 4⟩, by decide +kernel⟩, 4⟩ := by decide +kernel
  refine ⟨_, computed, rfl, ?_⟩
  have known : ∀ m ∈ Equation.longestSide.members, m ≠ "longest" →
      Equation.isUnknown roughSides m = false := by decide +kernel
  have answers : (Form.greater "longest" "width" "depth").AnswersOn roughSides
      ["width", "depth"] := fun point _ => ⟨_, Form.greater_answers _ _ _ point⟩
  have regular := Form.greater_regularOn "longest" "width" "depth" roughSides
  rw [← others] at answers regular ⊢
  exact (compute_exact known answers regular).1 _ computed

end Narrowing
