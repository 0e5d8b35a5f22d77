import Narrowing.Equation.Corner
import Narrowing.Proofs.Equation.Choice
import Narrowing.Proofs.Variable.History

/-!
The corners of a box and the value they collapse to. The corners of known members are the ways to
take an end of each of them. An equation that applies evaluates to a value that may be stored for
the target of its form, or fails at that target: a form read a name that is not bound, or the
outputs are no value.
-/
namespace Narrowing

namespace Inputs
variable {κ : Type}

def on (names : List String) (number : String → κ) : Inputs κ :=
  ofList (names.map fun name => (name, number name))

theorem on_snoc (names : List String) (name : String) (number : String → κ) :
    on (names ++ [name]) number = (on names number).bind name (number name) := by
  simp [on, ofList]

theorem find_on (names : List String) (number : String → κ) (name : String) :
    (on names number).find? name = if name ∈ names then some (number name) else none := by
  induction names using List.reverseRecOn with
  | nil => rfl
  | append_singleton names last ih =>
    rw [on_snoc, find?_bind, ih]
    by_cases same : name = last
    · simp [same]
    · simp [same]

end Inputs

namespace Value

def ends : Value → List Float
  | .scalar x => [x]
  | .interval range => [range.lo, range.hi]

theorem Storable.contains_end {value : Value} (storable : value.Storable) {x : Float}
    (member : x ∈ value.ends) : value.bounds.Contains x := by
  cases value with
  | scalar y =>
    obtain rfl : x = y := by simpa [ends] using member
    exact storable.contains_lo
  | interval range =>
    simp only [ends, List.mem_cons, List.not_mem_nil, or_false] at member
    rcases member with lower | upper
    · rw [lower]
      exact range.contains_lo
    · rw [upper]
      exact range.contains_hi

end Value

namespace Corner

def moved (point : String → Float) (member : String) (x : Float) : String → Float :=
  fun n => if n = member then x else point n

/-- The corners of the box that these ends span, later members varying slowest. -/
def spanned {κ : Type} (ends : String → List κ) (members : List String) : List (Inputs κ) :=
  members.foldl (fun corners m => (ends m).flatMap fun x => corners.map (·.bind m x)) [.empty]

theorem spanned_snoc {κ : Type} (ends : String → List κ) (members : List String) (last : String) :
    spanned ends (members ++ [last]) =
      (ends last).flatMap fun x => (spanned ends members).map (·.bind last x) := by
  simp [spanned, List.foldl_append]

/-- The corners are the choices of an end of each member. -/
theorem mem_spanned {κ : Type} [Nonempty κ] {ends : String → List κ} {members : List String}
    (c : Inputs κ) : c ∈ spanned ends members ↔
      ∃ pick : String → κ, (∀ m ∈ members, pick m ∈ ends m) ∧ c = .on members pick := by
  induction members using List.reverseRecOn generalizing c with
  | nil =>
    refine List.mem_singleton.trans ⟨fun empty => ?_, fun ⟨_, _, empty⟩ => empty⟩
    exact ⟨fun _ => Classical.arbitrary κ, by simp, empty⟩
  | append_singleton members last ih =>
    simp only [spanned_snoc, List.mem_flatMap, List.mem_map]
    constructor
    · intro ⟨x, ending, c', member, eq⟩
      obtain ⟨pick, picks, rfl⟩ := (ih c').mp member
      refine ⟨Function.update pick last x, ?_, ?_⟩
      · -- An earlier occurrence of the last member is overwritten by the later one.
        intro m member
        by_cases same : m = last
        · simpa [same] using ending
        · simpa [same] using picks m (by simpa [same] using member)
      · rw [← eq]
        ext1
        funext n
        rw [Inputs.find?_bind, Inputs.find_on, Inputs.find_on]
        by_cases same : n = last
        · simp [same]
        · simp [same]
    · intro ⟨pick, picks, eq⟩
      refine ⟨pick last, picks last (by simp), .on members pick, ?_, ?_⟩
      · exact (ih _).mpr ⟨pick, fun m member => picks m (by simp [member]), rfl⟩
      · rw [eq, Inputs.on_snoc]

def endsIn (store : Store) (member : String) : List Float :=
  ((store.find? member).map (·.value.ends)).getD []

theorem mem_endsIn {store : Store} {member : String} {x : Float} :
    x ∈ endsIn store member ↔ ∃ v, store.find? member = some v ∧ x ∈ v.value.ends := by
  cases found : store.find? member with
  | none => simp [endsIn, found]
  | some v => simp [endsIn, found]

def Picks (store : Store) (members : List String) (pick : String → Float) : Prop :=
  ∀ m ∈ members, ∃ v, store.find? m = some v ∧ pick m ∈ v.value.ends

theorem extend_known {store : Store} {member : String} {v : Variable}
    (found : store.find? member = some v) (known : v.precision ≠ .unconstrained)
    (corners : List (Inputs Float)) :
    extend store corners member =
      .ok (v.value.ends.flatMap fun x => corners.map (·.bind member x)) := by
  unfold extend
  rw [Store.get_of_find found]
  cases value : v.value with
  | scalar x => simp [value, Value.ends]
  | interval range =>
    have bounded : range.isUnbounded = false := by
      simpa [Variable.precision, value, Value.precision] using known
    simp [value, Value.ends, bounded]

theorem ofMembers_spanned {store : Store} {members : List String}
    (known : ∀ m ∈ members, Equation.isUnknown store m = false) :
    ofMembers store members = .ok (spanned (endsIn store) members) := by
  induction members using List.reverseRecOn with
  | nil => rfl
  | append_singleton members last ih =>
    have listed := ih fun m member => known m (by simp [member])
    obtain ⟨v, found, informative⟩ := Equation.find_of_known (known last (by simp))
    have ends : endsIn store last = v.value.ends := by simp [endsIn, found]
    unfold ofMembers at listed ⊢
    rw [List.foldlM_append, listed, spanned_snoc, ends]
    simp [bind, Except.bind, extend_known found informative, pure, Except.pure]

theorem ofMembers_known {store : Store} {members : List String}
    (known : ∀ m ∈ members, Equation.isUnknown store m = false) :
    ∃ corners, ofMembers store members = .ok corners ∧
      ∀ c, c ∈ corners ↔ ∃ pick, Picks store members pick ∧ c = .on members pick := by
  refine ⟨spanned (endsIn store) members, ofMembers_spanned known, fun c => ?_⟩
  simp only [mem_spanned, mem_endsIn]
  rfl

/- `R z` is what the fold decides: `z ≤ ·` for the least number, `· ≤ z` for the greatest. -/
theorem foldl_extreme {R : Float → Float → Prop} {op : Float → Float → Float}
    (number_op : ∀ x y, x.isNaN = false → y.isNaN = false → (op x y).isNaN = false)
    (op_iff : ∀ x y z, x.isNaN = false → y.isNaN = false → (R z (op x y) ↔ R z x ∧ R z y))
    {outputs : List Float} (numbers : ∀ x ∈ outputs, x.isNaN = false) {start : Float}
    (first : start.isNaN = false) :
    (outputs.foldl op start).isNaN = false ∧
      ∀ z, R z (outputs.foldl op start) ↔ R z start ∧ ∀ x ∈ outputs, R z x := by
  induction outputs generalizing start with
  | nil => exact ⟨first, by simp⟩
  | cons x rest ih =>
    obtain ⟨number, later⟩ := List.forall_mem_cons.mp numbers
    obtain ⟨result, bound⟩ := ih later (number_op start x first number)
    refine ⟨result, fun z => ?_⟩
    rw [List.foldl_cons, bound z, op_iff start x z first number, List.forall_mem_cons, and_assoc]

theorem foldl_mem {op : Float → Float → Float} (chooses : ∀ x y, op x y = x ∨ op x y = y)
    (outputs : List Float) (start : Float) : outputs.foldl op start ∈ start :: outputs := by
  induction outputs generalizing start with
  | nil => simp
  | cons x rest ih =>
    have later := ih (op start x)
    rw [List.foldl_cons]
    rcases chooses start x with same | same
    · rw [same] at later ⊢
      rcases List.mem_cons.mp later with first | later
      · simp [first]
      · simp [later]
    · rw [same] at later ⊢
      exact List.mem_cons_of_mem _ later

theorem foldl_min_spec {outputs : List Float} (numbers : ∀ x ∈ outputs, x.isNaN = false) :
    (outputs.foldl min infinity).isNaN = false ∧
      ∀ z, z ≤ outputs.foldl min infinity ↔ z ≤ infinity ∧ ∀ x ∈ outputs, z ≤ x := by
  have first : infinity.isNaN = false := by decide +kernel
  refine foldl_extreme ?_ ?_ numbers first
  · intro x y hx hy
    rw [min_number_eq]
    split
    · exact hx
    · exact hy
  · intro x y z hx hy
    exact le_min_number_iff hx hy

theorem foldl_max_spec {outputs : List Float} (numbers : ∀ x ∈ outputs, x.isNaN = false) :
    (outputs.foldl max (-infinity)).isNaN = false ∧
      ∀ z, outputs.foldl max (-infinity) ≤ z ↔ -infinity ≤ z ∧ ∀ x ∈ outputs, x ≤ z := by
  have first : (-infinity).isNaN = false := by decide +kernel
  refine foldl_extreme (R := fun z x => x ≤ z) ?_ ?_ numbers first
  · intro x y hx hy
    rw [max_number_eq]
    split
    · exact hy
    · exact hx
  · intro x y z hx hy
    exact max_number_le_iff hx hy

theorem collapse_ok_storable {target : String} {outputs : List Float} {value : Value}
    (collapsed : collapse target outputs = .ok value) : value.Storable := by
  unfold collapse at collapsed
  simp only at collapsed
  split at collapsed
  · split at collapsed
    · rename_i finite
      obtain rfl := Except.ok.inj collapsed
      exact finite
    · simp at collapsed
  · split at collapsed
    · obtain rfl := Except.ok.inj collapsed
      exact trivial
    · simp at collapsed

theorem collapse_error {target : String} {outputs : List Float} {fault : EquationFault}
    (failed : collapse target outputs = .error fault) : fault = .nonFinite target := by
  unfold collapse at failed
  simp only at failed
  split at failed
  · split at failed
    · simp at failed
    · exact (Except.error.inj failed).symm
  · split at failed
    · simp at failed
    · exact (Except.error.inj failed).symm

/-- Outputs on both sides of a finite number collapse to a value that holds it. -/
theorem collapse_encloses {target : String} {outputs : List Float}
    (numbers : ∀ x ∈ outputs, x.isNaN = false) {t : Float} (finite : t.isFinite = true)
    (below : ∃ x ∈ outputs, x ≤ t) (above : ∃ y ∈ outputs, t ≤ y) :
    ∃ value, collapse target outputs = .ok value ∧ value.bounds.Contains t := by
  obtain ⟨x, hx, below⟩ := below
  obtain ⟨y, hy, above⟩ := above
  obtain ⟨loNumber, least⟩ := foldl_min_spec numbers
  obtain ⟨hiNumber, greatest⟩ := foldl_max_spec numbers
  have lo : outputs.foldl min infinity ≤ t :=
    number_le_trans (((least _).mp (number_le_refl loNumber)).2 x hx) below
  have hi : t ≤ outputs.foldl max (-infinity) :=
    number_le_trans above (((greatest _).mp (number_le_refl hiNumber)).2 y hy)
  unfold collapse
  by_cases agreed : (outputs.foldl min infinity == outputs.foldl max (-infinity)) = true
  · have same : (outputs.foldl min infinity == t) = true :=
      (number_beq_iff _ _).mpr ⟨lo, number_le_trans hi ((number_beq_iff _ _).mp agreed).2⟩
    rw [number_beq_comm] at same
    have exactly := finite_of_beq same finite
    refine ⟨.scalar (outputs.foldl min infinity), ?_, ?_⟩
    · simp only [agreed, exactly, ↓reduceIte]
    · rw [Value.scalar_contains_iff, number_beq_comm]
      exact same
  · have order := number_le_trans lo hi
    refine ⟨.interval ⟨⟨_, _⟩, order⟩, ?_, lo, hi⟩
    simp only [agreed, Interval.ofEnds, loNumber, hiNumber, Bool.or_self, Bool.false_eq_true,
      ↓reduceIte, order, ↓reduceDIte]

end Corner

namespace Form

def others (f : Form) (members : List String) : List String := members.filter (· ≠ f.target)

theorem mem_others {f : Form} {members : List String} {m : String} :
    m ∈ f.others members ↔ m ∈ members ∧ m ≠ f.target := by
  simp [others]

theorem others_nodup {members : List String} (f : Form) (distinct : members.Nodup) :
    (f.others members).Nodup := distinct.filter _

theorem others_known {store : Store} {members : List String} (f : Form)
    (known : ∀ m ∈ members, m ≠ f.target → Equation.isUnknown store m = false) :
    ∀ m ∈ f.others members, Equation.isUnknown store m = false := by
  intro m member
  obtain ⟨member, other⟩ := mem_others.mp member
  exact known m member other

end Form

namespace Corner

theorem output_error {f : Form} {corner : Inputs Float} {fault : EquationFault}
    (failed : output f corner = .error fault) :
    (∃ cause, fault = .unbound f.target cause) ∨ fault = .nonFinite f.target := by
  unfold output at failed
  split at failed
  · rename_i cause _
    exact Or.inl ⟨cause, (Except.error.inj failed).symm⟩
  · split at failed
    · exact Or.inr (Except.error.inj failed).symm
    · simp at failed

theorem output_ok {f : Form} {corner : Inputs Float} {x : Float} (answered : f.rule corner = .ok x)
    (number : x.isNaN = false) : output f corner = .ok x := by
  unfold output
  simp only [answered, number, Bool.false_eq_true, ↓reduceIte]

theorem answered_of_output {f : Form} {corner : Inputs Float} {x : Float}
    (result : output f corner = .ok x) : f.rule corner = .ok x ∧ x.isNaN = false := by
  unfold output at result
  split at result
  · simp at result
  · rename_i y answer
    split at result
    · simp at result
    · rename_i number
      obtain rfl := Except.ok.inj result
      exact ⟨answer, by simpa using number⟩

theorem answered_of_collected {corners : List (Inputs Float)} {outputs : List Float}
    (collected : corners.mapM (output f) = .ok outputs) :
    corners.map f.rule = outputs.map .ok ∧ ∀ y ∈ outputs, y.isNaN = false := by
  induction corners generalizing outputs with
  | nil =>
    obtain rfl := Except.ok.inj collected
    simp
  | cons corner rest ih =>
    obtain ⟨x, later, first, remaining, rfl⟩ := (mapM_cons_ok_iff _ _ _).mp collected
    obtain ⟨answer, number⟩ := answered_of_output first
    obtain ⟨answers, numbers⟩ := ih remaining
    rw [List.map_cons, List.map_cons, answer, answers]
    exact ⟨rfl, List.forall_mem_cons.mpr ⟨number, numbers⟩⟩

theorem evaluate_of_output_error {members : List String} {f : Form} {store : Store}
    {corners : List (Inputs Float)} {fault : EquationFault}
    (listed : ofMembers store (f.others members) = .ok corners)
    (failed : corners.mapM (output f) = .error fault) : evaluate members f store = .error fault := by
  unfold Form.others at listed
  simp only [evaluate, listed, failed, bind, Except.bind]

theorem evaluate_of_outputs {members : List String} {f : Form} {store : Store}
    {corners : List (Inputs Float)} {outputs : List Float}
    (listed : ofMembers store (f.others members) = .ok corners)
    (collected : corners.mapM (output f) = .ok outputs) :
    evaluate members f store =
      (collapse f.target outputs).map (⟨f.target, ·, corners.length⟩) := by
  unfold Form.others at listed
  simp only [evaluate, listed, collected, bind, Except.bind]
  cases collapse f.target outputs with
  | error fault => rfl
  | ok value => rfl

theorem evaluate_ok_iff (members : List String) (f : Form) (store : Store)
    (evaluation : Evaluation) : evaluate members f store = .ok evaluation ↔
      ∃ corners outputs value, ofMembers store (f.others members) = .ok corners ∧
        corners.mapM (output f) = .ok outputs ∧ collapse f.target outputs = .ok value ∧
        evaluation = ⟨f.target, value, corners.length⟩ := by
  cases listed : ofMembers store (f.others members) with
  | error fault =>
    have failed : evaluate members f store = .error fault := by
      unfold Form.others at listed
      simp only [evaluate, listed, bind, Except.bind]
    simp [failed]
  | ok corners =>
    cases collected : corners.mapM (output f) with
    | error fault => simp [evaluate_of_output_error listed collected, collected]
    | ok outputs =>
      rw [evaluate_of_outputs listed collected]
      cases collapsed : collapse f.target outputs with
      | error fault => simp [Except.map, collected, collapsed]
      | ok value => simp [Except.map, collected, collapsed, eq_comm]

/-- With known members an evaluation yields a value that may be stored for the target, or fails
    at it. -/
theorem evaluate_known {members : List String} {f : Form} {store : Store}
    (known : ∀ m ∈ members, m ≠ f.target → Equation.isUnknown store m = false) :
    (∀ evaluation, evaluate members f store = .ok evaluation →
      evaluation.target = f.target ∧ evaluation.value.Storable) ∧
    (∀ fault, evaluate members f store = .error fault →
      (∃ cause, fault = .unbound f.target cause) ∨ fault = .nonFinite f.target) := by
  obtain ⟨corners, listed, _⟩ := ofMembers_known (f.others_known known)
  cases collected : corners.mapM (output f) with
  | error cause =>
    rw [evaluate_of_output_error listed collected]
    constructor
    · intro evaluation done
      simp at done
    · intro fault failed
      obtain rfl := Except.error.inj failed
      obtain ⟨_, corner, _, _, _, _, refused⟩ := mapM_error collected
      exact output_error refused
  | ok outputs =>
    rw [evaluate_of_outputs listed collected]
    cases collapsed : collapse f.target outputs with
    | error cause =>
      constructor
      · intro evaluation done
        simp [Except.map] at done
      · intro fault failed
        obtain rfl := Except.error.inj failed
        exact Or.inr (collapse_error collapsed)
    | ok value =>
      constructor
      · intro evaluation done
        obtain rfl := Except.ok.inj done
        exact ⟨rfl, collapse_ok_storable collapsed⟩
      · intro fault failed
        simp [Except.map] at failed

end Corner

namespace Equation

theorem evaluate_ok_iff {e : Equation} {store : Store} {f : Form}
    (chosen : e.chooseForm store = .ok f) (evaluation : Evaluation) :
    e.evaluate store = .ok evaluation ↔ Corner.evaluate e.members f store = .ok evaluation := by
  unfold evaluate compute
  rw [chosen]
  simp only
  cases Corner.evaluate e.members f store with
  | error fault => simp [Except.mapError]
  | ok found => simp [Except.mapError]

theorem evaluate_of_applies {e : Equation} {store : Store} (valid : e.fault? = none)
    (applies : e.applies store = true) :
    ∃ f, e.chooseForm store = .ok f ∧ isOpen store f.target = true ∧
      (∀ evaluation, e.evaluate store = .ok evaluation →
        evaluation.target = f.target ∧ evaluation.value.Storable) ∧
      (∀ error, e.evaluate store = .error error → error.equation = e.name ∧
        ((∃ cause, error.fault = .unbound f.target cause) ∨ error.fault = .nonFinite f.target)) := by
  obtain ⟨f, chosen, _, _, opened, known⟩ := chooseForm_of_applies valid applies
  obtain ⟨succeeds, fails⟩ := Corner.evaluate_known known
  refine ⟨f, chosen, opened, ?_, ?_⟩
  · intro evaluation done
    exact succeeds evaluation ((evaluate_ok_iff chosen evaluation).mp done)
  · intro error failed
    unfold evaluate at failed
    simp only [chosen, compute] at failed
    cases result : Corner.evaluate e.members f store with
    | ok found => simp [result, Except.mapError] at failed
    | error fault =>
      simp only [result, Except.mapError] at failed
      obtain rfl := Except.error.inj failed
      exact ⟨rfl, fails fault result⟩

end Equation

end Narrowing
