import Narrowing.Proofs.Equation.Enclosure
import Narrowing.Proofs.Solver.Run

/-!
A run never discards a solution. Where every form is regular on the boxes it is evaluated over, a
solution that the initial store allows is allowed by every evaluation, every update and every
later store, and the only way to fail is a proposal that says nothing.
-/
namespace Narrowing

theorem Proposal.step_keeps {q : Proposal} {store : Store} {name : String} {t : Float}
    (held : (store.subject name).value.bounds.Contains t)
    (possible : q.target = name → q.value.bounds.Contains t) :
    ((q.step store).store.subject name).value.bounds.Contains t := by
  cases outcome : (q.step store).outcome with
  | error error =>
    obtain ⟨_, left⟩ := Proposal.step_refused outcome
    rw [left, Proposal.extended_subject]
    exact held
  | ok changed =>
    obtain ⟨w, met, subject⟩ := Proposal.step_subject outcome
    rw [subject]
    split
    · rename_i same
      subst name
      exact Variable.meet_keeps held (possible rfl) met
    · exact held

theorem Application.steps_keep {store : Store} {proposals : List Proposal} {name : String}
    {t : Float} (held : (store.subject name).value.bounds.Contains t)
    (possible : ∀ q ∈ proposals, q.target = name → q.value.bounds.Contains t) :
    ((steps store proposals).store.subject name).value.bounds.Contains t := by
  refine steps_preserve (fun s => (s.subject name).value.bounds.Contains t) ?_ held
  intro q member store held
  exact Proposal.step_keeps held (possible q member)

theorem Application.steps_error_of_possible {store : Store} {proposals : List Proposal}
    {truth : String → Float} {error : SolveError}
    (storable : ∀ q ∈ proposals, q.value.Storable)
    (held : ∀ q ∈ proposals, (store.subject q.target).value.bounds.Contains (truth q.target))
    (possible : ∀ q ∈ proposals, q.value.bounds.Contains (truth q.target))
    (failed : (steps store proposals).outcome = .error error) :
    ∃ equation target, error = .update equation target (.unconstrained target) := by
  obtain ⟨before, q, after, updates, rfl, _, refused, _⟩ := steps_error failed
  obtain ⟨⟨cause, met, rfl⟩, _⟩ := Proposal.step_refused refused
  have here : q ∈ before ++ q :: after := by simp
  have kept : ((steps store before).store.subject q.target).value.bounds.Contains
      (truth q.target) := by
    apply steps_keep (held q here)
    intro r member same
    rw [← same]
    exact possible r (by simp [member])
  have nothing := Variable.meet_error_of_possible (storable q here) kept (possible q here) met
  rw [Store.subject_name] at nothing
  exact ⟨q.equation, q.target, by rw [nothing]⟩

namespace Catalog

/-- A finite number for every member that every form confirms. -/
structure SolvedBy (catalog : Catalog) (truth : String → Float) : Prop where
  finite : ∀ e ∈ catalog.toList, ∀ m ∈ e.members, (truth m).isFinite = true
  confirmed : ∀ e ∈ catalog.toList, ∀ m ∈ e.members, ∀ f, e.form m = .ok f →
    ∃ y, f.rule (.on (f.others e.members) truth) = .ok y ∧ (y == truth m) = true

def Admits (catalog : Catalog) (truth : String → Float) (store : Store) : Prop :=
  ∀ e ∈ catalog.toList, ∀ m ∈ e.members, ∀ v, store.find? m = some v →
    v.value.bounds.Contains (truth m)

def ReadsMembers (catalog : Catalog) : Prop :=
  ∀ e ∈ catalog.toList, ∀ m ∈ e.members, ∀ f, e.form m = .ok f → f.ReadsOnly (f.others e.members)

end Catalog

def Progress.Evaluates (p : Progress) (catalog : Catalog) (e : Equation) : Prop :=
  ∃ before after proposals, p.viable catalog = before ++ e :: after ∧
    before.mapM (Equation.propose p.store) = .ok proposals

/-- In every cycle that a run enters, the forms it evaluates are regular on their boxes. -/
def RegularRun (catalog : Catalog) (limit : Limit) (store : Store) : Prop :=
  ∀ k p, k < limit.maxCycles → Entered catalog .silent ⟨store, .empty, 0⟩ () k p () →
    ∀ e f, p.Evaluates catalog e → e.chooseForm p.store = .ok f →
      f.RegularOn p.store (f.others e.members)

section
variable {catalog : Catalog} {truth : String → Float} (solved : catalog.SolvedBy truth)
include solved

/- A missing member is open, so what is proposed for it meets the whole line. -/
theorem admits_iff_subject (store : Store) : catalog.Admits truth store ↔
    ∀ e ∈ catalog.toList, ∀ m ∈ e.members,
      (store.subject m).value.bounds.Contains (truth m) := by
  constructor
  · intro admitted e he m member
    cases found : store.find? m with
    | some v =>
      rw [Store.subject_of_find found]
      exact admitted e he m member v found
    | none =>
      rw [Store.subject_of_missing found]
      have number := number_of_finite (solved.finite e he m member)
      exact ⟨neg_infinity_le_number number, number_le_infinity number⟩
  · intro held e he m member v found
    rw [← Store.subject_of_find found]
    exact held e he m member

theorem proposal_holds (reads : catalog.ReadsMembers) {p : Progress}
    (admitted : catalog.Admits truth p.store) {e : Equation} (viable : e ∈ p.viable catalog)
    (regular : ∀ f, e.chooseForm p.store = .ok f → f.RegularOn p.store (f.others e.members)) :
    ∃ q, e.propose p.store = .ok q ∧ q.target ∈ e.members ∧
      q.value.bounds.Contains (truth q.target) := by
  obtain ⟨listed, valid, applies⟩ := viable_sound viable
  obtain ⟨f, chosen, form, member, _, known⟩ := Equation.chooseForm_of_applies valid applies
  obtain ⟨y, answer, right⟩ := solved.confirmed e listed f.target member f form
  have within : Corner.Within p.store (f.others e.members) truth := by
    intro m other
    obtain ⟨v, found, _⟩ := Equation.find_of_known (f.others_known known m other)
    exact ⟨v, found, admitted e listed m (Form.mem_others.mp other).1 v found⟩
  have finite : y.isFinite = true := by
    rw [number_beq_comm] at right
    exact finite_of_beq right (solved.finite e listed f.target member)
  obtain ⟨evaluation, computed, target, holds⟩ := Corner.evaluate_encloses known
    (reads e listed f.target member f form) (regular f chosen) within answer finite
  refine ⟨⟨e.name, evaluation⟩, ?_, ?_, ?_⟩
  · rw [Equation.propose_ok_iff]
    refine ⟨rfl, ?_⟩
    unfold Equation.evaluate Equation.compute
    rw [chosen]
    simp only [computed]
    rfl
  · change evaluation.target ∈ e.members
    rw [target]
    exact member
  · change evaluation.value.bounds.Contains (truth evaluation.target)
    rw [target]
    exact Bounds.contains_of_beq right holds

theorem proposals_hold (reads : catalog.ReadsMembers) {p : Progress}
    (admitted : catalog.Admits truth p.store)
    (regular : ∀ e f, p.Evaluates catalog e → e.chooseForm p.store = .ok f →
      f.RegularOn p.store (f.others e.members)) :
    ∃ proposals, (p.viable catalog).mapM (Equation.propose p.store) = .ok proposals ∧
      ∀ q ∈ proposals, (∃ e ∈ catalog.toList, q.target ∈ e.members) ∧
        q.value.bounds.Contains (truth q.target) := by
  have each : ∀ e, p.Evaluates catalog e → e ∈ catalog.toList ∧
      ∃ q, e.propose p.store = .ok q ∧ q.target ∈ e.members ∧
        q.value.bounds.Contains (truth q.target) := by
    intro e evaluates
    have member : e ∈ p.viable catalog := by
      obtain ⟨before, after, _, viable, _⟩ := evaluates
      exact viable_of_split viable
    exact ⟨(viable_sound member).1,
      proposal_holds solved reads admitted member fun f => regular e f evaluates⟩
  cases collected : (p.viable catalog).mapM (Equation.propose p.store) with
  | error error =>
    obtain ⟨before, e, after, proposals, viable, proposed, failed⟩ := mapM_error collected
    obtain ⟨_, q, proposal, _⟩ := each e ⟨before, after, proposals, viable, proposed⟩
    simp [failed] at proposal
  | ok proposals =>
    refine ⟨proposals, rfl, ?_⟩
    intro q member
    obtain ⟨earlier, later, rfl⟩ := List.append_of_mem member
    obtain ⟨before, e, after, viable, proposed, proposal⟩ := mapM_ok_split collected
    obtain ⟨listed, r, proposal', target, holds⟩ := each e ⟨before, after, earlier, viable, proposed⟩
    obtain rfl := Except.ok.inj (proposal.symm.trans proposal')
    exact ⟨⟨e, listed, target⟩, holds⟩

/-- A regular cycle keeps the solution, and fails only at a proposal that says nothing. -/
theorem cycle_keeps (reads : catalog.ReadsMembers) {σ : Type} (observer : Observer σ) (cycle : Nat)
    {p : Progress} (state : σ) (admitted : catalog.Admits truth p.store)
    (regular : ∀ e f, p.Evaluates catalog e → e.chooseForm p.store = .ok f →
      f.RegularOn p.store (f.others e.members)) :
    catalog.Admits truth (runCycle catalog observer cycle p state).progress.store ∧
      ∀ error, (runCycle catalog observer cycle p state).verdict = .fails error →
        ∃ equation target, error = .update equation target (.unconstrained target) := by
  obtain ⟨proposals, proposed, each⟩ := proposals_hold solved reads admitted regular
  have admissible := proposals_admissible (fun _ member => member) proposed
  have held := (admits_iff_subject solved p.store).mp admitted
  have kept : catalog.Admits truth (applyAll p.store proposals).store := by
    rw [applyAll_eq_steps admissible, admits_iff_subject solved]
    intro e listed m member
    apply Application.steps_keep (held e listed m member)
    intro q hq same
    rw [← same]
    exact (each q hq).2
  have course := runCycle_course catalog observer cycle p state
  generalize (runCycle catalog observer cycle p state).progress = reached at course ⊢
  generalize (runCycle catalog observer cycle p state).verdict = verdict at course ⊢
  cases course with
  | idle status => exact ⟨admitted, by simp⟩
  | misevaluated failed => simp [proposed] at failed
  | refused proposed' failed =>
    obtain rfl := Except.ok.inj (proposed.symm.trans proposed')
    refine ⟨kept, ?_⟩
    intro error same
    obtain rfl := Verdict.fails.inj same
    rw [applyAll_eq_steps admissible] at failed
    refine Application.steps_error_of_possible admissible.values_storable ?_
      (fun q hq => (each q hq).2) failed
    intro q hq
    obtain ⟨⟨e, listed, target⟩, _⟩ := each q hq
    exact held e listed q.target target
  | applied proposed' taken passed =>
    obtain rfl := Except.ok.inj (proposed.symm.trans proposed')
    refine ⟨kept, ?_⟩
    intro error same
    exact absurd same (passed error)

end

/-- Whatever the limit, a run keeps every solution that its initial store allows, and no error
    but that of a proposal that says nothing ends it. -/
theorem solve_keeps_solution {catalog : Catalog} {truth : String → Float} {store : Store}
    (limit : Limit) (solved : catalog.SolvedBy truth) (admitted : catalog.Admits truth store)
    (reads : catalog.ReadsMembers) (regular : RegularRun catalog limit store) :
    (∀ error, (solveUnobserved catalog limit store).result = .error error →
      ∃ equation target, error = .update equation target (.unconstrained target)) ∧
    catalog.Admits truth (solveUnobserved catalog limit store).store := by
  have step : ∀ k p s, k < limit.maxCycles →
      Entered catalog .silent ⟨store, .empty, 0⟩ () k p s → catalog.Admits truth p.store →
      catalog.Admits truth (runCycle catalog .silent (k + 1) p s).progress.store :=
    fun k p s below entered here =>
      (cycle_keeps solved reads .silent (k + 1) s here (regular k p below entered)).1
  have ending := solve_ending catalog limit .silent () store
  refine ⟨?_, ending.invariant admitted step⟩
  intro error failed
  obtain ⟨k, p, s, below, entered, verdict, _⟩ := ending.failure failed
  have here := entered.invariant admitted step (Nat.le_of_lt below)
  have regular := regular k p below entered
  exact (cycle_keeps solved reads .silent (k + 1) s here regular).2 error verdict

def Form.copying (target source : String) : Form := ⟨target, fun inputs => inputs.get source⟩

theorem Form.copying_answers (target source : String) (point : String → Float) :
    (copying target source).rule (.on [source] point) = .ok (point source) := by
  change Inputs.get _ source = _
  unfold Inputs.get
  rw [Inputs.find_on, if_pos (by simp)]

theorem Form.copying_readsOnly (target source : String) :
    (copying target source).ReadsOnly [source] := by
  intro inputs cause failed
  change Inputs.get inputs source = .error cause at failed
  unfold Inputs.get at failed
  split at failed
  · simp at failed
  · rename_i missing
    obtain rfl := Except.error.inj failed
    exact ⟨by simp, missing⟩

theorem Form.copying_regularOn (target source : String) (store : Store) :
    (copying target source).RegularOn store [source] := by
  refine ⟨?_, ?_, ?_⟩
  · intro point y within answer
    rw [copying_answers] at answer
    obtain rfl := Except.ok.inj answer
    obtain ⟨v, _, inside⟩ := within source (by simp)
    exact Bounds.number_of_contains inside
  · intro p q y z _ _ alike answer answer'
    rw [copying_answers] at answer answer'
    obtain rfl := Except.ok.inj answer
    obtain rfl := Except.ok.inj answer'
    exact alike source (by simp)
  · intro m member v range _ _ point _
    left
    intro a b y z _ _ order answer answer'
    obtain rfl : m = source := by simpa using member
    rw [copying_answers] at answer answer'
    obtain rfl := Except.ok.inj answer
    obtain rfl := Except.ok.inj answer'
    simpa [Corner.moved] using order

def Equation.square : Equation :=
  ((Equation.new "square" ["length", "width"]).withForm "length"
    (Form.copying "length" "width").rule).withForm "width" (Form.copying "width" "length").rule

def squares : Catalog := ⟨.ofList [.square], by decide +kernel⟩

theorem squares_forms {e : Equation} (listed : e ∈ squares.toList) {f : Form}
    (form : f ∈ e.forms.entries) :
    ∃ target source, f = .copying target source ∧ f.others e.members = [source] := by
  obtain rfl : e = .square := List.mem_singleton.mp listed
  have entries : Equation.square.forms.entries =
      [.copying "length" "width", .copying "width" "length"] := rfl
  rw [entries] at form
  simp only [List.mem_cons, List.not_mem_nil, or_false] at form
  rcases form with rfl | rfl
  · exact ⟨"length", "width", rfl, by decide⟩
  · exact ⟨"width", "length", rfl, by decide⟩

def someSquare : Store := ⟨.ofList [Variable.ranged]⟩

theorem solve_keeps_solution_square :
    squares.SolvedBy (fun _ => 1.5) ∧ squares.Admits (fun _ => 1.5) someSquare ∧
      (solveUnobserved squares .standard someSquare).result.isOk = true ∧
      squares.Admits (fun _ => 1.5) (solveUnobserved squares .standard someSquare).store := by
  have solved : squares.SolvedBy (fun _ => 1.5) := by
    constructor
    · intro e _ m _
      decide +kernel
    · intro e listed m _ f form
      obtain ⟨target, source, rfl, others⟩ := squares_forms listed (Equation.form_found form).1
      rw [others, Form.copying_answers]
      exact ⟨1.5, rfl, by decide +kernel⟩
  have admitted : squares.Admits (fun _ => 1.5) someSquare := by
    intro e _ m _ v found
    have member : v ∈ someSquare.roster.entries := Roster.mem_of_find found
    obtain rfl := List.mem_singleton.mp member
    exact (by decide +kernel : Variable.ranged.value.bounds.Contains 1.5)
  have reads : squares.ReadsMembers := by
    intro e listed m _ f form
    obtain ⟨target, source, rfl, others⟩ := squares_forms listed (Equation.form_found form).1
    rw [others]
    exact Form.copying_readsOnly target source
  have regular : RegularRun squares .standard someSquare := by
    intro k p _ _ e f evaluates chosen
    obtain ⟨before, after, _, viable, _⟩ := evaluates
    obtain ⟨listed, _⟩ := viable_sound (viable_of_split viable)
    obtain ⟨target, source, rfl, others⟩ := squares_forms listed (Equation.chooseForm_found chosen)
    rw [others]
    exact Form.copying_regularOn target source p.store
  exact ⟨solved, admitted, rfl, (solve_keeps_solution .standard solved admitted reads regular).2⟩

end Narrowing
