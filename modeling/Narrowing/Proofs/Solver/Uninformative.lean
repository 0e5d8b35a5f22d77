import Narrowing.Proofs.Solver.Trace

/-!
Proposals that say nothing. The outputs at the corners of a box may be infinite, and when they reach
both infinities they collapse to the whole line. An open variable refuses that, so the run fails,
and it does so in no other case; a variable that a number has settled in the same cycle takes it.
-/
namespace Narrowing
variable {σ : Type}

namespace Corner

/- A fold from one end that picks one of two numbers at a time reaches the other end exactly when
   one of the outputs is there. -/
theorem foldl_reaches_iff {op : Float → Float → Float} (chooses : ∀ x y, op x y = x ∨ op x y = y)
    {outputs : List Float} {start bound : Float} (apart : (start == bound) = false)
    (reaches : ∀ x ∈ outputs, (x == bound) = true → (outputs.foldl op start == bound) = true) :
    (outputs.foldl op start == bound) = true ↔ ∃ x ∈ outputs, (x == bound) = true := by
  constructor
  · intro reached
    rcases List.mem_cons.mp (foldl_mem chooses outputs start) with same | member
    · simp [same, apart] at reached
    · exact ⟨_, member, reached⟩
  · rintro ⟨x, member, there⟩
    exact reaches x member there

theorem least_infinite_iff {outputs : List Float} (numbers : ∀ x ∈ outputs, x.isNaN = false) :
    (outputs.foldl min infinity == -infinity) = true ↔ ∃ x ∈ outputs, (x == -infinity) = true := by
  obtain ⟨number, least⟩ := foldl_min_spec numbers
  refine foldl_reaches_iff min_number_chooses (by decide +kernel) ?_
  intro x member infinite
  have below := ((least _).mp (number_le_refl number)).2 x member
  exact (number_beq_iff _ _).mpr ⟨number_le_trans below ((number_beq_iff _ _).mp infinite).1,
    neg_infinity_le_number number⟩

theorem greatest_infinite_iff {outputs : List Float} (numbers : ∀ x ∈ outputs, x.isNaN = false) :
    (outputs.foldl max (-infinity) == infinity) = true ↔
      ∃ x ∈ outputs, (x == infinity) = true := by
  obtain ⟨number, greatest⟩ := foldl_max_spec numbers
  refine foldl_reaches_iff max_number_chooses (by decide +kernel) ?_
  intro x member infinite
  have above := ((greatest _).mp (number_le_refl number)).2 x member
  exact (number_beq_iff _ _).mpr ⟨number_le_infinity number,
    number_le_trans ((number_beq_iff _ _).mp infinite).2 above⟩

theorem collapse_whole_iff (target : String) {outputs : List Float}
    (numbers : ∀ x ∈ outputs, x.isNaN = false) :
    (∃ range, collapse target outputs = .ok (.interval range) ∧ range.isUnbounded = true) ↔
      (∃ x ∈ outputs, (x == -infinity) = true) ∧ ∃ y ∈ outputs, (y == infinity) = true := by
  rw [← least_infinite_iff numbers, ← greatest_infinite_iff numbers]
  obtain ⟨loNumber, _⟩ := foldl_min_spec numbers
  obtain ⟨hiNumber, _⟩ := foldl_max_spec numbers
  unfold collapse
  generalize outputs.foldl min infinity = lo at loNumber
  generalize outputs.foldl max (-infinity) = hi at hiNumber
  simp only
  constructor
  · rintro ⟨range, collapsed, whole⟩
    split at collapsed
    · split at collapsed <;> simp at collapsed
    · unfold Interval.ofEnds at collapsed
      by_cases order : lo ≤ hi
      · simp only [loNumber, hiNumber, order, Bool.or_self, Bool.false_eq_true, ↓reduceIte,
          ↓reduceDIte] at collapsed
        obtain rfl := Value.interval.inj (Except.ok.inj collapsed)
        exact Bool.and_eq_true_iff.mp whole
      · simp only [loNumber, hiNumber, order, Bool.or_self, Bool.false_eq_true, ↓reduceIte,
          ↓reduceDIte, reduceCtorEq] at collapsed
  · rintro ⟨low, high⟩
    have distinct : ¬ (lo == hi) = true := by
      intro same
      rw [number_beq_congr same, number_beq_comm] at low
      exact absurd (number_beq_trans low high) (by decide +kernel)
    have order : lo ≤ hi :=
      number_le_trans ((number_beq_iff _ _).mp low).1 (neg_infinity_le_number hiNumber)
    refine ⟨⟨⟨lo, hi⟩, order⟩, ?_, Bool.and_eq_true_iff.mpr ⟨low, high⟩⟩
    simp only [distinct, Interval.ofEnds, loNumber, hiNumber, order, Bool.or_self,
      Bool.false_eq_true, ↓reduceIte, ↓reduceDIte]

end Corner

namespace Equation

def SpansLine (e : Equation) (store : Store) : Prop :=
  ∃ f corners outputs, e.chooseForm store = .ok f ∧
    Corner.ofMembers store (f.others e.members) = .ok corners ∧
    corners.mapM (Corner.output f) = .ok outputs ∧
    (∃ x ∈ outputs, (x == -infinity) = true) ∧ ∃ y ∈ outputs, (y == infinity) = true

theorem spansLine_iff (e : Equation) (store : Store) :
    e.SpansLine store ↔ ∃ evaluation range, e.evaluate store = .ok evaluation ∧
      evaluation.value = .interval range ∧ range.isUnbounded = true := by
  constructor
  · rintro ⟨f, corners, outputs, chosen, listed, collected, infinite⟩
    obtain ⟨range, collapsed, whole⟩ :=
      (Corner.collapse_whole_iff f.target (Corner.answered_of_collected collected).2).mpr infinite
    refine ⟨⟨f.target, .interval range, corners.length⟩, range, ?_, rfl, whole⟩
    rw [evaluate_ok_iff chosen, Corner.evaluate_ok_iff]
    exact ⟨corners, outputs, _, listed, collected, collapsed, rfl⟩
  · rintro ⟨evaluation, range, evaluated, ranged, whole⟩
    cases chosen : e.chooseForm store with
    | error error =>
      unfold evaluate at evaluated
      simp [chosen] at evaluated
    | ok f =>
      rw [evaluate_ok_iff chosen, Corner.evaluate_ok_iff] at evaluated
      obtain ⟨corners, outputs, value, listed, collected, collapsed, rfl⟩ := evaluated
      obtain rfl : value = .interval range := ranged
      have numbers := (Corner.answered_of_collected collected).2
      exact ⟨f, corners, outputs, chosen, listed, collected,
        (Corner.collapse_whole_iff f.target numbers).mp ⟨range, collapsed, whole⟩⟩

end Equation

theorem Variable.meet_unconstrained_iff (v : Variable) (proposed : Value) (name : String) :
    v.meet proposed = .error (.unconstrained name) ↔
      name = v.name ∧ (∃ current, v.value = .interval current) ∧
        ∃ range, proposed = .interval range ∧ range.isUnbounded = true := by
  constructor
  · intro refused
    cases known : v.value with
    | scalar x =>
      unfold meet at refused
      rw [known] at refused
      simp only at refused
      split at refused
      · simp at refused
      · cases proposed <;> simp at refused
    | interval current =>
      rw [meet_of_interval known] at refused
      rcases update_error_cases refused with
        ⟨_, _, impossible⟩ | ⟨range, rfl, whole, same⟩ | ⟨_, _, _, _, _, impossible⟩ |
        ⟨_, _, _, impossible⟩
      · simp at impossible
      · exact ⟨VariableError.unconstrained.inj same, ⟨current, rfl⟩, range, rfl, whole⟩
      · simp at impossible
      · simp at impossible
  · rintro ⟨rfl, ⟨current, known⟩, range, rfl, whole⟩
    rw [meet_of_interval known]
    unfold update
    rw [known]
    simp [whole]

/-- Of the proposals of a cycle the first one that says nothing is refused, if those before it are
    taken and none of them is a number for its target. -/
theorem applyAll_unconstrained_iff {store : Store} {proposals : List Proposal}
    (admissible : Admissible store proposals) (equation target name : String) :
    (applyAll store proposals).outcome = .error (.update equation target (.unconstrained name)) ↔
      name = target ∧ ∃ before q after range, proposals = before ++ q :: after ∧
        q.equation = equation ∧ q.target = target ∧
        (∃ updates, (applyAll store before).outcome = .ok updates) ∧
        (∀ r ∈ before, r.target = target → ∀ x, r.value ≠ .scalar x) ∧
        q.value = .interval range ∧ range.isUnbounded = true := by
  have part : ∀ {before q after}, proposals = before ++ q :: after →
      applyAll store before = Application.steps store before ∧
        ∃ current, (store.subject q.target).value = .interval current := by
    rintro before q after rfl
    refine ⟨applyAll_eq_steps (admissible.among fun r member => by simp [member]), ?_⟩
    exact (open_iff_subject store q.target).mp (admissible.targets_open q (by simp))
  rw [applyAll_eq_steps admissible]
  constructor
  · intro failed
    obtain ⟨before, q, after, updates, split, taken, refused, _⟩ := Application.steps_error failed
    obtain ⟨⟨cause, met, same⟩, _⟩ := Proposal.step_refused refused
    obtain ⟨rfl, rfl, rfl⟩ := SolveError.update.inj same
    obtain ⟨named, opened, range, ranged, whole⟩ :=
      (Variable.meet_unconstrained_iff _ _ _).mp met
    obtain ⟨sofar, current, known⟩ := part split
    rw [Store.subject_name] at named
    refine ⟨named, before, q, after, range, split, rfl, rfl, ?_, ?_, ranged, whole⟩
    · rw [sofar]
      exact ⟨updates, taken⟩
    · exact (Application.steps_open_iff taken known).mp opened
  · rintro ⟨rfl, before, q, after, range, split, rfl, rfl, ⟨updates, taken⟩, none, ranged, whole⟩
    obtain ⟨sofar, current, known⟩ := part split
    rw [sofar] at taken
    have opened := (Application.steps_open_iff taken known).mpr none
    have met := (Variable.meet_unconstrained_iff
      ((Application.steps store before).store.subject q.target) q.value q.target).mpr
      ⟨(Store.subject_name _ _).symm, opened, range, ranged, whole⟩
    rw [split]
    apply Application.steps_refused taken
    unfold Proposal.step
    rw [met]

/-- A cycle comes to a proposal that says nothing. The observer lets it evaluate all its equations,
    the outputs of this one span the line, and the proposals before its own are taken, none of them
    a number for its target. -/
def Progress.ComesToNothing (p : Progress) (catalog : Catalog) (observer : Observer σ) (cycle : Nat)
    (s : σ) (e : Equation) (target : String) : Prop :=
  e ∈ p.viable catalog ∧ e.SpansLine p.store ∧ ∃ before q after,
    p.Swept catalog observer cycle s (before ++ q :: after) ∧ q.equation = e.name ∧
    q.target = target ∧ (∃ updates, (applyAll p.store before).outcome = .ok updates) ∧
    ∀ r ∈ before, r.target = target → ∀ x, r.value ≠ .scalar x

theorem runCycle_update_iff (catalog : Catalog) (observer : Observer σ) (cycle : Nat) (p : Progress)
    (s : σ) (equation target : String) (cause : VariableError) :
    (runCycle catalog observer cycle p s).verdict = .fails (.update equation target cause) ↔
      ∃ proposals, p.Swept catalog observer cycle s proposals ∧
        (applyAll p.store proposals).outcome = .error (.update equation target cause) := by
  constructor
  · intro verdict
    have trace := runCycle_trace catalog observer cycle p s
    rw [verdict] at trace
    generalize (runCycle catalog observer cycle p s).progress = after at trace
    generalize (runCycle catalog observer cycle p s).events = events at trace
    cases trace with
    | refused swept failed => exact ⟨_, swept, failed⟩
    | completed swept taken decision => cases decision
  · rintro ⟨proposals, swept, failed⟩
    exact runCycle_refused swept failed

theorem runCycle_unconstrained_iff (catalog : Catalog) (observer : Observer σ) (cycle : Nat)
    (p : Progress) (s : σ) (equation target name : String) :
    (runCycle catalog observer cycle p s).verdict =
        .fails (.update equation target (.unconstrained name)) ↔
      name = target ∧ ∃ e, e.name = equation ∧
        p.ComesToNothing catalog observer cycle s e target := by
  rw [runCycle_update_iff]
  constructor
  · rintro ⟨proposals, swept, failed⟩
    have admissible := proposals_admissible (fun _ member => member) swept.proposed
    obtain ⟨named, before, q, after, range, rfl, equation, target, taken, none, ranged, whole⟩ :=
      (applyAll_unconstrained_iff admissible _ _ _).mp failed
    obtain ⟨_, e, _, viable, _, proposal⟩ := mapM_ok_split swept.proposed
    obtain ⟨same, evaluated⟩ := (e.propose_ok_iff p.store q).mp proposal
    have spans := (e.spansLine_iff p.store).mpr ⟨q.evaluation, range, evaluated, ranged, whole⟩
    exact ⟨named, e, same.symm.trans equation, viable_of_split viable, spans, before, q, after,
      swept, same, target, taken, none⟩
  · rintro ⟨named, e, equation, viable, spans, before, q, after, swept, same, target, taken, none⟩
    have admissible := proposals_admissible (fun _ member => member) swept.proposed
    refine ⟨_, swept, (applyAll_unconstrained_iff admissible _ _ _).mpr ?_⟩
    obtain ⟨_, d, _, viable', _, proposal⟩ := mapM_ok_split swept.proposed
    obtain ⟨same', evaluated⟩ := (d.propose_ok_iff p.store q).mp proposal
    obtain rfl : d = e := Catalog.eq_of_name (viable_sound (viable_of_split viable')).1
      (viable_sound viable).1 (same'.symm.trans same)
    obtain ⟨evaluation, range, evaluated', ranged, whole⟩ := (d.spansLine_iff p.store).mp spans
    obtain rfl := Except.ok.inj (evaluated'.symm.trans evaluated)
    exact ⟨named, before, q, after, range, rfl, same.trans equation, target, taken, none, ranged,
      whole⟩

/-- A run fails at a proposal that says nothing exactly when it enters a cycle that comes to one. -/
theorem solve_unconstrained_iff (catalog : Catalog) (limit : Limit) (observer : Observer σ)
    (state : σ) (store : Store) (equation target name : String) :
    (solve catalog limit observer state store).result =
        .error (.update equation target (.unconstrained name)) ↔
      name = target ∧ ∃ k p s e, k < limit.maxCycles ∧
        Entered catalog observer ⟨store, .empty, 0⟩ state k p s ∧ e.name = equation ∧
        p.ComesToNothing catalog observer (k + 1) s e target := by
  rw [solve_error_iff]
  simp only [runCycle_unconstrained_iff]
  constructor
  · rintro ⟨k, p, s, below, entered, named, e, equation, nothing⟩
    exact ⟨named, k, p, s, e, below, entered, equation, nothing⟩
  · rintro ⟨named, k, p, s, e, below, entered, equation, nothing⟩
    exact ⟨k, p, s, below, entered, named, e, equation, nothing⟩

def Equation.ratio : Equation :=
  .ofFormulas "ratio" ["z", "a", "b"]
    [("z", .input "a" / .input "b"), ("a", .input "z" * .input "b"), ("b", .input "a" / .input "z")]

def acrossZero : List Seed :=
  [⟨"z", .declaredUnknown, "m", none⟩,
    ⟨"a", .given, "", some (.interval ⟨⟨-1.0, 1.0⟩, by decide +kernel⟩)⟩,
    ⟨"b", .given, "", some (.interval ⟨⟨0.0, 1.0⟩, by decide +kernel⟩)⟩]

theorem quotient_across_zero_fails :
    ∃ catalog store, Catalog.ofList [.ratio] = .ok catalog ∧ Store.seeded acrossZero = .ok store ∧
      (solve catalog .standard .silent () store).result =
        .error (.update "ratio" "z" (.unconstrained "z")) :=
  ⟨_, _, rfl, rfl, rfl⟩

end Narrowing
