import Narrowing.Proofs.Solver.Errors
import Narrowing.Proofs.Solver.Trace

/-!
Exact systems. In a store without ranges every member is exact or unknown, so an equation that
applies has one unknown member and evaluates to one number. A cycle settles at least one unknown
member and unsettles none; an equation that is excluded has no unknown member left. So a run that
does not fail settles all that its equations can settle, in at most one cycle more than there are
unknown members.
-/
namespace Narrowing
variable {σ : Type}

namespace Store

def Unranged (s : Store) : Prop := ∀ v ∈ s.toList, v.precision ≠ .constrainedRange

instance (s : Store) : Decidable s.Unranged :=
  inferInstanceAs (Decidable (∀ v ∈ s.toList, v.precision ≠ .constrainedRange))

def settled (s : Store) : Finset String :=
  ((s.toList.filter (·.precision = .finite)).map Variable.name).toFinset

theorem unranged_iff (s : Store) :
    s.Unranged ↔ ∀ name, (s.subject name).precision ≠ .constrainedRange := by
  constructor
  · intro unranged name
    cases found : s.find? name with
    | none =>
      rw [subject_of_missing found, Variable.new_precision]
      simp
    | some v =>
      rw [subject_of_find found]
      exact unranged v (Roster.mem_of_find found)
  · intro each v member
    have found : s.find? v.name = some v := Roster.find_of_mem member
    rw [← subject_of_find found]
    exact each v.name

theorem mem_settled (s : Store) (name : String) :
    name ∈ s.settled ↔ (s.subject name).precision = .finite := by
  simp only [settled, List.mem_toFinset, List.mem_map, List.mem_filter, decide_eq_true_eq]
  constructor
  · rintro ⟨v, ⟨member, finite⟩, rfl⟩
    have found : s.find? v.name = some v := Roster.find_of_mem member
    rw [subject_of_find found]
    exact finite
  · intro finite
    cases found : s.find? name with
    | none =>
      rw [subject_of_missing found, Variable.new_precision] at finite
      simp at finite
    | some v =>
      rw [subject_of_find found] at finite
      exact ⟨v, ⟨Roster.mem_of_find found, finite⟩, name_of_find found⟩

theorem open_iff_not_settled (s : Store) (name : String) :
    Equation.isOpen s name = true ↔ name ∉ s.settled := by
  rw [Equation.isOpen_eq_subject, mem_settled]
  simp

theorem Unranged.unknown_iff {s : Store} (unranged : s.Unranged) (name : String) :
    Equation.isUnknown s name = true ↔ name ∉ s.settled := by
  have informed := (unranged_iff s).mp unranged name
  rw [Equation.isUnknown_eq_subject, mem_settled]
  cases precision : (s.subject name).precision <;> simp_all

end Store

namespace Corner

theorem ofMembers_settled {store : Store} {members : List String}
    (settled : ∀ m ∈ members, m ∈ store.settled) :
    ∃ corner, ofMembers store members = .ok [corner] := by
  induction members using List.reverseRecOn with
  | nil => exact ⟨.empty, rfl⟩
  | append_singleton members last ih =>
    obtain ⟨corner, listed⟩ := ih fun m member => settled m (by simp [member])
    have finite := (store.mem_settled last).mp (settled last (by simp))
    have known : Equation.isUnknown store last = false := by
      rw [Equation.isUnknown_eq_subject, finite]
      rfl
    obtain ⟨v, found, informative⟩ := Equation.find_of_known known
    rw [Store.subject_of_find found] at finite
    obtain ⟨x, value⟩ := (Value.precision_finite_iff v.value).mp finite
    refine ⟨corner.bind last x, ?_⟩
    unfold ofMembers at listed ⊢
    rw [List.foldlM_append, listed]
    simp [bind, Except.bind, extend_known found informative, value, Value.ends, pure, Except.pure]

theorem collapse_one {target : String} {x : Float} {value : Value} (number : x.isNaN = false)
    (collapsed : collapse target [x] = .ok value) : ∃ y, value = .scalar y := by
  have agreed : (min infinity x == max (-infinity) x) = true := by
    rw [min_number_eq, max_number_eq, if_pos (neg_infinity_le_number number)]
    split
    · rename_i above
      exact (number_beq_iff _ _).mpr ⟨above, number_le_infinity number⟩
    · exact number_beq_refl number
  unfold collapse at collapsed
  simp only [List.foldl_cons, List.foldl_nil, agreed, ↓reduceIte] at collapsed
  by_cases finite : (min infinity x).isFinite = true
  · simp only [finite, ↓reduceIte] at collapsed
    exact ⟨_, (Except.ok.inj collapsed).symm⟩
  · simp [finite] at collapsed

theorem evaluate_settled {members : List String} {f : Form} {store : Store}
    {evaluation : Evaluation} (settled : ∀ m ∈ f.others members, m ∈ store.settled)
    (evaluated : evaluate members f store = .ok evaluation) :
    evaluation.candidates = 1 ∧ ∃ x, evaluation.value = .scalar x := by
  obtain ⟨corners, outputs, value, listed, collected, collapsed, rfl⟩ :=
    (evaluate_ok_iff members f store evaluation).mp evaluated
  obtain ⟨corner, only⟩ := ofMembers_settled settled
  obtain rfl := Except.ok.inj (listed.symm.trans only)
  obtain ⟨x, later, answered, nothing, rfl⟩ := (mapM_cons_ok_iff corner [] outputs).mp collected
  obtain rfl := Except.ok.inj nothing
  exact ⟨rfl, collapse_one (answered_of_output answered).2 collapsed⟩

end Corner

/-- In a store without ranges a proposal is one number, for the only member of its equation that
    is not settled. -/
theorem Progress.Reads.exact {p : Progress} {catalog : Catalog} {read : List Proposal}
    (reads : p.Reads catalog read) (unranged : p.store.Unranged) {q : Proposal}
    (member : q ∈ read) :
    q.evaluation.candidates = 1 ∧ (∃ x, q.value = .scalar x) ∧ q.target ∉ p.store.settled ∧
      ∃ e ∈ catalog.toList, q.equation = e.name ∧
        ∀ m ∈ e.members, m ≠ q.target → m ∈ p.store.settled := by
  obtain ⟨e, f, viable, named, chosen, evaluated, target, _, opened, known⟩ := reads.origin member
  have settled : ∀ m ∈ e.members, m ≠ f.target → m ∈ p.store.settled := by
    intro m listed other
    by_contra unsettled
    have unknown := (unranged.unknown_iff m).mpr unsettled
    simp [known m listed other] at unknown
  have evaluated := (Equation.evaluate_ok_iff chosen q.evaluation).mp evaluated
  obtain ⟨single, number⟩ := Corner.evaluate_settled (fun m other =>
    settled m (Form.mem_others.mp other).1 (Form.mem_others.mp other).2) evaluated
  rw [target]
  exact ⟨single, number, (p.store.open_iff_not_settled _).mp opened, e, (viable_sound viable).1,
    named, settled⟩

theorem Variable.meet_number {v w : Variable} {x : Float} {changed : Bool}
    (met : v.meet (.scalar x) = .ok (w, changed)) :
    w.precision = .finite ∧ (changed = true ↔ v.precision ≠ .finite) := by
  unfold precision
  cases known : v.value with
  | scalar y =>
    obtain ⟨_, rfl, rfl⟩ := meet_scalar_ok known met
    simp [known, Value.precision]
  | interval current =>
    have unsettled : (Value.interval current).precision ≠ .finite := by
      simp [Value.precision_finite_iff]
    rw [meet_of_interval known] at met
    rcases update_ok_cases met with ⟨_, _, _, _, ranged, _⟩ | ⟨_, y, finite, _, _, rfl, rfl⟩
    · simp at ranged
    · exact ⟨rfl, by simp [unsettled]⟩

namespace Proposal
variable {q : Proposal} {store : Store}

theorem step_unranged (number : ∃ x, q.value = .scalar x) (unranged : store.Unranged) :
    (q.step store).store.Unranged := by
  obtain ⟨x, number⟩ := number
  rw [Store.unranged_iff] at unranged ⊢
  intro name
  cases outcome : (q.step store).outcome with
  | error error =>
    obtain ⟨_, left⟩ := step_refused outcome
    rw [left, extended_subject]
    exact unranged name
  | ok changed =>
    obtain ⟨w, met, subject⟩ := step_subject outcome
    rw [number] at met
    rw [subject]
    split
    · rw [(Variable.meet_number met).1]
      simp
    · exact unranged name

theorem step_settles (number : ∃ x, q.value = .scalar x) {changed : Bool}
    (taken : (q.step store).outcome = .ok changed) :
    (q.step store).store.settled = insert q.target store.settled ∧
      (changed = true ↔ q.target ∉ store.settled) := by
  obtain ⟨x, number⟩ := number
  obtain ⟨w, met, subject⟩ := step_subject taken
  rw [number] at met
  obtain ⟨finite, moved⟩ := Variable.meet_number met
  constructor
  · ext name
    rw [Finset.mem_insert, Store.mem_settled, Store.mem_settled, subject]
    by_cases same : q.target = name
    · simp [same, finite]
    · simp [same, Ne.symm same]
  · rw [moved, Store.mem_settled]

end Proposal

/-- Numbers that are all taken settle their targets, and each change settles one name more. -/
theorem Applied.settles {store final : Store} {proposals : List Proposal} {updates : List Update}
    (applied : Applied store proposals updates final)
    (numbers : ∀ q ∈ proposals, ∃ x, q.value = .scalar x) :
    final.settled = store.settled ∪ (proposals.map Proposal.target).toFinset ∧
      store.settled.card + updates.countP (·.changed) = final.settled.card := by
  induction applied with
  | done store => simp
  | @taken store final q changed rest later now next ih =>
    obtain ⟨number, numbers⟩ := List.forall_mem_cons.mp numbers
    obtain ⟨settles, moved⟩ := Proposal.step_settles number now
    obtain ⟨reached, counted⟩ := ih numbers
    rw [settles] at reached counted
    rw [Proposal.countP_changed]
    constructor
    · rw [reached, List.map_cons, List.toFinset_cons, Finset.insert_union, Finset.union_insert]
    · cases changed with
      | true =>
        rw [Finset.card_insert_of_notMem (moved.mp rfl)] at counted
        simp only [Bool.toNat_true]
        omega
      | false =>
        have known : q.target ∈ store.settled := by simpa using moved
        rw [Finset.insert_eq_of_mem known] at counted
        simpa using counted

def Catalog.unknowns (catalog : Catalog) (store : Store) : Finset String :=
  catalog.memberNames.filter fun name => Equation.isUnknown store name = true

/-- How far a run has come that started in a store without ranges: only members were settled, one
    with each change, and an excluded equation has nothing left to settle. -/
structure ExactProgress (catalog : Catalog) (start : Store) (p : Progress) : Prop where
  unranged : p.store.Unranged
  kept : start.settled ⊆ p.store.settled
  listed : p.store.settled ⊆ start.settled ∪ catalog.memberNames
  counted : start.settled.card + p.changes = p.store.settled.card
  spent : ∀ e ∈ catalog.toList, p.excluded.contains e.name = true →
    ∀ m ∈ e.members, m ∈ p.store.settled

namespace ExactProgress
variable {catalog : Catalog} {start : Store} {p : Progress}

theorem initial (unranged : start.Unranged) : ExactProgress catalog start ⟨start, .empty, 0⟩ where
  unranged := unranged
  kept := fun _ member => member
  listed := Finset.subset_union_left
  counted := rfl
  spent := fun e _ excluded => by simp [Roster.contains, Roster.find?, Roster.empty] at excluded

theorem changes_eq (progress : ExactProgress catalog start p) :
    p.changes = (p.store.settled \ start.settled).card := by
  have counted := progress.counted
  rw [Finset.card_sdiff_of_subset progress.kept]
  omega

theorem changes_le (progress : ExactProgress catalog start p) (unranged : start.Unranged) :
    p.changes ≤ (catalog.unknowns start).card := by
  rw [progress.changes_eq]
  apply Finset.card_le_card
  intro name member
  obtain ⟨reached, new⟩ := Finset.mem_sdiff.mp member
  refine Finset.mem_filter.mpr ⟨?_, (unranged.unknown_iff name).mpr new⟩
  rcases Finset.mem_union.mp (progress.listed reached) with old | listed
  · exact absurd old new
  · exact listed

theorem none_applies (progress : ExactProgress catalog start p) (none : p.viable catalog = []) :
    ∀ e ∈ catalog.toList, e.applies p.store = false := by
  intro e listed
  rw [← Bool.not_eq_true]
  intro applies
  have excluded := Progress.excluded_of_applies none listed applies
  obtain ⟨m, member, opened⟩ := List.any_eq_true.mp (Bool.and_eq_true_iff.mp applies).1
  exact (p.store.open_iff_not_settled m).mp opened (progress.spent e listed excluded m member)

variable {observer : Observer σ} {cycle : Nat} {s : σ} {proposals : List Proposal}
  {updates : List Update}

theorem cycle_settles (progress : ExactProgress catalog start p)
    (swept : p.Swept catalog observer cycle s proposals)
    (taken : (applyAll p.store proposals).outcome = .ok updates) :
    (applyAll p.store proposals).store.settled =
        p.store.settled ∪ (proposals.map Proposal.target).toFinset ∧
      p.store.settled.card + updates.countP (·.changed) =
        (applyAll p.store proposals).store.settled.card := by
  apply (swept.applied taken).settles
  intro q member
  exact ((Progress.reads_of_proposed swept.proposed).exact progress.unranged member).2.1

theorem cycle_changes (progress : ExactProgress catalog start p)
    (swept : p.Swept catalog observer cycle s proposals)
    (taken : (applyAll p.store proposals).outcome = .ok updates) :
    ∃ u ∈ updates, u.changed = true := by
  obtain ⟨reached, counted⟩ := progress.cycle_settles swept taken
  obtain ⟨e, viable⟩ := List.exists_mem_of_ne_nil _ swept.1
  obtain ⟨q, member, _⟩ := (mapM_ok_mem swept.proposed).2 e viable
  have unsettled :=
    ((Progress.reads_of_proposed swept.proposed).exact progress.unranged member).2.2.1
  have more : p.store.settled ⊂ (applyAll p.store proposals).store.settled := by
    rw [reached]
    refine ⟨Finset.subset_union_left, fun back => unsettled (back ?_)⟩
    exact Finset.mem_union_right _ (List.mem_toFinset.mpr (List.mem_map_of_mem member))
  have grown := Finset.card_lt_card more
  have changed : 0 < updates.countP (·.changed) := by omega
  exact List.countP_pos_iff.mp changed

/-- An equation that has proposed has nothing left to settle. -/
theorem proposer_spent (progress : ExactProgress catalog start p)
    (swept : p.Swept catalog observer cycle s proposals)
    (taken : (applyAll p.store proposals).outcome = .ok updates) {q : Proposal}
    (proposed : q ∈ proposals) {e : Equation} (listed : e ∈ catalog.toList)
    (named : q.equation = e.name) :
    ∀ m ∈ e.members, m ∈ (applyAll p.store proposals).store.settled := by
  intro m member
  obtain ⟨_, _, _, d, listed', named', others⟩ :=
    (Progress.reads_of_proposed swept.proposed).exact progress.unranged proposed
  obtain rfl := Catalog.eq_of_name listed' listed (named'.symm.trans named)
  rw [(progress.cycle_settles swept taken).1, Finset.mem_union]
  by_cases target : m = q.target
  · rw [target]
    exact Or.inr (List.mem_toFinset.mpr (List.mem_map_of_mem proposed))
  · exact Or.inl (others m member target)

theorem applying_unranged (progress : ExactProgress catalog start p)
    (swept : p.Swept catalog observer cycle s proposals) {part : List Proposal}
    (among : ∀ q ∈ part, q ∈ proposals) : (applyAll p.store part).store.Unranged := by
  have reads := Progress.reads_of_proposed swept.proposed
  have admissible := proposals_admissible (fun _ member => member) swept.proposed
  rw [applyAll_eq_steps (admissible.among among)]
  refine Application.steps_preserve Store.Unranged ?_ progress.unranged
  intro q member store unranged
  exact Proposal.step_unranged (reads.exact progress.unranged (among q member)).2.1 unranged

theorem advanced (progress : ExactProgress catalog start p)
    (swept : p.Swept catalog observer cycle s proposals)
    (taken : (applyAll p.store proposals).outcome = .ok updates) :
    ExactProgress catalog start (p.advance (applyAll p.store proposals).store updates) := by
  obtain ⟨reached, counted⟩ := progress.cycle_settles swept taken
  have more : p.store.settled ⊆ (applyAll p.store proposals).store.settled := by
    rw [reached]
    exact Finset.subset_union_left
  constructor
  · exact progress.applying_unranged swept fun _ member => member
  · exact progress.kept.trans more
  · change (applyAll p.store proposals).store.settled ⊆ _
    rw [reached]
    refine Finset.union_subset progress.listed ?_
    intro name member
    obtain ⟨q, proposed, rfl⟩ := List.mem_map.mp (List.mem_toFinset.mp member)
    have listed := (Progress.reads_of_proposed swept.proposed).target_listed q proposed
    exact Finset.mem_union_right _ listed
  · have before := progress.counted
    simp only [Progress.advance]
    omega
  · intro e listed excluded
    rcases (p.excluded_advance _ updates e.name).mp excluded with earlier | ⟨u, reported, _, named⟩
    · intro m member
      exact more (progress.spent e listed earlier m member)
    · have named : e.name ∈ proposals.map Proposal.equation := by
        rw [← (swept.applied taken).equations, ← named]
        exact List.mem_map_of_mem reported
      obtain ⟨q, proposed, named⟩ := List.mem_map.mp named
      exact progress.proposer_spent swept taken proposed listed named

end ExactProgress

theorem Passed.exact {catalog : Catalog} {observer : Observer σ} {state : σ} {store : Store} {k : Nat}
    {p : Progress} {s : σ} {events : List Event} (unranged : store.Unranged)
    (passed : Passed catalog observer ⟨store, .empty, 0⟩ state k p s events) :
    ExactProgress catalog store p := by
  refine passed.invariant (fun _ p _ => ExactProgress catalog store p) (.initial unranged) ?_
  intro k p s before after last _ progress trace
  cases trace with
  | completed swept taken decision => exact progress.advanced swept taken

/-- The stores a run comes by: where a cycle begins or the run ends, and after each proposal that a
    cycle applies. -/
inductive Visited (catalog : Catalog) (limit : Limit) (observer : Observer σ) (state : σ)
    (store : Store) : Store → Prop
  | between {k : Nat} {p : Progress} {s : σ} {events : List Event} (within : k ≤ limit.maxCycles)
      (passed : Passed catalog observer ⟨store, .empty, 0⟩ state k p s events) :
      Visited catalog limit observer state store p.store
  | applying {k : Nat} {p : Progress} {s : σ} {events : List Event} {proposals : List Proposal}
      (below : k < limit.maxCycles)
      (passed : Passed catalog observer ⟨store, .empty, 0⟩ state k p s events)
      (swept : p.Swept catalog observer (k + 1) s proposals) (count : Nat) :
      Visited catalog limit observer state store (applyAll p.store (proposals.take count)).store

theorem Visited.of_trace {catalog : Catalog} {limit : Limit} {observer : Observer σ} {state : σ}
    {store : Store} {k : Nat} {p after : Progress} {s : σ} {before last : List Event}
    {verdict : Verdict} (below : k < limit.maxCycles)
    (passed : Passed catalog observer ⟨store, .empty, 0⟩ state k p s before)
    (trace : CycleTrace catalog observer (k + 1) p s verdict after last) :
    Visited catalog limit observer state store after.store := by
  have whole : ∀ {proposals}, p.Swept catalog observer (k + 1) s proposals →
      Visited catalog limit observer state store (applyAll p.store proposals).store := by
    intro proposals swept
    have visited := Visited.applying below passed swept proposals.length
    rw [List.take_length] at visited
    exact visited
  cases trace with
  | empty none => exact .between (Nat.le_of_lt below) passed
  | interrupted stops part => exact .between (Nat.le_of_lt below) passed
  | misevaluated part failed => exact .between (Nat.le_of_lt below) passed
  | refused swept failed => exact whole swept
  | completed swept taken decision => exact whole swept

theorem solve_visited (catalog : Catalog) (limit : Limit) (observer : Observer σ) (state : σ)
    (store : Store) : Visited catalog limit observer state store
      (solve catalog limit observer state store).store := by
  cases solve_conclusion catalog limit observer state store with
  | atLimit passed returned left =>
    rw [left]
    exact .between (Nat.le_refl _) passed
  | ended below passed trace returned left reported =>
    rw [left]
    exact .of_trace below passed trace
  | failed below passed trace unsolved left reported =>
    rw [left]
    exact .of_trace below passed trace

theorem Visited.unranged {catalog : Catalog} {limit : Limit} {observer : Observer σ} {state : σ}
    {store : Store} (unranged : store.Unranged) {s : Store}
    (visited : Visited catalog limit observer state store s) : s.Unranged := by
  cases visited with
  | between within passed => exact (passed.exact unranged).unranged
  | applying below passed swept count =>
    exact (passed.exact unranged).applying_unranged swept fun _ member => List.mem_of_mem_take member

theorem solve_idle {catalog : Catalog} {store : Store}
    (none : ∀ e ∈ catalog.toList, e.applies store = false) (limit : Limit) (observer : Observer σ)
    (state : σ) : (solve catalog limit observer state store).result =
        .ok ⟨.convergedEmpty, 1, 0, .empty⟩ ∧
      (solve catalog limit observer state store).store = store := by
  have viable : Progress.viable ⟨store, .empty, 0⟩ catalog = [] := by
    unfold Progress.viable
    exact List.filter_eq_nil_iff.mpr fun e listed => by simp [none e listed]
  obtain ⟨cycles, positive⟩ := limit
  obtain ⟨more, rfl⟩ := Nat.exists_eq_add_one_of_ne_zero (Nat.ne_of_gt positive)
  have ends : (runCycle catalog observer 1 ⟨store, .empty, 0⟩ state).verdict =
        .ends .convergedEmpty ∧
      (runCycle catalog observer 1 ⟨store, .empty, 0⟩ state).progress = ⟨store, .empty, 0⟩ := by
    simp [runCycle, viable]
  simp [solve, Run.cycles, ends, Run.after, Run.finish]

structure SolvedExactly (catalog : Catalog) (store : Store) (run : Run Unit)
    (solution : Solution) : Prop where
  status : solution.status = .convergedEmpty
  cycles : solution.cycles ≤ (catalog.unknowns store).card + 1
  changes : solution.changes = (run.store.settled \ store.settled).card
  bounded : solution.changes ≤ (catalog.unknowns store).card
  exhausted : ∀ e ∈ catalog.toList, e.applies run.store = false
  idempotent : ∀ {σ : Type} (limit : Limit) (observer : Observer σ) (state : σ),
    (solve catalog limit observer state run.store).result = .ok ⟨.convergedEmpty, 1, 0, .empty⟩ ∧
      (solve catalog limit observer state run.store).store = run.store

theorem Conclusion.exact {catalog : Catalog} {store : Store} {limit : Nat}
    {run : Run Unit} (unranged : store.Unranged) (beyond : (catalog.unknowns store).card < limit)
    (conclusion : Conclusion catalog .silent ⟨store, .empty, 0⟩ () limit run.result run.store
      run.events) {solution : Solution} (solved : run.result = .ok solution) :
    SolvedExactly catalog store run solution := by
  cases conclusion with
  | atLimit passed returned left =>
    -- Every cycle that was passed has settled a member, and there are not that many.
    have paced := passed.cycles_le_changes
    have few := (passed.exact unranged).changes_le unranged
    simp only at paced
    omega
  | ended below passed trace returned left reported =>
    obtain rfl := Except.ok.inj (solved.symm.trans returned)
    have progress := passed.exact unranged
    cases trace with
    | empty none =>
      have paced := passed.cycles_le_changes
      have few := progress.changes_le unranged
      have exhausted := progress.none_applies none
      rw [← left] at exhausted
      simp only at paced
      refine ⟨rfl, by simp only; omega, ?_, few, exhausted, solve_idle exhausted⟩
      rw [left]
      exact progress.changes_eq
    | interrupted stops part => exact absurd stops Observer.silent_never_stops
    | completed swept taken decision =>
      cases decision with
      | halted stops => exact absurd stops Observer.silent_never_stops
      | stable unchanged =>
        obtain ⟨u, member, changed⟩ := progress.cycle_changes swept taken
        simp [unchanged u member] at changed
  | failed below passed trace unsolved left reported => simp [unsolved] at solved

/-- A run without ranges and with more cycles than unknown members fails, or it settles all that
    can be settled; whichever it is, it evaluates to numbers only and never comes by a range. -/
theorem solve_exact {catalog : Catalog} {limit : Limit} {store : Store}
    (unranged : store.Unranged) (beyond : (catalog.unknowns store).card < limit.maxCycles) :
    ((∃ error, (solveUnobserved catalog limit store).result = .error error) ∨
      ∃ solution, (solveUnobserved catalog limit store).result = .ok solution ∧
        SolvedExactly catalog store (solveUnobserved catalog limit store) solution) ∧
    (∀ cycle name evaluation,
      .evaluated cycle name evaluation ∈ (solveUnobserved catalog limit store).events →
      evaluation.candidates = 1 ∧ ∃ x, evaluation.value = .scalar x) ∧
    (∀ s, Visited catalog limit .silent () store s → s.Unranged) ∧
    (solveUnobserved catalog limit store).store.Unranged := by
  have conclusion := solve_conclusion catalog limit .silent () store
  refine ⟨?_, ?_, fun s visited => visited.unranged unranged,
    (solve_visited catalog limit .silent () store).unranged unranged⟩
  · cases result : (solveUnobserved catalog limit store).result with
    | error error => exact Or.inl ⟨error, rfl⟩
    | ok solution => exact Or.inr ⟨solution, rfl, conclusion.exact unranged beyond result⟩
  · intro cycle name evaluation member
    obtain ⟨j, p, s, earlier, read, passed, reads, found⟩ := conclusion.evaluations member
    obtain ⟨single, number, _⟩ := reads.exact (passed.exact unranged).unranged found
    exact ⟨single, number⟩

def agreeing : Store :=
  ⟨.ofList [⟨"a", .given, "m", .scalar 3.0, (by decide +kernel : Float.isFinite 3.0 = true)⟩,
    ⟨"b", .given, "m", .scalar 3.0, (by decide +kernel : Float.isFinite 3.0 = true)⟩]⟩

theorem solve_exact_agreeing :
    agreeing.Unranged ∧ (twoSources.unknowns agreeing).card < Limit.standard.maxCycles ∧
      ∃ solution, (solveUnobserved twoSources .standard agreeing).result = .ok solution ∧
        SolvedExactly twoSources agreeing (solveUnobserved twoSources .standard agreeing)
          solution := by
  have unranged : agreeing.Unranged := by decide +kernel
  have beyond : (twoSources.unknowns agreeing).card < Limit.standard.maxCycles := by
    decide +kernel
  refine ⟨unranged, beyond, ?_⟩
  rcases (solve_exact unranged beyond).1 with ⟨error, failed⟩ | solved
  · have succeeds : (solveUnobserved twoSources .standard agreeing).result.isOk = true := rfl
    simp [failed, Except.isOk, Except.toBool] at succeeds
  · exact solved

end Narrowing
