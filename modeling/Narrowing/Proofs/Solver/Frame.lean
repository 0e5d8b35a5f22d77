import Narrowing.Proofs.Solver.Reordering
import Narrowing.Proofs.Solver.Trace
import Narrowing.Proofs.Variable.Succession

/-!
What a run may touch. Of the variables it finds it narrows those that are members of some equation,
and keeps their labels; the variables it adds are members too, and are marked as derived. This holds
however a run ends. If it returns a solution, the variables that have another value than before are
those of which some update reported a change.
-/
namespace Narrowing
variable {σ : Type}

structure Store.Evolves (names : Finset String) (before after : Store) : Prop where
  kept : ∀ name v, before.find? name = some v →
    ∃ w, after.find? name = some w ∧ v.Becomes w ∧ (name ∉ names → w = v)
  created : ∀ name w, before.find? name = none → after.find? name = some w →
    name ∈ names ∧ w.provenance = .derived ∧ w.unit = "unknown"

/-- The variable of this name is new, or its value is not equal to the one before. -/
def Store.Moved (before after : Store) (name : String) : Prop :=
  ∃ w, after.find? name = some w ∧ ∀ v, before.find? name = some v → (v.value == w.value) = false

namespace Store
variable {names : Finset String} {a b c : Store} {name : String}

theorem Evolves.refl (names : Finset String) (s : Store) : s.Evolves names s where
  kept := fun _ v found => ⟨v, found, .refl v, fun _ => rfl⟩
  created := fun name w missing found => by simp [missing] at found

theorem Evolves.trans (first : a.Evolves names b) (second : b.Evolves names c) :
    a.Evolves names c where
  kept := by
    intro name u found
    obtain ⟨v, found, becomes, other⟩ := first.kept name u found
    obtain ⟨w, found, becomes', other'⟩ := second.kept name v found
    exact ⟨w, found, becomes.trans becomes', fun unlisted =>
      (other' unlisted).trans (other unlisted)⟩
  created := by
    intro name w missing found
    cases between : b.find? name with
    | none => exact second.created name w between found
    | some v =>
      obtain ⟨listed, provenance, unit⟩ := first.created name v missing between
      obtain ⟨w', found', becomes, _⟩ := second.kept name v between
      obtain rfl := Option.some.inj (found.symm.trans found')
      exact ⟨listed, becomes.provenance.trans provenance, becomes.unit.trans unit⟩

theorem moved_stored {v w : Variable} (inA : a.find? name = some v) (inB : b.find? name = some w) :
    a.Moved b name ↔ (v.value == w.value) = false := by
  simp [Moved, inA, inB]

theorem moved_missing (missing : a.find? name = none) :
    a.Moved b name ↔ ∃ w, b.find? name = some w := by
  simp [Moved, missing]

theorem not_moved (s : Store) (name : String) : ¬ s.Moved s name := by
  rintro ⟨v, found, differs⟩
  have same := v.storable.beq_refl
  simp [differs v found] at same

/-- What has moved by the end has moved on the way, and nothing moves back. -/
theorem Evolves.moved_iff (first : a.Evolves names b) (second : b.Evolves names c)
    (name : String) : a.Moved c name ↔ a.Moved b name ∨ b.Moved c name := by
  cases inA : a.find? name with
  | none =>
    rw [moved_missing inA, moved_missing inA]
    cases inB : b.find? name with
    | none => simp [moved_missing inB]
    | some v =>
      obtain ⟨w, inC, _⟩ := second.kept name v inB
      simp [inC]
  | some u =>
    obtain ⟨v, inB, becomes, _⟩ := first.kept name u inA
    obtain ⟨w, inC, becomes', _⟩ := second.kept name v inB
    rw [moved_stored inA inC, moved_stored inA inB, moved_stored inB inC]
    simp only [← Bool.not_eq_true]
    rw [becomes.value.beq_iff becomes'.value]
    tauto

end Store

namespace Proposal

theorem step_becomes (q : Proposal) (store : Store) :
    ∃ w, (store.subject q.target).Becomes w ∧ ∀ name, (q.step store).store.find? name =
      if q.target = name then some w else store.find? name := by
  cases outcome : (q.step store).outcome with
  | ok changed =>
    obtain ⟨w, met, find⟩ := step_find outcome
    exact ⟨w, Variable.meet_becomes met, find⟩
  | error error =>
    obtain ⟨_, left⟩ := step_refused outcome
    refine ⟨store.subject q.target, .refl _, fun name => ?_⟩
    rw [left, extended_find]
    split
    · rename_i same
      rw [same]
    · rfl

theorem step_evolves {q : Proposal} {names : Finset String} (listed : q.target ∈ names)
    (store : Store) : store.Evolves names (q.step store).store := by
  obtain ⟨w, becomes, find⟩ := q.step_becomes store
  constructor
  · intro name v found
    rw [find]
    by_cases same : q.target = name
    · subst name
      rw [Store.subject_of_find found] at becomes
      exact ⟨w, if_pos rfl, becomes, fun unlisted => absurd listed unlisted⟩
    · rw [if_neg same]
      exact ⟨v, found, .refl v, fun _ => rfl⟩
  · intro name v missing found
    rw [find] at found
    by_cases same : q.target = name
    · subst name
      rw [Store.subject_of_missing missing] at becomes
      rw [if_pos rfl] at found
      obtain rfl := Option.some.inj found
      exact ⟨listed, becomes.provenance, becomes.unit⟩
    · rw [if_neg same, missing] at found
      simp at found

theorem step_moved_iff {q : Proposal} {store : Store} {changed : Bool}
    (taken : (q.step store).outcome = .ok changed) (name : String) :
    store.Moved (q.step store).store name ↔ changed = true ∧ q.target = name := by
  obtain ⟨w, met, find⟩ := step_find taken
  by_cases same : q.target = name
  · subst name
    have after : (q.step store).store.find? q.target = some w := by rw [find, if_pos rfl]
    cases found : store.find? q.target with
    | none =>
      rw [Store.subject_of_missing found] at met
      simp [Store.moved_missing found, after, Variable.new_meet_changed met]
    | some v =>
      rw [Store.subject_of_find found] at met
      simp [Store.moved_stored found after, Variable.meet_changed_iff met]
  · have unmoved := store.not_moved name
    unfold Store.Moved at unmoved ⊢
    rw [find, if_neg same]
    simp [same, unmoved]

end Proposal

theorem Application.steps_evolves {names : Finset String} {proposals : List Proposal}
    (listed : ∀ q ∈ proposals, q.target ∈ names) (store : Store) :
    store.Evolves names (steps store proposals).store := by
  refine steps_preserve (store.Evolves names) ?_ (.refl names store)
  intro q member between evolved
  exact evolved.trans (Proposal.step_evolves (listed q member) between)

theorem Applied.evolves {store final : Store} {proposals : List Proposal} {updates : List Update}
    {names : Finset String} (applied : Applied store proposals updates final)
    (listed : ∀ q ∈ proposals, q.target ∈ names) : store.Evolves names final := by
  induction applied with
  | done store => exact .refl names store
  | taken now next ih =>
    obtain ⟨first, later⟩ := List.forall_mem_cons.mp listed
    exact (Proposal.step_evolves first _).trans (ih later)

theorem Applied.moved_iff {store final : Store} {proposals : List Proposal} {updates : List Update}
    {names : Finset String} (applied : Applied store proposals updates final)
    (listed : ∀ q ∈ proposals, q.target ∈ names) (name : String) :
    store.Moved final name ↔ ∃ u ∈ updates, u.changed = true ∧ u.target = name := by
  induction applied with
  | done store => simp [store.not_moved name]
  | @taken store final q changed rest later now next ih =>
    obtain ⟨first, others⟩ := List.forall_mem_cons.mp listed
    have step := Proposal.step_evolves first store
    rw [step.moved_iff (next.evolves others), Proposal.step_moved_iff now, ih others]
    simp [Proposal.toUpdate]

namespace CycleTrace
variable {catalog : Catalog} {observer : Observer σ} {cycle : Nat} {p after : Progress} {s : σ}
  {verdict : Verdict} {events : List Event}

theorem evolves (trace : CycleTrace catalog observer cycle p s verdict after events) :
    p.store.Evolves catalog.memberNames after.store := by
  have applying : ∀ {proposals}, p.Swept catalog observer cycle s proposals →
      p.store.Evolves catalog.memberNames (applyAll p.store proposals).store := by
    intro proposals swept
    have listed := (Progress.reads_of_proposed swept.proposed).target_listed
    rw [applyAll_eq_steps (proposals_admissible (fun _ member => member) swept.proposed)]
    exact Application.steps_evolves listed p.store
  cases trace with
  | empty none => exact .refl _ _
  | interrupted stops part => exact .refl _ _
  | misevaluated part failed => exact .refl _ _
  | refused swept failed => exact applying swept
  | completed swept taken decision => exact applying swept

theorem moved_iff (trace : CycleTrace catalog observer cycle p s verdict after events)
    (unfailing : ∀ error, verdict ≠ .fails error) (name : String) :
    p.store.Moved after.store name ↔
      ∃ u ∈ Trace.updates events, u.changed = true ∧ u.target = name := by
  have idle : ∀ read, p.store.Moved p.store name ↔
      ∃ u ∈ Trace.updates (p.opening catalog cycle read), u.changed = true ∧ u.target = name := by
    intro read
    simp [p.store.not_moved name, Progress.opening_updates]
  cases trace with
  | empty none => simp [p.store.not_moved name, Trace.updates]
  | interrupted stops part => exact idle _
  | misevaluated part failed => exact absurd rfl (unfailing _)
  | refused swept failed => exact absurd rfl (unfailing _)
  | completed swept taken decision =>
    have listed := (Progress.reads_of_proposed swept.proposed).target_listed
    rw [Trace.updates_append, Progress.opening_updates]
    simp only [Trace.updates, Event.updates, List.flatMap_singleton, List.nil_append]
    exact (swept.applied taken).moved_iff listed name

end CycleTrace

theorem Conclusion.solved_invariant {catalog : Catalog} {observer : Observer σ} {start : Progress}
    {state : σ} {limit : Nat} {result : Except SolveError Solution} {store : Store}
    {events : List Event} {solution : Solution} (holds : Progress → List Event → Prop)
    (first : holds start [])
    (step : ∀ {k p s before verdict after last}, holds p before →
      CycleTrace catalog observer (k + 1) p s verdict after last →
      (∀ error, verdict ≠ .fails error) → holds after (before ++ last))
    (conclusion : Conclusion catalog observer start state limit result store events)
    (solved : result = .ok solution) : ∃ p, holds p events ∧ store = p.store := by
  have reached : ∀ {k p s before}, Passed catalog observer start state k p s before →
      holds p before := by
    intro k p s before passed
    exact passed.invariant (fun _ p events => holds p events) first fun _ earlier trace =>
      step earlier trace (by simp)
  cases conclusion with
  | atLimit passed returned left => exact ⟨_, reached passed, left⟩
  | ended below passed trace returned left reported =>
    rw [reported]
    exact ⟨_, step (reached passed) trace (by simp), left⟩
  | failed below passed trace unsolved left reported => simp [unsolved] at solved

theorem solve_evolves (catalog : Catalog) (limit : Limit) (observer : Observer σ) (state : σ)
    (store : Store) :
    store.Evolves catalog.memberNames (solve catalog limit observer state store).store := by
  obtain ⟨_, p, evolves, left, _⟩ := (solve_conclusion catalog limit observer state store).invariant
    (fun _ p _ => store.Evolves catalog.memberNames p.store) (.refl _ store)
    fun _ evolved trace => evolved.trans trace.evolves
  rw [left]
  exact evolves

theorem solve_moved_iff {catalog : Catalog} {limit : Limit} {observer : Observer σ} {state : σ}
    {store : Store} {solution : Solution}
    (solved : (solve catalog limit observer state store).result = .ok solution) (name : String) :
    store.Moved (solve catalog limit observer state store).store name ↔
      ∃ u ∈ Trace.updates (solve catalog limit observer state store).events,
        u.changed = true ∧ u.target = name := by
  -- that the store has evolved so far is what adds up the moves of two cycles
  obtain ⟨p, ⟨_, moved⟩, left⟩ :=
    (solve_conclusion catalog limit observer state store).solved_invariant
      (fun p events => store.Evolves catalog.memberNames p.store ∧
        (store.Moved p.store name ↔ ∃ u ∈ Trace.updates events, u.changed = true ∧ u.target = name))
      ⟨.refl _ store, by simp [store.not_moved name, Trace.updates]⟩
      (by
        rintro k p s before verdict after last ⟨evolved, moved⟩ trace unfailing
        refine ⟨evolved.trans trace.evolves, ?_⟩
        rw [evolved.moved_iff trace.evolves, moved, trace.moved_iff unfailing,
          Trace.updates_append]
        simp only [List.mem_append, or_and_right, exists_or])
      solved
  rw [left]
  exact moved

structure Confined (catalog : Catalog) (store : Store) (run : Run σ) : Prop where
  kept : ∀ name v, store.find? name = some v → ∃ w, run.store.find? name = some w ∧
    w.name = v.name ∧ w.provenance = v.provenance ∧ w.unit = v.unit ∧
    v.precision.rank ≤ w.precision.rank ∧
    (v.precision = .finite ∨ name ∉ catalog.memberNames → w.value = v.value)
  created : ∀ name w, store.find? name = none → run.store.find? name = some w →
    w.provenance = .derived ∧ w.unit = "unknown" ∧ name ∈ catalog.memberNames
  changed : ∀ solution, run.result = .ok solution → ∀ name, store.Moved run.store name ↔
    ∃ u ∈ Trace.updates run.events, u.changed = true ∧ u.target = name

/-- Every run, however it ends, is confined to narrowing and adding members. -/
theorem solve_confined (catalog : Catalog) (limit : Limit) (observer : Observer σ) (state : σ)
    (store : Store) : Confined catalog store (solve catalog limit observer state store) := by
  have evolves := solve_evolves catalog limit observer state store
  refine ⟨?_, ?_, fun _ solved => solve_moved_iff solved⟩
  · intro name v found
    obtain ⟨w, found, becomes, other⟩ := evolves.kept name v found
    refine ⟨w, found, becomes.name, becomes.provenance, becomes.unit, becomes.value.rank_le, ?_⟩
    rintro (finite | unlisted)
    · exact becomes.value.of_finite finite
    · rw [other unlisted]
  · intro name w missing found
    obtain ⟨listed, provenance, unit⟩ := evolves.created name w missing found
    exact ⟨provenance, unit, listed⟩

end Narrowing
