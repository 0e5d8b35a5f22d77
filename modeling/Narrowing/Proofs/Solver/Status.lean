import Narrowing.Proofs.Solver.Soundness
import Narrowing.Proofs.Solver.Trace

/-!
What a run says when it ends. Its status, its counters and its events agree with one another and
with the store it leaves: a run that has converged leaves no equation that applies and was not
excluded, and every cycle but the last one has changed something.
-/
namespace Narrowing
variable {σ : Type}

/-- The end of a run: the solution it returns against what it left and reported. The last cycle is
    the one whose number is `solution.cycles`. -/
structure Accounted (catalog : Catalog) (limit : Limit) (run : Run σ) (solution : Solution) :
    Prop where
  empty : solution.status = .convergedEmpty → ∀ e ∈ catalog.toList,
    solution.excluded.contains e.name = false → e.applies run.store = false
  stable : solution.status = .convergedStable →
    Trace.viable (Trace.ofCycle solution.cycles run.events) ≠ [] ∧
    (Trace.updates (Trace.ofCycle solution.cycles run.events)).map Update.equation =
      Trace.viable (Trace.ofCycle solution.cycles run.events) ∧
    ∀ u ∈ Trace.updates (Trace.ofCycle solution.cycles run.events), u.changed = false
  capped : solution.status = .capReached → solution.cycles = limit.maxCycles ∧
    (∃ u ∈ Trace.updates (Trace.ofCycle solution.cycles run.events), u.changed = true) ∧
    solution.cycles ≤ solution.changes
  exhausted : solution.status = .convergedEmpty ∨ solution.status = .convergedStable →
    ∀ e ∈ catalog.toList, e.applies run.store = true → solution.excluded.contains e.name = true
  changes : solution.changes = Trace.changes run.events
  cycles : 1 ≤ solution.cycles ∧ solution.cycles ≤ limit.maxCycles
  productive : ∀ k, 1 ≤ k → k < solution.cycles →
    ∃ u ∈ Trace.updates (Trace.ofCycle k run.events), u.changed = true
  paced : solution.cycles ≤ solution.changes + 1

namespace CycleTrace
variable {catalog : Catalog} {observer : Observer σ} {cycle : Nat} {p after : Progress} {s : σ}
  {events : List Event}

theorem empty_exhausts
    (trace : CycleTrace catalog observer cycle p s (.ends .convergedEmpty) after events)
    {e : Equation} (listed : e ∈ catalog.toList) (applies : e.applies after.store = true) :
    after.excluded.contains e.name = true := by
  cases trace with
  | empty none => exact Progress.excluded_of_applies none listed applies
  | completed swept taken decision => cases decision

theorem stable_reports
    (trace : CycleTrace catalog observer cycle p s (.ends .convergedStable) after events) :
    Trace.viable events ≠ [] ∧ (Trace.updates events).map Update.equation = Trace.viable events ∧
      ∀ u ∈ Trace.updates events, u.changed = false := by
  cases trace with
  | completed swept taken decision =>
    cases decision with
    | stable unchanged =>
      rw [Trace.viable_append, Trace.updates_append, Progress.opening_viable,
        Progress.opening_updates]
      simp only [Trace.viable, Trace.updates, List.flatMap_singleton, Event.viable, Event.updates,
        List.append_nil, List.nil_append]
      exact ⟨by simpa using swept.1, swept.update_equations taken, unchanged⟩

/-- No update of a stable cycle has changed a precision, so what applies after it applied before,
    and an equation that applied was excluded already or is excluded now. -/
theorem stable_exhausts
    (trace : CycleTrace catalog observer cycle p s (.ends .convergedStable) after events)
    {e : Equation} (listed : e ∈ catalog.toList) (applies : e.applies after.store = true) :
    after.excluded.contains e.name = true := by
  cases trace with
  | @completed proposals updates _ swept taken decision =>
    cases decision with
    | stable unchanged =>
      have applied := swept.applied taken
      rw [Progress.excluded_advance]
      by_cases included : p.excluded.contains e.name = true
      · exact Or.inl included
      · right
        have before : e.applies p.store = true := by
          rw [← Equation.applies_congr (applied.unchanged_precision unchanged)]
          exact applies
        have viable := (p.mem_viable_iff catalog e).mpr ⟨listed, by simpa using included, before⟩
        have named : e.name ∈ updates.map Update.equation := by
          rw [swept.update_equations taken]
          exact List.mem_map_of_mem viable
        obtain ⟨u, member, name⟩ := List.mem_map.mp named
        exact ⟨u, member, unchanged u member, name⟩

theorem converged_exhausts {status : Status}
    (trace : CycleTrace catalog observer cycle p s (.ends status) after events)
    (converged : status = .convergedEmpty ∨ status = .convergedStable) :
    ∀ e ∈ catalog.toList, e.applies after.store = true →
      after.excluded.contains e.name = true := by
  intro e listed applies
  rcases converged with rfl | rfl
  · exact trace.empty_exhausts listed applies
  · exact trace.stable_exhausts listed applies

end CycleTrace

/-- Whatever the observer, a run that returns a solution means what the solution says. -/
theorem solve_accounted {catalog : Catalog} {limit : Limit} {observer : Observer σ} {state : σ}
    {store : Store} {solution : Solution}
    (solved : (solve catalog limit observer state store).result = .ok solution) :
    Accounted catalog limit (solve catalog limit observer state store) solution := by
  have conclusion := solve_conclusion catalog limit observer state store
  have counted := conclusion.changes_eq solved
  obtain ⟨paced, capped⟩ := conclusion.cycles_le_changes solved
  simp only [Nat.zero_add] at counted paced capped
  cases conclusion with
  | atLimit passed returned left =>
    obtain rfl := Except.ok.inj (solved.symm.trans returned)
    have positive := limit.positive
    exact {
      empty := by simp
      stable := by simp
      capped := fun _ =>
        ⟨rfl, passed.cycle_changed _ positive (Nat.le_refl _), (capped rfl).2⟩
      exhausted := by simp
      changes := counted
      cycles := ⟨positive, Nat.le_refl _⟩
      productive := fun k first before => passed.cycle_changed k first (Nat.le_of_lt before)
      paced := paced }
  | @ended k p after s before last status below passed trace returned left reported =>
    obtain rfl := Except.ok.inj (solved.symm.trans returned)
    refine ⟨?_, ?_, ?_, ?_, counted, ⟨by simp, below⟩, ?_, paced⟩
    · intro empty e listed included
      rw [left, ← Bool.not_eq_true]
      intro applies
      have excluded := trace.converged_exhausts (Or.inl empty) e listed applies
      simp [excluded] at included
    · intro stable
      obtain rfl : status = .convergedStable := stable
      rw [reported, passed.ofCycle_last trace.cycle_eq]
      exact trace.stable_reports
    · intro atLimit
      obtain rfl : status = .capReached := atLimit
      exact trace.not_capReached.elim
    · rw [left]
      exact trace.converged_exhausts
    · intro j first earlier
      have earlier : j < k + 1 := earlier
      rw [reported, Trace.ofCycle_earlier before earlier trace.cycle_eq]
      exact passed.cycle_changed j first (Nat.le_of_lt_succ earlier)
  | failed below passed trace unsolved left reported => simp [unsolved] at solved

theorem solve_accounted_square :
    ∃ excluded, (solve squares .standard .silent () someSquare).result =
        .ok ⟨.convergedStable, 2, 1, excluded⟩ ∧
      Accounted squares .standard (solve squares .standard .silent () someSquare)
        ⟨.convergedStable, 2, 1, excluded⟩ :=
  ⟨_, rfl, solve_accounted rfl⟩

end Narrowing
