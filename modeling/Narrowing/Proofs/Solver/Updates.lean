import Narrowing.Solver.Cycle
import Narrowing.Proofs.Solver.Application

/-!
The updates of one cycle. Proposals that are taken leave one update each, in order, which says
whether it changed its target. Whether an equation applies depends on nothing but the precision of
its members, so a cycle in which no update changed anything leaves that as it was. The equations
excluded by a cycle are those of its unchanged updates.
-/
namespace Narrowing

namespace Interval

theorem isUnbounded_of_beq {a b : Interval} (same : (a == b) = true) :
    a.isUnbounded = b.isUnbounded := by
  have ends : (a.lo == b.lo) = true ∧ (a.hi == b.hi) = true := Bool.and_eq_true_iff.mp same
  unfold isUnbounded
  rw [number_beq_congr ends.1, number_beq_congr ends.2]

end Interval

theorem Variable.new_precision (name : String) (provenance : Provenance) (unit : String) :
    (Variable.new name provenance unit).precision = .unconstrained := by
  change Value.unconstrained.precision = .unconstrained
  simp [Value.unconstrained, Value.precision, Interval.unbounded_isUnbounded]

/-- A meeting that changes nothing may still put the other zero at an end. -/
theorem Variable.meet_unchanged_precision {v w : Variable} {proposed : Value}
    (met : v.meet proposed = .ok (w, false)) : w.precision = v.precision := by
  cases known : v.value with
  | scalar x =>
    obtain ⟨_, rfl, _⟩ := meet_scalar_ok known met
    rfl
  | interval current =>
    rw [meet_of_interval known] at met
    rcases update_ok_cases met with
      ⟨now, range, narrowed, held, _, _, _, rfl, unmoved⟩ | ⟨_, _, _, _, _, _, moved⟩
    · have same : (narrowed == now) = true := by simpa [bne] using unmoved
      unfold precision
      rw [held]
      simp only [withValue, Value.precision, Interval.isUnbounded_of_beq same]
    · simp at moved

namespace Equation

theorem isUnknown_eq_subject (s : Store) (name : String) :
    isUnknown s name = ((s.subject name).precision == .unconstrained) := by
  unfold isUnknown
  cases found : s.find? name with
  | none =>
    rw [Store.subject_of_missing found, Variable.new_precision]
    rfl
  | some v => rw [Store.subject_of_find found]

theorem isOpen_eq_subject (s : Store) (name : String) :
    isOpen s name = ((s.subject name).precision != .finite) := by
  unfold isOpen
  cases found : s.find? name with
  | none =>
    rw [Store.subject_of_missing found, Variable.new_precision]
    rfl
  | some v => rw [Store.subject_of_find found]

theorem applies_congr {s t : Store}
    (same : ∀ name, (s.subject name).precision = (t.subject name).precision) (e : Equation) :
    e.applies s = e.applies t := by
  have unknown : isUnknown s = isUnknown t := by
    funext name
    rw [isUnknown_eq_subject, isUnknown_eq_subject, same]
  have opened : isOpen s = isOpen t := by
    funext name
    rw [isOpen_eq_subject, isOpen_eq_subject, same]
  unfold applies unknowns
  rw [unknown, opened]

end Equation

inductive Applied : Store → List Proposal → List Update → Store → Prop
  | done (store : Store) : Applied store [] [] store
  | taken {store final : Store} {p : Proposal} {changed : Bool} {rest : List Proposal}
      {later : List Update} (now : (p.step store).outcome = .ok changed)
      (next : Applied (p.step store).store rest later final) :
      Applied store (p :: rest) (p.toUpdate changed :: later) final

theorem Application.steps_cons_ok {store : Store} {p : Proposal} {rest : List Proposal}
    {updates : List Update} (taken : (steps store (p :: rest)).outcome = .ok updates) :
    ∃ changed later, (p.step store).outcome = .ok changed ∧
      (steps (p.step store).store rest).outcome = .ok later ∧
      updates = p.toUpdate changed :: later := by
  obtain ⟨⟨changed, now⟩, later, outcome⟩ := (steps_cons_ok_iff store p rest).mp ⟨updates, taken⟩
  rw [steps] at taken
  simp only [now, outcome, Except.map, Except.ok.injEq] at taken
  exact ⟨changed, later, now, outcome, taken.symm⟩

theorem Application.steps_applied {store : Store} {proposals : List Proposal}
    {updates : List Update} (taken : (steps store proposals).outcome = .ok updates) :
    Applied store proposals updates (steps store proposals).store := by
  induction proposals generalizing store updates with
  | nil =>
    obtain rfl := Except.ok.inj taken
    exact .done store
  | cons p rest ih =>
    obtain ⟨changed, later, now, outcome, rfl⟩ := steps_cons_ok taken
    rw [steps_cons_store now]
    exact .taken now (ih outcome)

theorem applyAll_applied {store : Store} {proposals : List Proposal} {updates : List Update}
    (admissible : Admissible store proposals)
    (taken : (applyAll store proposals).outcome = .ok updates) :
    Applied store proposals updates (applyAll store proposals).store := by
  rw [applyAll_eq_steps admissible] at taken ⊢
  exact Application.steps_applied taken

theorem Proposal.countP_changed (p : Proposal) (changed : Bool) (later : List Update) :
    (p.toUpdate changed :: later).countP (·.changed) =
      later.countP (·.changed) + changed.toNat := by
  cases changed <;> simp [toUpdate]

namespace Applied
variable {store final : Store} {proposals : List Proposal} {updates : List Update}

theorem equations (applied : Applied store proposals updates final) :
    updates.map Update.equation = proposals.map Proposal.equation := by
  induction applied with
  | done store => rfl
  | taken now next ih =>
    rw [List.map_cons, List.map_cons, ih]
    rfl

theorem unchanged_precision (applied : Applied store proposals updates final)
    (unchanged : ∀ u ∈ updates, u.changed = false) (name : String) :
    (final.subject name).precision = (store.subject name).precision := by
  induction applied with
  | done store => rfl
  | taken now next ih =>
    obtain ⟨first, later⟩ := List.forall_mem_cons.mp unchanged
    obtain rfl : _ = false := first
    obtain ⟨w, met, subject⟩ := Proposal.step_subject now
    rw [ih later, subject]
    split
    · rename_i same
      subst name
      exact Variable.meet_unchanged_precision met
    · rfl

end Applied

theorem Roster.contains_put {α : Type} {key : α → String} (r : Roster α key) (a : α)
    (name : String) :
    (r.put a).contains name = true ↔ key a = name ∨ r.contains name = true := by
  unfold contains
  rw [find_put]
  by_cases same : key a = name
  · simp [same]
  · simp [same]

theorem Names.contains_foldl_put {α : Type} (name : α → String) (entries : List α) (r : Names)
    (n : String) : (entries.foldl (fun r a => r.put (name a)) r).contains n = true ↔
      r.contains n = true ∨ ∃ a ∈ entries, name a = n := by
  induction entries generalizing r with
  | nil => simp
  | cons a rest ih =>
    rw [List.foldl_cons, ih, Roster.contains_put]
    simp only [id_eq, List.mem_cons, exists_eq_or_imp]
    tauto

theorem Progress.excluded_advance (p : Progress) (store : Store) (updates : List Update)
    (name : String) : (p.advance store updates).excluded.contains name = true ↔
      p.excluded.contains name = true ∨
        ∃ u ∈ updates, u.changed = false ∧ u.equation = name := by
  unfold advance
  rw [Names.contains_foldl_put]
  simp [and_assoc]

end Narrowing
