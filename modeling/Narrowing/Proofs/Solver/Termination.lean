import Narrowing.Proofs.Solver.Soundness
import Narrowing.Proofs.Solver.Trace
import Narrowing.Proofs.Variable.Room

/-!
A run ends even without its limit. The members of a catalog leave so much room in a store, every
update that is reported as changed takes some of it, and a run continues only after such an
update. So the changes of a run are bounded by the catalog alone.
-/
namespace Narrowing
variable {σ : Type}

/-- The room that these names have, one with another. A name that is not stored has all of it. -/
noncomputable def Store.room (s : Store) (names : Finset String) : Nat :=
  ∑ name ∈ names, (s.subject name).value.room

theorem Store.room_le (s : Store) (names : Finset String) :
    s.room names ≤ names.card * numberCount := by
  have each := Finset.sum_le_card_nsmul names (fun name => (s.subject name).value.room)
    numberCount fun name _ => (s.subject name).value.room_le
  simpa [Store.room] using each

theorem Proposal.step_room {p : Proposal} {store : Store} {changed : Bool} {names : Finset String}
    (taken : (p.step store).outcome = .ok changed) (listed : p.target ∈ names) :
    (p.step store).store.room names + changed.toNat ≤ store.room names := by
  obtain ⟨w, met, subject⟩ := step_subject taken
  have spent := Variable.meet_room met
  have target : (p.step store).store.subject p.target = w := by rw [subject, if_pos rfl]
  have others : ∑ name ∈ names.erase p.target, ((p.step store).store.subject name).value.room =
      ∑ name ∈ names.erase p.target, (store.subject name).value.room := by
    refine Finset.sum_congr rfl fun name member => ?_
    have other : p.target ≠ name := Ne.symm (Finset.mem_erase.mp member).1
    rw [subject, if_neg other]
  unfold Store.room
  rw [← Finset.add_sum_erase names _ listed, ← Finset.add_sum_erase names _ listed, others, target]
  omega

theorem Applied.room {store final : Store} {proposals : List Proposal} {updates : List Update}
    {names : Finset String} (applied : Applied store proposals updates final)
    (listed : ∀ q ∈ proposals, q.target ∈ names) :
    final.room names + updates.countP (·.changed) ≤ store.room names := by
  induction applied with
  | done store => simp
  | @taken store final p changed rest later now next ih =>
    obtain ⟨first, others⟩ := List.forall_mem_cons.mp listed
    have spent := Proposal.step_room now first
    have spentLater := ih others
    rw [Proposal.countP_changed]
    omega

namespace CycleTrace
variable {catalog : Catalog} {observer : Observer σ} {cycle : Nat} {p after : Progress} {s : σ}
  {verdict : Verdict} {events : List Event}

/-- A cycle pays for its changes with room; one that fails has none to report. -/
theorem spends (trace : CycleTrace catalog observer cycle p s verdict after events) :
    after.changes ≤ p.changes + p.store.room catalog.memberNames ∧
      ((∀ error, verdict ≠ .fails error) → after.changes + after.store.room catalog.memberNames ≤
        p.changes + p.store.room catalog.memberNames) := by
  cases trace with
  | empty none => exact ⟨by omega, fun _ => Nat.le_refl _⟩
  | interrupted stops part => exact ⟨by omega, fun _ => Nat.le_refl _⟩
  | misevaluated part failed => exact ⟨by omega, fun passed => absurd rfl (passed _)⟩
  | refused swept failed => exact ⟨Nat.le_add_right _ _, fun passed => absurd rfl (passed _)⟩
  | @completed proposals updates _ swept taken decision =>
    have listed := (Progress.reads_of_proposed swept.proposed).target_listed
    have spent := (swept.applied taken).room listed
    simp only [Progress.advance]
    exact ⟨by omega, fun _ => by omega⟩

end CycleTrace

theorem Passed.spends {catalog : Catalog} {observer : Observer σ} {start : Progress} {state : σ}
    {k : Nat} {p : Progress} {s : σ} {events : List Event}
    (passed : Passed catalog observer start state k p s events) :
    p.changes + p.store.room catalog.memberNames ≤
      start.changes + start.store.room catalog.memberNames := by
  refine passed.invariant (fun _ p _ => p.changes + p.store.room catalog.memberNames ≤
    start.changes + start.store.room catalog.memberNames) (Nat.le_refl _) ?_
  intro k p s before after last _ spent trace
  exact (trace.spends.2 (by simp)).trans spent

/-- Every run, also one that fails, has its changes within the room it starts with. -/
theorem Conclusion.spends {catalog : Catalog} {observer : Observer σ} {start : Progress} {state : σ}
    {limit : Nat} {result : Except SolveError Solution} {store : Store} {events : List Event}
    (conclusion : Conclusion catalog observer start state limit result store events) :
    Trace.changes events ≤ start.store.room catalog.memberNames := by
  obtain ⟨k, p, s, before, last, passed, rfl, ending⟩ := conclusion.events_split
  have counted := passed.changes_eq
  have spent := passed.spends
  rw [Trace.changes_append]
  rcases ending with rfl | ⟨verdict, after, trace⟩
  · have nothing : Trace.changes [] = 0 := rfl
    omega
  · have counted' := trace.changes_eq
    have spent' := trace.spends.1
    omega

/-- No run reports more changes than its members have numbers, and one that may enter more cycles
    than that is never stopped by its limit. -/
theorem solve_changes_bounded (catalog : Catalog) (limit : Limit) (observer : Observer σ)
    (state : σ) (store : Store) :
    Trace.changes (solve catalog limit observer state store).events ≤
      catalog.memberNames.card * numberCount ∧
    ∀ solution, (solve catalog limit observer state store).result = .ok solution →
      solution.changes ≤ catalog.memberNames.card * numberCount ∧
      (catalog.memberNames.card * numberCount < limit.maxCycles →
        solution.status ≠ .capReached) := by
  have conclusion := solve_conclusion catalog limit observer state store
  have bounded := conclusion.spends.trans (store.room_le catalog.memberNames)
  refine ⟨bounded, ?_⟩
  intro solution solved
  have counted := conclusion.changes_eq solved
  simp only [Nat.zero_add] at counted
  refine ⟨by omega, ?_⟩
  intro beyond capped
  have paced := ((conclusion.cycles_le_changes solved).2 capped).2
  simp only [Nat.zero_add] at paced
  omega

theorem square_settles (spare : Nat) :
    (Run.cycles squares .silent (spare + 2) 0 ⟨someSquare, .empty, 0⟩ ()).result.isOk = true := rfl

theorem solve_changes_bounded_square :
    ∃ limit : Limit, squares.memberNames.card * numberCount < limit.maxCycles ∧
      ∃ solution, (solve squares limit .silent () someSquare).result = .ok solution ∧
        solution.changes ≤ squares.memberNames.card * numberCount ∧
        solution.status ≠ .capReached := by
  have sides : squares.memberNames.card = 2 := by decide +kernel
  have some := numberCount_pos
  have beyond : squares.memberNames.card * numberCount < 2 * numberCount - 1 + 2 := by
    rw [sides]
    omega
  refine ⟨⟨2 * numberCount - 1 + 2, by omega⟩, beyond, ?_⟩
  have ends := square_settles (2 * numberCount - 1)
  cases result : (solve squares ⟨2 * numberCount - 1 + 2, by omega⟩ .silent () someSquare).result with
  | error error =>
    unfold solve at result
    simp [result, Except.isOk, Except.toBool] at ends
  | ok solution =>
    have bounded := (solve_changes_bounded squares _ .silent () someSquare).2 solution result
    exact ⟨solution, rfl, bounded.1, bounded.2 beyond⟩

end Narrowing
