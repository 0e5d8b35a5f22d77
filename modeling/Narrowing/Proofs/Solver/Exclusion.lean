import Narrowing.Proofs.Solver.Soundness
import Narrowing.Proofs.Solver.Trace

/-!
The equations that a run leaves aside. A cycle excludes the equations whose updates left their
targets as they were, and an excluded equation takes no part in a later cycle. So at each time the
excluded equations are those with an unchanged update so far, and that update is the last one of
its equation.
-/
namespace Narrowing
variable {σ : Type}

def Event.Involves (name : String) : Event → Prop
  | .cycleStarted _ viable => name ∈ viable
  | .evaluated _ equation _ => equation = name
  | .cycleCompleted _ updates _ _ => name ∈ updates.map Update.equation

namespace Trace

def Stalled (events : List Event) (name : String) : Prop :=
  ∃ u ∈ updates events, u.changed = false ∧ u.equation = name

def upTo (cycle : Nat) (events : List Event) : List Event := events.filter (·.cycle ≤ cycle)

theorem stalled_append (before after : List Event) (name : String) :
    Stalled (before ++ after) name ↔ Stalled before name ∨ Stalled after name := by
  unfold Stalled
  rw [updates_append]
  simp only [List.mem_append, or_and_right, exists_or]

theorem Stalled.among {part whole : List Event} {name : String} (stalled : Stalled part name)
    (among : part ⊆ whole) : Stalled whole name := by
  obtain ⟨u, reported, left⟩ := stalled
  obtain ⟨event, member, reported⟩ := List.mem_flatMap.mp reported
  exact ⟨u, List.mem_flatMap.mpr ⟨event, among member, reported⟩, left⟩

theorem upTo_subset (cycle : Nat) (events : List Event) : upTo cycle events ⊆ events :=
  List.filter_subset_self events

theorem upTo_mono {c d : Nat} (order : c ≤ d) (events : List Event) :
    upTo c events ⊆ upTo d events := by
  intro event member
  simp only [upTo, List.mem_filter, decide_eq_true_eq] at member ⊢
  exact ⟨member.1, Nat.le_trans member.2 order⟩

theorem upTo_whole {cycle : Nat} {events : List Event}
    (within : ∀ event ∈ events, event.cycle ≤ cycle) : upTo cycle events = events := by
  unfold upTo
  exact List.filter_eq_self.mpr fun event member => by simpa using within event member

theorem upTo_earlier (events : List Event) {last : List Event} {j k : Nat} (earlier : j < k)
    (same : ∀ event ∈ last, event.cycle = k) : upTo j (events ++ last) = upTo j events := by
  have beyond : upTo j last = [] := by
    unfold upTo
    refine List.filter_eq_nil_iff.mpr fun event member => ?_
    have := same event member
    simp only [decide_eq_true_eq]
    omega
  unfold upTo at *
  rw [List.filter_append, beyond, List.append_nil]

end Trace

theorem viable_included (catalog : Catalog) {p : Progress} {name : String}
    (viable : name ∈ (p.viable catalog).map Equation.name) :
    p.excluded.contains name = false := by
  obtain ⟨e, member, rfl⟩ := List.mem_map.mp viable
  exact ((p.mem_viable_iff catalog e).mp member).2.1

theorem viable_names_distinct (p : Progress) (catalog : Catalog) :
    ((p.viable catalog).map Equation.name).Pairwise (· ≠ ·) := by
  refine List.pairwise_map.mpr ((viable_ascending p catalog).imp ?_)
  intro d e below same
  exact String.lt_irrefl _ (same ▸ below)

theorem Progress.Reads.involved {p : Progress} {catalog : Catalog} {cycle : Nat}
    {read : List Proposal} (reads : p.Reads catalog read) {event : Event} {name : String}
    (member : event ∈ p.opening catalog cycle read) (involves : event.Involves name) :
    name ∈ (p.viable catalog).map Equation.name := by
  rcases List.mem_cons.mp member with rfl | member
  · exact involves
  · obtain ⟨q, found, rfl⟩ := List.mem_map.mp member
    obtain ⟨e, _, viable, named, _⟩ := reads.origin found
    obtain rfl : q.equation = name := involves
    rw [named]
    exact List.mem_map_of_mem viable

theorem Progress.completed_updates (p : Progress) (catalog : Catalog) (cycle : Nat)
    (read : List Proposal) (updates : List Update) (excluded : Names) (store : Store) :
    Trace.updates (p.opening catalog cycle read ++ [.cycleCompleted cycle updates excluded store]) =
      updates := by
  rw [Trace.updates_append, Progress.opening_updates]
  simp [Trace.updates, Event.updates]

namespace CycleTrace
variable {catalog : Catalog} {observer : Observer σ} {cycle : Nat} {p after : Progress} {s : σ}
  {verdict : Verdict} {events : List Event}

/-- A cycle is left unfinished, and then reports no update and excludes nothing, or it completes. -/
theorem unfinished_or_completed
    (trace : CycleTrace catalog observer cycle p s verdict after events) :
    (after.excluded = p.excluded ∧ Trace.updates events = [] ∧
      ∃ read, p.Reads catalog read ∧ events ⊆ p.opening catalog cycle read) ∨
    ∃ proposals updates, p.Swept catalog observer cycle s proposals ∧
      (applyAll p.store proposals).outcome = .ok updates ∧
      after = p.advance (applyAll p.store proposals).store updates ∧
      events = p.opening catalog cycle proposals ++
        [.cycleCompleted cycle updates after.excluded (applyAll p.store proposals).store] := by
  cases trace with
  | empty none => exact Or.inl ⟨rfl, rfl, [], ⟨[], _, rfl, rfl⟩, List.nil_subset _⟩
  | interrupted stops part =>
    exact Or.inl ⟨rfl, p.opening_updates catalog cycle _, _, part, List.Subset.refl _⟩
  | misevaluated part failed =>
    exact Or.inl ⟨rfl, p.opening_updates catalog cycle _, _, part, List.Subset.refl _⟩
  | refused swept failed =>
    have reads := Progress.reads_of_proposed swept.proposed
    exact Or.inl ⟨rfl, p.opening_updates catalog cycle _, _, reads, List.Subset.refl _⟩
  | completed swept taken decision => exact Or.inr ⟨_, _, swept, taken, rfl, rfl⟩

theorem involved_included (trace : CycleTrace catalog observer cycle p s verdict after events)
    {event : Event} (member : event ∈ events) {name : String} (involves : event.Involves name) :
    p.excluded.contains name = false := by
  apply viable_included catalog
  rcases trace.unfinished_or_completed with
    ⟨_, _, read, reads, opened⟩ | ⟨proposals, updates, swept, taken, _, rfl⟩
  · exact reads.involved (opened member) involves
  · rcases List.mem_append.mp member with early | last
    · exact (Progress.reads_of_proposed swept.proposed).involved early involves
    · obtain rfl := List.mem_singleton.mp last
      rw [← swept.update_equations taken]
      exact involves

theorem updates_distinct (trace : CycleTrace catalog observer cycle p s verdict after events) :
    (Trace.updates events).Pairwise fun u v => u.equation ≠ v.equation := by
  rcases trace.unfinished_or_completed with
    ⟨_, none, _⟩ | ⟨proposals, updates, swept, taken, _, rfl⟩
  · rw [none]
    exact List.Pairwise.nil
  · have distinct := viable_names_distinct p catalog
    rw [← swept.update_equations taken] at distinct
    rw [Progress.completed_updates]
    exact List.pairwise_map.mp distinct

theorem excluded_iff (trace : CycleTrace catalog observer cycle p s verdict after events)
    (name : String) : after.excluded.contains name = true ↔
      p.excluded.contains name = true ∨ Trace.Stalled events name := by
  unfold Trace.Stalled
  rcases trace.unfinished_or_completed with
    ⟨kept, none, _⟩ | ⟨proposals, updates, _, _, advanced, rfl⟩
  · rw [kept, none]
    simp
  · rw [Progress.completed_updates, advanced, Progress.excluded_advance]

theorem completed_excluded (trace : CycleTrace catalog observer cycle p s verdict after events)
    {c : Nat} {updates : List Update} {excluded : Names} {store : Store}
    (member : .cycleCompleted c updates excluded store ∈ events) : excluded = after.excluded := by
  have unopened : ∀ read,
      .cycleCompleted c updates excluded store ∉ p.opening catalog cycle read := by
    intro read opened
    simp [Progress.opening, Proposal.reading] at opened
  rcases trace.unfinished_or_completed with ⟨_, _, read, _, opened⟩ | ⟨_, _, _, _, _, rfl⟩
  · exact absurd (opened member) (unopened read)
  · rcases List.mem_append.mp member with early | last
    · exact absurd early (unopened _)
    · have same := List.mem_singleton.mp last
      simp only [Event.cycleCompleted.injEq] at same
      exact same.2.2.1

end CycleTrace

structure Exclusions (k : Nat) (p : Progress) (events : List Event) : Prop where
  within : ∀ event ∈ events, event.cycle ≤ k
  current : ∀ name, p.excluded.contains name = true ↔ Trace.Stalled events name
  recorded : ∀ cycle updates excluded store, .cycleCompleted cycle updates excluded store ∈ events →
    ∀ name, excluded.contains name = true ↔ Trace.Stalled (Trace.upTo cycle events) name
  retired : ∀ cycle updates excluded store, .cycleCompleted cycle updates excluded store ∈ events →
    ∀ name, excluded.contains name = true → ∀ event ∈ events, cycle < event.cycle →
      ¬ event.Involves name
  final : (Trace.updates events).Pairwise fun u v => u.changed = false → u.equation ≠ v.equation

namespace Exclusions
variable {k : Nat} {p after : Progress} {events last : List Event} {catalog : Catalog}
  {observer : Observer σ} {s : σ} {verdict : Verdict}

theorem start (store : Store) : Exclusions 0 ⟨store, .empty, 0⟩ [] where
  within := by simp
  current := by simp [Trace.Stalled, Trace.updates, Roster.contains, Roster.find?, Roster.empty]
  recorded := by simp
  retired := by simp
  final := List.Pairwise.nil

theorem stalled_excluded (exclusions : Exclusions k p events) {u : Update}
    (reported : u ∈ Trace.updates events) (unchanged : u.changed = false) :
    p.excluded.contains u.equation = true :=
  (exclusions.current u.equation).mpr ⟨u, reported, unchanged, rfl⟩

/-- A name in a recorded set has stalled by then, so it is excluded now as well. -/
theorem recorded_kept (exclusions : Exclusions k p events) {cycle : Nat} {updates : List Update}
    {excluded : Names} {store : Store}
    (completed : .cycleCompleted cycle updates excluded store ∈ events) {name : String}
    (contained : excluded.contains name = true) : p.excluded.contains name = true := by
  have stalled := (exclusions.recorded _ _ _ _ completed name).mp contained
  exact (exclusions.current name).mpr (stalled.among (Trace.upTo_subset cycle events))

theorem next_within (exclusions : Exclusions k p events)
    (trace : CycleTrace catalog observer (k + 1) p s verdict after last) :
    ∀ event ∈ events ++ last, event.cycle ≤ k + 1 := by
  intro event member
  rcases List.mem_append.mp member with early | late
  · exact Nat.le_succ_of_le (exclusions.within event early)
  · exact Nat.le_of_eq (trace.cycle_eq event late)

theorem next_recorded (exclusions : Exclusions k p events)
    (trace : CycleTrace catalog observer (k + 1) p s verdict after last) {cycle : Nat}
    {updates : List Update} {excluded : Names} {store : Store}
    (completed : .cycleCompleted cycle updates excluded store ∈ events ++ last) (name : String) :
    excluded.contains name = true ↔ Trace.Stalled (Trace.upTo cycle (events ++ last)) name := by
  rcases List.mem_append.mp completed with early | late
  · have earlier : cycle ≤ k := exclusions.within _ early
    rw [Trace.upTo_earlier events (Nat.lt_succ_of_le earlier) trace.cycle_eq]
    exact exclusions.recorded _ _ _ _ early name
  · obtain rfl : cycle = k + 1 := trace.cycle_eq _ late
    rw [Trace.upTo_whole (exclusions.next_within trace), trace.completed_excluded late,
      trace.excluded_iff, exclusions.current, Trace.stalled_append]

theorem next_retired (exclusions : Exclusions k p events)
    (trace : CycleTrace catalog observer (k + 1) p s verdict after last) {cycle : Nat}
    {updates : List Update} {excluded : Names} {store : Store}
    (completed : .cycleCompleted cycle updates excluded store ∈ events ++ last) {name : String}
    (contained : excluded.contains name = true) {event : Event} (member : event ∈ events ++ last)
    (later : cycle < event.cycle) : ¬ event.Involves name := by
  have bound := exclusions.next_within trace event member
  rcases List.mem_append.mp completed with completed | completed
  · rcases List.mem_append.mp member with early | late
    · exact exclusions.retired _ _ _ _ completed name contained event early later
    · -- What was excluded by then is still excluded when the last cycle begins.
      intro involves
      have included := trace.involved_included late involves
      rw [exclusions.recorded_kept completed contained] at included
      simp at included
  · have now : cycle = k + 1 := trace.cycle_eq _ completed
    omega

theorem next_final (exclusions : Exclusions k p events)
    (trace : CycleTrace catalog observer (k + 1) p s verdict after last) :
    (Trace.updates (events ++ last)).Pairwise fun u v =>
      u.changed = false → u.equation ≠ v.equation := by
  rw [Trace.updates_append]
  refine List.pairwise_append.mpr ⟨exclusions.final, ?_, ?_⟩
  · refine trace.updates_distinct.imp ?_
    intro u v distinct _
    exact distinct
  · intro u early v late unchanged same
    have excluded := exclusions.stalled_excluded early unchanged
    obtain ⟨event, member, reported⟩ := List.mem_flatMap.mp late
    have involves : event.Involves v.equation := by
      cases event with
      | cycleCompleted _ _ _ _ => exact List.mem_map_of_mem reported
      | cycleStarted _ _ => simp [Event.updates] at reported
      | evaluated _ _ _ => simp [Event.updates] at reported
    have included := trace.involved_included member involves
    rw [← same, excluded] at included
    simp at included

theorem next (exclusions : Exclusions k p events)
    (trace : CycleTrace catalog observer (k + 1) p s verdict after last) :
    Exclusions (k + 1) after (events ++ last) where
  within := exclusions.next_within trace
  current := by
    intro name
    rw [trace.excluded_iff, exclusions.current, Trace.stalled_append]
  recorded := fun _ _ _ _ completed name => exclusions.next_recorded trace completed name
  retired := fun _ _ _ _ completed _ contained _ member later =>
    exclusions.next_retired trace completed contained member later
  final := exclusions.next_final trace

/-- Of the updates of an equation that has stalled, all but the last one changed something. -/
theorem last_update (exclusions : Exclusions k p events) {name : String}
    (stalled : Trace.Stalled events name) :
    ∃ earlier u, (Trace.updates events).filter (·.equation = name) = earlier ++ [u] ∧
      u.changed = false ∧ ∀ v ∈ earlier, v.changed = true := by
  obtain ⟨u, reported, unchanged, rfl⟩ := stalled
  have final := exclusions.final
  obtain ⟨before, following, split⟩ := List.append_of_mem reported
  rw [split] at final ⊢
  obtain ⟨_, fromHere, across⟩ := List.pairwise_append.mp final
  have none : following.filter (·.equation = u.equation) = [] := by
    refine List.filter_eq_nil_iff.mpr fun v member => ?_
    have other := (List.pairwise_cons.mp fromHere).1 v member unchanged
    simpa using Ne.symm other
  refine ⟨before.filter (·.equation = u.equation), u, ?_, unchanged, ?_⟩
  · rw [List.filter_append, List.filter_cons_of_pos (by simp), none]
  · intro v member
    obtain ⟨early, same⟩ := List.mem_filter.mp member
    rw [← Bool.not_eq_false]
    intro unchanged'
    exact across v early u (by simp) unchanged' (by simpa using same)

end Exclusions

theorem solve_exclusions (catalog : Catalog) (limit : Limit) (observer : Observer σ) (state : σ)
    (store : Store) :
    ∃ k p, Exclusions k p (solve catalog limit observer state store).events ∧
      ∀ solution, (solve catalog limit observer state store).result = .ok solution →
        solution.excluded = p.excluded := by
  obtain ⟨k, p, exclusions, _, returned⟩ :=
    (solve_conclusion catalog limit observer state store).invariant Exclusions
      (Exclusions.start store) fun _ exclusions trace => exclusions.next trace
  exact ⟨k, p, exclusions, fun solution solved => (returned solution solved).2.2⟩

/-- Exclusion over a whole run, which may end in any way. The set that a completed cycle reports is
    the excluded set at its end. -/
structure ExcludesForGood (run : Run σ) : Prop where
  reported : ∀ cycle updates excluded store,
    .cycleCompleted cycle updates excluded store ∈ run.events →
    ∀ name, excluded.contains name = true ↔ Trace.Stalled (Trace.upTo cycle run.events) name
  returned : ∀ solution, run.result = .ok solution →
    ∀ name, solution.excluded.contains name = true ↔ Trace.Stalled run.events name
  kept : ∀ c d first second, (∃ updates store, .cycleCompleted c updates first store ∈ run.events) →
    (∃ updates store, .cycleCompleted d updates second store ∈ run.events) → c ≤ d →
    ∀ name, first.contains name = true → second.contains name = true
  keptAtEnd : ∀ cycle updates excluded store solution,
    .cycleCompleted cycle updates excluded store ∈ run.events → run.result = .ok solution →
    ∀ name, excluded.contains name = true → solution.excluded.contains name = true
  retired : ∀ cycle updates excluded store,
    .cycleCompleted cycle updates excluded store ∈ run.events →
    ∀ name, excluded.contains name = true → ∀ event ∈ run.events, cycle < event.cycle →
      ¬ event.Involves name
  once : ∀ name, Trace.Stalled run.events name →
    ∃ earlier u, (Trace.updates run.events).filter (·.equation = name) = earlier ++ [u] ∧
      u.changed = false ∧ ∀ v ∈ earlier, v.changed = true

theorem solve_excludes_for_good (catalog : Catalog) (limit : Limit) (observer : Observer σ)
    (state : σ) (store : Store) : ExcludesForGood (solve catalog limit observer state store) := by
  obtain ⟨k, p, exclusions, returned⟩ := solve_exclusions catalog limit observer state store
  refine ⟨exclusions.recorded, ?_, ?_, ?_, exclusions.retired, ?_⟩
  · intro solution solved name
    rw [returned solution solved]
    exact exclusions.current name
  · intro c d first second hc hd order name contained
    obtain ⟨_, _, early⟩ := hc
    obtain ⟨_, _, late⟩ := hd
    have stalled := (exclusions.recorded _ _ _ _ early name).mp contained
    exact (exclusions.recorded _ _ _ _ late name).mpr (stalled.among (Trace.upTo_mono order _))
  · intro cycle updates excluded store solution completed solved name contained
    rw [returned solution solved]
    exact exclusions.recorded_kept completed contained
  · intro name stalled
    exact exclusions.last_update stalled

theorem solve_excludes_for_good_square :
    Trace.Stalled (solve squares .standard .silent () someSquare).events "square" ∧
      ∃ earlier u, (Trace.updates (solve squares .standard .silent () someSquare).events).filter
          (·.equation = "square") = earlier ++ [u] ∧
        u.changed = false ∧ ∀ v ∈ earlier, v.changed = true := by
  have stalled : Trace.Stalled (solve squares .standard .silent () someSquare).events "square" :=
    ⟨_, .tail _ (.head _), rfl, rfl⟩
  exact ⟨stalled, (solve_excludes_for_good squares .standard .silent () someSquare).once _ stalled⟩

end Narrowing
