import Narrowing.Proofs.Solver.Run
import Narrowing.Proofs.Solver.Updates

/-!
The trace of a run: its events, cycle by cycle. `CycleTrace` says all that one cycle can do, with
the events it reports, `Passed` which progress and which events a run has when it comes to a cycle,
and `Conclusion` how a run ends. From these the counters of a run are read off its events.
-/
namespace Narrowing
variable {σ : Type}

namespace Event

def viable : Event → List String
  | .cycleStarted _ viable => viable
  | _ => []

def updates : Event → List Update
  | .cycleCompleted _ updates _ _ => updates
  | _ => []

end Event

namespace Trace

def ofCycle (cycle : Nat) (events : List Event) : List Event := events.filter (·.cycle = cycle)

def viable (events : List Event) : List String := events.flatMap Event.viable

/-- The updates that events report, which are those of completed cycles. -/
def updates (events : List Event) : List Update := events.flatMap Event.updates

def changes (events : List Event) : Nat := (updates events).countP (·.changed)

theorem ofCycle_append (cycle : Nat) (before after : List Event) :
    ofCycle cycle (before ++ after) = ofCycle cycle before ++ ofCycle cycle after := by
  unfold ofCycle
  exact List.filter_append ..

theorem ofCycle_of_same {cycle : Nat} {events : List Event}
    (same : ∀ event ∈ events, event.cycle = cycle) : ofCycle cycle events = events := by
  unfold ofCycle
  exact List.filter_eq_self.mpr fun event member => by simp [same event member]

theorem ofCycle_of_other {cycle : Nat} {events : List Event}
    (other : ∀ event ∈ events, event.cycle ≠ cycle) : ofCycle cycle events = [] := by
  unfold ofCycle
  exact List.filter_eq_nil_iff.mpr fun event member => by simp [other event member]

theorem ofCycle_earlier (events : List Event) {last : List Event} {j k : Nat} (earlier : j < k)
    (same : ∀ event ∈ last, event.cycle = k) : ofCycle j (events ++ last) = ofCycle j events := by
  have other : ∀ event ∈ last, event.cycle ≠ j := by
    intro event member
    have := same event member
    omega
  rw [ofCycle_append, ofCycle_of_other other, List.append_nil]

theorem updates_append (before after : List Event) :
    updates (before ++ after) = updates before ++ updates after := by
  unfold updates
  exact List.flatMap_append

theorem viable_append (before after : List Event) :
    viable (before ++ after) = viable before ++ viable after := by
  unfold viable
  exact List.flatMap_append

theorem changes_append (before after : List Event) :
    changes (before ++ after) = changes before + changes after := by
  unfold changes
  rw [updates_append, List.countP_append]

theorem changes_pos {events : List Event} (changed : ∃ u ∈ updates events, u.changed = true) :
    0 < changes events :=
  List.countP_pos_iff.mpr changed

end Trace

def Catalog.memberNames (catalog : Catalog) : Finset String :=
  (catalog.toList.flatMap Equation.members).toFinset

theorem Catalog.mem_memberNames (catalog : Catalog) (name : String) :
    name ∈ catalog.memberNames ↔ ∃ e ∈ catalog.toList, name ∈ e.members := by
  simp [memberNames]

theorem Catalog.eq_of_name {catalog : Catalog} {d e : Equation} (hd : d ∈ catalog.toList)
    (he : e ∈ catalog.toList) (same : d.name = e.name) : d = e := by
  have foundD : catalog.equations.find? d.name = some d := Roster.find_of_mem hd
  have foundE : catalog.equations.find? e.name = some e := Roster.find_of_mem he
  rw [same, foundE] at foundD
  exact (Option.some.inj foundD).symm

def Observer.Stops (observer : Observer σ) : Prop :=
  ∃ s event, (observer.react s event).1 = .stop

theorem Observer.silent_never_stops : ¬ Observer.silent.Stops := by
  rintro ⟨s, event, stop⟩
  simp [Observer.silent] at stop

def Proposal.reading (cycle : Nat) (q : Proposal) : Event :=
  .evaluated cycle q.equation q.evaluation

theorem sweep_events (observer : Observer σ) (cycle : Nat) (store : Store) (state : σ)
    (equations : List Equation) :
    ∃ before after read, equations = before ++ after ∧
      before.mapM (Equation.propose store) = .ok read ∧
      (sweep observer cycle store state equations).events = read.map (Proposal.reading cycle) ∧
      ((sweep observer cycle store state equations).outcome = .stopped → observer.Stops) ∧
      ∀ proposals, (sweep observer cycle store state equations).outcome = .complete proposals →
        read = proposals := by
  induction equations generalizing state with
  | nil =>
    refine ⟨[], [], [], rfl, rfl, rfl, by simp [sweep], ?_⟩
    intro proposals complete
    exact SweepOutcome.complete.inj complete
  | cons e rest ih =>
    unfold sweep
    cases evaluated : e.evaluate store with
    | error error => exact ⟨[], e :: rest, [], rfl, rfl, rfl, by simp, by simp⟩
    | ok evaluation =>
      have first : e.propose store = .ok ⟨e.name, evaluation⟩ :=
        (e.propose_ok_iff store _).mpr ⟨rfl, evaluated⟩
      rcases reaction : observer.react state (.evaluated cycle e.name evaluation) with
        ⟨action, next⟩
      cases action with
      | stop =>
        refine ⟨[e], rest, [⟨e.name, evaluation⟩], rfl, ?_, by simp [reaction, Proposal.reading],
          fun _ => ⟨state, _, by rw [reaction]⟩, by simp [reaction]⟩
        exact (mapM_cons_ok_iff e [] _).mpr ⟨_, [], first, rfl, rfl⟩
      | proceed =>
        simp only [reaction]
        obtain ⟨before, after, read, rfl, proposed, events, stopped, complete⟩ := ih next
        refine ⟨e :: before, after, ⟨e.name, evaluation⟩ :: read, rfl, ?_, ?_, ?_, ?_⟩
        · exact (mapM_cons_ok_iff e before _).mpr ⟨_, read, first, proposed, rfl⟩
        · rw [events]
          rfl
        · intro outcome
          apply stopped
          revert outcome
          cases (sweep observer cycle store next (before ++ after)).outcome <;>
            simp [SweepOutcome.withFirst]
        · intro proposals outcome
          revert outcome complete
          cases (sweep observer cycle store next (before ++ after)).outcome with
          | complete remaining =>
            intro complete outcome
            rw [complete remaining rfl]
            exact SweepOutcome.complete.inj outcome
          | stopped => simp [SweepOutcome.withFirst]
          | failed error => simp [SweepOutcome.withFirst]

theorem proposals_equations {store : Store} {equations : List Equation} {proposals : List Proposal}
    (proposed : equations.mapM (Equation.propose store) = .ok proposals) :
    proposals.map Proposal.equation = equations.map Equation.name := by
  induction equations generalizing proposals with
  | nil =>
    obtain rfl := Except.ok.inj proposed
    rfl
  | cons e rest ih =>
    obtain ⟨q, later, first, remaining, rfl⟩ := (mapM_cons_ok_iff e rest proposals).mp proposed
    rw [List.map_cons, List.map_cons, ih remaining, ((e.propose_ok_iff store q).mp first).1]

namespace Progress

theorem mem_viable_iff (p : Progress) (catalog : Catalog) (e : Equation) :
    e ∈ p.viable catalog ↔
      e ∈ catalog.toList ∧ p.excluded.contains e.name = false ∧ e.applies p.store = true := by
  simp [viable]

theorem excluded_of_applies {p : Progress} {catalog : Catalog} (none : p.viable catalog = [])
    {e : Equation} (listed : e ∈ catalog.toList) (applies : e.applies p.store = true) :
    p.excluded.contains e.name = true := by
  rw [← Bool.not_eq_false]
  intro included
  have viable := (p.mem_viable_iff catalog e).mpr ⟨listed, included, applies⟩
  simp [none] at viable

/-- The first viable equations, as far as a cycle gets, propose this. -/
def Reads (p : Progress) (catalog : Catalog) (read : List Proposal) : Prop :=
  ∃ before after, p.viable catalog = before ++ after ∧
    before.mapM (Equation.propose p.store) = .ok read

def Swept (p : Progress) (catalog : Catalog) (observer : Observer σ) (cycle : Nat) (s : σ)
    (proposals : List Proposal) : Prop :=
  p.viable catalog ≠ [] ∧ ∃ next,
    observer.react s (.cycleStarted cycle ((p.viable catalog).map Equation.name)) =
      (.proceed, next) ∧
    (sweep observer cycle p.store next (p.viable catalog)).outcome = .complete proposals

def opening (p : Progress) (catalog : Catalog) (cycle : Nat) (read : List Proposal) :
    List Event :=
  .cycleStarted cycle ((p.viable catalog).map Equation.name) :: read.map (Proposal.reading cycle)

theorem Swept.proposed {p : Progress} {catalog : Catalog} {observer : Observer σ} {cycle : Nat}
    {s : σ} {proposals : List Proposal} (swept : p.Swept catalog observer cycle s proposals) :
    (p.viable catalog).mapM (Equation.propose p.store) = .ok proposals := by
  obtain ⟨_, next, _, complete⟩ := swept
  have outcome := sweep_outcome observer cycle p.store next (p.viable catalog)
  rw [complete] at outcome
  exact outcome

theorem reads_of_proposed {p : Progress} {catalog : Catalog} {proposals : List Proposal}
    (proposed : (p.viable catalog).mapM (Equation.propose p.store) = .ok proposals) :
    p.Reads catalog proposals :=
  ⟨p.viable catalog, [], by simp, proposed⟩

/-- A proposal is what a viable equation says of the member it chose, from the others, all known. -/
theorem Reads.origin {p : Progress} {catalog : Catalog} {read : List Proposal}
    (reads : p.Reads catalog read) {q : Proposal} (member : q ∈ read) :
    ∃ e f, e ∈ p.viable catalog ∧ q.equation = e.name ∧ e.chooseForm p.store = .ok f ∧
      e.evaluate p.store = .ok q.evaluation ∧ q.target = f.target ∧ f.target ∈ e.members ∧
      Equation.isOpen p.store f.target = true ∧
      ∀ n ∈ e.members, n ≠ f.target → Equation.isUnknown p.store n = false := by
  obtain ⟨before, after, split, proposed⟩ := reads
  obtain ⟨e, he, proposal⟩ := (mapM_ok_mem proposed).1 q member
  have viable : e ∈ p.viable catalog := by
    rw [split]
    exact List.mem_append_left _ he
  obtain ⟨named, evaluated⟩ := (e.propose_ok_iff p.store q).mp proposal
  obtain ⟨_, valid, applies⟩ := viable_sound viable
  obtain ⟨f, chosen, _, target, opened, known⟩ := Equation.chooseForm_of_applies valid applies
  obtain ⟨g, chosen', _, value, _⟩ := Equation.evaluate_of_applies valid applies
  obtain rfl := Except.ok.inj (chosen.symm.trans chosen')
  exact ⟨e, f, viable, named, chosen, evaluated, (value _ evaluated).1, target, opened, known⟩

theorem Reads.target_listed {p : Progress} {catalog : Catalog} {read : List Proposal}
    (reads : p.Reads catalog read) : ∀ q ∈ read, q.target ∈ catalog.memberNames := by
  intro q member
  obtain ⟨e, f, viable, _, _, _, target, chosen, _⟩ := reads.origin member
  rw [target]
  exact (catalog.mem_memberNames _).mpr ⟨e, (viable_sound viable).1, chosen⟩

theorem Swept.applied {p : Progress} {catalog : Catalog} {observer : Observer σ} {cycle : Nat}
    {s : σ} {proposals : List Proposal} {updates : List Update}
    (swept : p.Swept catalog observer cycle s proposals)
    (taken : (applyAll p.store proposals).outcome = .ok updates) :
    Applied p.store proposals updates (applyAll p.store proposals).store :=
  applyAll_applied (proposals_admissible (fun _ member => member) swept.proposed) taken

theorem Swept.update_equations {p : Progress} {catalog : Catalog} {observer : Observer σ}
    {cycle : Nat} {s : σ} {proposals : List Proposal} {updates : List Update}
    (swept : p.Swept catalog observer cycle s proposals)
    (taken : (applyAll p.store proposals).outcome = .ok updates) :
    updates.map Update.equation = (p.viable catalog).map Equation.name := by
  rw [(swept.applied taken).equations, proposals_equations swept.proposed]

theorem opening_viable (p : Progress) (catalog : Catalog) (cycle : Nat) (read : List Proposal) :
    Trace.viable (p.opening catalog cycle read) = (p.viable catalog).map Equation.name := by
  simp [opening, Trace.viable, Event.viable, Proposal.reading, List.flatMap_map]

theorem opening_updates (p : Progress) (catalog : Catalog) (cycle : Nat) (read : List Proposal) :
    Trace.updates (p.opening catalog cycle read) = [] := by
  simp [opening, Trace.updates, Event.updates, Proposal.reading, List.flatMap_map]

theorem opening_cycle (p : Progress) (catalog : Catalog) (cycle : Nat) (read : List Proposal) :
    ∀ event ∈ p.opening catalog cycle read, event.cycle = cycle := by
  intro event member
  rcases List.mem_cons.mp member with rfl | member
  · rfl
  · obtain ⟨q, _, rfl⟩ := List.mem_map.mp member
    rfl

end Progress

inductive Decision (observer : Observer σ) (updates : List Update) : Verdict → Prop
  | halted (stops : observer.Stops) : Decision observer updates (.ends .stoppedByObserver)
  | stable (unchanged : ∀ u ∈ updates, u.changed = false) :
      Decision observer updates (.ends .convergedStable)
  | onward (changed : ∃ u ∈ updates, u.changed = true) : Decision observer updates .continues

inductive CycleTrace (catalog : Catalog) (observer : Observer σ) (cycle : Nat) (p : Progress)
    (s : σ) : Verdict → Progress → List Event → Prop
  | empty (none : p.viable catalog = []) :
      CycleTrace catalog observer cycle p s (.ends .convergedEmpty) p []
  | interrupted {read : List Proposal} (stops : observer.Stops) (part : p.Reads catalog read) :
      CycleTrace catalog observer cycle p s (.ends .stoppedByObserver) p
        (p.opening catalog cycle read)
  | misevaluated {read : List Proposal} {error : EquationError} (part : p.Reads catalog read)
      (failed : (p.viable catalog).mapM (Equation.propose p.store) = .error error) :
      CycleTrace catalog observer cycle p s (.fails (.equation error)) p
        (p.opening catalog cycle read)
  | refused {proposals : List Proposal} {error : SolveError}
      (swept : p.Swept catalog observer cycle s proposals)
      (failed : (applyAll p.store proposals).outcome = .error error) :
      CycleTrace catalog observer cycle p s (.fails error)
        { p with store := (applyAll p.store proposals).store } (p.opening catalog cycle proposals)
  | completed {proposals : List Proposal} {updates : List Update} {verdict : Verdict}
      (swept : p.Swept catalog observer cycle s proposals)
      (taken : (applyAll p.store proposals).outcome = .ok updates)
      (decision : Decision observer updates verdict) :
      CycleTrace catalog observer cycle p s verdict
        (p.advance (applyAll p.store proposals).store updates)
        (p.opening catalog cycle proposals ++
          [.cycleCompleted cycle updates
            (p.advance (applyAll p.store proposals).store updates).excluded
            (applyAll p.store proposals).store])

theorem closeCycle_trace {catalog : Catalog} {observer : Observer σ} {cycle : Nat} {p : Progress}
    {s : σ} {proposals : List Proposal} (swept : p.Swept catalog observer cycle s proposals)
    (state : σ) :
    CycleTrace catalog observer cycle p s (closeCycle observer cycle p state proposals).verdict
      (closeCycle observer cycle p state proposals).progress
      (p.opening catalog cycle proposals ++
        (closeCycle observer cycle p state proposals).events) := by
  unfold closeCycle
  simp only
  split
  · rename_i error failed
    simp only [List.append_nil]
    exact .refused swept failed
  · rename_i updates taken
    split
    · rename_i next reaction
      exact .completed swept taken (.halted ⟨state, _, by rw [reaction]⟩)
    · refine .completed swept taken ?_
      split
      · rename_i none
        refine .stable fun u member => ?_
        simpa using List.countP_eq_zero.mp none u member
      · rename_i some
        exact .onward (List.countP_pos_iff.mp (Nat.pos_of_ne_zero some))

theorem runCycle_trace (catalog : Catalog) (observer : Observer σ) (cycle : Nat) (p : Progress)
    (s : σ) :
    CycleTrace catalog observer cycle p s (runCycle catalog observer cycle p s).verdict
      (runCycle catalog observer cycle p s).progress
      (runCycle catalog observer cycle p s).events := by
  unfold runCycle
  simp only
  split
  · rename_i none
    exact .empty (List.isEmpty_iff.mp none)
  · rename_i some
    have some : p.viable catalog ≠ [] := by simpa using some
    split
    · rename_i next reaction
      have nothing : p.Reads catalog [] := ⟨[], _, rfl, rfl⟩
      exact .interrupted ⟨s, _, by rw [reaction]⟩ nothing
    · rename_i next reaction
      have outcome := sweep_outcome observer cycle p.store next (p.viable catalog)
      obtain ⟨before, after, read, viable, proposed, events, stopped, whole⟩ :=
        sweep_events observer cycle p.store next (p.viable catalog)
      have part : p.Reads catalog read := ⟨before, after, viable, proposed⟩
      split
      · rename_i error failed
        rw [failed] at outcome
        simp only [events]
        exact .misevaluated part outcome
      · rename_i halted
        simp only [events]
        exact .interrupted (stopped halted) part
      · rename_i proposals complete
        simp only [events, whole proposals complete]
        exact closeCycle_trace ⟨some, next, reaction, complete⟩ _

/-- A cycle whose first refused proposal fails with an error fails with it. -/
theorem runCycle_refused {catalog : Catalog} {observer : Observer σ} {cycle : Nat} {p : Progress}
    {s : σ} {proposals : List Proposal} (swept : p.Swept catalog observer cycle s proposals)
    {error : SolveError} (failed : (applyAll p.store proposals).outcome = .error error) :
    (runCycle catalog observer cycle p s).verdict = .fails error := by
  obtain ⟨some, next, reaction, complete⟩ := swept
  unfold runCycle
  simp only [List.isEmpty_iff, some, ↓reduceIte, reaction, complete]
  unfold closeCycle
  simp only [failed]

namespace CycleTrace
variable {catalog : Catalog} {observer : Observer σ} {cycle : Nat} {p after : Progress} {s : σ}
  {verdict : Verdict} {events : List Event}

theorem cycle_eq (trace : CycleTrace catalog observer cycle p s verdict after events) :
    ∀ event ∈ events, event.cycle = cycle := by
  cases trace with
  | empty none => simp
  | interrupted stops part => exact p.opening_cycle catalog cycle _
  | misevaluated part failed => exact p.opening_cycle catalog cycle _
  | refused swept failed => exact p.opening_cycle catalog cycle _
  | completed swept taken decision =>
    intro event member
    rcases List.mem_append.mp member with early | last
    · exact p.opening_cycle catalog cycle _ event early
    · rw [List.mem_singleton.mp last]
      rfl

theorem changes_eq (trace : CycleTrace catalog observer cycle p s verdict after events) :
    after.changes = p.changes + Trace.changes events := by
  unfold Trace.changes
  cases trace with
  | empty none => rfl
  | interrupted stops part => simp [Progress.opening_updates]
  | misevaluated part failed => simp [Progress.opening_updates]
  | refused swept failed => simp [Progress.opening_updates]
  | completed swept taken decision =>
    rw [Trace.updates_append, Progress.opening_updates]
    simp [Progress.advance, Trace.updates, Event.updates]

theorem continues_changed (trace : CycleTrace catalog observer cycle p s .continues after events) :
    ∃ u ∈ Trace.updates events, u.changed = true := by
  cases trace with
  | completed swept taken decision =>
    cases decision with
    | onward changed =>
      rw [Trace.updates_append, Progress.opening_updates]
      simpa [Trace.updates, Event.updates] using changed

theorem evaluations (trace : CycleTrace catalog observer cycle p s verdict after events) {k : Nat}
    {name : String} {evaluation : Evaluation} (member : .evaluated k name evaluation ∈ events) :
    ∃ read, p.Reads catalog read ∧ ⟨name, evaluation⟩ ∈ read := by
  have opened : ∀ {read}, p.Reads catalog read →
      .evaluated k name evaluation ∈ p.opening catalog cycle read →
      ∃ read, p.Reads catalog read ∧ ⟨name, evaluation⟩ ∈ read := by
    intro read reads member
    simp only [Progress.opening, List.mem_cons, reduceCtorEq, false_or, List.mem_map,
      Proposal.reading, Event.evaluated.injEq] at member
    obtain ⟨⟨_, _⟩, found, _, rfl, rfl⟩ := member
    exact ⟨read, reads, found⟩
  cases trace with
  | empty none => simp at member
  | interrupted stops part => exact opened part member
  | misevaluated part failed => exact opened part member
  | refused swept failed => exact opened (Progress.reads_of_proposed swept.proposed) member
  | completed swept taken decision =>
    simp only [List.mem_append, List.mem_singleton, reduceCtorEq, or_false] at member
    exact opened (Progress.reads_of_proposed swept.proposed) member

theorem not_capReached
    (trace : CycleTrace catalog observer cycle p s (.ends .capReached) after events) : False := by
  cases trace with
  | completed swept taken decision => cases decision

end CycleTrace

/-- A run comes to its cycle `k + 1` with this progress, this state of the observer and, all cycles
    together, these events. -/
inductive Passed (catalog : Catalog) (observer : Observer σ) (start : Progress) (state : σ) :
    Nat → Progress → σ → List Event → Prop
  | none : Passed catalog observer start state 0 start state []
  | next {k : Nat} {p : Progress} {s : σ} {events : List Event}
      (passed : Passed catalog observer start state k p s events)
      (continues : (runCycle catalog observer (k + 1) p s).verdict = .continues) :
      Passed catalog observer start state (k + 1)
        (runCycle catalog observer (k + 1) p s).progress
        (runCycle catalog observer (k + 1) p s).state
        (events ++ (runCycle catalog observer (k + 1) p s).events)

inductive Conclusion (catalog : Catalog) (observer : Observer σ) (start : Progress) (state : σ)
    (limit : Nat) (result : Except SolveError Solution) (store : Store) (events : List Event) : Prop
  | atLimit {p : Progress} {s : σ} (passed : Passed catalog observer start state limit p s events)
      (solved : result = .ok ⟨.capReached, limit, p.changes, p.excluded⟩)
      (left : store = p.store)
  | ended {k : Nat} {p after : Progress} {s : σ} {before last : List Event} {status : Status}
      (below : k < limit) (passed : Passed catalog observer start state k p s before)
      (trace : CycleTrace catalog observer (k + 1) p s (.ends status) after last)
      (solved : result = .ok ⟨status, k + 1, after.changes, after.excluded⟩)
      (left : store = after.store) (reported : events = before ++ last)
  | failed {k : Nat} {p after : Progress} {s : σ} {before last : List Event} {error : SolveError}
      (below : k < limit) (passed : Passed catalog observer start state k p s before)
      (trace : CycleTrace catalog observer (k + 1) p s (.fails error) after last)
      (unsolved : result = .error error)
      (left : store = after.store) (reported : events = before ++ last)

section
variable {catalog : Catalog} {observer : Observer σ} {start : Progress} {state : σ} {limit : Nat}

theorem cycles_conclusion {remaining k : Nat} {p : Progress} {s : σ} {before : List Event}
    (here : Passed catalog observer start state k p s before) (left : k + remaining = limit) :
    Conclusion catalog observer start state limit
      (Run.cycles catalog observer remaining k p s).result
      (Run.cycles catalog observer remaining k p s).store
      (before ++ (Run.cycles catalog observer remaining k p s).events) := by
  induction remaining generalizing k p s before with
  | zero =>
    obtain rfl : k = limit := by omega
    refine .atLimit (p := p) (s := s) ?_ rfl rfl
    simpa [Run.cycles, Run.finish] using here
  | succ remaining ih =>
    have below : k < limit := by omega
    have trace := runCycle_trace catalog observer (k + 1) p s
    cases verdict : (runCycle catalog observer (k + 1) p s).verdict with
    | ends status =>
      rw [verdict] at trace
      simp only [Run.cycles, verdict]
      refine .ended below here trace rfl rfl ?_
      simp [Run.after, Run.finish]
    | fails error =>
      rw [verdict] at trace
      simp only [Run.cycles, verdict]
      refine .failed below here trace rfl rfl ?_
      simp [Run.after, Run.abort]
    | continues =>
      have later := ih (.next here verdict) (by omega)
      simp only [Run.cycles, verdict, Run.after]
      rw [← List.append_assoc]
      exact later

theorem solve_conclusion (catalog : Catalog) (limit : Limit) (observer : Observer σ) (state : σ)
    (store : Store) :
    Conclusion catalog observer ⟨store, .empty, 0⟩ state limit.maxCycles
      (solve catalog limit observer state store).result
      (solve catalog limit observer state store).store
      (solve catalog limit observer state store).events :=
  cycles_conclusion .none (by omega)

namespace Passed
variable {k : Nat} {p : Progress} {s : σ} {events : List Event}

/-- What every continued cycle preserves is true of each cycle a run comes to. -/
theorem invariant (holds : Nat → Progress → List Event → Prop) (first : holds 0 start [])
    (step : ∀ {k p s before after last}, Passed catalog observer start state k p s before →
      holds k p before → CycleTrace catalog observer (k + 1) p s .continues after last →
      holds (k + 1) after (before ++ last))
    (passed : Passed catalog observer start state k p s events) : holds k p events := by
  induction passed with
  | none => exact first
  | @next k p s before passed continues ih =>
    have trace := runCycle_trace catalog observer (k + 1) p s
    rw [continues] at trace
    exact step passed ih trace

theorem cycle_bounds (passed : Passed catalog observer start state k p s events) :
    ∀ event ∈ events, 1 ≤ event.cycle ∧ event.cycle ≤ k := by
  refine passed.invariant (fun k _ events =>
    ∀ event ∈ events, 1 ≤ event.cycle ∧ event.cycle ≤ k) (by simp) ?_
  intro k p s before after last _ bounds trace event member
  rcases List.mem_append.mp member with early | late
  · have := bounds event early
    omega
  · have := trace.cycle_eq event late
    omega

theorem changes_eq (passed : Passed catalog observer start state k p s events) :
    p.changes = start.changes + Trace.changes events := by
  refine passed.invariant (fun _ p events =>
    p.changes = start.changes + Trace.changes events) rfl ?_
  intro k p s before after last _ counted trace
  have counted' := trace.changes_eq
  rw [Trace.changes_append]
  omega

theorem ofCycle_last (passed : Passed catalog observer start state k p s events)
    {last : List Event} (same : ∀ event ∈ last, event.cycle = k + 1) :
    Trace.ofCycle (k + 1) (events ++ last) = last := by
  have other : ∀ event ∈ events, event.cycle ≠ k + 1 := by
    intro event member
    have := passed.cycle_bounds event member
    omega
  rw [Trace.ofCycle_append, Trace.ofCycle_of_other other, Trace.ofCycle_of_same same,
    List.nil_append]

theorem cycle_changed (passed : Passed catalog observer start state k p s events) :
    ∀ j, 1 ≤ j → j ≤ k → ∃ u ∈ Trace.updates (Trace.ofCycle j events), u.changed = true := by
  refine passed.invariant (fun k _ events => ∀ j, 1 ≤ j → j ≤ k →
    ∃ u ∈ Trace.updates (Trace.ofCycle j events), u.changed = true) (by omega) ?_
  intro k p s before after last passed earlier trace j positive within
  by_cases final : j = k + 1
  · subst j
    rw [passed.ofCycle_last trace.cycle_eq]
    exact trace.continues_changed
  · have within : j ≤ k := by omega
    rw [Trace.ofCycle_earlier before (Nat.lt_succ_of_le within) trace.cycle_eq]
    exact earlier j positive within

/-- What a run has evaluated was read in a cycle that it came to. -/
theorem evaluations (passed : Passed catalog observer start state k p s events) {cycle : Nat}
    {name : String} {evaluation : Evaluation}
    (member : .evaluated cycle name evaluation ∈ events) :
    ∃ j q r earlier read, Passed catalog observer start state j q r earlier ∧
      q.Reads catalog read ∧ ⟨name, evaluation⟩ ∈ read := by
  revert member
  refine passed.invariant (fun _ _ events => .evaluated cycle name evaluation ∈ events →
    ∃ j q r earlier read, Passed catalog observer start state j q r earlier ∧
      q.Reads catalog read ∧ ⟨name, evaluation⟩ ∈ read) (by simp) ?_
  intro k p s before after last passed ih trace member
  rcases List.mem_append.mp member with early | late
  · exact ih early
  · obtain ⟨read, reads, found⟩ := trace.evaluations late
    exact ⟨k, p, s, before, read, passed, reads, found⟩

/-- Each cycle that a run continues after has changed something. -/
theorem cycles_le_changes (passed : Passed catalog observer start state k p s events) :
    start.changes + k ≤ p.changes := by
  refine passed.invariant (fun k p _ => start.changes + k ≤ p.changes) (by simp) ?_
  intro k p s before after last _ counted trace
  have positive := Trace.changes_pos trace.continues_changed
  have := trace.changes_eq
  omega

end Passed

namespace Conclusion
variable {result : Except SolveError Solution} {store : Store} {events : List Event}
  {solution : Solution}

theorem changes_eq
    (conclusion : Conclusion catalog observer start state limit result store events)
    (solved : result = .ok solution) : solution.changes = start.changes + Trace.changes events := by
  cases conclusion with
  | atLimit passed returned left =>
    obtain rfl := Except.ok.inj (solved.symm.trans returned)
    exact passed.changes_eq
  | ended below passed trace returned left reported =>
    obtain rfl := Except.ok.inj (solved.symm.trans returned)
    have counted := passed.changes_eq
    have counted' := trace.changes_eq
    rw [reported, Trace.changes_append]
    simp only
    omega
  | failed below passed trace unsolved left reported => simp [unsolved] at solved

/-- What every cycle preserves, the last one too, is true at the end of a run, and a solution
    returns what the run has then. -/
theorem invariant (holds : Nat → Progress → List Event → Prop) (first : holds 0 start [])
    (step : ∀ {k p s before verdict after last}, Passed catalog observer start state k p s before →
      holds k p before → CycleTrace catalog observer (k + 1) p s verdict after last →
      holds (k + 1) after (before ++ last))
    (conclusion : Conclusion catalog observer start state limit result store events) :
    ∃ k p, holds k p events ∧ store = p.store ∧ ∀ solution, result = .ok solution →
      solution.cycles = k ∧ solution.changes = p.changes ∧ solution.excluded = p.excluded := by
  cases conclusion with
  | atLimit passed returned left =>
    refine ⟨limit, _, passed.invariant holds first step, left, ?_⟩
    intro solution solved
    obtain rfl := Except.ok.inj (solved.symm.trans returned)
    exact ⟨rfl, rfl, rfl⟩
  | @ended k _ _ _ _ _ _ _ passed trace returned left reported =>
    refine ⟨k + 1, _, ?_, left, ?_⟩
    · rw [reported]
      exact step passed (passed.invariant holds first step) trace
    · intro solution solved
      obtain rfl := Except.ok.inj (solved.symm.trans returned)
      exact ⟨rfl, rfl, rfl⟩
  | @failed k _ _ _ _ _ _ _ passed trace unsolved left reported =>
    refine ⟨k + 1, _, ?_, left, by simp [unsolved]⟩
    rw [reported]
    exact step passed (passed.invariant holds first step) trace

theorem events_split
    (conclusion : Conclusion catalog observer start state limit result store events) :
    ∃ k p s before last, Passed catalog observer start state k p s before ∧
      events = before ++ last ∧
      (last = [] ∨ ∃ verdict after, CycleTrace catalog observer (k + 1) p s verdict after last) := by
  cases conclusion with
  | atLimit passed returned left => exact ⟨_, _, _, _, [], passed, by simp, Or.inl rfl⟩
  | ended below passed trace returned left reported =>
    exact ⟨_, _, _, _, _, passed, reported, Or.inr ⟨_, _, trace⟩⟩
  | failed below passed trace unsolved left reported =>
    exact ⟨_, _, _, _, _, passed, reported, Or.inr ⟨_, _, trace⟩⟩

theorem evaluations
    (conclusion : Conclusion catalog observer start state limit result store events) {cycle : Nat}
    {name : String} {evaluation : Evaluation}
    (member : .evaluated cycle name evaluation ∈ events) :
    ∃ j q r earlier read, Passed catalog observer start state j q r earlier ∧
      q.Reads catalog read ∧ ⟨name, evaluation⟩ ∈ read := by
  obtain ⟨k, p, s, before, last, passed, rfl, ending⟩ := conclusion.events_split
  rcases List.mem_append.mp member with early | late
  · exact passed.evaluations early
  · rcases ending with rfl | ⟨verdict, after, trace⟩
    · simp at late
    · obtain ⟨read, reads, found⟩ := trace.evaluations late
      exact ⟨k, p, s, before, read, passed, reads, found⟩

theorem cycles_le_changes
    (conclusion : Conclusion catalog observer start state limit result store events)
    (solved : result = .ok solution) : start.changes + solution.cycles ≤ solution.changes + 1 ∧
      (solution.status = .capReached → solution.cycles = limit ∧
        start.changes + limit ≤ solution.changes) := by
  cases conclusion with
  | atLimit passed returned left =>
    obtain rfl := Except.ok.inj (solved.symm.trans returned)
    have paced := passed.cycles_le_changes
    exact ⟨Nat.le_succ_of_le paced, fun _ => ⟨rfl, paced⟩⟩
  | ended below passed trace returned left reported =>
    obtain rfl := Except.ok.inj (solved.symm.trans returned)
    have paced := passed.cycles_le_changes
    have counted := trace.changes_eq
    constructor
    · simp only
      omega
    · rintro rfl
      exact trace.not_capReached.elim
  | failed below passed trace unsolved left reported => simp [unsolved] at solved

end Conclusion

end

end Narrowing
