import Narrowing.Proofs.Solver.Exclusion

/-!
Observed runs. An observer hears the events of the unobserved run one after the other, up to the
first one at which it stops, and nothing else depends on it. The run then ends in the cycle of that
event, with the store as the cycle found it or, if the cycle was complete, as the cycle left it.
-/
namespace Narrowing
variable {σ : Type}

structure Hearing (σ : Type) where
  heard : List Event
  state : σ
  stopped : Bool

namespace Observer

def hear (observer : Observer σ) : σ → List Event → Hearing σ
  | s, [] => ⟨[], s, false⟩
  | s, event :: rest =>
    match observer.react s event with
    | (.stop, next) => ⟨[event], next, true⟩
    | (.proceed, next) =>
      let later := hear observer next rest
      ⟨event :: later.heard, later.state, later.stopped⟩

@[simp] theorem silent_react (s : Unit) (event : Event) :
    Observer.silent.react s event = (.proceed, ()) := rfl

variable (observer : Observer σ)

theorem hear_stop {s next : σ} {event : Event} (reaction : observer.react s event = (.stop, next))
    (rest : List Event) : observer.hear s (event :: rest) = ⟨[event], next, true⟩ := by
  rw [hear, reaction]

theorem hear_proceed {s next : σ} {event : Event}
    (reaction : observer.react s event = (.proceed, next)) (rest : List Event) :
    observer.hear s (event :: rest) =
      ⟨event :: (observer.hear next rest).heard, (observer.hear next rest).state,
        (observer.hear next rest).stopped⟩ := by
  rw [hear, reaction]

theorem hear_append_stopped {s : σ} {events : List Event}
    (stopped : (observer.hear s events).stopped = true) (more : List Event) :
    observer.hear s (events ++ more) = observer.hear s events := by
  induction events generalizing s with
  | nil => simp [hear] at stopped
  | cons event rest ih =>
    rcases reaction : observer.react s event with ⟨action, next⟩
    cases action with
    | stop => rw [List.cons_append, hear_stop _ reaction, hear_stop _ reaction]
    | proceed =>
      rw [hear_proceed _ reaction] at stopped
      rw [List.cons_append, hear_proceed _ reaction, hear_proceed _ reaction, ih stopped]

theorem hear_append_proceeding {s : σ} {events : List Event}
    (proceeding : (observer.hear s events).stopped = false) (more : List Event) :
    observer.hear s (events ++ more) =
      ⟨events ++ (observer.hear (observer.hear s events).state more).heard,
        (observer.hear (observer.hear s events).state more).state,
        (observer.hear (observer.hear s events).state more).stopped⟩ := by
  induction events generalizing s with
  | nil => rfl
  | cons event rest ih =>
    rcases reaction : observer.react s event with ⟨action, next⟩
    cases action with
    | stop => simp [hear_stop _ reaction] at proceeding
    | proceed =>
      rw [hear_proceed _ reaction] at proceeding
      rw [List.cons_append, hear_proceed _ reaction, hear_proceed _ reaction, ih proceeding]
      rfl

theorem heard_proceeding {s : σ} {events : List Event}
    (proceeding : (observer.hear s events).stopped = false) :
    (observer.hear s events).heard = events := by
  have whole := observer.hear_append_proceeding proceeding []
  rw [List.append_nil] at whole
  rw [whole]
  simp [hear]

/-- The first event at which an observer stops is the last one it hears. -/
theorem hear_first_stop {s : σ} {before : List Event} {event : Event}
    (proceeding : (observer.hear s before).stopped = false)
    (stop : (observer.react (observer.hear s before).state event).1 = .stop)
    (after : List Event) :
    (observer.hear s (before ++ event :: after)).heard = before ++ [event] ∧
      (observer.hear s (before ++ event :: after)).stopped = true := by
  rcases reaction : observer.react (observer.hear s before).state event with ⟨action, next⟩
  obtain rfl : action = .stop := by rw [reaction] at stop; exact stop
  rw [hear_append_proceeding _ proceeding, hear_stop _ reaction]
  exact ⟨rfl, rfl⟩

end Observer

/-- To an observer in state `s`, `events` is what it hears of `quiet` and `state` is where that
    leaves it; `ended` is the case if it stopped, `passed` if it did not. -/
structure Follows (observer : Observer σ) (s : σ) (quiet events : List Event) (state : σ)
    (ended passed : Prop) : Prop where
  heard : (observer.hear s quiet).heard = events
  reached : (observer.hear s quiet).state = state
  stopped : (observer.hear s quiet).stopped = true → ended
  proceeded : (observer.hear s quiet).stopped = false → passed

namespace Follows
variable {observer : Observer σ} {s state next : σ} {quiet events : List Event} {event : Event}
  {ended passed : Prop}

theorem nothing (passed' : passed) : Follows observer s [] [] s ended passed where
  heard := rfl
  reached := rfl
  stopped := by simp [Observer.hear]
  proceeded := fun _ => passed'

theorem stop (reaction : observer.react s event = (.stop, next)) (ended' : ended)
    (rest : List Event) : Follows observer s (event :: rest) [event] next ended passed := by
  have hearing := observer.hear_stop reaction rest
  exact ⟨by rw [hearing], by rw [hearing], fun _ => ended', by simp [hearing]⟩

theorem proceed (reaction : observer.react s event = (.proceed, next))
    (later : Follows observer next quiet events state ended passed) :
    Follows observer s (event :: quiet) (event :: events) state ended passed := by
  have hearing := observer.hear_proceed reaction quiet
  refine ⟨?_, ?_, ?_, ?_⟩
  · rw [hearing, later.heard]
  · rw [hearing, later.reached]
  · intro stopped
    rw [hearing] at stopped
    exact later.stopped stopped
  · intro proceeding
    rw [hearing] at proceeding
    exact later.proceeded proceeding

theorem halts (first : Follows observer s quiet events state ended passed)
    (stopped : (observer.hear s quiet).stopped = true) {ended' passed' : Prop} (kept : ended') :
    Follows observer s quiet events state ended' passed' :=
  ⟨first.heard, first.reached, fun _ => kept, by simp [stopped]⟩

theorem passes (first : Follows observer s quiet events state ended passed)
    (proceeding : (observer.hear s quiet).stopped = false) {ended' passed' : Prop}
    (kept : passed') : Follows observer s quiet events state ended' passed' :=
  ⟨first.heard, first.reached, by simp [proceeding], fun _ => kept⟩

theorem cut (first : Follows observer s quiet events state ended passed)
    (stopped : (observer.hear s quiet).stopped = true) {ended' passed' : Prop} (kept : ended')
    (more : List Event) : Follows observer s (quiet ++ more) events state ended' passed' := by
  have hearing := observer.hear_append_stopped stopped more
  exact ⟨by rw [hearing, first.heard], by rw [hearing, first.reached], fun _ => kept,
    by simp [hearing, stopped]⟩

theorem append (first : Follows observer s quiet events state ended passed)
    (proceeding : (observer.hear s quiet).stopped = false) {more events' : List Event} {state' : σ}
    {ended' passed' : Prop} (later : Follows observer state more events' state' ended' passed') :
    Follows observer s (quiet ++ more) (events ++ events') state' ended' passed' := by
  have hearing := observer.hear_append_proceeding proceeding more
  rw [first.reached] at hearing
  have whole : events = quiet := first.heard.symm.trans (observer.heard_proceeding proceeding)
  refine ⟨?_, ?_, ?_, ?_⟩
  · rw [hearing, later.heard, whole]
  · rw [hearing, later.reached]
  · intro stopped
    rw [hearing] at stopped
    exact later.stopped stopped
  · intro proceeding'
    rw [hearing] at proceeding'
    exact later.proceeded proceeding'

end Follows

theorem sweep_follows (observer : Observer σ) (cycle : Nat) (store : Store) (s : σ)
    (equations : List Equation) :
    Follows observer s (sweep .silent cycle store () equations).events
      (sweep observer cycle store s equations).events
      (sweep observer cycle store s equations).state
      ((sweep observer cycle store s equations).outcome = .stopped)
      ((sweep observer cycle store s equations).outcome =
        (sweep .silent cycle store () equations).outcome) := by
  induction equations generalizing s with
  | nil => exact .nothing rfl
  | cons e rest ih =>
    unfold sweep
    cases e.evaluate store with
    | error error => exact .nothing rfl
    | ok evaluation =>
      simp only [Observer.silent_react]
      rcases reaction : observer.react s (.evaluated cycle e.name evaluation) with ⟨action, next⟩
      cases action with
      | stop => exact .stop reaction rfl _
      | proceed =>
        have later := ih next
        refine .proceed reaction ⟨later.heard, later.reached, ?_, ?_⟩
        · intro stopped
          simp only [later.stopped stopped, SweepOutcome.withFirst]
        · intro proceeding
          simp only [later.proceeded proceeding]

theorem closeCycle_follows (observer : Observer σ) (cycle : Nat) (p : Progress) (s : σ)
    (proposals : List Proposal) :
    Follows observer s (closeCycle .silent cycle p () proposals).events
      (closeCycle observer cycle p s proposals).events
      (closeCycle observer cycle p s proposals).state
      ((closeCycle observer cycle p s proposals).verdict = .ends .stoppedByObserver)
      ((closeCycle observer cycle p s proposals).verdict =
          (closeCycle .silent cycle p () proposals).verdict ∧
        (closeCycle observer cycle p s proposals).progress =
          (closeCycle .silent cycle p () proposals).progress) := by
  unfold closeCycle
  simp only [Observer.silent_react]
  cases (applyAll p.store proposals).outcome with
  | error error => exact .nothing ⟨rfl, rfl⟩
  | ok updates =>
    simp only
    rcases reaction : observer.react s (.cycleCompleted cycle updates
      (p.advance (applyAll p.store proposals).store updates).excluded
      (p.advance (applyAll p.store proposals).store updates).store) with ⟨action, next⟩
    cases action with
    | stop => exact .stop reaction rfl []
    | proceed => exact .proceed reaction (.nothing ⟨rfl, rfl⟩)

def afterSweep (observer : Observer σ) (cycle : Nat) (p : Progress) (swept : Sweep σ) :
    CycleRun σ :=
  match swept.outcome with
  | .failed error => ⟨.fails (.equation error), p, swept.state, swept.events, swept.log⟩
  | .stopped => ⟨.ends .stoppedByObserver, p, swept.state, swept.events, swept.log⟩
  | .complete proposals =>
    let closed := closeCycle observer cycle p swept.state proposals
    { closed with events := swept.events ++ closed.events, log := swept.log ++ closed.log }

theorem runCycle_idle {catalog : Catalog} {observer : Observer σ} {cycle : Nat} {p : Progress}
    {s : σ} (none : p.viable catalog = []) :
    runCycle catalog observer cycle p s =
      ⟨.ends .convergedEmpty, p, s, [], [.cycleStart cycle []]⟩ := by
  unfold runCycle
  simp only [none, List.isEmpty_nil, ↓reduceIte, List.map_nil]

theorem runCycle_unstarted {catalog : Catalog} {observer : Observer σ} {cycle : Nat} {p : Progress}
    {s next : σ} (some : p.viable catalog ≠ [])
    (reaction : observer.react s (.cycleStarted cycle ((p.viable catalog).map Equation.name)) =
      (.stop, next)) :
    runCycle catalog observer cycle p s =
      ⟨.ends .stoppedByObserver, p, next,
        [.cycleStarted cycle ((p.viable catalog).map Equation.name)],
        [.cycleStart cycle ((p.viable catalog).map Equation.name)]⟩ := by
  unfold runCycle
  simp only [List.isEmpty_iff, some, ↓reduceIte, reaction]

theorem runCycle_started {catalog : Catalog} {observer : Observer σ} {cycle : Nat} {p : Progress}
    {s next : σ} (some : p.viable catalog ≠ [])
    (reaction : observer.react s (.cycleStarted cycle ((p.viable catalog).map Equation.name)) =
      (.proceed, next)) :
    runCycle catalog observer cycle p s =
      let rest := afterSweep observer cycle p (sweep observer cycle p.store next (p.viable catalog))
      { rest with
        events := .cycleStarted cycle ((p.viable catalog).map Equation.name) :: rest.events
        log := .cycleStart cycle ((p.viable catalog).map Equation.name) :: rest.log } := by
  unfold runCycle afterSweep
  simp only [List.isEmpty_iff, some, ↓reduceIte, reaction]
  cases (sweep observer cycle p.store next (p.viable catalog)).outcome <;> rfl

theorem afterSweep_follows {observer : Observer σ} {s : σ} {swept : Sweep σ} {quiet : Sweep Unit}
    (follows : Follows observer s quiet.events swept.events swept.state (swept.outcome = .stopped)
      (swept.outcome = quiet.outcome)) (cycle : Nat) (p : Progress) :
    Follows observer s (afterSweep .silent cycle p quiet).events
      (afterSweep observer cycle p swept).events (afterSweep observer cycle p swept).state
      ((afterSweep observer cycle p swept).verdict = .ends .stoppedByObserver)
      ((afterSweep observer cycle p swept).verdict = (afterSweep .silent cycle p quiet).verdict ∧
        (afterSweep observer cycle p swept).progress =
          (afterSweep .silent cycle p quiet).progress) := by
  unfold afterSweep
  cases stopped : (observer.hear s quiet.events).stopped with
  | true =>
    rw [follows.stopped stopped]
    cases quiet.outcome with
    | failed error => exact follows.halts stopped rfl
    | stopped => exact follows.halts stopped rfl
    | complete proposals => exact follows.cut stopped rfl _
  | false =>
    rw [follows.proceeded stopped]
    cases quiet.outcome with
    | failed error => exact follows.passes stopped ⟨rfl, rfl⟩
    | stopped => exact follows.passes stopped ⟨rfl, rfl⟩
    | complete proposals =>
      exact follows.append stopped (closeCycle_follows observer cycle p swept.state proposals)

theorem runCycle_follows (catalog : Catalog) (observer : Observer σ) (cycle : Nat) (p : Progress)
    (s : σ) :
    Follows observer s (runCycle catalog .silent cycle p ()).events
      (runCycle catalog observer cycle p s).events
      (runCycle catalog observer cycle p s).state
      ((runCycle catalog observer cycle p s).verdict = .ends .stoppedByObserver)
      ((runCycle catalog observer cycle p s).verdict =
          (runCycle catalog .silent cycle p ()).verdict ∧
        (runCycle catalog observer cycle p s).progress =
          (runCycle catalog .silent cycle p ()).progress) := by
  by_cases none : p.viable catalog = []
  · rw [runCycle_idle none, runCycle_idle none]
    exact .nothing ⟨rfl, rfl⟩
  · rw [runCycle_started none (Observer.silent_react () _)]
    rcases reaction : observer.react s
      (.cycleStarted cycle ((p.viable catalog).map Equation.name)) with ⟨action, next⟩
    cases action with
    | stop =>
      rw [runCycle_unstarted none reaction]
      exact .stop reaction rfl _
    | proceed =>
      rw [runCycle_started none reaction]
      have swept := sweep_follows observer cycle p.store next (p.viable catalog)
      exact .proceed reaction (afterSweep_follows swept cycle p)

theorem cycles_follows (catalog : Catalog) (observer : Observer σ) (remaining entered : Nat)
    (p : Progress) (s : σ) :
    Follows observer s (Run.cycles catalog .silent remaining entered p ()).events
      (Run.cycles catalog observer remaining entered p s).events
      (Run.cycles catalog observer remaining entered p s).state
      (∃ solution, (Run.cycles catalog observer remaining entered p s).result = .ok solution ∧
        solution.status = .stoppedByObserver)
      ((Run.cycles catalog observer remaining entered p s).result =
          (Run.cycles catalog .silent remaining entered p ()).result ∧
        (Run.cycles catalog observer remaining entered p s).store =
          (Run.cycles catalog .silent remaining entered p ()).store) := by
  induction remaining generalizing entered p s with
  | zero => exact .nothing ⟨rfl, rfl⟩
  | succ remaining ih =>
    have cycle := runCycle_follows catalog observer (entered + 1) p s
    simp only [Run.cycles, Run.after]
    cases stopped :
      (observer.hear s (runCycle catalog .silent (entered + 1) p ()).events).stopped with
    | true =>
      rw [cycle.stopped stopped]
      simp only [Run.finish, List.append_nil]
      exact cycle.cut stopped ⟨_, rfl, rfl⟩ _
    | false =>
      obtain ⟨verdict, progress⟩ := cycle.proceeded stopped
      rw [verdict, progress]
      refine cycle.append stopped ?_
      cases (runCycle catalog .silent (entered + 1) p ()).verdict with
      | ends status => exact .nothing ⟨rfl, rfl⟩
      | fails error => exact .nothing ⟨rfl, rfl⟩
      | continues => exact ih (entered + 1) _ _

/-- What an observed run has come to, the unobserved run comes to as well. -/
theorem Passed.unobserved {catalog : Catalog} {observer : Observer σ} {start : Progress} {state : σ}
    {k : Nat} {p : Progress} {s : σ} {events : List Event}
    (passed : Passed catalog observer start state k p s events) :
    Passed catalog .silent start () k p () events := by
  induction passed with
  | none => exact .none
  | @next k p s events passed continues ih =>
    have follows := runCycle_follows catalog observer (k + 1) p s
    cases stopped : (observer.hear s (runCycle catalog .silent (k + 1) p ()).events).stopped with
    | true =>
      have halted := follows.stopped stopped
      simp [continues] at halted
    | false =>
      obtain ⟨verdict, progress⟩ := follows.proceeded stopped
      rw [progress, ← follows.heard, observer.heard_proceeding stopped]
      exact .next ih (verdict.symm.trans continues)

def Event.leaves (found : Store) : Event → Store
  | .cycleCompleted _ _ _ store => store
  | _ => found

theorem Progress.opening_leaves (p : Progress) (catalog : Catalog) (cycle : Nat)
    (read : List Proposal) :
    ∀ event ∈ p.opening catalog cycle read, event.leaves p.store = p.store := by
  intro event member
  rcases List.mem_cons.mp member with rfl | member
  · rfl
  · obtain ⟨q, _, rfl⟩ := List.mem_map.mp member
    rfl

/-- The last event of a stopped cycle tells what store it leaves. -/
theorem CycleTrace.stopped_leaves {catalog : Catalog} {observer : Observer σ} {cycle : Nat}
    {p after : Progress} {s : σ} {events : List Event}
    (trace : CycleTrace catalog observer cycle p s (.ends .stoppedByObserver) after events) :
    ∃ early event, events = early ++ [event] ∧ after.store = event.leaves p.store := by
  cases trace with
  | @interrupted read stops part =>
    have opened : p.opening catalog cycle read ≠ [] := List.cons_ne_nil _ _
    refine ⟨_, _, (List.dropLast_append_getLast opened).symm, ?_⟩
    exact (p.opening_leaves catalog cycle read _ (List.getLast_mem opened)).symm
  | completed swept taken decision => exact ⟨_, _, rfl, rfl⟩

/-- How a run ends that its observer stops at `event`, after the events `before`: in the cycle of
    the event, having counted the cycles completed by then. -/
structure StoppedAt (catalog : Catalog) (store : Store) (before : List Event) (event : Event)
    (run : Run σ) : Prop where
  delivered : run.events = before ++ [event]
  solved : ∃ changes excluded,
    run.result = .ok ⟨.stoppedByObserver, event.cycle, changes, excluded⟩ ∧
    changes = Trace.changes (before ++ [event]) ∧
    ∀ name, excluded.contains name = true ↔ Trace.Stalled (before ++ [event]) name
  left : ∃ k p earlier, event.cycle = k + 1 ∧
    Passed catalog .silent ⟨store, .empty, 0⟩ () k p () earlier ∧ run.store = event.leaves p.store

theorem stoppedAt_of_solved {catalog : Catalog} {limit : Limit} {observer : Observer σ} {state : σ}
    {store : Store} {solution : Solution}
    (solved : (solve catalog limit observer state store).result = .ok solution)
    (status : solution.status = .stoppedByObserver) {before : List Event} {event : Event}
    (delivered : (solve catalog limit observer state store).events = before ++ [event]) :
    StoppedAt catalog store before event (solve catalog limit observer state store) := by
  have conclusion := solve_conclusion catalog limit observer state store
  have counted := conclusion.changes_eq solved
  obtain ⟨_, p, exclusions, returned⟩ := solve_exclusions catalog limit observer state store
  have current := exclusions.current
  rw [← returned solution solved, delivered] at current
  rw [delivered, Nat.zero_add] at counted
  cases conclusion with
  | atLimit passed result left =>
    obtain rfl := Except.ok.inj (solved.symm.trans result)
    simp at status
  | failed below passed trace unsolved left reported => simp [unsolved] at solved
  | ended below passed trace result left reported =>
    obtain rfl := Except.ok.inj (solved.symm.trans result)
    obtain rfl := status
    obtain ⟨early, last, split, store⟩ := trace.stopped_leaves
    have inCycle := trace.cycle_eq last (by simp [split])
    have joined := delivered
    rw [reported, split, ← List.append_assoc] at joined
    obtain ⟨_, same⟩ := List.append_inj' joined rfl
    obtain rfl := (List.cons.inj same).1
    refine ⟨delivered, ⟨_, _, ?_, counted, current⟩, ?_⟩
    · rw [result, inCycle]
    · exact ⟨_, _, _, inCycle, passed.unobserved, left.trans store⟩

/-- An observer is told the events of the unobserved run. If it lets them all pass, it changes
    nothing about the run; if not, the run ends at the first event at which it stops. -/
theorem solve_observed (catalog : Catalog) (limit : Limit) (observer : Observer σ) (state : σ)
    (store : Store) :
    (solve catalog limit observer state store).state =
        (observer.hear state (solveUnobserved catalog limit store).events).state ∧
    ((observer.hear state (solveUnobserved catalog limit store).events).stopped = false →
      (solve catalog limit observer state store).result =
          (solveUnobserved catalog limit store).result ∧
        (solve catalog limit observer state store).store =
          (solveUnobserved catalog limit store).store ∧
        (solve catalog limit observer state store).events =
          (solveUnobserved catalog limit store).events) ∧
    ∀ before event after, (solveUnobserved catalog limit store).events = before ++ event :: after →
      (observer.hear state before).stopped = false →
      (observer.react (observer.hear state before).state event).1 = .stop →
      StoppedAt catalog store before event (solve catalog limit observer state store) := by
  have follows := cycles_follows catalog observer limit.maxCycles 0 ⟨store, .empty, 0⟩ state
  refine ⟨follows.reached.symm, ?_, ?_⟩
  · intro proceeding
    obtain ⟨result, left⟩ := follows.proceeded proceeding
    exact ⟨result, left, follows.heard.symm.trans (observer.heard_proceeding proceeding)⟩
  · intro before event after split proceeding stop
    obtain ⟨heard, stopped⟩ := observer.hear_first_stop proceeding stop after
    rw [← split] at heard stopped
    obtain ⟨solution, solved, status⟩ := follows.stopped stopped
    exact stoppedAt_of_solved solved status (follows.heard.symm.trans heard)

def Observer.patient : Observer Nat :=
  ⟨fun left _ => (if left = 0 then .stop else .proceed, left - 1)⟩

theorem solve_observed_square :
    (solve squares .standard .patient 6 someSquare).result =
        (solveUnobserved squares .standard someSquare).result ∧
      ∃ before event after, (solveUnobserved squares .standard someSquare).events =
          before ++ event :: after ∧ before.length = 4 ∧ event.cycle = 2 ∧
        StoppedAt squares someSquare before event
          (solve squares .standard .patient 4 someSquare) :=
  ⟨((solve_observed squares .standard .patient 6 someSquare).2.1 rfl).1,
    [_, _, _, _], _, [_], rfl, rfl, rfl,
    (solve_observed squares .standard .patient 4 someSquare).2.2 _ _ _ rfl rfl rfl⟩

end Narrowing
