import Narrowing.Proofs.Equation.Agreement
import Narrowing.Proofs.Solver.Observation

/-!
What a run does not look at. Of the variables in the store it reads only those that some equation of
the catalog has as a member, and of these only the values. Two runs from stores that agree there go
the same way, cycle by cycle, to the same result, and end in stores that agree there again; how
variables are labelled, and what else is stored, makes no difference.
-/
namespace Narrowing
variable {σ : Type}

/-- Each of these names is missing in both stores, or stored in both with the same value. -/
def Store.AgreesOn (names : Finset String) (s t : Store) : Prop :=
  ∀ name ∈ names, s.value? name = t.value? name

instance (names : Finset String) (s t : Store) : Decidable (s.AgreesOn names t) :=
  inferInstanceAs (Decidable (∀ name ∈ names, s.value? name = t.value? name))

inductive Event.Alike (names : Finset String) : Event → Event → Prop
  | same (event : Event) : Alike names event event
  | completed (cycle : Nat) (updates : List Update) (excluded : Names) {s t : Store}
      (agree : s.AgreesOn names t) :
      Alike names (.cycleCompleted cycle updates excluded s) (.cycleCompleted cycle updates excluded t)

theorem Event.alike_refl (names : Finset String) (events : List Event) :
    List.Forall₂ (Event.Alike names) events events := by
  induction events with
  | nil => exact .nil
  | cons event rest ih => exact .cons (.same event) ih

/-- The observer hears that a cycle is complete, but does not look at the store. -/
def Observer.IgnoresStores (observer : Observer σ) : Prop :=
  ∀ state cycle updates excluded s t,
    observer.react state (.cycleCompleted cycle updates excluded s) =
      observer.react state (.cycleCompleted cycle updates excluded t)

theorem Store.subject_alike {s t : Store} {name : String} (same : s.value? name = t.value? name) :
    (s.subject name).Alike (t.subject name) := by
  rcases missing_or_alike same with ⟨inS, inT⟩ | ⟨v, w, inS, inT, alike⟩
  · rw [subject_of_missing inS, subject_of_missing inT]
    exact ⟨rfl, rfl⟩
  · rw [subject_of_find inS, subject_of_find inT]
    exact alike

theorem Variable.Alike.update {v w : Variable} (alike : v.Alike w) (proposed : Value) :
    (∃ cause, v.update proposed = .error cause ∧ w.update proposed = .error cause) ∨
      ∃ v' w' changed, v.update proposed = .ok (v', changed) ∧
        w.update proposed = .ok (w', changed) ∧ v'.Alike w' := by
  unfold Variable.update
  rw [alike.value, alike.name]
  split
  · exact Or.inl ⟨_, rfl, rfl⟩
  · split
    · exact Or.inl ⟨_, rfl, rfl⟩
    · split
      · exact Or.inl ⟨_, rfl, rfl⟩
      · exact Or.inr ⟨_, _, _, rfl, rfl, alike.name, rfl⟩
  · split
    · exact Or.inr ⟨_, _, _, rfl, rfl, alike.name, rfl⟩
    · exact Or.inl ⟨_, rfl, rfl⟩

theorem Variable.Alike.meet {v w : Variable} (alike : v.Alike w) (proposed : Value) :
    (∃ cause, v.meet proposed = .error cause ∧ w.meet proposed = .error cause) ∨
      ∃ v' w' changed, v.meet proposed = .ok (v', changed) ∧
        w.meet proposed = .ok (w', changed) ∧ v'.Alike w' := by
  cases known : w.value with
  | interval current =>
    rw [meet_of_interval known, meet_of_interval (alike.value.trans known)]
    exact alike.update proposed
  | scalar x =>
    unfold Variable.meet
    rw [alike.value, known, alike.name]
    by_cases possible : proposed.bounds.Contains x
    · simp only [possible, ↓reduceIte]
      exact Or.inr ⟨v, w, false, rfl, rfl, alike⟩
    · simp only [possible, ↓reduceIte]
      exact Or.inl ⟨_, rfl, rfl⟩

theorem Store.value_put (s : Store) (v : Variable) (name : String) :
    Store.value? ⟨s.roster.put v⟩ name = if v.name = name then some v.value else s.value? name := by
  unfold value?
  rw [find_put]
  split
  · rfl
  · rfl

section
variable {names : Finset String} {s t : Store}

theorem Proposal.extended_agrees (agree : s.AgreesOn names t) {q : Proposal}
    (listed : q.target ∈ names) : (q.extended s).AgreesOn names (q.extended t) := by
  unfold extended
  rw [Store.contains_same (agree q.target listed)]
  split
  · exact agree
  · intro name member
    rw [Store.value_put, Store.value_put, agree name member]

theorem Proposal.step_agrees (agree : s.AgreesOn names t) {q : Proposal}
    (listed : q.target ∈ names) :
    (q.step s).outcome = (q.step t).outcome ∧ (q.step s).created = (q.step t).created ∧
      (q.step s).store.AgreesOn names (q.step t).store := by
  have same := agree q.target listed
  have created : q.created s = q.created t := by
    unfold Proposal.created
    rw [Store.contains_same same]
  have extended := extended_agrees agree listed
  unfold step
  rcases (Store.subject_alike same).meet q.value with
    ⟨cause, failS, failT⟩ | ⟨v, w, changed, okS, okT, alike⟩
  · rw [failS, failT]
    exact ⟨rfl, created, extended⟩
  · rw [okS, okT]
    refine ⟨rfl, created, fun name member => ?_⟩
    simp only [Store.value_put, alike.name, alike.value, extended name member]

theorem Application.steps_agrees (agree : s.AgreesOn names t) {proposals : List Proposal}
    (listed : ∀ q ∈ proposals, q.target ∈ names) :
    (steps s proposals).outcome = (steps t proposals).outcome ∧
      (steps s proposals).created = (steps t proposals).created ∧
      (steps s proposals).store.AgreesOn names (steps t proposals).store := by
  induction proposals generalizing s t with
  | nil => exact ⟨rfl, rfl, agree⟩
  | cons q rest ih =>
    obtain ⟨first, later⟩ := List.forall_mem_cons.mp listed
    obtain ⟨outcome, created, next⟩ := Proposal.step_agrees agree first
    unfold steps
    simp only [outcome, created]
    cases (q.step t).outcome with
    | error error => exact ⟨rfl, rfl, next⟩
    | ok changed =>
      obtain ⟨outcome, created, final⟩ := ih next later
      exact ⟨by rw [outcome], by rw [created], final⟩

end

structure Progress.Alike (names : Finset String) (p q : Progress) : Prop where
  store : p.store.AgreesOn names q.store
  excluded : p.excluded = q.excluded
  changes : p.changes = q.changes

structure CycleRun.Alike (names : Finset String) (c d : CycleRun σ) : Prop where
  verdict : c.verdict = d.verdict
  progress : c.progress.Alike names d.progress
  state : c.state = d.state
  events : List.Forall₂ (Event.Alike names) c.events d.events
  log : c.log = d.log

section
variable {catalog : Catalog} {observer : Observer σ} {p q : Progress}

theorem Store.AgreesOn.members {s t : Store} (agree : s.AgreesOn catalog.memberNames t)
    {e : Equation} (listed : e ∈ catalog.toList) : ∀ m ∈ e.members, s.value? m = t.value? m :=
  fun m member => agree m ((catalog.mem_memberNames m).mpr ⟨e, listed, member⟩)

theorem viable_alike (alike : p.Alike catalog.memberNames q) :
    p.viable catalog = q.viable catalog := by
  unfold Progress.viable
  refine List.filter_congr fun e listed => ?_
  rw [alike.excluded, Equation.applies_same (alike.store.members listed)]

theorem sweep_alike {s t : Store} {equations : List Equation}
    (same : ∀ e ∈ equations, e.evaluate s = e.evaluate t) (observer : Observer σ) (cycle : Nat)
    (state : σ) :
    sweep observer cycle s state equations = sweep observer cycle t state equations := by
  induction equations generalizing state with
  | nil => rfl
  | cons e rest ih =>
    obtain ⟨first, later⟩ := List.forall_mem_cons.mp same
    unfold sweep
    rw [first]
    simp only [ih later]

theorem closeCycle_alike (blind : observer.IgnoresStores)
    (alike : p.Alike catalog.memberNames q) (cycle : Nat) (state : σ) {proposals : List Proposal}
    (proposedP : (p.viable catalog).mapM (Equation.propose p.store) = .ok proposals)
    (proposedQ : (q.viable catalog).mapM (Equation.propose q.store) = .ok proposals) :
    CycleRun.Alike catalog.memberNames (closeCycle observer cycle p state proposals)
      (closeCycle observer cycle q state proposals) := by
  have listed := (Progress.reads_of_proposed proposedP).target_listed
  obtain ⟨outcome, created, store⟩ := Application.steps_agrees alike.store listed
  rw [← applyAll_eq_steps (proposals_admissible (fun _ member => member) proposedP),
    ← applyAll_eq_steps (proposals_admissible (fun _ member => member) proposedQ)]
    at outcome created store
  unfold closeCycle
  simp only [outcome, created]
  cases (applyAll q.store proposals).outcome with
  | error error => exact ⟨rfl, ⟨store, alike.excluded, alike.changes⟩, rfl, .nil, rfl⟩
  | ok updates =>
    have excluded : (p.advance (applyAll p.store proposals).store updates).excluded =
        (q.advance (applyAll q.store proposals).store updates).excluded := by
      simp only [Progress.advance, alike.excluded]
    have next : (p.advance (applyAll p.store proposals).store updates).Alike catalog.memberNames
        (q.advance (applyAll q.store proposals).store updates) :=
      ⟨store, excluded, by simp only [Progress.advance, alike.changes]⟩
    have reaction := blind state cycle updates
      (q.advance (applyAll q.store proposals).store updates).excluded
      (p.advance (applyAll p.store proposals).store updates).store
      (q.advance (applyAll q.store proposals).store updates).store
    simp only [excluded, reaction]
    split
    · exact ⟨rfl, next, rfl, .cons (.completed _ _ _ store) .nil, rfl⟩
    · exact ⟨rfl, next, rfl, .cons (.completed _ _ _ store) .nil, rfl⟩

/-- Cycles that begin alike evaluate to the same, and so they end alike. -/
theorem runCycle_alike (blind : observer.IgnoresStores) (alike : p.Alike catalog.memberNames q)
    (cycle : Nat) (state : σ) :
    CycleRun.Alike catalog.memberNames (runCycle catalog observer cycle p state)
      (runCycle catalog observer cycle q state) := by
  have viable := viable_alike alike
  have evaluated : ∀ e ∈ q.viable catalog, e.evaluate p.store = e.evaluate q.store :=
    fun e member => Equation.evaluate_same (alike.store.members (viable_sound member).1)
  by_cases none : q.viable catalog = []
  · rw [runCycle_idle none, runCycle_idle (viable.trans none)]
    exact ⟨rfl, alike, rfl, .nil, rfl⟩
  · have some : p.viable catalog ≠ [] := by rwa [viable]
    rcases reaction : observer.react state
      (.cycleStarted cycle ((q.viable catalog).map Equation.name)) with ⟨action, next⟩
    have reaction' := reaction
    rw [← viable] at reaction'
    cases action with
    | stop =>
      rw [runCycle_unstarted none reaction, runCycle_unstarted some reaction', viable]
      exact ⟨rfl, alike, rfl, Event.alike_refl _ _, rfl⟩
    | proceed =>
      rw [runCycle_started none reaction, runCycle_started some reaction', viable,
        sweep_alike evaluated]
      have outcomeQ := sweep_outcome observer cycle q.store next (q.viable catalog)
      have outcomeP := sweep_outcome observer cycle p.store next (p.viable catalog)
      rw [viable, sweep_alike evaluated] at outcomeP
      unfold afterSweep
      cases outcome : (sweep observer cycle q.store next (q.viable catalog)).outcome with
      | failed error => exact ⟨rfl, alike, rfl, Event.alike_refl _ _, rfl⟩
      | stopped => exact ⟨rfl, alike, rfl, Event.alike_refl _ _, rfl⟩
      | complete proposals =>
        rw [outcome] at outcomeP outcomeQ
        rw [← viable] at outcomeP
        have closed := closeCycle_alike blind alike cycle
          (sweep observer cycle q.store next (q.viable catalog)).state outcomeP outcomeQ
        refine ⟨closed.verdict, closed.progress, closed.state, ?_, by simp only [closed.log]⟩
        exact .cons (.same _) (List.rel_append (Event.alike_refl _ _) closed.events)

end

structure Run.Alike (names : Finset String) (first second : Run σ) : Prop where
  result : first.result = second.result
  store : first.store.AgreesOn names second.store
  state : first.state = second.state
  events : List.Forall₂ (Event.Alike names) first.events second.events
  log : first.log = second.log

theorem Run.after_alike {names : Finset String} {c d : CycleRun σ} {first second : Run σ}
    (cycle : CycleRun.Alike names c d) (rest : Run.Alike names first second) :
    Run.Alike names (Run.after c first) (Run.after d second) where
  result := rest.result
  store := rest.store
  state := rest.state
  events := List.rel_append cycle.events rest.events
  log := by simp only [Run.after, cycle.log, rest.log]

theorem cycles_alike {catalog : Catalog} {observer : Observer σ} (blind : observer.IgnoresStores)
    (remaining entered : Nat) {p q : Progress} (alike : p.Alike catalog.memberNames q) (state : σ) :
    Run.Alike catalog.memberNames (Run.cycles catalog observer remaining entered p state)
      (Run.cycles catalog observer remaining entered q state) := by
  induction remaining generalizing entered p q state with
  | zero =>
    simp only [Run.cycles, Run.finish, alike.excluded, alike.changes]
    exact ⟨rfl, alike.store, rfl, .nil, rfl⟩
  | succ remaining ih =>
    have cycle := runCycle_alike blind alike (entered + 1) state
    have next := cycle.progress
    rw [Run.cycles, Run.cycles]
    refine Run.after_alike cycle ?_
    rw [cycle.verdict, cycle.state]
    cases (runCycle catalog observer (entered + 1) q state).verdict with
    | ends status =>
      simp only [Run.finish, next.excluded, next.changes]
      exact ⟨rfl, next.store, rfl, .nil, rfl⟩
    | fails error => exact ⟨rfl, next.store, rfl, .nil, rfl⟩
    | continues => exact ih (entered + 1) next _

/-- Runs from stores that agree on the members of the catalog go the same way. -/
theorem solve_alike {catalog : Catalog} {observer : Observer σ} {s t : Store}
    (blind : observer.IgnoresStores) (agree : s.AgreesOn catalog.memberNames t) (limit : Limit)
    (state : σ) :
    Run.Alike catalog.memberNames (solve catalog limit observer state s)
      (solve catalog limit observer state t) := by
  have start : Progress.Alike catalog.memberNames ⟨s, .empty, 0⟩ ⟨t, .empty, 0⟩ := ⟨agree, rfl, rfl⟩
  exact cycles_alike blind limit.maxCycles 0 start state

def paintedSquare : Store :=
  ⟨.ofList [⟨"length", .assumed, "ft", Variable.ranged.value, Variable.ranged.storable⟩,
    .new "colour" .declaredUnknown "nm"]⟩

theorem solve_alike_painted :
    Observer.patient.IgnoresStores ∧ someSquare.AgreesOn squares.memberNames paintedSquare ∧
      (∃ excluded, (solve squares .standard .patient 4 someSquare).result =
        .ok ⟨.stoppedByObserver, 2, 1, excluded⟩) ∧
      Run.Alike squares.memberNames (solve squares .standard .patient 4 someSquare)
        (solve squares .standard .patient 4 paintedSquare) := by
  have blind : Observer.patient.IgnoresStores := by
    intro state cycle updates excluded s t
    rfl
  have agree : someSquare.AgreesOn squares.memberNames paintedSquare := by decide +kernel
  exact ⟨blind, agree, ⟨_, rfl⟩, solve_alike blind agree .standard 4⟩

end Narrowing
