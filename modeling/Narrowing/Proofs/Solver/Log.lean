import Narrowing.Proofs.Solver.Frame
import Narrowing.Proofs.Solver.Observation

/-!
The log of a run. The entries with a cycle stand for the events, in their order, and only a cycle
without viable equations is logged and not reported. Between the evaluations of a cycle and its
completion stand the variables that the cycle created, so that the log names each variable the run
has added. It closes with the solution, if there is one.
-/
namespace Narrowing
variable {σ : Type}

def Event.entry : Event → LogEntry
  | .cycleStarted cycle viable => .cycleStart cycle viable
  | .evaluated cycle equation evaluation => .evaluated cycle equation evaluation
  | .cycleCompleted cycle updates excluded _ =>
    .cycleComplete cycle (updates.countP (·.changed)) excluded.size

namespace LogEntry

def cycle? : LogEntry → Option Nat
  | .cycleStart cycle _ => some cycle
  | .evaluated cycle _ _ => some cycle
  | .cycleComplete cycle _ _ => some cycle
  | .derivedVariable _ _ => none
  | .solveComplete _ => none

def derived? : LogEntry → Option String
  | .derivedVariable _ target => some target
  | _ => none

end LogEntry

theorem Event.entry_cycle (event : Event) : event.entry.cycle? = some event.cycle := by
  cases event <;> rfl

theorem Event.entry_derived (event : Event) : event.entry.derived? = none := by
  cases event <;> rfl

/-- `names` lists, each once, the variables of `after` that are not in `before`, and no variable is
    lost. -/
structure Store.Introduces (before after : Store) (names : List String) : Prop where
  distinct : names.Nodup
  listed : ∀ name, name ∈ names ↔ before.contains name = false ∧ after.contains name = true
  kept : ∀ name, before.contains name = true → after.contains name = true

namespace Store.Introduces
variable {a b c : Store} {xs ys : List String}

theorem none (s : Store) : s.Introduces s [] where
  distinct := .nil
  listed := by simp
  kept := fun _ present => present

theorem trans (first : a.Introduces b xs) (second : b.Introduces c ys) :
    a.Introduces c (xs ++ ys) where
  distinct := by
    refine List.nodup_append'.mpr ⟨first.distinct, second.distinct, ?_⟩
    intro name early late
    have present := ((first.listed name).mp early).2
    simp [((second.listed name).mp late).1] at present
  listed := by
    intro name
    rw [List.mem_append, first.listed, second.listed]
    have lost := first.kept name
    have lost' := second.kept name
    revert lost lost'
    cases a.contains name <;> cases b.contains name <;> cases c.contains name <;> simp
  kept := fun name present => second.kept name (first.kept name present)

end Store.Introduces

namespace Proposal

theorem step_created (q : Proposal) (store : Store) :
    (q.step store).created = q.created store := by
  unfold step
  cases (store.subject q.target).meet q.value <;> rfl

theorem step_contains (q : Proposal) (store : Store) (name : String) :
    (q.step store).store.contains name = true ↔ q.target = name ∨ store.contains name = true := by
  obtain ⟨w, _, find⟩ := q.step_becomes store
  rw [Store.contains_iff, Store.contains_iff, find]
  by_cases same : q.target = name <;> simp [same]

theorem step_introduces (q : Proposal) (store : Store) :
    store.Introduces (q.step store).store ((q.step store).created.map Prod.snd) := by
  rw [step_created]
  unfold created
  refine ⟨?_, ?_, fun name present => (q.step_contains store name).mpr (.inr present)⟩
  · split <;> simp
  · intro name
    rw [step_contains]
    by_cases same : q.target = name
    · subst name
      cases store.contains q.target <;> simp
    · cases store.contains q.target <;> simp [same, Ne.symm same]

end Proposal

namespace Application

theorem steps_introduces (store : Store) (proposals : List Proposal) :
    store.Introduces (steps store proposals).store
      ((steps store proposals).created.map Prod.snd) := by
  induction proposals generalizing store with
  | nil => exact .none store
  | cons q rest ih =>
    have now := q.step_introduces store
    unfold steps
    cases outcome : (q.step store).outcome with
    | error error =>
      simp only [outcome]
      exact now
    | ok changed =>
      simp only [outcome, List.map_append]
      exact now.trans (ih (q.step store).store)

theorem steps_created_origin (store : Store) (proposals : List Proposal) :
    ∀ c ∈ (steps store proposals).created,
      ∃ q ∈ proposals, q.equation = c.1 ∧ q.target = c.2 := by
  induction proposals generalizing store with
  | nil => simp [steps]
  | cons q rest ih =>
    have now : ∀ c ∈ (q.step store).created, q.equation = c.1 ∧ q.target = c.2 := by
      rw [q.step_created]
      unfold Proposal.created
      split <;> simp
    unfold steps
    cases outcome : (q.step store).outcome with
    | error error =>
      simp only [outcome]
      exact fun c member => ⟨q, by simp, now c member⟩
    | ok changed =>
      simp only [outcome, List.mem_append]
      rintro c (early | late)
      · exact ⟨q, by simp, now c early⟩
      · obtain ⟨r, member, origin⟩ := ih _ c late
        exact ⟨r, List.mem_cons_of_mem _ member, origin⟩

end Application

/-- What there is to tell of a cycle with viable equations: what it read, which variables it
    created, each with the equation it is for, and that it was completed, if it was. -/
structure CycleRecord (cycle : Nat) where
  viable : List String
  busy : viable ≠ []
  read : List Proposal
  created : List (String × String)
  origin : ∀ c ∈ created, ∃ q ∈ read, q.equation = c.1 ∧ q.target = c.2
  closing : List Event
  closes : ∀ event ∈ closing, ∃ updates excluded store,
    event = .cycleCompleted cycle updates excluded store

namespace CycleRecord
variable {cycle : Nat}

def opening (record : CycleRecord cycle) : List Event :=
  .cycleStarted cycle record.viable :: record.read.map (Proposal.reading cycle)

def naming (record : CycleRecord cycle) : List LogEntry :=
  record.created.map fun c => .derivedVariable c.1 c.2

def events (record : CycleRecord cycle) : List Event := record.opening ++ record.closing

def log (record : CycleRecord cycle) : List LogEntry :=
  record.opening.map Event.entry ++ (record.naming ++ record.closing.map Event.entry)

def cut {viable : List String} (busy : viable ≠ []) (read : List Proposal) : CycleRecord cycle :=
  ⟨viable, busy, read, [], by simp, [], by simp⟩

theorem cut_events {viable : List String} (busy : viable ≠ []) (read : List Proposal) :
    (cut busy read : CycleRecord cycle).events =
      .cycleStarted cycle viable :: read.map (Proposal.reading cycle) := by
  simp [events, cut, opening]

theorem cut_log {viable : List String} (busy : viable ≠ []) (read : List Proposal) :
    (cut busy read : CycleRecord cycle).log =
      .cycleStart cycle viable :: (read.map (Proposal.reading cycle)).map Event.entry := by
  simp [log, cut, naming, opening, Event.entry]

end CycleRecord

theorem sweep_log (observer : Observer σ) (cycle : Nat) (store : Store) (s : σ)
    (equations : List Equation) :
    (sweep observer cycle store s equations).log =
      (sweep observer cycle store s equations).events.map Event.entry := by
  induction equations generalizing s with
  | nil => rfl
  | cons e rest ih =>
    unfold sweep
    cases e.evaluate store with
    | error error => rfl
    | ok evaluation =>
      rcases reaction : observer.react s (.evaluated cycle e.name evaluation) with ⟨action, next⟩
      cases action with
      | stop =>
        simp only [reaction]
        rfl
      | proceed =>
        simp only [reaction, ih next]
        rfl

theorem closeCycle_log (observer : Observer σ) (cycle : Nat) (p : Progress) (s : σ)
    (proposals : List Proposal) :
    (closeCycle observer cycle p s proposals).log =
      (applyAll p.store proposals).created.map (fun c => .derivedVariable c.1 c.2) ++
        (closeCycle observer cycle p s proposals).events.map Event.entry := by
  unfold closeCycle
  simp only
  split
  · simp
  · split <;> rfl

theorem closeCycle_events (observer : Observer σ) (cycle : Nat) (p : Progress) (s : σ)
    (proposals : List Proposal) :
    ∀ event ∈ (closeCycle observer cycle p s proposals).events, ∃ updates excluded store,
      event = .cycleCompleted cycle updates excluded store := by
  unfold closeCycle
  simp only
  split
  · simp
  · split <;> simp

theorem closeCycle_store (observer : Observer σ) (cycle : Nat) (p : Progress) (s : σ)
    (proposals : List Proposal) :
    (closeCycle observer cycle p s proposals).progress.store =
      (applyAll p.store proposals).store := by
  unfold closeCycle
  simp only
  split
  · rfl
  · split <;> rfl

theorem CycleTrace.viable_of_empty {catalog : Catalog} {observer : Observer σ} {cycle : Nat}
    {p after : Progress} {s : σ} {events : List Event}
    (trace : CycleTrace catalog observer cycle p s (.ends .convergedEmpty) after events) :
    p.viable catalog = [] := by
  cases trace with
  | empty none => exact none
  | completed swept taken decision => cases decision

/-- A cycle with viable equations has one record, from which its events and its log are read off. -/
theorem runCycle_record {catalog : Catalog} {p : Progress} (some : p.viable catalog ≠ [])
    (observer : Observer σ) (cycle : Nat) (s : σ) :
    ∃ record : CycleRecord cycle,
      (runCycle catalog observer cycle p s).events = record.events ∧
      (runCycle catalog observer cycle p s).log = record.log ∧
      p.store.Introduces (runCycle catalog observer cycle p s).progress.store
        (record.created.map Prod.snd) := by
  have busy : (p.viable catalog).map Equation.name ≠ [] := by simpa using some
  rcases reaction : observer.react s
    (.cycleStarted cycle ((p.viable catalog).map Equation.name)) with ⟨action, next⟩
  cases action with
  | stop =>
    rw [runCycle_unstarted some reaction]
    exact ⟨.cut busy [], rfl, rfl, .none _⟩
  | proceed =>
    rw [runCycle_started some reaction]
    have log := sweep_log observer cycle p.store next (p.viable catalog)
    have outcome := sweep_outcome observer cycle p.store next (p.viable catalog)
    obtain ⟨_, _, read, _, _, events, _, whole⟩ :=
      sweep_events observer cycle p.store next (p.viable catalog)
    rw [events] at log
    unfold afterSweep
    cases swept : (sweep observer cycle p.store next (p.viable catalog)).outcome with
    | failed error =>
      refine ⟨.cut busy read, ?_, ?_, .none _⟩
      · simp only [events, CycleRecord.cut_events]
      · simp only [log, CycleRecord.cut_log]
    | stopped =>
      refine ⟨.cut busy read, ?_, ?_, .none _⟩
      · simp only [events, CycleRecord.cut_events]
      · simp only [log, CycleRecord.cut_log]
    | complete proposals =>
      obtain rfl := whole proposals swept
      rw [swept] at outcome
      have stepwise := applyAll_eq_steps (proposals_admissible (fun _ member => member) outcome)
      have origin := Application.steps_created_origin p.store read
      rw [← stepwise] at origin
      have closes := closeCycle_events observer cycle p
        (sweep observer cycle p.store next (p.viable catalog)).state read
      refine ⟨⟨_, busy, read, _, origin, _, closes⟩, ?_, ?_, ?_⟩
      · simp only [events]
        rfl
      · simp only [log, closeCycle_log]
        rfl
      · simp only [closeCycle_store, stepwise]
        exact Application.steps_introduces p.store read

theorem append_split {α : Type} {l r before after : List α} {x : α}
    (whole : l ++ r = before ++ x :: after) :
    (∃ since, l = before ++ x :: since ∧ after = since ++ r) ∨
      ∃ since, before = l ++ since ∧ r = since ++ x :: after := by
  rcases List.append_eq_append_iff.mp whole with ⟨since, left, right⟩ | ⟨since, left, right⟩
  · exact .inr ⟨since, left, right⟩
  · cases since with
    | nil => exact .inr ⟨[], by simpa using left.symm, by simpa using right.symm⟩
    | cons y since =>
      obtain ⟨rfl, rfl⟩ := List.cons.inj right
      exact .inl ⟨since, left, rfl⟩

/-- The log names a variable between these entries: in this cycle, after all its evaluations, one of
    which proposes the variable, and before its completion. -/
structure NamedBetween (cycle : Nat) (equation target : String) (before after : List LogEntry) :
    Prop where
  current : ∃ earlier viable since, before = earlier ++ .cycleStart cycle viable :: since ∧
    (∀ other names, .cycleStart other names ∉ since) ∧
    ∃ evaluation, .evaluated cycle equation evaluation ∈ since ∧ evaluation.target = target
  evaluated : ∀ name evaluation, .evaluated cycle name evaluation ∉ after
  incomplete : ∀ changed excluded, .cycleComplete cycle changed excluded ∉ before

namespace NamedBetween
variable {cycle : Nat} {equation target : String} {before after : List LogEntry}

theorem evaluation_mem (named : NamedBetween cycle equation target before after) :
    ∃ evaluation, .evaluated cycle equation evaluation ∈ before := by
  obtain ⟨_, _, _, rfl, _, evaluation, member, _⟩ := named.current
  exact ⟨evaluation, by simp [member]⟩

theorem append (named : NamedBetween cycle equation target before after) {more : List LogEntry}
    (other : ∀ entry ∈ more, entry.cycle? ≠ some cycle) :
    NamedBetween cycle equation target before (after ++ more) where
  current := named.current
  evaluated := by
    intro name evaluation member
    rcases List.mem_append.mp member with early | late
    · exact named.evaluated name evaluation early
    · exact other _ late rfl
  incomplete := named.incomplete

theorem prepend (named : NamedBetween cycle equation target before after) {more : List LogEntry}
    (other : ∀ entry ∈ more, entry.cycle? ≠ some cycle) :
    NamedBetween cycle equation target (more ++ before) after where
  current := by
    obtain ⟨earlier, viable, since, rfl, rest⟩ := named.current
    exact ⟨more ++ earlier, viable, since, by simp, rest⟩
  evaluated := named.evaluated
  incomplete := by
    intro changed excluded member
    rcases List.mem_append.mp member with early | late
    · exact other _ early rfl
    · exact named.incomplete changed excluded late

end NamedBetween

namespace CycleRecord
variable {cycle : Nat} (record : CycleRecord cycle)

theorem closing_entry {entry : LogEntry} (member : entry ∈ record.closing.map Event.entry) :
    ∃ changed excluded, entry = .cycleComplete cycle changed excluded := by
  obtain ⟨event, closing, rfl⟩ := List.mem_map.mp member
  obtain ⟨updates, excluded, store, rfl⟩ := record.closes event closing
  exact ⟨_, _, rfl⟩

theorem opening_entry {entry : LogEntry} (member : entry ∈ record.opening.map Event.entry) :
    entry = .cycleStart cycle record.viable ∨
      ∃ q ∈ record.read, entry = .evaluated cycle q.equation q.evaluation := by
  simpa [opening, Event.entry, Proposal.reading, eq_comm] using member

theorem naming_entry {entry : LogEntry} (member : entry ∈ record.naming) :
    ∃ c ∈ record.created, entry = .derivedVariable c.1 c.2 := by
  obtain ⟨c, created, rfl⟩ := List.mem_map.mp member
  exact ⟨c, created, rfl⟩

theorem mem_log {entry : LogEntry} : entry ∈ record.log ↔
    entry ∈ record.opening.map Event.entry ∨ entry ∈ record.naming ∨
      entry ∈ record.closing.map Event.entry := by
  unfold log
  rw [List.mem_append, List.mem_append]

theorem log_cycle {entry : LogEntry} (member : entry ∈ record.log) {k : Nat}
    (same : entry.cycle? = some k) : k = cycle := by
  rcases record.mem_log.mp member with opening | naming | closing
  · rcases record.opening_entry opening with rfl | ⟨_, _, rfl⟩ <;> exact (Option.some.inj same).symm
  · obtain ⟨_, _, rfl⟩ := record.naming_entry naming
    simp [LogEntry.cycle?] at same
  · obtain ⟨_, _, rfl⟩ := record.closing_entry closing
    exact (Option.some.inj same).symm

theorem started_viable {k : Nat} {viable : List String}
    (member : .cycleStarted k viable ∈ record.events) : viable = record.viable := by
  rcases List.mem_append.mp member with first | last
  · rcases List.mem_cons.mp first with started | evaluated
    · exact (Event.cycleStarted.inj started).2
    · simp [Proposal.reading] at evaluated
  · obtain ⟨_, _, _, other⟩ := record.closes _ last
    simp at other

theorem log_unsolved (solution : Solution) : .solveComplete solution ∉ record.log := by
  intro member
  rcases record.mem_log.mp member with opening | naming | closing
  · simpa using record.opening_entry opening
  · simpa using record.naming_entry naming
  · simpa using record.closing_entry closing

theorem log_reported :
    record.log.filter (·.cycle?.isSome) = record.events.map Event.entry := by
  have silent : record.naming.filter (·.cycle?.isSome) = [] := by
    refine List.filter_eq_nil_iff.mpr fun entry member => ?_
    obtain ⟨_, _, rfl⟩ := record.naming_entry member
    simp [LogEntry.cycle?]
  have spoken (events : List Event) :
      (events.map Event.entry).filter (·.cycle?.isSome) = events.map Event.entry := by
    simp [List.filter_map, Function.comp_def, Event.entry_cycle]
  unfold log events
  rw [List.filter_append, List.filter_append, silent, spoken, spoken, List.map_append,
    List.nil_append]

theorem log_derived : record.log.filterMap LogEntry.derived? = record.created.map Prod.snd := by
  have unnamed (events : List Event) :
      (events.map Event.entry).filterMap LogEntry.derived? = [] := by
    simp [List.filterMap_map, Event.entry_derived]
  unfold log naming
  rw [List.filterMap_append, List.filterMap_append, unnamed, unnamed, List.filterMap_map]
  simp [Function.comp_def, LogEntry.derived?]

/-- Where a cycle names a variable it names only variables, back to its last evaluation and on to
    its completion. -/
theorem log_split {equation target : String} {before after : List LogEntry}
    (split : record.log = before ++ .derivedVariable equation target :: after) :
    ∃ since rest, before = record.opening.map Event.entry ++ since ∧
      after = rest ++ record.closing.map Event.entry ∧
      record.naming = since ++ .derivedVariable equation target :: rest := by
  rcases append_split split with ⟨_, opening, _⟩ | ⟨since, left, later⟩
  · have member : .derivedVariable equation target ∈ record.opening.map Event.entry := by
      simp [opening]
    simpa using record.opening_entry member
  · rcases append_split later with ⟨rest, named, right⟩ | ⟨_, _, closing⟩
    · exact ⟨since, rest, left, right, named⟩
    · have member : .derivedVariable equation target ∈ record.closing.map Event.entry := by
        simp [closing]
      simpa using record.closing_entry member

theorem log_named {equation target : String} {before after : List LogEntry}
    (split : record.log = before ++ .derivedVariable equation target :: after) :
    NamedBetween cycle equation target before after := by
  obtain ⟨since, rest, rfl, rfl, naming⟩ := record.log_split split
  have created : .derivedVariable equation target ∈ record.naming := by simp [naming]
  have earlier : ∀ entry ∈ since, entry ∈ record.naming := fun _ member => by simp [naming, member]
  have later : ∀ entry ∈ rest, entry ∈ record.naming := fun _ member => by simp [naming, member]
  obtain ⟨c, member, same⟩ := record.naming_entry created
  obtain ⟨q, read, origin⟩ := record.origin c member
  obtain ⟨rfl, rfl⟩ := LogEntry.derivedVariable.inj same
  refine ⟨⟨[], record.viable, (record.read.map (Proposal.reading cycle)).map Event.entry ++ since,
    rfl, ?_, q.evaluation, ?_, origin.2⟩, ?_, ?_⟩
  · intro other names member
    rcases List.mem_append.mp member with evaluated | named
    · simp [Proposal.reading, Event.entry] at evaluated
    · simpa using record.naming_entry (earlier _ named)
  · refine List.mem_append_left _ ?_
    rw [← origin.1]
    exact List.mem_map_of_mem (List.mem_map_of_mem read)
  · intro name evaluation member
    rcases List.mem_append.mp member with named | closing
    · simpa using record.naming_entry (later _ named)
    · simpa using record.closing_entry closing
  · intro changed excluded member
    rcases List.mem_append.mp member with opening | named
    · simpa using record.opening_entry opening
    · simpa using record.naming_entry (earlier _ named)

end CycleRecord

def idleEntries : Except SolveError Solution → List LogEntry
  | .ok ⟨.convergedEmpty, cycles, _, _⟩ => [.cycleStart cycles []]
  | _ => []

structure Recorded (entered : Nat) (start : Store) (run : Run σ) : Prop where
  later : ∀ entry ∈ run.log, ∀ cycle, entry.cycle? = some cycle → entered < cycle
  reported : run.log.filter (·.cycle?.isSome) = run.events.map Event.entry ++ idleEntries run.result
  busy : ∀ cycle viable, .cycleStarted cycle viable ∈ run.events → viable ≠ []
  introduced : start.Introduces run.store (run.log.filterMap LogEntry.derived?)
  named : ∀ before equation target after,
    run.log = before ++ .derivedVariable equation target :: after →
      ∃ cycle, NamedBetween cycle equation target before after
  solved : ∀ solution, run.result = .ok solution → ∃ before,
    run.log = before ++ [.solveComplete solution] ∧ ∀ other, .solveComplete other ∉ before
  failed : ∀ error, run.result = .error error → ∀ solution, .solveComplete solution ∉ run.log

namespace Recorded

theorem unnamed {log before after : List LogEntry} {equation target : String}
    (nothing : log.filterMap LogEntry.derived? = [])
    (split : log = before ++ .derivedVariable equation target :: after) : False := by
  simp [split, LogEntry.derived?] at nothing

theorem abort (entered : Nat) (error : SolveError) (p : Progress) (s : σ) :
    Recorded entered p.store (Run.abort error p s) where
  later := by simp [Run.abort]
  reported := rfl
  busy := by simp [Run.abort]
  introduced := .none p.store
  named := fun _ _ _ _ split => (unnamed rfl split).elim
  solved := by simp [Run.abort]
  failed := by simp [Run.abort]

theorem finish (entered : Nat) {status : Status} (active : status ≠ .convergedEmpty) (cycles : Nat)
    (p : Progress) (s : σ) : Recorded entered p.store (Run.finish status cycles p s) where
  later := by simp [Run.finish, LogEntry.cycle?]
  reported := by
    cases status with
    | convergedEmpty => exact absurd rfl active
    | _ => rfl
  busy := by simp [Run.finish]
  introduced := .none p.store
  named := fun _ _ _ _ split => (unnamed rfl split).elim
  solved := by
    intro solution solved
    obtain rfl := Except.ok.inj solved
    exact ⟨[], rfl, by simp⟩
  failed := by simp [Run.finish]

theorem idle (entered : Nat) (p : Progress) (s : σ) :
    Recorded entered p.store (Run.after
      ⟨.ends .convergedEmpty, p, s, [], [.cycleStart (entered + 1) []]⟩
      (Run.finish .convergedEmpty (entered + 1) p s)) where
  later := by
    intro entry member cycle same
    rcases List.mem_cons.mp member with rfl | last
    · obtain rfl := Option.some.inj same
      exact Nat.lt_succ_self entered
    · rw [List.mem_singleton.mp last] at same
      simp [LogEntry.cycle?] at same
  reported := rfl
  busy := by simp [Run.after, Run.finish]
  introduced := .none p.store
  named := fun _ _ _ _ split => (unnamed rfl split).elim
  solved := by
    intro solution solved
    obtain rfl := Except.ok.inj solved
    exact ⟨[.cycleStart (entered + 1) []], rfl, by simp⟩
  failed := by simp [Run.after, Run.finish]

theorem after {entered : Nat} {start : Store} {c : CycleRun σ} {rest : Run σ}
    (record : CycleRecord (entered + 1)) (events : c.events = record.events)
    (log : c.log = record.log)
    (introduces : start.Introduces c.progress.store (record.created.map Prod.snd))
    (recorded : Recorded (entered + 1) c.progress.store rest) :
    Recorded entered start (Run.after c rest) where
  later := by
    intro entry member cycle same
    rcases List.mem_append.mp member with now | next
    · rw [log] at now
      rw [record.log_cycle now same]
      exact Nat.lt_succ_self entered
    · exact Nat.lt_of_succ_lt (recorded.later entry next cycle same)
  reported := by
    simp only [Run.after, events, log, List.filter_append, record.log_reported,
      recorded.reported, List.map_append, List.append_assoc]
  busy := by
    intro cycle viable member
    rcases List.mem_append.mp member with now | next
    · rw [events] at now
      rw [record.started_viable now]
      exact record.busy
    · exact recorded.busy cycle viable next
  introduced := by
    simp only [Run.after, log, List.filterMap_append, record.log_derived]
    exact introduces.trans recorded.introduced
  named := by
    intro before equation target after split
    simp only [Run.after, log] at split
    -- this cycle names it, or a later one, which this one neither evaluates for nor completes
    rcases append_split split with ⟨since, now, rfl⟩ | ⟨since, rfl, next⟩
    · refine ⟨entered + 1, (record.log_named now).append ?_⟩
      intro entry member same
      exact Nat.lt_irrefl _ (recorded.later entry member _ same)
    · obtain ⟨cycle, named⟩ := recorded.named since equation target after next
      refine ⟨cycle, named.prepend ?_⟩
      obtain ⟨evaluation, evaluated⟩ := named.evaluation_mem
      have beyond : entered + 1 < cycle :=
        recorded.later (.evaluated cycle equation evaluation) (by simp [next, evaluated]) cycle rfl
      intro entry member same
      exact Nat.ne_of_gt beyond (record.log_cycle member same)
  solved := by
    intro solution solved
    obtain ⟨before, split, once⟩ := recorded.solved solution solved
    refine ⟨record.log ++ before, by simp [Run.after, log, split], ?_⟩
    intro other member
    rcases List.mem_append.mp member with now | next
    · exact record.log_unsolved other now
    · exact once other next
  failed := by
    intro error failed solution member
    simp only [Run.after, log, List.mem_append] at member
    rcases member with now | next
    · exact record.log_unsolved solution now
    · exact recorded.failed error failed solution next

end Recorded

theorem cycles_recorded (catalog : Catalog) (observer : Observer σ) (remaining entered : Nat)
    (p : Progress) (s : σ) :
    Recorded entered p.store (Run.cycles catalog observer remaining entered p s) := by
  induction remaining generalizing entered p s with
  | zero => exact .finish entered (by simp) entered p s
  | succ remaining ih =>
    rw [Run.cycles]
    by_cases none : p.viable catalog = []
    · rw [runCycle_idle none]
      exact .idle entered p s
    · obtain ⟨record, events, log, introduces⟩ := runCycle_record none observer (entered + 1) s
      refine .after record events log introduces ?_
      have trace := runCycle_trace catalog observer (entered + 1) p s
      cases verdict : (runCycle catalog observer (entered + 1) p s).verdict with
      | ends status =>
        rw [verdict] at trace
        refine .finish (entered + 1) ?_ (entered + 1) _ _
        -- only a cycle without viable equations ends as empty
        rintro rfl
        exact none trace.viable_of_empty
      | fails error => exact .abort (entered + 1) error _ _
      | continues => exact ih (entered + 1) _ _

/-- The log of every run agrees with its events, its store and its result. -/
theorem solve_recorded (catalog : Catalog) (limit : Limit) (observer : Observer σ) (state : σ)
    (store : Store) : Recorded 0 store (solve catalog limit observer state store) :=
  cycles_recorded catalog observer limit.maxCycles 0 ⟨store, .empty, 0⟩ state

end Narrowing
