import Narrowing.Proofs.Solver.Exclusion

/-!
Runs that differ in their limit. All runs from one start that come to a cycle have the same past, so
a run that its limit stops is the beginning of every run with a larger limit, which goes on from the
store, the excluded equations and the changes that the first one returned. A run that ends in any
other way ends in a cycle, and no larger limit makes a difference to it.
-/
namespace Narrowing
variable {σ : Type}

def Run.preceded (events : List Event) (log : List LogEntry) (run : Run σ) : Run σ :=
  { run with events := events ++ run.events, log := log ++ run.log }

theorem Run.preceded_after (events : List Event) (log : List LogEntry) (c : CycleRun σ)
    (rest : Run σ) : (Run.after c rest).preceded events log =
      rest.preceded (events ++ c.events) (log ++ c.log) := by
  simp [preceded, after]

section
variable {catalog : Catalog} {observer : Observer σ} {start : Progress} {state : σ} {k : Nat}
  {p : Progress} {s : σ} {events : List Event}

theorem Entered.passed (entered : Entered catalog observer start state k p s) :
    ∃ events, Passed catalog observer start state k p s events := by
  induction entered with
  | first => exact ⟨[], .none⟩
  | next entered continues ih =>
    obtain ⟨events, passed⟩ := ih
    exact ⟨_, .next passed continues⟩

theorem Passed.entered (passed : Passed catalog observer start state k p s events) :
    Entered catalog observer start state k p s := by
  induction passed with
  | none => exact .first
  | next passed continues ih => exact .next ih continues

/-- Whatever cycles are left, a run that comes to a cycle is its past and the run from there. -/
theorem Passed.cycles_eq (passed : Passed catalog observer start state k p s events) :
    ∃ log, ∀ remaining, Run.cycles catalog observer (k + remaining) 0 start state =
      (Run.cycles catalog observer remaining k p s).preceded events log := by
  induction passed with
  | none => exact ⟨[], fun remaining => by simp [Run.preceded]⟩
  | @next k p s events passed continues ih =>
    obtain ⟨log, before⟩ := ih
    refine ⟨log ++ (runCycle catalog observer (k + 1) p s).log, fun remaining => ?_⟩
    have here := before (remaining + 1)
    rw [← Nat.add_assoc, Nat.add_right_comm] at here
    rw [here, Run.cycles]
    simp only [continues]
    exact Run.preceded_after _ _ _ _

/-- The limit plays no part in a cycle that does not continue. -/
theorem cycles_decided (decided : (runCycle catalog observer (k + 1) p s).verdict ≠ .continues)
    (m n : Nat) : Run.cycles catalog observer (m + 1) k p s =
      Run.cycles catalog observer (n + 1) k p s := by
  rw [Run.cycles, Run.cycles]
  cases verdict : (runCycle catalog observer (k + 1) p s).verdict with
  | ends status => rfl
  | fails error => rfl
  | continues => exact absurd verdict decided

theorem Entered.cycles_decided (entered : Entered catalog observer start state k p s)
    (decided : (runCycle catalog observer (k + 1) p s).verdict ≠ .continues) {m n : Nat}
    (hm : k < m) (hn : k < n) :
    Run.cycles catalog observer n 0 start state = Run.cycles catalog observer m 0 start state := by
  obtain ⟨events, passed⟩ := entered.passed
  obtain ⟨log, whole⟩ := passed.cycles_eq
  obtain ⟨i, rfl⟩ := Nat.exists_eq_add_of_lt hm
  obtain ⟨j, rfl⟩ := Nat.exists_eq_add_of_lt hn
  rw [Nat.add_assoc k i, Nat.add_assoc k j, whole, whole, Narrowing.cycles_decided decided j i]

theorem cycles_later (catalog : Catalog) (observer : Observer σ) (remaining k : Nat) (p : Progress)
    (s : σ) :
    ∀ event ∈ (Run.cycles catalog observer remaining k p s).events, k < event.cycle := by
  induction remaining generalizing k p s with
  | zero => simp [Run.cycles, Run.finish]
  | succ remaining ih =>
    have trace := runCycle_trace catalog observer (k + 1) p s
    intro event member
    simp only [Run.cycles, Run.after, List.mem_append] at member
    rcases member with now | later
    · have := trace.cycle_eq event now
      omega
    · cases verdict : (runCycle catalog observer (k + 1) p s).verdict with
      | ends status => simp [verdict, Run.finish] at later
      | fails error => simp [verdict, Run.abort] at later
      | continues =>
        simp only [verdict] at later
        have := ih _ _ _ event later
        omega

theorem Passed.last_completed (passed : Passed catalog observer start state (k + 1) p s events) :
    ∃ early updates, events = early ++ [.cycleCompleted (k + 1) updates p.excluded p.store] := by
  cases passed with
  | @next _ q r before passed continues =>
    have trace := runCycle_trace catalog observer (k + 1) q r
    rw [continues] at trace
    generalize (runCycle catalog observer (k + 1) q r).progress = reached at trace ⊢
    generalize (runCycle catalog observer (k + 1) q r).events = last at trace ⊢
    cases trace with
    | @completed proposals updates _ swept taken decision =>
      refine ⟨before ++ q.opening catalog (k + 1) proposals, updates, ?_⟩
      rw [List.append_assoc]
      rfl

end

/-- `short` was stopped by its limit `m` with this solution. `long`, which may enter `n` cycles, does
    the same as far as that, and then enters cycle `m + 1`, if it may, with what `short` returned. -/
structure Truncated (catalog : Catalog) (observer : Observer σ) (start : Progress) (state : σ)
    (m n : Nat) (short long : Run σ) (solution : Solution) : Prop where
  earlier : ∃ later, long.events = short.events ++ later ∧ ∀ event ∈ later, m < event.cycle
  completed : ∃ early updates,
    short.events = early ++ [.cycleCompleted m updates solution.excluded short.store]
  entered : Entered catalog observer start state m
    ⟨short.store, solution.excluded, solution.changes⟩ short.state
  resumed : ∃ log, short.log = log ++ [.solveComplete solution] ∧
    long = (Run.cycles catalog observer (n - m) m
      ⟨short.store, solution.excluded, solution.changes⟩ short.state).preceded short.events log

theorem Entered.truncated {catalog : Catalog} {observer : Observer σ} {start p : Progress}
    {state s : σ} {m n : Nat} (entered : Entered catalog observer start state m p s)
    (positive : 0 < m) (within : m ≤ n) :
    (Run.cycles catalog observer m 0 start state).result =
        .ok ⟨.capReached, m, p.changes, p.excluded⟩ ∧
      Truncated catalog observer start state m n (Run.cycles catalog observer m 0 start state)
        (Run.cycles catalog observer n 0 start state) ⟨.capReached, m, p.changes, p.excluded⟩ := by
  obtain ⟨events, passed⟩ := entered.passed
  obtain ⟨log, whole⟩ := passed.cycles_eq
  obtain ⟨spare, rfl⟩ := Nat.exists_eq_add_of_le within
  have short : Run.cycles catalog observer m 0 start state =
      (Run.finish .capReached m p s).preceded events log := whole 0
  obtain ⟨k, rfl⟩ := Nat.exists_eq_add_one_of_ne_zero (Nat.ne_of_gt positive)
  rw [short, whole spare]
  have past : ((Run.finish .capReached (k + 1) p s).preceded events log).events = events := by
    simp [Run.preceded, Run.finish]
  refine ⟨rfl, ?_, ?_, entered, log, rfl, ?_⟩
  · rw [past]
    exact ⟨_, rfl, cycles_later catalog observer spare (k + 1) p s⟩
  · rw [past]
    exact passed.last_completed
  · rw [past, Nat.add_sub_cancel_left]
    rfl

/-- A larger limit changes nothing about a run that its limit did not stop, and lets a run that it
    did stop go on. -/
theorem solve_truncated (catalog : Catalog) {m n : Limit} (within : m.maxCycles ≤ n.maxCycles)
    (observer : Observer σ) (state : σ) (store : Store) :
    ((∀ solution, (solve catalog m observer state store).result = .ok solution →
        solution.status ≠ .capReached) →
      solve catalog n observer state store = solve catalog m observer state store) ∧
    ∀ solution, (solve catalog m observer state store).result = .ok solution →
      solution.status = .capReached →
      Truncated catalog observer ⟨store, .empty, 0⟩ state m.maxCycles n.maxCycles
        (solve catalog m observer state store) (solve catalog n observer state store) solution := by
  constructor
  · intro uncapped
    cases solve_ending catalog m observer state store with
    | atLimit entered result left =>
      have capped := (entered.truncated m.positive within).1
      exact absurd rfl (uncapped _ capped)
    | decided below entered verdict result left =>
      exact entered.cycles_decided (by simp [verdict]) below (by omega)
    | failed below entered verdict result left =>
      exact entered.cycles_decided (by simp [verdict]) below (by omega)
  · intro solution solved capped
    cases solve_conclusion catalog m observer state store with
    | atLimit passed returned left =>
      obtain rfl := Except.ok.inj (solved.symm.trans returned)
      exact (passed.entered.truncated m.positive within).2
    | ended below passed trace returned left reported =>
      obtain rfl := Except.ok.inj (solved.symm.trans returned)
      obtain rfl := capped
      exact trace.not_capReached.elim
    | failed below passed trace unsolved left reported => simp [unsolved] at solved

theorem solve_truncated_square :
    (⟨1, Nat.one_pos⟩ : Limit).maxCycles ≤ Limit.standard.maxCycles ∧
      (solve squares ⟨1, Nat.one_pos⟩ .silent () someSquare).result =
        .ok ⟨.capReached, 1, 1, .empty⟩ ∧
      Truncated squares .silent ⟨someSquare, .empty, 0⟩ () 1 10
        (solve squares ⟨1, Nat.one_pos⟩ .silent () someSquare)
        (solve squares .standard .silent () someSquare) ⟨.capReached, 1, 1, .empty⟩ ∧
      solve squares ⟨12, by decide⟩ .silent () someSquare =
        solve squares .standard .silent () someSquare := by
  have within : (⟨1, Nat.one_pos⟩ : Limit).maxCycles ≤ Limit.standard.maxCycles := by decide
  refine ⟨within, rfl, (solve_truncated squares within .silent () someSquare).2 _ rfl rfl, ?_⟩
  have converged : ∃ excluded, (solve squares .standard .silent () someSquare).result =
      .ok ⟨.convergedStable, 2, 1, excluded⟩ := ⟨_, rfl⟩
  obtain ⟨excluded, converged⟩ := converged
  refine (solve_truncated squares (by decide) .silent () someSquare).1 ?_
  intro solution solved
  obtain rfl := Except.ok.inj (converged.symm.trans solved)
  simp

end Narrowing
