import Narrowing.Proofs.Solver.Application

/-!
The order of the proposals of one cycle. Two orders that are both taken leave equal values. But an
order may be taken where another is not: an interval that comes after a number has to allow it,
while a number that comes after an interval replaces it unchecked. The order is irrelevant exactly
when proposals that some order reconciles are consistent.
-/
namespace Narrowing
open Application Variable

def Taken (store : Store) (proposals : List Proposal) : Prop :=
  ∃ updates, (applyAll store proposals).outcome = .ok updates

def Store.Agrees (s t : Store) : Prop :=
  ∀ name, match s.find? name, t.find? name with
    | none, none => True
    | some v, some w => (v.value == w.value) = true
    | _, _ => False

theorem Value.Storable.beq_refl {value : Value} (storable : value.Storable) :
    (value == value) = true := by
  cases value with
  | scalar x => exact number_beq_refl (number_of_finite storable)
  | interval range => exact Interval.beq_of_contains_iff fun _ => Iff.rfl

theorem Admissible.perm {store : Store} {ps qs : List Proposal} (perm : qs.Perm ps)
    (admissible : Admissible store ps) : Admissible store qs :=
  admissible.among fun _ member => perm.mem_iff.mp member

theorem valuesFor_append (name : String) (ps qs : List Proposal) :
    valuesFor name (ps ++ qs) = valuesFor name ps ++ valuesFor name qs := by
  simp [valuesFor]

theorem valuesFor_perm {ps qs : List Proposal} (perm : qs.Perm ps) (name : String) (value : Value) :
    value ∈ valuesFor name qs ↔ value ∈ valuesFor name ps := by
  simp only [mem_valuesFor, perm.mem_iff]

theorem taken_iff {store : Store} {ps : List Proposal} (admissible : Admissible store ps) :
    Taken store ps ↔ ∀ name, ∃ w, (store.subject name).meetAll (valuesFor name ps) = .ok w := by
  unfold Taken
  rw [applyAll_eq_steps admissible]
  exact steps_ok_iff store ps

theorem values_storable {store : Store} {ps : List Proposal} (admissible : Admissible store ps)
    (name : String) : ∀ value ∈ valuesFor name ps, value.Storable := by
  intro value member
  obtain ⟨p, hp, _, rfl⟩ := mem_valuesFor.mp member
  exact admissible.values_storable p hp

theorem proposed_or_open {store : Store} {ps : List Proposal} (admissible : Admissible store ps)
    (name : String) :
    valuesFor name ps = [] ∨ ∃ current, (store.subject name).value = .interval current := by
  cases values : valuesFor name ps with
  | nil => exact Or.inl rfl
  | cons value rest =>
    right
    have member : value ∈ valuesFor name ps := by simp [values]
    obtain ⟨p, hp, rfl, _⟩ := mem_valuesFor.mp member
    exact (open_iff_subject store p.target).mp (admissible.targets_open p hp)

theorem reconcilable_of_taken {store : Store} {ps : List Proposal}
    (admissible : Admissible store ps) (taken : Taken store ps) (name : String) :
    Reconcilable (store.subject name).value.bounds (valuesFor name ps) := by
  rcases proposed_or_open admissible name with none | ⟨current, known⟩
  · rw [none]
    exact ⟨by simp, by simp, _, (store.subject name).storable.contains_lo, by simp⟩
  · obtain ⟨w, met⟩ := (taken_iff admissible).mp taken name
    rw [known]
    exact reconcilable_of_meetAll known (values_storable admissible name) met

theorem taken_of_consistent {store : Store} {ps : List Proposal}
    (admissible : Admissible store ps)
    (consistent : ∀ name, Consistent (store.subject name).value.bounds (valuesFor name ps)) :
    Taken store ps := by
  apply (taken_iff admissible).mpr
  intro name
  rcases proposed_or_open admissible name with none | ⟨current, known⟩
  · rw [none]
    exact ⟨_, rfl⟩
  · have here := consistent name
    rw [known] at here
    exact meetAll_of_consistent known (values_storable admissible name) here

def isNumber (p : Proposal) : Bool := p.value.scalar?.isSome

/-- A number that this proposal rules out is proposed for the same target. -/
def excludes (ps : List Proposal) (p : Proposal) : Bool :=
  (valuesFor p.target ps).any fun value =>
    match value with
    | .scalar x => !decide (p.value.bounds.Contains x)
    | .interval _ => false

theorem isNumber_iff (p : Proposal) : isNumber p = true ↔ ∃ x, p.value = .scalar x := by
  unfold isNumber
  cases p.value <;> simp [Value.scalar?]

theorem not_isNumber_iff (p : Proposal) :
    (!isNumber p) = true ↔ ∃ range, p.value = .interval range := by
  unfold isNumber
  cases p.value <;> simp [Value.scalar?]

theorem excludes_iff (ps : List Proposal) (p : Proposal) :
    excludes ps p = true ↔
      ∃ x, .scalar x ∈ valuesFor p.target ps ∧ ¬ p.value.bounds.Contains x := by
  unfold excludes
  rw [List.any_eq_true]
  constructor
  · intro ⟨value, member, missed⟩
    cases value with
    | scalar x => exact ⟨x, member, by simpa using missed⟩
    | interval range => simp at missed
  · intro ⟨x, member, missed⟩
    exact ⟨.scalar x, member, by simpa using missed⟩

theorem exists_map_of_forall {α β : Type} {f : β → α} {l : List α}
    (each : ∀ a ∈ l, ∃ b, a = f b) : ∃ bs : List β, l = bs.map f := by
  induction l with
  | nil => exact ⟨[], rfl⟩
  | cons a rest ih =>
    obtain ⟨⟨b, rfl⟩, later⟩ := List.forall_mem_cons.mp each
    obtain ⟨bs, rfl⟩ := ih later
    exact ⟨b :: bs, rfl⟩

theorem numbers_of_filter (name : String) (ps : List Proposal) :
    ∃ numbers : List Float, valuesFor name (ps.filter isNumber) = numbers.map .scalar := by
  apply exists_map_of_forall
  intro value member
  obtain ⟨p, hp, _, rfl⟩ := mem_valuesFor.mp member
  exact (isNumber_iff p).mp (List.mem_filter.mp hp).2

theorem ranges_of_filter (name : String) (ps : List Proposal) (select : Proposal → Bool) :
    ∃ ranges : List Interval,
      valuesFor name ((ps.filter (!isNumber ·)).filter select) = ranges.map .interval := by
  apply exists_map_of_forall
  intro value member
  obtain ⟨p, hp, _, rfl⟩ := mem_valuesFor.mp member
  exact (not_isNumber_iff p).mp (List.mem_filter.mp (List.mem_filter.mp hp).1).2

def numbersFirst (ps : List Proposal) : List Proposal :=
  ps.filter isNumber ++ ps.filter (!isNumber ·)

def numbersLast (ps : List Proposal) : List Proposal :=
  ps.filter (!isNumber ·) ++ ps.filter isNumber

def numbersBetween (ps : List Proposal) : List Proposal :=
  (ps.filter (!isNumber ·)).filter (excludes ps) ++
    (ps.filter isNumber ++ (ps.filter (!isNumber ·)).filter (!excludes ps ·))

theorem numbersFirst_perm (ps : List Proposal) : (numbersFirst ps).Perm ps :=
  List.filter_append_perm isNumber ps

theorem numbersLast_perm (ps : List Proposal) : (numbersLast ps).Perm ps :=
  List.perm_append_comm.trans (numbersFirst_perm ps)

theorem numbersBetween_perm (ps : List Proposal) : (numbersBetween ps).Perm ps := by
  have ranges := List.filter_append_perm (excludes ps) (ps.filter (!isNumber ·))
  unfold numbersBetween
  apply (List.Perm.append_left _ List.perm_append_comm).trans
  rw [← List.append_assoc]
  exact (ranges.append_right _).trans (numbersLast_perm ps)

theorem numbersBetween_taken {store : Store} {ps : List Proposal}
    (admissible : Admissible store ps)
    (reconcilable : ∀ name, Reconcilable (store.subject name).value.bounds (valuesFor name ps)) :
    Taken store (numbersBetween ps) := by
  have perm := numbersBetween_perm ps
  apply (taken_iff (admissible.perm perm)).mpr
  intro name
  rcases proposed_or_open (admissible.perm perm) name with none | ⟨current, known⟩
  · rw [none]
    exact ⟨_, rfl⟩
  · obtain ⟨early, earlyEq⟩ := ranges_of_filter name ps (excludes ps)
    obtain ⟨late, lateEq⟩ := ranges_of_filter name ps (!excludes ps ·)
    obtain ⟨numbers, numbersEq⟩ := numbers_of_filter name ps
    have split : valuesFor name (numbersBetween ps) =
        early.map .interval ++ (numbers.map .scalar ++ late.map .interval) := by
      unfold numbersBetween
      rw [valuesFor_append, valuesFor_append, earlyEq, lateEq, numbersEq]
    have storable := values_storable (admissible.perm perm) name
    have here := (reconcilable name).congr (valuesFor_perm perm name)
    have among : ∀ x, x ∈ numbers ↔ .scalar x ∈ valuesFor name ps := by
      intro x
      rw [← valuesFor_perm perm, split]
      simp
    have rangeOf : ∀ {select : Proposal → Bool} {ranges : List Interval} {r : Interval},
        valuesFor name ((ps.filter (!isNumber ·)).filter select) = ranges.map .interval →
        r ∈ ranges → ∃ p, p.target = name ∧ p.value = .interval r ∧ select p = true := by
      intro select ranges r eq member
      have proposed : .interval r ∈ ranges.map Value.interval := List.mem_map_of_mem member
      rw [← eq] at proposed
      obtain ⟨p, hp, target, value⟩ := mem_valuesFor.mp proposed
      exact ⟨p, target, value, (List.mem_filter.mp hp).2⟩
    rw [split] at storable here ⊢
    rw [known] at here
    apply meetAll_of_reconcilable known early late numbers
      (fun x member => storable _ (by simp [member])) ?_ ?_ here
    · intro r member
      obtain ⟨p, rfl, value, selected⟩ := rangeOf earlyEq member
      obtain ⟨x, proposed, missed⟩ := (excludes_iff ps p).mp selected
      rw [value] at missed
      exact ⟨x, (among x).mpr proposed, missed⟩
    · intro r member x number
      obtain ⟨p, rfl, value, selected⟩ := rangeOf lateEq member
      apply Classical.byContradiction
      intro missed
      have excluded : excludes ps p = true :=
        (excludes_iff ps p).mpr ⟨x, (among x).mp number, by rw [value]; exact missed⟩
      simp [excluded] at selected

theorem consistent_of_both_taken {store : Store} {ps : List Proposal}
    (admissible : Admissible store ps) (first : Taken store (numbersFirst ps))
    (last : Taken store (numbersLast ps)) (name : String) :
    Consistent (store.subject name).value.bounds (valuesFor name ps) := by
  have permFirst := numbersFirst_perm ps
  have permLast := numbersLast_perm ps
  rcases proposed_or_open admissible name with none | ⟨current, known⟩
  · rw [none]
    exact ⟨by simp, by simp, _, (store.subject name).storable.contains_lo, by simp⟩
  · obtain ⟨ranges, rangesEq⟩ := ranges_of_filter name ps fun _ => true
    rw [List.filter_eq_self.mpr fun _ _ => rfl] at rangesEq
    obtain ⟨numbers, numbersEq⟩ := numbers_of_filter name ps
    obtain ⟨w, metFirst⟩ := (taken_iff (admissible.perm permFirst)).mp first name
    obtain ⟨u, metLast⟩ := (taken_iff (admissible.perm permLast)).mp last name
    have splitFirst : valuesFor name (numbersFirst ps) =
        numbers.map .scalar ++ ranges.map .interval := by
      unfold numbersFirst
      rw [valuesFor_append, numbersEq, rangesEq]
    have splitLast : valuesFor name (numbersLast ps) =
        ranges.map .interval ++ numbers.map .scalar := by
      unfold numbersLast
      rw [valuesFor_append, numbersEq, rangesEq]
    have finite : ∀ x ∈ numbers, (Value.scalar x).Storable := by
      intro x member
      apply values_storable (admissible.perm permLast) name
      rw [splitLast]
      simp [member]
    rw [splitFirst] at metFirst
    rw [splitLast] at metLast
    rw [known]
    apply (consistent_of_orders known ranges numbers finite metFirst metLast).congr
    intro value
    rw [← splitLast]
    exact (valuesFor_perm permLast name value).symm

theorem taken_orders_agree {store : Store} {ps qs : List Proposal}
    (admissible : Admissible store ps) (perm : qs.Perm ps) (first : Taken store ps)
    (second : Taken store qs) : (applyAll store ps).store.Agrees (applyAll store qs).store := by
  unfold Taken at first second
  rw [applyAll_eq_steps admissible] at first ⊢
  rw [applyAll_eq_steps (admissible.perm perm)] at second ⊢
  obtain ⟨_, first⟩ := first
  obtain ⟨_, second⟩ := second
  intro name
  by_cases target : ∃ p ∈ ps, p.target = name
  · obtain ⟨p, member, rfl⟩ := target
    obtain ⟨current, known⟩ :=
      (open_iff_subject store p.target).mp (admissible.targets_open p member)
    obtain ⟨v, foundV⟩ := steps_find_target first member
    obtain ⟨w, foundW⟩ := steps_find_target second (perm.mem_iff.mpr member)
    have metV := steps_subject first p.target
    have metW := steps_subject second p.target
    rw [Store.subject_of_find foundV] at metV
    rw [Store.subject_of_find foundW] at metW
    rw [foundV, foundW]
    exact meetAll_values_agree known (values_storable admissible p.target)
      (fun value => (valuesFor_perm perm p.target value).symm) metV metW
  · have other : ∀ p ∈ ps, p.target ≠ name := fun p member same => target ⟨p, member, same⟩
    have other' : ∀ q ∈ qs, q.target ≠ name := fun q member => other q (perm.mem_iff.mp member)
    rw [steps_find_other first other, steps_find_other second other']
    cases store.find? name with
    | none => trivial
    | some v => exact v.storable.beq_refl

/-- Two orders that are both taken leave equal values, and the order is irrelevant for whether
    proposals are taken exactly when those that some order reconciles are consistent. -/
theorem order_irrelevant_iff (store : Store) (ps : List Proposal)
    (admissible : Admissible store ps) :
    (∀ qs, qs.Perm ps → Taken store ps → Taken store qs →
      (applyAll store ps).store.Agrees (applyAll store qs).store) ∧
    ((∀ qs, qs.Perm ps → (Taken store ps ↔ Taken store qs)) ↔
      ((∀ name, Reconcilable (store.subject name).value.bounds (valuesFor name ps)) →
        ∀ name, Consistent (store.subject name).value.bounds (valuesFor name ps))) := by
  refine ⟨fun qs perm => taken_orders_agree admissible perm, ?_, ?_⟩
  · intro irrelevant reconcilable
    have some := numbersBetween_taken admissible reconcilable
    have taken := (irrelevant _ (numbersBetween_perm ps)).mpr some
    exact consistent_of_both_taken admissible ((irrelevant _ (numbersFirst_perm ps)).mp taken)
      ((irrelevant _ (numbersLast_perm ps)).mp taken)
  · intro settled qs perm
    have admissible' := admissible.perm perm
    constructor
    · intro taken
      apply taken_of_consistent admissible'
      intro name
      exact (settled (reconcilable_of_taken admissible taken) name).congr (valuesFor_perm perm name)
    · intro taken
      apply taken_of_consistent admissible
      apply settled
      intro name
      exact (reconcilable_of_taken admissible' taken name).congr fun value =>
        (valuesFor_perm perm name value).symm

def rangeThenNumber : List Proposal :=
  [⟨"first", ⟨"z", .interval ⟨⟨5.0, 6.0⟩, by decide +kernel⟩, 2⟩⟩,
    ⟨"second", ⟨"z", .scalar 1.0, 1⟩⟩]

theorem rangeThenNumber_admissible : Admissible .empty rangeThenNumber := by
  constructor
  · intro p member
    rfl
  · intro p member
    simp only [rangeThenNumber, List.mem_cons, List.not_mem_nil, or_false] at member
    rcases member with rfl | rfl
    · trivial
    · exact (by decide +kernel : Float.isFinite 1.0 = true)

theorem rangeThenNumber_taken : Taken .empty rangeThenNumber := by
  have ok : (applyAll .empty rangeThenNumber).outcome.isOk = true := by decide +kernel
  unfold Taken
  cases outcome : (applyAll .empty rangeThenNumber).outcome with
  | ok updates => exact ⟨updates, rfl⟩
  | error error => simp [outcome, Except.isOk, Except.toBool] at ok

theorem numberThenRange_refused : ¬ Taken .empty rangeThenNumber.reverse := by
  have failed : (applyAll .empty rangeThenNumber.reverse).outcome.isOk = false := by
    decide +kernel
  intro ⟨updates, outcome⟩
  simp [outcome, Except.isOk, Except.toBool] at failed

theorem order_irrelevant_iff_fails :
    Admissible .empty rangeThenNumber ∧
      ¬ ((∀ name, Reconcilable (Store.empty.subject name).value.bounds
            (valuesFor name rangeThenNumber)) →
          ∀ name, Consistent (Store.empty.subject name).value.bounds
            (valuesFor name rangeThenNumber)) := by
  refine ⟨rangeThenNumber_admissible, fun settled => numberThenRange_refused ?_⟩
  have irrelevant :=
    (order_irrelevant_iff .empty rangeThenNumber rangeThenNumber_admissible).2.mpr settled
  exact (irrelevant _ (List.reverse_perm _)).mp rangeThenNumber_taken

theorem order_of_proposals_matters :
    ∃ store ps qs, Admissible store ps ∧ qs.Perm ps ∧ Taken store ps ∧ ¬ Taken store qs :=
  ⟨.empty, rangeThenNumber, rangeThenNumber.reverse, rangeThenNumber_admissible,
    List.reverse_perm _, rangeThenNumber_taken, numberThenRange_refused⟩

end Narrowing
