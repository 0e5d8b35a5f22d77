import Narrowing.Proofs.Equation.Corner
import Narrowing.Proofs.Number.Infinities

/-!
Sampling a form. Where every member but the target is known, a form is called at the corners of
their box one after the other, until it fails; the corners are counted in binary, each ranged member
having a digit. If it fails nowhere, the result is the number that all outputs are equal to, or the
interval from the least to the greatest of them. Where a member is not known, no call is made.
-/
namespace Narrowing

namespace Corner

def ranged (store : Store) (members : List String) : List String :=
  members.filter fun m => (store.find? m).any fun v => v.value.scalar?.isNone

def atEnds (store : Store) (members : List String) (upper : String → Bool) : Inputs Float where
  find? name :=
    if name ∈ members then
      (store.find? name).map fun v => if upper name then v.value.bounds.hi else v.value.bounds.lo
    else none

/-- The choice of ends that a number stands for: each ranged member has one of its binary digits,
    a later member a higher digit, and is at its upper end where that is one. -/
def upperAt (ranged : List String) (number : Nat) (member : String) : Bool :=
  number.testBit (ranged.idxOf member)

def numbered (store : Store) (members : List String) : List (Inputs Float) :=
  (List.range (2 ^ (ranged store members).length)).map fun number =>
    atEnds store members (upperAt (ranged store members) number)

theorem mem_ranged {store : Store} {members : List String} {m : String} {v : Variable}
    (found : store.find? m = some v) :
    m ∈ ranged store members ↔ m ∈ members ∧ ∃ range, v.value = .interval range := by
  cases value : v.value with
  | scalar x => simp [ranged, found, value, Value.scalar?]
  | interval range => simp [ranged, found, value, Value.scalar?]

theorem atEnds_congr {store : Store} {members : List String} {upper upper' : String → Bool}
    (agree : ∀ m ∈ ranged store members, upper m = upper' m) :
    atEnds store members upper = atEnds store members upper' := by
  ext1
  funext name
  simp only [atEnds]
  by_cases member : name ∈ members
  · rw [if_pos member, if_pos member]
    cases found : store.find? name with
    | none => rfl
    | some v =>
      cases value : v.value with
      | scalar x => simp [value, Value.bounds]
      | interval range => simp [agree name ((mem_ranged found).mpr ⟨member, range, value⟩)]
  · rw [if_neg member, if_neg member]

theorem atEnds_snoc {store : Store} {members : List String} {last : String} {v : Variable}
    (found : store.find? last = some v) (upper : String → Bool) :
    atEnds store (members ++ [last]) upper = (atEnds store members upper).bind last
      (if upper last then v.value.bounds.hi else v.value.bounds.lo) := by
  ext1
  funext name
  rw [Inputs.find?_bind]
  by_cases same : name = last
  · simp [atEnds, same, found]
  · simp [atEnds, same]

theorem ranged_snoc_scalar {store : Store} {last : String} {v : Variable} {x : Float}
    (found : store.find? last = some v) (value : v.value = .scalar x) (members : List String) :
    ranged store (members ++ [last]) = ranged store members := by
  simp [ranged, found, value, Value.scalar?]

theorem ranged_snoc_interval {store : Store} {last : String} {v : Variable} {range : Interval}
    (found : store.find? last = some v) (value : v.value = .interval range)
    (members : List String) :
    ranged store (members ++ [last]) = ranged store members ++ [last] := by
  simp [ranged, found, value, Value.scalar?]

/-- One more ranged member doubles the corners, those at its upper end coming second. -/
theorem numbered_snoc_interval {store : Store} {members : List String} {last : String}
    {v : Variable} {range : Interval} (found : store.find? last = some v)
    (value : v.value = .interval range) (fresh : last ∉ members) :
    numbered store (members ++ [last]) =
      (numbered store members).map (·.bind last range.lo) ++
        (numbered store members).map (·.bind last range.hi) := by
  have unranged : last ∉ ranged store members := fun member => fresh (List.mem_filter.mp member).1
  have place : (ranged store members ++ [last]).idxOf last = (ranged store members).length := by
    rw [List.idxOf_append_of_notMem unranged]
    simp
  have earlier : ∀ m ∈ ranged store members,
      (ranged store members ++ [last]).idxOf m = (ranged store members).idxOf m :=
    fun m member => List.idxOf_append_of_mem member
  have below : ∀ m ∈ ranged store members,
      (ranged store members).idxOf m < (ranged store members).length :=
    fun m member => List.idxOf_lt_length_iff.mpr member
  unfold numbered
  rw [ranged_snoc_interval found value, List.length_append, List.length_singleton, pow_succ,
    Nat.mul_two, List.range_add, List.map_append, List.map_map, List.map_map, List.map_map]
  congr 1
  · -- the numbers below the new digit have a zero there
    refine List.map_congr_left fun number bound => ?_
    rw [List.mem_range] at bound
    simp only [Function.comp_apply]
    rw [atEnds_snoc found, value]
    have digit : upperAt (ranged store members ++ [last]) number last = false := by
      rw [upperAt, place]
      exact Nat.testBit_lt_two_pow bound
    rw [digit]
    congr 1
    refine atEnds_congr fun m member => ?_
    rw [upperAt, upperAt, earlier m member]
  · refine List.map_congr_left fun number bound => ?_
    rw [List.mem_range] at bound
    simp only [Function.comp_apply]
    rw [atEnds_snoc found, value]
    have digit : upperAt (ranged store members ++ [last])
        (2 ^ (ranged store members).length + number) last = true := by
      rw [upperAt, place, Nat.testBit_two_pow_add_eq, Nat.testBit_lt_two_pow bound]
      rfl
    rw [digit]
    congr 1
    refine atEnds_congr fun m member => ?_
    rw [upperAt, upperAt, earlier m member, Nat.testBit_two_pow_add_gt (below m member)]

theorem numbered_snoc_scalar {store : Store} {members : List String} {last : String}
    {v : Variable} {x : Float} (found : store.find? last = some v) (value : v.value = .scalar x) :
    numbered store (members ++ [last]) = (numbered store members).map (·.bind last x) := by
  unfold numbered
  rw [ranged_snoc_scalar found value, List.map_map]
  refine List.map_congr_left fun number _ => ?_
  simp only [Function.comp_apply]
  rw [atEnds_snoc found, value]
  simp [Value.bounds]

theorem ofMembers_numbered {store : Store} {members : List String} (distinct : members.Nodup)
    (known : ∀ m ∈ members, Equation.isUnknown store m = false) :
    ofMembers store members = .ok (numbered store members) := by
  rw [ofMembers_spanned known]
  congr 1
  induction members using List.reverseRecOn with
  | nil => simp [spanned, numbered, ranged, atEnds, Inputs.empty]
  | append_singleton members last ih =>
    obtain ⟨distinct, _, fresh⟩ := List.nodup_append.mp distinct
    have fresh : last ∉ members := fun member => fresh last member last (by simp) rfl
    obtain ⟨v, found, _⟩ := Equation.find_of_known (known last (by simp))
    have earlier := ih distinct fun m member => known m (by simp [member])
    have ends : endsIn store last = v.value.ends := by simp [endsIn, found]
    rw [spanned_snoc, ends, earlier]
    cases value : v.value with
    | scalar x => simp [Value.ends, numbered_snoc_scalar found value]
    | interval range => simp [Value.ends, numbered_snoc_interval found value fresh]

/-- Every choice of ends has exactly one number; and of two numbers the smaller has the lower end of
    the last member at which their choices differ, so that later members vary slowest. -/
structure CountsChoices (ranged : List String) : Prop where
  once : ∀ choice : String → Bool, ∃! number, number < 2 ^ ranged.length ∧
    ∀ m ∈ ranged, upperAt ranged number m = choice m
  slowest : ∀ i j, i < j → j < 2 ^ ranged.length → ∃ before m after,
    ranged = before ++ m :: after ∧ upperAt ranged i m = false ∧ upperAt ranged j m = true ∧
    ∀ n ∈ after, upperAt ranged i n = upperAt ranged j n

theorem deciding_digit {i j : Nat} (order : i < j) :
    ∃ d, i.testBit d = false ∧ j.testBit d = true ∧ ∀ e, d < e → i.testBit e = j.testBit e := by
  have differ : i ^^^ j ≠ 0 := by
    intro same
    have equal := Nat.xor_eq_zero_iff.mp same
    omega
  obtain ⟨d, set, above⟩ := Nat.exists_most_significant_bit differ
  have agree : ∀ e, d < e → i.testBit e = j.testBit e := by
    intro e higher
    have clear := above e higher
    rw [Nat.testBit_xor] at clear
    simpa using clear
  rw [Nat.testBit_xor] at set
  cases digit : i.testBit d with
  | false => exact ⟨d, digit, by simpa [digit] using set, agree⟩
  | true =>
    have zero : j.testBit d = false := by simpa [digit] using set
    have reversed := Nat.lt_of_testBit d zero digit fun e higher => (agree e higher).symm
    omega

theorem counts_choices {ranged : List String} (distinct : ranged.Nodup) :
    CountsChoices ranged where
  once := by
    intro choice
    refine ⟨Nat.ofBits fun d : Fin ranged.length => choice ranged[d], ⟨?_, ?_⟩, ?_⟩
    · exact Nat.ofBits_lt_two_pow _
    · intro m member
      have bound := List.idxOf_lt_length_iff.mpr member
      rw [upperAt, Nat.testBit_ofBits_lt _ _ bound]
      exact congrArg choice (List.getElem_idxOf bound)
    · rintro number ⟨bound, chosen⟩
      refine Nat.eq_of_testBit_eq fun d => ?_
      rw [Nat.testBit_ofBits]
      split
      · rename_i inside
        have digit := chosen ranged[d] (List.getElem_mem inside)
        rwa [upperAt, distinct.idxOf_getElem d inside] at digit
      · rename_i outside
        exact Nat.testBit_lt_two_pow
          (Nat.lt_of_lt_of_le bound (Nat.pow_le_pow_right (by decide) (by omega)))
  slowest := by
    intro i j order bound
    obtain ⟨d, zero, one, agree⟩ := deciding_digit order
    have inside : d < ranged.length := by
      by_contra outside
      have clear := Nat.testBit_lt_two_pow
        (Nat.lt_of_lt_of_le bound (Nat.pow_le_pow_right (by decide) (Nat.not_lt.mp outside)))
      simp [one] at clear
    refine ⟨ranged.take d, ranged[d], ranged.drop (d + 1), ?_, ?_, ?_, ?_⟩
    · rw [List.getElem_cons_drop, List.take_append_drop]
    · rw [upperAt, distinct.idxOf_getElem d inside]
      exact zero
    · rw [upperAt, distinct.idxOf_getElem d inside]
      exact one
    · intro n member
      obtain ⟨k, short, rfl⟩ := List.getElem_of_mem member
      rw [List.getElem_drop, upperAt, upperAt, distinct.idxOf_getElem]
      exact agree _ (by omega)

inductive Collapsed (target : String) (outputs : List Float) : Except EquationFault Value → Prop
  | agreed {x : Float} (member : x ∈ outputs) (equal : ∀ y ∈ outputs, (y == x) = true)
      (finite : x.isFinite = true) : Collapsed target outputs (.ok (.scalar x))
  | infinite {x : Float} (member : x ∈ outputs) (equal : ∀ y ∈ outputs, (y == x) = true)
      (infinite : x.isFinite = false) : Collapsed target outputs (.error (.nonFinite target))
  | spread {range : Interval} (least : range.lo ∈ outputs) (greatest : range.hi ∈ outputs)
      (between : ∀ y ∈ outputs, range.Contains y) (apart : (range.lo == range.hi) = false) :
      Collapsed target outputs (.ok (.interval range))

/- The fold starts at an infinity, which is the result only if all outputs are that infinity. -/
theorem least_mem {outputs : List Float} (numbers : ∀ x ∈ outputs, x.isNaN = false)
    (nonempty : outputs ≠ []) : outputs.foldl min infinity ∈ outputs := by
  obtain ⟨number, least⟩ := foldl_min_spec numbers
  rcases List.mem_cons.mp (foldl_mem min_number_chooses outputs infinity) with start | member
  · obtain ⟨x, member⟩ := List.exists_mem_of_ne_nil outputs nonempty
    have above := ((least _).mp (number_le_refl number)).2 x member
    rw [start] at above ⊢
    rwa [← eq_infinity_of_le above]
  · exact member

theorem greatest_mem {outputs : List Float} (numbers : ∀ x ∈ outputs, x.isNaN = false)
    (nonempty : outputs ≠ []) : outputs.foldl max (-infinity) ∈ outputs := by
  obtain ⟨number, greatest⟩ := foldl_max_spec numbers
  rcases List.mem_cons.mp (foldl_mem max_number_chooses outputs (-infinity)) with start | member
  · obtain ⟨x, member⟩ := List.exists_mem_of_ne_nil outputs nonempty
    have below := ((greatest _).mp (number_le_refl number)).2 x member
    rw [start] at below ⊢
    rwa [← eq_neg_infinity_of_le below]
  · exact member

theorem collapse_collapsed (target : String) {outputs : List Float}
    (numbers : ∀ x ∈ outputs, x.isNaN = false) (nonempty : outputs ≠ []) :
    Collapsed target outputs (collapse target outputs) := by
  obtain ⟨loNumber, least⟩ := foldl_min_spec numbers
  obtain ⟨hiNumber, greatest⟩ := foldl_max_spec numbers
  have loMember := least_mem numbers nonempty
  have hiMember := greatest_mem numbers nonempty
  have above := ((least _).mp (number_le_refl loNumber)).2
  have below := ((greatest _).mp (number_le_refl hiNumber)).2
  unfold collapse
  generalize outputs.foldl min infinity = lo at *
  generalize outputs.foldl max (-infinity) = hi at *
  simp only
  by_cases agreed : (lo == hi) = true
  · have equal : ∀ y ∈ outputs, (y == lo) = true := by
      intro y member
      have back := number_le_trans (below y member) ((number_beq_iff _ _).mp agreed).2
      exact (number_beq_iff _ _).mpr ⟨back, above y member⟩
    rw [if_pos agreed]
    split
    · rename_i finite
      exact .agreed loMember equal finite
    · rename_i infinite
      exact .infinite loMember equal (by simpa using infinite)
  · have order := above hi hiMember
    rw [if_neg agreed]
    simp only [Interval.ofEnds, loNumber, hiNumber, order, Bool.or_self, Bool.false_eq_true,
      ↓reduceIte, ↓reduceDIte]
    exact .spread loMember hiMember (fun y member => ⟨above y member, below y member⟩)
      (by simpa using agreed)

def outputWith {m : Type → Type} [Monad m] (target : String)
    (call : Inputs Float → m (Except UnboundInput Float)) (corner : Inputs Float) :
    ExceptT EquationFault m Float := do
  let answer ← call corner
  output ⟨target, fun _ => answer⟩ corner

def evaluateWith {m : Type → Type} [Monad m] (members : List String) (target : String)
    (call : Inputs Float → m (Except UnboundInput Float)) (store : Store) :
    ExceptT EquationFault m Evaluation := do
  let corners ← ofMembers store (members.filter (· ≠ target))
  let outputs ← corners.mapM (outputWith target call)
  let value ← collapse target outputs
  return ⟨target, value, corners.length⟩

/- Binding in the two monads that are used, so that no proof has to open the transformer. -/

theorem run_bind {α β : Type} (x : ExceptT EquationFault Id α)
    (g : α → ExceptT EquationFault Id β) :
    (x >>= g).run = Except.bind x.run fun a => (g a).run := by
  rw [ExceptT.run_bind]
  cases x.run with
  | error fault => rfl
  | ok a => rfl

/-- A form whose calls do nothing but answer is evaluated as ever: this is the same evaluation,
    whatever else its calls do. -/
theorem evaluateWith_pure (members : List String) (f : Form) (store : Store) :
    (evaluateWith (m := Id) members f.target f.rule store).run = evaluate members f store := by
  have same : ∀ corners : List (Inputs Float),
      (corners.mapM (outputWith (m := Id) f.target f.rule)).run = corners.mapM (output f) := by
    intro corners
    induction corners with
    | nil => rfl
    | cons corner rest ih =>
      rw [List.mapM_cons, List.mapM_cons, run_bind, ← ih]
      congr 1
      funext x
      rw [run_bind]
      rfl
  unfold evaluateWith evaluate
  rw [run_bind]
  congr 1
  funext corners
  rw [run_bind, same]
  congr 1
  funext outputs
  rw [run_bind]
  rfl

end Corner

abbrev Noted := ExceptT EquationFault (StateM (List (Inputs Float)))

def Form.noting (f : Form) (inputs : Inputs Float) :
    StateM (List (Inputs Float)) (Except UnboundInput Float) := do
  modify (· ++ [inputs])
  return f.rule inputs

def Equation.computeNoting (e : Equation) (f : Form) (store : Store) :
    Except EquationError Evaluation × List (Inputs Float) :=
  let noted := (Corner.evaluateWith e.members f.target f.noting store).run.run []
  (noted.1.mapError (⟨e.name, ·⟩), noted.2)

namespace Noted
variable {α β : Type} {x : Noted α} {g : α → Noted β} {calls calls' : List (Inputs Float)}

theorem lift_run (result : Except EquationFault α) (calls : List (Inputs Float)) :
    (liftM result : Noted α).run.run calls = (result, calls) := rfl

theorem bind_ok {a : α} (first : x.run.run calls = (.ok a, calls')) :
    (x >>= g).run.run calls = (g a).run.run calls' := by
  rw [ExceptT.run_bind, StateT.run_bind, first]
  rfl

theorem bind_error {fault : EquationFault} (first : x.run.run calls = (.error fault, calls')) :
    (x >>= g).run.run calls = (.error fault, calls') := by
  rw [ExceptT.run_bind, StateT.run_bind, first]
  rfl

end Noted

namespace Corner
variable {members : List String} {f : Form} {store : Store}

theorem outputWith_noting (f : Form) (corner : Inputs Float) (calls : List (Inputs Float)) :
    (outputWith f.target f.noting corner).run.run calls = (output f corner, calls ++ [corner]) := by
  rfl

theorem mapM_noting_ok {corners : List (Inputs Float)} {outputs : List Float}
    (collected : corners.mapM (output f) = .ok outputs) (calls : List (Inputs Float)) :
    (corners.mapM (outputWith f.target f.noting)).run.run calls =
      (.ok outputs, calls ++ corners) := by
  induction corners generalizing outputs calls with
  | nil =>
    obtain rfl := Except.ok.inj collected
    rw [List.append_nil]
    rfl
  | cons corner rest ih =>
    obtain ⟨x, later, first, remaining, rfl⟩ := (mapM_cons_ok_iff _ _ _).mp collected
    have now : (outputWith f.target f.noting corner).run.run calls =
        (.ok x, calls ++ [corner]) := by
      rw [outputWith_noting, first]
    rw [List.mapM_cons, Noted.bind_ok now, Noted.bind_ok (ih remaining _), List.append_assoc]
    rfl

theorem mapM_noting_error {before after : List (Inputs Float)} {corner : Inputs Float}
    {outputs : List Float} {fault : EquationFault}
    (collected : before.mapM (output f) = .ok outputs) (failed : output f corner = .error fault)
    (calls : List (Inputs Float)) :
    ((before ++ corner :: after).mapM (outputWith f.target f.noting)).run.run calls =
      (.error fault, calls ++ before ++ [corner]) := by
  have now : (outputWith f.target f.noting corner).run.run (calls ++ before) =
      (.error fault, calls ++ before ++ [corner]) := by
    rw [outputWith_noting, failed]
  rw [List.mapM_append, List.mapM_cons, Noted.bind_ok (mapM_noting_ok collected calls)]
  exact Noted.bind_error (Noted.bind_error now)

theorem noted_blocked {fault : EquationFault}
    (blocked : ofMembers store (f.others members) = .error fault) :
    (evaluateWith members f.target f.noting store).run.run [] = (.error fault, []) := by
  unfold Form.others at blocked
  unfold evaluateWith
  rw [blocked]
  rfl

theorem noted_failed {before after : List (Inputs Float)} {corner : Inputs Float}
    {outputs : List Float} {fault : EquationFault}
    (listed : ofMembers store (f.others members) = .ok (before ++ corner :: after))
    (collected : before.mapM (output f) = .ok outputs)
    (failed : output f corner = .error fault) :
    (evaluateWith members f.target f.noting store).run.run [] =
      (.error fault, before ++ [corner]) := by
  unfold Form.others at listed
  unfold evaluateWith
  rw [listed]
  exact (Noted.bind_ok (Noted.lift_run _ _)).trans
    (Noted.bind_error (mapM_noting_error collected failed []))

theorem noted_collected {corners : List (Inputs Float)} {outputs : List Float}
    (listed : ofMembers store (f.others members) = .ok corners)
    (collected : corners.mapM (output f) = .ok outputs) :
    (evaluateWith members f.target f.noting store).run.run [] =
      ((collapse f.target outputs).map (⟨f.target, ·, corners.length⟩), corners) := by
  unfold Form.others at listed
  unfold evaluateWith
  rw [listed]
  refine (Noted.bind_ok (Noted.lift_run _ _)).trans ?_
  refine (Noted.bind_ok (mapM_noting_ok collected [])).trans ?_
  cases collapse f.target outputs with
  | error fault => rfl
  | ok value => rfl

theorem ofMembers_blocked {before after : List String} {m : String} {fault : EquationFault}
    (known : ∀ n ∈ before, Equation.isUnknown store n = false)
    (blocked : ∀ corners, extend store corners m = .error fault) :
    ofMembers store (before ++ m :: after) = .error fault := by
  obtain ⟨corners, listed, _⟩ := ofMembers_known known
  unfold ofMembers at listed ⊢
  rw [List.foldlM_append, listed]
  simp [bind, Except.bind, blocked]

theorem extend_missing {m : String} (missing : store.find? m = none)
    (corners : List (Inputs Float)) :
    extend store corners m = .error (.store (.notFound m)) := by
  unfold extend
  rw [Store.get_of_missing missing]

theorem extend_unconstrained {m : String} {v : Variable} (found : store.find? m = some v)
    (nothing : v.precision = .unconstrained) (corners : List (Inputs Float)) :
    extend store corners m = .error (.unconstrainedInput m) := by
  unfold extend
  rw [Store.get_of_find found]
  cases value : v.value with
  | scalar x => simp [Variable.precision, value, Value.precision] at nothing
  | interval range =>
    have whole : range.isUnbounded = true := by
      simpa [Variable.precision, value, Value.precision] using nothing
    simp [value, whole]

end Corner

/-- How a computation ends, and what the form has been called on by then. -/
inductive Sampled (e : Equation) (f : Form) (store : Store) :
    Except EquationError Evaluation → List (Inputs Float) → Prop
  | missing {before after : List String} {m : String}
      (members : f.others e.members = before ++ m :: after)
      (known : ∀ n ∈ before, Equation.isUnknown store n = false)
      (absent : store.find? m = none) :
      Sampled e f store (.error ⟨e.name, .store (.notFound m)⟩) []
  | unconstrained {before after : List String} {m : String} {v : Variable}
      (members : f.others e.members = before ++ m :: after)
      (known : ∀ n ∈ before, Equation.isUnknown store n = false)
      (found : store.find? m = some v) (nothing : v.precision = .unconstrained) :
      Sampled e f store (.error ⟨e.name, .unconstrainedInput m⟩) []
  | unbound {before after : List (Inputs Float)} {corner : Inputs Float} {cause : UnboundInput}
      (known : ∀ m ∈ f.others e.members, Equation.isUnknown store m = false)
      (corners : Corner.numbered store (f.others e.members) = before ++ corner :: after)
      (answered : ∀ c ∈ before, ∃ y, f.rule c = .ok y ∧ y.isNaN = false)
      (failed : f.rule corner = .error cause) :
      Sampled e f store (.error ⟨e.name, .unbound f.target cause⟩) (before ++ [corner])
  | undefined {before after : List (Inputs Float)} {corner : Inputs Float} {x : Float}
      (known : ∀ m ∈ f.others e.members, Equation.isUnknown store m = false)
      (corners : Corner.numbered store (f.others e.members) = before ++ corner :: after)
      (answered : ∀ c ∈ before, ∃ y, f.rule c = .ok y ∧ y.isNaN = false)
      (result : f.rule corner = .ok x) (undefined : x.isNaN = true) :
      Sampled e f store (.error ⟨e.name, .nonFinite f.target⟩) (before ++ [corner])
  | collapsed {outputs : List Float} {value : Except EquationFault Value}
      (known : ∀ m ∈ f.others e.members, Equation.isUnknown store m = false)
      (answered : (Corner.numbered store (f.others e.members)).map f.rule = outputs.map .ok)
      (numbers : ∀ y ∈ outputs, y.isNaN = false)
      (collapsed : Corner.Collapsed f.target outputs value) :
      Sampled e f store
        ((value.map (⟨f.target, ·, 2 ^ (Corner.ranged store (f.others e.members)).length⟩)).mapError
          (⟨e.name, ·⟩))
        (Corner.numbered store (f.others e.members))

namespace Corner
variable {members : List String} {f : Form} {store : Store}

theorem noting_evaluate (members : List String) (f : Form) (store : Store) :
    ((evaluateWith members f.target f.noting store).run.run []).1 = evaluate members f store := by
  cases listed : ofMembers store (f.others members) with
  | error fault =>
    rw [noted_blocked listed]
    unfold Form.others at listed
    simp only [evaluate, listed, bind, Except.bind]
  | ok corners =>
    cases collected : corners.mapM (output f) with
    | error fault =>
      obtain ⟨before, corner, after, outputs, rfl, earlier, failed⟩ := mapM_error collected
      rw [noted_failed listed earlier failed, evaluate_of_output_error listed collected]
    | ok outputs => rw [noted_collected listed collected, evaluate_of_outputs listed collected]

end Corner

theorem sampled_of_unknown {e : Equation} {f : Form} {store : Store} {before after : List String}
    {m : String} (members : f.others e.members = before ++ m :: after)
    (known : ∀ n ∈ before, Equation.isUnknown store n = false)
    (unknown : Equation.isUnknown store m = true) :
    Sampled e f store (e.computeNoting f store).1 (e.computeNoting f store).2 := by
  cases found : store.find? m with
  | none =>
    have blocked : Corner.ofMembers store (f.others e.members) = .error (.store (.notFound m)) := by
      rw [members]
      exact Corner.ofMembers_blocked known (Corner.extend_missing found)
    simp only [Equation.computeNoting, Corner.noted_blocked blocked]
    exact .missing members known found
  | some v =>
    have nothing : v.precision = .unconstrained := by
      simpa [Equation.isUnknown, found] using unknown
    have blocked : Corner.ofMembers store (f.others e.members) =
        .error (.unconstrainedInput m) := by
      rw [members]
      exact Corner.ofMembers_blocked known (Corner.extend_unconstrained found nothing)
    simp only [Equation.computeNoting, Corner.noted_blocked blocked]
    exact .unconstrained members known found nothing

theorem sampled_of_known {e : Equation} (distinct : e.members.Nodup) {f : Form} {store : Store}
    (known : ∀ m ∈ f.others e.members, Equation.isUnknown store m = false) :
    Sampled e f store (e.computeNoting f store).1 (e.computeNoting f store).2 := by
  have listed := Corner.ofMembers_numbered (f.others_nodup distinct) known
  cases collected : (Corner.numbered store (f.others e.members)).mapM (Corner.output f) with
  | error fault =>
    obtain ⟨before, corner, after, outputs, corners, earlier, failed⟩ := mapM_error collected
    have answered : ∀ c ∈ before, ∃ y, f.rule c = .ok y ∧ y.isNaN = false := by
      intro c member
      obtain ⟨y, _, result⟩ := (mapM_ok_mem earlier).2 c member
      exact ⟨y, Corner.answered_of_output result⟩
    have split := listed
    rw [corners] at split
    simp only [Equation.computeNoting, Corner.noted_failed split earlier failed]
    cases answer : f.rule corner with
    | error cause =>
      simp only [Corner.output, answer] at failed
      obtain rfl := Except.error.inj failed
      exact .unbound known corners answered answer
    | ok x =>
      cases undefined : x.isNaN with
      | false => simp [Corner.output_ok answer undefined] at failed
      | true =>
        simp only [Corner.output, answer, undefined, ↓reduceIte] at failed
        obtain rfl := Except.error.inj failed
        exact .undefined known corners answered answer undefined
  | ok outputs =>
    obtain ⟨answered, numbers⟩ := Corner.answered_of_collected collected
    have count : (Corner.numbered store (f.others e.members)).length =
        2 ^ (Corner.ranged store (f.others e.members)).length := by
      simp [Corner.numbered]
    have nonempty : outputs ≠ [] := by
      rintro rfl
      have length := congrArg List.length answered
      simp [count] at length
    have collapsed := Corner.collapse_collapsed f.target numbers nonempty
    simp only [Equation.computeNoting, Corner.noted_collected listed collected, count]
    exact .collapsed known answered numbers collapsed

theorem noted_sampled {e : Equation} (distinct : e.members.Nodup) (f : Form) (store : Store) :
    Sampled e f store (e.computeNoting f store).1 (e.computeNoting f store).2 := by
  cases unknown : (f.others e.members).find? (Equation.isUnknown store) with
  | none =>
    have known := List.find?_eq_none.mp unknown
    exact sampled_of_known distinct fun m member => by simpa using known m member
  | some m =>
    obtain ⟨unknown, before, after, members, known⟩ := List.find?_eq_some_iff_append.mp unknown
    exact sampled_of_unknown members (fun n member => by simpa using known n member) unknown

/-- The result of a computation, and what the form has been called on to find it. The calls are
    written down by the evaluation that computes the result, only run in another monad. -/
theorem compute_sampled {e : Equation} (distinct : e.members.Nodup) (f : Form) (store : Store) :
    (Corner.evaluateWith (m := Id) e.members f.target f.rule store).run =
      Corner.evaluate e.members f store ∧
    (e.computeNoting f store).1 = e.compute f store ∧
    Sampled e f store (e.compute f store) (e.computeNoting f store).2 ∧
    Corner.CountsChoices (Corner.ranged store (f.others e.members)) := by
  have same : (e.computeNoting f store).1 = e.compute f store := by
    simp only [Equation.computeNoting, Equation.compute, Corner.noting_evaluate]
  refine ⟨Corner.evaluateWith_pure e.members f store, same, ?_, ?_⟩
  · rw [← same]
    exact noted_sampled distinct f store
  · exact Corner.counts_choices ((f.others_nodup distinct).filter _)

def Equation.rectangle : Equation :=
  .ofFormulas "rectangle" ["area", "width", "depth"]
    [("area", .mul (.input "width") (.input "depth"))]

def Form.rectangleArea : Form :=
  ⟨"area", fun inputs => (Formula.mul (.input "width") (.input "depth")).eval inputs⟩

def roughSides : Store where
  roster := .ofList
    [(Variable.new "width" .given "m").offer (.interval ⟨⟨1, 2⟩, by decide +kernel⟩),
      (Variable.new "depth" .given "m").offer (.interval ⟨⟨3, 4⟩, by decide +kernel⟩)]

theorem rectangle_sampled :
    Sampled .rectangle .rectangleArea roughSides
      (Equation.rectangle.compute .rectangleArea roughSides)
      (Equation.rectangle.computeNoting .rectangleArea roughSides).2 ∧
    (Equation.rectangle.computeNoting .rectangleArea roughSides).2.map
        (fun inputs => (inputs.find? "width", inputs.find? "depth")) =
      [(some 1, some 3), (some 2, some 3), (some 1, some 4), (some 2, some 4)] := by
  have distinct : Equation.rectangle.members.Nodup := by decide
  exact ⟨(compute_sampled distinct .rectangleArea roughSides).2.2.1, by decide +kernel⟩

end Narrowing
