import Narrowing.Proofs.Equation.Ranking
import Narrowing.Proofs.Equation.Validity

/-!
The choice of a target. An equation without defect that applies to a store chooses a form: its
target is a member that is not exact, and every other member is known.
-/
namespace Narrowing

section
variable {ε α β : Type} {f : α → Except ε β}

theorem mapM_cons_ok_iff (a : α) (rest : List α) (bs : List β) :
    (a :: rest).mapM f = .ok bs ↔ ∃ b later, f a = .ok b ∧ rest.mapM f = .ok later ∧
      bs = b :: later := by
  rw [List.mapM_cons]
  cases f a with
  | error e => simp [bind, Except.bind]
  | ok b =>
    cases rest.mapM f with
    | error e => simp [bind, Except.bind]
    | ok later => simp [bind, Except.bind, pure, Except.pure, eq_comm]

theorem mapM_ok_of_forall {l : List α} (each : ∀ a ∈ l, ∃ b, f a = .ok b) :
    ∃ bs, l.mapM f = .ok bs := by
  induction l with
  | nil => exact ⟨[], rfl⟩
  | cons a rest ih =>
    obtain ⟨⟨b, first⟩, later⟩ := List.forall_mem_cons.mp each
    obtain ⟨bs, collected⟩ := ih later
    exact ⟨b :: bs, (mapM_cons_ok_iff a rest _).mpr ⟨b, bs, first, collected, rfl⟩⟩

theorem mapM_ok_mem {l : List α} {bs : List β} (collected : l.mapM f = .ok bs) :
    (∀ b ∈ bs, ∃ a ∈ l, f a = .ok b) ∧ (∀ a ∈ l, ∃ b ∈ bs, f a = .ok b) := by
  induction l generalizing bs with
  | nil =>
    obtain rfl := Except.ok.inj collected
    simp
  | cons a rest ih =>
    obtain ⟨b, later, first, remaining, rfl⟩ := (mapM_cons_ok_iff a rest bs).mp collected
    obtain ⟨origin, image⟩ := ih remaining
    constructor
    · intro c member
      rcases List.mem_cons.mp member with rfl | member
      · exact ⟨a, by simp, first⟩
      · obtain ⟨d, hd, value⟩ := origin c member
        exact ⟨d, by simp [hd], value⟩
    · intro c member
      rcases List.mem_cons.mp member with rfl | member
      · exact ⟨b, by simp, first⟩
      · obtain ⟨d, hd, value⟩ := image c member
        exact ⟨d, by simp [hd], value⟩

theorem mapM_ok_split {l : List α} {before after : List β} {b : β}
    (collected : l.mapM f = .ok (before ++ b :: after)) :
    ∃ first a rest, l = first ++ a :: rest ∧ first.mapM f = .ok before ∧ f a = .ok b := by
  induction before generalizing l with
  | nil =>
    cases l with
    | nil => simp [pure, Except.pure] at collected
    | cons a rest =>
      obtain ⟨b', later, value, _, same⟩ := (mapM_cons_ok_iff a rest _).mp collected
      obtain ⟨rfl, _⟩ := List.cons.inj same
      exact ⟨[], a, rest, rfl, rfl, value⟩
  | cons b₀ before ih =>
    cases l with
    | nil => simp [pure, Except.pure] at collected
    | cons a rest =>
      obtain ⟨b', later, value, remaining, same⟩ := (mapM_cons_ok_iff a rest _).mp collected
      obtain ⟨rfl, rfl⟩ := List.cons.inj same
      obtain ⟨first, c, last, rfl, collected, found⟩ := ih remaining
      refine ⟨a :: first, c, last, rfl, ?_, found⟩
      exact (mapM_cons_ok_iff a first _).mpr ⟨b₀, before, value, collected, rfl⟩

theorem mapM_error {l : List α} {e : ε} (failed : l.mapM f = .error e) :
    ∃ first a rest bs, l = first ++ a :: rest ∧ first.mapM f = .ok bs ∧ f a = .error e := by
  induction l with
  | nil => simp [pure, Except.pure] at failed
  | cons a rest ih =>
    rw [List.mapM_cons] at failed
    cases value : f a with
    | error cause =>
      simp only [value, bind, Except.bind] at failed
      obtain rfl := Except.error.inj failed
      exact ⟨[], a, rest, [], rfl, rfl, value⟩
    | ok b =>
      cases later : rest.mapM f with
      | error cause =>
        simp only [value, later, bind, Except.bind] at failed
        obtain rfl := Except.error.inj failed
        obtain ⟨first, c, last, bs, rfl, collected, found⟩ := ih later
        refine ⟨a :: first, c, last, b :: bs, rfl, ?_, found⟩
        exact (mapM_cons_ok_iff a first _).mpr ⟨b, bs, value, collected, rfl⟩
      | ok bs => simp [value, later, bind, Except.bind, pure, Except.pure] at failed

end

namespace Equation

theorem open_of_unknown {store : Store} {member : String}
    (unknown : isUnknown store member = true) : isOpen store member = true := by
  unfold isUnknown at unknown
  unfold isOpen
  cases found : store.find? member with
  | none => rfl
  | some v =>
    simp only [found] at unknown ⊢
    have precision : v.precision = .unconstrained := by simpa using unknown
    simp [precision]

theorem find_of_known {store : Store} {member : String}
    (known : isUnknown store member = false) :
    ∃ v, store.find? member = some v ∧ v.precision ≠ .unconstrained := by
  unfold isUnknown at known
  cases found : store.find? member with
  | none => simp [found] at known
  | some v => exact ⟨v, rfl, by simpa [found] using known⟩

theorem leastKnownMember_foremost {e : Equation} {store : Store} (nonempty : e.members ≠ [])
    (known : ∀ m ∈ e.members, isUnknown store m = false) :
    ∃ before m after v, e.members = before ++ m :: after ∧ store.find? m = some v ∧
      (∀ n ∈ before, ∀ w, store.find? n = some w → v.ranksBefore w = true) ∧
      (∀ n ∈ e.members, ∀ w, store.find? n = some w → ¬ w.ranksBefore v = true) ∧
      e.leastKnownMember store =
        if v.precision = .finite then .error ⟨e.name, .targetFinite m⟩ else .ok m := by
  have present : ∀ m ∈ e.members, ∃ v, store.get m = .ok v := by
    intro m member
    obtain ⟨v, found, _⟩ := find_of_known (known m member)
    exact ⟨v, Store.get_of_find found⟩
  obtain ⟨vs, collected⟩ := mapM_ok_of_forall present
  have listed : ∀ {names : List String} {ws : List Variable}, names.mapM store.get = .ok ws →
      ∀ n ∈ names, ∀ w, store.find? n = some w → w ∈ ws := by
    intro names ws collected n member w found
    obtain ⟨u, hu, got⟩ := (mapM_ok_mem collected).2 n member
    rw [Store.get_of_find found] at got
    rwa [Except.ok.inj got]
  cases vs with
  | nil =>
    obtain ⟨m, member⟩ := List.exists_mem_of_ne_nil _ nonempty
    obtain ⟨v, found, _⟩ := find_of_known (known m member)
    exact absurd (listed collected m member v found) (by simp)
  | cons first rest =>
    have foremost := Variable.foldl_foremost rest first
    have least := foremost.least
    generalize chosen : rest.foldl (fun best w => if w.ranksBefore best then w else best) first = v
      at foremost least
    obtain ⟨earlier, later, split, order, _⟩ := foremost
    rw [split] at collected
    obtain ⟨before, m, after, members, collected', got⟩ := mapM_ok_split collected
    have found := Store.find_of_get got
    refine ⟨before, m, after, v, members, found, ?_, ?_, ?_⟩
    · intro n member w held
      exact order w (listed collected' n member w held)
    · intro n member w held
      exact least w (by rw [split]; exact listed collected n member w held)
    · unfold leastKnownMember
      rw [← split] at collected
      simp only [collected, leastKnown?, chosen, Store.name_of_find found]

theorem leastKnownMember_ok {e : Equation} {store : Store}
    (known : ∀ m ∈ e.members, isUnknown store m = false)
    (someOpen : e.members.any (isOpen store) = true) :
    ∃ m, e.leastKnownMember store = .ok m ∧ m ∈ e.members ∧ isOpen store m = true := by
  obtain ⟨n, member, opened⟩ := List.any_eq_true.mp someOpen
  obtain ⟨before, m, after, v, members, found, _, least, chosen⟩ :=
    leastKnownMember_foremost (List.ne_nil_of_mem member) known
  obtain ⟨w, held, _⟩ := find_of_known (known n member)
  have notFinite : v.precision ≠ .finite := by
    intro finite
    have openW : w.precision ≠ .finite := by simpa [isOpen, held] using opened
    have order := least n member w held
    rw [Variable.ranksBefore_iff, finite] at order
    cases exactly : w.precision <;> simp_all [Precision.rank]
  refine ⟨m, ?_, by simp [members], by simp [isOpen, found, notFinite]⟩
  rw [chosen, if_neg notFinite]

/-- An equation that applies has a target, which is open, and knows its other members. -/
theorem target_of_applies {e : Equation} {store : Store} (applies : e.applies store = true) :
    ∃ m, e.target store = .ok m ∧ m ∈ e.members ∧ isOpen store m = true ∧
      ∀ n ∈ e.members, n ≠ m → isUnknown store n = false := by
  obtain ⟨someOpen, few⟩ := Bool.and_eq_true_iff.mp applies
  have few := of_decide_eq_true few
  unfold target
  cases unknowns : e.unknowns store with
  | nil =>
    have known : ∀ m ∈ e.members, isUnknown store m = false := by
      intro m member
      simpa using List.filter_eq_nil_iff.mp unknowns m member
    obtain ⟨m, least, member, opened⟩ := leastKnownMember_ok known someOpen
    exact ⟨m, least, member, opened, fun n hn _ => known n hn⟩
  | cons m rest =>
    rw [unknowns] at few
    rw [List.length_cons] at few
    have none : rest = [] := List.length_eq_zero_iff.mp (by omega)
    subst rest
    have unknown : m ∈ e.members.filter (isUnknown store) := by
      change m ∈ e.unknowns store
      simp [unknowns]
    obtain ⟨member, unknown⟩ := List.mem_filter.mp unknown
    refine ⟨m, rfl, member, open_of_unknown unknown, ?_⟩
    intro n hn other
    rw [Bool.eq_false_iff]
    intro unknown'
    have listed : n ∈ e.unknowns store := List.mem_filter.mpr ⟨hn, unknown'⟩
    rw [unknowns] at listed
    exact other (by simpa using listed)

theorem form_of_member {e : Equation} {m : String} (valid : e.fault? = none)
    (member : m ∈ e.members) : ∃ f, e.form m = .ok f ∧ f.target = m := by
  have formed := (((fault_none_iff e).mp valid).matched m).mpr member
  rw [← Roster.contains_iff_mem_keys] at formed
  obtain ⟨f, found⟩ := Option.isSome_iff_exists.mp formed
  refine ⟨f, ?_, Roster.key_of_find found⟩
  unfold form
  rw [found]

theorem form_found {e : Equation} {m : String} {f : Form} (form : e.form m = .ok f) :
    f ∈ e.forms.entries ∧ f.target = m := by
  unfold Equation.form at form
  split at form
  · rename_i found
    obtain rfl := Except.ok.inj form
    exact ⟨Roster.mem_of_find found, Roster.key_of_find found⟩
  · simp at form

theorem chooseForm_found {e : Equation} {store : Store} {f : Form}
    (chosen : e.chooseForm store = .ok f) : f ∈ e.forms.entries := by
  unfold chooseForm at chosen
  split at chosen
  · simp at chosen
  · exact (form_found chosen).1

theorem chooseForm_of_applies {e : Equation} {store : Store} (valid : e.fault? = none)
    (applies : e.applies store = true) :
    ∃ f, e.chooseForm store = .ok f ∧ e.form f.target = .ok f ∧ f.target ∈ e.members ∧
      isOpen store f.target = true ∧
      ∀ n ∈ e.members, n ≠ f.target → isUnknown store n = false := by
  obtain ⟨m, target, member, opened, known⟩ := target_of_applies applies
  obtain ⟨f, form, rfl⟩ := form_of_member valid member
  refine ⟨f, ?_, form, member, opened, known⟩
  unfold chooseForm
  rw [target]
  exact form

end Equation

end Narrowing
