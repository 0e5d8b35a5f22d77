import Narrowing.Proofs.Equation.Corner

/-!
What an equation selects. An equation without defect selects a form exactly when it applies. The
target is the unknown member if there is one, and otherwise the first of the narrowest ranges in
the total order of widths. An equation that does not apply names all its unknown members, or else
reports that its members are exact.
-/
namespace Narrowing

def Store.Unknown (s : Store) (name : String) : Prop :=
  ∀ v, s.find? name = some v → v.precision = .unconstrained

namespace Equation

theorem isUnknown_iff (store : Store) (member : String) :
    isUnknown store member = true ↔ store.Unknown member := by
  unfold isUnknown Store.Unknown
  cases store.find? member with
  | none => simp
  | some v => simp

theorem validate_ok_iff (e : Equation) : e.validate = .ok () ↔ e.fault? = none := by
  unfold validate
  cases e.fault? <;> simp

theorem members_of_valid {e : Equation} (valid : e.fault? = none) : e.members ≠ [] := by
  intro none
  simp [fault?, none] at valid

structure Narrowest (e : Equation) (store : Store) (target : String) (v : Variable) : Prop where
  held : store.find? target = some v
  ranged : v.precision = .constrainedRange
  least : ∀ n ∈ e.members, ∀ w, store.find? n = some w → w.precision = .constrainedRange →
    totalRank v.value.width ≤ totalRank w.value.width
  nanLast : v.value.width.isNaN = true → ∀ n ∈ e.members, ∀ w, store.find? n = some w →
    w.precision = .constrainedRange → w.value.width.isNaN = true
  first : ∃ before after, e.members = before ++ target :: after ∧
    ∀ n ∈ before, ∀ w, store.find? n = some w → w.precision = .constrainedRange →
      totalRank w.value.width ≠ totalRank v.value.width

structure Selects (e : Equation) (store : Store) (f : Form) : Prop where
  form : e.form f.target = .ok f
  member : f.target ∈ e.members
  unknown : ∀ m ∈ e.members, store.Unknown m → f.target = m
  narrowest : (∀ m ∈ e.members, ¬ store.Unknown m) → ∃ v, e.Narrowest store f.target v
  notFinite : ∀ v, store.find? f.target = some v → v.precision ≠ .finite
  othersKnown : ∀ n ∈ e.members, n ≠ f.target →
    ∃ v, store.find? n = some v ∧ v.precision ≠ .unconstrained
  failures : ∀ error, e.evaluate store = .error error → error.equation = e.name ∧
    ((∃ cause, error.fault = .unbound f.target cause) ∨ error.fault = .nonFinite f.target)

/-- Why an equation selects nothing: it lists its unknown members when they are two or more, and
    the first of its members when all of them are exact. -/
inductive Rejects (e : Equation) (store : Store) : EquationFault → Prop
  | unknown {unknowns : List String} (inOrder : unknowns.Sublist e.members)
      (exactly : ∀ m, m ∈ unknowns ↔ m ∈ e.members ∧ store.Unknown m)
      (several : 2 ≤ unknowns.length) : Rejects e store (.tooManyUnknown unknowns)
  | exact {member : String} (first : e.members.head? = some member)
      (finite : ∀ m ∈ e.members, ∃ v, store.find? m = some v ∧ v.precision = .finite) :
      Rejects e store (.targetFinite member)

theorem narrowest_of_least {e : Equation} {store : Store} {target : String}
    (nonempty : e.members ≠ []) (known : ∀ m ∈ e.members, isUnknown store m = false)
    (chosen : e.leastKnownMember store = .ok target) : ∃ v, e.Narrowest store target v := by
  obtain ⟨before, m, after, v, members, held, earlier, least, result⟩ :=
    leastKnownMember_foremost nonempty known
  rw [result] at chosen
  split at chosen
  · simp at chosen
  · rename_i notFinite
    obtain rfl := Except.ok.inj chosen
    have ranged : v.precision = .constrainedRange := by
      obtain ⟨w, held', informative⟩ := find_of_known (known m (by simp [members]))
      obtain rfl := Option.some.inj (held.symm.trans held')
      cases precision : v.precision <;> simp_all
    have least : ∀ n ∈ e.members, ∀ w, store.find? n = some w → w.precision = .constrainedRange →
        totalRank v.value.width ≤ totalRank w.value.width := by
      intro n member w held' ranged'
      have order := least n member w held'
      rw [Variable.ranksBefore_iff, ranged, ranged'] at order
      omega
    refine ⟨v, held, ranged, least, ?_, before, after, members, ?_⟩
    · intro nan n member w held' ranged'
      by_contra number
      have below : totalRank w.value.width < totalRank v.value.width :=
        (totalRank_lt_iff w.value.width_unsigned v.value.width_unsigned).mpr
          (Or.inr ⟨eq_false_of_ne_true number, nan⟩)
      exact absurd (least n member w held' ranged') (Int.not_le.mpr below)
    · intro n member w held' ranged'
      have order := earlier n member w held'
      rw [Variable.ranksBefore_iff, ranged, ranged'] at order
      omega

theorem target_of_chosen {e : Equation} {store : Store} {f : Form}
    (chosen : e.chooseForm store = .ok f) : e.target store = .ok f.target := by
  unfold chooseForm at chosen
  split at chosen
  · simp at chosen
  · rename_i found
    rw [found, (form_found chosen).2]

theorem selects_of_applies {e : Equation} {store : Store} (valid : e.fault? = none)
    (applies : e.applies store = true) : ∃ f, e.chooseForm store = .ok f ∧ e.Selects store f := by
  obtain ⟨f, chosen, form, member, opened, known⟩ := chooseForm_of_applies valid applies
  obtain ⟨g, chosen', _, _, failures⟩ := evaluate_of_applies valid applies
  obtain rfl := Except.ok.inj (chosen.symm.trans chosen')
  refine ⟨f, chosen, form, member, ?_, ?_, ?_, ?_, failures⟩
  · intro m hm unknown
    by_contra other
    have := known m hm (Ne.symm other)
    simp [(isUnknown_iff store m).mpr unknown] at this
  · intro none
    have known : ∀ m ∈ e.members, isUnknown store m = false := by
      intro m hm
      rw [Bool.eq_false_iff, ne_eq, isUnknown_iff]
      exact none m hm
    have target := target_of_chosen chosen
    have unknowns : e.unknowns store = [] :=
      List.filter_eq_nil_iff.mpr fun m hm => by simp [known m hm]
    unfold Equation.target at target
    rw [unknowns] at target
    exact narrowest_of_least (members_of_valid valid) known target
  · intro v held
    simpa [isOpen, held] using opened
  · intro n hn other
    exact find_of_known (known n hn other)

theorem known_of_closed {store : Store} {member : String}
    (closed : isOpen store member = false) : isUnknown store member = false := by
  rw [Bool.eq_false_iff] at closed ⊢
  exact fun unknown => closed (open_of_unknown unknown)

theorem finite_of_closed {store : Store} {member : String}
    (closed : isOpen store member = false) :
    ∃ v, store.find? member = some v ∧ v.precision = .finite := by
  unfold isOpen at closed
  cases found : store.find? member with
  | none => simp [found] at closed
  | some v => exact ⟨v, rfl, by simpa [found] using closed⟩

theorem width_of_finite {v : Variable} (finite : v.precision = .finite) : v.value.width = 0.0 := by
  obtain ⟨x, value⟩ := (Value.precision_finite_iff v.value).mp finite
  rw [value]
  rfl

theorem leastKnownMember_exact {e : Equation} {store : Store} (nonempty : e.members ≠ [])
    (closed : ∀ m ∈ e.members, isOpen store m = false) :
    ∃ m, e.members.head? = some m ∧
      e.leastKnownMember store = .error ⟨e.name, .targetFinite m⟩ := by
  obtain ⟨before, m, after, v, members, held, earlier, _, result⟩ :=
    leastKnownMember_foremost nonempty fun m member => known_of_closed (closed m member)
  have finite : v.precision = .finite := by
    obtain ⟨w, held', finite⟩ := finite_of_closed (closed m (by simp [members]))
    rwa [Option.some.inj (held.symm.trans held')]
  rw [finite] at result
  refine ⟨m, ?_, result⟩
  cases before with
  | nil => simp [members]
  | cons n before =>
    obtain ⟨w, held', finite'⟩ := finite_of_closed (closed n (by simp [members]))
    have order := earlier n (by simp) w held'
    rw [Variable.ranksBefore_iff, finite, finite', width_of_finite finite,
      width_of_finite finite'] at order
    omega

theorem rejects_of_idle {e : Equation} {store : Store} (valid : e.fault? = none)
    (idle : e.applies store = false) :
    ∃ fault, e.chooseForm store = .error ⟨e.name, fault⟩ ∧ e.Rejects store fault := by
  have listed : ∀ m, m ∈ e.unknowns store ↔ m ∈ e.members ∧ store.Unknown m := by
    intro m
    unfold Equation.unknowns
    rw [List.mem_filter, isUnknown_iff]
  have inOrder : (e.unknowns store).Sublist e.members := List.filter_sublist
  unfold chooseForm target
  rcases unknowns : e.unknowns store with _ | ⟨m, _ | ⟨n, rest⟩⟩
  · have closed : ∀ m ∈ e.members, isOpen store m = false := by
      simpa [applies, unknowns] using idle
    obtain ⟨m, first, failed⟩ := leastKnownMember_exact (members_of_valid valid) closed
    simp only [failed]
    exact ⟨_, rfl, .exact first fun n hn => finite_of_closed (closed n hn)⟩
  · -- One unknown member would be open, and the equation would apply.
    obtain ⟨member, unknown⟩ := (listed m).mp (by simp [unknowns])
    have closed : ∀ n ∈ e.members, isOpen store n = false := by
      simpa [applies, unknowns] using idle
    have known := known_of_closed (closed m member)
    rw [(isUnknown_iff store m).mpr unknown] at known
    simp at known
  · rw [unknowns] at listed inOrder
    exact ⟨_, rfl, .unknown inOrder listed (by simp)⟩

end Equation

/-- An equation without defect selects a form exactly when it applies, and then the right one; when
    it does not apply it says why. -/
theorem selection_agrees {e : Equation} (valid : e.validate = .ok ()) (store : Store) :
    ((∃ f, e.chooseForm store = .ok f) ↔ e.applies store = true) ∧
    (∀ f, e.chooseForm store = .ok f → e.Selects store f) ∧
    (e.applies store = false →
      ∃ fault, e.chooseForm store = .error ⟨e.name, fault⟩ ∧ e.Rejects store fault) := by
  have valid := e.validate_ok_iff.mp valid
  cases applies : e.applies store with
  | true =>
    obtain ⟨f, chosen, selects⟩ := Equation.selects_of_applies valid applies
    refine ⟨⟨fun _ => rfl, fun _ => ⟨f, chosen⟩⟩, ?_, by simp⟩
    intro g chosen'
    rw [chosen] at chosen'
    rwa [← Except.ok.inj chosen']
  | false =>
    obtain ⟨fault, failed, rejects⟩ := Equation.rejects_of_idle valid applies
    rw [failed]
    exact ⟨by simp, by simp, fun _ => ⟨fault, rfl, rejects⟩⟩

def Equation.ohm : Equation :=
  .ofFormulas "ohm" ["voltage", "current", "resistance"]
    [("voltage", .mul (.input "current") (.input "resistance")),
      ("current", .div (.input "voltage") (.input "resistance")),
      ("resistance", .div (.input "voltage") (.input "current"))]

def equallyRough : Store where
  roster := .ofList
    [(Variable.new "voltage" .given "V").offer (.interval ⟨⟨infinity, infinity⟩, by decide +kernel⟩),
      (Variable.new "current" .given "A").offer (.interval ⟨⟨6, 8⟩, by decide +kernel⟩),
      (Variable.new "resistance" .given "Ω").offer (.interval ⟨⟨11, 13⟩, by decide +kernel⟩)]

theorem ohm_selects_current :
    Equation.ohm.validate = .ok () ∧
      ∃ f, Equation.ohm.chooseForm equallyRough = .ok f ∧ f.target = "current" ∧
        Equation.ohm.Selects equallyRough f := by
  have valid : Equation.ohm.validate = .ok () := by decide +kernel
  have applies : Equation.ohm.applies equallyRough = true := by decide +kernel
  have target : Equation.ohm.target equallyRough = .ok "current" := by decide +kernel
  obtain ⟨agrees, selects, _⟩ := selection_agrees valid equallyRough
  obtain ⟨f, chosen⟩ := agrees.mpr applies
  have same := (Equation.target_of_chosen chosen).symm.trans target
  exact ⟨valid, f, chosen, Except.ok.inj same, selects f chosen⟩

end Narrowing
