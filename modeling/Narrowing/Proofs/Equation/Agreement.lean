import Narrowing.Proofs.Equation.Corner

/-!
What an equation reads of a store: of each member whether it is stored, and with what value. Where
two stores agree in that, the equation applies to both or to neither, chooses the same form and
evaluates to the same, or fails with the same error.
-/
namespace Narrowing

/-- Variables of one name and one value, whose labels may differ. -/
structure Variable.Alike (v w : Variable) : Prop where
  name : v.name = w.name
  value : v.value = w.value

namespace Variable.Alike
variable {v w v' w' : Variable}

theorem precision (alike : v.Alike w) : v.precision = w.precision := by
  unfold Variable.precision
  rw [alike.value]

theorem ranksBefore (alike : v.Alike w) (alike' : v'.Alike w') :
    v.ranksBefore v' = w.ranksBefore w' := by
  unfold Variable.ranksBefore
  rw [alike.precision, alike'.precision, alike.value, alike'.value]

end Variable.Alike

namespace Store

def value? (s : Store) (name : String) : Option Value := (s.find? name).map Variable.value

theorem missing_or_alike {s t : Store} {name : String} (same : s.value? name = t.value? name) :
    (s.find? name = none ∧ t.find? name = none) ∨
      ∃ v w, s.find? name = some v ∧ t.find? name = some w ∧ v.Alike w := by
  unfold value? at same
  cases inS : s.find? name with
  | none =>
    cases inT : t.find? name with
    | none => exact Or.inl ⟨rfl, rfl⟩
    | some w => simp [inS, inT] at same
  | some v =>
    cases inT : t.find? name with
    | none => simp [inS, inT] at same
    | some w =>
      have value : v.value = w.value := by simpa [inS, inT] using same
      have name : v.name = w.name := (name_of_find inS).trans (name_of_find inT).symm
      exact Or.inr ⟨v, w, rfl, rfl, name, value⟩

theorem contains_same {s t : Store} {name : String} (same : s.value? name = t.value? name) :
    s.contains name = t.contains name := by
  rcases missing_or_alike same with ⟨inS, inT⟩ | ⟨v, w, inS, inT, _⟩
  · rw [(missing_iff s name).mpr inS, (missing_iff t name).mpr inT]
  · rw [(contains_iff s name).mpr ⟨v, inS⟩, (contains_iff t name).mpr ⟨w, inT⟩]

end Store

namespace Equation
variable {s t : Store} {e : Equation}

theorem isUnknown_same {name : String} (same : s.value? name = t.value? name) :
    isUnknown s name = isUnknown t name := by
  unfold isUnknown
  rcases Store.missing_or_alike same with ⟨inS, inT⟩ | ⟨v, w, inS, inT, alike⟩
  · rw [inS, inT]
  · rw [inS, inT]
    simp only [alike.precision]

theorem isOpen_same {name : String} (same : s.value? name = t.value? name) :
    isOpen s name = isOpen t name := by
  unfold isOpen
  rcases Store.missing_or_alike same with ⟨inS, inT⟩ | ⟨v, w, inS, inT, alike⟩
  · rw [inS, inT]
  · rw [inS, inT]
    simp only [alike.precision]

theorem unknowns_same (same : ∀ m ∈ e.members, s.value? m = t.value? m) :
    e.unknowns s = e.unknowns t := by
  unfold unknowns
  exact List.filter_congr fun m member => isUnknown_same (same m member)

theorem applies_same (same : ∀ m ∈ e.members, s.value? m = t.value? m) :
    e.applies s = e.applies t := by
  have opened : e.members.any (isOpen s) = e.members.any (isOpen t) := by
    rw [Bool.eq_iff_iff, List.any_eq_true, List.any_eq_true]
    refine exists_congr fun m => and_congr_right fun member => ?_
    rw [isOpen_same (same m member)]
  unfold applies
  rw [opened, unknowns_same same]

theorem members_alike {members : List String} (same : ∀ m ∈ members, s.value? m = t.value? m) :
    (∃ cause, members.mapM s.get = .error cause ∧ members.mapM t.get = .error cause) ∨
      ∃ vs ws, members.mapM s.get = .ok vs ∧ members.mapM t.get = .ok ws ∧
        List.Forall₂ Variable.Alike vs ws := by
  induction members with
  | nil => exact Or.inr ⟨[], [], rfl, rfl, .nil⟩
  | cons m rest ih =>
    obtain ⟨first, later⟩ := List.forall_mem_cons.mp same
    rw [List.mapM_cons, List.mapM_cons]
    rcases Store.missing_or_alike first with ⟨inS, inT⟩ | ⟨v, w, inS, inT, alike⟩
    · rw [Store.get_of_missing inS, Store.get_of_missing inT]
      exact Or.inl ⟨_, rfl, rfl⟩
    · rw [Store.get_of_find inS, Store.get_of_find inT]
      rcases ih later with ⟨cause, failS, failT⟩ | ⟨vs, ws, okS, okT, alikes⟩
      · rw [failS, failT]
        exact Or.inl ⟨cause, rfl, rfl⟩
      · rw [okS, okT]
        exact Or.inr ⟨v :: vs, w :: ws, rfl, rfl, .cons alike alikes⟩

theorem least_alike {vs ws : List Variable} (alikes : List.Forall₂ Variable.Alike vs ws)
    {v w : Variable} (alike : v.Alike w) :
    (vs.foldl (fun best u => if u.ranksBefore best then u else best) v).Alike
      (ws.foldl (fun best u => if u.ranksBefore best then u else best) w) := by
  induction alikes generalizing v w with
  | nil => exact alike
  | @cons v' w' vs ws alike' alikes ih =>
    rw [List.foldl_cons, List.foldl_cons, alike'.ranksBefore alike]
    split
    · exact ih alike'
    · exact ih alike

theorem leastKnownMember_same (same : ∀ m ∈ e.members, s.value? m = t.value? m) :
    e.leastKnownMember s = e.leastKnownMember t := by
  unfold leastKnownMember
  rcases members_alike same with ⟨cause, failS, failT⟩ | ⟨vs, ws, okS, okT, alikes⟩
  · rw [failS, failT]
  · rw [okS, okT]
    cases alikes with
    | nil => rfl
    | cons alike alikes =>
      have least := least_alike alikes alike
      simp only [leastKnown?, least.precision, least.name]

theorem chooseForm_same (same : ∀ m ∈ e.members, s.value? m = t.value? m) :
    e.chooseForm s = e.chooseForm t := by
  unfold chooseForm target
  rw [unknowns_same same, leastKnownMember_same same]

end Equation

theorem Corner.extend_same {s t : Store} {m : String} (same : s.value? m = t.value? m)
    (corners : List (Inputs Float)) : extend s corners m = extend t corners m := by
  unfold extend
  rcases Store.missing_or_alike same with ⟨inS, inT⟩ | ⟨v, w, inS, inT, alike⟩
  · rw [Store.get_of_missing inS, Store.get_of_missing inT]
  · rw [Store.get_of_find inS, Store.get_of_find inT]
    simp only [alike.value]

theorem Corner.ofMembers_same {s t : Store} {members : List String}
    (same : ∀ m ∈ members, s.value? m = t.value? m) : ofMembers s members = ofMembers t members := by
  unfold ofMembers
  generalize [Inputs.empty] = corners
  induction members generalizing corners with
  | nil => rfl
  | cons m rest ih =>
    obtain ⟨first, later⟩ := List.forall_mem_cons.mp same
    rw [List.foldlM_cons, List.foldlM_cons, extend_same first corners]
    cases extend t corners m with
    | error fault => rfl
    | ok extended => exact ih later extended

theorem Equation.evaluate_same {s t : Store} {e : Equation}
    (same : ∀ m ∈ e.members, s.value? m = t.value? m) : e.evaluate s = e.evaluate t := by
  unfold evaluate
  rw [chooseForm_same same]
  cases e.chooseForm t with
  | error error => rfl
  | ok f =>
    have others : ∀ m ∈ e.members.filter (· ≠ f.target), s.value? m = t.value? m :=
      fun m member => same m (List.mem_filter.mp member).1
    simp only [compute, Corner.evaluate, Corner.ofMembers_same others]

end Narrowing
