import Narrowing.Catalog
import Narrowing.Proofs.Equation.Validity

/-!
Which equations a catalog takes. It takes those that are well formed and whose name is free, and
refuses the others with the defect of the equation or, if it has none, because of the name. After
any insertions, some of which may have failed, a catalog holds just the equations that it took, in
the byte order of their names. A list makes a catalog if all of it can be taken.
-/
namespace Narrowing.Catalog

inductive Refusal (c : Catalog) (e : Equation) : CatalogError → Prop
  | defective {fault : EquationFault} (defect : e.Defect fault) :
      Refusal c e (.invalid ⟨e.name, fault⟩)
  | taken (wellFormed : e.WellFormed) (taken : e.name ∈ c.names) :
      Refusal c e (.duplicate e.name)

theorem eq_of_mem_iff {c d : Catalog} (same : ∀ e, e ∈ c.toList ↔ e ∈ d.toList) : c = d := by
  rcases c with ⟨r, sound⟩
  rcases d with ⟨r', sound'⟩
  obtain rfl : r = r' := Roster.eq_of_mem_iff same
  rfl

theorem names_nodup (c : Catalog) : (c.toList.map Equation.name).Nodup := by
  refine List.pairwise_map.mpr (c.equations.ascending.imp ?_)
  intro e f below same
  exact String.lt_irrefl _ (same ▸ below)

theorem find_none_iff (c : Catalog) (name : String) :
    c.equations.find? name = none ↔ name ∉ c.names := by
  unfold names
  rw [← Roster.contains_iff_mem_keys, Roster.contains]
  simp

theorem insert_of_defect (c : Catalog) {e : Equation} {fault : EquationFault}
    (defect : e.Defect fault) : c.insert e = .error (.invalid ⟨e.name, fault⟩) := by
  unfold insert
  have found := (e.fault_some_iff fault).mpr defect
  split
  · rename_i other found'
    rw [Option.some.inj (found'.symm.trans found)]
  · rename_i clear
    simp [clear] at found

theorem insert_of_taken {c : Catalog} {e : Equation} (wellFormed : e.WellFormed)
    (taken : e.name ∈ c.names) : c.insert e = .error (.duplicate e.name) := by
  unfold insert
  have clear := (e.fault_none_iff).mpr wellFormed
  split
  · rename_i found
    simp [clear] at found
  · rw [if_pos ((Roster.contains_iff_mem_keys _ _).mpr taken)]

theorem insert_of_free {c : Catalog} {e : Equation} (wellFormed : e.WellFormed)
    (free : e.name ∉ c.names) :
    ∃ d, c.insert e = .ok d ∧ ∀ f, f ∈ d.toList ↔ f ∈ c.toList ∨ f = e := by
  unfold insert
  have clear := (e.fault_none_iff).mpr wellFormed
  split
  · rename_i found
    simp [clear] at found
  · rw [if_neg (mt (Roster.contains_iff_mem_keys _ _).mp free)]
    exact ⟨_, rfl, Roster.mem_put_iff ((c.find_none_iff e.name).mpr free)⟩

theorem insert_cases (c : Catalog) (e : Equation) :
    (e.WellFormed ∧ e.name ∉ c.names ∧
      ∃ d, c.insert e = .ok d ∧ ∀ f, f ∈ d.toList ↔ f ∈ c.toList ∨ f = e) ∨
    ∃ error, c.Refusal e error ∧ c.insert e = .error error := by
  rcases e.wellFormed_or_defect with wellFormed | ⟨fault, defect⟩
  · by_cases taken : e.name ∈ c.names
    · exact Or.inr ⟨_, .taken wellFormed taken, insert_of_taken wellFormed taken⟩
    · exact Or.inl ⟨wellFormed, taken, insert_of_free wellFormed taken⟩
  · exact Or.inr ⟨_, .defective defect, c.insert_of_defect defect⟩

theorem insert_error_iff (c : Catalog) (e : Equation) (error : CatalogError) :
    c.insert e = .error error ↔ c.Refusal e error := by
  constructor
  · intro refused
    rcases c.insert_cases e with ⟨_, _, d, inserted, _⟩ | ⟨reason, refusal, refused'⟩
    · simp [inserted] at refused
    · obtain rfl := Except.error.inj (refused.symm.trans refused')
      exact refusal
  · rintro (defect | ⟨wellFormed, taken⟩)
    · exact c.insert_of_defect defect
    · exact insert_of_taken wellFormed taken

theorem insert_ok_iff (c : Catalog) (e : Equation) :
    (∃ d, c.insert e = .ok d) ↔ e.WellFormed ∧ e.name ∉ c.names := by
  constructor
  · rintro ⟨d, inserted⟩
    rcases c.insert_cases e with ⟨wellFormed, free, _⟩ | ⟨reason, _, refused⟩
    · exact ⟨wellFormed, free⟩
    · simp [refused] at inserted
  · rintro ⟨wellFormed, free⟩
    obtain ⟨d, inserted, _⟩ := insert_of_free wellFormed free
    exact ⟨d, inserted⟩

theorem insert_holds {c d : Catalog} {e : Equation} (inserted : c.insert e = .ok d) :
    d.toList.Perm (e :: c.toList) := by
  obtain ⟨wellFormed, free⟩ := (c.insert_ok_iff e).mp ⟨d, inserted⟩
  obtain ⟨d', inserted', held⟩ := insert_of_free wellFormed free
  obtain rfl := Except.ok.inj (inserted.symm.trans inserted')
  have unlike : e ∉ c.toList := fun member => free (List.mem_map_of_mem member)
  have distinct : (e :: c.toList).Nodup := List.nodup_cons.mpr ⟨unlike, c.names_nodup.of_map⟩
  refine (List.perm_ext_iff_of_nodup d.names_nodup.of_map distinct).mpr fun f => ?_
  rw [held, List.mem_cons, or_comm]

def offer (c : Catalog) (e : Equation) : Catalog :=
  match c.insert e with
  | .ok d => d
  | .error _ => c

def offerAll (c : Catalog) (offered : List Equation) : Catalog := offered.foldl offer c

def accepted (c : Catalog) : List Equation → List Equation
  | [] => []
  | e :: rest =>
    match c.insert e with
    | .ok d => e :: d.accepted rest
    | .error _ => c.accepted rest

theorem offer_of_error {c : Catalog} {e : Equation} {error : CatalogError}
    (refused : c.insert e = .error error) : c.offer e = c := by
  unfold offer
  rw [refused]

theorem offerAll_holds (c : Catalog) (offered : List Equation) :
    (c.offerAll offered).toList.Perm (c.accepted offered ++ c.toList) := by
  induction offered generalizing c with
  | nil => exact .refl _
  | cons e rest ih =>
    unfold offerAll
    rw [List.foldl_cons, accepted, offer]
    cases outcome : c.insert e with
    | error error => exact ih c
    | ok d =>
      have extended := (insert_holds outcome).append_left (d.accepted rest)
      exact (ih d).trans (extended.trans List.perm_middle)

theorem names_of_insert {c d : Catalog} {e : Equation} (inserted : c.insert e = .ok d)
    (name : String) : name ∈ d.names ↔ name = e.name ∨ name ∈ c.names :=
  ((insert_holds inserted).map Equation.name).mem_iff.trans List.mem_cons

theorem insertAll_holds {c d : Catalog} {equations : List Equation}
    (reached : equations.foldlM insert c = .ok d) :
    (∀ e ∈ equations, e.WellFormed ∧ e.name ∉ c.names) ∧ (equations.map Equation.name).Nodup ∧
      ∀ f, f ∈ d.toList ↔ f ∈ equations ∨ f ∈ c.toList := by
  induction equations generalizing c with
  | nil =>
    obtain rfl := Except.ok.inj reached
    simp
  | cons e rest ih =>
    rw [List.foldlM_cons] at reached
    cases outcome : c.insert e with
    | error error => simp [outcome, bind, Except.bind] at reached
    | ok next =>
      rw [outcome] at reached
      obtain ⟨sound, distinct, whole⟩ := ih reached
      have apart : ∀ f ∈ rest, f.name ≠ e.name ∧ f.name ∉ c.names :=
        fun f member => not_or.mp (mt (names_of_insert outcome f.name).mpr (sound f member).2)
      refine ⟨List.forall_mem_cons.mpr ⟨(c.insert_ok_iff e).mp ⟨next, outcome⟩, ?_⟩, ?_, ?_⟩
      · exact fun f member => ⟨(sound f member).1, (apart f member).2⟩
      · refine List.nodup_cons.mpr ⟨fun taken => ?_, distinct⟩
        obtain ⟨f, member, same⟩ := List.mem_map.mp taken
        exact (apart f member).1 same
      · intro f
        rw [whole, (insert_holds outcome).mem_iff, List.mem_cons, List.mem_cons, or_left_comm,
          or_assoc]

theorem insertAll_of_distinct {c : Catalog} {equations : List Equation}
    (sound : ∀ e ∈ equations, e.WellFormed ∧ e.name ∉ c.names)
    (distinct : (equations.map Equation.name).Nodup) : ∃ d, equations.foldlM insert c = .ok d := by
  induction equations generalizing c with
  | nil => exact ⟨c, rfl⟩
  | cons e rest ih =>
    obtain ⟨⟨wellFormed, free⟩, sound⟩ := List.forall_mem_cons.mp sound
    obtain ⟨unlike, distinct⟩ := List.nodup_cons.mp distinct
    obtain ⟨next, inserted, _⟩ := insert_of_free wellFormed free
    have later : ∀ f ∈ rest, f.WellFormed ∧ f.name ∉ next.names := by
      intro f member
      refine ⟨(sound f member).1, fun taken => ?_⟩
      rcases (names_of_insert inserted f.name).mp taken with same | old
      · exact unlike (List.mem_map.mpr ⟨f, member, same⟩)
      · exact (sound f member).2 old
    obtain ⟨d, reached⟩ := ih later distinct
    refine ⟨d, ?_⟩
    rw [List.foldlM_cons, inserted]
    exact reached

/-- Inserting all of a list succeeds exactly when its equations are well formed and their names are
    free and different, whatever their order. -/
theorem insertAll_ok_iff (c d : Catalog) (equations : List Equation) :
    equations.foldlM insert c = .ok d ↔
      (∀ e ∈ equations, e.WellFormed ∧ e.name ∉ c.names) ∧ (equations.map Equation.name).Nodup ∧
        ∀ f, f ∈ d.toList ↔ f ∈ equations ∨ f ∈ c.toList := by
  constructor
  · exact insertAll_holds
  · rintro ⟨sound, distinct, held⟩
    obtain ⟨made, reached⟩ := insertAll_of_distinct sound distinct
    obtain ⟨_, _, held'⟩ := insertAll_holds reached
    rw [reached, eq_of_mem_iff fun f => (held' f).trans (held f).symm]

theorem offerAll_of_insertAll {c d : Catalog} {equations : List Equation}
    (reached : equations.foldlM insert c = .ok d) : c.offerAll equations = d := by
  induction equations generalizing c with
  | nil => exact Except.ok.inj reached
  | cons e rest ih =>
    rw [List.foldlM_cons] at reached
    unfold offerAll
    rw [List.foldl_cons, offer]
    cases outcome : c.insert e with
    | error error => simp [outcome, bind, Except.bind] at reached
    | ok next =>
      rw [outcome] at reached
      exact ih reached

theorem ofList_isOk_iff (equations : List Equation) :
    (∃ d, ofList equations = .ok d) ↔
      (∀ e ∈ equations, e.WellFormed) ∧ (equations.map Equation.name).Nodup := by
  constructor
  · rintro ⟨d, made⟩
    obtain ⟨sound, distinct, _⟩ := insertAll_holds made
    exact ⟨fun e member => (sound e member).1, distinct⟩
  · rintro ⟨wellFormed, distinct⟩
    have free (e : Equation) : e.name ∉ empty.names := List.not_mem_nil
    exact insertAll_of_distinct (fun e member => ⟨wellFormed e member, free e⟩) distinct

theorem ofList_holds {equations : List Equation} {d : Catalog} (made : ofList equations = .ok d) :
    d.toList.Perm equations := by
  obtain ⟨_, distinct, held⟩ := insertAll_holds made
  refine (List.perm_ext_iff_of_nodup d.names_nodup.of_map distinct.of_map).mpr fun f => ?_
  rw [held]
  exact or_iff_left List.not_mem_nil

theorem ofList_perm {equations order : List Equation} (perm : order.Perm equations) (d : Catalog) :
    ofList order = .ok d ↔ ofList equations = .ok d := by
  unfold ofList
  rw [insertAll_ok_iff, insertAll_ok_iff, (perm.map Equation.name).nodup_iff]
  simp only [perm.mem_iff]

/-- At any point of any history a catalog holds just the equations that it took, each once, in the
    byte order of their names. It takes the well formed equations of other names, and refuses the
    rest as `Refusal` says, with nothing changed. A list of equations makes a catalog, the one that
    holds just these, if they are well formed and of different names; their order is irrelevant. -/
theorem history_admits (offered : List Equation) :
    let c := empty.offerAll offered
    c.toList.Perm (empty.accepted offered) ∧
    c.toList.Pairwise (fun e f => Text.bytes e.name < Text.bytes f.name) ∧
    (∀ e, (∃ d, c.insert e = .ok d) ↔ e.WellFormed ∧ e.name ∉ c.names) ∧
    (∀ e error, c.insert e = .error error ↔ c.Refusal e error) ∧
    (∀ e error, c.insert e = .error error → c.offer e = c) ∧
    ((∃ d, ofList offered = .ok d) ↔
      (∀ e ∈ offered, e.WellFormed) ∧ (offered.map Equation.name).Nodup) ∧
    (∀ d, ofList offered = .ok d → d.toList.Perm offered ∧ c = d) ∧
    ∀ order, order.Perm offered → ∀ d, ofList order = .ok d ↔ ofList offered = .ok d := by
  intro c
  refine ⟨?_, ?_, c.insert_ok_iff, c.insert_error_iff, fun _ _ => offer_of_error,
    ofList_isOk_iff offered, ?_, fun _ => ofList_perm⟩
  · have held := empty.offerAll_holds offered
    rwa [show empty.toList = [] from rfl, List.append_nil] at held
  · exact c.equations.ascending.imp fun below => (Text.lt_iff_bytes_lt _ _).mp below
  · intro d made
    exact ⟨ofList_holds made, offerAll_of_insertAll made⟩

end Narrowing.Catalog
