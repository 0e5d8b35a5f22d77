import Narrowing.Proofs.Solver.Frame
import Narrowing.Proofs.Text.ByteOrder

/-!
Stores under any history. A store is added to, narrowed and solved, each operation succeeding or
failing; a failed addition or narrowing leaves the store as it was, and a failed run leaves what it
had reached. At every stage each variable stands once, under its own name, and no stage loses what
an earlier one knew.
-/
namespace Narrowing

inductive Operation : Type 1 where
  | add (name : String) (provenance : Provenance) (unit : String) (proposals : List Value)
  | narrow (name : String) (proposed : Value)
  | solve {σ : Type} (catalog : Catalog) (limit : Limit) (observer : Observer σ) (state : σ)

def Operation.perform (store : Store) : Operation → Store
  | .add name provenance unit proposals =>
    match store.add ((Variable.new name provenance unit).offerAll proposals) with
    | .ok extended => extended
    | .error _ => store
  | .narrow name proposed =>
    match store.narrow name proposed with
    | .ok (narrowed, _) => narrowed
    | .error _ => store
  | .solve catalog limit observer state =>
    (Narrowing.solve catalog limit observer state store).store

namespace Store

def stages (s : Store) : List Operation → List Store
  | [] => [s]
  | operation :: rest => s :: (operation.perform s).stages rest

/-- Every variable stands once, under its own name and in the byte order of the names, and has a
    finite number or an interval for a value. -/
structure Lawful (s : Store) : Prop where
  unique : (s.toList.map Variable.name).Nodup
  stored : ∀ name v, s.find? name = some v ↔ v ∈ s.toList ∧ v.name = name
  ascending : s.toList.Pairwise fun v w => Text.bytes v.name < Text.bytes w.name
  values : ∀ v ∈ s.toList, (∃ x, v.value = .scalar x ∧ x.isFinite = true) ∨
    ∃ range, v.value = .interval range ∧ range.lo.isNaN = false ∧ range.hi.isNaN = false ∧
      range.lo ≤ range.hi

theorem lawful (s : Store) : s.Lawful where
  unique := s.names_nodup
  stored := by
    intro name v
    constructor
    · intro found
      exact ⟨Roster.mem_of_find found, name_of_find found⟩
    · rintro ⟨member, rfl⟩
      exact (s.mem_iff_find v).mp member
  ascending := s.roster.ascending.imp fun below => (Text.lt_iff_bytes_lt _ _).mp below
  values := by
    intro v _
    have storable := v.storable
    cases value : v.value with
    | scalar x => exact Or.inl ⟨x, rfl, by rwa [value] at storable⟩
    | interval range => exact Or.inr ⟨range, rfl, range.lo_number, range.hi_number, range.lo_le_hi⟩

def Continues (before after : Store) : Prop :=
  ∀ name v, before.find? name = some v → ∃ w, after.find? name = some w ∧ v.Becomes w

theorem Continues.refl (s : Store) : s.Continues s := fun _ v found => ⟨v, found, .refl v⟩

theorem Continues.trans {a b c : Store} (first : a.Continues b) (second : b.Continues c) :
    a.Continues c := by
  intro name u found
  obtain ⟨v, found, becomes⟩ := first name u found
  obtain ⟨w, found, becomes'⟩ := second name v found
  exact ⟨w, found, becomes.trans becomes'⟩

theorem add_continues {s extended : Store} {v : Variable} (added : s.add v = .ok extended) :
    s.Continues extended := by
  unfold add at added
  split at added
  · simp at added
  · rename_i missing
    obtain rfl := Except.ok.inj added
    intro name w found
    have other : v.name ≠ name := by
      rintro rfl
      exact missing ((s.contains_iff v.name).mpr ⟨w, found⟩)
    exact ⟨w, by rw [find_put, if_neg other, found], .refl w⟩

theorem narrow_continues {s narrowed : Store} {name : String} {proposed : Value} {changed : Bool}
    (accepted : s.narrow name proposed = .ok (narrowed, changed)) : s.Continues narrowed := by
  cases found : s.find? name with
  | none => simp [narrow, get_of_missing found] at accepted
  | some v =>
    cases outcome : v.update proposed with
    | error cause => simp [narrow, get_of_find found, outcome] at accepted
    | ok result =>
      obtain ⟨w, flag⟩ := result
      simp only [narrow, get_of_find found, outcome, Except.ok.injEq, Prod.mk.injEq] at accepted
      obtain ⟨rfl, rfl⟩ := accepted
      have becomes := Variable.update_becomes outcome
      have named : w.name = name := becomes.name.trans (name_of_find found)
      intro other u found'
      rw [find_put, named]
      by_cases same : name = other
      · subst other
        obtain rfl := Option.some.inj (found.symm.trans found')
        exact ⟨w, if_pos rfl, becomes⟩
      · exact ⟨u, by rw [if_neg same, found'], .refl u⟩

end Store

theorem Operation.perform_continues (operation : Operation) (s : Store) :
    s.Continues (operation.perform s) := by
  cases operation with
  | add name provenance unit proposals =>
    simp only [perform]
    split
    · rename_i added
      exact Store.add_continues added
    · exact .refl s
  | narrow name proposed =>
    simp only [perform]
    split
    · rename_i accepted
      exact Store.narrow_continues accepted
    · exact .refl s
  | solve catalog limit observer state =>
    intro name v found
    obtain ⟨w, found, becomes, _⟩ :=
      (solve_evolves catalog limit observer state s).kept name v found
    exact ⟨w, found, becomes⟩

namespace Store

theorem stages_continue {s later : Store} {operations : List Operation}
    (member : later ∈ s.stages operations) : s.Continues later := by
  induction operations generalizing s with
  | nil =>
    obtain rfl := List.mem_singleton.mp member
    exact .refl later
  | cons operation rest ih =>
    rcases List.mem_cons.mp member with rfl | member
    · exact .refl later
    · exact (operation.perform_continues s).trans (ih member)

theorem stages_pairwise (s : Store) (operations : List Operation) :
    (s.stages operations).Pairwise Continues := by
  induction operations generalizing s with
  | nil => exact List.pairwise_singleton _ _
  | cons operation rest ih =>
    refine List.pairwise_cons.mpr ⟨?_, ih (operation.perform s)⟩
    intro later member
    exact (operation.perform_continues s).trans (stages_continue member)

structure Keeps (before after : Store) : Prop where
  kept : ∀ name v, before.find? name = some v → ∃ w, after.find? name = some w ∧
    w.name = v.name ∧ w.provenance = v.provenance ∧ w.unit = v.unit ∧
    v.precision.rank ≤ w.precision.rank ∧ (v.precision = .finite → w.value = v.value)

theorem Continues.keeps {before after : Store} (continues : before.Continues after) :
    before.Keeps after where
  kept := by
    intro name v found
    obtain ⟨w, found, becomes⟩ := continues name v found
    exact ⟨w, found, becomes.name, becomes.provenance, becomes.unit, becomes.value.rank_le,
      becomes.value.of_finite⟩

/-- Whatever is done with a store, every stage is lawful and keeps what all earlier stages held. -/
theorem stages_lawful (start : Store) (operations : List Operation) :
    (∀ s ∈ start.stages operations, s.Lawful) ∧ (start.stages operations).Pairwise Keeps := by
  constructor
  · intro s _
    exact s.lawful
  · exact (start.stages_pairwise operations).imp Continues.keeps

end Store

end Narrowing
