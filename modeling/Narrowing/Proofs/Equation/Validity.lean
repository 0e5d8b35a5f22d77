import Narrowing.Equation.Basic
import Narrowing.Proofs.Store.Lookup
import Narrowing.Proofs.Text.ByteOrder

/-!
Which equations have a defect, and which defect is the one reported. An equation has none exactly
when it has members, all different, and forms for just these.
-/
namespace Narrowing.Equation

structure WellFormed (e : Equation) : Prop where
  inhabited : e.members ≠ []
  distinct : e.members.Nodup
  matched : ∀ name, name ∈ e.forms.keys ↔ name ∈ e.members

structure Orderly (e : Equation) (members : List String) : Prop where
  distinct : members.Nodup
  formed : ∀ m ∈ members, m ∈ e.forms.keys

/-- The defect to be reported. One of the members comes before one of the forms, and among members
    the first in their order, among forms the first in the byte order of their names. -/
inductive Defect (e : Equation) : EquationFault → Prop
  | noMembers (none : e.members = []) : Defect e .noMembers
  | duplicateMember {before after : List String} {m : String}
      (split : e.members = before ++ m :: after) (orderly : e.Orderly before)
      (repeated : m ∈ before) : Defect e (.duplicateMember m)
  | missingForm {before after : List String} {m : String}
      (split : e.members = before ++ m :: after) (orderly : e.Orderly before)
      (fresh : m ∉ before) (missing : m ∉ e.forms.keys) : Defect e (.missingForm m)
  | strayForm {name : String} (inhabited : e.members ≠ []) (orderly : e.Orderly e.members)
      (formed : name ∈ e.forms.keys) (stray : name ∉ e.members)
      (least : ∀ other ∈ e.forms.keys, other ∉ e.members → other ≠ name →
        Text.bytes name < Text.bytes other) : Defect e (.strayForm name)

variable {e : Equation}

theorem memberFault_cons_none_iff (seen : List String) (m : String) (rest : List String) :
    e.memberFault? seen (m :: rest) = none ↔
      m ∉ seen ∧ m ∈ e.forms.keys ∧ e.memberFault? (m :: seen) rest = none := by
  rw [memberFault?, ← Roster.contains_iff_mem_keys]
  split
  · rename_i repeated
    simp [repeated]
  · rename_i fresh
    cases formed : e.forms.contains m <;> simp [fresh]

theorem memberFault_none_iff (seen members : List String) :
    e.memberFault? seen members = none ↔ e.Orderly members ∧ ∀ m ∈ members, m ∉ seen := by
  induction members generalizing seen with
  | nil => exact ⟨fun _ => ⟨⟨List.nodup_nil, by simp⟩, by simp⟩, fun _ => rfl⟩
  | cons m rest ih =>
    rw [memberFault_cons_none_iff, ih]
    constructor
    · rintro ⟨fresh, formed, ⟨distinct, formed'⟩, unseen⟩
      have unlike : m ∉ rest := fun member => unseen m member List.mem_cons_self
      refine ⟨⟨List.nodup_cons.mpr ⟨unlike, distinct⟩, List.forall_mem_cons.mpr ⟨formed, formed'⟩⟩, ?_⟩
      refine List.forall_mem_cons.mpr ⟨fresh, fun n member seen' => ?_⟩
      exact unseen n member (List.mem_cons_of_mem m seen')
    · rintro ⟨⟨distinct, formed⟩, unseen⟩
      obtain ⟨unlike, distinct⟩ := List.nodup_cons.mp distinct
      obtain ⟨formed, formed'⟩ := List.forall_mem_cons.mp formed
      obtain ⟨fresh, unseen⟩ := List.forall_mem_cons.mp unseen
      refine ⟨fresh, formed, ⟨distinct, formed'⟩, fun n member seen' => ?_⟩
      rcases List.mem_cons.mp seen' with rfl | seen'
      · exact unlike member
      · exact unseen n member seen'

/-- After orderly members the search goes on with these among the seen. -/
theorem memberFault_append {seen before : List String} (orderly : e.memberFault? seen before = none)
    (rest : List String) :
    e.memberFault? seen (before ++ rest) = e.memberFault? (before.reverse ++ seen) rest := by
  induction before generalizing seen with
  | nil => rfl
  | cons m before ih =>
    obtain ⟨fresh, formed, later⟩ := (memberFault_cons_none_iff seen m before).mp orderly
    rw [List.cons_append, memberFault?, if_neg fresh]
    rw [(Roster.contains_iff_mem_keys e.forms m).mpr formed]
    rw [List.reverse_cons, List.append_assoc]
    exact ih later

theorem memberFault_after {before : List String} (orderly : e.Orderly before) (m : String)
    (after : List String) :
    e.memberFault? [] (before ++ m :: after) = e.memberFault? before.reverse (m :: after) := by
  have clear : e.memberFault? [] before = none :=
    (memberFault_none_iff [] before).mpr ⟨orderly, by simp⟩
  rw [memberFault_append clear, List.append_nil]

/-- What is wrong with a member after orderly ones, if anything is. -/
theorem memberFault_cases (before members : List String) (orderly : e.Orderly before) :
    e.Orderly (before ++ members) ∨
      ∃ earlier m after, before ++ members = earlier ++ m :: after ∧ e.Orderly earlier ∧
        (m ∈ earlier ∨ m ∉ earlier ∧ m ∉ e.forms.keys) := by
  induction members generalizing before with
  | nil => exact Or.inl (by rwa [List.append_nil])
  | cons m rest ih =>
    by_cases repeated : m ∈ before
    · exact Or.inr ⟨before, m, rest, rfl, orderly, Or.inl repeated⟩
    by_cases formed : m ∈ e.forms.keys
    · have further : e.Orderly (before ++ [m]) := by
        refine ⟨orderly.distinct.append (List.nodup_singleton m) ?_, ?_⟩
        · exact List.disjoint_singleton.mpr repeated
        · intro n member
          rcases List.mem_append.mp member with old | new
          · exact orderly.formed n old
          · exact List.mem_singleton.mp new ▸ formed
      have rest := ih (before ++ [m]) further
      rwa [List.append_assoc, List.singleton_append] at rest
    · exact Or.inr ⟨before, m, rest, rfl, orderly, Or.inr ⟨repeated, formed⟩⟩

theorem strays_ascending (e : Equation) :
    (e.forms.keys.filter fun name => name ∉ e.members).Pairwise (· < ·) := by
  refine List.Pairwise.filter _ ?_
  exact List.pairwise_map.mpr e.forms.ascending

theorem stray_some_iff (name : String) :
    (e.forms.keys.find? fun name => name ∉ e.members) = some name ↔
      name ∈ e.forms.keys ∧ name ∉ e.members ∧
        ∀ other ∈ e.forms.keys, other ∉ e.members → other ≠ name →
          Text.bytes name < Text.bytes other := by
  have ascending := strays_ascending e
  have strays (other : String) :
      other ∈ e.forms.keys.filter (fun name => name ∉ e.members) ↔
        other ∈ e.forms.keys ∧ other ∉ e.members := by
    simp [List.mem_filter]
  rw [← List.head?_filter]
  cases left : e.forms.keys.filter fun name => name ∉ e.members with
  | nil =>
    rw [left] at strays
    constructor
    · simp
    · rintro ⟨formed, stray, _⟩
      exact absurd ((strays name).mpr ⟨formed, stray⟩) (by simp)
  | cons first rest =>
    rw [left] at strays ascending
    have later := (List.pairwise_cons.mp ascending).1
    rw [List.head?_cons, Option.some.injEq]
    constructor
    · rintro rfl
      obtain ⟨formed, stray⟩ := (strays first).mp List.mem_cons_self
      refine ⟨formed, stray, fun other formed' stray' unlike => ?_⟩
      rcases List.mem_cons.mp ((strays other).mpr ⟨formed', stray'⟩) with same | member
      · exact absurd same unlike
      · exact (Text.lt_iff_bytes_lt _ _).mp (later other member)
    · rintro ⟨formed, stray, least⟩
      rcases List.mem_cons.mp ((strays name).mpr ⟨formed, stray⟩) with same | member
      · exact same.symm
      · have above := later name member
        obtain ⟨formed', stray'⟩ := (strays first).mp List.mem_cons_self
        have unlike : first ≠ name := by
          rintro rfl
          exact String.lt_irrefl _ above
        have below := (Text.lt_iff_bytes_lt _ _).mpr (least first formed' stray' unlike)
        exact absurd (String.lt_trans above below) (String.lt_irrefl _)

theorem fault_of_defect {fault : EquationFault} (defect : e.Defect fault) :
    e.fault? = some fault := by
  unfold fault?
  cases defect with
  | noMembers none => rw [if_pos none]
  | duplicateMember split orderly repeated =>
    rw [if_neg (by simp [split]), split, memberFault_after orderly, memberFault?]
    rw [if_pos (List.mem_reverse.mpr repeated)]
  | @missingForm before _ m split orderly fresh missing =>
    have formless : e.forms.contains m = false := by
      rwa [← Bool.not_eq_true, Roster.contains_iff_mem_keys]
    rw [if_neg (by simp [split]), split, memberFault_after orderly, memberFault?]
    rw [if_neg (by simpa using fresh), formless]
    rfl
  | strayForm inhabited orderly formed stray least =>
    have clear := (memberFault_none_iff [] e.members).mpr ⟨orderly, by simp⟩
    rw [if_neg inhabited, clear]
    simp only
    rw [(stray_some_iff _).mpr ⟨formed, stray, least⟩]
    rfl

theorem wellFormed_or_defect (e : Equation) : e.WellFormed ∨ ∃ fault, e.Defect fault := by
  by_cases none : e.members = []
  · exact Or.inr ⟨_, .noMembers none⟩
  rcases memberFault_cases [] e.members ⟨List.nodup_nil, by simp⟩ with
    orderly | ⟨before, m, after, split, orderly, repeated | ⟨fresh, missing⟩⟩
  · rw [List.nil_append] at orderly
    cases stray : e.forms.keys.find? fun name => name ∉ e.members with
    | some name =>
      obtain ⟨formed, outside, least⟩ := (stray_some_iff name).mp stray
      exact Or.inr ⟨_, .strayForm none orderly formed outside least⟩
    | none =>
      refine Or.inl ⟨none, orderly.distinct, fun name => ⟨fun formed => ?_, orderly.formed name⟩⟩
      simpa using List.find?_eq_none.mp stray name formed
  · exact Or.inr ⟨_, .duplicateMember split orderly repeated⟩
  · exact Or.inr ⟨_, .missingForm split orderly fresh missing⟩

theorem fault_of_wellFormed (wellFormed : e.WellFormed) : e.fault? = none := by
  have orderly : e.Orderly e.members :=
    ⟨wellFormed.distinct, fun m member => (wellFormed.matched m).mpr member⟩
  have clear := (memberFault_none_iff [] e.members).mpr ⟨orderly, by simp⟩
  have noStray : (e.forms.keys.find? fun name => name ∉ e.members) = none := by
    refine List.find?_eq_none.mpr fun name formed => ?_
    simpa using (wellFormed.matched name).mp formed
  unfold fault?
  rw [if_neg wellFormed.inhabited, clear]
  simp only
  rw [noStray]
  rfl

theorem fault_none_iff (e : Equation) : e.fault? = none ↔ e.WellFormed := by
  refine ⟨fun sound => ?_, fault_of_wellFormed⟩
  rcases e.wellFormed_or_defect with wellFormed | ⟨fault, defect⟩
  · exact wellFormed
  · simp [fault_of_defect defect] at sound

theorem fault_some_iff (e : Equation) (fault : EquationFault) :
    e.fault? = some fault ↔ e.Defect fault := by
  refine ⟨fun found => ?_, fault_of_defect⟩
  rcases e.wellFormed_or_defect with wellFormed | ⟨other, defect⟩
  · simp [fault_of_wellFormed wellFormed] at found
  · obtain rfl := Option.some.inj (found.symm.trans (fault_of_defect defect))
    exact defect

end Narrowing.Equation
