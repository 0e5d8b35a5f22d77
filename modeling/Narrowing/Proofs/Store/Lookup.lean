import Mathlib.Data.List.Sort
import Narrowing.Store

/-!
What can be found in a store. A variable is stored under its own name, putting a variable changes
what is found under that name only, and putting back what was found changes nothing.
-/
namespace Narrowing

namespace Roster
variable {α : Type} {key : α → String}

theorem key_of_find {r : Roster α key} {name : String} {a : α} (found : r.find? name = some a) :
    key a = name := by
  have holds := List.find?_some found
  simpa using holds

theorem mem_of_find {r : Roster α key} {name : String} {a : α} (found : r.find? name = some a) :
    a ∈ r.entries :=
  List.mem_of_find?_eq_some found

theorem find_put (r : Roster α key) (a : α) (name : String) :
    (r.put a).find? name = if key a = name then some a else r.find? name := by
  split
  · rename_i same
    rw [← same]
    exact find?_put_self r a
  · rename_i other
    exact find?_put_other r a other

theorem place_of_mem {a : α} {l : List α} (ascending : l.Pairwise fun a b => key a < key b)
    (member : a ∈ l) : place key a l = l := by
  induction l with
  | nil => simp at member
  | cons b rest ih =>
    obtain ⟨first, later⟩ := List.pairwise_cons.mp ascending
    unfold place
    rcases List.mem_cons.mp member with same | member
    · subst b
      rw [if_neg (String.lt_irrefl _), if_pos rfl]
    · have above := first a member
      have notBelow : ¬ key a < key b := fun below => String.lt_irrefl _ (String.lt_trans below above)
      have distinct : key a ≠ key b := fun same => String.lt_irrefl _ (same ▸ above)
      simp [notBelow, distinct, ih later member]

theorem find_of_mem {r : Roster α key} {a : α} (member : a ∈ r.entries) :
    r.find? (key a) = some a := by
  have found : (place key a r.entries).find? (fun x => key x = key a) = some a :=
    find_place_self a r.entries
  rw [place_of_mem r.ascending member] at found
  exact found

theorem put_of_find {r : Roster α key} {name : String} {a : α} (found : r.find? name = some a) :
    r.put a = r := by
  cases r with
  | mk entries ascending =>
    simp only [put, place_of_mem ascending (mem_of_find found)]

theorem contains_iff_mem_keys (r : Roster α key) (name : String) :
    r.contains name = true ↔ name ∈ r.keys := by
  unfold contains
  rw [Option.isSome_iff_exists]
  constructor
  · rintro ⟨a, found⟩
    exact List.mem_map.mpr ⟨a, mem_of_find found, key_of_find found⟩
  · intro member
    obtain ⟨a, held, rfl⟩ := List.mem_map.mp member
    exact ⟨a, find_of_mem held⟩

theorem eq_of_mem_iff {r s : Roster α key} (same : ∀ a, a ∈ r.entries ↔ a ∈ s.entries) : r = s := by
  rcases r with ⟨entries, ascending⟩
  rcases s with ⟨entries', ascending'⟩
  have irrefl : Std.Irrefl fun a b : α => key a < key b := ⟨fun a => String.lt_irrefl (key a)⟩
  have antisymm : Std.Antisymm fun a b : α => key a < key b :=
    ⟨fun a b below above => absurd (String.lt_trans below above) (String.lt_irrefl (key a))⟩
  obtain rfl : entries = entries' := ascending.eq_of_mem_iff ascending' same
  rfl

theorem mem_put_iff {r : Roster α key} {a : α} (missing : r.find? (key a) = none) (b : α) :
    b ∈ (r.put a).entries ↔ b ∈ r.entries ∨ b = a := by
  constructor
  · intro member
    rcases mem_of_mem_place member with new | old
    · exact Or.inr new
    · exact Or.inl old
  · rintro (old | rfl)
    · have other : key a ≠ key b := by
        intro same
        rw [same, find_of_mem old] at missing
        simp at missing
      have found := find_put r a (key b)
      rw [if_neg other, find_of_mem old] at found
      exact mem_of_find found
    · exact mem_of_find (find?_put_self r b)

end Roster

namespace Store

theorem name_of_find {s : Store} {name : String} {v : Variable} (found : s.find? name = some v) :
    v.name = name :=
  Roster.key_of_find found

theorem find_put (s : Store) (v : Variable) (name : String) :
    Store.find? ⟨s.roster.put v⟩ name = if v.name = name then some v else s.find? name :=
  Roster.find_put s.roster v name

theorem mem_iff_find (s : Store) (v : Variable) : v ∈ s.toList ↔ s.find? v.name = some v :=
  ⟨Roster.find_of_mem, Roster.mem_of_find⟩

theorem names_nodup (s : Store) : (s.toList.map Variable.name).Nodup := by
  refine List.pairwise_map.mpr (s.roster.ascending.imp ?_)
  intro v w below same
  exact String.lt_irrefl _ (same ▸ below)

theorem contains_iff (s : Store) (name : String) :
    s.contains name = true ↔ ∃ v, s.find? name = some v := by
  unfold contains Roster.contains
  exact Option.isSome_iff_exists

theorem missing_iff (s : Store) (name : String) :
    s.contains name = false ↔ s.find? name = none := by
  unfold contains Roster.contains
  exact Option.isSome_eq_false_iff.trans Option.isNone_iff_eq_none

theorem get_of_find {s : Store} {name : String} {v : Variable} (found : s.find? name = some v) :
    s.get name = .ok v := by
  unfold get
  rw [found]

theorem find_of_get {s : Store} {name : String} {v : Variable} (got : s.get name = .ok v) :
    s.find? name = some v := by
  unfold get at got
  split at got
  · rename_i found
    rwa [Except.ok.inj got] at found
  · simp at got

theorem get_of_missing {s : Store} {name : String} (missing : s.find? name = none) :
    s.get name = .error (.notFound name) := by
  unfold get
  rw [missing]

end Store

end Narrowing
