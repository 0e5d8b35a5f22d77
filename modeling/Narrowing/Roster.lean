/-!
Rosters: collections kept in the order of their entries' names, at most one entry a name. Names
are compared code point by code point, which is also the byte order of their encoding.
The order is a field of the type, so a roster is determined by what can be found in it.
-/
namespace Narrowing

structure Roster (α : Type) (key : α → String) where
  entries : List α
  ascending : entries.Pairwise fun a b => key a < key b

namespace Roster
variable {α : Type} {key : α → String}

/-- Puts an entry at its place in an ascending list, over the entry of the same key if any. -/
def place (key : α → String) (a : α) : List α → List α
  | [] => [a]
  | b :: rest =>
    if key a < key b then a :: b :: rest
    else if key a = key b then a :: rest
    else b :: place key a rest

theorem mem_of_mem_place {a x : α} {l : List α} (h : x ∈ place key a l) : x = a ∨ x ∈ l := by
  induction l with
  | nil => simpa [place] using h
  | cons b rest ih =>
    rw [place] at h
    split at h
    · simpa using h
    · split at h
      · rcases List.mem_cons.mp h with e | m
        · exact Or.inl e
        · exact Or.inr (List.mem_cons_of_mem _ m)
      · rcases List.mem_cons.mp h with e | m
        · exact Or.inr (by simp [e])
        · rcases ih m with e | m
          · exact Or.inl e
          · exact Or.inr (List.mem_cons_of_mem _ m)

theorem key_lt_of_not_lt_of_ne {s t : String} (notBelow : ¬ s < t) (distinct : s ≠ t) : t < s := by
  by_cases h : t < s
  · exact h
  · exact absurd (String.le_antisymm (String.not_lt.mp h) (String.not_lt.mp notBelow)) distinct

theorem place_ascending (a : α) {l : List α} (h : l.Pairwise fun a b => key a < key b) :
    (place key a l).Pairwise fun a b => key a < key b := by
  induction l with
  | nil => simp [place]
  | cons b rest ih =>
    obtain ⟨head, tail⟩ := List.pairwise_cons.mp h
    rw [place]
    split
    · rename_i below
      refine List.pairwise_cons.mpr ⟨?_, h⟩
      intro x hx
      rcases List.mem_cons.mp hx with e | m
      · exact e ▸ below
      · exact String.lt_trans below (head x m)
    · rename_i notBelow
      split
      · rename_i same
        exact List.pairwise_cons.mpr ⟨fun x m => same ▸ head x m, tail⟩
      · rename_i distinct
        refine List.pairwise_cons.mpr ⟨?_, ih tail⟩
        intro x hx
        rcases mem_of_mem_place hx with e | m
        · exact e ▸ key_lt_of_not_lt_of_ne notBelow distinct
        · exact head x m

def empty : Roster α key := ⟨[], List.Pairwise.nil⟩

def put (r : Roster α key) (a : α) : Roster α key :=
  ⟨place key a r.entries, place_ascending a r.ascending⟩

def find? (r : Roster α key) (name : String) : Option α :=
  r.entries.find? fun a => key a = name

def contains (r : Roster α key) (name : String) : Bool := (r.find? name).isSome

def keys (r : Roster α key) : List String := r.entries.map key

def size (r : Roster α key) : Nat := r.entries.length

def ofList (l : List α) : Roster α key := l.foldl put empty

theorem find_place_self (a : α) (l : List α) :
    (place key a l).find? (fun x => key x = key a) = some a := by
  induction l with
  | nil => simp [place]
  | cons b rest ih =>
    rw [place]
    split
    · simp
    · split
      · simp
      · rename_i distinct
        simp [Ne.symm distinct, ih]

theorem find_place_other (a : α) (l : List α) {name : String} (other : key a ≠ name) :
    (place key a l).find? (fun x => key x = name) = l.find? (fun x => key x = name) := by
  induction l with
  | nil => simp [place, other]
  | cons b rest ih =>
    rw [place]
    split
    · simp [other]
    · split
      · rename_i same
        simp [other, ← same]
      · simp only [List.find?_cons, ih]

@[simp] theorem find?_put_self (r : Roster α key) (a : α) : (r.put a).find? (key a) = some a :=
  find_place_self a r.entries

theorem find?_put_other (r : Roster α key) (a : α) {name : String} (other : key a ≠ name) :
    (r.put a).find? name = r.find? name :=
  find_place_other a r.entries other

end Roster

abbrev Names := Roster String id

end Narrowing
