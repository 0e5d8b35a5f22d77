/-!
Sets of code points as tables of inclusive ranges. A table lists its ranges in ascending order
without overlap, so a search may end at the first range past the character.
-/
namespace Narrowing.Text

abbrev Ranges := List (Nat × Nat)

namespace Ranges

def ascending : Ranges → Bool
  | [] => true
  | [(first, last)] => first ≤ last
  | (first, last) :: (next, last') :: rest =>
    first ≤ last && last < next && ascending ((next, last') :: rest)

def contains : Ranges → Nat → Bool
  | [], _ => false
  | (first, last) :: rest, n => first ≤ n && (n ≤ last || contains rest n)

theorem head_nonempty {r : Nat × Nat} {rest : Ranges} (sorted : ascending (r :: rest) = true) :
    r.1 ≤ r.2 := by
  cases rest with
  | nil => simpa [ascending] using sorted
  | cons _ _ =>
    simp only [ascending, Bool.and_eq_true, decide_eq_true_eq] at sorted
    exact sorted.1.1

theorem last_lt_of_mem {first last : Nat} {rest : Ranges}
    (sorted : ascending ((first, last) :: rest) = true) {r : Nat × Nat} (member : r ∈ rest) :
    last < r.1 := by
  induction rest generalizing first last with
  | nil => cases member
  | cons next rest ih =>
    simp only [ascending, Bool.and_eq_true, decide_eq_true_eq] at sorted
    rcases List.mem_cons.mp member with same | later
    · exact same ▸ sorted.1.2
    · have reached := Nat.lt_of_lt_of_le sorted.1.2 (head_nonempty sorted.2)
      exact Nat.lt_trans reached (ih sorted.2 later)

theorem ascending_tail {r : Nat × Nat} {rest : Ranges} (sorted : ascending (r :: rest) = true) :
    ascending rest = true := by
  cases rest with
  | nil => rfl
  | cons _ _ =>
    simp only [ascending, Bool.and_eq_true] at sorted
    exact sorted.2

theorem contains_iff {table : Ranges} (sorted : ascending table = true) (n : Nat) :
    table.contains n = true ↔ ∃ r ∈ table, r.1 ≤ n ∧ n ≤ r.2 := by
  induction table with
  | nil => simp [contains]
  | cons r rest ih =>
    have tail := ih (ascending_tail sorted)
    simp only [contains, Bool.and_eq_true, Bool.or_eq_true, decide_eq_true_eq, tail,
      List.mem_cons]
    constructor
    · rintro ⟨low, high | ⟨s, member, inside⟩⟩
      · exact ⟨r, Or.inl rfl, low, high⟩
      · exact ⟨s, Or.inr member, inside⟩
    · rintro ⟨s, same | member, low, high⟩
      · exact same ▸ ⟨low, Or.inl high⟩
      · refine ⟨?_, Or.inr ⟨s, member, low, high⟩⟩
        have past := last_lt_of_mem sorted member
        have nonempty := head_nonempty sorted
        omega

end Ranges

end Narrowing.Text
