import Narrowing.Text.Extending
import Narrowing.Text.Unprintable

/-!
Quoted text: a string between double quotes with every character escaped that could not be read
off the page, and lists of such strings. `quoted_visible` says that it can be read: no character of
it is listed in one of the tables of such characters.
-/
namespace Narrowing.Text

/-- Characters written by their code point: those without a shape of their own, and those that
    would attach to the character before them. -/
def isHidden (c : Char) : Bool := unprintable.contains c.toNat || extending.contains c.toNat

theorem isHidden_iff (c : Char) :
    isHidden c = true ↔ ∃ r ∈ unprintable ++ extending, r.1 ≤ c.toNat ∧ c.toNat ≤ r.2 := by
  rw [isHidden, Bool.or_eq_true, Ranges.contains_iff unprintable_ascending,
    Ranges.contains_iff extending_ascending]
  simp only [List.mem_append, or_and_right, exists_or]

def escape (c : Char) : List Char :=
  if c = '"' then ['\\', '"']
  else if c = '\\' then ['\\', '\\']
  else if c = '\n' then ['\\', 'n']
  else if c = '\r' then ['\\', 'r']
  else if c = '\t' then ['\\', 't']
  else if c = '\x00' then ['\\', '0']
  else if isHidden c then ['\\', 'u', '\x7b'] ++ Nat.toDigits 16 c.toNat ++ ['\x7d']
  else [c]

theorem digits_visible (n : Nat) : ∀ d ∈ Nat.toDigits 16 n, isHidden d = false := by
  have digit : ∀ m < 16, isHidden (Nat.digitChar m) = false := by decide +kernel
  induction n using Nat.strongRecOn with
  | ind n ih =>
    intro d member
    by_cases small : n < 16
    · rw [Nat.toDigits_of_lt_base small] at member
      rw [List.mem_singleton.mp member]
      exact digit n small
    · have large := Nat.le_of_not_lt small
      rw [Nat.toDigits_of_base_le (by decide) large] at member
      rcases List.mem_append.mp member with higher | last
      · exact ih (n / 16) (by omega) d higher
      · rw [List.mem_singleton.mp last]
        exact digit (n % 16) (Nat.mod_lt n (by decide))

theorem escape_visible (c : Char) : ∀ d ∈ escape c, isHidden d = false := by
  have backslash : isHidden '\\' = false := by decide +kernel
  have short {mark : Char} (visible : isHidden mark = false) :
      ∀ d ∈ ['\\', mark], isHidden d = false := by
    simp [backslash, visible]
  unfold escape
  split
  · exact short (by decide +kernel)
  split
  · exact short backslash
  split
  · exact short (by decide +kernel)
  split
  · exact short (by decide +kernel)
  split
  · exact short (by decide +kernel)
  split
  · exact short (by decide +kernel)
  split
  · have letter : isHidden 'u' = false := by decide +kernel
    have opening : isHidden '\x7b' = false := by decide +kernel
    have closing : isHidden '\x7d' = false := by decide +kernel
    have front : ∀ d ∈ ['\\', 'u', '\x7b'], isHidden d = false := by
      simp [backslash, letter, opening]
    intro d member
    rcases List.mem_append.mp member with start | last
    · rcases List.mem_append.mp start with mark | digit
      · exact front d mark
      · exact digits_visible c.toNat d digit
    · rw [List.mem_singleton.mp last]
      exact closing
  · rename_i visible
    intro d member
    rw [List.mem_singleton.mp member]
    exact Bool.eq_false_iff.mpr visible

def quoted (s : String) : String :=
  String.ofList ('"' :: s.toList.flatMap escape ++ ['"'])

/-- Every character of a quoted text can be read: it is in no range of either table. -/
theorem quoted_visible (s : String) (c : Char) (written : c ∈ (quoted s).toList) :
    ∀ r ∈ unprintable ++ extending, ¬ (r.1 ≤ c.toNat ∧ c.toNat ≤ r.2) := by
  have quote : isHidden '"' = false := by decide +kernel
  have visible : isHidden c = false := by
    rw [quoted, String.toList_ofList] at written
    rcases List.mem_cons.mp written with rfl | later
    · exact quote
    rcases List.mem_append.mp later with inside | last
    · obtain ⟨d, _, spelling⟩ := List.mem_flatMap.mp inside
      exact escape_visible d c spelling
    · rw [List.mem_singleton.mp last]
      exact quote
  intro r listed inside
  exact Bool.false_ne_true (visible.symm.trans ((isHidden_iff c).mpr ⟨r, listed, inside⟩))

def quotedList (xs : List String) : String :=
  "[" ++ ", ".intercalate (xs.map quoted) ++ "]"

end Narrowing.Text
