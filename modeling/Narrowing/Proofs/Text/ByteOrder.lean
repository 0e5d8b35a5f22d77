import Mathlib

/-!
The order of texts. Texts are compared code point by code point; in UTF-8 that is the order of their
bytes, because a longer encoding of a code point starts with a greater byte and two encodings of one
length hold the code points' digits to the base 64.
-/
namespace Narrowing.Text

def bytes (s : String) : List UInt8 := s.toUTF8.data.toList

theorem bytes_eq (s : String) : bytes s = s.toList.flatMap String.utf8EncodeChar := by
  have spelled : s = String.ofList s.toList := String.ofList_toList.symm
  have encoded : s.toByteArray = s.toList.utf8Encode := by
    conv => lhs; rw [spelled]
    exact String.toByteArray_ofList
  unfold bytes
  rw [String.toUTF8_eq_toByteArray, encoded]
  exact List.toList_data_toByteArray

theorem code_bound (c : Char) : c.val.toNat < 1114112 := by
  rcases c.valid with low | high
  · exact Nat.lt_trans low (by decide)
  · exact high.2

theorem byte_lt_iff {m n : Nat} (hm : m < 256) (hn : n < 256) :
    UInt8.ofNat m < UInt8.ofNat n ↔ m < n := by
  rw [UInt8.lt_iff_toNat_lt]
  simp [Nat.mod_eq_of_lt hm, Nat.mod_eq_of_lt hn]

theorem byte_eq_iff {m n : Nat} (hm : m < 256) (hn : n < 256) :
    UInt8.ofNat m = UInt8.ofNat n ↔ m = n := by
  rw [← UInt8.toNat_inj]
  simp [Nat.mod_eq_of_lt hm, Nat.mod_eq_of_lt hn]

theorem sextets {n : Nat} (bound : n < 2097152) :
    n = 262144 * (n / 262144 % 8) + 4096 * (n / 4096 % 64) + 64 * (n / 64 % 64) + n % 64 ∧
      n / 4096 % 64 < 64 ∧ n / 64 % 64 < 64 ∧ n % 64 < 64 := by
  omega

theorem sextets_order {m n : Nat} (order : m < n) (bound : n < 2097152) :
    m / 262144 % 8 < n / 262144 % 8 ∨ m / 262144 % 8 = n / 262144 % 8 ∧
      (m / 4096 % 64 < n / 4096 % 64 ∨ m / 4096 % 64 = n / 4096 % 64 ∧
        (m / 64 % 64 < n / 64 % 64 ∨ m / 64 % 64 = n / 64 % 64 ∧ m % 64 < n % 64)) := by
  have first := sextets (n := m) (by omega)
  have second := sextets bound
  -- without the quotients behind the digits this is linear arithmetic
  generalize m / 262144 % 8 = m₃, m / 4096 % 64 = m₂, m / 64 % 64 = m₁, m % 64 = m₀ at *
  generalize n / 262144 % 8 = n₃, n / 4096 % 64 = n₂, n / 64 % 64 = n₁, n % 64 = n₀ at *
  omega

theorem encoded_lt {c d : Char} (below : c < d) (rest rest' : List UInt8) :
    String.utf8EncodeChar c ++ rest < String.utf8EncodeChar d ++ rest' := by
  have order : c.val.toNat < d.val.toNat := below
  have boundC := code_bound c
  have boundD := code_bound d
  have digits := sextets_order order (by omega)
  simp only [String.utf8EncodeChar]
  split_ifs <;> simp (disch := omega) only [List.cons_append, List.cons_lt_cons_iff, byte_lt_iff,
    byte_eq_iff, Nat.add_lt_add_iff_right, Nat.add_right_cancel_iff] <;> omega

theorem encoded_list_lt {l r : List Char} (below : l < r) :
    l.flatMap String.utf8EncodeChar < r.flatMap String.utf8EncodeChar := by
  induction l generalizing r with
  | nil =>
    cases r with
    | nil => exact absurd below (List.lt_irrefl _)
    | cons d r =>
      rw [List.flatMap_nil, List.flatMap_cons]
      cases encoded : String.utf8EncodeChar d with
      | nil => exact absurd encoded String.utf8EncodeChar_ne_nil
      | cons byte later => exact List.nil_lt_cons _ _
  | cons c l ih =>
    cases r with
    | nil => exact absurd below (List.not_lt_nil _)
    | cons d r =>
      rw [List.flatMap_cons, List.flatMap_cons]
      rcases List.cons_lt_cons_iff.mp below with lower | ⟨rfl, later⟩
      · exact encoded_lt lower _ _
      · exact List.append_left_lt (ih later)

/-- The order of texts is the order of their bytes. -/
theorem lt_iff_bytes_lt (s t : String) : s < t ↔ bytes s < bytes t := by
  have forward (s t : String) (below : s < t) : bytes s < bytes t := by
    rw [bytes_eq, bytes_eq]
    exact encoded_list_lt (String.lt_iff.mp below)
  refine ⟨forward s t, fun below => ?_⟩
  by_contra notBelow
  by_cases same : s = t
  · exact List.lt_irrefl _ (same ▸ below)
  · have above : t < s := lt_of_le_of_ne (not_lt.mp notBelow) (Ne.symm same)
    exact List.lt_irrefl _ (List.lt_trans below (forward t s above))

end Narrowing.Text
