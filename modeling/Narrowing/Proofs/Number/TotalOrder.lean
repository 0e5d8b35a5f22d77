import Narrowing.Proofs.Number.Order

/-!
The total order of doubles. It compares bit patterns, by sign first and then by exponent and
mantissa, so it tells the two zeros apart and has a place for a NaN. Between doubles without a
sign it is the order of numbers with NaN on top.
-/
namespace Narrowing
open Float.Model Float.Model.UnpackedFloat

def totalRank (x : Float) : Int :=
  if signBit x then 2 ^ 63 - 1 - (x.toBits.toNat : Int) else x.toBits.toNat

theorem unpacked_lt_iff (a b : UnpackedFloat) :
    a.lt b = true ↔ a.le b = true ∧ a.beq b = false := by
  unfold UnpackedFloat.lt UnpackedFloat.le UnpackedFloat.beq
  rcases a.compare b with _ | order
  · simp
  · cases order <;> simp

theorem number_lt_iff (x y : Float) : x < y ↔ x ≤ y ∧ ¬ y ≤ x := by
  have strict : x < y ↔ x ≤ y ∧ (x == y) = false := by
    change decide (x.toModel < y.toModel) = true ↔ decide (x.toModel ≤ y.toModel) = true ∧ _
    rw [decide_eq_true_iff, decide_eq_true_iff]
    exact unpacked_lt_iff _ _
  rw [strict, Bool.eq_false_iff, ne_eq, number_beq_iff]
  tauto

def bitPattern (x : Float) : BitVec Format.binary64.numBits := x.toBits.toBitVec

theorem bitPattern_toNat (x : Float) : (bitPattern x).toNat = x.toBits.toNat := rfl

theorem toNat_eq_parts (b : BitVec Format.binary64.numBits) :
    b.toNat = (unpackSign b).toNat * 2 ^ 63 + (unpackExponent b).toNat * 2 ^ 52 +
      (unpackMantissa b).toNat := by
  have bound : b.toNat < 2 ^ 64 := b.isLt
  have sign : (unpackSign b).toNat = b.toNat / 2 ^ 63 % 2 := by
    simp [unpackSign, BitVec.extractLsb_toNat, Nat.shiftRight_eq_div_pow]
  have exponent : (unpackExponent b).toNat = b.toNat / 2 ^ 52 % 2 ^ 11 := by
    simp [unpackExponent, BitVec.extractLsb_toNat, Nat.shiftRight_eq_div_pow]
  have mantissa : (unpackMantissa b).toNat = b.toNat % 2 ^ 52 := by
    simp [unpackMantissa, BitVec.extractLsb_toNat]
  omega

theorem unsigned_iff (x : Float) : signBit x = false ↔ unpackSign (bitPattern x) = 0#1 := by
  have parts := toNat_eq_parts (bitPattern x)
  have exponent : (unpackExponent (bitPattern x)).toNat < 2 ^ 11 := BitVec.isLt _
  have mantissa : (unpackMantissa (bitPattern x)).toNat < 2 ^ 52 := BitVec.isLt _
  rw [bitPattern_toNat] at parts
  unfold signBit
  rw [decide_eq_false_iff_not, ← BitVec.toNat_inj]
  change ¬ 2 ^ 63 ≤ x.toBits.toNat ↔ _ = 0
  omega

theorem packed_positive_lt (exponent : BitVec 11) (mantissa : BitVec 52) :
    (packComponents .binary64 .positive exponent mantissa).toNat < 2 ^ 63 := by
  have exponentBound : exponent.toNat < 2 ^ 11 := exponent.isLt
  have mantissaBound : mantissa.toNat < 2 ^ 52 := mantissa.isLt
  change (0#1 ++ exponent ++ mantissa).toNat < 2 ^ 63
  rw [BitVec.toNat_append, ← Nat.shiftLeft_add_eq_or_of_lt mantissaBound, BitVec.toNat_append,
    ← Nat.shiftLeft_add_eq_or_of_lt exponentBound, Nat.shiftLeft_eq]
  change (0 + exponent.toNat) * 2 ^ 52 + mantissa.toNat < 2 ^ 63
  omega

theorem packed_abs_lt (u : UnpackedFloat) : (u.abs.pack .binary64).toNat < 2 ^ 63 := by
  rcases u with s | _ | s | ⟨s, m, e, hm⟩
  · exact packed_positive_lt _ _
  · exact packed_positive_lt _ _
  · exact packed_positive_lt _ _
  · unfold UnpackedFloat.abs UnpackedFloat.pack
    dsimp only
    split
    · exact packed_positive_lt _ _
    · split
      · exact packed_positive_lt _ _
      · exact packed_positive_lt _ _

theorem abs_unsigned (x : Float) : signBit x.abs = false :=
  decide_eq_false (Nat.not_le_of_gt (packed_abs_lt x.toModel.unpack))

namespace Height

/-- The height of the number that a pattern without a sign stands for. Below `2 ^ 52` there is no
    implied leading bit, and the exponent 2047 is that of infinity. -/
def ofCode (code : Nat) : Height :=
  if code = 0 then ⟨0, 0, 0⟩
  else if code < 2 ^ 52 then ⟨1, -1074, code⟩
  else if code < 2047 * 2 ^ 52 then ⟨1, (code / 2 ^ 52 : Nat) - 1075, (2 ^ 52 + code % 2 ^ 52 : Nat)⟩
  else ⟨2, 0, 0⟩

theorem ofCode_le_iff {a b : Nat} (boundA : a ≤ 2047 * 2 ^ 52) (boundB : b ≤ 2047 * 2 ^ 52) :
    (ofCode a).Le (ofCode b) ↔ a ≤ b := by
  unfold ofCode Le
  split_ifs <;> dsimp only <;> omega

/- The cases are those of unpacking: infinity, zero, a number without and one with the leading
   bit. -/
theorem ofUnpacked_unsigned {b : BitVec Format.binary64.numBits} (unsigned : unpackSign b = 0#1)
    (number : (UnpackedFloat.unpack .binary64 b).isNaN = false) :
    b.toNat ≤ 2047 * 2 ^ 52 ∧ ofUnpacked (UnpackedFloat.unpack .binary64 b) = ofCode b.toNat := by
  have exponentBound : (unpackExponent b).toNat < 2 ^ 11 := BitVec.isLt _
  have mantissaBound : (unpackMantissa b).toNat < 2 ^ 52 := BitVec.isLt _
  have parts : b.toNat =
      0 * 2 ^ 63 + (unpackExponent b).toNat * 2 ^ 52 + (unpackMantissa b).toNat := by
    rw [toNat_eq_parts b, unsigned]
    rfl
  unfold UnpackedFloat.unpack at number ⊢
  dsimp only at number ⊢
  rw [unsigned] at number ⊢
  split
  · rename_i top
    split
    · rename_i zero
      rw [parts, top, zero]
      decide
    · rename_i nonzero
      simp [top, nonzero, UnpackedFloat.isNaN] at number
  · rename_i below
    split
    · rename_i bottom
      split
      · rename_i zero
        rw [parts, bottom, zero]
        decide
      · rename_i nonzero
        have positive : (unpackMantissa b).toNat ≠ 0 := by
          intro zero
          exact nonzero (BitVec.eq_of_toNat_eq zero)
        have code : b.toNat = (unpackMantissa b).toNat := by
          rw [parts, bottom]
          exact Nat.zero_add _
        refine ⟨by omega, ?_⟩
        unfold ofCode
        rw [if_neg (by omega), if_pos (by omega), code, bottom]
        rfl
    · rename_i above
      have positive : (unpackExponent b).toNat ≠ 0 := by
        intro zero
        exact above (BitVec.eq_of_toNat_eq zero)
      have bounded : (unpackExponent b).toNat ≠ 2047 := by
        intro top
        exact below (BitVec.eq_of_toNat_eq top)
      have whole : (1#1 ++ unpackMantissa b).toNat = 2 ^ 52 + (unpackMantissa b).toNat := by
        rw [BitVec.toNat_append, ← Nat.shiftLeft_add_eq_or_of_lt mantissaBound]
        rfl
      have quotient : b.toNat / 2 ^ 52 = (unpackExponent b).toNat := by omega
      have remainder : b.toNat % 2 ^ 52 = (unpackMantissa b).toNat := by omega
      refine ⟨by omega, ?_⟩
      unfold ofCode
      rw [if_neg (by omega), if_neg (by omega), if_pos (by omega), quotient, remainder, ← whole]
      rfl

end Height

theorem unsigned_number {x : Float} (unsigned : signBit x = false) (number : x.isNaN = false) :
    x.toBits.toNat ≤ 2047 * 2 ^ 52 ∧ height x = Height.ofCode x.toBits.toNat :=
  Height.ofUnpacked_unsigned ((unsigned_iff x).mp unsigned) number

theorem unsigned_le_iff {x y : Float} (unsignedX : signBit x = false)
    (unsignedY : signBit y = false) (hx : x.isNaN = false) (hy : y.isNaN = false) :
    x ≤ y ↔ x.toBits.toNat ≤ y.toBits.toNat := by
  obtain ⟨boundX, heightX⟩ := unsigned_number unsignedX hx
  obtain ⟨boundY, heightY⟩ := unsigned_number unsignedY hy
  rw [number_le_iff, heightX, heightY, Height.ofCode_le_iff boundX boundY]
  exact ⟨fun below => below.2.2, fun below => ⟨hx, hy, below⟩⟩

/-- There is one NaN, whose pattern is above that of infinity. -/
theorem nan_code {x : Float} (nan : x.isNaN = true) : x.toBits.toNat = 4095 * 2 ^ 51 := by
  rw [Float.isNaN_eq_decide_eq_nan, decide_eq_true_iff] at nan
  subst nan
  decide

theorem totalRank_unsigned {x : Float} (unsigned : signBit x = false) :
    totalRank x = x.toBits.toNat := by
  unfold totalRank
  rw [unsigned]
  rfl

theorem totalRank_lt_iff {x y : Float} (unsignedX : signBit x = false)
    (unsignedY : signBit y = false) :
    totalRank x < totalRank y ↔ x < y ∨ x.isNaN = false ∧ y.isNaN = true := by
  rw [totalRank_unsigned unsignedX, totalRank_unsigned unsignedY, Int.ofNat_lt, number_lt_iff]
  cases hx : x.isNaN with
  | true =>
    have top := nan_code hx
    have bound : y.toBits.toNat ≤ 4095 * 2 ^ 51 := by
      cases hy : y.isNaN with
      | true => exact Nat.le_of_eq (nan_code hy)
      | false =>
        have bound := (unsigned_number unsignedY hy).1
        omega
    constructor
    · intro less
      omega
    · rintro (⟨below, _⟩ | ⟨number, _⟩)
      · exact absurd (number_of_le_left below) (by rw [hx]; decide)
      · exact absurd number (by decide)
  | false =>
    have bound := (unsigned_number unsignedX hx).1
    cases hy : y.isNaN with
    | true =>
      have top := nan_code hy
      exact ⟨fun _ => Or.inr ⟨rfl, rfl⟩, fun _ => by omega⟩
    | false =>
      rw [unsigned_le_iff unsignedX unsignedY hx hy, unsigned_le_iff unsignedY unsignedX hy hx]
      simp only [Bool.false_eq_true, and_false, or_false]
      omega

end Narrowing
