import Narrowing.Proofs.Decimal.Shortest
import Narrowing.Proofs.Number.Infinities
import Narrowing.Proofs.Toml.Reader
import Narrowing.Toml.Document
import Narrowing.Toml.Printer

/-!
Written numbers. The text of a double is a sign, digits, a point and digits, or one of three words;
it is read as the same double, and as nothing else before that.
-/
namespace Narrowing.Toml
open Reader

theorem isDigit_eq (c : Char) : isDigit c = c.isDigit := by
  unfold isDigit Char.isDigit
  rfl

theorem hexValue_of_isDigit {c : Char} (digit : isDigit c = true) :
    (hexValue? c).getD 0 = c.toNat - '0'.toNat := by
  unfold isDigit at digit
  rw [hexValue?, if_pos digit]
  rfl

theorem digitsValue_eq {cs : List Char} (digits : ∀ c ∈ cs, isDigit c = true) :
    digitsValue 10 cs = Nat.ofDigitChars 10 cs 0 := by
  have step (start : ℕ) : cs.foldl (fun n c => n * 10 + (hexValue? c).getD 0) start =
      Nat.ofDigitChars 10 cs start := by
    induction cs generalizing start with
    | nil => rfl
    | cons c cs ih =>
      rw [List.foldl_cons, ih (fun d inside => digits d (List.mem_cons_of_mem c inside)),
        Nat.ofDigitChars_cons, hexValue_of_isDigit (digits c List.mem_cons_self), mul_comm]
  exact step 0

theorem digitsOf_digits (n : ℕ) : ∀ c ∈ Decimal.digitsOf n, isDigit c = true := by
  intro c inside
  rw [isDigit_eq]
  exact Nat.isDigit_of_mem_toDigits (by decide) (by decide) inside

theorem digitsOf_head {n : ℕ} (positive : 0 < n) : Ends (· == '0') (Decimal.digitsOf n) := by
  induction n using Nat.strong_induction_on with
  | _ n ih =>
    rw [Decimal.digitsOf, Nat.toDigits_eq_if (by decide)]
    split
    · rename_i small
      interval_cases n <;> rfl
    · have first := ih (n / 10) (by omega) (by omega)
      have some : Decimal.digitsOf (n / 10) ≠ [] := Nat.toDigits_ne_nil
      obtain ⟨c, cs, front⟩ := List.exists_cons_of_ne_nil some
      rw [front] at first
      rw [← Decimal.digitsOf, front]
      simpa using first

def pointed (whole places : List Char) : Decimal :=
  ⟨digitsValue 10 (whole ++ places), -places.length⟩

structure Pointed (whole places : List Char) (v : ℚ) : Prop where
  digits : ∀ c ∈ whole ++ places, isDigit c = true
  some_whole : whole ≠ []
  some_places : places ≠ []
  head : whole = ['0'] ∨ Ends (· == '0') whole
  value : (pointed whole places).value = v

theorem pointed_whole {ds : List Char} (digits : ∀ c ∈ ds, isDigit c = true) (some_ds : ds ≠ [])
    (head : Ends (· == '0') ds) (zeros : ℕ) :
    Pointed (ds ++ List.replicate zeros '0') ['0'] (Nat.ofDigitChars 10 ds 0 * 10 ^ zeros) := by
  have all : ∀ c ∈ ds ++ List.replicate zeros '0' ++ ['0'], isDigit c = true := by
    intro c inside
    simp only [List.mem_append, List.mem_replicate, List.mem_singleton] at inside
    rcases inside with (known | ⟨_, rfl⟩) | rfl
    · exact digits c known
    · rfl
    · rfl
  refine ⟨all, by simp [some_ds], by simp, Or.inr ?_, ?_⟩
  · obtain ⟨c, cs, rfl⟩ := List.exists_cons_of_ne_nil some_ds
    simpa using head
  · rw [pointed, digitsValue_eq all, List.append_assoc, Nat.ofDigitChars_append,
      show ['0'] = List.replicate 1 '0' from rfl, List.replicate_append_replicate,
      Nat.ofDigitChars_replicate_zero, Decimal.value, List.length_replicate]
    push_cast
    rw [pow_succ]
    norm_num
    ring

theorem pointed_padded {ds : List Char} (digits : ∀ c ∈ ds, isDigit c = true)
    (head : Ends (· == '0') ds) {count : ℕ} (some_places : 0 < count) {padded : List Char}
    (written : padded = List.replicate (count + 1 - ds.length) '0' ++ ds) :
    Pointed (padded.take (padded.length - count)) (padded.drop (padded.length - count))
      (Nat.ofDigitChars 10 ds 0 * 10 ^ (-count : ℤ)) := by
  have long : count + 1 ≤ padded.length := by
    rw [written, List.length_append, List.length_replicate]
    omega
  have all : ∀ c ∈ padded, isDigit c = true := by
    intro c inside
    simp only [written, List.mem_append, List.mem_replicate] at inside
    rcases inside with ⟨_, rfl⟩ | known
    · rfl
    · exact digits c known
  have joined := List.take_append_drop (padded.length - count) padded
  have places : (padded.drop (padded.length - count)).length = count := by
    rw [List.length_drop]
    omega
  have whole : (padded.take (padded.length - count)).length = padded.length - count := by
    rw [List.length_take]
    omega
  refine ⟨by rwa [joined], ?_, ?_, ?_, ?_⟩
  · rw [ne_eq, ← List.length_eq_zero_iff]
    omega
  · rw [ne_eq, ← List.length_eq_zero_iff]
    omega
  · rcases Nat.lt_or_ge count ds.length with enough | few
    · have bare : padded = ds := by
        rw [written, Nat.sub_eq_zero_of_le enough]
        rfl
      rw [bare]
      exact Or.inr (head.take _)
    · left
      have one : padded.length - count = 1 := by
        rw [written, List.length_append, List.length_replicate]
        omega
      obtain ⟨zeros, more⟩ : ∃ k, count + 1 - ds.length = k + 1 := ⟨count - ds.length, by omega⟩
      rw [one, written, more]
      rfl
  · rw [pointed, joined, digitsValue_eq all, places, written, Nat.ofDigitChars_append,
      Nat.ofDigitChars_replicate_zero, mul_zero]
    rfl

/-- A decimal is written without a point, as if ".0" followed, or with digits on both sides of
    it. -/
theorem plain_parts {d : Decimal} (positive : 0 < d.digits) :
    ∃ whole places, Pointed whole places d.value ∧
      ((d.plain.toList = whole ∧ places = ['0']) ∨ d.plain.toList = whole ++ '.' :: places) := by
  have digits := digitsOf_digits d.digits
  have head := digitsOf_head positive
  have value : Nat.ofDigitChars 10 (Decimal.digitsOf d.digits) 0 = d.digits :=
    Nat.ofDigitChars_ten_toDigits
  unfold Decimal.plain
  dsimp only
  split
  · rename_i whole
    have parts := pointed_whole digits Nat.toDigits_ne_nil head d.exponent.toNat
    rw [value, ← zpow_natCast, Int.toNat_of_nonneg (by omega)] at parts
    exact ⟨_, _, parts, Or.inl ⟨String.toList_ofList, rfl⟩⟩
  · have fractional : 0 < (-d.exponent).toNat := by omega
    have parts := pointed_padded digits head fractional rfl
    rw [value, Int.toNat_of_nonneg (by omega), neg_neg] at parts
    exact ⟨_, _, parts, Or.inr String.toList_ofList⟩

/-- What may follow a value: the end of its line, or the rest of its array. -/
inductive Breaks : List Char → Prop
  | line {rest} : Breaks ('\n' :: rest)
  | comma {rest} : Breaks (',' :: rest)
  | bracket {rest} : Breaks (']' :: rest)

section
variable {rest : List Char}

theorem Breaks.ends (breaks : Breaks rest) {ok : Char → Bool} (line : ok '\n' = false)
    (comma : ok ',' = false) (bracket : ok ']' = false) : Ends ok rest := by
  cases breaks <;> simpa

theorem many_digits {ok : Char → Bool} {front : List Char} (all : ∀ c ∈ front, ok c = true)
    (ends : Ends ok rest) (ends' : Ends (· == '_') rest) :
    many (char ok <|> (symbol '_' *> char ok)) (front ++ rest) = some (front, rest) := by
  apply many_of_repeats
  induction front with
  | nil =>
    refine .stop ?_
    cases rest with
    | nil => rfl
    | cons c rest =>
      rw [ends_cons] at ends ends'
      simp [ends, show c ≠ '_' by simpa using ends']
  | cons c front ih =>
    refine .step ?_ (Nat.lt_succ_self _) (ih fun d inside => all d (List.mem_cons_of_mem c inside))
    simp [all c List.mem_cons_self]

theorem digits_append {ok : Char → Bool} {front : List Char} (nonempty : front ≠ [])
    (all : ∀ c ∈ front, ok c = true) (ends : Ends ok rest) (ends' : Ends (· == '_') rest) :
    digits ok (front ++ rest) = some (front, rest) := by
  obtain ⟨c, front, rfl⟩ := List.exists_cons_of_ne_nil nonempty
  simp [digits, all c List.mem_cons_self,
    many_digits (fun d inside => all d (List.mem_cons_of_mem c inside)) ends ends']

theorem wholeDigits_append {whole : List Char} (nonempty : whole ≠ [])
    (all : ∀ c ∈ whole, isDigit c = true) (head : whole = ['0'] ∨ Ends (· == '0') whole)
    (ends : Ends isDigit rest) (ends' : Ends (· == '_') rest) :
    wholeDigits (whole ++ rest) = some (whole, rest) := by
  rcases head with rfl | head
  · rfl
  · obtain ⟨c, whole, rfl⟩ := List.exists_cons_of_ne_nil nonempty
    have nonzero : c ≠ '0' := by simpa using head
    simp [wholeDigits, all c List.mem_cons_self, nonzero,
      many_digits (fun d inside => all d (List.mem_cons_of_mem c inside)) ends ends']

theorem exponent_refuses (breaks : Breaks rest) : exponent rest = none := by
  have other : char (fun c => c == 'e' || c == 'E') rest = none :=
    char_ends (breaks.ends rfl rfl rfl)
  simp [exponent, other]

def signText (negative : Bool) : List Char := if negative then ['-'] else []

theorem sign_append (negative : Bool) {front : List Char} (nonempty : front ≠ [])
    (all : ∀ c ∈ front, isDigit c = true) (rest : List Char) :
    sign (signText negative ++ (front ++ rest)) = some (negative, front ++ rest) := by
  cases negative with
  | true => simp [signText, sign]
  | false =>
    obtain ⟨c, front, rfl⟩ := List.exists_cons_of_ne_nil nonempty
    have minus : c ≠ '-' := ne_of_kind (all c List.mem_cons_self) (by decide)
    have plus : c ≠ '+' := ne_of_kind (all c List.mem_cons_self) (by decide)
    simp [signText, sign, minus, plus]

/-- A decimal text is read as the double nearest to it, with its sign. -/
theorem decimalNumber_append {whole places : List Char} {v : ℚ} (parts : Pointed whole places v)
    (breaks : Breaks rest) (negative : Bool) {x : Float} (finite : x.isFinite = true)
    (size : (if negative then -(pointed whole places).nearest
      else (pointed whole places).nearest) = x) :
    decimalNumber (signText negative ++ (whole ++ '.' :: (places ++ rest))) =
      some (.number x, rest) := by
  have all_whole : ∀ c ∈ whole, isDigit c = true :=
    fun c inside => parts.digits c (List.mem_append_left places inside)
  have all_places : ∀ c ∈ places, isDigit c = true :=
    fun c inside => parts.digits c (List.mem_append_right whole inside)
  have signed := sign_append negative parts.some_whole all_whole ('.' :: (places ++ rest))
  have before : wholeDigits (whole ++ '.' :: (places ++ rest)) =
      some (whole, '.' :: (places ++ rest)) :=
    wholeDigits_append parts.some_whole all_whole parts.head (by simp [isDigit]) (by simp)
  have after : digits isDigit (places ++ rest) = some (places, rest) :=
    digits_append parts.some_places all_places (breaks.ends rfl rfl rfl) (breaks.ends rfl rfl rfl)
  have small : (x == infinity) = false := by
    rw [Bool.eq_false_iff]
    intro same
    rw [eq_infinity_of_le ((number_beq_iff _ _).mp same).2] at finite
    exact absurd finite (by decide +kernel)
  simp only [decimalNumber, fraction, bind_apply, signed, before, Option.bind_some, orElse_apply,
    seqRight_apply, symbol_cons, if_pos, after, maybe_apply, exponent_refuses breaks, pure_apply,
    Option.map_none, Option.none_or, Option.getD_none, zero_sub, Option.some_or]
  rw [← pointed, size, small]
  rfl

theorem ends_digits {whole : List Char} (all : ∀ c ∈ whole, isDigit c = true) {d : Char}
    (other : isDigit d = false) (point : d ≠ '.') : Ends (· == d) (whole ++ '.' :: rest) := by
  cases whole with
  | nil => simpa using point.symm
  | cons c whole => simpa using ne_of_kind (all c List.mem_cons_self) other

theorem date_digits {whole : List Char} (all : ∀ c ∈ whole, isDigit c = true) :
    date (whole ++ '.' :: rest) = none := by
  have point : isDigit '.' = false := rfl
  rcases whole with _ | ⟨a, _ | ⟨b, _ | ⟨c, _ | ⟨d, whole⟩⟩⟩⟩ <;>
    simp only [List.mem_cons, List.not_mem_nil, or_false, forall_eq_or_imp, forall_eq] at all <;>
    simp only [date, List.cons_append, List.nil_append, bind_apply, char_cons, point, all, if_true,
      Option.bind_some, Bool.false_eq_true, if_false, Option.bind_none]
  rw [symbol_ends (ends_digits all.2.2.2.2 rfl (by decide)), Option.bind_none]

theorem twoDigits_cons (least greatest : ℕ) (a b : Char) (rest : List Char) :
    twoDigits least greatest (a :: b :: rest) = none ∨
      ∃ n, twoDigits least greatest (a :: b :: rest) = some (n, rest) := by
  simp only [twoDigits, bind_apply, char_cons]
  split
  · simp only [Option.bind_some, char_cons]
    split
    · simp only [Option.bind_some]
      split
      · exact Or.inr ⟨_, rfl⟩
      · exact Or.inl rfl
    · exact Or.inl rfl
  · exact Or.inl rfl

theorem timeOfDay_digits {whole : List Char} (all : ∀ c ∈ whole, isDigit c = true) :
    timeOfDay (whole ++ '.' :: rest) = none := by
  have point : isDigit '.' = false := rfl
  rcases whole with _ | ⟨a, _ | ⟨b, whole⟩⟩ <;>
    simp only [List.mem_cons, List.not_mem_nil, or_false, forall_eq_or_imp, forall_eq] at all <;>
    simp only [timeOfDay, List.cons_append, List.nil_append, bind_apply, discard_apply]
  · simp only [twoDigits, bind_apply, char_cons, point]
    rfl
  · simp only [twoDigits, bind_apply, char_cons, point, all, if_true, Option.bind_some]
    rfl
  · rcases twoDigits_cons 0 23 a b (whole ++ '.' :: rest) with none | ⟨n, some⟩
    · rw [none]
      rfl
    · rw [some, Option.map_some, Option.bind_some,
        symbol_ends (ends_digits all.2.2 rfl (by decide)), Option.bind_none]

theorem moment_digits {whole : List Char} (all : ∀ c ∈ whole, isDigit c = true) (rest : List Char) :
    moment (whole ++ '.' :: rest) = none := by
  simp [moment, spelling, datedMoment, date_digits all, timeOfDay_digits all]

theorem moment_other {c : Char} (other : isDigit c = false) : moment (c :: rest) = none := by
  have first : char isDigit (c :: rest) = none := by rw [char_cons, other]; rfl
  have dateless : date (c :: rest) = none := by rw [date, bind_apply, first]; rfl
  have timeless : timeOfDay (c :: rest) = none := by
    rw [timeOfDay, bind_apply, discard_apply, twoDigits, bind_apply, first]
    rfl
  simp [moment, spelling, datedMoment, dateless, timeless]

theorem level_zero : level 0.0 = 0 := by
  have finite : (0.0 : Float).isFinite = true := by decide +kernel
  have none : (Magnitude.ofFloat 0.0).mantissa = 0 := by decide +kernel
  rw [(magnitude_of_finite finite).1, Magnitude.value, none]
  cases signOf 0.0 <;> simp [signed]

theorem zero_iff_level {x : Float} (number : x.isNaN = false) :
    (x == 0.0) = true ↔ level x = 0 := by
  have zero : (0.0 : Float).isNaN = false := by decide +kernel
  rw [number_beq_iff, number_le_iff_level, number_le_iff_level, level_zero]
  exact ⟨fun same => le_antisymm same.1.2.2 same.2.2.2,
    fun same => ⟨⟨number, zero, same.le⟩, zero, number, same.ge⟩⟩

theorem zero_of_level {x : Float} (number : x.isNaN = false) (zero : level x = 0) :
    x = 0.0 ∨ x = -0.0 := by
  have same := Float.beq_iff_ne_nan_and_eq.mp ((zero_iff_level number).mpr zero)
  rcases same.2.2 with rfl | ⟨rfl, _⟩ | ⟨rfl, _⟩
  · exact Or.inl rfl
  · exact Or.inl (by decide +kernel)
  · exact Or.inr (by decide +kernel)

theorem contains_point {whole : List Char} (negative : Bool)
    (all : ∀ c ∈ whole, isDigit c = true) : (signText negative ++ whole).contains '.' = false := by
  have absent : '.' ∉ whole := fun inside => absurd (all '.' inside) (by decide)
  cases negative <;> simp [signText, absent]

theorem finite_parts {x : Float} (finite : x.isFinite = true) :
    ∃ whole places v, Pointed whole places v ∧
      (floatText x).toList = signText (signBit x) ++ (whole ++ '.' :: places) ∧
      (if signBit x then -(pointed whole places).nearest
        else (pointed whole places).nearest) = x := by
  have number := number_of_finite finite
  by_cases zero : level x = 0
  · have parts : Pointed ['0'] ['0'] 0 :=
      ⟨by simp [isDigit], by simp, by simp, Or.inl rfl,
        by simp [pointed, Decimal.value, digitsValue, hexValue?]⟩
    refine ⟨['0'], ['0'], 0, parts, ?_⟩
    rcases zero_of_level number zero with rfl | rfl
    · exact ⟨by decide +kernel, by decide +kernel⟩
    · exact ⟨by decide +kernel, by decide +kernel⟩
  · have bounded : x.isInf = false := by
      change x.toModel.unpack.isFinite = true at finite
      change x.toModel.unpack.isInf = false
      cases unpacked : x.toModel.unpack <;> rw [unpacked] at finite <;> first | rfl | cases finite
    have nonzero : (x == 0.0) = false := by
      rwa [Bool.eq_false_iff, ne_eq, zero_iff_level number]
    have positive := Decimal.shortest_digits_positive (magnitude_of_finite finite).2
      (magnitude_positive finite zero)
    obtain ⟨whole, places, parts, text⟩ := plain_parts positive
    refine ⟨whole, places, _, parts, ?_, nearest_of_shortest finite zero parts.value⟩
    have written : (numberText x).toList =
        signText (signBit x) ++ (Decimal.shortest (Magnitude.ofFloat x)).plain.toList := by
      unfold numberText
      rw [number, bounded, nonzero]
      cases signBit x <;> simp [signText]
    have all_whole : ∀ c ∈ whole, isDigit c = true :=
      fun c inside => parts.digits c (List.mem_append_left places inside)
    unfold floatText
    rw [number, bounded]
    rcases text with ⟨text, rfl⟩ | text
    · rw [text] at written
      simp only [Bool.false_eq_true, if_false, Bool.false_or, written, contains_point _ all_whole]
      rw [String.toList_append, written, List.append_assoc]
      rfl
    · rw [text] at written
      simp [written]

theorem words {x : Float} (infinite : x.isFinite = false) :
    (x = 0.0 / 0.0 ∧ (floatText x).toList = ['n', 'a', 'n']) ∨
      (x = infinity ∧ (floatText x).toList = ['i', 'n', 'f']) ∨
      (x = -infinity ∧ (floatText x).toList = ['-', 'i', 'n', 'f']) := by
  cases nan : x.isNaN with
  | true =>
    obtain rfl : x = Float.nan := by simpa [Float.isNaN_eq_decide_eq_nan] using nan
    exact Or.inl ⟨by decide +kernel, by decide +kernel⟩
  | false =>
    rcases eq_infinity_of_infinite nan infinite with rfl | rfl
    · exact Or.inr (Or.inl ⟨rfl, by decide +kernel⟩)
    · exact Or.inr (Or.inr ⟨rfl, by decide +kernel⟩)

theorem string_refuses {c : Char} (basic : c ≠ '"') (literal : c ≠ '\'') :
    string (c :: rest) = none := by
  simp [string, onelineString, oneline, multiline, exactly, basic, literal]

theorem boolean_refuses {c : Char} (yes : c ≠ 't') (no : c ≠ 'f') : boolean (c :: rest) = none := by
  simp [boolean, exactly, yes, no]

theorem simpleValue_number {c : Char} {taken : Datum × List Char}
    (other : c ∉ ['"', '\'', 't', 'f']) (timeless : moment (c :: rest) = none)
    (read : number (c :: rest) = some taken) : simpleValue (c :: rest) = some taken := by
  simp only [List.mem_cons, List.not_mem_nil, or_false, not_or] at other
  obtain ⟨basic, literal, yes, no⟩ := other
  simp [simpleValue, string_refuses basic literal, boolean_refuses yes no, timeless, read]

/-- Every double is read back from its text, the zeros with their signs and all that is no number as
    the one value that stands for it. -/
theorem simpleValue_floatText (x : Float) (breaks : Breaks rest) :
    simpleValue ((floatText x).toList ++ rest) = some (.number x, rest) := by
  cases finite : x.isFinite with
  | true =>
    obtain ⟨whole, places, v, parts, text, size⟩ := finite_parts finite
    have read : number (signText (signBit x) ++ (whole ++ '.' :: (places ++ rest))) =
        some (.number x, rest) := by
      simp [number, decimalNumber_append parts breaks (signBit x) finite size]
    have all_whole : ∀ c ∈ whole, isDigit c = true :=
      fun c inside => parts.digits c (List.mem_append_left places inside)
    rw [text, List.append_assoc, List.append_assoc, List.cons_append]
    cases negative : signBit x with
    | true =>
      rw [negative] at read
      exact simpleValue_number (by decide) (moment_other rfl) read
    | false =>
      rw [negative] at read
      have timeless := moment_digits all_whole (places ++ rest)
      obtain ⟨c, whole, rfl⟩ := List.exists_cons_of_ne_nil parts.some_whole
      have digit := all_whole c List.mem_cons_self
      exact simpleValue_number (not_mem_of_kind digit (by decide)) timeless read
  | false =>
    rcases words finite with ⟨value, text⟩ | ⟨value, text⟩ | ⟨value, text⟩ <;> rw [text]
    all_goals
      refine simpleValue_number (by decide) (moment_other rfl) ?_
      simp [number, decimalNumber, sign, wholeDigits, isDigit, specialNumber, exactly, value]

end

end Narrowing.Toml
