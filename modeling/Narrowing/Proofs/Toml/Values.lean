import Narrowing.Proofs.Toml.Numbers
import Narrowing.Proofs.Toml.Strings

/-!
Written values. A value that is read back from its text, with whatever breaks it off, can be put
into an array or behind a key. Texts, numbers and arrays of them are such values.
-/
namespace Narrowing.Toml
open Reader

def Opens (text : List Char) : Prop :=
  ∃ c tail, text = c :: tail ∧ c ∉ [' ', '\t', '\r', '\n', '#', ']']

/-- A value is read back from its text, whatever may follow it there. -/
structure Legible (item : Reader Datum) (d : Datum) : Prop where
  opens : Opens d.inline.toList
  reads : ∀ {rest}, Breaks rest → item (d.inline.toList ++ rest) = some (d, rest)

theorem value_of_simple {levels : ℕ} {input : List Char} {taken : Datum × List Char}
    (read : simpleValue input = some taken) : value levels input = some taken := by
  cases levels with
  | zero => exact read
  | succ levels => simp [value, read]

theorem Legible.value {d : Datum} (legible : Legible simpleValue d) (levels : ℕ) :
    Legible (value levels) d :=
  ⟨legible.opens, fun breaks => value_of_simple (legible.reads breaks)⟩

theorem legible_text (s : String) : Legible simpleValue (.text s) := by
  constructor
  · rw [Datum.inline, stringText, Quoting.write_toList]
    generalize Quoting.ofValue s.toList = q
    cases q <;> exact ⟨_, _, rfl, by decide⟩
  · intro rest breaks
    have read := string_stringText s (breaks.ends rfl rfl rfl) (breaks.ends rfl rfl rfl)
    simp [Datum.inline, simpleValue, read]

theorem legible_number (x : Float) : Legible simpleValue (.number x) := by
  constructor
  · rw [Datum.inline]
    cases finite : x.isFinite with
    | true =>
      obtain ⟨whole, places, v, parts, text, _⟩ := finite_parts finite
      rw [text]
      cases signBit x with
      | true => exact ⟨'-', _, rfl, by decide⟩
      | false =>
        obtain ⟨c, whole, rfl⟩ := List.exists_cons_of_ne_nil parts.some_whole
        exact ⟨c, _, rfl, not_mem_of_kind (parts.digits c List.mem_cons_self) (by decide)⟩
    | false =>
      rcases words finite with ⟨_, text⟩ | ⟨_, text⟩ | ⟨_, text⟩ <;>
        exact ⟨_, _, text, by decide⟩
  · intro rest breaks
    rw [Datum.inline]
    exact simpleValue_floatText x breaks

def isGap (c : Char) : Bool := isBlank c || c == '\n' || c == '\r' || c == '#'

theorem Opens.ends {text : List Char} (opens : Opens text) (rest : List Char) :
    Ends isGap (text ++ rest) ∧ Ends isBlank (text ++ rest) := by
  obtain ⟨c, tail, rfl, other⟩ := opens
  simp only [List.mem_cons, List.not_mem_nil, or_false, not_or] at other
  simp [isGap, isBlank, other]

section
variable {rest : List Char}

theorem gap_none (ends : Ends isGap rest) :
    ((discard (char isBlank)) <|> newline <|> (comment *> newline) : Reader Unit) rest = none := by
  cases rest with
  | nil => rfl
  | cons c rest =>
    simp only [ends_cons, isGap, Bool.or_eq_false_iff, beq_eq_false_iff_ne] at ends
    obtain ⟨⟨⟨blank, line⟩, carriage⟩, sign⟩ := ends
    simp [blank, line, carriage, comment, sign]

theorem spacing_none (ends : Ends isGap rest) : spacing rest = some ((), rest) := by
  simp [spacing, many_none (gap_none ends)]

theorem spacing_blank (ends : Ends isGap rest) : spacing (' ' :: rest) = some ((), rest) := by
  have turns : Repeats ((discard (char isBlank)) <|> newline <|> (comment *> newline) : Reader Unit)
      (' ' :: rest) [()] rest :=
    .step rfl (Nat.lt_succ_self _) (.stop (gap_none ends))
  simp [spacing, many_of_repeats turns]

def othersText (others : List Datum) : List Char :=
  others.flatMap fun d => ',' :: ' ' :: d.inline.toList

theorem intercalate_inline (first : Datum) (others : List Datum) :
    [',', ' '].intercalate ((first :: others).map (·.inline.toList)) =
      first.inline.toList ++ othersText others := by
  induction others generalizing first with
  | nil => simp [othersText]
  | cons second others ih =>
    have later := ih second
    rw [List.map_cons] at later
    rw [List.map_cons, List.map_cons, List.intercalate_cons_cons, later]
    simp [othersText]

theorem inlineItems_eq (items : List Datum) : Datum.inlineItems items = items.map Datum.inline := by
  induction items with
  | nil => rfl
  | cons d items ih => rw [Datum.inlineItems, ih, List.map_cons]

theorem array_inline (first : Datum) (others : List Datum) :
    (Datum.array (first :: others)).inline.toList =
      '[' :: (first.inline.toList ++ (othersText others ++ [']'])) := by
  have opening : "[".toList = ['['] := rfl
  have close : "]".toList = [']'] := rfl
  have comma : ", ".toList = [',', ' '] := rfl
  rw [Datum.inline, inlineItems_eq, String.toList_append, String.toList_append,
    String.toList_intercalate, List.map_map, opening, close, comma]
  have text := intercalate_inline first others
  rw [show (String.toList ∘ Datum.inline) = (·.inline.toList) from rfl, text]
  simp

theorem breaks_others (others : List Datum) (rest : List Char) :
    Breaks (othersText others ++ ']' :: rest) ∧ Ends isGap (othersText others ++ ']' :: rest) := by
  cases others with
  | nil => exact ⟨.bracket, by simp [othersText, isGap, isBlank]⟩
  | cons d others => exact ⟨.comma, by simp [othersText, isGap, isBlank]⟩

variable {item : Reader Datum}

theorem element_reads {d : Datum} (legible : Legible item d) (breaks : Breaks rest)
    (ends : Ends isGap rest) :
    (spacing *> item <* spacing : Reader Datum) (d.inline.toList ++ rest) = some (d, rest) ∧
      (spacing *> item <* spacing : Reader Datum) (' ' :: (d.inline.toList ++ rest)) =
        some (d, rest) := by
  have first := (legible.opens.ends rest).1
  constructor
  · simp [spacing_none first, legible.reads breaks, spacing_none ends]
  · simp [spacing_blank first, legible.reads breaks, spacing_none ends]

theorem others_read {others : List Datum} (legible : ∀ d ∈ others, Legible item d)
    (rest : List Char) :
    Repeats (symbol ',' *> (spacing *> item <* spacing) : Reader Datum)
      (othersText others ++ ']' :: rest) others (']' :: rest) := by
  induction others with
  | nil => exact .stop (by simp [othersText])
  | cons d others ih =>
    obtain ⟨breaks, ends⟩ := breaks_others others rest
    have front : othersText (d :: others) ++ ']' :: rest =
        ',' :: ' ' :: (d.inline.toList ++ (othersText others ++ ']' :: rest)) := by
      simp [othersText]
    rw [front]
    refine .step ?_ ?_ (ih fun e inside => legible e (List.mem_cons_of_mem d inside))
    · rw [seqRight_apply, symbol_cons, if_pos rfl, Option.bind_some]
      exact (element_reads (legible d List.mem_cons_self) breaks ends).2
    · simp
      omega

theorem array_reads {first : Datum} {others : List Datum}
    (legible : ∀ d ∈ first :: others, Legible item d) (rest : List Char) :
    array item ((Datum.array (first :: others)).inline.toList ++ rest) =
      some (.array (first :: others), rest) := by
  obtain ⟨breaks, ends⟩ := breaks_others others rest
  have one := (element_reads (legible first List.mem_cons_self) breaks ends).1
  have more := many_of_repeats
    (others_read (fun d inside => legible d (List.mem_cons_of_mem first inside)) rest)
  have items : separated (spacing *> item <* spacing) (symbol ',')
      (first.inline.toList ++ (othersText others ++ ']' :: rest)) =
      some (first :: others, ']' :: rest) := by
    rw [separated, bind_apply, one, Option.bind_some, bind_apply, more]
    rfl
  have close : spacing (']' :: rest) = some ((), ']' :: rest) :=
    spacing_none (by simp [isGap, isBlank])
  rw [array_inline]
  simp [array, items, close]

theorem simpleValue_bracket : simpleValue ('[' :: rest) = none := by
  have timeless : moment ('[' :: rest) = none := moment_other rfl
  simp [simpleValue, string_refuses, boolean_refuses, timeless, number, decimalNumber, sign,
    wholeDigits, isDigit, specialNumber, exactly, integer, basedInteger, decimalInteger]

/-- An array of values without parts takes one level more than they do. -/
theorem legible_array {first : Datum} {others : List Datum} {levels : ℕ}
    (legible : ∀ d ∈ first :: others, Legible (value levels) d) :
    Legible (value (levels + 1)) (.array (first :: others)) := by
  constructor
  · rw [array_inline]
    exact ⟨'[', _, rfl, by decide⟩
  · intro rest _
    have read := array_reads legible rest
    rw [array_inline, List.cons_append] at read ⊢
    rw [value, orElse_apply, orElse_apply, simpleValue_bracket, read, Option.none_or,
      Option.some_or]

end

end Narrowing.Toml
