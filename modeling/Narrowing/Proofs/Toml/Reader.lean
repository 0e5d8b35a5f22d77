import Mathlib
import Narrowing.Toml.Blank

/-!
What readers do on a text of which the front is known.
-/
namespace Narrowing.Toml
namespace Reader
variable {α β : Type}

@[simp]
theorem bind_apply (p : Reader α) (f : α → Reader β) (input : List Char) :
    (p >>= f) input = (p input).bind fun taken => f taken.1 taken.2 := rfl

@[simp]
theorem pure_apply (a : α) (input : List Char) : (pure a : Reader α) input = some (a, input) := rfl

@[simp]
theorem map_apply (f : α → β) (p : Reader α) (input : List Char) :
    (f <$> p) input = (p input).map fun taken => (f taken.1, taken.2) := by
  cases taken : p input <;> simp [Functor.map, StateT.map, taken]

@[simp]
theorem failure_apply (input : List Char) : (failure : Reader α) input = none := rfl

@[simp]
theorem orElse_apply (p q : Reader α) (input : List Char) :
    (p <|> q) input = (p input).or (q input) := by
  change (p input).orElse (fun _ => q input) = _
  cases p input <;> rfl

@[simp]
theorem seqRight_apply (p : Reader α) (q : Reader β) (input : List Char) :
    (p *> q) input = (p input).bind fun taken => q taken.2 := rfl

@[simp]
theorem seqLeft_apply (p : Reader α) (q : Reader β) (input : List Char) :
    (p <* q) input =
      (p input).bind fun taken => (q taken.2).map fun after => (taken.1, after.2) := by
  change ((p input).bind fun taken => (q taken.2).bind fun after => some (taken.1, after.2)) = _
  cases p input with
  | none => rfl
  | some taken => cases after : q taken.2 <;> simp [after]

@[simp]
theorem discard_apply (p : Reader α) (input : List Char) :
    (discard p : Reader Unit) input = (p input).map fun taken => ((), taken.2) :=
  map_apply (Function.const α ()) p input

@[simp]
theorem maybe_apply (p : Reader α) (input : List Char) :
    maybe p input =
      ((p input).map fun taken => (some taken.1, taken.2)).or (some (none, input)) := by
  simp [maybe]

@[simp]
theorem char_cons (ok : Char → Bool) (c : Char) (rest : List Char) :
    char ok (c :: rest) = if ok c then some (c, rest) else none := rfl

@[simp]
theorem char_nil (ok : Char → Bool) : char ok [] = none := rfl

@[simp]
theorem symbol_cons (c d : Char) (rest : List Char) :
    symbol c (d :: rest) = if d = c then some ((), rest) else none := by
  by_cases same : d = c <;> simp [symbol, same]

@[simp]
theorem symbol_nil (c : Char) : symbol c [] = none := rfl

theorem exactly_append (text : String) (rest : List Char) :
    exactly text (text.toList ++ rest) = some ((), rest) := by
  have symbols (cs : List Char) :
      (forM cs symbol : Reader PUnit) (cs ++ rest) = some ((), rest) := by
    induction cs with
    | nil => rfl
    | cons c cs ih => simp [ih]
  exact symbols text.toList

def Ends (ok : Char → Bool) (input : List Char) : Prop := input.head?.any ok = false

@[simp]
theorem ends_cons (ok : Char → Bool) (c : Char) (rest : List Char) :
    Ends ok (c :: rest) ↔ ok c = false := by
  simp [Ends]

@[simp]
theorem ends_nil (ok : Char → Bool) : Ends ok [] := rfl

theorem ne_of_kind {ok : Char → Bool} {c d : Char} (inside : ok c = true) (outside : ok d = false) :
    c ≠ d := by
  rintro rfl
  rw [inside] at outside
  cases outside

theorem not_mem_of_kind {ok : Char → Bool} {c : Char} {others : List Char} (inside : ok c = true)
    (outside : others.all (fun d => !ok d) = true) : c ∉ others := by
  intro listed
  have outside := List.all_eq_true.mp outside c listed
  simp [inside] at outside

variable {ok : Char → Bool} {front rest : List Char}

theorem Ends.take (ends : Ends ok rest) (n : ℕ) : Ends ok (rest.take n) := by
  cases rest with
  | nil => simp
  | cons c rest =>
    cases n with
    | zero => simp
    | succ n => simpa using ends

theorem run_append (all : ∀ c ∈ front, ok c = true) (ends : Ends ok rest) :
    run ok (front ++ rest) = some (front, rest) := by
  have stops : rest.takeWhile ok = [] ∧ rest.dropWhile ok = rest := by
    cases rest with
    | nil => exact ⟨rfl, rfl⟩
    | cons c rest => simp_all
  rw [run, List.takeWhile_append_of_pos all, List.dropWhile_append_of_pos all, stops.1, stops.2,
    List.append_nil]

theorem run_none (ends : Ends ok rest) : run ok rest = some ([], rest) :=
  have nothing : ∀ c ∈ [], ok c = true := by simp
  run_append nothing ends

theorem run1_append (nonempty : front ≠ []) (all : ∀ c ∈ front, ok c = true) (ends : Ends ok rest) :
    run1 ok (front ++ rest) = some (front, rest) := by
  obtain ⟨c, front, rfl⟩ := List.exists_cons_of_ne_nil nonempty
  have later := run_append (fun d inside => all d (List.mem_cons_of_mem c inside)) ends
  simp [run1, all c List.mem_cons_self, later]

theorem char_ends (ends : Ends ok rest) : char ok rest = none := by
  cases rest with
  | nil => rfl
  | cons c rest => simp_all

theorem symbol_ends {c : Char} (ends : Ends (· == c) rest) : symbol c rest = none := by
  cases rest with
  | nil => rfl
  | cons d rest => simpa using ends

theorem run1_ends (ends : Ends ok rest) : run1 ok rest = none := by
  simp [run1, char_ends ends]

/-- The turns of a repeated reader: each takes something, and the last text is refused. -/
inductive Repeats (p : Reader α) : List Char → List α → List Char → Prop
  | stop {input} (refused : p input = none) : Repeats p input [] input
  | step {input later rest a as} (taken : p input = some (a, later))
      (shorter : later.length < input.length) (more : Repeats p later as rest) :
      Repeats p input (a :: as) rest

theorem many_of_repeats {p : Reader α} {input rest : List Char} {as : List α}
    (turns : Repeats p input as rest) : many p input = some (as, rest) := by
  have enough : ∀ times, input.length ≤ times → upTo p times input = (as, rest) := by
    induction turns with
    | stop refused =>
      intro times _
      cases times with
      | zero => rfl
      | succ times => simp [upTo, refused]
    | step taken shorter _ ih =>
      intro times bound
      obtain ⟨times, rfl⟩ : ∃ n, times = n + 1 := ⟨times - 1, by omega⟩
      simp [upTo, taken, ih times (by omega)]
  rw [many, enough _ le_rfl]

theorem many_none {p : Reader α} {input : List Char} (refused : p input = none) :
    many p input = some ([], input) :=
  many_of_repeats (.stop refused)

end Reader

open Reader

@[simp]
theorem newline_cons (c : Char) (rest : List Char) (plain : c ≠ '\r') :
    newline (c :: rest) = if c = '\n' then some ((), rest) else none := by
  simp [newline, plain]

@[simp]
theorem newline_nil : newline [] = none := rfl

theorem blanks_none {rest : List Char} (ends : Ends isBlank rest) :
    blanks rest = some ((), rest) := by
  simp [blanks, run_none ends]

theorem lineEnd_newline (rest : List Char) : lineEnd ('\n' :: rest) = some ((), rest) := by
  simp [lineEnd, blanks_none, comment, lineBreak, isBlank]

end Narrowing.Toml
