import Narrowing.Proofs.Toml.Reader
import Narrowing.Toml.Printer
import Narrowing.Toml.Strings

/-!
Quoted texts. The texts between the quotes have a grammar of their own, one for each quoting: plain
characters, line feeds, quotes that do not end the string, and escapes. What is written follows the
grammar, and what follows the grammar is read as it was meant.
-/
namespace Narrowing.Toml
open Reader

/-- What stands after a backslash for this character, and is no line break. -/
structure Escape (c : Char) (spelling : List Char) : Prop where
  reads : ∀ rest, escapeSequence ('\\' :: (spelling ++ rest)) = some (c, rest)
  joinless : ∀ rest, lineJoin ('\\' :: (spelling ++ rest)) = none

theorem codePoint_append {front : List Char} (digits : ∀ c ∈ front, isHexDigit c = true)
    (before rest : List Char) (valid : (digitsValue 16 (before ++ front)).isValidChar) :
    codePoint front.length before (front ++ rest) =
      some (Char.ofNat (digitsValue 16 (before ++ front)), rest) := by
  induction front generalizing before with
  | nil =>
    rw [List.append_nil] at valid ⊢
    simp [codePoint, valid]
  | cons c front ih =>
    have later := ih (fun d inside => digits d (List.mem_cons_of_mem c inside)) (before ++ [c])
      (by rwa [List.append_assoc])
    rw [List.append_assoc] at later
    simpa [codePoint, digits c List.mem_cons_self] using later

def hexText (n : ℕ) : List Char :=
  List.replicate (4 - ((Nat.toDigits 16 n).map Char.toUpper).length) '0' ++
    (Nat.toDigits 16 n).map Char.toUpper

theorem hexText_facts : ∀ n < 128, (hexText n).length = 4 ∧ (hexText n).all isHexDigit = true ∧
    digitsValue 16 (hexText n) = n := by
  decide +kernel

theorem Escape.ofDigits {c : Char} (small : c.toNat < 128) : Escape c ('u' :: hexText c.toNat) := by
  obtain ⟨length, digits, value⟩ := hexText_facts c.toNat small
  constructor
  · intro rest
    have read := codePoint_append (List.all_eq_true.mp digits) [] rest
      (by rw [List.nil_append, value]; exact Or.inl (by omega))
    rw [length, List.nil_append, value, Char.ofNat_toNat] at read
    simp [escapeSequence, read]
  · intro rest
    simp [lineJoin, blanks_none, isBlank]

theorem Escape.ofLetter {c letter : Char}
    (known : (c, letter) ∈ [('\x08', 'b'), ('\t', 't'), ('\n', 'n'), ('\x0c', 'f'), ('\r', 'r'),
      ('"', '"'), ('\\', '\\')]) : Escape c [letter] := by
  simp only [List.mem_cons, Prod.mk.injEq, List.not_mem_nil, or_false] at known
  rcases known with ⟨rfl, rfl⟩ | ⟨rfl, rfl⟩ | ⟨rfl, rfl⟩ | ⟨rfl, rfl⟩ | ⟨rfl, rfl⟩ | ⟨rfl, rfl⟩ |
    ⟨rfl, rfl⟩
  all_goals
    constructor <;> intro rest
    · simp [escapeSequence]
    · simp [lineJoin, blanks_none, isBlank]

namespace Quoting

def bare (q : Quoting) (c : Char) : Bool :=
  if q.isBasic then isPlain c && c != '"' && c != '\\' else isPlain c && c != '\''

/-- Written text and what it means, after some plain quotes. -/
inductive Body (q : Quoting) : ℕ → List Char → List Char → Prop
  | nil {quotes} : Body q quotes [] []
  | bare {quotes c w s} (plain : q.bare c = true) (more : Body q 0 w s) :
      Body q quotes (c :: w) (c :: s)
  | quote {quotes w s} (room : quotes < q.allowance) (more : Body q (quotes + 1) w s) :
      Body q quotes (q.mark :: w) (q.mark :: s)
  | newline {quotes w s} (long : q.isLong = true) (more : Body q 0 w s) :
      Body q quotes ('\n' :: w) ('\n' :: s)
  | escape {quotes c spelling w s} (basic : q.isBasic = true) (escape : Escape c spelling)
      (more : Body q 0 w s) : Body q quotes ('\\' :: (spelling ++ w)) (c :: s)

theorem bare_mark (q : Quoting) : q.bare q.mark = false := by
  cases q <;> decide

theorem isPlain_of_quiet {c : Char} (quiet : needsEscape c = false) (inline : c ≠ '\n') :
    isPlain c = true := by
  unfold needsEscape at quiet
  unfold isPlain
  rw [Bool.or_eq_false_iff] at quiet
  by_cases tab : c = '\t'
  · simp [tab]
  · have visible : ' ' ≤ c := by simpa [tab, inline] using quiet.1
    have other : c ≠ '\x7f' := by simpa using quiet.2
    simp [visible, other]

theorem small_of_needsEscape {c : Char} (control : needsEscape c = true) : c.toNat < 128 := by
  simp only [needsEscape, Bool.or_eq_true, Bool.and_eq_true, decide_eq_true_eq,
    beq_iff_eq] at control
  rcases control with ⟨⟨below, _⟩, _⟩ | rfl
  · have below : c.toNat < 32 := below
    omega
  · decide

theorem basicChar_cases (long : Bool) {c : Char} (other : c ≠ '"') :
    (basic.bare c = true ∧ basicChar long c = [c]) ∨
      (long = true ∧ c = '\n' ∧ basicChar long c = ['\n']) ∨
      ∃ spelling, basicChar long c = '\\' :: spelling ∧ Escape c spelling := by
  unfold basicChar
  split
  · rename_i same
    exact Or.inr (Or.inr ⟨['b'], rfl, same ▸ .ofLetter (by decide)⟩)
  split
  · rename_i same
    exact Or.inr (Or.inr ⟨['t'], rfl, same ▸ .ofLetter (by decide)⟩)
  split
  · rename_i same
    cases long with
    | true => exact Or.inr (Or.inl ⟨rfl, same, rfl⟩)
    | false => exact Or.inr (Or.inr ⟨['n'], rfl, same ▸ .ofLetter (by decide)⟩)
  split
  · rename_i same
    exact Or.inr (Or.inr ⟨['f'], rfl, same ▸ .ofLetter (by decide)⟩)
  split
  · rename_i same
    exact Or.inr (Or.inr ⟨['r'], rfl, same ▸ .ofLetter (by decide)⟩)
  split
  · rename_i same
    subst same
    exact Or.inr (Or.inr ⟨['\\'], rfl, .ofLetter (by decide)⟩)
  split
  · rename_i control
    exact Or.inr (Or.inr ⟨'u' :: hexText c.toNat, rfl, .ofDigits (small_of_needsEscape control)⟩)
  · rename_i inline _ _ backslash quiet
    have plain := isPlain_of_quiet (Bool.eq_false_iff.mpr quiet) inline
    exact Or.inl ⟨by simp [bare, isBasic, plain, other, backslash], rfl⟩

theorem basicBody_follows {q : Quoting} (kind : q.isBasic = true) (quotes : ℕ) (s : List Char) :
    Body q quotes (basicBody q quotes s) s := by
  have mark : q.mark = '"' := by rw [Quoting.mark, if_pos kind]
  have alike : q.bare = basic.bare := by
    funext c
    rw [bare, bare, kind]
    rfl
  induction s generalizing quotes with
  | nil => exact .nil
  | cons c s ih =>
    unfold basicBody
    split
    · rename_i same
      subst same
      split
      · rename_i room
        rw [← mark]
        exact .quote room (ih (quotes + 1))
      · have escape : Escape '"' ['"'] := .ofLetter (by decide)
        exact .escape kind escape (ih 0)
    · rename_i other
      rcases basicChar_cases q.isLong other with
        ⟨plain, written⟩ | ⟨long, rfl, written⟩ | ⟨spelling, written, escape⟩
      · rw [written]
        exact .bare (alike ▸ plain) (ih 0)
      · rw [written]
        exact .newline long (ih 0)
      · rw [written]
        exact .escape kind escape (ih 0)

def countRun (c : Char) : ℕ × ℕ → Char → ℕ × ℕ :=
  fun (best, now) d => if d = c then (max best (now + 1), now + 1) else (best, 0)

theorem best_le_runs (c : Char) (s : List Char) (best now : ℕ) :
    best ≤ (s.foldl (countRun c) (best, now)).1 := by
  induction s generalizing best now with
  | nil => exact le_rfl
  | cons d s ih =>
    rw [List.foldl_cons, countRun]
    split
    · exact (le_max_left _ _).trans (ih _ _)
    · exact ih _ _

theorem literal_follows {q : Quoting} (kind : q.isBasic = false) {s : List Char}
    (quiet : ∀ c ∈ s, needsEscape c = false) (inline : q.isLong = true ∨ '\n' ∉ s) (best quotes : ℕ)
    (runs : (s.foldl (countRun q.mark) (best, quotes)).1 ≤ q.allowance) :
    Body q quotes s s := by
  have mark : q.mark = '\'' := by rw [Quoting.mark, kind]; rfl
  induction s generalizing best quotes with
  | nil => exact .nil
  | cons c s ih =>
    have later := ih (fun d inside => quiet d (List.mem_cons_of_mem c inside))
      (inline.imp id fun absent inside => absent (List.mem_cons_of_mem c inside))
    rw [List.foldl_cons, countRun] at runs
    split at runs
    · rename_i same
      have room := (best_le_runs _ _ _ _).trans runs
      rw [same]
      exact .quote (by omega) (later _ _ runs)
    · rename_i other
      by_cases newline : c = '\n'
      · subst newline
        have long := inline.resolve_right fun absent => absent List.mem_cons_self
        exact .newline long (later _ _ runs)
      · have plain := isPlain_of_quiet (quiet c List.mem_cons_self) newline
        rw [mark] at other
        exact .bare (by simp [bare, kind, plain, other]) (later _ _ runs)

def special : Quoting → Reader (List Char)
  | basic => List.singleton <$> escapeSequence
  | literal => failure
  | longBasic =>
    (lineJoin *> pure []) <|> (List.singleton <$> escapeSequence)
      <|> (newline *> pure ['\n']) <|> innerQuotes '"'
  | longLiteral => (newline *> pure ['\n']) <|> innerQuotes '\''

def turn (q : Quoting) : Reader (List Char) := run1 q.bare <|> q.special

section
variable {q : Quoting} {rest : List Char}

theorem turn_bare {front : List Char} (nonempty : front ≠ []) (all : ∀ c ∈ front, q.bare c = true)
    (ends : Ends q.bare rest) : q.turn (front ++ rest) = some (front, rest) := by
  simp [turn, run1_append nonempty all ends]

theorem turn_special (ends : Ends q.bare rest) : q.turn rest = q.special rest := by
  simp [turn, run1_ends ends]

theorem turn_newline (long : q.isLong = true) : q.turn ('\n' :: rest) = some (['\n'], rest) := by
  rw [turn_special (by cases q <;> simp [bare, isPlain, isBasic])]
  cases q <;> simp [special, isLong, lineJoin, escapeSequence] at long ⊢

theorem turn_escape {c : Char} {spelling : List Char} (kind : q.isBasic = true)
    (escape : Escape c spelling) : q.turn ('\\' :: (spelling ++ rest)) = some ([c], rest) := by
  rw [turn_special (by rw [ends_cons, bare, kind]; decide)]
  cases q <;> simp [special, isBasic, escape.reads, escape.joinless, List.singleton] at kind ⊢

theorem quotes_some {count : ℕ} (c : Char) (positive : 0 < count) (ends : Ends (· == c) rest) :
    run1 (· == c) (List.replicate count c ++ rest) = some (List.replicate count c, rest) :=
  run1_append (by simpa using positive.ne') (by simp) ends

theorem innerQuotes_append {count : ℕ} (c : Char) (positive : 0 < count)
    (ends : Ends (· == c) rest) : innerQuotes c (List.replicate count c ++ rest) =
      if count ≤ 2 then some (List.replicate count c, rest) else none := by
  simp only [innerQuotes, bind_apply, quotes_some c positive ends, Option.bind_some,
    List.length_replicate]
  split <;> rfl

/-- Quotes of a long text are read together, if they are no end. -/
theorem turn_mark {count : ℕ} (positive : 0 < count) (ends : Ends (· == q.mark) rest) :
    q.turn (List.replicate count q.mark ++ rest) =
      if count ≤ q.allowance then some (List.replicate count q.mark, rest) else none := by
  have inner := innerQuotes_append q.mark positive ends
  obtain ⟨k, rfl⟩ : ∃ k, count = k + 1 := ⟨count - 1, by omega⟩
  rw [List.replicate_succ, List.cons_append] at inner ⊢
  rw [turn_special ((ends_cons _ _ _).mpr (bare_mark q))]
  cases q with
  | basic => simp [special, escapeSequence, mark, isBasic, allowance, isLong]
  | literal => simp [special, allowance, isLong]
  | longBasic =>
    simp only [mark, isBasic, allowance, isLong] at inner ⊢
    simpa [special, escapeSequence, lineJoin] using inner
  | longLiteral =>
    simp only [mark, isBasic, allowance, isLong] at inner ⊢
    simpa [special] using inner

theorem flush_plain {p next : List Char} {pieces : List (List Char)}
    (all : ∀ c ∈ p, q.bare c = true) (ends : Ends q.bare next)
    (turns : Repeats q.turn next pieces rest) :
    ∃ pieces', Repeats q.turn (p ++ next) pieces' rest ∧ pieces'.flatten = p ++ pieces.flatten := by
  cases p with
  | nil => exact ⟨pieces, turns, rfl⟩
  | cons c p =>
    exact ⟨_ :: pieces, .step (turn_bare (List.cons_ne_nil c p) all ends) (by simp) turns, rfl⟩

theorem flush_quotes {count : ℕ} {next : List Char} {pieces : List (List Char)}
    (room : count ≤ q.allowance) (ends : Ends (· == q.mark) next)
    (turns : Repeats q.turn next pieces rest) :
    ∃ pieces', Repeats q.turn (List.replicate count q.mark ++ next) pieces' rest ∧
      pieces'.flatten = List.replicate count q.mark ++ pieces.flatten := by
  cases count with
  | zero => exact ⟨pieces, turns, rfl⟩
  | succ k =>
    have taken := (turn_mark k.succ_pos ends).trans (if_pos room)
    exact ⟨_ :: pieces, .step taken (by simp) turns, rfl⟩

def Pending (q : Quoting) (quotes : ℕ) (p : List Char) : Prop :=
  (quotes = 0 ∧ ∀ c ∈ p, q.bare c = true) ∨
    (p = List.replicate quotes q.mark ∧ quotes ≤ q.allowance)

theorem pending_nil : q.Pending 0 [] := Or.inl ⟨rfl, by simp⟩

theorem Pending.flush {quotes : ℕ} {p next : List Char} {pieces : List (List Char)}
    (pending : q.Pending quotes p) (plain : Ends q.bare next) (ends : Ends (· == q.mark) next)
    (turns : Repeats q.turn next pieces rest) :
    ∃ pieces', Repeats q.turn (p ++ next) pieces' rest ∧ pieces'.flatten = p ++ pieces.flatten := by
  rcases pending with ⟨_, all⟩ | ⟨rfl, room⟩
  · exact flush_plain all plain turns
  · exact flush_quotes room ends turns

theorem ends_delimiter (q : Quoting) (rest : List Char) : Ends q.bare (q.delimiter ++ rest) := by
  cases q <;> rfl

theorem turn_end (count : ℕ) (ends : Ends (· == q.mark) rest) :
    q.turn (List.replicate count q.mark ++ (q.delimiter ++ rest)) = none := by
  rw [delimiter, ← List.append_assoc, List.replicate_append_replicate]
  refine (turn_mark ?_ ends).trans (if_neg ?_) <;> cases q <;> simp [isLong, allowance]

/-- Text that follows the grammar is read up to the end of the string. Quotes right before the end
    are left to it. -/
theorem repeats_of_body {quotes : ℕ} {w s : List Char} (body : q.Body quotes w s)
    (ends : Ends (· == q.mark) rest) {p : List Char} (pending : q.Pending quotes p) :
    ∃ pieces count, count ≤ q.allowance ∧
      Repeats q.turn (p ++ (w ++ (q.delimiter ++ rest))) pieces
        (List.replicate count q.mark ++ (q.delimiter ++ rest)) ∧
      pieces.flatten ++ List.replicate count q.mark = p ++ s := by
  -- The loop takes the longest runs, so what has been met of one waits in `p` for the character
  -- that ends it.
  induction body generalizing p with
  | nil =>
    rcases pending with ⟨rfl, all⟩ | ⟨rfl, room⟩
    · obtain ⟨pieces, turns, text⟩ :=
        flush_plain all (ends_delimiter q rest) (.stop (turn_end 0 ends))
      exact ⟨pieces, 0, Nat.zero_le _, turns, by simp [text]⟩
    · exact ⟨[], _, room, .stop (turn_end _ ends), by simp⟩
  | @bare quotes c w s plain more ih =>
    rcases pending with ⟨rfl, all⟩ | ⟨rfl, room⟩
    · have longer : q.Pending 0 (p ++ [c]) := by
        refine Or.inl ⟨rfl, fun d inside => ?_⟩
        rcases List.mem_append.mp inside with before | last
        · exact all d before
        · exact List.mem_singleton.mp last ▸ plain
      simpa using ih longer
    · have other : c ≠ q.mark := ne_of_kind plain q.bare_mark
      obtain ⟨pieces, count, few, turns, text⟩ := ih (p := [c]) (Or.inl ⟨rfl, by simpa using plain⟩)
      obtain ⟨pieces', turns', text'⟩ := flush_quotes room (by simpa using other) turns
      exact ⟨pieces', count, few, turns', by rw [text', List.append_assoc, text]; rfl⟩
  | @quote quotes w s room more ih =>
    rcases pending with ⟨rfl, all⟩ | ⟨rfl, _⟩
    · obtain ⟨pieces, count, few, turns, text⟩ := ih (p := [q.mark]) (Or.inr ⟨rfl, room⟩)
      obtain ⟨pieces', turns', text'⟩ := flush_plain all (by simp [bare_mark]) turns
      exact ⟨pieces', count, few, turns', by rw [text', List.append_assoc, text]; rfl⟩
    · have later := ih (p := List.replicate (quotes + 1) q.mark) (Or.inr ⟨rfl, room⟩)
      simpa [List.replicate_succ'] using later
  | @newline quotes w s long more ih =>
    obtain ⟨pieces, count, few, turns, text⟩ := ih pending_nil
    have turns : Repeats q.turn ('\n' :: (w ++ (q.delimiter ++ rest))) (['\n'] :: pieces) _ :=
      .step (turn_newline long) (by simp) turns
    obtain ⟨pieces', turns', text'⟩ := pending.flush
      (by cases q <;> simp [Quoting.bare, isPlain, isBasic]) (by cases q <;> rfl) turns
    refine ⟨pieces', count, few, turns', ?_⟩
    rw [text', List.flatten_cons, List.append_assoc, List.append_assoc, text]
    rfl
  | @escape quotes c spelling w s kind escape more ih =>
    obtain ⟨pieces, count, few, turns, text⟩ := ih pending_nil
    have turns :
        Repeats q.turn ('\\' :: (spelling ++ (w ++ (q.delimiter ++ rest)))) ([c] :: pieces) _ :=
      .step (turn_escape kind escape) (by simp) turns
    obtain ⟨pieces', turns', text'⟩ := pending.flush
      (by cases q <;> simp [Quoting.bare, isBasic] at kind ⊢) (by cases q <;> rfl) turns
    refine ⟨pieces', count, few, ?_, ?_⟩
    · simpa using turns'
    · rw [text', List.flatten_cons, List.append_assoc, List.append_assoc, text]
      rfl

theorem many_turn {w s : List Char} (body : q.Body 0 w s) (ends : Ends (· == q.mark) rest) :
    ∃ pieces count, count ≤ q.allowance ∧
      many q.turn (w ++ (q.delimiter ++ rest)) =
        some (pieces, List.replicate count q.mark ++ (q.delimiter ++ rest)) ∧
      pieces.flatten ++ List.replicate count q.mark = s := by
  obtain ⟨pieces, count, few, turns, text⟩ := repeats_of_body body ends pending_nil
  exact ⟨pieces, count, few, many_of_repeats turns, text⟩

theorem newline_none {quotes : ℕ} {w s : List Char} (body : q.Body quotes w s) (absent : '\n' ∉ s) :
    newline (w ++ (q.delimiter ++ rest)) = none := by
  cases body with
  | nil => cases q <;> simp [delimiter, mark, isLong, isBasic, List.replicate_succ]
  | @bare _ c w s plain _ =>
    have inline : c ≠ '\n' := fun same => absent (same ▸ List.mem_cons_self)
    have other : c ≠ '\r' := by
      rintro rfl
      cases q <;> simp [Quoting.bare, isPlain, isBasic] at plain
    simp [other, inline]
  | quote => cases q <;> simp [mark, isBasic]
  | newline => exact absurd List.mem_cons_self absent
  | escape => simp

def lead (q : Quoting) (s : List Char) : List Char :=
  if q.isLong && s.contains '\n' then ['\n'] else []

def read : Quoting → Reader String
  | basic => oneline '"' (basicRun <|> (List.singleton <$> escapeSequence))
  | literal => oneline '\'' literalRun
  | longBasic =>
    multiline '"' (basicRun <|> (lineJoin *> pure []) <|> (List.singleton <$> escapeSequence))
  | longLiteral => multiline '\'' literalRun

theorem string_eq : string =
    (longBasic.read <|> longLiteral.read <|> basic.read <|> literal.read) := rfl

theorem oneline_body {w s : List Char} (body : q.Body 0 w s) (ends : Ends (· == q.mark) rest)
    (short : q.isLong = false) :
    oneline q.mark q.turn (q.delimiter ++ (w ++ (q.delimiter ++ rest))) =
      some (String.ofList s, rest) := by
  obtain ⟨pieces, count, few, turns, text⟩ := many_turn body ends
  have none : count = 0 := by simpa [allowance, short] using few
  have delimiter : q.delimiter = [q.mark] := by rw [Quoting.delimiter, short]; rfl
  rw [none, List.replicate_zero, List.append_nil] at text
  rw [none, delimiter, List.replicate_zero, List.nil_append] at turns
  rw [delimiter]
  simp only [oneline, List.cons_append, List.nil_append, bind_apply, symbol_cons, if_pos,
    Option.bind_some] at turns ⊢
  simp [turns, text]

theorem closingQuotes_append {count : ℕ} (c : Char) (few : count ≤ 2) (ends : Ends (· == c) rest) :
    closingQuotes c (List.replicate count c ++ (List.replicate 3 c ++ rest)) =
      some (List.replicate count c, rest) := by
  rw [← List.append_assoc, List.replicate_append_replicate]
  simp only [closingQuotes, bind_apply, quotes_some c (Nat.succ_pos _) ends, Option.bind_some,
    List.length_replicate]
  rw [if_pos (by simp; omega)]
  simp

theorem maybe_newline {w s : List Char} (body : q.Body 0 w s) (long : q.isLong = true) :
    (discard (maybe newline) : Reader Unit) (q.lead s ++ (w ++ (q.delimiter ++ rest))) =
      some ((), w ++ (q.delimiter ++ rest)) := by
  unfold lead
  by_cases several : '\n' ∈ s
  · simp [long, several]
  · simp [several, newline_none body several]

theorem multiline_body {w s : List Char} {piece : Reader (List Char)} (body : q.Body 0 w s)
    (ends : Ends (· == q.mark) rest) (long : q.isLong = true)
    (loop : (piece <|> (newline *> pure ['\n']) <|> innerQuotes q.mark) = q.turn) :
    multiline q.mark piece (q.delimiter ++ (q.lead s ++ (w ++ (q.delimiter ++ rest)))) =
      some (String.ofList s, rest) := by
  obtain ⟨pieces, count, few, turns, text⟩ := many_turn body ends
  have few : count ≤ 2 := by simpa [allowance, long] using few
  have three : q.delimiter = List.replicate 3 q.mark := by rw [delimiter, long]; rfl
  have opened (input : List Char) : exactly (String.ofList [q.mark, q.mark, q.mark])
      (q.delimiter ++ input) = some ((), input) := by
    have read := exactly_append (String.ofList [q.mark, q.mark, q.mark]) input
    rw [String.toList_ofList] at read
    rwa [three]
  have closed := closingQuotes_append q.mark few ends
  rw [← three] at closed
  rw [multiline, loop]
  simp only [bind_apply, opened, Option.bind_some, maybe_newline body long, turns, closed,
    pure_apply, text]

theorem basicRun_eq (kind : q.isBasic = true) : basicRun = run1 q.bare :=
  congrArg run1 (funext fun _ => (if_pos kind).symm)

theorem literalRun_eq (kind : q.isBasic = false) : literalRun = run1 q.bare :=
  congrArg run1 (funext fun _ => (if_neg (by simp [kind])).symm)

theorem read_body {w s : List Char} (body : q.Body 0 w s) (ends : Ends (· == q.mark) rest) :
    q.read (q.delimiter ++ (q.lead s ++ (w ++ (q.delimiter ++ rest)))) =
      some (String.ofList s, rest) := by
  cases q with
  | basic =>
    have loop : (basicRun <|> (List.singleton <$> escapeSequence)) = turn basic := by
      rw [turn, basicRun_eq (q := basic) rfl]
      rfl
    rw [read, loop]
    exact oneline_body body ends rfl
  | literal =>
    have loop : literalRun = turn literal := by
      funext input
      simp [turn, special, literalRun_eq (q := literal) rfl]
    rw [read, loop]
    exact oneline_body body ends rfl
  | longBasic =>
    refine multiline_body (q := longBasic) body ends rfl ?_
    rw [basicRun_eq (q := longBasic) rfl]
    funext input
    simp [turn, special, mark, isBasic, Option.or_assoc]
  | longLiteral =>
    refine multiline_body (q := longLiteral) body ends rfl ?_
    rw [literalRun_eq (q := longLiteral) rfl]
    rfl

theorem exactly_three {c : Char} {input : List Char} (few : input.take 3 ≠ [c, c, c]) :
    exactly (String.ofList [c, c, c]) input = none := by
  rcases input with _ | ⟨d, _ | ⟨e, _ | ⟨f, rest⟩⟩⟩ <;> simp [exactly] at few ⊢
  exact few

theorem multiline_refuses {c : Char} (piece : Reader (List Char)) {input : List Char}
    (few : input.take 3 ≠ [c, c, c]) : multiline c piece input = none := by
  rw [multiline, bind_apply, exactly_three few]
  rfl

theorem few_quotes {w s : List Char} (body : q.Body 0 w s) (ends : Ends (· == q.mark) rest)
    (short : q.isLong = false) :
    (q.delimiter ++ (q.lead s ++ (w ++ (q.delimiter ++ rest)))).take 3 ≠
      [q.mark, q.mark, q.mark] := by
  have one : q.delimiter = [q.mark] := by rw [delimiter, short]; rfl
  have nothing : q.lead s = [] := by simp [lead, short]
  rw [one, nothing]
  cases body with
  | nil =>
    cases rest with
    | nil => simp
    | cons c rest => simpa using ends
  | @bare _ c w s plain _ =>
    have other : c ≠ q.mark := ne_of_kind plain q.bare_mark
    simp [other]
  | quote room => simp [allowance, short] at room
  | newline long => rw [short] at long; cases long
  | escape => cases q <;> simp [mark, isBasic]

/-- A text that follows the grammar of some quoting is read, and by no other reader before. -/
theorem string_body {w s : List Char} (body : q.Body 0 w s) (ends : Ends (· == q.mark) rest) :
    string (q.delimiter ++ (q.lead s ++ (w ++ (q.delimiter ++ rest)))) =
      some (String.ofList s, rest) := by
  have done := read_body body ends
  have few := few_quotes body ends
  generalize text : q.delimiter ++ (q.lead s ++ (w ++ (q.delimiter ++ rest))) = input at done few
  rw [string_eq]
  simp only [orElse_apply]
  cases q with
  | longBasic => rw [done, Option.some_or]
  | longLiteral =>
    have first : longBasic.read input = none :=
      multiline_refuses _
        (by rw [← text]; simp [delimiter, mark, isBasic, isLong, List.replicate_succ])
    rw [first, Option.none_or, done, Option.some_or]
  | basic =>
    have first : longBasic.read input = none := multiline_refuses _ (few rfl)
    have second : longLiteral.read input = none :=
      multiline_refuses _ (by rw [← text]; simp [delimiter, mark, isBasic, isLong])
    rw [first, second, Option.none_or, Option.none_or, done, Option.some_or]
  | literal =>
    have first : longBasic.read input = none :=
      multiline_refuses _ (by rw [← text]; simp [delimiter, mark, isBasic, isLong])
    have second : longLiteral.read input = none := multiline_refuses _ (few rfl)
    have third : basic.read input = none := by
      rw [← text]
      simp [read, oneline, delimiter, mark, isBasic, isLong]
    rw [first, second, third, Option.none_or, Option.none_or, Option.none_or, done]

end

def inside (q : Quoting) (s : List Char) : List Char := if q.isBasic then basicBody q 0 s else s

theorem write_toList (q : Quoting) (s : List Char) :
    (q.write s).toList = q.delimiter ++ (q.lead s ++ (q.inside s ++ q.delimiter)) := by
  unfold write
  dsimp only
  rw [String.toList_ofList, List.append_assoc, List.append_assoc]
  rfl

theorem inside_ofValue (s : List Char) : (ofValue s).Body 0 ((ofValue s).inside s) s := by
  unfold inside
  cases kind : (ofValue s).isBasic with
  | true => exact basicBody_follows kind 0 s
  | false =>
    have suited : (ofValue s).suits s = true := by
      unfold ofValue at kind ⊢
      cases found : [basic, literal, longBasic, longLiteral].find? (·.suits s) with
      | some q => exact List.find?_some (p := fun q => suits q s) found
      | none =>
        rw [found, Option.getD_none] at kind
        split at kind <;> cases kind
    simp only [suits, Bool.and_eq_true, decide_eq_true_eq, Bool.not_eq_true', Bool.or_eq_true,
      List.any_eq_false] at suited
    obtain ⟨⟨⟨quiet, runs⟩, inline⟩, _⟩ := suited
    exact literal_follows kind (fun c inside => Bool.eq_false_iff.mpr (quiet c inside))
      (inline.imp id (by simp)) 0 0 runs

end Quoting

/-- A text is read back from its quoted form, whichever it is. -/
theorem string_stringText (s : String) {rest : List Char} (ends : Ends (· == '"') rest)
    (ends' : Ends (· == '\'') rest) : string ((stringText s).toList ++ rest) = some (s, rest) := by
  have mark : Ends (· == (Quoting.ofValue s.toList).mark) rest := by
    unfold Quoting.mark
    split
    · exact ends
    · exact ends'
  have read := Quoting.string_body (Quoting.inside_ofValue s.toList) mark
  rw [String.ofList_toList] at read
  rw [stringText, Quoting.write_toList]
  simpa using read

end Narrowing.Toml
