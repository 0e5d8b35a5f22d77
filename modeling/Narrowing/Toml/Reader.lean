/-!
Readers: functions that take something off the front of a text, or fail. An alternative that fails
gives back all it took.
-/
namespace Narrowing.Toml

abbrev Reader (α : Type) := StateT (List Char) Option α

namespace Reader
variable {α : Type}

def char (ok : Char → Bool) : Reader Char := fun input =>
  match input with
  | c :: rest => if ok c then some (c, rest) else none
  | [] => none

def symbol (c : Char) : Reader Unit := do discard (char (· == c))

def exactly (text : String) : Reader Unit := text.toList.forM symbol

def run (ok : Char → Bool) : Reader (List Char) := fun input =>
  some (input.takeWhile ok, input.dropWhile ok)

def run1 (ok : Char → Bool) : Reader (List Char) := do
  let first ← char ok
  let rest ← run ok
  return first :: rest

def atEnd : Reader Unit := fun input =>
  match input with
  | [] => some ((), [])
  | _ :: _ => none

def maybe (p : Reader α) : Reader (Option α) := (some <$> p) <|> pure none

def upTo (p : Reader α) : Nat → List Char → List α × List Char
  | 0, input => ([], input)
  | times + 1, input =>
    match p input with
    | none => ([], input)
    | some (a, rest) =>
      let later := upTo p times rest
      (a :: later.1, later.2)

/-- Repeats a reader that takes something each time; there are no more turns than characters. -/
def many (p : Reader α) : Reader (List α) := fun input => some (upTo p input.length input)

def separated (p : Reader α) (separator : Reader Unit) : Reader (List α) := do
  let first ← p
  let rest ← many (separator *> p)
  return first :: rest

/-- What a reader took, as it was written. -/
def spelling (p : Reader α) : Reader String := fun input =>
  (p input).map fun taken =>
    (String.ofList (input.take (input.length - taken.2.length)), taken.2)

end Reader

end Narrowing.Toml
