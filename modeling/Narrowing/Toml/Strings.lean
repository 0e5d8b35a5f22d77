import Narrowing.Toml.Blank

/-!
The four kinds of TOML strings: basic strings with escapes and literal strings without, each on
one line or over several.
-/
namespace Narrowing.Toml
open Reader

def hexValue? (c : Char) : Option Nat :=
  if '0' ≤ c && c ≤ '9' then some (c.toNat - '0'.toNat)
  else if 'a' ≤ c && c ≤ 'f' then some (c.toNat - 'a'.toNat + 10)
  else if 'A' ≤ c && c ≤ 'F' then some (c.toNat - 'A'.toNat + 10)
  else none

def isHexDigit (c : Char) : Bool := (hexValue? c).isSome

def digitsValue (base : Nat) (digits : List Char) : Nat :=
  digits.foldl (fun n c => n * base + (hexValue? c).getD 0) 0

def codePoint : Nat → List Char → Reader Char
  | 0, digits =>
    let n := digitsValue 16 digits
    if n.isValidChar then pure (Char.ofNat n) else failure
  | k + 1, digits => do
    let digit ← char isHexDigit
    codePoint k (digits ++ [digit])

def escapeSequence : Reader Char := do
  symbol '\\'
  match ← char fun _ => true with
  | 'b' => return '\x08'
  | 't' => return '\t'
  | 'n' => return '\n'
  | 'f' => return '\x0c'
  | 'r' => return '\r'
  | '"' => return '"'
  | '\\' => return '\\'
  | 'u' => codePoint 4 []
  | 'U' => codePoint 8 []
  | _ => failure

def lineJoin : Reader Unit := do
  symbol '\\'
  blanks
  newline
  discard (many ((discard (char isBlank)) <|> newline))

def innerQuotes (quote : Char) : Reader (List Char) := do
  let quotes ← run1 (· == quote)
  if quotes.length ≤ 2 then return quotes else failure

/-- The end of such a string. Up to two more quotes before the last three belong to the text. -/
def closingQuotes (quote : Char) : Reader (List Char) := do
  let quotes ← run1 (· == quote)
  if 3 ≤ quotes.length && quotes.length ≤ 5 then return quotes.drop 3 else failure

/-- The text from three quotes to three quotes. A line break right after the first three is not
    part of it, and any other counts as a line feed. -/
def multiline (quote : Char) (piece : Reader (List Char)) : Reader String := do
  exactly (String.ofList [quote, quote, quote])
  discard (maybe newline)
  let body ← many (piece <|> (newline *> pure ['\n']) <|> innerQuotes quote)
  let tail ← closingQuotes quote
  return String.ofList (body.flatten ++ tail)

def oneline (quote : Char) (piece : Reader (List Char)) : Reader String := do
  symbol quote
  let body ← many piece
  symbol quote
  return String.ofList body.flatten

def basicRun : Reader (List Char) := run1 fun c => isPlain c && c != '"' && c != '\\'

def literalRun : Reader (List Char) := run1 fun c => isPlain c && c != '\''

/-- A string on one line, the only kind a key may use. -/
def onelineString : Reader String :=
  oneline '"' (basicRun <|> (List.singleton <$> escapeSequence)) <|> oneline '\'' literalRun

def string : Reader String :=
  multiline '"' (basicRun <|> (lineJoin *> pure []) <|> (List.singleton <$> escapeSequence))
    <|> multiline '\'' literalRun <|> onelineString

end Narrowing.Toml
