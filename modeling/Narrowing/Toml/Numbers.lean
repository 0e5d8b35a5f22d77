import Narrowing.Decimal.Basic
import Narrowing.Toml.Datum
import Narrowing.Toml.Strings

/-!
TOML numbers. Integers are decimal with an optional sign, or hexadecimal, octal or binary without
one, and have to fit 64 bits. Between two digits one underscore may stand.
-/
namespace Narrowing.Toml
open Reader

def digits (ok : Char → Bool) : Reader (List Char) := do
  let first ← char ok
  let rest ← many (char ok <|> (symbol '_' *> char ok))
  return first :: rest

def isDigit (c : Char) : Bool := '0' ≤ c && c ≤ '9'

def sign : Reader Bool := (symbol '-' *> pure true) <|> (symbol '+' *> pure false) <|> pure false

/-- The digits of a whole number. Only zero itself starts with a zero. -/
def wholeDigits : Reader (List Char) := do
  let first ← char isDigit
  if first == '0' then return [first]
  let rest ← many (char isDigit <|> (symbol '_' *> char isDigit))
  return first :: rest

def bounded (n : Int) : Reader Datum :=
  if -9223372036854775808 ≤ n && n ≤ 9223372036854775807 then pure (.integer n) else failure

def basedInteger (announcement : String) (base : Nat) (ok : Char → Bool) : Reader Datum := do
  exactly announcement
  bounded (digitsValue base (← digits ok))

def decimalInteger : Reader Datum := do
  let negative ← sign
  let size := digitsValue 10 (← wholeDigits)
  bounded (if negative then -(size : Int) else size)

def integer : Reader Datum :=
  basedInteger "0x" 16 isHexDigit
    <|> basedInteger "0o" 8 (fun c => '0' ≤ c && c ≤ '7')
    <|> basedInteger "0b" 2 (fun c => c == '0' || c == '1')
    <|> decimalInteger

def fraction : Reader (List Char) := symbol '.' *> digits isDigit

def exponent : Reader Int := do
  discard (char fun c => c == 'e' || c == 'E')
  let negative ← sign
  let size := digitsValue 10 (← digits isDigit)
  return if negative then -(size : Int) else size

/-- A decimal number with a fraction, an exponent or both. One too large for a finite double is
    refused on the positive side and minus infinity on the other. -/
def decimalNumber : Reader Datum := do
  let negative ← sign
  let whole ← wholeDigits
  let (places, power) ←
    (do
      let places ← fraction
      let power ← maybe exponent
      return (places, power.getD 0))
    <|> (do return ([], ← exponent))
  let size := Decimal.nearest ⟨digitsValue 10 (whole ++ places), power - places.length⟩
  let x := if negative then -size else size
  if x == infinity then failure else return .number x

def specialNumber : Reader Datum := do
  let negative ← sign
  let size ← (exactly "inf" *> pure infinity) <|> (exactly "nan" *> pure (0.0 / 0.0))
  return .number (if negative then -size else size)

def number : Reader Datum := decimalNumber <|> specialNumber

end Narrowing.Toml
