import Narrowing.Toml.Numbers

/-!
Dates and times: a date, a time of day, or both with an optional offset. The parts are checked
against the calendar and the clock; a leap second is a second.
-/
namespace Narrowing.Toml
open Reader

def twoDigits (least greatest : Nat) : Reader Nat := do
  let a ← char isDigit
  let b ← char isDigit
  let n := digitsValue 10 [a, b]
  if least ≤ n && n ≤ greatest then return n else failure

def isLeapYear (year : Nat) : Bool := year % 4 == 0 && (year % 100 != 0 || year % 400 == 0)

def daysOf (year month : Nat) : Nat :=
  if month == 2 then (if isLeapYear year then 29 else 28)
  else if [4, 6, 9, 11].contains month then 30
  else 31

def date : Reader Unit := do
  let a ← char isDigit
  let b ← char isDigit
  let c ← char isDigit
  let d ← char isDigit
  let year := digitsValue 10 [a, b, c, d]
  symbol '-'
  let month ← twoDigits 1 12
  symbol '-'
  discard (twoDigits 1 (daysOf year month))

def timeOfDay : Reader Unit := do
  discard (twoDigits 0 23)
  symbol ':'
  discard (twoDigits 0 59)
  symbol ':'
  discard (twoDigits 0 60)
  discard (maybe (symbol '.' *> run1 isDigit))

def offset : Reader Unit :=
  discard (char fun c => c == 'Z' || c == 'z')
    <|> (do
      discard (char fun c => c == '+' || c == '-')
      discard (twoDigits 0 23)
      symbol ':'
      discard (twoDigits 0 59))

def datedMoment : Reader Unit := do
  date
  discard <| maybe do
    discard (char fun c => c == 'T' || c == 't' || c == ' ')
    timeOfDay
    discard (maybe offset)

def moment : Reader Datum := .moment <$> spelling (datedMoment <|> timeOfDay)

end Narrowing.Toml
