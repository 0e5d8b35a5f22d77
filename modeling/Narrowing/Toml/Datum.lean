/-!
The tree of a TOML document.
-/
namespace Narrowing.Toml

/-- A TOML value. A date or time keeps its spelling. -/
inductive Datum where
  | text (s : String)
  | integer (n : Int)
  | number (x : Float)
  | boolean (b : Bool)
  | moment (spelling : String)
  | array (items : List Datum)
  | table (entries : List (String × Datum))

namespace Datum

def field? (entries : List (String × Datum)) (key : String) : Option Datum := entries.lookup key

def float? : Datum → Option Float
  | .integer n => some (Float.ofInt n)
  | .number x => some x
  | _ => none

def text? : Datum → Option String
  | .text s => some s
  | _ => none

def isHollow : Datum → Bool
  | .array [] => true
  | .table [] => true
  | _ => false

end Datum

def isBareKeyChar (c : Char) : Bool := c.isAlphanum || c == '_' || c == '-'

end Narrowing.Toml
