import Narrowing.Decimal.Shortest
import Narrowing.Toml.Datum

/-!
Writing TOML. A string takes the first of four quotings that holds it without an escape: basic,
literal, long basic, long literal. Where none does, it is basic with escapes, long if it has a line
feed. Every other value has one spelling.
-/
namespace Narrowing.Toml

/-- Characters that no literal string can hold: controls, the tab and the line feed apart. -/
def needsEscape (c : Char) : Bool := (c < ' ' && c != '\t' && c != '\n') || c == '\x7f'

def longestRun (c : Char) (s : List Char) : Nat :=
  (s.foldl (fun (best, now) d => if d = c then (max best (now + 1), now + 1) else (best, 0))
    (0, 0)).1

/-- The four ways to quote a text. The long ones, between three quotes, may hold line feeds. -/
inductive Quoting
  | basic
  | literal
  | longBasic
  | longLiteral
  deriving DecidableEq, Repr

namespace Quoting

def isLong : Quoting → Bool
  | basic | literal => false
  | longBasic | longLiteral => true

def isBasic : Quoting → Bool
  | basic | longBasic => true
  | literal | longLiteral => false

def mark (q : Quoting) : Char := if q.isBasic then '"' else '\''

def delimiter (q : Quoting) : List Char := List.replicate (if q.isLong then 3 else 1) q.mark

def allowance (q : Quoting) : Nat := if q.isLong then 2 else 0

def suits (q : Quoting) (s : List Char) : Bool :=
  !s.any needsEscape && longestRun q.mark s <= q.allowance
    && (q.isLong || !s.contains '\n') && !(q.isBasic && s.contains '\\')

def ofValue (s : List Char) : Quoting :=
  ([basic, literal, longBasic, longLiteral].find? (·.suits s)).getD
    (if s.contains '\n' then longBasic else basic)

def ofKey (s : List Char) : Quoting :=
  ([basic, literal].find? (·.suits s)).getD basic

end Quoting

def basicChar (long : Bool) (c : Char) : List Char :=
  if c = '\x08' then ['\\', 'b']
  else if c = '\t' then ['\\', 't']
  else if c = '\n' then (if long then ['\n'] else ['\\', 'n'])
  else if c = '\x0c' then ['\\', 'f']
  else if c = '\r' then ['\\', 'r']
  else if c = '\\' then ['\\', '\\']
  else if needsEscape c then
    let digits := (Nat.toDigits 16 c.toNat).map Char.toUpper
    ['\\', 'u'] ++ List.replicate (4 - digits.length) '0' ++ digits
  else [c]

/-- Basic text with its escapes. Of a run of double quotes a long text leaves two plain before each
that it escapes, so that no three stand together; `run` counts the plain ones just written. -/
def basicBody (q : Quoting) (run : Nat) : List Char → List Char
  | [] => []
  | c :: rest =>
    if c = '"' then
      if run < q.allowance then '"' :: basicBody q (run + 1) rest
      else '\\' :: '"' :: basicBody q 0 rest
    else basicChar q.isLong c ++ basicBody q 0 rest

/-- A text between its quotes. A text of several lines starts on a line of its own. -/
def Quoting.write (q : Quoting) (s : List Char) : String :=
  let lead := if q.isLong && s.contains '\n' then ['\n'] else []
  let body := if q.isBasic then basicBody q 0 s else s
  String.ofList (q.delimiter ++ lead ++ body ++ q.delimiter)

def stringText (text : String) : String := (Quoting.ofValue text.toList).write text.toList

def isBareKey (s : List Char) : Bool :=
  !s.isEmpty && s.all isBareKeyChar

def keyText (key : String) : String :=
  if isBareKey key.toList then key else (Quoting.ofKey key.toList).write key.toList

def floatText (x : Float) : String :=
  if x.isNaN then "nan"
  else
    let text := numberText x
    if x.isInf || text.toList.contains '.' then text else text ++ ".0"

def integerText : Int → String
  | .ofNat n => Decimal.natText n
  | .negSucc n => "-" ++ Decimal.natText (n + 1)

mutual

def Datum.inline : Datum → String
  | .text s => stringText s
  | .integer n => integerText n
  | .number x => floatText x
  | .boolean b => if b then "true" else "false"
  | .moment spelling => spelling
  | .array items => "[" ++ ", ".intercalate (Datum.inlineItems items) ++ "]"
  | .table entries => "\x7b " ++ ", ".intercalate (Datum.inlineEntries entries) ++ " \x7d"

def Datum.inlineItems : List Datum → List String
  | [] => []
  | d :: rest => d.inline :: Datum.inlineItems rest

def Datum.inlineEntries : List (String × Datum) → List String
  | [] => []
  | (key, d) :: rest => (keyText key ++ " = " ++ d.inline) :: Datum.inlineEntries rest

end

def tableText (entries : List (String × Datum)) : String :=
  String.join ((Datum.inlineEntries entries).map (· ++ "\n"))

def sectionsText (sections : List (String × List (String × Datum))) : String :=
  "\n".intercalate (sections.map fun s => "[" ++ keyText s.1 ++ "]\n" ++ tableText s.2)

end Narrowing.Toml
