import Narrowing.Toml.Draft
import Narrowing.Toml.Moment

/-!
Reading a TOML document: values, keys, headers and lines, and the tree they build.
-/
namespace Narrowing.Toml
open Reader

/-- A key of this many parts is refused, and so is a value of this many levels. -/
def nestingLimit : Nat := 80

def simpleKey : Reader String := onelineString <|> (String.ofList <$> run1 isBareKeyChar)

def dottedKey : Reader (List String × String) := do
  let parts ← separated (blanks *> simpleKey <* blanks) (symbol '.')
  match parts.getLast? with
  | some last => if parts.length < nestingLimit then return (parts.dropLast, last) else failure
  | none => failure

def array (item : Reader Datum) : Reader Datum := do
  symbol '['
  let items ← maybe (separated (spacing *> item <* spacing) (symbol ',') <* maybe (symbol ','))
  spacing
  symbol ']'
  return .array (items.getD [])

def pair (value : Reader Datum) : Reader ((List String × String) × Datum) := do
  let key ← dottedKey
  symbol '='
  blanks
  return (key, ← value)

def inlineTable (value : Reader Datum) : Reader Datum := do
  symbol '\x7b'
  let pairs ← maybe (separated (pair value <* blanks) (symbol ','))
  blanks
  symbol '\x7d'
  let draft ← (pairs.getD []).foldlM (fun d p => Draft.assign d p.1.1 p.1.2 p.2) ([] : Draft)
  return .table (Node.fields draft)

def boolean : Reader Datum :=
  (exactly "true" *> pure (.boolean true)) <|> (exactly "false" *> pure (.boolean false))

def simpleValue : Reader Datum :=
  (.text <$> string) <|> boolean <|> moment <|> number <|> integer

/-- A value with at most so many arrays and inline tables around its parts. -/
def value : (levels : Nat) → Reader Datum
  | 0 => simpleValue
  | levels + 1 => simpleValue <|> array (value levels) <|> inlineTable (value levels)

inductive Line where
  | blank
  | assignment (path : List String) (key : String) (value : Datum)
  | tableHeader (path : List String) (key : String)
  | elementHeader (path : List String) (key : String)

def elementHeader : Reader Line := do
  exactly "[["
  let (path, key) ← dottedKey
  exactly "]]"
  lineEnd
  return .elementHeader path key

def tableHeader : Reader Line := do
  symbol '['
  let (path, key) ← dottedKey
  symbol ']'
  lineEnd
  return .tableHeader path key

def assignment : Reader Line := do
  let ((path, key), datum) ← pair (value (nestingLimit - 1))
  lineEnd
  return .assignment path key datum

def line : Reader Line := do
  blanks
  (newline *> pure .blank) <|> (comment *> lineBreak *> pure .blank)
    <|> elementHeader <|> tableHeader <|> assignment

def lines : Reader (List Line) := do
  discard (maybe (symbol '\ufeff'))
  let all ← many line
  blanks
  atEnd
  return all

structure Outline where
  root : Draft
  header : List String

def Outline.add (o : Outline) : Line → Option Outline
  | .blank => some o
  | .assignment path key datum => do
    return { o with root := ← o.root.assignWithin o.header path key datum }
  | .tableHeader path key => do return ⟨← o.root.openTable path key, path ++ [key]⟩
  | .elementHeader path key => do return ⟨← o.root.openElement path key, path ++ [key]⟩

def parse (text : String) : Option (List (String × Datum)) := do
  let (all, _) ← StateT.run lines text.toList
  let outline ← all.foldlM Outline.add ⟨[], []⟩
  return Node.fields outline.root

end Narrowing.Toml
