import Narrowing.Toml.Reader

/-!
What stands between the parts of a document: blanks, newlines and comments.
-/
namespace Narrowing.Toml
open Reader

def isBlank (c : Char) : Bool := c == ' ' || c == '\t'

/-- Any character that may stand inside a line: no control character but the tab. -/
def isPlain (c : Char) : Bool := c == '\t' || (' ' ≤ c && c != '\x7f')

def blanks : Reader Unit := do discard (run isBlank)

def newline : Reader Unit := symbol '\n' <|> (symbol '\r' *> symbol '\n')

def comment : Reader Unit := do
  symbol '#'
  discard (run isPlain)

def lineBreak : Reader Unit := newline <|> atEnd

def lineEnd : Reader Unit := do
  blanks
  discard (maybe comment)
  lineBreak

def spacing : Reader Unit := do
  discard (many ((discard (char isBlank)) <|> newline <|> (comment *> newline)))

end Narrowing.Toml
