import LexicalPaths.Text.Digits
import LexicalPaths.Text.Printable

/-!
# Quoted texts

A quoted text stands between single quotes, or between double quotes if it holds a single quote
and no double one.  The quote in use, the backslash, and every character that is not printable
are escaped.
-/

namespace LexicalPaths.Text

/-- The escape of a character by its code point, with the fewest of two, four or eight digits. -/
def escapeCode (c : Char) : Text :=
  let n := c.toNat
  if n < 0x100 then ['\\', 'x'] ++ hexDigits 2 n
  else if n < 0x10000 then ['\\', 'u'] ++ hexDigits 4 n
  else ['\\', 'U'] ++ hexDigits 8 n

/-- The form of `c` between two `quote` characters. -/
def quotedChar (quote c : Char) : Text :=
  if c = quote ∨ c = '\\' then ['\\', c]
  else if c = '\n' then ['\\', 'n']
  else if c = '\r' then ['\\', 'r']
  else if c = '\t' then ['\\', 't']
  else if isPrintable c then [c]
  else escapeCode c

def quoteFor (t : Text) : Char :=
  if t.holds '\'' && !t.holds '"' then '"' else '\''

/-- The text between quotes, with its escapes. -/
def quoted (t : Text) : Text :=
  let quote := quoteFor t
  quote :: t.flatMap (quotedChar quote) ++ [quote]

end LexicalPaths.Text
