import LexicalPaths.Text.Basic

/-!
# Digits

Reading and writing numbers digit by digit.  The digits are those of ASCII.
-/

namespace LexicalPaths.Text

def isHexDigit (c : Char) : Bool :=
  c.isDigit || ('a' ≤ c && c ≤ 'f') || ('A' ≤ c && c ≤ 'F')

def hexValue (c : Char) : Nat :=
  if c.isDigit then c.toNat - '0'.toNat
  else if 'a' ≤ c then c.toNat - 'a'.toNat + 10
  else c.toNat - 'A'.toNat + 10

/-- The natural number that digits spell to a base of at most 16. -/
def natOfDigits (base : Nat) (digits : Text) : Nat :=
  digits.foldl (fun n c => base * n + hexValue c) 0

/-- The decimal digits at the beginning of a text, and the rest. -/
def spanDigits (t : Text) : Text × Text :=
  (t.takeWhile Char.isDigit, t.dropWhile Char.isDigit)

/-- The most decimal digits that an integer is read from or written with. -/
def maxDigits : Nat := 4300

/-- The digits of `n` in base 16, in lower case, padded with zeros to `width`. -/
def hexDigits (width n : Nat) : Text :=
  let digits := Nat.toDigits 16 n
  List.replicate (width - digits.length) '0' ++ digits

end LexicalPaths.Text
