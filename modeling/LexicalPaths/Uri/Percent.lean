import LexicalPaths.Text.Digits
import LexicalPaths.Text.Utf8

/-!
# Percent encoding

File paths as the paths of URIs: every byte of the UTF-8 form that is not a letter, a digit, one
of `_.-~`, or `/` is written as `%` and two hexadecimal digits.
-/

namespace LexicalPaths.Uri

def isPlainByte (b : UInt8) : Bool :=
  let c := Char.ofNat b.toNat
  b < 0x80 && (c.isAlphanum || c == '_' || c == '.' || c == '-' || c == '~' || c == '/')

/-- The upper-case hexadecimal digit of a number below 16. -/
def hexDigit (n : Nat) : Char :=
  if n < 10 then Char.ofNat ('0'.toNat + n) else Char.ofNat ('A'.toNat + (n - 10))

def encodeByte (b : UInt8) : Text :=
  if isPlainByte b then [Char.ofNat b.toNat]
  else ['%', hexDigit (b.toNat / 16), hexDigit (b.toNat % 16)]

def percentEncode (t : Text) : Text :=
  (Utf8.encode t).flatMap encodeByte

/-- The bytes that a text of ASCII characters spells.  A percent sign without two hexadecimal
digits behind it stands for itself. -/
def percentBytes : Text → List UInt8
  | '%' :: a :: b :: t =>
    if Text.isHexDigit a && Text.isHexDigit b then
      UInt8.ofNat (Text.natOfDigits 16 [a, b]) :: percentBytes t
    else 37 :: percentBytes (a :: b :: t)
  | c :: t => UInt8.ofNat c.toNat :: percentBytes t
  | [] => []

def isAscii (c : Char) : Bool :=
  c.toNat < 0x80

/-- Reads `pending`, a run of ASCII characters in reverse order, and then `t`. -/
def percentDecodeFrom (pending : Text) : Text → Text
  | [] => Utf8.decodeReplacing (percentBytes pending.reverse)
  | c :: t =>
    if isAscii c then percentDecodeFrom (c :: pending) t
    else Utf8.decodeReplacing (percentBytes pending.reverse) ++ c :: percentDecodeFrom [] t

def percentDecode (t : Text) : Text :=
  percentDecodeFrom [] t

end LexicalPaths.Uri
