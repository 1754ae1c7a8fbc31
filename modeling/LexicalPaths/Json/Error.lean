import LexicalPaths.Text.Basic

/-!
# Faults of JSON documents

What can be wrong with a JSON document, and where.  A fault is first placed by how much of the
document is left, which a reader knows, and then by offset, line and column, which people read.
-/

namespace LexicalPaths.Json

/-- What is wrong with a JSON document. -/
inductive Fault where
  | expectingValue
  | expectingComma
  | expectingColon
  | expectingKey
  | extraData
  | unterminatedString
  | controlCharacter
  | escape
  | unicodeEscape
  | byteOrderMark
deriving DecidableEq

def Fault.message : Fault → Text
  | .expectingValue => "Expecting value".toList
  | .expectingComma => "Expecting ',' delimiter".toList
  | .expectingColon => "Expecting ':' delimiter".toList
  | .expectingKey => "Expecting property name enclosed in double quotes".toList
  | .extraData => "Extra data".toList
  | .unterminatedString => "Unterminated string starting at".toList
  | .controlCharacter => "Invalid control character at".toList
  | .escape => "Invalid \\escape".toList
  | .unicodeEscape => "Invalid \\uXXXX escape".toList
  | .byteOrderMark => "Unexpected UTF-8 BOM (decode using utf-8-sig)".toList

/-- Why a text is no document. -/
inductive Error where
  /-- The syntax is at fault where the given number of characters is left. -/
  | syntaxAt (fault : Fault) (left : Nat)
  | tooManyDigits (digits : Nat)
  /-- More lists and tables lie in each other than there is room for. -/
  | tooDeep
deriving DecidableEq

/-- The wording of a fault at an offset of the document: the offset, and the line and column that
it falls on. -/
def faultMessage (document : Text) (fault : Fault) (offset : Nat) : Text :=
  let read := document.take offset
  let line := read.count '\n' + 1
  let column := (read.reverse.takeWhile (· != '\n')).length + 1
  fault.message ++ ": line ".toList ++ (toString line).toList ++ " column ".toList ++
    (toString column).toList ++ " (char ".toList ++ (toString offset).toList ++ [')']

def tooManyDigitsMessage (digits : Nat) : Text :=
  "Exceeds the limit (4300 digits) for integer string conversion: value has ".toList ++
    (toString digits).toList ++
    " digits; use sys.set_int_max_str_digits() to increase the limit".toList

def tooDeepMessage : Text :=
  "maximum recursion depth exceeded".toList

end LexicalPaths.Json
