import LexicalPaths.Datum.Basic
import LexicalPaths.Json.Reader
import LexicalPaths.Toml.Error

/-!
# Numbers of TOML documents

Integers to the bases 2, 8, 10 and 16, and decimal fractions.  Single underscores may stand between
digits.
-/

namespace LexicalPaths.Toml

/-- The digits behind a first one: each may have an underscore before it. -/
def moreDigits (isDigit : Char → Bool) : Text → Text × Text
  | '_' :: c :: t =>
    if isDigit c then
      let (found, rest) := moreDigits isDigit t
      (c :: found, rest)
    else ([], '_' :: c :: t)
  | c :: t =>
    if isDigit c then
      let (found, rest) := moreDigits isDigit t
      (c :: found, rest)
    else ([], c :: t)
  | [] => ([], [])

/-- The digits at the beginning of a text, if it starts with one. -/
def digits? (isDigit : Char → Bool) : Text → Option (Text × Text)
  | c :: t =>
    if isDigit c then
      let (found, rest) := moreDigits isDigit t
      some (c :: found, rest)
    else none
  | [] => none

/-- Whether the character is a digit to the base 2. -/
def isBinaryDigit (c : Char) : Bool :=
  c == '0' || c == '1'

/-- Whether the character is a digit to the base 8. -/
def isOctalDigit (c : Char) : Bool :=
  '0' ≤ c && c ≤ '7'

/-- The number that digits spell, if there are any, and the rest. -/
def inBase (base : Nat) (found? : Option (Text × Text)) : Option (Nat × Text) :=
  found?.map fun (found, rest) => (Text.natOfDigits base found, rest)

/-- The integer with a letter for its base at the beginning of a text. -/
def prefixed? : Text → Option (Nat × Text)
  | '0' :: 'x' :: t => inBase 16 (digits? Text.isHexDigit t)
  | '0' :: 'b' :: t => inBase 2 (digits? isBinaryDigit t)
  | '0' :: 'o' :: t => inBase 8 (digits? isOctalDigit t)
  | _ => none

/-- The digits before the point: one zero, or digits that do not start with zero. -/
def integerPart? : Text → Option (Text × Text)
  | '0' :: t => some (['0'], t)
  | t => digits? Char.isDigit t

/-- The fraction at the beginning of a text: its digits, and the rest. -/
def fraction : Text → Text × Text
  | '.' :: t => (digits? Char.isDigit t).getD ([], '.' :: t)
  | t => ([], t)

/-- The exponent at the beginning of a text, if there is one. -/
def exponent (t : Text) : Option Int × Text :=
  match t with
  | [] => (none, [])
  | c :: t' =>
    if c = 'e' ∨ c = 'E' then
      let (negative, t'') := Json.exponentSign t'
      match digits? Char.isDigit t'' with
      | some (found, rest) =>
        let n := Text.natOfDigits 10 found
        (some (if negative then -(n : Int) else n), rest)
      | none => (none, t)
    else (none, t)

/-- The decimal number at the beginning of a text, behind its sign; `none` if there is none. -/
def decimal? (negative : Bool) (t : Text) : Option (Read Datum) :=
  (integerPart? t).map fun (whole, rest) =>
    let (places, rest) := fraction rest
    let (power?, rest) := exponent rest
    if places = [] ∧ power? = none then
      if Text.maxDigits < whole.length then .error (.tooManyDigits whole.length)
      else
        let n := Text.natOfDigits 10 whole
        .ok (.int (if negative then -(n : Int) else n), rest)
    else
      let power := power?.getD 0 - places.length
      let digits := Text.natOfDigits 10 (whole ++ places)
      .ok (.float (Binary64.ofDecimal negative digits power), rest)

/-- The number at the beginning of a text that is not spelled with digits. -/
def specialNumber? (negative : Bool) : Text → Option (Read Datum)
  | 'i' :: 'n' :: 'f' :: rest => some (.ok (.float (.infinite negative), rest))
  | 'n' :: 'a' :: 'n' :: rest => some (.ok (.float .notNumber, rest))
  | _ => none

/-- The sign at the beginning of a text: whether it is a minus, and the rest. -/
def sign : Text → Bool × Text
  | '-' :: t => (true, t)
  | '+' :: t => (false, t)
  | t => (false, t)

def readNumber (t : Text) : Read Datum :=
  match prefixed? t with
  | some (n, rest) => .ok (.int n, rest)
  | none =>
    let (negative, unsigned) := sign t
    match decimal? negative unsigned, specialNumber? negative unsigned with
    | some found, _ => found
    | none, some found => found
    | none, none => fail t

end LexicalPaths.Toml
