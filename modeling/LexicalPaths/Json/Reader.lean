import LexicalPaths.Datum.Basic
import LexicalPaths.Json.Error
import LexicalPaths.Text.Digits

/-!
# Reading JSON

A reader of JSON documents.  Besides the standard it reads `NaN`, `Infinity` and `-Infinity`.
When a key repeats, its last value counts.  Every step returns the value and the rest of the text.
How many lists and tables may lie in each other can be limited.
-/

namespace LexicalPaths.Json

/-- The outcome of reading something at the beginning of a text: a value and the rest. -/
abbrev Read (α : Type) := Except Error (α × Text)

/-- The fault that lies at the beginning of `rest`. -/
def fail {α : Type} (fault : Fault) (rest : Text) : Read α :=
  .error (.syntaxAt fault rest.length)

def isSpace (c : Char) : Bool :=
  c == ' ' || c == '\t' || c == '\n' || c == '\r'

def skipSpace (t : Text) : Text :=
  t.dropWhile isSpace

def simpleEscape? : Char → Option Char
  | '"' => some '"'
  | '\\' => some '\\'
  | '/' => some '/'
  | 'b' => some '\x08'
  | 'f' => some '\x0c'
  | 'n' => some '\n'
  | 'r' => some '\r'
  | 't' => some '\t'
  | _ => none

def hexQuad? (a b c d : Char) : Option Nat :=
  if [a, b, c, d].all Text.isHexDigit then some (Text.natOfDigits 16 [a, b, c, d]) else none

def isHighUnit (n : Nat) : Bool :=
  0xD800 ≤ n && n < 0xDC00

def isLowUnit (n : Nat) : Bool :=
  0xDC00 ≤ n && n < 0xE000

def pairChar (high low : Nat) : Char :=
  Char.ofNat (0x10000 + (high - 0xD800) * 0x400 + (low - 0xDC00))

/-- The character that stands for a code unit; one that has no partner is replaced. -/
def unitChar (n : Nat) : Char :=
  if isHighUnit n || isLowUnit n then '\ufffd' else Char.ofNat n

def consRead (c : Char) : Read Text → Read Text
  | .ok (t, rest) => .ok (c :: t, rest)
  | .error e => .error e

/-- The text of a string up to its closing quote.  `opening` is how much of the document was left
at the opening quote. -/
def stringFrom (opening : Nat) : Text → Read Text
  | [] => .error (.syntaxAt .unterminatedString opening)
  | '"' :: rest => .ok ([], rest)
  | ['\\'] => .error (.syntaxAt .unterminatedString opening)
  | '\\' :: 'u' :: a :: b :: c :: d :: '\\' :: 'u' :: w :: x :: y :: z :: e :: rest =>
    match hexQuad? a b c d with
    | none =>
      fail .unicodeEscape
        ('u' :: a :: b :: c :: d :: '\\' :: 'u' :: w :: x :: y :: z :: e :: rest)
    | some high =>
      if isHighUnit high then
        match hexQuad? w x y z with
        | none => fail .unicodeEscape ('u' :: w :: x :: y :: z :: e :: rest)
        | some low =>
          if isLowUnit low then consRead (pairChar high low) (stringFrom opening (e :: rest))
          else
            consRead (unitChar high)
              (stringFrom opening ('\\' :: 'u' :: w :: x :: y :: z :: e :: rest))
      else
        consRead (unitChar high)
          (stringFrom opening ('\\' :: 'u' :: w :: x :: y :: z :: e :: rest))
  | '\\' :: 'u' :: a :: b :: c :: d :: e :: rest =>
    match hexQuad? a b c d with
    | none => fail .unicodeEscape ('u' :: a :: b :: c :: d :: e :: rest)
    | some unit => consRead (unitChar unit) (stringFrom opening (e :: rest))
  | '\\' :: 'u' :: rest => fail .unicodeEscape ('u' :: rest)
  | '\\' :: c :: rest =>
    match simpleEscape? c with
    | some x => consRead x (stringFrom opening rest)
    | none => fail .escape ('\\' :: c :: rest)
  | c :: rest =>
    if c.toNat < 0x20 then fail .controlCharacter (c :: rest)
    else consRead c (stringFrom opening rest)

/-- The fraction at the beginning of a text: a point and at least one digit. -/
def fraction : Text → Text × Text
  | '.' :: t =>
    match Text.spanDigits t with
    | ([], _) => ([], '.' :: t)
    | found => found
  | t => ([], t)

/-- The sign at the beginning of a text: whether it is a minus, and the rest. -/
def exponentSign : Text → Bool × Text
  | '-' :: t => (true, t)
  | '+' :: t => (false, t)
  | t => (false, t)

/-- The exponent at the beginning of a text, if there is one: `e`, a sign, and at least one
digit. -/
def exponent (t : Text) : Option Int × Text :=
  match t with
  | c :: t' =>
    if c = 'e' ∨ c = 'E' then
      let (negative, t'') := exponentSign t'
      match Text.spanDigits t'' with
      | ([], _) => (none, t)
      | (found, rest) =>
        let n := Text.natOfDigits 10 found
        (some (if negative then -(n : Int) else n), rest)
    else (none, t)
  | [] => (none, [])

/-- The digits before the point: one zero, or digits that do not start with zero. -/
def integerPart : Text → Option (Text × Text)
  | '0' :: t => some (['0'], t)
  | c :: t => if c.isDigit then some (Text.spanDigits (c :: t)) else none
  | [] => none

/-- The number at the beginning of a text, behind its sign.  `token` starts at the sign. -/
def unsignedNumber (token : Text) (negative : Bool) (t : Text) : Read Datum :=
  match integerPart t with
  | none => fail .expectingValue token
  | some (whole, rest) =>
    let (places, rest) := fraction rest
    let (power?, rest) := exponent rest
    if places = [] ∧ power? = none then
      if Text.maxDigits < whole.length then .error (.tooManyDigits whole.length)
      else
        let n := Text.natOfDigits 10 whole
        .ok (.int (if negative then -(n : Int) else n), rest)
    else
      let power := power?.getD 0 - places.length
      let digits := Text.natOfDigits 10 (whole ++ places)
      .ok (.float (Binary64.ofDecimal negative digits power), rest)

def number (t : Text) : Read Datum :=
  match t with
  | '-' :: rest => unsignedNumber t true rest
  | _ => unsignedNumber t false t

/-- Reads what a bracket opens, with room for one list or table less within it.  `none` stands for
room without end. -/
def inBracket {α : Type} (room? : Option Nat) (inner : Option Nat → Read α) : Read α :=
  match room? with
  | none => inner none
  | some 0 => .error .tooDeep
  | some (room + 1) => inner (some room)

mutual

/-- The value at the beginning of a text, in which as many lists and tables may lie in each other as
there is room for.  `fuel` bounds how many values are read within it. -/
def value (room? : Option Nat) : Nat → Text → Read Datum
  | 0, t => fail .expectingValue t
  | fuel + 1, t =>
    match t with
    | '"' :: rest =>
      match stringFrom t.length rest with
      | .ok (s, rest) => .ok (.text s, rest)
      | .error e => .error e
    | '\x7b' :: rest =>
      inBracket room? fun room? =>
        match skipSpace rest with
        | '\x7d' :: rest => .ok (.table [], rest)
        | rest =>
          match entries room? fuel rest with
          | .ok (pairs, rest) => .ok (.table (Datum.tableEntries pairs), rest)
          | .error e => .error e
    | '[' :: rest =>
      inBracket room? fun room? =>
        match skipSpace rest with
        | ']' :: rest => .ok (.list [], rest)
        | rest =>
          match items room? fuel rest with
          | .ok (found, rest) => .ok (.list found, rest)
          | .error e => .error e
    | 'n' :: 'u' :: 'l' :: 'l' :: rest => .ok (.null, rest)
    | 't' :: 'r' :: 'u' :: 'e' :: rest => .ok (.bool true, rest)
    | 'f' :: 'a' :: 'l' :: 's' :: 'e' :: rest => .ok (.bool false, rest)
    | 'N' :: 'a' :: 'N' :: rest => .ok (.float .notNumber, rest)
    | 'I' :: 'n' :: 'f' :: 'i' :: 'n' :: 'i' :: 't' :: 'y' :: rest =>
      .ok (.float (.infinite false), rest)
    | '-' :: 'I' :: 'n' :: 'f' :: 'i' :: 'n' :: 'i' :: 't' :: 'y' :: rest =>
      .ok (.float (.infinite true), rest)
    | t => number t

/-- The items of a list, up to and with its closing bracket. -/
def items (room? : Option Nat) : Nat → Text → Read (List Datum)
  | 0, t => fail .expectingValue t
  | fuel + 1, t =>
    match value room? fuel t with
    | .error e => .error e
    | .ok (item, rest) =>
      match skipSpace rest with
      | ']' :: rest => .ok ([item], rest)
      | ',' :: rest =>
        match items room? fuel (skipSpace rest) with
        | .ok (found, rest) => .ok (item :: found, rest)
        | .error e => .error e
      | rest => fail .expectingComma rest

/-- The entries of a table, up to and with its closing brace. -/
def entries (room? : Option Nat) : Nat → Text → Read (List (Text × Datum))
  | 0, t => fail .expectingKey t
  | fuel + 1, t =>
    match t with
    | '"' :: rest =>
      match stringFrom t.length rest with
      | .error e => .error e
      | .ok (key, rest) =>
        match skipSpace rest with
        | ':' :: rest =>
          match value room? fuel (skipSpace rest) with
          | .error e => .error e
          | .ok (item, rest) =>
            match skipSpace rest with
            | '\x7d' :: rest => .ok ([(key, item)], rest)
            | ',' :: rest =>
              match entries room? fuel (skipSpace rest) with
              | .ok (found, rest) => .ok ((key, item) :: found, rest)
              | .error e => .error e
            | rest => fail .expectingComma rest
        | rest => fail .expectingColon rest
    | t => fail .expectingKey t

end

/-- Reads a document in which as many lists and tables may lie in each other as there is room
for. -/
def readWithin (room? : Option Nat) (document : Text) : Except Error Datum :=
  if document.head? = some '\ufeff' then .error (.syntaxAt .byteOrderMark document.length)
  else
    match value room? (2 * document.length + 1) (skipSpace document) with
    | .error e => .error e
    | .ok (found, rest) =>
      match skipSpace rest with
      | [] => .ok found
      | rest => .error (.syntaxAt .extraData rest.length)

def read (document : Text) : Except Error Datum :=
  readWithin none document

end LexicalPaths.Json
